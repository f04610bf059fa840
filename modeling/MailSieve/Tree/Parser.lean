import MailSieve.Token.Lexer

/-!
# From tokens to a tree

The grammar, over tokens that are no comments:

* start = commands;  commands = *command
* command = identifier arguments (";" / block);  block = "{" commands "}"
* arguments = *argument [test / test-list];  test = identifier arguments
* argument = string / number / tag / "[" string *("," string) "]"
* test-list = "(" test *("," test) ")"

The parser is a machine that reads one token at a time. Its state holds what is
still open: the sequences of commands, innermost first, and inside the innermost
one the command or tests whose arguments are being read. Blocks and tests may be
nested to the depth `maxNesting`.
-/

namespace MailSieve

namespace Parser

def maxNesting : Nat := 256

inductive Sequence
  | top (commands : List Node)
  | block (outer : Sequence) (name : String) (position : Position) (arguments : List Node)
      (brace : Position) (commands : List Node)

namespace Sequence

def depth : Sequence → Nat
  | top _ => 0
  | block outer .. => outer.depth + 1

def push : Sequence → Node → Sequence
  | top commands, c => top (commands ++ [c])
  | block outer name position arguments brace commands, c =>
    block outer name position arguments brace (commands ++ [c])

end Sequence

inductive Holder
  | command (within : Sequence) (name : String) (position : Position) (arguments : List Node)
  | test (within : Holder) (name : String) (position : Position) (arguments : List Node)
  /-- A test in a list that ends the arguments of another holder, after the
  tests already read. -/
  | listed (within : Holder) (tests : List Node) (name : String) (position : Position)
      (arguments : List Node)

namespace Holder

def depth : Holder → Nat
  | command within .. => within.depth
  | test within .. => within.depth + 1
  | listed within .. => within.depth + 1

def push : Holder → Node → Holder
  | command within name position arguments, a => command within name position (arguments ++ [a])
  | test within name position arguments, a => test within name position (arguments ++ [a])
  | listed within tests name position arguments, a =>
    listed within tests name position (arguments ++ [a])

end Holder

def testNode (name : String) (position : Position) (arguments : List Node) : Node :=
  .test name position [.arguments arguments]

inductive Closed
  | command (within : Sequence) (name : String) (position : Position) (arguments : List Node)
  | testList (within : Holder) (tests : List Node)

/-- Ends the arguments of a holder, `extra` being the last of them, and of the
holders whose arguments end with it. -/
def Holder.close : Holder → List Node → Closed
  | command within name position arguments, extra =>
    .command within name position (arguments ++ extra)
  | test within name position arguments, extra =>
    within.close [testNode name position (arguments ++ extra)]
  | listed within tests name position arguments, extra =>
    .testList within (tests ++ [testNode name position (arguments ++ extra)])

inductive State
  | commands (sequence : Sequence)
  | arguments (holder : Holder)
  /-- The holder has had its test list and takes nothing more. -/
  | full (holder : Holder)
  | test (within : Holder) (tests : List Node)
  | string (holder : Holder) (strings : List Node)
  | stringEnd (holder : Holder) (strings : List Node)

def unexpected (expected : Expected) (t : PlacedToken) : Except Error State :=
  .error ((Fault.grammar (.unexpected expected (some t.token))).errorAt t.position)

def nested (depth : Nat) (position : Position) (next : State) : Except Error State :=
  if depth ≤ maxNesting then .ok next else .error ((Fault.grammar .tooDeep).errorAt position)

/-- Reads the token after the arguments of a command, or after a test of a list. -/
def stepClosed (closed : Closed) (t : PlacedToken) : Except Error State :=
  match closed with
  | .command within name position arguments =>
    match t.token with
    | .punct .semicolon =>
      .ok (.commands (within.push (.command name position [.arguments arguments])))
    | .punct .openBrace =>
      nested (within.depth + 1) t.position
        (.commands (.block within name position arguments t.position []))
    | _ => unexpected .commandEnd t
  | .testList within tests =>
    match t.token with
    | .punct .comma => .ok (.test within tests)
    | .punct .closeParen => .ok (.full (within.push (.testList tests)))
    | _ => unexpected .testListEnd t

def step (state : State) (t : PlacedToken) : Except Error State :=
  match state with
  | .commands sequence =>
    match t.token with
    | .identifier name => .ok (.arguments (.command sequence name t.position []))
    | .punct .closeBrace =>
      match sequence with
      | .top _ => unexpected .command t
      | .block outer name position arguments _ commands =>
        .ok (.commands (outer.push
          (.command name position [.arguments arguments, .block [.commands commands]])))
    | _ => unexpected .command t
  | .arguments holder =>
    match t.token with
    | .quoted literal | .multiline literal =>
      .ok (.arguments (holder.push (.argument [.string literal])))
    | .number literal => .ok (.arguments (holder.push (.argument [.number literal])))
    | .tag name => .ok (.arguments (holder.push (.argument [.tag name])))
    | .punct .openBracket => .ok (.string holder [])
    | .identifier name =>
      nested (holder.depth + 1) t.position (.arguments (.test holder name t.position []))
    | .punct .openParen => nested (holder.depth + 1) t.position (.test holder [])
    | _ => stepClosed (holder.close []) t
  | .full holder => stepClosed (holder.close []) t
  | .test within tests =>
    match t.token with
    | .identifier name => .ok (.arguments (.listed within tests name t.position []))
    | _ => unexpected .test t
  | .string holder strings =>
    match t.token with
    | .quoted literal | .multiline literal => .ok (.stringEnd holder (strings ++ [.string literal]))
    | _ => unexpected .string t
  | .stringEnd holder strings =>
    match t.token with
    | .punct .comma => .ok (.string holder strings)
    | .punct .closeBracket => .ok (.arguments (holder.push (.argument [.stringList strings])))
    | _ => unexpected .stringListEnd t

def run (state : State) : List PlacedToken → Except Error State
  | [] => .ok state
  | t :: ts =>
    match step state t with
    | .error e => .error e
    | .ok next => run next ts

def endExpected (expected : Expected) : Except Error Node :=
  .error (Fault.grammar (.unexpected expected none)).error

def finish : State → Except Error Node
  | .commands (.top commands) => .ok (.start [.commands commands])
  | .commands (.block _ _ _ _ brace _) => .error ((Fault.grammar .openBlock).errorAt brace)
  | .arguments holder | .full holder =>
    match holder.close [] with
    | .command .. => endExpected .commandEnd
    | .testList .. => endExpected .testListEnd
  | .test _ _ => endExpected .test
  | .string _ _ => endExpected .string
  | .stringEnd _ _ => endExpected .stringListEnd

end Parser

def parseTokens (tokens : List PlacedToken) : Except Error Node :=
  match Parser.run (.commands (.top [])) tokens with
  | .error e => .error e
  | .ok state => Parser.finish state

def withoutComments (tokens : List PlacedToken) : List PlacedToken :=
  tokens.filter fun t => !t.token.isComment

def parse (text : String) : Except Error Node :=
  match tokenize text with
  | .error e => .error e
  | .ok tokens => parseTokens (withoutComments tokens)

end MailSieve
