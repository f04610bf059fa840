import MailSieve.Script.Literal
import MailSieve.Text.Lowercase
import MailSieve.Tree.Parser

/-!
# From a tree to a script

Every node becomes a `Reading`, and a parent sorts the readings of its
children. Children are taken from left to right and the first fault counts,
whether it lies in a child or in its being where it is.
-/

namespace MailSieve

inductive Reading
  | commands (commands : List Command)
  | command (command : Command)
  | block (commands : List Command)
  | arguments (positional : List Argument) (tests : Option (List Test))
  | argument (argument : Argument)
  | test (test : Test)
  | testList (tests : List Test)
  | strings (items : List String)
  | number (value : Nat)
  | tag (name : String)

namespace Reading

def kind : Reading → NodeKind
  | commands _ => .commands
  | command _ => .command
  | block _ => .block
  | arguments _ _ => .arguments
  | argument _ => .argument
  | test _ => .test
  | testList _ => .testList
  | strings _ => .string
  | number _ => .number
  | tag _ => .tag

def command? : Reading → Option Command
  | command c => some c
  | _ => none

def test? : Reading → Option Test
  | test t => some t
  | _ => none

def strings? : Reading → Option (List String)
  | strings items => some items
  | _ => none

abbrev Results := List (Except Error Reading)

def misplaced (found parent : NodeKind) : Error :=
  (Fault.tree (.misplaced found (some parent))).error

def collect (parent : NodeKind) (pick : Reading → Option α) : Results → Except Error (List α)
  | [] => .ok []
  | r :: rs => do
    let f ← r
    match pick f with
    | some a => return a :: (← collect parent pick rs)
    | none => throw (misplaced f.kind parent)

structure CommandParts where
  arguments : Option (List Argument × Option (List Test)) := none
  block : Option (List Command) := none

def collectCommand (name : String) (position : Position) (parts : CommandParts) :
    Results → Except Error CommandParts
  | [] => .ok parts
  | r :: rs => do
    match ← r with
    | .arguments positional tests =>
      if parts.arguments.isSome then
        throw ((Fault.tree (.twoArgumentLists .command name)).errorAt position)
      collectCommand name position { parts with arguments := some (positional, tests) } rs
    | .block body =>
      if parts.block.isSome then throw ((Fault.tree (.twoBlocks name)).errorAt position)
      collectCommand name position { parts with block := some body } rs
    | f => throw ((misplaced f.kind .command).locate position)

def collectTest (name : String) (position : Position)
    (known : Option (List Argument × Option (List Test))) :
    Results → Except Error (Option (List Argument × Option (List Test)))
  | [] => .ok known
  | r :: rs => do
    match ← r with
    | .arguments positional tests =>
      if known.isSome then
        throw ((Fault.tree (.twoArgumentLists .test name)).errorAt position)
      collectTest name position (some (positional, tests)) rs
    | f => throw ((misplaced f.kind .test).locate position)

def collectArguments (positional : List Argument) (tests : Option (List Test)) :
    Results → Except Error (List Argument × Option (List Test))
  | [] => .ok (positional, tests)
  | r :: rs => do
    match ← r with
    | .argument a => collectArguments (positional ++ [a]) tests rs
    | .test t =>
      if tests.isSome then throw (Fault.tree .twoTestLists).error
      collectArguments positional (some [t]) rs
    | .testList ts =>
      if tests.isSome then throw (Fault.tree .twoTestLists).error
      collectArguments positional (some ts) rs
    | f => throw (misplaced f.kind .arguments)

/-- Strings are joined into one list; a number or tag stands alone. -/
def collectArgument (strings : Option (List String)) (single : Option Argument) :
    Results → Except Error (Option (List String) × Option Argument)
  | [] => .ok (strings, single)
  | r :: rs => do
    match ← r with
    | .strings items => collectArgument (some (strings.getD [] ++ items)) single rs
    | .number value => collectArgument strings (some (.number value)) rs
    | .tag name => collectArgument strings (some (.tag name)) rs
    | f => throw (misplaced f.kind .argument)

def ofArgument (results : Results) : Except Error Reading := do
  match ← collectArgument none none results with
  | (some items, none) => return .argument (.strings items)
  | (none, some a) =>
    if results.length = 1 then return .argument a
    else throw (Fault.tree .mixedArgument).error
  | (none, none) => throw (Fault.tree .emptyArgument).error
  | (some _, some _) => throw (Fault.tree .mixedArgument).error

def ofCommand (name : String) (position : Position) (results : Results) :
    Except Error Reading := do
  let parts ← collectCommand name position {} results
  let (positional, tests) := parts.arguments.getD ([], none)
  return .command ⟨name, positional, tests, parts.block, position⟩

def ofTest (name : String) (position : Position) (results : Results) : Except Error Reading := do
  let (positional, tests) := (← collectTest name position none results).getD ([], none)
  return .test ⟨name, positional, tests, position⟩

def ofArguments (results : Results) : Except Error Reading := do
  let (positional, tests) ← collectArguments [] none results
  return .arguments positional tests

def ofBlock : Results → Except Error Reading
  | [r] => do
    match ← r with
    | .commands body => return .block body
    | f => throw (misplaced f.kind .block)
  | _ => throw (Fault.tree .blockArity).error

def ofStringList (results : Results) : Except Error Reading := do
  return .strings (← collect .stringList strings? results).flatten

def ofLiteral (make : α → Reading) : Except LiteralFault α → Except Error Reading
  | .ok a => .ok (make a)
  | .error fault => .error (Fault.literal fault).error

mutual
def ofNode : Node → Except Error Reading
  | .start _ => throw (Fault.tree (.misplaced .start none)).error
  | .commands children => return .commands (← collect .commands command? (ofNodes children))
  | .command name position children => ofCommand name position (ofNodes children)
  | .block children => ofBlock (ofNodes children)
  | .arguments children => ofArguments (ofNodes children)
  | .argument children => ofArgument (ofNodes children)
  | .test name position children => ofTest name position (ofNodes children)
  | .testList children => return .testList (← collect .testList test? (ofNodes children))
  | .stringList children => ofStringList (ofNodes children)
  | .string literal => ofLiteral (fun s => .strings [s]) (Literal.string literal)
  | .number literal => ofLiteral .number (Literal.number literal)
  | .tag name => return .tag (Text.lowercase name)
def ofNodes : List Node → Results
  | [] => []
  | n :: ns => ofNode n :: ofNodes ns
end

end Reading

namespace Script

def ofTree : Node → Except Error Script
  | .start [child] => do
    match ← Reading.ofNode child with
    | .commands commands => return commands
    | f => throw (Reading.misplaced f.kind .start)
  | .start children => throw (Fault.tree (.rootArity children.length)).error
  | n => throw (Fault.tree (.rootKind n.kind)).error

/-- The script of a text. Names and operands are not checked. -/
def compile (text : String) : Except Error Script := do
  ofTree (← parse text)

end Script

end MailSieve
