import MailSieve.Position

/-!
# Parse trees

One node per production of the grammar. The type is loose: it also holds trees
no text derives, such as a test inside an argument.
-/

namespace MailSieve

inductive NodeKind
  | start
  | commands
  | command
  | block
  | arguments
  | argument
  | test
  | testList
  | stringList
  | string
  | number
  | tag
deriving DecidableEq

def NodeKind.name : NodeKind → String
  | start => "start"
  | commands => "commands"
  | command => "command"
  | block => "block"
  | arguments => "arguments"
  | argument => "argument"
  | test => "test"
  | testList => "test-list"
  | stringList => "string-list"
  | string => "string"
  | number => "number"
  | tag => "tag"

inductive Node
  | start (children : List Node)
  | commands (children : List Node)
  | command (name : String) (position : Position) (children : List Node)
  | block (children : List Node)
  | arguments (children : List Node)
  | argument (children : List Node)
  | test (name : String) (position : Position) (children : List Node)
  | testList (children : List Node)
  | stringList (children : List Node)
  /-- The literal as it is written, with its delimiters. -/
  | string (literal : String)
  | number (literal : String)
  | tag (name : String)

namespace Node

def kind : Node → NodeKind
  | start _ => .start
  | commands _ => .commands
  | command _ _ _ => .command
  | block _ => .block
  | arguments _ => .arguments
  | argument _ => .argument
  | test _ _ _ => .test
  | testList _ => .testList
  | stringList _ => .stringList
  | string _ => .string
  | number _ => .number
  | tag _ => .tag

def children : Node → List Node
  | start cs | commands cs | command _ _ cs | block cs | arguments cs | argument cs
  | test _ _ cs | testList cs | stringList cs => cs
  | string _ | number _ | tag _ => []

end Node

end MailSieve
