import MailSieve.Mail
import MailSieve.Matching.Comparator
import MailSieve.Registry.Basic

/-!
# Built-in commands, tests and comparators

Each has an id, which is also the name it is registered under unless a
configuration says otherwise.
-/

namespace MailSieve

inductive CommandKind
  | ifThen
  | elseIf
  | otherwise
  | require
  | stop
  | keep
  | discard
  | redirect
  | reject
  | fileInto
deriving DecidableEq

namespace CommandKind

def all : List CommandKind :=
  [ifThen, elseIf, otherwise, require, stop, keep, discard, redirect, reject, fileInto]

def id : CommandKind → String
  | ifThen => "if"
  | elseIf => "elsif"
  | otherwise => "else"
  | require => "require"
  | stop => "stop"
  | keep => "keep"
  | discard => "discard"
  | redirect => "redirect"
  | reject => "reject"
  | fileInto => "fileinto"

def ofId? (id : String) : Option CommandKind :=
  all.find? (·.id = id)

def isExtension : CommandKind → Bool
  | reject | fileInto => true
  | _ => false

end CommandKind

/-- A test the host supplies. It sees the message and its own operands only. -/
structure HostTest where
  check : Test → Except Error Unit
  evaluate : Mail → Test → Except Error Bool
  isExtension : Bool

inductive TestKind
  | address
  | allOf
  | anyOf
  | present
  | constant (value : Bool)
  | header
  | negation
  | size
  | envelope
  | body
  | host (test : HostTest)

namespace TestKind

def all : List (String × TestKind) := [
  ("address", address), ("allof", allOf), ("anyof", anyOf), ("exists", present),
  ("false", constant false), ("header", header), ("not", negation), ("size", size),
  ("true", constant true), ("envelope", envelope), ("body", body)]

def ofId? (id : String) : Option TestKind :=
  all.lookup id

def isExtension : TestKind → Bool
  | envelope | body => true
  | host test => test.isExtension
  | _ => false

end TestKind

namespace Comparator

def all : List (String × Comparator) :=
  [("i;octet", octet), ("i;ascii-casemap", asciiCasemap)]

def ofId? (id : String) : Option Comparator :=
  all.lookup id

end Comparator

end MailSieve
