/-!
# Options of the command line

Options may stand before, between and after the two positional arguments. An
option's value follows it or is joined to it, short options may be joined to
each other, and `--` ends the options.
-/

namespace MailSieve.CommandLine

structure Options where
  script : String
  message : Option String
  config : Option String
  envelopeFrom : Option String
  envelopeTo : List String
  json : Bool
  check : Bool
  verbose : Bool
deriving DecidableEq

inductive Invocation
  | run (options : Options)
  | version
  | help
  | misuse
deriving DecidableEq

inductive ValueOption
  | config
  | envelopeFrom
  | envelopeTo
deriving DecidableEq

inductive Flag
  | json
  | check
  | verbose
deriving DecidableEq

inductive Opt
  | value (o : ValueOption)
  | flag (f : Flag)
  | version
  | help

def longOption? (name : List Char) : Option Opt :=
  let s := String.ofList name
  if s = "config" then some (.value .config)
  else if s = "envelope-from" then some (.value .envelopeFrom)
  else if s = "envelope-to" then some (.value .envelopeTo)
  else if s = "json" then some (.flag .json)
  else if s = "check" then some (.flag .check)
  else if s = "verbose" then some (.flag .verbose)
  else if s = "version" then some .version
  else if s = "help" then some .help
  else none

def shortOption? (c : Char) : Option Opt :=
  if c = 'c' then some (.value .config)
  else if c = 'v' then some (.flag .verbose)
  else if c = 'V' then some .version
  else if c = 'h' then some .help
  else none

structure Collected where
  positional : List String := []
  config : Option String := none
  envelopeFrom : Option String := none
  envelopeTo : List String := []
  flags : List Flag := []

namespace Collected

/-- Adds a positional argument. There are at most two, and files have names. -/
def addPositional (c : Collected) (s : String) : Option Collected :=
  if s = "" ∨ 2 ≤ c.positional.length then none
  else some { c with positional := c.positional ++ [s] }

/-- Only recipients may be given more than once. -/
def addValue (c : Collected) (o : ValueOption) (s : String) : Option Collected :=
  match o with
  | .config => if s = "" ∨ c.config.isSome then none else some { c with config := some s }
  | .envelopeFrom =>
    if c.envelopeFrom.isSome then none else some { c with envelopeFrom := some s }
  | .envelopeTo => some { c with envelopeTo := c.envelopeTo ++ [s] }

def addFlag (c : Collected) (f : Flag) : Option Collected :=
  if f ∈ c.flags then none else some { c with flags := f :: c.flags }

def finish (c : Collected) : Invocation :=
  match c.positional with
  | [] => .misuse
  | script :: rest =>
    .run {
      script
      message := rest.head?
      config := c.config
      envelopeFrom := c.envelopeFrom
      envelopeTo := c.envelopeTo
      json := decide (.json ∈ c.flags)
      check := decide (.check ∈ c.flags)
      verbose := decide (.verbose ∈ c.flags) }

end Collected

/-- How an argument goes on: with what has been collected, waiting for the value
of an option, or not at all. -/
inductive Step
  | collected (c : Collected)
  | awaiting (o : ValueOption) (c : Collected)
  | final (i : Invocation)

def Step.ofOption : Option Collected → Step
  | some c => .collected c
  | none => .final .misuse

def readShort (c : Collected) : List Char → Step
  | [] => .collected c
  | o :: rest =>
    match shortOption? o with
    | none => .final .misuse
    | some .version => .final .version
    | some .help => .final .help
    | some (.flag f) =>
      match c.addFlag f with
      | some c => readShort c rest
      | none => .final .misuse
    | some (.value v) =>
      match rest with
      | [] => .awaiting v c
      | '=' :: value => .ofOption (c.addValue v (String.ofList value))
      | value => .ofOption (c.addValue v (String.ofList value))

def readLong (c : Collected) (cs : List Char) : Step :=
  match cs.span (· != '=') with
  | (name, joined) =>
    match longOption? name, joined with
    | some .version, [] => .final .version
    | some .help, [] => .final .help
    | some (.flag f), [] => .ofOption (c.addFlag f)
    | some (.value v), [] => .awaiting v c
    | some (.value v), _ :: value => .ofOption (c.addValue v (String.ofList value))
    | _, _ => .final .misuse

def readArgument (c : Collected) (s : String) : Step :=
  match s.toList with
  | '-' :: '-' :: name => readLong c name
  | '-' :: o :: rest => readShort c (o :: rest)
  | _ => .ofOption (c.addPositional s)

def isValue (s : String) : Bool :=
  s.toList.head? != some '-' || s == "-"

def readPositionals (c : Collected) : List String → Invocation
  | [] => c.finish
  | s :: rest =>
    match c.addPositional s with
    | some c => readPositionals c rest
    | none => .misuse

def readAll (c : Collected) : List String → Invocation
  | [] => c.finish
  | s :: rest =>
    if s = "--" then readPositionals c rest
    else
      match readArgument c s with
      | .collected c => readAll c rest
      | .final i => i
      | .awaiting v c =>
        match rest with
        | [] => .misuse
        | value :: rest =>
          if isValue value then
            match c.addValue v value with
            | some c => readAll c rest
            | none => .misuse
          else .misuse

def Invocation.ofArguments (args : List String) : Invocation :=
  readAll {} args

end MailSieve.CommandLine
