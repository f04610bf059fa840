/-!
# Files

A directory of files and how a path is followed in it: name by name, through
directories only. Of what lies outside the directory nothing is known but that
it is not found.
-/

namespace MailSieve.CommandLine

inductive FileError
  | notFound
  | notDirectory
  | isDirectory
  | nameTooLong
  | other (text : String)
deriving DecidableEq

def FileError.message : FileError → String
  | notFound => "No such file or directory (os error 2)"
  | notDirectory => "Not a directory (os error 20)"
  | isDirectory => "Is a directory (os error 21)"
  | nameTooLong => "File name too long (os error 36)"
  | other text => text

structure Directory where
  files : List (List String × List UInt8)

namespace Directory

inductive Spot
  | directory (names : List String)
  | file (bytes : List UInt8)
  | outside

def spot? (d : Directory) (names : List String) : Option Spot :=
  match d.files.lookup names with
  | some bytes => some (.file bytes)
  | none => if d.files.any (names.isPrefixOf ·.1) then some (.directory names) else none

def maxName : Nat := 255

def maxPath : Nat := 4095

def follow (d : Directory) (s : Spot) (name : String) : Except FileError Spot :=
  match s with
  | .file _ => .error .notDirectory
  | .outside =>
    if name = "" ∨ name = "." ∨ name = ".." then .ok .outside
    else if maxName < name.utf8ByteSize then .error .nameTooLong
    else .error .notFound
  | .directory names =>
    if name = "" ∨ name = "." then .ok s
    else if name = ".." then .ok (if names.isEmpty then .outside else .directory names.dropLast)
    else if maxName < name.utf8ByteSize then .error .nameTooLong
    else
      match d.spot? (names ++ [name]) with
      | some s => .ok s
      | none => .error .notFound

def followAll (d : Directory) (s : Spot) : List String → Except FileError Spot
  | [] => .ok s
  | name :: names => do d.followAll (← d.follow s name) names

def read (d : Directory) (path : String) : Except FileError (List UInt8) := do
  if path = "" then throw .notFound
  if maxPath < path.utf8ByteSize then throw .nameTooLong
  let start := if path.toList.head? = some '/' then .outside else .directory []
  match ← d.followAll start (path.splitOn "/") with
  | .file bytes => return bytes
  | .directory _ | .outside => throw .isDirectory

end Directory

end MailSieve.CommandLine
