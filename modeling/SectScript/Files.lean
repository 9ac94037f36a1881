import SectScript.Text.Bytes

/-!
# Files

A program sees one directory of files, reached by relative names. A read walks the name part by
part; each part must be found in a directory before the next is looked at.
-/

namespace SectScript

inductive Entry where
  | file (data : Bytes)
  | directory

inductive ReadError where
  | missing
  | isDirectory
  | notDirectory
  | invalidName
  | nameTooLong
  | denied
  deriving DecidableEq, Repr

def ReadError.text : ReadError → Bytes
  | missing => ascii "no such file or directory"
  | isDirectory => ascii "is a directory"
  | notDirectory => ascii "not a directory"
  | invalidName => ascii "invalid argument"
  | nameTooLong => ascii "file name too long"
  | denied => ascii "permission denied"

/-- The parts of a name that lead somewhere. -/
def pathParts (name : Bytes) : List Bytes :=
  (Bytes.pieces 0x2F name).filter fun p => p != [] && p != ascii "."

/-- Files and directories by the parts of their names. -/
structure Files where
  entries : List (List Bytes × Entry)

namespace Files

def empty : Files := ⟨[]⟩

def put (fs : Files) (name : Bytes) (entry : Entry) : Files :=
  ⟨(pathParts name, entry) :: fs.entries⟩

/-- What stands at a place; a directory is there as soon as something is in it. -/
def at? (fs : Files) (place : List Bytes) : Option Entry :=
  if place.isEmpty then some .directory
  else
    match fs.entries.find? fun e => e.1 == place with
    | some e => some e.2
    | none => if fs.entries.any fun e => place.isPrefixOf e.1 then some .directory else none

def maxPart : Nat := 255

def maxName : Nat := 4096

/-- Follows the parts of a name. `place` is where the walk stands, none outside the directory. -/
def walk (fs : Files) : (place : Option (List Bytes)) → (here : Entry) → List Bytes →
    Except ReadError Entry
  | _, here, [] => .ok here
  | place, here, part :: parts =>
    match here with
    | .file _ => .error .notDirectory
    | .directory =>
      if part == [] || part == ascii "." then walk fs place here parts
      else if part == ascii ".." then
        match place with
        | some (p :: ps) => walk fs (some (p :: ps).dropLast) .directory parts
        | _ => walk fs none .directory parts
      else if maxPart < part.length then .error .nameTooLong
      else
        match place with
        | none => .error .missing
        | some ps =>
          match fs.at? (ps ++ [part]) with
          | none => .error .missing
          | some entry => walk fs (some (ps ++ [part])) entry parts

/-- The content of a file. -/
def read (fs : Files) (name : Bytes) : Except ReadError Bytes :=
  if name.any (· == 0) then .error .invalidName
  else if name.isEmpty then .error .missing
  else if maxName ≤ name.length then .error .nameTooLong
  else
    let start := if name.head? = some 0x2F then none else some []
    match fs.walk start .directory (Bytes.pieces 0x2F name) with
    | .error e => .error e
    | .ok .directory => .error .isDirectory
    | .ok (.file data) => .ok data

end Files

end SectScript
