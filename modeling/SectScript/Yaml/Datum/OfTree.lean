import SectScript.Yaml.Datum
import SectScript.Yaml.Key

/-!
# The data of trees

Mappings take in the pairs of others, which count only for keys that have not been seen. While a
mapping takes in others, its own keys are read as data first. This goes wrong for a collection among
the keys that have to be remembered, and for one as a key of any mapping that is read as data.
-/

namespace SectScript.Yaml

inductive Halt where
  | noMapping
  | badKey (key : Datum)
  /-- A collection is among the keys to be remembered, which nothing was prepared for. -/
  | unforeseenKey (key : Datum)

def Halt.message : Halt → Bytes
  | noMapping => ascii "yaml: map merge requires map or sequence of maps as the value"
  | badKey key => ascii "yaml: invalid map key: " ++ key.shown
  | unforeseenKey key => ascii "runtime error: hash of unhashable type " ++ key.kindName

namespace Datum

/-- Reading with the keys that have been seen, if they are to be remembered. -/
abbrev Survey := StateT (Option (List Datum)) (Except Halt)

def alone {α : Type} (x : Survey α) : Survey α := do
  let seen ← get
  set (none : Option (List Datum))
  let a ← x
  set seen
  return a

/-- Whether a key is to be taken; it has been seen then. -/
def isNew (key : Datum) : Survey Bool := do
  match ← get with
  | none => return true
  | some seen =>
    if key.isCollection then throw (.unforeseenKey key)
    if seen.any key.same then return false
    set (some (key :: seen))
    return true

/-- A scalar; one that asks for a merge is a text where it is no key. -/
def ofScalar (quoted : Bool) (s : Bytes) : Datum :=
  match meaning quoted s with
  | .null => .null
  | .boolean b => .boolean b
  | .integer n => .integer n
  | .real x => .real x
  | .time t => .time t
  | .merge | .text => .text s

/-- A key of a mapping of names; a null is none. -/
def nameOf : Tree → Option Datum
  | .scalar _ quoted s => if meaning quoted s = .null then none else some (.text s)
  | _ => none

abbrev Pairs := List (Datum × Datum)

/-- The pairs of a mapping, and then what it takes in. The keys are remembered for that, unless they
are already. -/
def withMerged (merges : Bool) (own : Survey Pairs) (keys : Survey Unit)
    (merged : Pairs → Survey Pairs) : Survey Pairs := do
  let pairs ← own
  if !merges then return pairs
  match ← get with
  | some _ => merged pairs
  | none =>
    set (some ([] : List Datum))
    keys
    let pairs ← merged pairs
    set (none : Option (List Datum))
    return pairs

mutual

/-- The datum of a tree; a mapping with a repeated key has none. -/
def read : Tree → Survey (Option Datum)
  | .scalar _ quoted s => return some (ofScalar quoted s)
  | .sequence _ items => do return some (.sequence (← readItems items))
  | .mapping _ pairs => do
    if Tree.hasRepeats pairs then return none
    let named := pairs.all fun p => p.1.isName
    let data ← withMerged (pairs.any fun p => p.1.isMerge) (readPairs named [] pairs)
      (readKeys pairs) (fun data => takeIn named data pairs)
    return some (.mapping named data)

def readItems : List Tree → Survey (List Datum)
  | [] => return []
  | t :: ts => do
    match ← read t with
    | some d => return d :: (← readItems ts)
    | none => readItems ts

def readKeys : List (Tree × Tree) → Survey Unit
  | [] => return
  | (key, _) :: pairs => do
    match ← read key with
    | some d =>
      let _ ← isNew d
      readKeys pairs
    | none => readKeys pairs

/-- The pairs of a mapping, those that ask for a merge apart. -/
def readPairs (named : Bool) (data : Pairs) : List (Tree × Tree) → Survey Pairs
  | [] => return data
  | (key, value) :: pairs => do
    if key.isMerge then readPairs named data pairs
    else
      match ← if named then pure (nameOf key) else alone (read key) with
      | none => readPairs named data pairs
      | some k =>
        if !(← isNew k) then readPairs named data pairs
        else if k.isCollection then throw (.badKey k)
        else
          match ← alone (read value) with
          | none => readPairs named data pairs
          | some d => readPairs named (put k d data) pairs

def takeIn (named : Bool) (data : Pairs) : List (Tree × Tree) → Survey Pairs
  | [] => return data
  | (key, value) :: pairs => do
    if key.isMerge then takeIn named (← takeInTree named data value) pairs
    else takeIn named data pairs

/-- A mapping, with what it takes in itself, or several. -/
def takeInTree (named : Bool) (data : Pairs) : Tree → Survey Pairs
  | .scalar _ _ _ => throw .noMapping
  | .sequence _ items => takeInItems named data items
  | .mapping _ pairs => do
    if Tree.hasRepeats pairs then return data
    takeIn named (← readPairs named data pairs) pairs

/-- The items of a sequence must be mappings. -/
def takeInItems (named : Bool) (data : Pairs) : List Tree → Survey Pairs
  | [] => return data
  | .mapping line pairs :: items => do
    takeInItems named (← takeInTree named data (.mapping line pairs)) items
  | _ :: _ => throw .noMapping

end

end Datum

end SectScript.Yaml
