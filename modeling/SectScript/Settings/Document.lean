import SectScript.Settings.Entry
import SectScript.Yaml.Datum.OfTree

/-!
# Settings documents

`Document.decode` is a decoder for settings files that are written in block or flow style with plain
and quoted scalars; it refuses block scalars, tags, anchors, aliases and directives. A mapping may
take in the pairs of others, which count only for names that it does not have. All mismatches of a
document are reported together, in the order of reading.
-/

namespace SectScript

namespace Document

open Yaml

inductive Target where
  | switch
  | number
  | text
  | texts
  | settings
  | trace
  deriving DecidableEq

def Target.name : Target → Bytes
  | switch => ascii "bool"
  | number => ascii "int16"
  | text => ascii "string"
  | texts => ascii "[]string"
  | settings => ascii "main.config"
  | trace => ascii "main.traceConfig"

inductive Mismatch where
  /-- A value of another kind; a scalar shows its text. -/
  | wrongKind (line : Nat) (tag : Bytes) (shown : Option Bytes) (target : Target)
  | unknownName (line : Nat) (name : Bytes) (target : Target)
  | repeatedKey (line : Nat) (name : Bytes) (first : Nat)

def shorten (s : Bytes) : Bytes := if 10 < s.length then s.take 7 ++ ascii "..." else s

def Mismatch.message : Mismatch → Bytes
  | wrongKind line tag shown target =>
    ascii "line " ++ Decimal.ofNat line ++ ascii ": cannot unmarshal " ++ tag ++
      shown.elim [] (fun s => ascii " \x60" ++ shorten s ++ ascii "\x60") ++ ascii " into " ++
      target.name
  | unknownName line name target =>
    ascii "line " ++ Decimal.ofNat line ++ ascii ": field " ++ name ++
      ascii " not found in type " ++ target.name
  | repeatedKey line name first =>
    ascii "line " ++ Decimal.ofNat line ++ ascii ": mapping key " ++ Quoted.quote name ++
      ascii " already defined at line " ++ Decimal.ofNat first

/-- What is read of a document: its entries, or what does not fit. -/
structure Reading (α : Type) where
  entries : List α := []
  mismatches : List Mismatch := []
  halt : Option Halt := none

namespace Reading

variable {α β : Type}

/-- One reading after the other, which is left out if the first came to a halt. -/
def append (a b : Reading α) : Reading α :=
  if a.halt.isSome then a else ⟨a.entries ++ b.entries, a.mismatches ++ b.mismatches, b.halt⟩

def concat (rs : List (Reading α)) : Reading α := rs.foldr append {}

def map (f : α → β) (r : Reading α) : Reading β := ⟨r.entries.map f, r.mismatches, r.halt⟩

end Reading

def repeats (pairs : List (Tree × Tree)) : List Mismatch :=
  (Tree.repeats (pairs.map (·.1))).map fun (first, again) =>
    .repeatedKey again.line again.keyText.2 first.line

/-- The report on a tree that is not of the wanted kind. -/
def mismatch (target : Target) : Tree → List Mismatch
  | .scalar line quoted s => [.wrongKind line (meaning quoted s).tag (some s) target]
  | .sequence line _ => [.wrongKind line (ascii "!!seq") none target]
  | .mapping line pairs =>
    match repeats pairs with
    | [] => [.wrongKind line (ascii "!!map") none target]
    | again => again

/-- A scalar that `read?` takes; a null says nothing. -/
def scalar {α : Type} (target : Target) (read? : Meaning → Bytes → Option α) (t : Tree) :
    Reading α :=
  match t with
  | .scalar _ quoted s =>
    match meaning quoted s with
    | .null => {}
    | m =>
      match read? m s with
      | some a => { entries := [a] }
      | none => { mismatches := mismatch target t }
  | _ => { mismatches := mismatch target t }

def yes : List Bytes := ["y", "Y", "yes", "Yes", "YES", "on", "On", "ON"].map ascii

def no : List Bytes := ["n", "N", "no", "No", "NO", "off", "Off", "OFF"].map ascii

def switch : Tree → Reading Bool :=
  scalar .switch fun m s =>
    match m with
    | .boolean b => some b
    | .text => if yes.contains s then some true else if no.contains s then some false else none
    | _ => none

/-- An integer of 16 bits; of a fraction the whole part counts. -/
def number : Tree → Reading Int :=
  scalar .number fun m _ =>
    let fits (n : Int) := if -32768 ≤ n && n ≤ 32767 then some n else none
    match m with
    | .integer n => fits n
    | .real x => x.whole?.bind fits
    | _ => none

/-- Any scalar, as it is written. -/
def text : Tree → Reading Bytes := scalar .text fun _ s => some s

/-- A list of texts; a null is an empty one, and null items are left out. -/
def texts (t : Tree) : Reading (List Bytes) :=
  match t with
  | .scalar _ quoted s =>
    match meaning quoted s with
    | .null => { entries := [[]] }
    | _ => { mismatches := mismatch .texts t }
  | .sequence _ items =>
    let r := Reading.concat (items.map text)
    ⟨[r.entries], r.mismatches, r.halt⟩
  | .mapping _ _ => { mismatches := mismatch .texts t }

/-! ## Mappings -/

/-- What a mapping takes in: the pairs of a mapping, or something that is none. -/
abbrev Layer := Option (List (Tree × Tree))

mutual

/-- The mappings that a value to be taken in consists of, each in front of those that it takes in
itself. One with a repeated key takes in none. -/
def layers : Tree → List Layer
  | .mapping _ pairs =>
    some pairs :: if Tree.hasRepeats pairs then [] else mergedLayers pairs
  | .sequence _ items => itemLayers items
  | .scalar _ _ _ => [none]

/-- What the pairs of a mapping ask to take in. -/
def mergedLayers : List (Tree × Tree) → List Layer
  | [] => []
  | (key, value) :: pairs => (if key.isMerge then layers value else []) ++ mergedLayers pairs

/-- The items of a sequence must be mappings. -/
def itemLayers : List Tree → List Layer
  | [] => []
  | .mapping line pairs :: items => layers (.mapping line pairs) ++ itemLayers items
  | _ :: items => none :: itemLayers items

end

/-- The names by which the keys of a mapping shadow those that it takes in. -/
def ownNames (pairs : List (Tree × Tree)) : Reading Bytes :=
  match (Datum.readKeys pairs).run (some []) with
  | .error h => { halt := some h }
  | .ok (_, seen) =>
    { entries := (seen.getD []).filterMap Datum.name?
      mismatches := pairs.flatMap fun
        | (.mapping _ inner, _) => repeats inner
        | _ => [] }

variable {α : Type}

def field (target : Target) (field? : Bytes → Option (Tree → Reading α)) (key : Tree)
    (name : Bytes) (value : Tree) : Reading α :=
  match field? name with
  | some read => read value
  | none => { mismatches := [.unknownName key.line name target] }

/-- The pairs of a mapping, in which a null as key says nothing. -/
def ownPairs (target : Target) (field? : Bytes → Option (Tree → Reading α))
    (pairs : List (Tree × Tree)) : Reading α :=
  Reading.concat (pairs.map fun (key, value) =>
    if key.isMerge then {}
    else
      match text key with
      | ⟨[name], [], none⟩ => field target field? key name value
      | r => { mismatches := r.mismatches })

/-- The pairs of a mapping that is taken in; names that have been seen are passed over. -/
def newPairs (target : Target) (field? : Bytes → Option (Tree → Reading α)) :
    (seen : List Bytes) → List (Tree × Tree) → Reading α × List Bytes
  | seen, [] => ({}, seen)
  | seen, (key, value) :: pairs =>
    if key.isMerge then newPairs target field? seen pairs
    else
      match text key with
      | ⟨[name], [], none⟩ =>
        if seen.contains name then newPairs target field? seen pairs
        else
          let (r, seen) := newPairs target field? (name :: seen) pairs
          ((field target field? key name value).append r, seen)
      | r =>
        let (rest, seen) := newPairs target field? seen pairs
        (Reading.append { mismatches := r.mismatches } rest, seen)

def takeIn (target : Target) (field? : Bytes → Option (Tree → Reading α)) :
    (seen : List Bytes) → List Layer → Reading α
  | _, [] => {}
  | _, none :: _ => { halt := some .noMapping }
  | seen, some pairs :: layers =>
    match repeats pairs with
    | [] =>
      let (r, seen) := newPairs target field? seen pairs
      r.append (takeIn target field? seen layers)
    | again => Reading.append { mismatches := again } (takeIn target field? seen layers)

/-- A mapping with fixed names. -/
def record (target : Target) (field? : Bytes → Option (Tree → Reading α)) (t : Tree) :
    Reading α :=
  match t with
  | .mapping _ pairs =>
    match repeats pairs with
    | [] =>
      (ownPairs target field? pairs).append
        (if pairs.any (·.1.isMerge) then
          let own := ownNames pairs
          Reading.append { mismatches := own.mismatches, halt := own.halt }
            (takeIn target field? own.entries (mergedLayers pairs))
        else {})
    | again => { mismatches := again }
  | t => scalar target (fun _ _ => none) t

def traceField? (name : Bytes) : Option (Tree → Reading Entry) :=
  if name = ascii "exec" then some fun t => (switch t).map .traceExec
  else if name = ascii "vars" then some fun t => (switch t).map .traceVars
  else if name = ascii "variables" then some fun t => (texts t).map .traceVariables
  else none

def field? (name : Bytes) : Option (Tree → Reading Entry) :=
  if name = ascii "dialect" then some fun t => (text t).map .dialect
  else if name = ascii "color" then some fun t => (switch t).map .color
  else if name = ascii "stats" then some fun t => (switch t).map .stats
  else if name = ascii "dump" then some fun t => (switch t).map .dump
  else if name = ascii "read_prompt" then some fun t => (text t).map .readPrompt
  else if name = ascii "read_timeout" then some fun t => (number t).map .readTimeout
  else if name = ascii "trace" then some (record .trace traceField?)
  else none

inductive Refusal where
  | malformed (e : Yaml.Error)
  | mismatched (ms : List Mismatch)
  | halted (h : Halt)

def Refusal.message : Refusal → Bytes
  | malformed e => e.text
  | mismatched ms =>
    ascii "yaml: unmarshal errors:" ++ ms.flatMap fun m => ascii "\n  " ++ m.message
  | halted h => h.message

/-- One kind of key is not foreseen at all. -/
def Refusal.failure (r : Refusal) : Decoder.Failure :=
  match r with
  | halted (.unforeseenKey _) => .abandoned r.message
  | _ => .refused r.message

def decode : Decoder := fun s =>
  match Tree.ofBytes? s with
  | .error e => .error (Refusal.malformed e).failure
  | .ok none => .error .noDocument
  | .ok (some t) =>
    match record .settings field? t with
    | ⟨es, [], none⟩ => .ok es
    | ⟨_, ms, none⟩ => .error (Refusal.mismatched ms).failure
    | ⟨_, _, some h⟩ => .error (Refusal.halted h).failure

end Document

end SectScript
