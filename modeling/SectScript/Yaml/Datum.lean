import SectScript.Text.Quoted
import SectScript.Yaml.Meaning

/-!
# Data

What a document says where nothing particular is wanted. A mapping all of whose keys are names is
told apart from others. Data are compared as keys, and written in messages, where the pairs of a
mapping are sorted.
-/

namespace SectScript.Yaml

inductive Datum where
  | null
  | boolean (b : Bool)
  | integer (n : Int)
  | real (x : Double)
  | time (t : Timestamp)
  | text (s : Bytes)
  | sequence (items : List Datum)
  | mapping (named : Bool) (pairs : List (Datum × Datum))

namespace Datum

def isCollection : Datum → Bool
  | sequence _ | mapping _ _ => true
  | _ => false

def name? : Datum → Option Bytes
  | text s => some s
  | _ => none

/-- The same as a key. Collections cannot be keys. -/
def same : Datum → Datum → Bool
  | null, null => true
  | boolean a, boolean b => a == b
  | integer a, integer b => a == b
  | real a, real b => a.same b
  | time a, time b => a.same b
  | text a, text b => a == b
  | _, _ => false

/-- Sets the value of a key. -/
def put (key value : Datum) : List (Datum × Datum) → List (Datum × Datum)
  | [] => [(key, value)]
  | p :: ps => if p.1.same key then (key, value) :: ps else p :: put key value ps

/-! ## Order -/

/-- From here on integers need all of 64 bits. -/
def large : Int := 9223372036854775808

/-- The order of the kinds; large integers are a kind of their own. -/
def rank : Datum → Nat
  | null => 0
  | boolean _ => 1
  | real _ => 2
  | integer n => if n < large then 3 else 5
  | text _ => 4
  | time _ => 6
  | sequence _ => 7
  | mapping _ _ => 8

/-- Not behind the other, as keys of a mapping. -/
def precedes : Datum → Datum → Bool
  | boolean a, boolean b => !a || b
  | real a, real b => a.rank ≤ b.rank
  | integer a, integer b => a ≤ b
  | text a, text b => (compare a b).isLE
  | time a, time b => (compare a.order b.order).isLE
  | a, b => a.rank ≤ b.rank

/-! ## Writing -/

/-- The kind of a collection. -/
def kindName : Datum → Bytes
  | sequence _ => ascii "[]interface \x7b\x7d"
  | mapping true _ => ascii "map[string]interface \x7b\x7d"
  | _ => ascii "map[interface \x7b\x7d]interface \x7b\x7d"

def braced (items : List Bytes) : Bytes :=
  ascii "\x7b" ++ Bytes.join (ascii ", ") items ++ ascii "\x7d"

mutual

/-- A datum in a message. Large integers are written in hexadecimal digits. -/
def shown : Datum → Bytes
  | null => ascii "interface \x7b\x7d(nil)"
  | boolean b => ascii (if b then "true" else "false")
  | integer n => if n < large then Decimal.ofInt n else ascii "0x" ++ Quoted.hex 16 n.toNat
  | real x => x.text
  | time t => t.text
  | text s => Quoted.quote s
  | sequence items => kindName (sequence items) ++ braced (shownItems items)
  | mapping named pairs =>
    let sorted := (shownPairs pairs).mergeSort fun a b => a.1.precedes b.1
    kindName (mapping named pairs) ++ braced (sorted.map (·.2))

def shownItems : List Datum → List Bytes
  | [] => []
  | d :: ds => shown d :: shownItems ds

/-- Each pair with its key in front. -/
def shownPairs : List (Datum × Datum) → List (Datum × Bytes)
  | [] => []
  | (key, value) :: ps => (key, shown key ++ ascii ":" ++ shown value) :: shownPairs ps

end

example : shown (.sequence [.null, .integer (-3), .mapping true []]) =
    ascii "[]interface \x7b\x7d\x7binterface \x7b\x7d(nil), -3, " ++
      ascii "map[string]interface \x7b\x7d\x7b\x7d\x7d" := by
  decide +kernel

end Datum

end SectScript.Yaml
