import SectScript.Yaml.Meaning
import SectScript.Yaml.Tree

/-!
# The keys of mappings

Keys of one kind and text are the same, and a mapping should not repeat one. A key that asks for a
merge makes the mapping take in the pairs of its value.
-/

namespace SectScript.Yaml

/-- Quotes make a text of any scalar. -/
def meaning (quoted : Bool) (s : Bytes) : Meaning := if quoted then .text else .ofPlain s

namespace Tree

def isMerge : Tree → Bool
  | .scalar _ quoted s => meaning quoted s = .merge
  | _ => false

def isName : Tree → Bool
  | .scalar _ quoted s => meaning quoted s = .text || meaning quoted s = .merge
  | _ => false

def keyText : Tree → Nat × Bytes
  | .scalar _ _ s => (0, s)
  | .sequence _ _ => (1, [])
  | .mapping _ _ => (2, [])

/-- The keys that occur again, each with every later occurrence. -/
def repeats : List Tree → List (Tree × Tree)
  | [] => []
  | k :: ks => (ks.filter fun l => l.keyText == k.keyText).map (k, ·) ++ repeats ks

def hasRepeats (pairs : List (Tree × Tree)) : Bool := !(repeats (pairs.map (·.1))).isEmpty

end Tree

end SectScript.Yaml
