/-!
# Byte strings

All text of the language is a list of bytes: lengths are byte counts, comparison is bytewise, and
nothing requires a text to be valid UTF-8. Searching is for a fixed word; `cut` splits at its first
occurrence.
-/

namespace SectScript

abbrev Bytes := List UInt8

/-- The bytes of an ASCII text. Characters beyond ASCII do not occur in the fixed texts. -/
def ascii (s : String) : Bytes := s.toList.map fun c => c.toNat.toUInt8

namespace Bytes

def startsWith (w s : Bytes) : Bool := w.isPrefixOf s

/-- The texts before and behind the first occurrence of `w`. -/
def cut (w : Bytes) : Bytes → Option (Bytes × Bytes)
  | [] => (w.isPrefixOf? []).map fun t => ([], t)
  | b :: s =>
    match w.isPrefixOf? (b :: s) with
    | some t => some ([], t)
    | none => (cut w s).map fun lr => (b :: lr.1, lr.2)

def contains (w s : Bytes) : Bool := (cut w s).isSome

/-- Without one leading `w`, if there is one. -/
def dropPrefix (w s : Bytes) : Bytes := (w.isPrefixOf? s).getD s

/-- The pieces between separators; a text without separator is one piece. -/
def pieces (sep : UInt8) : Bytes → List Bytes
  | [] => [[]]
  | b :: s =>
    if b = sep then [] :: pieces sep s
    else
      match pieces sep s with
      | p :: ps => (b :: p) :: ps
      | [] => [[b]]

def join (sep : Bytes) : List Bytes → Bytes
  | [] => []
  | [p] => p
  | p :: ps => p ++ sep ++ join sep ps

/-- At least `width` bytes, filled with `fill` on the left. -/
def padLeft (fill : UInt8) (width : Nat) (s : Bytes) : Bytes :=
  List.replicate (width - s.length) fill ++ s

/-- At least `width` bytes, filled with blanks on the right. -/
def padRight (width : Nat) (s : Bytes) : Bytes := s ++ List.replicate (width - s.length) 0x20

def newline : Bytes := [0x0A]

theorem compare_eq_lt_iff {a b : Bytes} : compare a b = .lt ↔ a < b := by
  induction a generalizing b with
  | nil => cases b <;> simp
  | cons x a ih =>
    cases b with
    | nil => simp
    | cons y b =>
      rw [List.compare_cons_cons, Ordering.then_eq_lt, List.cons_lt_cons_iff, ih,
        Std.compare_eq_lt, Std.compare_eq_iff_eq]

theorem compare_eq_gt_iff {a b : Bytes} : compare a b = .gt ↔ b < a := by
  rw [Std.OrientedCmp.gt_iff_lt, compare_eq_lt_iff]

end Bytes

example : Bytes.cut (ascii "==") (ascii "a==b==c") = some (ascii "a", ascii "b==c") := by decide
example : Bytes.pieces 0x0A (ascii "a\n\nb\n") = [ascii "a", [], ascii "b", []] := by decide

end SectScript
