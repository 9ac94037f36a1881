import SectScript.Proofs.Arithmetic
import SectScript.Proofs.Text.Decimal
import SectScript.Value

/-!
# Numbers in texts and in variables

`Reads` says, apart from how texts are read, which texts are numbers. A variable holds the result of
an assignment as an integer if it is made of digits and as text if it is negative; its natural form
is the same decimal in both cases, so the number is not lost.
-/

namespace SectScript

namespace Decimal

/-- Digits, with or without a sign before them, and the number that they denote. -/
inductive Denotes : Bytes → Int → Prop
  | unsigned {s : Bytes} (h : isDigits s = true) : Denotes s (value s)
  | plus {s : Bytes} (h : isDigits s = true) : Denotes (0x2B :: s) (value s)
  | minus {s : Bytes} (h : isDigits s = true) : Denotes (0x2D :: s) (-(value s))

theorem sign_cases (s : Bytes) :
    (∃ ds, s = 0x2B :: ds ∧ sign s = (false, ds)) ∨ (∃ ds, s = 0x2D :: ds ∧ sign s = (true, ds)) ∨
      sign s = (false, s) := by
  rw [sign.eq_def]
  split
  case h_1 ds => exact Or.inl ⟨ds, rfl, rfl⟩
  case h_2 ds => exact Or.inr (Or.inl ⟨ds, rfl, rfl⟩)
  case h_3 => exact Or.inr (Or.inr rfl)

theorem readInt?_eq_some_iff {s : Bytes} {n : Int} : readInt? s = some n ↔ Denotes s n := by
  constructor
  · intro h
    rcases sign_cases s with ⟨ds, rfl, hsign⟩ | ⟨ds, rfl, hsign⟩ | hsign
    · obtain ⟨hdigits, rfl⟩ : isDigits ds = true ∧ (value ds : Int) = n := by
        simpa [readInt?, hsign] using h
      exact .plus hdigits
    · obtain ⟨hdigits, rfl⟩ : isDigits ds = true ∧ -(value ds : Int) = n := by
        simpa [readInt?, hsign] using h
      exact .minus hdigits
    · obtain ⟨hdigits, rfl⟩ : isDigits s = true ∧ (value s : Int) = n := by
        simpa [readInt?, hsign] using h
      exact .unsigned hdigits
  · intro h
    cases h with
    | unsigned h => simp [readInt?, sign_of_isDigits h, h]
    | plus h | minus h => simp [readInt?, sign, h]

/-- The text is that of a number which a word can hold. -/
def Reads (s : Bytes) (n : Int) : Prop := Denotes s n ∧ Arithmetic.Fits n

theorem inRange_iff {n : Int} : inRange n = true ↔ Arithmetic.Fits n := by
  simp only [inRange, Arithmetic.Fits, Bool.and_eq_true, decide_eq_true_eq]
  omega

theorem Reads.read?_eq {s : Bytes} {n : Int} (h : Reads s n) : read? s = some (Int64.ofInt n) := by
  rw [read?, readInt?_eq_some_iff.mpr h.1]
  simp [inRange_iff.mpr h.2]

theorem read?_eq_none_iff {s : Bytes} : read? s = none ↔ ∀ n, ¬ Reads s n := by
  constructor
  · intro hnone n hreads
    rw [hreads.read?_eq] at hnone
    cases hnone
  · intro hnot
    rw [read?]
    cases hread : readInt? s with
    | none => rfl
    | some n =>
      have hrange : ¬ inRange n = true := fun h =>
        hnot n ⟨readInt?_eq_some_iff.mp hread, inRange_iff.mp h⟩
      simp [hrange]

/-- A number that is written is read again. -/
theorem reads_ofInt {n : Int} (h : Arithmetic.Fits n) : Reads (ofInt n) n :=
  ⟨readInt?_eq_some_iff.mp (readInt?_ofInt n), h⟩

theorem value_ofInt {n : Int} (h : 0 ≤ n) : (value (ofInt n) : Int) = n := by
  rw [ofInt, if_neg (by omega), (ofNat_spec n.natAbs).2]
  omega

theorem ofInt_injective {m n : Int} (h : ofInt m = ofInt n) : m = n := by
  have hread := congrArg readInt? h
  rw [readInt?_ofInt, readInt?_ofInt] at hread
  exact Option.some.inj hread

end Decimal

namespace Value

/-- A number as an assignment stores it. -/
def ofNumber (n : Int64) : Value :=
  if n.toInt < 0 then .text (Decimal.ofInt64 n) else .integer n

theorem natural_ofNumber (n : Int64) : (ofNumber n).natural = Decimal.ofInt64 n := by
  rw [ofNumber]
  split <;> rfl

theorem ofResult?_ofInt64 (n : Int64) : ofResult? (Decimal.ofInt64 n) = some (ofNumber n) := by
  rw [ofResult?, ofNumber, Decimal.read?_ofInt64, Decimal.ofInt64, Decimal.isDigits_ofInt]
  by_cases h : n.toInt < 0
  · have hquote : unquote? (Decimal.ofInt n.toInt) = none := by
      rw [Decimal.ofInt, if_pos h]
      rfl
    have hnot : ¬ 0 ≤ n.toInt := by omega
    simp [h, hnot, hquote]
  · have hnonneg : 0 ≤ n.toInt := by omega
    simp [h, hnonneg]

theorem ofResult?_ofInt {n : Int} (h : Arithmetic.Fits n) :
    ofResult? (Decimal.ofInt n) = some (ofNumber (Int64.ofInt n)) := by
  have hword := ofResult?_ofInt64 (Int64.ofInt n)
  rwa [Decimal.ofInt64, Arithmetic.toInt_ofInt h] at hword

theorem reads_ofNumber {n : Int} (h : Arithmetic.Fits n) :
    Decimal.Reads (ofNumber (Int64.ofInt n)).natural n := by
  rw [natural_ofNumber, Decimal.ofInt64, Arithmetic.toInt_ofInt h]
  exact Decimal.reads_ofInt h

end Value

end SectScript
