import SectScript.Text.Decimal

/-!
# Reading what was written

The digits of a number denote it, and a number that is written is read again, negative ones
included. So no two words have the same text.
-/

namespace SectScript.Decimal

theorem value_append_digit (s : Bytes) (b : UInt8) :
    value (s ++ [b]) = value s * 10 + (b.toNat - 0x30) := by
  simp [value]

theorem toNat_digit {d : Nat} (h : d < 10) : (0x30 + d).toUInt8.toNat = 0x30 + d := by
  simp
  omega

theorem isDigit_digit {d : Nat} (h : d < 10) : isDigit (0x30 + d).toUInt8 = true := by
  have hd := toNat_digit h
  simp only [isDigit, Bool.and_eq_true, decide_eq_true_eq, UInt8.le_iff_toNat_le, hd]
  constructor
  · simp
  · simp
    omega

theorem isDigits_append_digit {s : Bytes} {b : UInt8} (hs : s.all isDigit = true)
    (hb : isDigit b = true) : isDigits (s ++ [b]) = true := by
  simpa [isDigits, hb] using hs

/-- The digits that are put in front denote the number. -/
theorem prepend_spec {fuel n : Nat} (enough : n < fuel) (s : Bytes) :
    ∃ ds, prepend fuel n s = ds ++ s ∧ isDigits ds = true ∧ value ds = n := by
  induction fuel generalizing n s with
  | zero => omega
  | succ fuel ih =>
    have hlast : n % 10 < 10 := Nat.mod_lt n (by omega)
    have hdigit := isDigit_digit hlast
    have hnat := toNat_digit hlast
    rw [prepend]
    generalize (0x30 + n % 10).toUInt8 = d at hdigit hnat ⊢
    split
    case isTrue hsmall =>
      refine ⟨[] ++ [d], rfl, isDigits_append_digit rfl hdigit, ?_⟩
      rw [value_append_digit, hnat, value]
      simp
      omega
    case isFalse hlarge =>
      obtain ⟨ds, hds, hdigits, hvalue⟩ := ih (n := n / 10) (by omega) (d :: s)
      rw [isDigits, Bool.and_eq_true] at hdigits
      refine ⟨ds ++ [d], by simp [hds], isDigits_append_digit hdigits.2 hdigit, ?_⟩
      rw [value_append_digit, hvalue, hnat]
      omega

theorem ofNat_spec (n : Nat) : isDigits (ofNat n) = true ∧ value (ofNat n) = n := by
  obtain ⟨ds, hds, hspec⟩ := prepend_spec (Nat.lt_succ_self n) []
  rw [List.append_nil] at hds
  rw [ofNat, hds]
  exact hspec

theorem not_mem_of_isDigits {s : Bytes} (h : isDigits s = true) {b : UInt8}
    (hb : isDigit b = false) : b ∉ s := by
  intro hmem
  rw [isDigits, Bool.and_eq_true, List.all_eq_true] at h
  rw [h.2 b hmem] at hb
  cases hb

/-- Digits carry no sign. -/
theorem sign_of_isDigits {s : Bytes} (h : isDigits s = true) : sign s = (false, s) := by
  rw [sign.eq_def]
  split
  case h_1 | h_2 => cases h
  case h_3 => rfl

theorem readInt?_ofInt (n : Int) : readInt? (ofInt n) = some n := by
  obtain ⟨hdigits, hvalue⟩ := ofNat_spec n.natAbs
  rw [ofInt]
  split
  case isTrue hneg =>
    have hsign : sign (0x2D :: ofNat n.natAbs) = (true, ofNat n.natAbs) := rfl
    simp only [readInt?, hsign, hdigits, hvalue, if_true, Option.some.injEq]
    omega
  case isFalse hpos =>
    simp only [readInt?, sign_of_isDigits hdigits, hdigits, hvalue, if_true]
    simp
    omega

/-- A text is digits just if the number that it shows is not negative. -/
theorem isDigits_ofInt (n : Int) : isDigits (ofInt n) = decide (0 ≤ n) := by
  have hdigits := (ofNat_spec n.natAbs).1
  rw [ofInt]
  by_cases h : n < 0
  · rw [if_pos h, decide_eq_false (by omega)]
    rfl
  · rw [if_neg h, decide_eq_true (by omega), hdigits]

theorem eq_cons_of_isDigits {s : Bytes} (h : isDigits s = true) :
    ∃ d ds, s = d :: ds ∧ isDigit d = true := by
  cases s with
  | nil => cases h
  | cons d ds =>
    rw [isDigits, List.all_cons, Bool.and_eq_true, Bool.and_eq_true] at h
    exact ⟨d, ds, rfl, h.2.1⟩

theorem read?_ofInt64 (n : Int64) : read? (ofInt64 n) = some n := by
  have hlow := n.le_toInt
  have hhigh := n.toInt_lt
  have hrange : inRange n.toInt = true := by
    simp only [inRange, Bool.and_eq_true, decide_eq_true_eq]
    omega
  rw [read?, ofInt64, readInt?_ofInt]
  simp [hrange]

end SectScript.Decimal
