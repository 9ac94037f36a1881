import SectScript.Error
import Mathlib.Data.Rat.Floor
import Mathlib.Tactic.Linarith

/-!
# Arithmetic in words is exact

Each operation is guarded by a test in words, which may wrap itself. `word` is what an operation
ought to give: the word of the true result, or overflow if there is none. Sum, difference and
product give it for the result in the integers, the quotient for that of floored division, and a
remainder always fits.
-/

namespace SectScript

namespace Arithmetic

/-- A 64-bit word can hold the number. -/
def Fits (n : Int) : Prop := -2 ^ 63 ≤ n ∧ n ≤ 2 ^ 63 - 1

instance (n : Int) : Decidable (Fits n) := inferInstanceAs (Decidable (_ ∧ _))

theorem fits_toInt (a : Int64) : Fits a.toInt := by
  have hlow := a.le_toInt
  have hhigh := a.toInt_lt
  constructor <;> omega

theorem toInt_ne_zero {b : Int64} (h : b ≠ 0) : b.toInt ≠ 0 :=
  fun hzero => h (Int64.toInt_inj.mp hzero)

theorem bmod_eq_self {n : Int} (h : Fits n) : n.bmod (2 ^ 64) = n := by
  obtain ⟨hlow, hhigh⟩ := h
  apply Int.bmod_eq_of_le <;> omega

theorem fits_bmod (n : Int) : Fits (n.bmod (2 ^ 64)) := by
  have hlow := Int.le_bmod (x := n) (m := 2 ^ 64) (by decide)
  have hhigh := Int.bmod_lt (x := n) (m := 2 ^ 64) (by decide)
  simp only [Fits]
  omega

theorem toInt_ofInt {n : Int} (h : Fits n) : (Int64.ofInt n).toInt = n := by
  obtain ⟨hlow, hhigh⟩ := h
  exact Int64.toInt_ofInt_of_le hlow (by omega)

/-- The word of a number, if there is one. -/
def word (n : Int) : Except ArithError Int64 :=
  if Fits n then .ok (Int64.ofInt n) else .error .overflow

/-- The true result where it fits a word, overflow elsewhere. -/
def Exact (r : Except ArithError Int64) (n : Int) : Prop :=
  (Fits n → ∃ c, r = .ok c ∧ c.toInt = n) ∧ (¬ Fits n → r = .error .overflow)

theorem word_exact (n : Int) : Exact (word n) n := by
  constructor
  · intro h
    exact ⟨Int64.ofInt n, if_pos h, toInt_ofInt h⟩
  · exact fun h => if_neg h

/-- A wrapped result behind a guard that tells when the true one does not fit. -/
theorem guarded_eq_word {guard : Bool} {n : Int} {c : Int64} (hc : c = Int64.ofInt n)
    (h : guard = true ↔ ¬ Fits n) : (if guard then .error .overflow else .ok c) = word n := by
  rw [word, hc]
  by_cases hfits : Fits n
  · rw [if_pos hfits, if_neg (fun hguard => h.mp hguard hfits)]
  · rw [if_neg hfits, if_pos (h.mpr hfits)]

variable (a b : Int64)

theorem add_eq : add a b = word (a.toInt + b.toInt) := by
  have ha := fits_toInt a
  have hb := fits_toInt b
  have hmax : 0 < b.toInt → (Int64.maxValue - b).toInt = 2 ^ 63 - 1 - b.toInt := by
    intro hpos
    rw [Int64.toInt_sub, Int64.toInt_maxValue]
    exact bmod_eq_self ⟨by have := hb.2; omega, by omega⟩
  have hmin : b.toInt < 0 → (Int64.minValue - b).toInt = -2 ^ 63 - b.toInt := by
    intro hneg
    rw [Int64.toInt_sub, Int64.toInt_minValue]
    exact bmod_eq_self ⟨by omega, by have := hb.1; omega⟩
  have hsum : a + b = Int64.ofInt (a.toInt + b.toInt) := by
    rw [Int64.ofInt_add, Int64.ofInt_toInt, Int64.ofInt_toInt]
  rw [add]
  apply guarded_eq_word hsum
  simp only [Bool.or_eq_true, Bool.and_eq_true, decide_eq_true_eq, Int64.lt_iff_toInt_lt,
    Int64.toInt_zero]
  simp only [Fits] at *
  omega

theorem sub_eq : sub a b = word (a.toInt - b.toInt) := by
  have ha := fits_toInt a
  have hb := fits_toInt b
  have hmax : b.toInt < 0 → (Int64.maxValue + b).toInt = 2 ^ 63 - 1 + b.toInt := by
    intro hneg
    rw [Int64.toInt_add, Int64.toInt_maxValue]
    exact bmod_eq_self ⟨by have := hb.1; omega, by omega⟩
  have hmin : 0 < b.toInt → (Int64.minValue + b).toInt = -2 ^ 63 + b.toInt := by
    intro hpos
    rw [Int64.toInt_add, Int64.toInt_minValue]
    exact bmod_eq_self ⟨by omega, by have := hb.2; omega⟩
  have hdiff : a - b = Int64.ofInt (a.toInt - b.toInt) := by
    rw [Int64.ofInt_sub, Int64.ofInt_toInt, Int64.ofInt_toInt]
  rw [sub]
  apply guarded_eq_word hdiff
  simp only [Bool.or_eq_true, Bool.and_eq_true, decide_eq_true_eq, Int64.lt_iff_toInt_lt,
    Int64.toInt_zero]
  simp only [Fits] at *
  omega

/-! ## Division toward zero -/

theorem natAbs_tdiv_le_half (x : Int) {y : Int} (hy : 2 ≤ y.natAbs) :
    (x.tdiv y).natAbs ≤ x.natAbs / 2 := by
  have habs : (x.tdiv y).natAbs = x.natAbs / y.natAbs := Int.natAbs_tdiv x y
  rw [habs]
  exact Nat.div_le_div_left hy (by decide)

section Truncated

variable {x y : Int} (hy : y ≠ 0)
include hy

theorem natAbs_tmod_lt (x : Int) : (x.tmod y).natAbs < y.natAbs := by
  rw [Int.natAbs_tmod]
  exact Nat.mod_lt _ (by omega)

/-- There is one quotient that does not fit. -/
theorem fits_tdiv (hx : Fits x) (h : ¬ (x = -2 ^ 63 ∧ y = -1)) : Fits (x.tdiv y) := by
  by_cases hone : y = -1
  · rw [hone, Int.tdiv_neg, Int.tdiv_one]
    simp only [Fits] at *
    omega
  · by_cases hpos : y = 1
    · rwa [hpos, Int.tdiv_one]
    · have hhalf := natAbs_tdiv_le_half x (show 2 ≤ y.natAbs by omega)
      simp only [Fits] at *
      omega

/-- A product that wraps is off by 2 ^ 64 at least, which is more than a remainder can make up for:
dividing it again does not lead back. -/
theorem tdiv_wrapped_ne (hfits : Fits y) (h : ¬ Fits (x * y)) :
    ((x * y).bmod (2 ^ 64)).tdiv y ≠ x := by
  intro hback
  have hwrapped := fits_bmod (x * y)
  obtain ⟨k, hk⟩ : ((2 ^ 64 : Nat) : Int) ∣ (x * y).bmod (2 ^ 64) - x * y := Int.dvd_bmod_sub_self
  have hsplit := Int.tmod_add_mul_tdiv ((x * y).bmod (2 ^ 64)) y
  have hrest := natAbs_tmod_lt hy ((x * y).bmod (2 ^ 64))
  rw [hback, Int.mul_comm y x] at hsplit
  have hk0 : k ≠ 0 := by
    rintro rfl
    rw [Int.mul_zero, Int.sub_eq_zero] at hk
    rw [hk] at hwrapped
    exact h hwrapped
  simp only [Fits] at hfits
  omega

end Truncated

/-- Dividing a product by a factor leads back to the other just if the product fits. -/
theorem mul_div_eq_iff (hb : b ≠ 0) (h : ¬ (b = -1 ∧ a = Int64.minValue)) :
    a * b / b = a ↔ Fits (a.toInt * b.toInt) := by
  simp only [ne_eq, ← Int64.toInt_inj, Int64.toInt_zero, Int64.toInt_minValue] at hb h
  rw [← Int64.toInt_inj, Int64.toInt_div, Int64.toInt_mul]
  have ha := fits_toInt a
  have hfits := fits_toInt b
  generalize a.toInt = x, b.toInt = y at *
  constructor
  · intro hback
    by_contra hnot
    have hone : y ≠ -1 := by
      rintro rfl
      simp only [Fits, Int.mul_neg, Int.mul_one] at *
      have hminus : (-1 : Int64).toInt = -1 := by decide
      omega
    have hquotient : Fits (((x * y).bmod (2 ^ 64)).tdiv y) :=
      fits_tdiv hb (fits_bmod _) (fun hlow => hone hlow.2)
    rw [bmod_eq_self hquotient] at hback
    exact tdiv_wrapped_ne hb hfits hnot hback
  · intro hprod
    rw [bmod_eq_self hprod, Int.mul_tdiv_cancel x hb, bmod_eq_self ha]

theorem mul_eq : mul a b = word (a.toInt * b.toInt) := by
  have ha := fits_toInt a
  have hb := fits_toInt b
  have hprod : a * b = Int64.ofInt (a.toInt * b.toInt) := by
    rw [Int64.ofInt_mul, Int64.ofInt_toInt, Int64.ofInt_toInt]
  rw [mul]
  split
  case isTrue hzero =>
    simp only [Bool.or_eq_true, decide_eq_true_eq] at hzero
    have hnone : a.toInt * b.toInt = 0 := by
      rcases hzero with rfl | rfl <;> simp
    rw [hnone]
    rfl
  case isFalse hzero =>
    simp only [Bool.or_eq_true, decide_eq_true_eq, not_or] at hzero
    apply guarded_eq_word hprod
    simp only [Bool.or_eq_true, Bool.and_eq_true, bne_iff_ne, beq_iff_eq]
    by_cases hlow : b = -1 ∧ a = Int64.minValue
    · obtain ⟨rfl, rfl⟩ := hlow
      decide
    · rw [ne_eq, mul_div_eq_iff a b hzero.2 hlow]
      constructor
      · rintro ((hnot | ⟨rfl, rfl⟩) | hlow')
        · exact hnot
        · decide
        · exact absurd hlow' hlow
      · exact fun hnot => Or.inl (Or.inl hnot)

/-! ## Floored division -/

/-- The remainder of division toward zero has the sign of the dividend. -/
theorem tmod_neg_iff {x y : Int} (hrest : x.tmod y ≠ 0) : x.tmod y < 0 ↔ x < 0 := by
  have hpos : 0 ≤ x → 0 ≤ x.tmod y := Int.tmod_nonneg y
  have hneg : 0 ≤ -x → 0 ≤ -(x.tmod y) := by
    rw [← Int.neg_tmod]
    exact Int.tmod_nonneg y
  omega

/-- The remainder of floored division lies between zero and the divisor, which it does not reach. -/
theorem fmod_between (x y : Int) : (0 < y → 0 ≤ x.fmod y ∧ x.fmod y < y) ∧
    (y < 0 → y < x.fmod y ∧ x.fmod y ≤ 0) :=
  ⟨fun hpos => ((Int.fdiv_fmod_unique hpos).mp ⟨rfl, rfl⟩).2,
    fun hneg => ((Int.fdiv_fmod_unique' hneg).mp ⟨rfl, rfl⟩).2⟩

/-- A remainder is left and the signs differ, so the quotient toward zero lies above the floor. -/
def Uneven (x y : Int) : Prop := x.tmod y ≠ 0 ∧ ¬ (x < 0 ↔ y < 0)

section Floored

variable {x y : Int} (hy : y ≠ 0)
include hy

theorem floored_of_uneven (h : Uneven x y) :
    x.fdiv y = x.tdiv y - 1 ∧ x.fmod y = x.tmod y + y := by
  obtain ⟨hrest, hsigns⟩ := h
  have hless := natAbs_tmod_lt hy x
  have hsign := tmod_neg_iff hrest
  have hsplit : x.tmod y + y + y * (x.tdiv y - 1) = x := by
    have htoward := Int.tmod_add_mul_tdiv x y
    rw [Int.mul_sub]
    omega
  rcases Int.lt_or_gt_of_ne hy with hneg | hpos
  · exact (Int.fdiv_fmod_unique' hneg).mpr ⟨hsplit, by omega, by omega⟩
  · exact (Int.fdiv_fmod_unique hpos).mpr ⟨hsplit, by omega, by omega⟩

theorem floored_of_not_uneven (h : ¬ Uneven x y) :
    x.fdiv y = x.tdiv y ∧ x.fmod y = x.tmod y := by
  rw [Uneven] at h
  have hless := natAbs_tmod_lt hy x
  have hsign := @tmod_neg_iff x y
  have hsplit := Int.tmod_add_mul_tdiv x y
  rcases Int.lt_or_gt_of_ne hy with hneg | hpos
  · exact (Int.fdiv_fmod_unique' hneg).mpr ⟨hsplit, by omega, by omega⟩
  · exact (Int.fdiv_fmod_unique hpos).mpr ⟨hsplit, by omega, by omega⟩

theorem fits_fmod (hfits : Fits y) (x : Int) : Fits (x.fmod y) := by
  obtain ⟨hpos, hneg⟩ := fmod_between x y
  simp only [Fits] at *
  omega

theorem fits_fdiv_iff (hx : Fits x) : Fits (x.fdiv y) ↔ ¬ (x = -2 ^ 63 ∧ y = -1) := by
  constructor
  · rintro hfits ⟨rfl, rfl⟩
    exact absurd hfits (by decide)
  · intro h
    by_cases huneven : Uneven x y
    · have hless := natAbs_tmod_lt hy x
      have hrest := huneven.1
      have hhalf := natAbs_tdiv_le_half x (show 2 ≤ y.natAbs by omega)
      rw [(floored_of_uneven hy huneven).1]
      simp only [Fits] at *
      omega
    · rw [(floored_of_not_uneven hy huneven).1]
      exact fits_tdiv hy hx h

theorem floor_div_eq_fdiv (x : Int) : ⌊(x : ℚ) / y⌋ = x.fdiv y := by
  have hsplit : ((x.fmod y : Int) : ℚ) + y * (x.fdiv y : Int) = x := by
    exact_mod_cast Int.fmod_add_mul_fdiv x y
  obtain ⟨hpos, hneg⟩ := fmod_between x y
  rw [Int.floor_eq_iff]
  rcases Int.lt_or_gt_of_ne hy with hlt | hgt
  · have hyq : (y : ℚ) < 0 := by exact_mod_cast hlt
    have hm : (y : ℚ) < (x.fmod y : Int) ∧ ((x.fmod y : Int) : ℚ) ≤ 0 := by exact_mod_cast hneg hlt
    rw [le_div_iff_of_neg hyq, div_lt_iff_of_neg hyq]
    constructor <;> linarith
  · have hyq : (0 : ℚ) < y := by exact_mod_cast hgt
    have hm : 0 ≤ ((x.fmod y : Int) : ℚ) ∧ ((x.fmod y : Int) : ℚ) < y := by exact_mod_cast hpos hgt
    rw [le_div_iff₀ hyq, div_lt_iff₀ hyq]
    constructor <;> linarith

end Floored

/-! ## Quotients and remainders in words -/

theorem div_eq_ofInt : a / b = Int64.ofInt (a.toInt.tdiv b.toInt) := by
  rw [← Int64.toInt_inj, Int64.toInt_div, Int64.toInt_ofInt]

theorem mod_eq_ofInt : a % b = Int64.ofInt (a.toInt.tmod b.toInt) := by
  rw [← Int64.toInt_mod, Int64.ofInt_toInt]

/-- The test in words that a quotient has to be corrected. -/
theorem quotient_test : (a % b != 0 && (a < 0) != (b < 0)) = true ↔ Uneven a.toInt b.toInt := by
  simp [Uneven, ← Int64.toInt_inj, Int64.toInt_mod, Int64.lt_iff_toInt_lt]

/-- The test for a remainder asks for its sign instead of that of the dividend. -/
theorem remainder_test :
    (a % b != 0 && (a % b < 0) != (b < 0)) = true ↔ Uneven a.toInt b.toInt := by
  have htest : (a % b != 0 && (a % b < 0) != (b < 0)) = true ↔
      a.toInt.tmod b.toInt ≠ 0 ∧ ¬ (a.toInt.tmod b.toInt < 0 ↔ b.toInt < 0) := by
    simp [← Int64.toInt_inj, Int64.toInt_mod, Int64.lt_iff_toInt_lt]
  rw [htest]
  exact and_congr_right fun hrest => by rw [tmod_neg_iff hrest]

variable {a b} (hb : b ≠ 0)
include hb

theorem div_eq : div a b = word (a.toInt.fdiv b.toInt) := by
  have hy := toInt_ne_zero hb
  rw [div, if_neg hb]
  split
  case isTrue hlow =>
    simp only [Bool.and_eq_true, decide_eq_true_eq] at hlow
    obtain ⟨rfl, rfl⟩ := hlow
    rfl
  case isFalse hlow =>
    have hfits : Fits (a.toInt.fdiv b.toInt) := by
      rw [fits_fdiv_iff hy (fits_toInt a)]
      simpa [← Int64.toInt_inj] using hlow
    rw [word, if_pos hfits, div_eq_ofInt]
    split
    case isTrue huneven =>
      rw [(floored_of_uneven hy ((quotient_test a b).mp huneven)).1, Int64.ofInt_sub]
      rfl
    case isFalse heven =>
      rw [(floored_of_not_uneven hy (mt (quotient_test a b).mpr heven)).1]

theorem mod_eq : mod a b = .ok (Int64.ofInt (a.toInt.fmod b.toInt)) := by
  have hy := toInt_ne_zero hb
  rw [mod, if_neg hb]
  split
  case isTrue hone =>
    have hnone : a.toInt.fmod b.toInt = 0 := by
      have hbetween := (fmod_between a.toInt (-1)).2 (by decide)
      rw [hone, show (-1 : Int64).toInt = -1 by decide]
      omega
    rw [hnone]
    rfl
  case isFalse =>
    split
    case isTrue huneven =>
      rw [(floored_of_uneven hy ((remainder_test a b).mp huneven)).2, Int64.ofInt_add,
        ← mod_eq_ofInt, Int64.ofInt_toInt]
    case isFalse heven =>
      rw [(floored_of_not_uneven hy (mt (remainder_test a b).mpr heven)).2, ← mod_eq_ofInt]

end Arithmetic

namespace Operator

open Arithmetic

variable (a b : Int64)

theorem div_by_zero_iff : Operator.div.apply a b = .error .divisionByZero ↔ b = 0 := by
  constructor
  · intro h
    by_contra hb
    rw [apply, div_eq hb, word] at h
    split at h <;> cases h
  · exact fun h => if_pos h

theorem mod_by_zero_iff : Operator.mod.apply a b = .error .divisionByZero ↔ b = 0 := by
  constructor
  · intro h
    by_contra hb
    rw [apply, mod_eq hb] at h
    cases h
  · exact fun h => if_pos h

theorem div_overflow_iff :
    Operator.div.apply a b = .error .overflow ↔ a.toInt = -2 ^ 63 ∧ b.toInt = -1 := by
  by_cases hb : b = 0
  · subst hb
    simp [apply, Arithmetic.div]
  · have hy := toInt_ne_zero hb
    have hfits := fits_fdiv_iff hy (fits_toInt a)
    rw [apply, div_eq hb, word]
    split
    case isTrue h => exact iff_of_false (by intro herror; cases herror) (hfits.mp h)
    case isFalse h => exact iff_of_true rfl (Decidable.not_not.mp (mt hfits.mpr h))

theorem add_exact : Exact (Operator.add.apply a b) (a.toInt + b.toInt) := by
  rw [apply, add_eq]
  exact word_exact _

theorem sub_exact : Exact (Operator.sub.apply a b) (a.toInt - b.toInt) := by
  rw [apply, sub_eq]
  exact word_exact _

theorem mul_exact : Exact (Operator.mul.apply a b) (a.toInt * b.toInt) := by
  rw [apply, mul_eq]
  exact word_exact _

section Floored

variable {a b}

theorem div_floor (hb : b ≠ 0) : Exact (Operator.div.apply a b) ⌊(a.toInt : ℚ) / b.toInt⌋ := by
  have hy := toInt_ne_zero hb
  rw [floor_div_eq_fdiv hy, apply, div_eq hb]
  exact word_exact _

theorem mod_floor (hb : b ≠ 0) : ∃ m, Operator.mod.apply a b = .ok m ∧
    m.toInt = a.toInt - b.toInt * ⌊(a.toInt : ℚ) / b.toInt⌋ ∧
    (0 < b.toInt → 0 ≤ m.toInt ∧ m.toInt < b.toInt) ∧
    (b.toInt < 0 → b.toInt < m.toInt ∧ m.toInt ≤ 0) := by
  have hy := toInt_ne_zero hb
  rw [floor_div_eq_fdiv hy, apply, mod_eq hb]
  refine ⟨_, rfl, ?_⟩
  rw [toInt_ofInt (fits_fmod hy (fits_toInt b) a.toInt)]
  exact ⟨Int.fmod_def _ _, fmod_between _ _⟩

theorem div_mul_add_mod {q m : Int64} (hq : Operator.div.apply a b = .ok q)
    (hm : Operator.mod.apply a b = .ok m) : q.toInt * b.toInt + m.toInt = a.toInt := by
  have hb : b ≠ 0 := by
    intro hb
    rw [(div_by_zero_iff a b).mpr hb] at hq
    cases hq
  have hy := toInt_ne_zero hb
  rw [apply, div_eq hb, word] at hq
  rw [apply, mod_eq hb] at hm
  split at hq
  case isTrue hfits =>
    rw [← Except.ok.inj hq, ← Except.ok.inj hm, toInt_ofInt hfits,
      toInt_ofInt (fits_fmod hy (fits_toInt b) a.toInt), Int.mul_comm, Int.add_comm]
    exact Int.fmod_add_mul_fdiv _ _
  case isFalse => cases hq

end Floored

/-- What the five operations give for two words. Sum, difference and product are the true ones where
these fit a word, and overflow elsewhere. Dividing by zero fails; else the quotient is rounded down,
and fits but in one case, and the remainder is what the quotient leaves, has the sign of the divisor
and always fits. -/
structure Faithful : Prop where
  sum : Exact (Operator.add.apply a b) (a.toInt + b.toInt)
  difference : Exact (Operator.sub.apply a b) (a.toInt - b.toInt)
  product : Exact (Operator.mul.apply a b) (a.toInt * b.toInt)
  quotient_by_zero : Operator.div.apply a b = .error .divisionByZero ↔ b = 0
  remainder_by_zero : Operator.mod.apply a b = .error .divisionByZero ↔ b = 0
  quotient_overflow : Operator.div.apply a b = .error .overflow ↔
    a.toInt = -2 ^ 63 ∧ b.toInt = -1
  quotient : b ≠ 0 → Exact (Operator.div.apply a b) ⌊(a.toInt : ℚ) / b.toInt⌋
  remainder : b ≠ 0 → ∃ m, Operator.mod.apply a b = .ok m ∧
    m.toInt = a.toInt - b.toInt * ⌊(a.toInt : ℚ) / b.toInt⌋ ∧
    (0 < b.toInt → 0 ≤ m.toInt ∧ m.toInt < b.toInt) ∧
    (b.toInt < 0 → b.toInt < m.toInt ∧ m.toInt ≤ 0)
  together : ∀ q m, Operator.div.apply a b = .ok q → Operator.mod.apply a b = .ok m →
    q.toInt * b.toInt + m.toInt = a.toInt

/-- The five operations are those of the integers, and say so where a word cannot hold the result
or there is none. -/
theorem apply_exact : Faithful a b ∧
    ArithError.overflow.message = ascii "Integer overflow" ∧
    ArithError.divisionByZero.message = ascii "Division by 0" := by
  refine ⟨?_, rfl, rfl⟩
  exact {
    sum := add_exact a b
    difference := sub_exact a b
    product := mul_exact a b
    quotient_by_zero := div_by_zero_iff a b
    remainder_by_zero := mod_by_zero_iff a b
    quotient_overflow := div_overflow_iff a b
    quotient := div_floor
    remainder := mod_floor
    together := fun _ _ hq hm => div_mul_add_mod hq hm }

theorem apply_exact_negative :
    (-7 : Int64).toInt = -7 ∧ (2 : Int64) ≠ 0 ∧
    Operator.div.apply (-7) 2 = .ok (-4) ∧ Operator.mod.apply (-7) 2 = .ok 1 ∧
    (-4 : Int64).toInt * (2 : Int64).toInt + (1 : Int64).toInt = (-7 : Int64).toInt := by
  have hq : Operator.div.apply (-7) 2 = .ok (-4) := by decide +kernel
  have hm : Operator.mod.apply (-7) 2 = .ok 1 := by decide +kernel
  obtain ⟨hfaithful, -⟩ := apply_exact (-7) 2
  exact ⟨by decide, by decide, hq, hm, hfaithful.together _ _ hq hm⟩

end Operator

end SectScript
