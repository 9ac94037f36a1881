import SectScript.Proofs.Text.Decimal
import SectScript.Value
import Mathlib.Algebra.Ring.Nat

/-!
# The order of texts

Texts are ordered bytewise. Digit texts are ordered by the numbers that they denote: without its
leading zeros the longer of two denotes the greater number, and of two that are of one length the
bytewise greater one does.
-/

namespace SectScript

/-- Pairs that are ordered alike compare alike, whichever orders they are of. -/
theorem compare_congr {α β : Type} [Ord α] [LT α] [LE α] [Std.LawfulOrderOrd α]
    [Std.LawfulOrderLT α] [Ord β] [LT β] [LE β] [Std.LawfulOrderOrd β] [Std.LawfulOrderLT β]
    {a b : α} {c d : β} (hlt : a < b ↔ c < d) (hgt : b < a ↔ d < c) :
    compare a b = compare c d := by
  rw [← Std.compare_eq_lt, ← Std.compare_eq_lt] at hlt
  rw [← Std.compare_eq_gt, ← Std.compare_eq_gt] at hgt
  cases h : compare a b with
  | lt => exact (hlt.mp h).symm
  | gt => exact (hgt.mp h).symm
  | eq =>
    rw [h] at hlt hgt
    cases h' : compare c d with
    | lt => exact hlt.mpr h'
    | gt => exact hgt.mpr h'
    | eq => rfl

/-! ## Bytes -/

namespace Bytes

instance : Std.LawfulOrderOrd Bytes where
  isLE_compare a b := by
    rw [Ordering.isLE_iff_ne_gt, compare_eq_gt_iff, List.not_lt]
  isGE_compare a b := by
    rw [Ordering.isGE_iff_ne_lt, compare_eq_lt_iff, List.not_lt]

end Bytes

/-! ## Digits -/

namespace Decimal

theorem toNat_of_isDigit {b : UInt8} (h : isDigit b = true) : 48 ≤ b.toNat ∧ b.toNat ≤ 57 := by
  simpa [isDigit, UInt8.le_iff_toNat_le] using h

theorem compare_digit {x y : UInt8} (hx : isDigit x = true) (hy : isDigit y = true) :
    compare x y = compare (x.toNat - 0x30) (y.toNat - 0x30) := by
  have hx' := toNat_of_isDigit hx
  have hy' := toNat_of_isDigit hy
  apply compare_congr
  · rw [UInt8.lt_iff_toNat_lt]
    omega
  · rw [UInt8.lt_iff_toNat_lt]
    omega

/-- Digits behind a number move it up by as many places. -/
theorem foldl_digits (s : Bytes) (n : Nat) :
    s.foldl (fun n b => n * 10 + (b.toNat - 0x30)) n = n * 10 ^ s.length + value s := by
  induction s generalizing n with
  | nil => simp [value]
  | cons b s ih =>
    rw [value, List.foldl_cons, List.foldl_cons, ih, ih, List.length_cons, Nat.pow_succ', Nat.add_mul,
      Nat.mul_assoc, Nat.zero_mul, Nat.zero_add, Nat.add_assoc]

theorem value_cons (b : UInt8) (s : Bytes) :
    value (b :: s) = (b.toNat - 0x30) * 10 ^ s.length + value s := by
  rw [value, List.foldl_cons, foldl_digits, Nat.zero_mul, Nat.zero_add]

theorem value_lt_pow {s : Bytes} (h : s.all isDigit = true) : value s < 10 ^ s.length := by
  induction s with
  | nil => simp [value]
  | cons b s ih =>
    rw [List.all_cons, Bool.and_eq_true] at h
    have hdigit := toNat_of_isDigit h.1
    have hrest := ih h.2
    have hfirst : (b.toNat - 0x30) * 10 ^ s.length ≤ 9 * 10 ^ s.length :=
      Nat.mul_le_mul_right _ (by omega)
    rw [value_cons, List.length_cons, Nat.pow_succ]
    omega

/-- A first digit that is not zero puts a number above all that have fewer digits. -/
theorem pow_le_value {b : UInt8} (hb : isDigit b = true) (hne : b ≠ 0x30) (s : Bytes) :
    10 ^ s.length ≤ value (b :: s) := by
  have hdigit := toNat_of_isDigit hb
  have hpos : b.toNat ≠ 48 := fun h => hne (UInt8.toNat_inj.mp h)
  have hfirst : 1 * 10 ^ s.length ≤ (b.toNat - 0x30) * 10 ^ s.length :=
    Nat.mul_le_mul_right _ (by omega)
  rw [value_cons]
  omega

/-- Numbers of two places are compared by the first place, then by the second. -/
theorem compare_places {p x y m n : Nat} (hm : m < p) (hn : n < p) :
    compare (x * p + m) (y * p + n) = (compare x y).then (compare m n) := by
  have hbelow : ∀ {x y : Nat}, x < y → x * p + p ≤ y * p := by
    intro x y h
    rw [← Nat.succ_mul]
    exact Nat.mul_le_mul_right p h
  rcases Nat.lt_trichotomy x y with hlt | rfl | hgt
  · have hle := hbelow hlt
    rw [Nat.compare_eq_lt.mpr hlt, Nat.compare_eq_lt.mpr (by omega)]
    rfl
  · rw [Std.compare_self, Ordering.eq_then]
    exact compare_congr (by omega) (by omega)
  · have hle := hbelow hgt
    rw [Nat.compare_eq_gt.mpr hgt, Nat.compare_eq_gt.mpr (by omega)]
    rfl

/-- Digit texts of one length are in the order of their numbers. -/
theorem compare_value_of_length_eq {a b : Bytes} (hlen : a.length = b.length)
    (ha : a.all isDigit = true) (hb : b.all isDigit = true) :
    compare a b = compare (value a) (value b) := by
  induction a generalizing b with
  | nil =>
    obtain rfl := List.length_eq_zero_iff.mp hlen.symm
    rfl
  | cons x a ih =>
    cases b with
    | nil => cases hlen
    | cons y b =>
      rw [List.all_cons, Bool.and_eq_true] at ha hb
      have hlen' : a.length = b.length := Nat.succ.inj hlen
      have hlast : value b < 10 ^ a.length := hlen' ▸ value_lt_pow hb.2
      rw [List.compare_cons_cons, value_cons, value_cons, ← hlen',
        compare_places (value_lt_pow ha.2) hlast, compare_digit ha.1 hb.1, ih hlen' ha.2 hb.2]

/-- Without its leading zeros the longer text denotes the greater number. -/
theorem value_lt_of_length_lt {a b : Bytes} (ha : a.all isDigit = true) (hb : b.all isDigit = true)
    (hfirst : b.head? ≠ some 0x30) (hlen : a.length < b.length) : value a < value b := by
  cases b with
  | nil => cases hlen
  | cons y b =>
    rw [List.all_cons, Bool.and_eq_true] at hb
    have hne : y ≠ 0x30 := fun h => hfirst (congrArg some h)
    have hpow : 10 ^ a.length ≤ 10 ^ b.length :=
      Nat.pow_le_pow_right (by decide) (Nat.le_of_lt_succ hlen)
    have hlow := value_lt_pow ha
    have hhigh := pow_le_value hb.1 hne b
    omega

/-- Digits stand behind a minus sign in the order of bytes. -/
theorem compare_minus {s t : Bytes} (ht : isDigits t = true) : compare (0x2D :: s) t = .lt := by
  cases t with
  | nil => cases ht
  | cons d t =>
    have hdigit : isDigit d = true ∧ t.all isDigit = true := by simpa [isDigits] using ht
    have hd := toNat_of_isDigit hdigit.1
    have hlt : (0x2D : UInt8) < d := by
      rw [UInt8.lt_iff_toNat_lt]
      change 45 < d.toNat
      omega
    exact Bytes.compare_eq_lt_iff.mpr (List.cons_lt_cons_iff.mpr (Or.inl hlt))

/-! ### Leading zeros -/

def dropZeros (s : Bytes) : Bytes := s.dropWhile (· == 0x30)

theorem value_dropZeros (s : Bytes) : value (dropZeros s) = value s := by
  induction s with
  | nil => rfl
  | cons b s ih =>
    by_cases h : b = 0x30
    · subst h
      have hzero : value (0x30 :: s) = value s := by
        rw [value_cons]
        simp
      rw [hzero, ← ih]
      rfl
    · rw [dropZeros, List.dropWhile_cons_of_neg (by simpa using h)]

theorem all_dropZeros {s : Bytes} (h : s.all isDigit = true) :
    (dropZeros s).all isDigit = true := by
  rw [List.all_eq_true] at *
  exact fun b hb => h b ((List.dropWhile_suffix _).subset hb)

theorem head?_dropZeros (s : Bytes) : (dropZeros s).head? ≠ some 0x30 := by
  intro h
  have hnot := List.head?_dropWhile_not (· == (0x30 : UInt8)) s
  rw [← dropZeros, h] at hnot
  cases hnot

/-- Digits without leading zeros are known by the number that they denote. -/
theorem eq_of_value_eq {s t : Bytes} (hs : s.all isDigit = true) (ht : t.all isDigit = true)
    (hs0 : s.head? ≠ some 0x30) (ht0 : t.head? ≠ some 0x30) (hvalue : value s = value t) :
    s = t := by
  have hlen : s.length = t.length := by
    rcases Nat.lt_trichotomy s.length t.length with hlt | heq | hgt
    · have hless := value_lt_of_length_lt hs ht ht0 hlt
      omega
    · exact heq
    · have hless := value_lt_of_length_lt ht hs hs0 hgt
      omega
  have hcompare := compare_value_of_length_eq hlen hs ht
  rw [hvalue, Std.compare_self] at hcompare
  exact Std.LawfulEqCmp.eq_of_compare hcompare

/-- A positive number is written without leading zeros. -/
theorem head?_prepend {fuel n : Nat} (enough : n < fuel) (hpos : 0 < n) (s : Bytes) :
    (prepend fuel n s).head? ≠ some 0x30 := by
  induction fuel generalizing n s with
  | zero => omega
  | succ fuel ih =>
    rw [prepend]
    split
    case isTrue hsmall =>
      intro hzero
      have hdigit := toNat_digit (Nat.mod_lt n (by omega : 0 < 10))
      rw [Option.some.inj hzero] at hdigit
      change 48 = 48 + n % 10 at hdigit
      omega
    case isFalse hlarge => exact ih (by omega) (by omega) _

/-- Digits without their leading zeros, of which one stays if there is nothing else. -/
def shortest (s : Bytes) : Bytes := if dropZeros s = [] then [0x30] else dropZeros s

/-- A number is written in the shortest way to denote it. -/
theorem ofNat_value {s : Bytes} (h : s.all isDigit = true) : ofNat (value s) = shortest s := by
  have hdigits := all_dropZeros h
  have hhead := head?_dropZeros s
  rw [shortest, ← value_dropZeros s]
  split
  case isTrue hnil =>
    rw [hnil]
    rfl
  case isFalse hne =>
    obtain ⟨d, ds, hcons⟩ := List.exists_cons_of_ne_nil hne
    have hpos : 0 < value (dropZeros s) := by
      rw [hcons] at hdigits hhead ⊢
      rw [List.all_cons, Bool.and_eq_true] at hdigits
      have hpow := pow_le_value hdigits.1 (fun hd => hhead (congrArg some hd)) ds
      have hone : 0 < 10 ^ ds.length := Nat.pow_pos (by omega)
      omega
    obtain ⟨hall, hvalue⟩ := ofNat_spec (value (dropZeros s))
    rw [isDigits, Bool.and_eq_true] at hall
    exact eq_of_value_eq hall.2 hdigits (head?_prepend (Nat.lt_succ_self _) hpos []) hhead hvalue

end Decimal

open Decimal in
/-- Digit texts compare as the numbers that they denote, whatever their lengths and leading
zeros. -/
theorem compareDigits_eq {a b : Bytes} (ha : a.all isDigit = true) (hb : b.all isDigit = true) :
    compareDigits a b = compare (value a) (value b) := by
  have ha' := all_dropZeros ha
  have hb' := all_dropZeros hb
  have hcompare : compareDigits a b =
      if (dropZeros a).length < (dropZeros b).length then .lt
      else if (dropZeros b).length < (dropZeros a).length then .gt
      else compare (dropZeros a) (dropZeros b) := rfl
  rw [hcompare, ← value_dropZeros a, ← value_dropZeros b]
  split
  case isTrue hlt =>
    exact (Nat.compare_eq_lt.mpr (value_lt_of_length_lt ha' hb' (head?_dropZeros b) hlt)).symm
  case isFalse hge =>
    split
    case isTrue hgt =>
      exact (Nat.compare_eq_gt.mpr (value_lt_of_length_lt hb' ha' (head?_dropZeros a) hgt)).symm
    case isFalse hle => exact compare_value_of_length_eq (by omega) ha' hb'

end SectScript
