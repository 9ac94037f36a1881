import SectScript.Text.Blank
import Mathlib.Tactic.Tauto

/-!
# Trimming

Trimming takes whole blank characters off both ends and is done in one go. An ASCII byte is no part
of a longer blank, so a text can be trimmed on both sides of one independently; this is what lines
put together from words and single spaces are trimmed by.
-/

namespace SectScript.Bytes

section Units

variable {one : UInt8 → Bool} {two : UInt8 → UInt8 → Bool} {three : UInt8 → UInt8 → UInt8 → Bool}

/-- A unit stands at the front. -/
def startsUnit (one : UInt8 → Bool) (two : UInt8 → UInt8 → Bool)
    (three : UInt8 → UInt8 → UInt8 → Bool) : Bytes → Bool
  | [] => false
  | [a] => one a
  | [a, b] => one a || two a b
  | a :: b :: c :: _ => one a || two a b || three a b c

theorem startsUnit_cases {s : Bytes} (h : startsUnit one two three s = true) :
    (∃ a t, s = a :: t ∧ one a = true) ∨ (∃ a b t, s = a :: b :: t ∧ two a b = true) ∨
      ∃ a b c t, s = a :: b :: c :: t ∧ three a b c = true := by
  match s, h with
  | [a], h => exact Or.inl ⟨a, [], rfl, h⟩
  | [a, b], h =>
    rcases (Bool.or_eq_true _ _).mp h with h | h
    · exact Or.inl ⟨a, [b], rfl, h⟩
    · exact Or.inr (Or.inl ⟨a, b, [], rfl, h⟩)
  | a :: b :: c :: t, h =>
    simp only [startsUnit, Bool.or_eq_true] at h
    rcases h with (h | h) | h
    · exact Or.inl ⟨a, b :: c :: t, rfl, h⟩
    · exact Or.inr (Or.inl ⟨a, b, c :: t, rfl, h⟩)
    · exact Or.inr (Or.inr ⟨a, b, c, t, rfl, h⟩)

theorem startsUnit_dropUnits (s : Bytes) :
    startsUnit one two three (dropUnits one two three s) = false := by
  fun_induction dropUnits one two three s with
  | case1 => rfl
  | case2 a s h1 ih => exact ih
  | case3 a h1 => simpa [startsUnit] using h1
  | case4 a h1 b s h2 ih => exact ih
  | case5 a h1 b h2 => simp [startsUnit, h1, h2]
  | case6 a h1 b h2 c s h3 ih => exact ih
  | case7 a h1 b h2 c s h3 => simp [startsUnit, h1, h2, h3]

theorem dropUnits_one {a : UInt8} (h : one a = true) (s : Bytes) :
    dropUnits one two three (a :: s) = dropUnits one two three s := by
  rw [dropUnits.eq_def]
  simp [h]

theorem dropUnits_two {a b : UInt8} (h1 : ¬ one a = true) (h2 : two a b = true) (s : Bytes) :
    dropUnits one two three (a :: b :: s) = dropUnits one two three s := by
  rw [dropUnits.eq_def]
  simp [h1, h2]

theorem dropUnits_three {a b c : UInt8} (h1 : ¬ one a = true) (h2 : ¬ two a b = true)
    (h3 : three a b c = true) (s : Bytes) :
    dropUnits one two three (a :: b :: c :: s) = dropUnits one two three s := by
  rw [dropUnits.eq_def]
  simp [h1, h2, h3]

theorem dropUnits_eq_self {s : Bytes} (h : startsUnit one two three s = false) :
    dropUnits one two three s = s := by
  match s, h with
  | [], _ => rfl
  | [a], h => simp_all [startsUnit, dropUnits]
  | [a, b], h => simp_all [startsUnit, dropUnits]
  | a :: b :: c :: s, h => simp_all [startsUnit, dropUnits]

theorem startsUnit_of_dropUnits_ne {s : Bytes} (h : dropUnits one two three s ≠ s) :
    startsUnit one two three s = true := by
  rw [← Bool.not_eq_false]
  exact fun hnone => h (dropUnits_eq_self hnone)

theorem dropUnits_suffix (s : Bytes) : dropUnits one two three s <:+ s := by
  fun_induction dropUnits one two three s with
  | case1 | case3 | case5 | case7 => exact List.suffix_refl _
  | case2 a s _ ih => exact ih.trans (List.suffix_append [a] s)
  | case4 a _ b s _ ih => exact ih.trans (List.suffix_append [a, b] s)
  | case6 a _ b _ c s _ ih => exact ih.trans (List.suffix_append [a, b, c] s)

/-- A byte that no unit holds behind its first byte ends the units before it. -/
theorem dropUnits_append_cons {a : UInt8} (h2 : ∀ x, two x a = false)
    (h3 : ∀ x y, three x a y = false) (h3' : ∀ x y, three x y a = false) (s t : Bytes) :
    dropUnits one two three (s ++ a :: t) =
      if dropUnits one two three s = [] then dropUnits one two three (a :: t)
      else dropUnits one two three s ++ a :: t := by
  fun_induction dropUnits one two three s with
  | case1 => simp
  | case2 x s h ih => simpa only [List.cons_append, dropUnits_one h] using ih
  | case3 x h => cases t <;> simp [dropUnits, h, h2, h3]
  | case4 x h y s hxy ih => simpa only [List.cons_append, dropUnits_two h hxy] using ih
  | case5 x h y hxy => simp [dropUnits, h, hxy, h3']
  | case6 x h y hxy z s hxyz ih =>
    simpa only [List.cons_append, dropUnits_three h hxy hxyz] using ih
  | case7 x h y hxy z s hxyz => simp [dropUnits, h, hxy, hxyz]

theorem startsUnit_append {s : Bytes} (h : startsUnit one two three s = true) (t : Bytes) :
    startsUnit one two three (s ++ t) = true := by
  match s, h with
  | [a], h =>
    simp only [startsUnit] at h
    rcases t with _ | ⟨b, _ | ⟨c, t⟩⟩ <;> simp [startsUnit, h]
  | [a, b], h =>
    simp only [startsUnit, Bool.or_eq_true] at h
    rcases t with _ | ⟨c, t⟩ <;> simp [startsUnit, h]
  | a :: b :: c :: s, h => simpa [startsUnit] using h

theorem dropUnits_append (s t : Bytes) : dropUnits one two three (s ++ t) =
    dropUnits one two three (dropUnits one two three s ++ t) := by
  fun_induction dropUnits one two three s with
  | case1 | case3 | case5 | case7 => rfl
  | case2 x s h ih => rwa [List.cons_append, dropUnits_one h]
  | case4 x h y s hxy ih => rwa [List.cons_append, List.cons_append, dropUnits_two h hxy]
  | case6 x h y hxy z s hxyz ih =>
    rwa [List.cons_append, List.cons_append, List.cons_append, dropUnits_three h hxy hxyz]

/-- A text that starts no unit starts none before bytes with which no unit goes on. -/
theorem startsUnit_append_cons {s t : Bytes} {b : UInt8} (hne : s ≠ [])
    (hs : startsUnit one two three s = false) (h2 : ∀ x, two x b = false)
    (h3 : ∀ x y, three x y b = false) (h3' : ∀ x, ∀ c ∈ t.head?, three x b c = false) :
    startsUnit one two three (s ++ b :: t) = false := by
  match s, hne, hs with
  | [x], _, hs =>
    cases t with
    | nil => simpa [startsUnit, h2] using hs
    | cons c t => simpa [startsUnit, h2, h3' x c rfl] using hs
  | [x, y], _, hs => simpa [startsUnit, h3] using hs
  | x :: y :: z :: s, _, hs => exact hs

end Units

theorem trimLeft_isSuffix (s : Bytes) : trimLeft s <:+ s := dropUnits_suffix s

theorem trimRight_isPrefix (s : Bytes) : trimRight s <+: s := by
  have h := List.reverse_prefix.mpr (@dropUnits_suffix isBlank₁ (fun b a => isBlank₂ a b)
    (fun c b a => isBlank₃ a b c) s.reverse)
  simpa [trimRight] using h

theorem trim_subset (s : Bytes) : trim s ⊆ s :=
  List.Subset.trans (trimRight_isPrefix _).subset (trimLeft_isSuffix s).subset

theorem length_trim_le (s : Bytes) : (trim s).length ≤ s.length :=
  Nat.le_trans (trimRight_isPrefix _).length_le (trimLeft_isSuffix s).length_le

theorem trimLeft_trimLeft (s : Bytes) : trimLeft (trimLeft s) = trimLeft s :=
  dropUnits_eq_self (startsUnit_dropUnits s)

theorem trimRight_trimRight (s : Bytes) : trimRight (trimRight s) = trimRight s := by
  simp only [trimRight, List.reverse_reverse]
  rw [dropUnits_eq_self (startsUnit_dropUnits _)]

/-- A text with no blank at the front has none there after bytes are taken off its end. -/
theorem trimLeft_eq_self_of_front {s t : Bytes} (hs : s <+: t) (ht : trimLeft t = t) :
    trimLeft s = s := by
  apply dropUnits_eq_self
  obtain ⟨r, rfl⟩ := hs
  have clear : startsUnit isBlank₁ isBlank₂ isBlank₃ (s ++ r) = false := by
    rw [← ht]
    exact startsUnit_dropUnits _
  cases h : startsUnit isBlank₁ isBlank₂ isBlank₃ s with
  | false => rfl
  | true =>
    rw [startsUnit_append h r] at clear
    cases clear

@[simp] theorem trim_trim (s : Bytes) : trim (trim s) = trim s := by
  have h : trimLeft (trim s) = trim s :=
    trimLeft_eq_self_of_front (trimRight_isPrefix _) (trimLeft_trimLeft s)
  rw [trim, h]
  exact trimRight_trimRight _

theorem trim_eq_self_iff (s : Bytes) : trim s = s ↔ trimLeft s = s ∧ trimRight s = s := by
  constructor
  · intro h
    have hlen := (trimRight_isPrefix (trimLeft s)).length_le
    rw [show trimRight (trimLeft s) = s from h] at hlen
    have hl : trimLeft s = s := (trimLeft_isSuffix s).eq_of_length_le hlen
    rw [trim, hl] at h
    exact ⟨hl, h⟩
  · rintro ⟨hl, hr⟩
    rw [trim, hl, hr]

/-! An ASCII byte is a unit of its own or belongs to none. -/

theorem isBlank₂_ascii_left {a : UInt8} (ha : a < 0x80) (x : UInt8) : isBlank₂ a x = false := by
  cases h : isBlank₂ a x with
  | false => rfl
  | true =>
    simp only [isBlank₂, Bool.and_eq_true, beq_iff_eq] at h
    rw [h.1] at ha
    exact absurd ha (by decide)

theorem isBlank₂_ascii_right {a : UInt8} (ha : a < 0x80) (x : UInt8) : isBlank₂ x a = false := by
  cases h : isBlank₂ x a with
  | false => rfl
  | true =>
    simp only [isBlank₂, Bool.and_eq_true, Bool.or_eq_true, beq_iff_eq] at h
    rcases h with ⟨_, rfl | rfl⟩ <;> exact absurd ha (by decide)

theorem isBlank₃_ascii_left {a : UInt8} (ha : a < 0x80) (x y : UInt8) :
    isBlank₃ a x y = false := by
  cases h : isBlank₃ a x y with
  | false => rfl
  | true =>
    simp only [isBlank₃, Bool.and_eq_true, Bool.or_eq_true, beq_iff_eq] at h
    have ha' : a = 0xE1 ∨ a = 0xE2 ∨ a = 0xE3 := by tauto
    rcases ha' with rfl | rfl | rfl <;> exact absurd ha (by decide)

theorem isBlank₃_ascii_middle {a : UInt8} (ha : a < 0x80) (x y : UInt8) :
    isBlank₃ x a y = false := by
  cases h : isBlank₃ x a y with
  | false => rfl
  | true =>
    simp only [isBlank₃, Bool.and_eq_true, Bool.or_eq_true, beq_iff_eq] at h
    have ha' : a = 0x9A ∨ a = 0x80 ∨ a = 0x81 := by tauto
    rcases ha' with rfl | rfl | rfl <;> exact absurd ha (by decide)

theorem isBlank₃_ascii_right {a : UInt8} (ha : a < 0x80) (x y : UInt8) :
    isBlank₃ x y a = false := by
  cases h : isBlank₃ x y a with
  | false => rfl
  | true =>
    simp only [isBlank₃, Bool.and_eq_true, Bool.or_eq_true, beq_iff_eq, decide_eq_true_eq] at h
    have ha' : 0x80 ≤ a ∨ a = 0xA8 ∨ a = 0xA9 ∨ a = 0xAF ∨ a = 0x9F ∨ a = 0x80 := by tauto
    rcases ha' with h | rfl | rfl | rfl | rfl | rfl
    · exact absurd ha (UInt8.not_lt.mpr h)
    all_goals exact absurd ha (by decide)

theorem trimLeft_append_cons {a : UInt8} (ha : a < 0x80) (s t : Bytes) :
    trimLeft (s ++ a :: t) =
      if trimLeft s = [] then trimLeft (a :: t) else trimLeft s ++ a :: t :=
  dropUnits_append_cons (isBlank₂_ascii_right ha) (isBlank₃_ascii_middle ha)
    (isBlank₃_ascii_right ha) s t

theorem trimRight_append_cons {a : UInt8} (ha : a < 0x80) (s t : Bytes) :
    trimRight (s ++ a :: t) =
      if trimRight t = [] then trimRight (s ++ [a]) else s ++ a :: trimRight t := by
  have h := @dropUnits_append_cons isBlank₁ (fun b a => isBlank₂ a b)
    (fun c b a => isBlank₃ a b c) a (isBlank₂_ascii_left ha)
    (fun x y => isBlank₃_ascii_middle ha y x) (fun x y => isBlank₃_ascii_left ha y x)
    t.reverse s.reverse
  have hrev : (s ++ a :: t).reverse = t.reverse ++ a :: s.reverse := by simp
  rw [trimRight, hrev, h]
  simp only [trimRight, List.reverse_eq_nil_iff]
  split
  · simp
  · simp

/-- A byte that white space neither is nor contains. -/
def isSolid (a : UInt8) : Bool := a < 0x80 && !isBlank₁ a

section Solid

variable {a : UInt8} (ha : isSolid a = true)
include ha

theorem ascii_of_solid : a < 0x80 := by
  simp only [isSolid, Bool.and_eq_true, decide_eq_true_eq] at ha
  exact ha.1

theorem not_blank_of_solid : isBlank₁ a = false := by
  simp only [isSolid, Bool.and_eq_true, Bool.not_eq_true'] at ha
  exact ha.2

theorem trimLeft_cons_of_solid (s : Bytes) : trimLeft (a :: s) = a :: s := by
  have hascii := ascii_of_solid ha
  apply dropUnits_eq_self
  rcases s with _ | ⟨b, _ | ⟨c, s⟩⟩ <;>
    simp [startsUnit, not_blank_of_solid ha, isBlank₂_ascii_left hascii,
      isBlank₃_ascii_left hascii]

theorem trimRight_append_of_solid (s : Bytes) : trimRight (s ++ [a]) = s ++ [a] := by
  have hascii := ascii_of_solid ha
  have hrev : (s ++ [a]).reverse = a :: s.reverse := by simp
  have clear : startsUnit isBlank₁ (fun b a => isBlank₂ a b) (fun c b a => isBlank₃ a b c)
      (a :: s.reverse) = false := by
    rcases s.reverse with _ | ⟨b, _ | ⟨c, s⟩⟩ <;>
      simp [startsUnit, not_blank_of_solid ha, isBlank₂_ascii_right hascii,
        isBlank₃_ascii_right hascii]
  rw [trimRight, hrev, dropUnits_eq_self clear, ← hrev, List.reverse_reverse]

/-- What stands behind a solid byte is trimmed on its own. -/
theorem trimRight_append_cons_of_solid (s t : Bytes) :
    trimRight (s ++ a :: t) = s ++ a :: trimRight t := by
  rw [trimRight_append_cons (ascii_of_solid ha)]
  split
  case isTrue h => rw [h, trimRight_append_of_solid ha]
  case isFalse h => rfl

theorem trim_cons_of_solid (s : Bytes) : trim (a :: s) = a :: trimRight s := by
  rw [trim, trimLeft_cons_of_solid ha]
  exact trimRight_append_cons_of_solid ha [] s

theorem trim_cons_eq_self {s : Bytes} (hs : trimRight s = s) : trim (a :: s) = a :: s := by
  rw [trim_cons_of_solid ha, hs]

end Solid

/-! ## Blanks of one byte -/

section Blank

variable {a : UInt8} (ha : isBlank₁ a = true)
include ha

theorem toNat_of_blank : (9 ≤ a.toNat ∧ a.toNat ≤ 13) ∨ a.toNat = 32 := by
  simpa [isBlank₁, UInt8.le_iff_toNat_le, ← UInt8.toNat_inj] using ha

theorem ascii_of_blank : a < 0x80 := by
  have hbyte := toNat_of_blank ha
  have hlt : a.toNat < 128 := by omega
  simpa [UInt8.lt_iff_toNat_lt] using hlt

theorem trim_blank_cons (s : Bytes) : trim (a :: s) = trim s := by
  rw [trim, trim, trimLeft, trimLeft, dropUnits_one ha]

theorem trimRight_append_blank (s : Bytes) : trimRight (s ++ [a]) = trimRight s := by
  rw [trimRight, trimRight, List.reverse_append]
  congr 1
  exact dropUnits_one ha s.reverse

theorem trim_append_blank (s : Bytes) : trim (s ++ [a]) = trim s := by
  rw [trim, trimLeft_append_cons (ascii_of_blank ha)]
  split
  case isTrue h =>
    have hblank : trimLeft [a] = [] := dropUnits_one ha []
    rw [trim, h, hblank]
  case isFalse h => rw [trimRight_append_blank ha, trim]

end Blank

/-- The text is made of blanks of one byte, or empty. -/
def Gap (s : Bytes) : Prop := ∀ b ∈ s, isBlank₁ b = true

instance (s : Bytes) : Decidable (Gap s) := inferInstanceAs (Decidable (∀ b ∈ s, _))

theorem trim_gap_append {gap : Bytes} (h : Gap gap) (s : Bytes) : trim (gap ++ s) = trim s := by
  induction gap with
  | nil => rfl
  | cons a gap ih =>
    have hrest : Gap gap := fun b hb => h b (List.mem_cons_of_mem a hb)
    rw [List.cons_append, trim_blank_cons (h a List.mem_cons_self), ih hrest]

theorem trim_append_gap {gap : Bytes} (h : Gap gap) (s : Bytes) : trim (s ++ gap) = trim s := by
  induction gap generalizing s with
  | nil => rw [List.append_nil]
  | cons a gap ih =>
    have hrest : Gap gap := fun b hb => h b (List.mem_cons_of_mem a hb)
    rw [List.append_cons, ih hrest, trim_append_blank (h a List.mem_cons_self)]

@[simp] theorem trim_space_cons (s : Bytes) : trim (0x20 :: s) = trim s :=
  trim_blank_cons (by decide) s

@[simp] theorem trim_append_space (s : Bytes) : trim (s ++ [0x20]) = trim s :=
  trim_append_blank (by decide) s

/-- A trimmed text keeps its front before a space, and what follows keeps its end. -/
theorem trim_append_space_cons {s t : Bytes} (hs : trimLeft s = s) (hne : s ≠ [])
    (ht : trimRight t = t) (htne : t ≠ []) : trim (s ++ 0x20 :: t) = s ++ 0x20 :: t := by
  rw [trim, trimLeft_append_cons (by decide), hs, if_neg hne, trimRight_append_cons (by decide),
    ht, if_neg htne]

theorem trim_trimRight_space_cons {s : Bytes} (h : trim s = s) :
    trim (trimRight (0x20 :: s)) = s := by
  have hs := ((trim_eq_self_iff s).mp h).2
  have hright := trimRight_append_cons (a := 0x20) (by decide) [] s
  rw [List.nil_append, List.nil_append, List.nil_append, hs] at hright
  rw [hright]
  split
  case isTrue hnil =>
    rw [hnil]
    decide
  case isFalse => rw [trim_space_cons, h]

end SectScript.Bytes
