import SectScript.Proofs.Text.Blank
import SectScript.Text.Utf8

/-!
# White space around a text

White space at the ends of a text is trimmed away character by character, whatever bytes it stands
next to: the first byte of a character never continues another one, so neither an invalid byte nor
the beginning of a character can merge with white space that follows or precedes it.
-/

namespace SectScript

/-- The code points that are white space. -/
def Utf8.spaces : List Nat :=
  [0x09, 0x0A, 0x0B, 0x0C, 0x0D, 0x20, 0x85, 0xA0, 0x1680, 0x2000, 0x2001, 0x2002, 0x2003, 0x2004,
    0x2005, 0x2006, 0x2007, 0x2008, 0x2009, 0x200A, 0x2028, 0x2029, 0x202F, 0x205F, 0x3000]

namespace Bytes

/-! ## Blank characters -/

/-- The text is one blank character. -/
def isBlankChar : Bytes → Bool
  | [a] => isBlank₁ a
  | [a, b] => isBlank₂ a b
  | [a, b, c] => isBlank₃ a b c
  | _ => false

/-- A blank character is of one, two or three bytes. -/
theorem isBlankChar_cases {u : Bytes} (h : isBlankChar u = true) :
    (∃ a, u = [a] ∧ isBlank₁ a = true) ∨ (∃ a b, u = [a, b] ∧ isBlank₂ a b = true) ∨
      ∃ a b c, u = [a, b, c] ∧ isBlank₃ a b c = true := by
  rw [isBlankChar.eq_def] at h
  split at h
  case h_1 a => exact Or.inl ⟨a, rfl, h⟩
  case h_2 a b => exact Or.inr (Or.inl ⟨a, b, rfl, h⟩)
  case h_3 a b c => exact Or.inr (Or.inr ⟨a, b, c, rfl, h⟩)
  case h_4 => cases h

theorem isBlankChar_encode {code : Nat} (h : code ∈ Utf8.spaces) :
    isBlankChar (Utf8.encode code) = true := by
  have hall : ∀ code ∈ Utf8.spaces, isBlankChar (Utf8.encode code) = true := by decide
  exact hall code h

theorem bytes_of_isBlank₂ {a b : UInt8} (h : isBlank₂ a b = true) :
    a = 0xC2 ∧ (b = 0x85 ∨ b = 0xA0) := by
  simpa [isBlank₂] using h

theorem bytes_of_isBlank₃ {a b c : UInt8} (h : isBlank₃ a b c = true) :
    (a = 0xE1 ∨ a = 0xE2 ∨ a = 0xE3) ∧ (b = 0x9A ∨ b = 0x80 ∨ b = 0x81) := by
  simp only [isBlank₃, Bool.and_eq_true, Bool.or_eq_true, beq_iff_eq] at h
  tauto

theorem isBlank₂_of_ne {a : UInt8} (ha : a ≠ 0xC2) (b : UInt8) : isBlank₂ a b = false := by
  simp [isBlank₂, ha]

theorem isBlank₃_of_ne {a : UInt8} (ha : a ≠ 0xE1 ∧ a ≠ 0xE2 ∧ a ≠ 0xE3) (b c : UInt8) :
    isBlank₃ a b c = false := by
  simp [isBlank₃, ha]

/-- The last byte of a blank character begins no longer one. -/
theorem last_of_isBlank₃ {a b c : UInt8} (h : isBlank₃ a b c = true) :
    c ≠ 0xC2 ∧ c ≠ 0xE1 ∧ c ≠ 0xE2 ∧ c ≠ 0xE3 := by
  refine ⟨?_, ?_, ?_, ?_⟩ <;> rintro rfl <;> revert h <;> simp [isBlank₃]

/-- A byte that no blank character has behind its first byte. -/
structure Leads (a : UInt8) : Prop where
  second : ∀ x, isBlank₂ x a = false
  middle : ∀ x y, isBlank₃ x a y = false
  last : ∀ x y, isBlank₃ x y a = false

theorem leads_of_isBlank₁ {a : UInt8} (h : isBlank₁ a = true) : Leads a :=
  have ha := ascii_of_blank h
  ⟨isBlank₂_ascii_right ha, isBlank₃_ascii_middle ha, isBlank₃_ascii_right ha⟩

theorem leads_of_isBlank₂ {a b : UInt8} (h : isBlank₂ a b = true) : Leads a := by
  obtain ⟨rfl, -⟩ := bytes_of_isBlank₂ h
  exact ⟨by simp [isBlank₂], by simp [isBlank₃], by simp [isBlank₃]⟩

theorem leads_of_isBlank₃ {a b c : UInt8} (h : isBlank₃ a b c = true) : Leads a := by
  obtain ⟨rfl | rfl | rfl, -⟩ := bytes_of_isBlank₃ h <;>
    exact ⟨by simp [isBlank₂], by simp [isBlank₃], by simp [isBlank₃]⟩

/-- What begins with a byte that leads is not taken for the rest of a blank character. -/
theorem trimLeft_append_of_leads {a : UInt8} (ha : Leads a) (s t : Bytes) :
    trimLeft (s ++ a :: t) =
      if trimLeft s = [] then trimLeft (a :: t) else trimLeft s ++ a :: t :=
  dropUnits_append_cons ha.second ha.middle ha.last s t

theorem not_isBlank₁_of_isBlank₂ {a b : UInt8} (h : isBlank₂ a b = true) :
    ¬ isBlank₁ a = true ∧ ¬ isBlank₁ b = true := by
  constructor
  · intro ha
    rw [isBlank₂_ascii_left (ascii_of_blank ha)] at h
    cases h
  · intro hb
    rw [isBlank₂_ascii_right (ascii_of_blank hb)] at h
    cases h

theorem not_isBlank₁_of_isBlank₃ {a b c : UInt8} (h : isBlank₃ a b c = true) :
    ¬ isBlank₁ a = true ∧ ¬ isBlank₁ c = true := by
  constructor
  · intro ha
    rw [isBlank₃_ascii_left (ascii_of_blank ha)] at h
    cases h
  · intro hc
    rw [isBlank₃_ascii_right (ascii_of_blank hc)] at h
    cases h

theorem not_isBlank₂_of_isBlank₃ {a b c : UInt8} (h : isBlank₃ a b c = true) :
    ¬ isBlank₂ a b = true ∧ ¬ isBlank₂ b c = true := by
  obtain ⟨ha, hb⟩ := bytes_of_isBlank₃ h
  have ha : a ≠ 0xC2 := by rcases ha with rfl | rfl | rfl <;> decide
  have hb : b ≠ 0xC2 := by rcases hb with rfl | rfl | rfl <;> decide
  rw [isBlank₂_of_ne ha, isBlank₂_of_ne hb]
  exact ⟨Bool.false_ne_true, Bool.false_ne_true⟩

/-- A text with a blank at the front starts with a blank character. -/
theorem exists_blankChar_of_trimLeft_ne {s : Bytes} (h : trimLeft s ≠ s) :
    ∃ u t, isBlankChar u = true ∧ s = u ++ t := by
  rcases startsUnit_cases (startsUnit_of_dropUnits_ne h) with ⟨a, t, rfl, hu⟩ |
    ⟨a, b, t, rfl, hu⟩ | ⟨a, b, c, t, rfl, hu⟩
  · exact ⟨[a], t, hu, rfl⟩
  · exact ⟨[a, b], t, hu, rfl⟩
  · exact ⟨[a, b, c], t, hu, rfl⟩

theorem exists_blankChar_of_trimRight_ne {s : Bytes} (h : trimRight s ≠ s) :
    ∃ u t, isBlankChar u = true ∧ s = t ++ u := by
  have hne : dropUnits isBlank₁ (fun b a => isBlank₂ a b) (fun c b a => isBlank₃ a b c) s.reverse ≠
      s.reverse := by
    intro heq
    rw [trimRight, heq, List.reverse_reverse] at h
    exact h rfl
  rcases startsUnit_cases (startsUnit_of_dropUnits_ne hne) with ⟨c, t, hs, hu⟩ |
    ⟨c, b, t, hs, hu⟩ | ⟨c, b, a, t, hs, hu⟩
  · exact ⟨[c], t.reverse, hu, by simpa using congrArg List.reverse hs⟩
  · exact ⟨[b, c], t.reverse, hu, by simpa using congrArg List.reverse hs⟩
  · exact ⟨[a, b, c], t.reverse, hu, by simpa using congrArg List.reverse hs⟩

section BlankChar

variable {u : Bytes} (hu : isBlankChar u = true) (s : Bytes)
include hu

theorem trimLeft_blankChar_append : trimLeft (u ++ s) = trimLeft s := by
  rcases isBlankChar_cases hu with ⟨a, rfl, h⟩ | ⟨a, b, rfl, h⟩ | ⟨a, b, c, rfl, h⟩
  · exact dropUnits_one h s
  · exact dropUnits_two (not_isBlank₁_of_isBlank₂ h).1 h s
  · exact dropUnits_three (not_isBlank₁_of_isBlank₃ h).1 (not_isBlank₂_of_isBlank₃ h).1 h s

theorem trimRight_append_blankChar : trimRight (s ++ u) = trimRight s := by
  rw [trimRight, trimRight, List.reverse_append]
  congr 1
  rcases isBlankChar_cases hu with ⟨a, rfl, h⟩ | ⟨a, b, rfl, h⟩ | ⟨a, b, c, rfl, h⟩
  · exact dropUnits_one h s.reverse
  · exact dropUnits_two (not_isBlank₁_of_isBlank₂ h).2 h s.reverse
  · exact dropUnits_three (not_isBlank₁_of_isBlank₃ h).2 (not_isBlank₂_of_isBlank₃ h).2 h s.reverse

/-- On the left a blank character at the end is reached only if all before it is blank. -/
theorem trimLeft_append_blankChar :
    trimLeft (s ++ u) = if trimLeft s = [] then trimLeft u else trimLeft s ++ u := by
  rcases isBlankChar_cases hu with ⟨a, rfl, h⟩ | ⟨a, b, rfl, h⟩ | ⟨a, b, c, rfl, h⟩
  · exact trimLeft_append_of_leads (leads_of_isBlank₁ h) s []
  · exact trimLeft_append_of_leads (leads_of_isBlank₂ h) s [b]
  · exact trimLeft_append_of_leads (leads_of_isBlank₃ h) s [b, c]

theorem trim_blankChar_append : trim (u ++ s) = trim s := by
  rw [trim, trim, trimLeft_blankChar_append hu]

theorem trim_append_blankChar : trim (s ++ u) = trim s := by
  have hblank : trimLeft u = [] := by
    rw [← List.append_nil u]
    exact trimLeft_blankChar_append hu []
  rw [trim, trim, trimLeft_append_blankChar hu]
  split
  case isTrue hnothing => rw [hnothing, hblank]
  case isFalse => exact trimRight_append_blankChar hu _

/-- Scanned from the right, a blank character at the front is no part of what ends behind it. -/
theorem startsUnit_append_blankChar {s : Bytes} (hne : s ≠ [])
    (hs : startsUnit isBlank₁ (fun b a => isBlank₂ a b) (fun c b a => isBlank₃ a b c) s = false) :
    startsUnit isBlank₁ (fun b a => isBlank₂ a b) (fun c b a => isBlank₃ a b c)
      (s ++ u.reverse) = false := by
  rcases isBlankChar_cases hu with ⟨a, rfl, h⟩ | ⟨a, b, rfl, h⟩ | ⟨a, b, c, rfl, h⟩
  · have ha := ascii_of_blank h
    exact startsUnit_append_cons hne hs (isBlank₂_ascii_left ha)
      (fun x y => isBlank₃_ascii_left ha y x) (by simp)
  · obtain ⟨rfl, hb⟩ := bytes_of_isBlank₂ h
    have hb : b ≠ 0xC2 ∧ b ≠ 0xE1 ∧ b ≠ 0xE2 ∧ b ≠ 0xE3 := by rcases hb with rfl | rfl <;> decide
    exact startsUnit_append_cons hne hs (isBlank₂_of_ne hb.1)
      (fun x y => isBlank₃_of_ne hb.2 y x) (by simp [isBlank₃])
  · obtain ⟨-, hb⟩ := bytes_of_isBlank₃ h
    have hb : b ≠ 0xE1 ∧ b ≠ 0xE2 ∧ b ≠ 0xE3 := by rcases hb with rfl | rfl | rfl <;> decide
    have hc := last_of_isBlank₃ h
    exact startsUnit_append_cons hne hs (isBlank₂_of_ne hc.1)
      (fun x y => isBlank₃_of_ne hc.2 y x) (by simp [isBlank₃_of_ne hb])

/-- On the right a blank character at the front is reached only if all behind it is blank. -/
theorem trimRight_blankChar_append (s : Bytes) :
    trimRight (u ++ s) = if trimRight s = [] then [] else u ++ trimRight s := by
  have happend := @dropUnits_append isBlank₁ (fun b a => isBlank₂ a b)
    (fun c b a => isBlank₃ a b c) s.reverse u.reverse
  rw [trimRight, List.reverse_append, happend]
  simp only [trimRight, List.reverse_eq_nil_iff]
  split
  case isTrue hnothing =>
    rw [hnothing, List.nil_append]
    exact trimRight_append_blankChar hu []
  case isFalse hsome =>
    rw [dropUnits_eq_self (startsUnit_append_blankChar hu hsome (startsUnit_dropUnits _))]
    simp

end BlankChar

/-- A text is trimmed by taking blanks off its end only if there are none in front. -/
theorem trimRight_eq_trim_iff {s : Bytes} (hs : trim s ≠ []) :
    trimRight s = trim s ↔ trimLeft s = s := by
  constructor
  · intro heq
    by_cases hblank : trimLeft s = s
    · exact hblank
    obtain ⟨u, t, hu, rfl⟩ := exists_blankChar_of_trimLeft_ne hblank
    have hleft : trimLeft (trim (u ++ t)) = trim (u ++ t) :=
      ((trim_eq_self_iff _).mp (trim_trim _)).1
    have ht : trimRight t ≠ [] := by
      intro hnothing
      rw [trimRight_blankChar_append hu, if_pos hnothing] at heq
      exact hs heq.symm
    rw [← heq, trimRight_blankChar_append hu, if_neg ht, trimLeft_blankChar_append hu] at hleft
    have hlength := (trimLeft_isSuffix (trimRight t)).length_le
    rw [hleft, List.length_append] at hlength
    have hu : 0 < u.length := List.length_pos_iff.mpr (by rintro rfl; cases hu)
    omega
  · intro heq
    rw [trim, heq]

/-! ## Padding -/

/-- White space, but no line feed. -/
inductive Padding : Bytes → Prop
  | nil : Padding []
  | cons {code : Nat} {s : Bytes} (hspace : code ∈ Utf8.spaces) (hline : code ≠ 0x0A)
      (rest : Padding s) : Padding (Utf8.encode code ++ s)

theorem Padding.not_mem {s : Bytes} (h : Padding s) : 0x0A ∉ s := by
  induction h with
  | nil => exact List.not_mem_nil
  | cons hspace hline _ ih =>
    have hall : ∀ code ∈ Utf8.spaces, code ≠ 0x0A → 0x0A ∉ Utf8.encode code := by decide
    exact fun hmem => (List.mem_append.mp hmem).elim (hall _ hspace hline) ih

theorem Padding.trim_append {pad : Bytes} (h : Padding pad) (s : Bytes) :
    trim (pad ++ s) = trim s := by
  induction h with
  | nil => rfl
  | cons hspace _ _ ih =>
    rw [List.append_assoc, trim_blankChar_append (isBlankChar_encode hspace), ih]

theorem Padding.trim_append_right {pad : Bytes} (h : Padding pad) (s : Bytes) :
    trim (s ++ pad) = trim s := by
  induction h generalizing s with
  | nil => rw [List.append_nil]
  | cons hspace _ _ ih =>
    rw [← List.append_assoc, ih, trim_append_blankChar (isBlankChar_encode hspace)]

/-- A text keeps its trimmed form whatever white space is put around it. -/
theorem trim_padded {left right : Bytes} (hleft : Padding left) (hright : Padding right)
    (s : Bytes) : trim (left ++ s ++ right) = trim s := by
  rw [hright.trim_append_right, hleft.trim_append]

end Bytes

end SectScript
