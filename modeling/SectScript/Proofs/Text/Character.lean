import SectScript.Proofs.Text.Padding
import Mathlib.Tactic.ByContra

/-!
# Texts as characters

A valid text is one character after the other. The first byte of a character continues none and the
others do, so a valid text is cut into valid texts in front of any byte that is no continuation.
-/

namespace SectScript.Utf8

/-! ## Characters -/

/-- The first byte of a character and the bytes that continue it. -/
structure IsChar (code : Nat) (a : UInt8) (t : Bytes) : Prop where
  reads : ∀ rest, first a (t ++ rest) = .char code (a :: t)
  lead : isContinuation a = false
  tail : ∀ b ∈ t, isContinuation b = true

theorem isContinuation_of_ascii {a : UInt8} (h : a < 0x80) : isContinuation a = false := by
  simp only [isContinuation, Bool.and_eq_false_iff, decide_eq_false_iff_not]
  exact Or.inl (UInt8.not_le.mpr h)

theorem isContinuation_of_lead {a : UInt8} (h : 0xC2 ≤ a) : isContinuation a = false := by
  simp only [isContinuation, Bool.and_eq_false_iff, decide_eq_false_iff_not]
  refine Or.inr (UInt8.not_le.mpr ?_)
  exact UInt8.lt_of_lt_of_le (by decide) h

theorem not_ascii_of_lead {a : UInt8} (h : 0xC2 ≤ a) : ¬ a < 0x80 :=
  fun hascii => absurd (UInt8.lt_of_le_of_lt h hascii) (by decide)

theorem not_le_of_lead {a m n : UInt8} (h : m ≤ a) (hlt : n < m) : ¬ a ≤ n :=
  UInt8.not_le.mpr (UInt8.lt_of_lt_of_le hlt h)

theorem isChar_ascii {a : UInt8} (h : a < 0x80) : IsChar a.toNat a [] where
  reads rest := by rw [first.eq_def, if_pos h]
  lead := isContinuation_of_ascii h
  tail := by simp

theorem isChar_two {a b : UInt8} (h : (0xC2 ≤ a && a ≤ 0xDF && isContinuation b) = true) :
    IsChar (a.toNat % 32 * 64 + low b) a [b] := by
  have hbytes := h
  simp only [Bool.and_eq_true, decide_eq_true_eq] at hbytes
  refine ⟨fun rest => ?_, isContinuation_of_lead hbytes.1.1, by simpa using hbytes.2⟩
  rw [first.eq_def, if_neg (not_ascii_of_lead hbytes.1.1)]
  rcases rest with _ | ⟨c, _ | ⟨d, rest⟩⟩ <;> simp [h, first.two]

theorem isChar_three {a b c : UInt8} (h : first.isTriple a b c = true) :
    IsChar (a.toNat % 16 * 4096 + low b * 64 + low c) a [b, c] := by
  have hbytes := h
  simp only [first.isTriple, Bool.and_eq_true, decide_eq_true_eq] at hbytes
  have hlarge : 0xE0 ≤ a := hbytes.1.1.1.1.1
  have hlead : 0xC2 ≤ a := UInt8.le_trans (by decide) hlarge
  have hnottwo : ¬ a ≤ 0xDF := not_le_of_lead hlarge (by decide)
  refine ⟨fun rest => ?_, isContinuation_of_lead hlead, by simp [hbytes]⟩
  rw [first.eq_def, if_neg (not_ascii_of_lead hlead)]
  rcases rest with _ | ⟨d, rest⟩ <;> simp [h, hnottwo, first.three]

theorem isChar_four {a b c d : UInt8} (h : first.isQuadruple a b c d = true) :
    IsChar (a.toNat % 8 * 262144 + low b * 4096 + low c * 64 + low d) a [b, c, d] := by
  have hbytes := h
  simp only [first.isQuadruple, Bool.and_eq_true, decide_eq_true_eq] at hbytes
  have hlarge : 0xF0 ≤ a := hbytes.1.1.1.1.1.1
  have hlead : 0xC2 ≤ a := UInt8.le_trans (by decide) hlarge
  have hnottwo : ¬ a ≤ 0xDF := not_le_of_lead hlarge (by decide)
  have hnotthree : first.isTriple a b c = false := by
    simp [first.isTriple, not_le_of_lead hlarge (show (0xEF : UInt8) < 0xF0 by decide)]
  refine ⟨fun rest => ?_, isContinuation_of_lead hlead, by simp [hbytes]⟩
  rw [first.eq_def, if_neg (not_ascii_of_lead hlead)]
  simp [h, hnottwo, hnotthree]

/-- The first unit of a text, if it is a character, is at its front. -/
theorem isChar_of_first {a : UInt8} {s bytes : Bytes} {code : Nat}
    (h : first a s = .char code bytes) :
    ∃ t rest, s = t ++ rest ∧ bytes = a :: t ∧ IsChar code a t := by
  have htwo : ∀ {b : UInt8} (rest : Bytes), (0xC2 ≤ a && a ≤ 0xDF && isContinuation b) = true →
      first.two a b = .char code bytes →
      ∃ t rest', b :: rest = t ++ rest' ∧ bytes = a :: t ∧ IsChar code a t := by
    intro b rest hb heq
    obtain ⟨rfl, rfl⟩ := Item.char.inj heq
    exact ⟨[b], rest, rfl, rfl, isChar_two hb⟩
  have hthree : ∀ {b c : UInt8} (rest : Bytes), first.isTriple a b c = true →
      first.three a b c = .char code bytes →
      ∃ t rest', b :: c :: rest = t ++ rest' ∧ bytes = a :: t ∧ IsChar code a t := by
    intro b c rest hbc heq
    obtain ⟨rfl, rfl⟩ := Item.char.inj heq
    exact ⟨[b, c], rest, rfl, rfl, isChar_three hbc⟩
  rw [first.eq_def] at h
  split at h
  case isTrue hascii =>
    obtain ⟨rfl, rfl⟩ := Item.char.inj h
    exact ⟨[], s, rfl, rfl, isChar_ascii hascii⟩
  case isFalse =>
    split at h
    case h_1 b c d rest =>
      split at h
      case isTrue hb => exact htwo _ hb h
      case isFalse =>
        split at h
        case isTrue hbc => exact hthree _ hbc h
        case isFalse =>
          split at h
          case isTrue hbcd =>
            obtain ⟨rfl, rfl⟩ := Item.char.inj h
            exact ⟨[b, c, d], rest, rfl, rfl, isChar_four hbcd⟩
          case isFalse => cases h
    case h_2 b c =>
      split at h
      case isTrue hb => exact htwo _ hb h
      case isFalse =>
        split at h
        case isTrue hbc => exact hthree _ hbc h
        case isFalse => cases h
    case h_3 b =>
      split at h
      case isTrue hb => exact htwo _ hb h
      case isFalse => cases h
    case h_4 => cases h

/-! ## Valid texts -/

/-- The text is the characters of these codes, one after the other. -/
inductive Spells : List Nat → Bytes → Prop
  | nil : Spells [] []
  | cons {code : Nat} {a : UInt8} {t s : Bytes} {codes : List Nat} (h : IsChar code a t)
      (rest : Spells codes s) : Spells (code :: codes) (a :: (t ++ s))

def Item.code? : Item → Option Nat
  | .char code _ => some code
  | .stray _ => none

/-- The codes of the characters of a text. -/
def codes (s : Bytes) : List Nat := (items s).filterMap Item.code?

theorem itemsFrom_append (t s : Bytes) : itemsFrom t.length (t ++ s) = items s := by
  induction t with
  | nil => rfl
  | cons b t ih => exact ih

theorem IsChar.items_cons {code : Nat} {a : UInt8} {t : Bytes} (h : IsChar code a t) (s : Bytes) :
    items (a :: (t ++ s)) = .char code (a :: t) :: items s := by
  rw [items, itemsFrom, h.reads]
  exact congrArg (Item.char code (a :: t) :: ·) (itemsFrom_append t s)

theorem Spells.codes_eq {cs : List Nat} {s : Bytes} (h : Spells cs s) : codes s = cs := by
  induction h with
  | nil => rfl
  | cons h _ ih =>
    rw [codes, h.items_cons, List.filterMap_cons]
    exact congrArg (_ :: ·) ih

theorem spells_of_isValid {s : Bytes} (h : isValid s = true) : Spells (codes s) s := by
  suffices hexists : ∃ cs, Spells cs s by
    obtain ⟨cs, hspells⟩ := hexists
    rwa [hspells.codes_eq]
  -- A character takes more than one byte off the text, so the induction is on its length.
  induction hn : s.length using Nat.strongRecOn generalizing s with
  | ind n ih =>
    cases s with
    | nil => exact ⟨[], .nil⟩
    | cons a s =>
      cases hfirst : first a s with
      | stray b =>
        rw [isValid, items, itemsFrom, hfirst] at h
        cases h
      | char code bytes =>
        obtain ⟨t, rest, rfl, rfl, hchar⟩ := isChar_of_first hfirst
        have hvalid : isValid rest = true := by
          rwa [isValid, hchar.items_cons, List.all_cons, Bool.true_and, ← isValid] at h
        have hshorter : rest.length < n := by
          simp only [List.length_cons, List.length_append] at hn
          omega
        obtain ⟨cs, hrest⟩ := ih rest.length hshorter hvalid rfl
        exact ⟨code :: cs, .cons hchar hrest⟩

namespace Spells

/-- A text is cut between characters in front of a byte that continues none. -/
theorem split {cs : List Nat} {s t : Bytes} {a : UInt8} (h : Spells cs (s ++ a :: t))
    (ha : isContinuation a = false) :
    ∃ front back, cs = front ++ back ∧ Spells front s ∧ Spells back (a :: t) := by
  generalize hwhole : s ++ a :: t = whole at h
  induction h generalizing s with
  | nil => simp at hwhole
  | @cons code x u rest cs hchar hrest ih =>
    cases s with
    | nil =>
      rw [List.nil_append] at hwhole
      exact ⟨[], code :: cs, rfl, .nil, hwhole ▸ .cons hchar hrest⟩
    | cons y s =>
      obtain ⟨rfl, htail⟩ := List.cons.inj hwhole
      rcases List.append_eq_append_iff.mp htail with ⟨c, rfl, hc⟩ | ⟨c, rfl, rfl⟩
      · -- The byte would be inside the character unless the cut is right behind it.
        cases c with
        | nil =>
          rw [List.nil_append] at hc
          rw [List.append_nil] at hchar
          have hfront := Spells.cons hchar .nil
          rw [List.append_nil] at hfront
          exact ⟨[code], cs, rfl, hfront, hc ▸ hrest⟩
        | cons b c =>
          obtain ⟨rfl, -⟩ := List.cons.inj hc
          rw [hchar.tail a (by simp)] at ha
          cases ha
      · obtain ⟨front, back, rfl, hfront, hback⟩ := ih rfl
        exact ⟨code :: front, back, rfl, .cons hchar hfront, hback⟩

theorem mem_of_front {cs : List Nat} {code : Nat} {a : UInt8} {t s : Bytes}
    (h : Spells cs (a :: (t ++ s))) (hchar : IsChar code a t) : code ∈ cs := by
  rw [← h.codes_eq, codes, hchar.items_cons]
  exact List.mem_cons_self

/-- A character that stands in the text at any place is one of its characters. -/
theorem mem_of_isChar {cs : List Nat} {code : Nat} {a : UInt8} {t r s : Bytes}
    (h : Spells cs (r ++ a :: (t ++ s))) (hchar : IsChar code a t) : code ∈ cs := by
  obtain ⟨front, back, rfl, -, hback⟩ := h.split hchar.lead
  exact List.mem_append_right front (hback.mem_of_front hchar)

theorem mem_of_ascii {cs : List Nat} {s : Bytes} {b : UInt8} (h : Spells cs s) (hb : b ∈ s)
    (hascii : b < 0x80) : b.toNat ∈ cs := by
  obtain ⟨r, t, rfl⟩ := List.mem_iff_append.mp hb
  exact mem_of_isChar (t := []) h (isChar_ascii hascii)

theorem exists_isChar {cs : List Nat} {a : UInt8} {s : Bytes} (h : Spells cs (a :: s)) :
    ∃ code t rest cs', s = t ++ rest ∧ IsChar code a t ∧ Spells cs' rest := by
  generalize hwhole : a :: s = whole at h
  cases h with
  | nil => cases hwhole
  | cons hchar hrest =>
    obtain ⟨rfl, rfl⟩ := List.cons.inj hwhole
    exact ⟨_, _, _, _, rfl, hchar, hrest⟩

/-- What follows an ASCII byte continues no character. -/
theorem lead_behind_ascii {cs : List Nat} {r s : Bytes} {a b : UInt8}
    (h : Spells cs (r ++ a :: b :: s)) (ha : a < 0x80) : isContinuation b = false := by
  obtain ⟨-, back, -, -, hback⟩ := h.split (isContinuation_of_ascii ha)
  obtain ⟨code, t, rest, cs', hrest, hchar, hspells⟩ := hback.exists_isChar
  have halone : t = [] := by
    have hreads := (isChar_ascii ha).reads (t ++ [])
    rw [List.nil_append, hchar.reads] at hreads
    exact (List.cons.inj (Item.char.inj hreads).2).2
  rw [halone, List.nil_append] at hrest
  obtain ⟨_, _, _, _, _, hnext, _⟩ := (hrest ▸ hspells).exists_isChar
  exact hnext.lead

end Spells

/-! ## White space -/

theorem mem_spaces_of_blank {a : UInt8} (h : Bytes.isBlank₁ a = true) : a.toNat ∈ spaces := by
  have hcontrols : ∀ code < 14, 9 ≤ code → code ∈ spaces := by decide
  rcases Bytes.toNat_of_blank h with hbyte | hbyte
  · exact hcontrols a.toNat (by omega) hbyte.1
  · rw [hbyte]
    decide

theorem mem_spaces_of_isBlank₃ {a b c : UInt8} (h : Bytes.isBlank₃ a b c = true) :
    first.isTriple a b c = true ∧ a.toNat % 16 * 4096 + low b * 64 + low c ∈ spaces := by
  simp only [Bytes.isBlank₃, Bool.or_eq_true, Bool.and_eq_true, beq_iff_eq, decide_eq_true_eq] at h
  rcases h with ((⟨⟨rfl, rfl⟩, rfl⟩ | ⟨⟨rfl, rfl⟩, ((⟨hlow, hhigh⟩ | rfl) | rfl) | rfl⟩) |
    ⟨⟨rfl, rfl⟩, rfl⟩) | ⟨⟨rfl, rfl⟩, rfl⟩
  case inl.inl.inr.inl.inl.inl =>
    -- the spaces from U+2000 to U+200A
    have hrow : ∀ k < 11, first.isTriple 0xE2 0x80 (.ofNat (128 + k)) = true ∧
        (0xE2 : UInt8).toNat % 16 * 4096 + low 0x80 * 64 + low (.ofNat (128 + k)) ∈ spaces := by
      decide
    rw [UInt8.le_iff_toNat_le] at hlow hhigh
    have hlow : 128 ≤ c.toNat := hlow
    have hhigh : c.toNat ≤ 138 := hhigh
    have hmem := hrow (c.toNat - 128) (by omega)
    rwa [Nat.add_sub_cancel' hlow, UInt8.ofNat_toNat] at hmem
  all_goals decide

/-- A blank character has the code of one. -/
theorem isChar_of_isBlankChar {u : Bytes} (hu : Bytes.isBlankChar u = true) :
    ∃ code ∈ spaces, ∃ a t, u = a :: t ∧ IsChar code a t := by
  rcases Bytes.isBlankChar_cases hu with ⟨a, rfl, h⟩ | ⟨a, b, rfl, h⟩ | ⟨a, b, c, rfl, h⟩
  · exact ⟨a.toNat, mem_spaces_of_blank h, a, [], rfl, isChar_ascii (Bytes.ascii_of_blank h)⟩
  · obtain ⟨rfl, hb⟩ := Bytes.bytes_of_isBlank₂ h
    refine ⟨_, ?_, 0xC2, [b], rfl, isChar_two ?_⟩
    · rcases hb with rfl | rfl <;> decide
    · rcases hb with rfl | rfl <;> decide
  · obtain ⟨hthree, hmem⟩ := mem_spaces_of_isBlank₃ h
    exact ⟨_, hmem, a, [b, c], rfl, isChar_three hthree⟩

/-- A text without white space has none to trim. -/
theorem Spells.trim_eq_self {cs : List Nat} {s : Bytes} (h : Spells cs s)
    (hspaces : ∀ code ∈ cs, code ∉ spaces) : Bytes.trim s = s := by
  rw [Bytes.trim_eq_self_iff]
  constructor
  · by_contra hblank
    obtain ⟨u, t, hu, rfl⟩ := Bytes.exists_blankChar_of_trimLeft_ne hblank
    obtain ⟨code, hcode, a, v, rfl, hchar⟩ := isChar_of_isBlankChar hu
    exact hspaces code (h.mem_of_front hchar) hcode
  · by_contra hblank
    obtain ⟨u, t, hu, rfl⟩ := Bytes.exists_blankChar_of_trimRight_ne hblank
    obtain ⟨code, hcode, a, v, rfl, hchar⟩ := isChar_of_isBlankChar hu
    rw [← List.append_nil v] at h
    exact hspaces code (h.mem_of_isChar hchar) hcode

end SectScript.Utf8
