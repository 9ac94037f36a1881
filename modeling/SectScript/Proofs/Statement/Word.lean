import SectScript.Proofs.Text.Search
import SectScript.Statement
import Mathlib.Data.List.Infix
import Mathlib.Data.Nat.Find
import Mathlib.Tactic.ByContra

/-!
# Words on a line

A keyword is the whole line or has a blank byte behind it. The search for `then` skips the bytes of
an occurrence that does not stand alone. No `then` begins inside another, so it still finds the
first place where the word does: `findThen_eq_some_iff` for the whole text,
`findThenFrom_eq_some_iff` from any place on.
-/

namespace SectScript

theorem hasKeyword_iff {line word : Bytes} : hasKeyword line word = true ↔
    line = word ∨ ∃ b s, line = word ++ b :: s ∧ Bytes.isBlankByte b = true := by
  constructor
  · intro h
    rw [hasKeyword] at h
    split at h
    case h_1 hw =>
      have hline := List.append_eq_of_isPrefixOf?_eq_some hw
      exact Or.inl (by simpa using hline.symm)
    case h_2 b s hw => exact Or.inr ⟨b, s, (List.append_eq_of_isPrefixOf?_eq_some hw).symm, h⟩
    case h_3 => cases h
  · rintro (rfl | ⟨b, s, rfl, hb⟩)
    · have h := Bytes.isPrefixOf?_append line []
      rw [List.append_nil] at h
      simp [hasKeyword, h]
    · simp [hasKeyword, Bytes.isPrefixOf?_append, hb]

theorem hasKeyword_startsWith {line word : Bytes} (h : hasKeyword line word = true) :
    Bytes.startsWith word line = true := by
  rw [Bytes.startsWith_iff]
  rcases hasKeyword_iff.mp h with rfl | ⟨b, s, rfl, _⟩
  · exact ⟨[], by simp⟩
  · exact ⟨b :: s, rfl⟩

theorem hasKeyword_length {line word : Bytes} (h : hasKeyword line word = true) :
    word.length ≤ line.length := by
  obtain ⟨t, rfl⟩ := Bytes.startsWith_iff.mp (hasKeyword_startsWith h)
  simp

theorem hasKeyword_append (w rest : Bytes) :
    hasKeyword (w ++ rest) w = rest.head?.all Bytes.isBlankByte := by
  rw [hasKeyword, Bytes.isPrefixOf?_append]
  cases rest <;> rfl

/-! ## Places of `then` -/

/-- The byte in front of place `k`, `before` standing in front of the whole text. -/
def preceding (before : Option UInt8) (s : Bytes) : Nat → Option UInt8
  | 0 => before
  | k + 1 => s[k]?

/-- The word `then` stands alone at place `k`. -/
def LoneAt (before : Option UInt8) (s : Bytes) (k : Nat) : Prop :=
  standsAlone (preceding before s k) (s.drop k) = true

instance (before : Option UInt8) (s : Bytes) (k : Nat) : Decidable (LoneAt before s k) :=
  inferInstanceAs (Decidable (_ = true))

theorem loneAt_succ (before : Option UInt8) (b : UInt8) (s : Bytes) (k : Nat) :
    LoneAt before (b :: s) (k + 1) ↔ LoneAt (some b) s k := by
  cases k <;> rfl

/-- The word `then` is written at place `k`. -/
def ThenAt (s : Bytes) (k : Nat) : Prop := thenWord <+: s.drop k

instance (s : Bytes) (k : Nat) : Decidable (ThenAt s k) :=
  inferInstanceAs (Decidable (thenWord <+: s.drop k))

theorem thenAt_iff {s : Bytes} {k : Nat} :
    ThenAt s k ↔ Bytes.startsWith thenWord (s.drop k) = true := by
  rw [Bytes.startsWith_iff]
  exact exists_congr fun t => eq_comm

theorem LoneAt.thenAt {before : Option UInt8} {s : Bytes} {k : Nat} (h : LoneAt before s k) :
    ThenAt s k := by
  rw [LoneAt, standsAlone, Bool.and_eq_true] at h
  exact thenAt_iff.mpr (hasKeyword_startsWith h.2)

theorem not_loneAt_of_not_startsWith {before : Option UInt8} {s : Bytes} {k : Nat}
    (h : Bytes.startsWith thenWord (s.drop k) = false) : ¬ LoneAt before s k := by
  intro lone
  rw [thenAt_iff.mp lone.thenAt] at h
  cases h

theorem ThenAt.add_length_le {s : Bytes} {k : Nat} (h : ThenAt s k) :
    k + thenWord.length ≤ s.length := by
  have hlength := List.IsPrefix.length_le h
  have hword : 0 < thenWord.length := by decide
  rw [List.length_drop] at hlength
  omega

/-- `then` does not overlap with itself. -/
theorem not_startsWith_inside {s : Bytes} (h : Bytes.startsWith thenWord s = true) {k : Nat}
    (hpos : 0 < k) (hk : k < thenWord.length) : Bytes.startsWith thenWord (s.drop k) = false := by
  obtain ⟨t, rfl⟩ := Bytes.startsWith_iff.mp h
  have hw : thenWord = [0x74, 0x68, 0x65, 0x6E] := by decide
  rw [hw] at hk ⊢
  have hcases : k = 1 ∨ k = 2 ∨ k = 3 := by simp at hk; omega
  rcases hcases with rfl | rfl | rfl <;> rfl

/-- Between a `then` and its end no other one begins. -/
theorem ThenAt.eq_of_lt {s : Bytes} {i k : Nat} (hi : ThenAt s i) (hk : ThenAt s k) (hle : i ≤ k)
    (hlt : k < i + thenWord.length) : k = i := by
  by_contra hne
  have hinside := not_startsWith_inside (thenAt_iff.mp hi) (k := k - i) (by omega) (by omega)
  rw [List.drop_drop, Nat.add_sub_cancel' hle, thenAt_iff.mp hk] at hinside
  cases hinside

/-! ## The search -/

/-- `P` holds at place `k` and at none before it. -/
def FirstAt (P : Nat → Prop) (k : Nat) : Prop := P k ∧ ∀ m < k, ¬ P m

instance (P : Nat → Prop) [DecidablePred P] (k : Nat) : Decidable (FirstAt P k) :=
  inferInstanceAs (Decidable (_ ∧ ∀ m < k, ¬ P m))

theorem firstAt_shift {P Q : Nat → Prop} (h0 : ¬ P 0) (hsucc : ∀ m, P (m + 1) ↔ Q m) (i j : Nat) :
    (∃ k, j = i + 1 + k ∧ FirstAt Q k) ↔ ∃ k, j = i + k ∧ FirstAt P k := by
  constructor
  · rintro ⟨k, rfl, hk, least⟩
    refine ⟨k + 1, by omega, (hsucc k).mpr hk, ?_⟩
    intro m hm
    cases m with
    | zero => exact h0
    | succ m => rw [hsucc]; exact least m (by omega)
  · rintro ⟨k, rfl, hk, least⟩
    cases k with
    | zero => exact absurd hk h0
    | succ k =>
      refine ⟨k, by omega, (hsucc k).mp hk, ?_⟩
      intro m hm
      rw [← hsucc]
      exact least (m + 1) (by omega)

theorem FirstAt.unique {P : Nat → Prop} {i j : Nat} (hi : FirstAt P i) (hj : FirstAt P j) :
    i = j := by
  rcases Nat.lt_trichotomy i j with hlt | heq | hlt
  · exact absurd hi.1 (hj.2 i hlt)
  · exact heq
  · exact absurd hj.1 (hi.2 j hlt)

theorem exists_firstAt {P : Nat → Prop} [DecidablePred P] (h : ∃ k, P k) : ∃ k, FirstAt P k :=
  ⟨Nat.find h, Nat.find_spec h, fun _ => Nat.find_min h⟩

theorem seekThen_eq_some_iff (skip : Nat) (before : Option UInt8) (i : Nat) (s : Bytes) (j : Nat) :
    seekThen skip before i s = some j ↔
      ∃ k, j = i + k ∧ FirstAt (fun m => skip ≤ m ∧ LoneAt before s m) k := by
  fun_induction seekThen skip before i s with
  | case1 skip before i =>
    constructor
    · intro h; cases h
    · rintro ⟨k, _, ⟨_, lone⟩, _⟩
      exact absurd lone (not_loneAt_of_not_startsWith (by simp; rfl))
  | case2 before skip i b s ih =>
    rw [ih]
    apply firstAt_shift
    · omega
    · intro m
      rw [loneAt_succ, Nat.succ_le_succ_iff]
  | case3 before i b s hs halone =>
    constructor
    · intro h
      exact ⟨0, (Option.some.inj h).symm, ⟨Nat.zero_le 0, halone⟩, by omega⟩
    · rintro ⟨k, rfl, _, least⟩
      cases k with
      | zero => rfl
      | succ k => exact absurd ⟨Nat.zero_le 0, halone⟩ (least 0 (by omega))
  | case4 before i b s hs halone ih =>
    rw [ih]
    apply firstAt_shift
    · exact fun h => halone h.2
    · intro m
      constructor
      · rintro ⟨_, lone⟩
        refine ⟨?_, (loneAt_succ before b s m).mp lone⟩
        by_contra hm
        have inside := not_startsWith_inside hs (Nat.succ_pos m) (by omega)
        exact not_loneAt_of_not_startsWith inside lone
      · rintro ⟨_, lone⟩
        exact ⟨Nat.zero_le _, (loneAt_succ before b s m).mpr lone⟩
  | case5 before i b s hs ih =>
    rw [ih]
    apply firstAt_shift
    · rintro ⟨_, lone⟩
      exact not_loneAt_of_not_startsWith (by simpa using hs) lone
    · intro m
      simp only [Nat.zero_le, true_and, loneAt_succ]

theorem loneAt_drop (s : Bytes) (off k : Nat) :
    LoneAt (preceding none s off) (s.drop off) k ↔ LoneAt none s (off + k) := by
  have hpreceding :
      preceding (preceding none s off) (s.drop off) k = preceding none s (off + k) := by
    cases k with
    | zero => rfl
    | succ k => exact List.getElem?_drop
  rw [LoneAt, LoneAt, hpreceding, List.drop_drop]

/-- The search, once it has come to place `off`. -/
def findThenFrom (s : Bytes) (off : Nat) : Option Nat :=
  seekThen 0 (preceding none s off) off (s.drop off)

theorem findThenFrom_zero (s : Bytes) : findThenFrom s 0 = findThen s := rfl

/-- It finds the first place from there on where `then` stands alone. -/
theorem findThenFrom_eq_some_iff {s : Bytes} {off i : Nat} :
    findThenFrom s off = some i ↔ FirstAt (fun k => off ≤ k ∧ LoneAt none s k) i := by
  rw [findThenFrom, seekThen_eq_some_iff]
  constructor
  · rintro ⟨k, rfl, ⟨-, lone⟩, least⟩
    refine ⟨⟨by omega, (loneAt_drop s off k).mp lone⟩, ?_⟩
    rintro m hm ⟨hoff, hm'⟩
    rw [← Nat.add_sub_cancel' hoff, ← loneAt_drop] at hm'
    exact least (m - off) (by omega) ⟨Nat.zero_le _, hm'⟩
  · rintro ⟨⟨hoff, lone⟩, least⟩
    rw [← Nat.add_sub_cancel' hoff, ← loneAt_drop] at lone
    refine ⟨i - off, by omega, ⟨Nat.zero_le _, lone⟩, ?_⟩
    rintro m hm ⟨-, hm'⟩
    exact least (off + m) (by omega) ⟨by omega, (loneAt_drop s off m).mp hm'⟩

theorem findThenFrom_eq_none_iff {s : Bytes} {off : Nat} :
    findThenFrom s off = none ↔ ∀ k, off ≤ k → ¬ LoneAt none s k := by
  constructor
  · intro hnone k hk lone
    obtain ⟨i, hi⟩ := exists_firstAt (P := fun k => off ≤ k ∧ LoneAt none s k) ⟨k, hk, lone⟩
    rw [findThenFrom_eq_some_iff.mpr hi] at hnone
    cases hnone
  · intro h
    rw [Option.eq_none_iff_forall_not_mem]
    intro i hi
    obtain ⟨⟨hoff, lone⟩, -⟩ := findThenFrom_eq_some_iff.mp hi
    exact h i hoff lone

/-- Where `then` does not stand alone in between, the search may start later. -/
theorem findThenFrom_of_clear {s : Bytes} {off next : Nat} (hle : off ≤ next)
    (clear : ∀ k, off ≤ k → k < next → ¬ LoneAt none s k) :
    findThenFrom s off = findThenFrom s next := by
  have hsame : (fun k => off ≤ k ∧ LoneAt none s k) = fun k => next ≤ k ∧ LoneAt none s k := by
    funext k
    apply propext
    constructor
    · rintro ⟨hoff, lone⟩
      refine ⟨?_, lone⟩
      by_contra hbefore
      exact clear k hoff (by omega) lone
    · rintro ⟨hnext, lone⟩
      exact ⟨by omega, lone⟩
  ext i
  rw [findThenFrom_eq_some_iff, findThenFrom_eq_some_iff, hsame]

/-- The search finds the first place where `then` stands alone. -/
theorem findThen_eq_some_iff (s : Bytes) (i : Nat) :
    findThen s = some i ↔ FirstAt (LoneAt none s) i := by
  simp only [← findThenFrom_zero, findThenFrom_eq_some_iff, Nat.zero_le, true_and]

/-- The word that is found lies within the text. -/
theorem findThen_add_length_le {s : Bytes} {i : Nat} (h : findThen s = some i) :
    i + thenWord.length ≤ s.length :=
  ((findThen_eq_some_iff s i).mp h).1.thenAt.add_length_le

/-! ## The search from one `then` to the next -/

/-- The first `then` at or behind place `off` is the one at place `i`. -/
def FirstThen (s : Bytes) (off i : Nat) : Prop := FirstAt (fun k => off ≤ k ∧ ThenAt s k) i

instance (s : Bytes) (off i : Nat) : Decidable (FirstThen s off i) :=
  inferInstanceAs (Decidable (FirstAt _ i))

theorem firstThen_of_cut {s ahead rest : Bytes} {off : Nat}
    (h : Bytes.cut thenWord (s.drop off) = some (ahead, rest)) :
    FirstThen s off (off + ahead.length) := by
  refine ⟨⟨by omega, rest, ?_⟩, ?_⟩
  · rw [← List.drop_drop, Bytes.cut_eq_some h, List.drop_left]
  · rintro m hm ⟨hoff, hthen⟩
    have hno := Bytes.not_startsWith_of_cut h (m := m - off) (by omega)
    rw [List.drop_drop, Nat.add_sub_cancel' hoff, thenAt_iff.mp hthen] at hno
    cases hno

theorem not_thenAt_of_cut_eq_none {s : Bytes} {off k : Nat}
    (h : Bytes.cut thenWord (s.drop off) = none) (hk : off ≤ k) : ¬ ThenAt s k := by
  rintro ⟨t, ht⟩
  have hsplit : s.drop off = (s.drop off).take (k - off) ++ (thenWord ++ t) := by
    rw [ht, ← Nat.add_sub_cancel' hk, ← List.drop_drop, Nat.add_sub_cancel_left,
      List.take_append_drop]
  have hcontains := Bytes.contains_iff.mpr ⟨_, _, hsplit⟩
  rw [Bytes.contains, h] at hcontains
  cases hcontains

/-- Up to the end of a first `then` that does not stand alone, none does. -/
theorem FirstThen.not_loneAt {s : Bytes} {off i k : Nat} (h : FirstThen s off i)
    (hi : ¬ LoneAt none s i) (hk : off ≤ k) (hlt : k < i + thenWord.length) :
    ¬ LoneAt none s k := by
  intro lone
  have hle : i ≤ k := by
    by_contra hbefore
    exact h.2 k (by omega) ⟨hk, lone.thenAt⟩
  obtain rfl := h.1.2.eq_of_lt lone.thenAt hle hlt
  exact hi lone

/-- The search may start behind it. -/
theorem FirstThen.findThenFrom_eq {s : Bytes} {off i : Nat} (h : FirstThen s off i)
    (hi : ¬ LoneAt none s i) :
    findThenFrom s off = findThenFrom s (i + thenWord.length) := by
  have hle : off ≤ i := h.1.1
  exact findThenFrom_of_clear (by omega) fun k => h.not_loneAt hi

/-! ## A word between blanks -/

/-- The word `then` occurs between two blank bytes. -/
def HoldsThen (s : Bytes) : Prop :=
  ∃ u x y v, s = u ++ x :: (thenWord ++ y :: v) ∧ Bytes.isBlankByte x = true ∧
    Bytes.isBlankByte y = true

theorem not_mem_thenWord {b : UInt8} (hb : Bytes.isBlankByte b = true) : b ∉ thenWord := by
  have hall : thenWord.all (fun b => !Bytes.isBlankByte b) = true := by decide
  intro hmem
  have hsolid := List.all_eq_true.mp hall b hmem
  rw [hb] at hsolid
  cases hsolid

/-- A `then` that stands alone in front of a given `then` lies between blank bytes before it. -/
theorem holdsThen_of_loneAt {a t : Bytes} {b : UInt8} (hb : Bytes.isBlankByte b = true) {m : Nat}
    (hm : m < a.length + 1) (lone : LoneAt none (a ++ b :: (thenWord ++ t)) m) :
    HoldsThen (a ++ [b]) := by
  rw [LoneAt, standsAlone, Bool.and_eq_true] at lone
  obtain ⟨hbefore, hword⟩ := lone
  cases m with
  | zero => cases hbefore
  | succ k =>
    have hk : k < a.length := by omega
    have hx : Bytes.isBlankByte a[k] = true := by
      simpa [preceding, List.getElem?_append_left hk, List.getElem?_eq_getElem hk] using hbefore
    -- the rest of the text in front, with its blank, and what the found word leaves
    have hdrop : (a ++ b :: (thenWord ++ t)).drop (k + 1) =
        (a.drop (k + 1) ++ [b]) ++ (thenWord ++ t) := by
      rw [List.drop_append_of_le_length (by omega)]
      simp
    obtain ⟨w, hw, hend⟩ : ∃ w, (a.drop (k + 1) ++ [b]) ++ (thenWord ++ t) = thenWord ++ w ∧
        ∀ y v, w = y :: v → Bytes.isBlankByte y = true := by
      rw [hdrop] at hword
      rcases hasKeyword_iff.mp hword with h | ⟨y, v, h, hy⟩
      · exact ⟨[], by rw [h, List.append_nil], fun y v h => by cases h⟩
      · refine ⟨y :: v, h, ?_⟩
        rintro z v ⟨rfl, rfl⟩
        exact hy
    have hblank : b ∈ a.drop (k + 1) ++ [b] := by simp
    have hfree : b ∉ thenWord := not_mem_thenWord hb
    rcases List.append_eq_append_iff.mp hw with ⟨r, hr, _⟩ | ⟨r, hr, hwr⟩
    · rw [hr] at hfree
      exact absurd (List.mem_append_left r hblank) hfree
    · cases r with
      | nil =>
        rw [hr, List.append_nil] at hblank
        exact absurd hblank hfree
      | cons y v =>
        refine ⟨a.take k, a[k], y, v, ?_, hx, hend y _ hwr⟩
        rw [← hr, ← List.cons_append, ← List.append_assoc, List.getElem_cons_drop,
          List.take_append_drop]

theorem findThen_of_not_holdsThen {a t : Bytes} {b : UInt8} (hb : Bytes.isBlankByte b = true)
    (clear : ¬ HoldsThen (a ++ [b])) (ht : hasKeyword (thenWord ++ t) thenWord = true) :
    findThen (a ++ b :: (thenWord ++ t)) = some (a.length + 1) := by
  rw [findThen_eq_some_iff]
  constructor
  · have hdrop : (a ++ b :: (thenWord ++ t)).drop (a.length + 1) = thenWord ++ t := by
      rw [← List.drop_drop, List.drop_left]
      rfl
    rw [LoneAt, standsAlone, hdrop, ht]
    simp [preceding, hb]
  · intro m hm lone
    exact clear (holdsThen_of_loneAt hb hm lone)

/-- The text begins with the word `then` between blank bytes. -/
def startsThen : Bytes → Bool
  | [] => false
  | x :: s =>
    match thenWord.isPrefixOf? s with
    | some (y :: _) => Bytes.isBlankByte x && Bytes.isBlankByte y
    | _ => false

theorem startsThen_iff {s : Bytes} : startsThen s = true ↔ ∃ x y v,
    s = x :: (thenWord ++ y :: v) ∧ Bytes.isBlankByte x = true ∧ Bytes.isBlankByte y = true := by
  constructor
  · intro h
    rw [startsThen.eq_def] at h
    split at h
    case h_1 => cases h
    case h_2 x s =>
      split at h
      case h_1 y v hv =>
        rw [Bool.and_eq_true] at h
        exact ⟨x, y, v, by rw [List.append_eq_of_isPrefixOf?_eq_some hv], h⟩
      case h_2 => cases h
  · rintro ⟨x, y, v, rfl, hx, hy⟩
    simp [startsThen, Bytes.isPrefixOf?_append, hx, hy]

instance (s : Bytes) : Decidable (HoldsThen s) :=
  decidable_of_iff (∃ t ∈ s.tails, startsThen t = true) (by
    simp only [List.mem_tails, startsThen_iff]
    constructor
    · rintro ⟨t, ⟨u, rfl⟩, x, y, v, rfl, h⟩
      exact ⟨u, x, y, v, rfl, h⟩
    · rintro ⟨u, x, y, v, rfl, h⟩
      exact ⟨_, ⟨u, rfl⟩, x, y, v, rfl, h⟩)

end SectScript
