import SectScript.Proofs.Strict.Statement

/-!
# The rounds of the search for `then`

The search goes from one `then` to the next and takes the first that divides the text: a blank byte
is in front of it, and behind it there is one or the end. Each round that rejects a `then` starts
the next one right behind it. As no `then` begins inside another, nothing that divides the text is
passed over, and the rounds come to an end since each of them uses up a whole word.
-/

namespace SectScript

/-- The bytes that are white space as code points of their own. -/
def blankBytes : List UInt8 := [0x09, 0x0A, 0x0B, 0x0C, 0x0D, 0x20, 0x85, 0xA0]

theorem isBlankByte_iff_mem {b : UInt8} : Bytes.isBlankByte b = true ↔ b ∈ blankBytes := by
  simp only [Bytes.isBlankByte, blankBytes, Bool.or_eq_true, Bool.and_eq_true, decide_eq_true_eq,
    beq_iff_eq, List.mem_cons, List.not_mem_nil, or_false, UInt8.le_iff_toNat_le, ← UInt8.toNat_inj,
    UInt8.reduceToNat]
  omega

/-- The word `then` is at place `i`, behind a blank byte, and ends the text or has one behind it. -/
def DividesAt (s : Bytes) (i : Nat) : Prop :=
  1 ≤ i ∧ ThenAt s i ∧ (∃ b ∈ blankBytes, s[i - 1]? = some b) ∧
    (i + 4 = s.length ∨ ∃ b ∈ blankBytes, s[i + 4]? = some b)

instance (s : Bytes) (i : Nat) : Decidable (DividesAt s i) :=
  inferInstanceAs (Decidable (_ ∧ _ ∧ (∃ b ∈ blankBytes, _) ∧ (_ ∨ ∃ b ∈ blankBytes, _)))

theorem any_preceding_iff {s : Bytes} {i : Nat} :
    (preceding none s i).any Bytes.isBlankByte = true ↔
      1 ≤ i ∧ ∃ b ∈ blankBytes, s[i - 1]? = some b := by
  cases i with
  | zero => simp [preceding]
  | succ i => simp [preceding, Option.any_eq_true, isBlankByte_iff_mem, and_comm]

/-- The byte behind a `then` is blank, if the text does not end there. -/
theorem all_behind_iff {s : Bytes} {i : Nat} (h : ThenAt s i) :
    s[i + 4]?.all Bytes.isBlankByte = true ↔
      i + 4 = s.length ∨ ∃ b ∈ blankBytes, s[i + 4]? = some b := by
  have hlength : i + 4 ≤ s.length := h.add_length_le
  rcases Nat.lt_or_eq_of_le hlength with hlt | hend
  · have hne : i + 4 ≠ s.length := by omega
    simp [List.getElem?_eq_getElem hlt, isBlankByte_iff_mem, hne]
  · simp [hend]

theorem hasKeyword_drop_iff {s : Bytes} {i : Nat} : hasKeyword (s.drop i) thenWord = true ↔
    ThenAt s i ∧ (i + 4 = s.length ∨ ∃ b ∈ blankBytes, s[i + 4]? = some b) := by
  have hbehind : ThenAt s i →
      hasKeyword (s.drop i) thenWord = s[i + 4]?.all Bytes.isBlankByte := by
    rintro ⟨rest, hrest⟩
    have hdrop : rest = s.drop (i + 4) := by
      rw [← List.drop_drop, ← hrest]
      rfl
    rw [← hrest, hasKeyword_append, hdrop, List.head?_drop]
  constructor
  · intro hword
    have hthen : ThenAt s i := thenAt_iff.mpr (hasKeyword_startsWith hword)
    rw [hbehind hthen] at hword
    exact ⟨hthen, (all_behind_iff hthen).mp hword⟩
  · rintro ⟨hthen, hend⟩
    rw [hbehind hthen]
    exact (all_behind_iff hthen).mpr hend

theorem loneAt_iff_dividesAt {s : Bytes} {i : Nat} : LoneAt none s i ↔ DividesAt s i := by
  rw [LoneAt, standsAlone, Bool.and_eq_true, any_preceding_iff, hasKeyword_drop_iff]
  constructor
  · rintro ⟨⟨hpos, hfront⟩, hthen, hend⟩
    exact ⟨hpos, hthen, hfront, hend⟩
  · rintro ⟨hpos, hthen, hfront, hend⟩
    exact ⟨⟨hpos, hfront⟩, hthen, hend⟩

/-- The round after a rejected `then` starts right behind it. -/
theorem Strict.seekThen_jumps {s : Bytes} {off i : Nat} (h : FirstThen s off i)
    (hi : ¬ LoneAt none s i) (fuel : Nat) :
    Strict.seekThen s (fuel + 1) off = Strict.seekThen s fuel (i + thenWord.length) := by
  obtain ⟨hoff, hthen⟩ := h.1
  have hlength := hthen.add_length_le
  have hwithin : off ≤ s.length := by omega
  rcases Strict.seekThen_round hwithin fuel with ⟨hnone, -⟩ | ⟨j, hfirst, hround⟩
  · exact absurd hthen (hnone i hoff)
  · obtain rfl := h.unique hfirst
    rw [hround, if_neg hi]

/-- The search finds the first place where `then` divides the text, and none exactly if there is no
such place. Where the next `then` from some place on is rejected, the search goes on right behind
it, further on and still within the text, and passes no place where the text is divided; so it ends
after at most one round more than words have room in the text. -/
theorem findThen_exact (s : Bytes) :
    (∀ i, findThen s = some i ↔ FirstAt (DividesAt s) i) ∧
      (findThen s = none ↔ ∀ i, ¬ DividesAt s i) ∧
      (∀ off i, FirstThen s off i → ¬ DividesAt s i →
        off < i + 4 ∧ i + 4 ≤ s.length ∧ (∀ k, off ≤ k → k < i + 4 → ¬ DividesAt s k) ∧
          findThenFrom s off = findThenFrom s (i + 4) ∧
          ∀ fuel, Strict.seekThen s (fuel + 1) off = Strict.seekThen s fuel (i + 4)) ∧
      ∀ fuel, s.length / 4 < fuel → Strict.seekThen s fuel 0 = some (findThen s) := by
  have hsame : DividesAt s = LoneAt none s := funext fun _ => propext loneAt_iff_dividesAt.symm
  simp only [hsame]
  refine ⟨findThen_eq_some_iff s, ?_, ?_, ?_⟩
  · simp only [← findThenFrom_zero, findThenFrom_eq_none_iff, Nat.zero_le, true_imp_iff]
  · intro off i hfirst hlone
    have hoff : off ≤ i := hfirst.1.1
    have hlength : i + 4 ≤ s.length := hfirst.1.2.add_length_le
    exact ⟨by omega, hlength, fun k => hfirst.not_loneAt hlone, hfirst.findThenFrom_eq hlone,
      Strict.seekThen_jumps hfirst hlone⟩
  · intro fuel hfuel
    have hword : thenWord.length = 4 := by decide
    exact Strict.seekThen_eq (Nat.zero_le _) (by rw [hword]; omega)

/-- Four times `then`: at the front, twice in one word behind a space, and at the end behind the
last byte of the character U+00E0. -/
def fourThens : Bytes := ascii "then thenthen " ++ [0xC3, 0xA0] ++ ascii "then"

theorem findThen_exact_fourth :
    FirstThen fourThens 4 5 ∧ ¬ DividesAt fourThens 5 ∧ findThen fourThens = some 16 ∧
      findThenFrom fourThens 4 = findThenFrom fourThens 9 ∧
      Strict.seekThen fourThens 6 0 = some (findThen fourThens) := by
  obtain ⟨hfound, -, hjumps, hends⟩ := findThen_exact fourThens
  have hfirst : FirstThen fourThens 4 5 := by decide
  have hrejected : ¬ DividesAt fourThens 5 := by decide
  obtain ⟨-, -, -, hjump, -⟩ := hjumps 4 5 hfirst hrejected
  exact ⟨hfirst, hrejected, (hfound 16).mpr (by decide), hjump, hends 6 (by decide)⟩

end SectScript
