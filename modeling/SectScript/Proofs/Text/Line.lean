import SectScript.Proofs.Text.Search

/-!
# The lines of a text

The pieces of a text between separators hold no separator, and a text that is joined from such
pieces has these pieces. They are also had one by one, by cutting at the first separator.
-/

namespace SectScript.Bytes

theorem not_mem_of_mem_pieces {sep : UInt8} {s p : Bytes} (h : p ∈ pieces sep s) : sep ∉ p := by
  induction s generalizing p with
  | nil =>
    obtain rfl := List.mem_singleton.mp h
    exact List.not_mem_nil
  | cons b s ih =>
    rw [pieces] at h
    split at h
    case isTrue =>
      rcases List.mem_cons.mp h with rfl | h
      · exact List.not_mem_nil
      · exact ih h
    case isFalse hne =>
      split at h
      case h_1 q qs hpieces =>
        rw [hpieces] at ih
        rcases List.mem_cons.mp h with rfl | h
        · simpa [Ne.symm hne] using ih List.mem_cons_self
        · exact ih (List.mem_cons_of_mem _ h)
      case h_2 =>
        obtain rfl := List.mem_singleton.mp h
        simpa using Ne.symm hne

theorem pieces_ne_nil (sep : UInt8) (s : Bytes) : pieces sep s ≠ [] := by
  cases s with
  | nil => simp [pieces]
  | cons b s =>
    rw [pieces]
    split
    · simp
    · split <;> simp

theorem pieces_append (sep : UInt8) (s t : Bytes) :
    pieces sep (s ++ sep :: t) = pieces sep s ++ pieces sep t := by
  induction s with
  | nil => simp [pieces]
  | cons b s ih =>
    have hs := pieces_ne_nil sep s
    by_cases hb : b = sep
    · simp [pieces, hb, ih]
    · simp only [List.cons_append, pieces, if_neg hb, ih]
      cases hpieces : pieces sep s with
      | nil => exact absurd hpieces hs
      | cons p ps => rfl

theorem pieces_of_not_mem {sep : UInt8} {s : Bytes} (h : sep ∉ s) : pieces sep s = [s] := by
  induction s with
  | nil => rfl
  | cons b s ih =>
    rw [List.mem_cons, not_or] at h
    rw [pieces, if_neg (Ne.symm h.1), ih h.2]

/-- The pieces that a text was joined from are had back. -/
theorem pieces_join {sep : UInt8} {ps : List Bytes} (hne : ps ≠ []) (hps : ∀ p ∈ ps, sep ∉ p) :
    pieces sep (join [sep] ps) = ps := by
  fun_induction join [sep] ps with
  | case1 => exact absurd rfl hne
  | case2 p => exact pieces_of_not_mem (hps p List.mem_cons_self)
  | case3 p ps hmore ih =>
    obtain ⟨hp, hps⟩ := List.forall_mem_cons.mp hps
    rw [List.append_assoc, List.singleton_append, pieces_append, pieces_of_not_mem hp,
      ih hmore hps]
    rfl

/-- Nothing of a text is lost in its pieces. -/
theorem join_pieces (sep : UInt8) (s : Bytes) : join [sep] (pieces sep s) = s := by
  induction s with
  | nil => rfl
  | cons b s ih =>
    cases hpieces : pieces sep s with
    | nil => exact absurd hpieces (pieces_ne_nil sep s)
    | cons p ps =>
      rw [hpieces] at ih
      by_cases hb : b = sep
      · rw [pieces, if_pos hb, hpieces, hb]
        simpa [join] using ih
      · rw [pieces, if_neg hb, hpieces]
        cases ps with
        | nil => simpa [join] using ih
        | cons q qs => simpa [join] using ih

/-- The first piece ends at the first separator, and the others are the pieces of what follows. -/
theorem pieces_eq_cut (sep : UInt8) (s : Bytes) :
    pieces sep s =
      match cut [sep] s with
      | some (piece, rest) => piece :: pieces sep rest
      | none => [s] := by
  induction s with
  | nil => rfl
  | cons b s ih =>
    by_cases hb : b = sep
    · have hfront : [sep].isPrefixOf? (sep :: s) = some s := isPrefixOf?_append [sep] s
      simp [pieces, cut, hb, hfront]
    · rw [pieces, if_neg hb, cut, isPrefixOf?_cons_of_ne (Ne.symm hb), ih]
      cases cut [sep] s with
      | none => rfl
      | some lr => rfl

end SectScript.Bytes
