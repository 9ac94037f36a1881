import SectScript.Text.Bytes
import Mathlib.Data.List.Basic

/-!
# Searching

`startsWith`, `cut` and `contains` in terms of concatenation: what a search finds is a way to write
the text around the word.
-/

namespace SectScript.Bytes

theorem isPrefixOf?_append (w s : Bytes) : w.isPrefixOf? (w ++ s) = some s :=
  List.isPrefixOf?_eq_some_iff_append_eq.mpr rfl

theorem isPrefixOf?_cons_of_ne {a b : UInt8} (h : a ≠ b) (w s : Bytes) :
    (a :: w).isPrefixOf? (b :: s) = none := by
  rw [Option.eq_none_iff_forall_ne_some]
  intro t ht
  exact h (List.cons.inj (List.append_eq_of_isPrefixOf?_eq_some ht)).1

theorem startsWith_iff {w s : Bytes} : startsWith w s = true ↔ ∃ t, s = w ++ t := by
  rw [startsWith, List.isPrefixOf_iff_prefix]
  exact exists_congr fun _ => eq_comm

theorem cut_eq_some {w s l r : Bytes} (h : cut w s = some (l, r)) : s = l ++ (w ++ r) := by
  induction s generalizing l with
  | nil =>
    obtain ⟨t, ht, heq⟩ := Option.map_eq_some_iff.mp h
    obtain ⟨rfl, rfl⟩ := Prod.mk.inj heq
    exact (List.append_eq_of_isPrefixOf?_eq_some ht).symm
  | cons b s ih =>
    rw [cut] at h
    cases hw : w.isPrefixOf? (b :: s) with
    | some t =>
      simp only [hw, Option.some.injEq, Prod.mk.injEq] at h
      obtain ⟨rfl, rfl⟩ := h
      exact (List.append_eq_of_isPrefixOf?_eq_some hw).symm
    | none =>
      simp only [hw] at h
      obtain ⟨⟨l', r'⟩, hcut, heq⟩ := Option.map_eq_some_iff.mp h
      obtain ⟨rfl, rfl⟩ := Prod.mk.inj heq
      rw [ih hcut, List.cons_append]

/-- A cut is made at the first place where the word begins. -/
theorem not_startsWith_of_cut {w s l r : Bytes} (h : cut w s = some (l, r)) {m : Nat}
    (hm : m < l.length) : startsWith w (s.drop m) = false := by
  induction s generalizing l m with
  | nil =>
    obtain ⟨t, _, heq⟩ := Option.map_eq_some_iff.mp h
    obtain ⟨rfl, rfl⟩ := Prod.mk.inj heq
    simp at hm
  | cons b s ih =>
    rw [cut] at h
    cases hw : w.isPrefixOf? (b :: s) with
    | some t =>
      simp only [hw, Option.some.injEq, Prod.mk.injEq] at h
      rw [← h.1] at hm
      simp at hm
    | none =>
      simp only [hw] at h
      obtain ⟨⟨l', r'⟩, hcut, heq⟩ := Option.map_eq_some_iff.mp h
      obtain ⟨rfl, rfl⟩ := Prod.mk.inj heq
      cases m with
      | zero =>
        rw [List.drop_zero, startsWith, ← List.isSome_isPrefixOf?_eq_isPrefixOf, hw]
        rfl
      | succ m => exact ih hcut (by simpa using hm)

/-- A word whose first byte does not occur before it is found where it stands. -/
theorem cut_append {c : UInt8} {w l : Bytes} (hc : c ∉ l) (r : Bytes) :
    cut (c :: w) (l ++ (c :: w ++ r)) = some (l, r) := by
  induction l with
  | nil =>
    have h := isPrefixOf?_append (c :: w) r
    simp only [List.cons_append] at h
    simp [cut, h]
  | cons b l ih =>
    have hne : c ≠ b := fun h => hc (h ▸ List.mem_cons_self)
    rw [List.cons_append, cut, isPrefixOf?_cons_of_ne hne,
      ih fun h => hc (List.mem_cons_of_mem b h)]
    rfl

theorem contains_append (l w r : Bytes) : contains w (l ++ (w ++ r)) = true := by
  induction l with
  | nil =>
    cases h : w ++ r with
    | nil =>
      obtain ⟨rfl, rfl⟩ := List.append_eq_nil_iff.mp h
      rfl
    | cons b s =>
      have hw := isPrefixOf?_append w r
      rw [h] at hw
      simp [contains, cut, hw]
  | cons b l ih =>
    rw [contains, Option.isSome_iff_exists] at *
    rw [List.cons_append, cut]
    obtain ⟨⟨l', r'⟩, h⟩ := ih
    cases w.isPrefixOf? (b :: (l ++ (w ++ r))) with
    | some t => exact ⟨_, rfl⟩
    | none => exact ⟨_, by rw [h]; rfl⟩

theorem contains_iff {w s : Bytes} : contains w s = true ↔ ∃ l r, s = l ++ (w ++ r) := by
  constructor
  · intro h
    obtain ⟨⟨l, r⟩, h⟩ := Option.isSome_iff_exists.mp h
    exact ⟨l, r, cut_eq_some h⟩
  · rintro ⟨l, r, rfl⟩
    exact contains_append l w r

theorem contains_eq_false {w s : Bytes} {b : UInt8} (hw : b ∈ w) (hs : b ∉ s) :
    contains w s = false := by
  cases h : contains w s with
  | false => rfl
  | true =>
    obtain ⟨l, r, rfl⟩ := contains_iff.mp h
    exact absurd (List.mem_append_right l (List.mem_append_left r hw)) hs

end SectScript.Bytes
