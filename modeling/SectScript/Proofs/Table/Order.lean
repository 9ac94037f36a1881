import SectScript.Proofs.Table
import Mathlib.Data.List.Dedup
import Mathlib.Data.List.Induction

/-!
# The order of a table

The names of a table ascend, so each has one entry, and the walk that asks for the next name again
and again comes to every name once. After any sequence of insertions the table has the names that
were inserted, each with what was inserted for it last.
-/

namespace SectScript

/-- The names that a walk comes to from a place on, until there is no next one. -/
inductive Visits (next : Bytes → Option Bytes) : Option Bytes → List Bytes → Prop
  | done : Visits next none []
  | step {name : Bytes} {names : List Bytes} (rest : Visits next (next name) names) :
      Visits next (some name) (name :: names)

/-- If each name has the one behind it as its next, the walk from the first comes to all. -/
theorem Visits.of_next {next : Bytes → Option Bytes} {names : List Bytes}
    (h : ∀ before name behind, names = before ++ name :: behind → next name = behind.head?) :
    Visits next names.head? names := by
  -- The names behind a place are what is left to visit there.
  have left : ∀ before rest, names = before ++ rest → Visits next rest.head? rest := by
    intro before rest
    induction rest generalizing before with
    | nil => exact fun _ => .done
    | cons name rest ih =>
      intro hnames
      refine .step ?_
      rw [h before name rest hnames]
      exact ih (before ++ [name]) (by rw [hnames, List.append_assoc, List.singleton_append])
  exact left [] names rfl

namespace Table

variable {α : Type}

/-! ## Entries in order -/

theorem ascending_append_cons {es fs : List (Bytes × α)} {e : Bytes × α} :
    Ascending (es ++ e :: fs) ↔ Ascending es ∧ Ascending fs ∧ (∀ d ∈ es, d.1 < e.1) ∧
      (∀ f ∈ fs, e.1 < f.1) := by
  rw [Ascending, List.pairwise_append, List.pairwise_cons]
  constructor
  · rintro ⟨hes, ⟨hright, hfs⟩, hcross⟩
    exact ⟨hes, hfs, fun d hd => hcross d hd e List.mem_cons_self, hright⟩
  · rintro ⟨hes, hfs, hleft, hright⟩
    refine ⟨hes, ⟨hright, hfs⟩, ?_⟩
    intro d hd f hf
    rcases List.mem_cons.mp hf with rfl | hf
    · exact hleft d hd
    · exact List.lt_trans (hleft d hd) (hright f hf)

/-! An entry is placed on its side of any other. -/

section Place

variable {name : Bytes} (a : α) {es : List (Bytes × α)} {e : Bytes × α} (fs : List (Bytes × α))

theorem place_before (h : name < e.1) :
    place name a (es ++ e :: fs) = place name a es ++ e :: fs := by
  induction es with
  | nil => simp [place, Bytes.compare_eq_lt_iff.mpr h]
  | cons d es ih =>
    rw [List.cons_append, place, place, ih]
    cases compare name d.1 <;> rfl

variable (hes : ∀ d ∈ es, d.1 < name)
include hes

theorem place_behind (h : e.1 < name) :
    place name a (es ++ e :: fs) = es ++ e :: place name a fs := by
  induction es with
  | nil => simp [place, Bytes.compare_eq_gt_iff.mpr h]
  | cons d es ih =>
    obtain ⟨hd, hes⟩ := List.forall_mem_cons.mp hes
    rw [List.cons_append, place, Bytes.compare_eq_gt_iff.mpr hd, List.cons_append]
    exact congrArg (d :: ·) (ih hes)

theorem place_at (h : e.1 = name) : place name a (es ++ e :: fs) = es ++ (name, a) :: fs := by
  induction es with
  | nil => simp [place, h]
  | cons d es ih =>
    obtain ⟨hd, hes⟩ := List.forall_mem_cons.mp hes
    rw [List.cons_append, place, Bytes.compare_eq_gt_iff.mpr hd, List.cons_append]
    exact congrArg (d :: ·) (ih hes)

end Place

/-! ## Names in order -/

theorem names_ascend (t : Table α) : t.names.Pairwise (· < ·) := List.pairwise_map.mpr t.ascending

theorem names_nodup (t : Table α) : t.names.Nodup :=
  t.names_ascend.imp fun {a b} (hlt : a < b) (heq : a = b) => List.lt_irrefl b (heq ▸ hlt)

/-- The walk from the first name comes to all names in order. -/
theorem visits_names (t : Table α) : Visits t.next? t.first? t.names := by
  apply Visits.of_next
  intro before name behind hnames
  have hfresh : name ∉ before := by
    have hnodup := t.names_nodup
    rw [hnames, List.nodup_append] at hnodup
    exact fun hmem => hnodup.2.2 name hmem name List.mem_cons_self rfl
  have hpass : ∀ n ∈ before, (n != name) = true :=
    fun n hn => bne_iff_ne.mpr fun heq => hfresh (heq ▸ hn)
  rw [next?, hnames, List.dropWhile_append_of_pos hpass, List.dropWhile_cons_of_neg (by simp)]
  rfl

theorem mem_names_iff {t : Table α} {name : Bytes} : name ∈ t.names ↔ t.Defines name := by
  rw [Defines, find?, Option.isSome_map, List.find?_isSome]
  simp [names]

/-- Tables that have the same names have them in the same order. -/
theorem names_eq {β : Type} {t : Table α} {u : Table β}
    (h : ∀ name, t.Defines name ↔ u.Defines name) : t.names = u.names := by
  have hperm : t.names.Perm u.names := by
    rw [List.perm_ext_iff_of_nodup t.names_nodup u.names_nodup]
    simpa only [mem_names_iff] using h
  refine hperm.eq_of_pairwise ?_ t.names_ascend u.names_ascend
  intro a b _ _ hab hba
  exact absurd (List.lt_trans hab hba) (List.lt_irrefl a)

/-- An insertion adds an entry unless the name has one. -/
theorem size_insert (t : Table α) (name : Bytes) (a : α) :
    (t.insert name a).size = if t.Defines name then t.size else t.size + 1 := by
  have hnames := fun other => @mem_names_iff α (t.insert name a) other
  simp only [defines_insert, ← mem_names_iff (t := t)] at hnames
  have hnodup := (t.insert name a).names_nodup
  have hlength : ∀ u : Table α, u.size = u.names.length := fun u => (List.length_map ..).symm
  rw [hlength, hlength]
  split
  case isTrue hold =>
    apply List.Perm.length_eq
    rw [List.perm_ext_iff_of_nodup hnodup t.names_nodup]
    intro other
    rw [hnames, or_iff_right_iff_imp]
    rintro rfl
    exact mem_names_iff.mpr hold
  case isFalse hnew =>
    rw [← mem_names_iff] at hnew
    rw [← List.length_cons (a := name)]
    apply List.Perm.length_eq
    rw [List.perm_ext_iff_of_nodup hnodup (List.nodup_cons.mpr ⟨hnew, t.names_nodup⟩)]
    intro other
    rw [hnames, List.mem_cons]

/-! ## Sequences of insertions -/

/-- The table after insertions one after the other. -/
def insertAll (t : Table α) (is : List (Bytes × α)) : Table α :=
  is.foldl (fun t i => t.insert i.1 i.2) t

theorem insertAll_snoc (t : Table α) (is : List (Bytes × α)) (i : Bytes × α) :
    t.insertAll (is ++ [i]) = (t.insertAll is).insert i.1 i.2 := by
  rw [insertAll, List.foldl_append]
  rfl

/-- The last insertion for a name is that of `a`. -/
def LastOf (is : List (Bytes × α)) (name : Bytes) (a : α) : Prop :=
  ∃ before behind, is = before ++ (name, a) :: behind ∧ ∀ i ∈ behind, i.1 ≠ name

theorem lastOf_snoc {is : List (Bytes × α)} {i : Bytes × α} {name : Bytes} {a : α} :
    LastOf (is ++ [i]) name a ↔ i = (name, a) ∨ (i.1 ≠ name ∧ LastOf is name a) := by
  constructor
  · rintro ⟨before, behind, heq, hlast⟩
    rcases List.eq_nil_or_concat' behind with rfl | ⟨behind, last, rfl⟩
    · exact Or.inl (List.singleton_inj.mp (List.append_inj' heq rfl).2)
    · rw [← List.cons_append, ← List.append_assoc] at heq
      obtain ⟨his, hi⟩ := List.append_inj' heq rfl
      obtain rfl := List.singleton_inj.mp hi
      exact Or.inr ⟨hlast i (by simp), before, behind, his,
        fun j hj => hlast j (List.mem_append_left _ hj)⟩
  · rintro (rfl | ⟨hi, before, behind, rfl, hlast⟩)
    · exact ⟨is, [], rfl, by simp⟩
    · refine ⟨before, behind ++ [i], by simp, ?_⟩
      intro j hj
      rcases List.mem_append.mp hj with hj | hj
      · exact hlast j hj
      · rwa [List.mem_singleton.mp hj]

theorem find?_insertAll_empty (is : List (Bytes × α)) (name : Bytes) (a : α) :
    (empty.insertAll is).find? name = some a ↔ LastOf is name a := by
  induction is using List.reverseRecOn with
  | nil =>
    constructor
    · intro h
      cases h
    · rintro ⟨before, behind, h, _⟩
      simp at h
  | append_singleton is i ih =>
    obtain ⟨other, b⟩ := i
    rw [insertAll_snoc, find?_insert, lastOf_snoc, ← ih]
    split
    case isTrue h => simp [h]
    case isFalse h => simp [Ne.symm h]

theorem defines_insertAll_empty (is : List (Bytes × α)) (name : Bytes) :
    (empty.insertAll is).Defines name ↔ name ∈ is.map Prod.fst := by
  induction is using List.reverseRecOn with
  | nil =>
    constructor
    · intro h
      cases h
    · intro h
      cases h
  | append_singleton is i ih =>
    rw [insertAll_snoc, defines_insert, ih, List.map_append, List.mem_append, or_comm]
    simp

/-- There are as many entries as names were inserted. -/
theorem size_insertAll_empty (is : List (Bytes × α)) :
    (empty.insertAll is).size = (is.map Prod.fst).dedup.length := by
  have hperm : (empty.insertAll is).names.Perm (is.map Prod.fst).dedup := by
    refine (List.perm_ext_iff_of_nodup (names_nodup _) (List.nodup_dedup _)).mpr ?_
    intro name
    rw [mem_names_iff, defines_insertAll_empty, List.mem_dedup]
  rw [← hperm.length_eq, names, List.length_map, size]

end Table

end SectScript
