import SectScript.Text.Bytes

/-!
# Tables

A table maps names to entries. Its names ascend bytewise, so each has one entry, and walking the
table from the first entry to the last is the order in which names are listed.
-/

namespace SectScript

/-- The names of the entries ascend. -/
def Table.Ascending {α : Type} (es : List (Bytes × α)) : Prop := es.Pairwise fun d e => d.1 < e.1

instance {α : Type} (es : List (Bytes × α)) : Decidable (Table.Ascending es) :=
  inferInstanceAs (Decidable (es.Pairwise fun d e => d.1 < e.1))

structure Table (α : Type) where
  entries : List (Bytes × α)
  ascending : Table.Ascending entries

namespace Table

variable {α : Type}

def empty : Table α := ⟨[], .nil⟩

def find? (t : Table α) (name : Bytes) : Option α :=
  (t.entries.find? fun e => e.1 == name).map (·.2)

/-- Puts an entry in its place; an entry of the same name is replaced. -/
def place (name : Bytes) (a : α) : List (Bytes × α) → List (Bytes × α)
  | [] => [(name, a)]
  | e :: rest =>
    match compare name e.1 with
    | .lt => (name, a) :: e :: rest
    | .eq => (name, a) :: rest
    | .gt => e :: place name a rest

theorem mem_place {name : Bytes} {a : α} {es : List (Bytes × α)} {e : Bytes × α}
    (h : e ∈ place name a es) : e = (name, a) ∨ e ∈ es := by
  induction es with
  | nil => exact Or.inl (List.mem_singleton.mp h)
  | cons d es ih =>
    rw [place] at h
    split at h
    · exact List.mem_cons.mp h
    · exact (List.mem_cons.mp h).imp_right (List.mem_cons_of_mem d)
    · rcases List.mem_cons.mp h with rfl | h
      · exact Or.inr List.mem_cons_self
      · exact (ih h).imp_right (List.mem_cons_of_mem d)

theorem place_ascending (name : Bytes) (a : α) {es : List (Bytes × α)} (h : Ascending es) :
    Ascending (place name a es) := by
  induction es with
  | nil => exact List.pairwise_singleton _ _
  | cons e es ih =>
    obtain ⟨hfirst, hes⟩ := List.pairwise_cons.mp h
    rw [place]
    split
    case h_1 hlt =>
      have hname := Bytes.compare_eq_lt_iff.mp hlt
      refine List.pairwise_cons.mpr ⟨?_, h⟩
      intro d hd
      rcases List.mem_cons.mp hd with rfl | hd
      · exact hname
      · exact List.lt_trans hname (hfirst d hd)
    case h_2 heq =>
      obtain rfl : name = e.1 := Std.LawfulEqCmp.eq_of_compare heq
      exact List.pairwise_cons.mpr ⟨hfirst, hes⟩
    case h_3 hgt =>
      refine List.pairwise_cons.mpr ⟨?_, ih hes⟩
      intro d hd
      rcases mem_place hd with rfl | hd
      · exact Bytes.compare_eq_gt_iff.mp hgt
      · exact hfirst d hd

def insert (t : Table α) (name : Bytes) (a : α) : Table α :=
  ⟨place name a t.entries, place_ascending name a t.ascending⟩

def names (t : Table α) : List Bytes := t.entries.map (·.1)

def size (t : Table α) : Nat := t.entries.length

def first? (t : Table α) : Option Bytes := t.names.head?

/-- The name behind `name` in the order, if `name` is in the table. -/
def next? (t : Table α) (name : Bytes) : Option Bytes :=
  ((t.names.dropWhile fun n => n != name).drop 1).head?

end Table

end SectScript
