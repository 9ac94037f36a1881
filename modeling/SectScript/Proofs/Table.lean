import SectScript.Table

/-!
# Finding what was inserted

An insertion changes the entry of its own name and no other, wherever the entry is placed.
-/

namespace SectScript.Table

variable {α : Type}

theorem find?_place_self (name : Bytes) (a : α) (es : List (Bytes × α)) :
    (place name a es).find? (fun e => e.1 == name) = some (name, a) := by
  induction es with
  | nil => simp [place]
  | cons e rest ih =>
    rw [place]
    split
    case h_1 => simp
    case h_2 => simp
    case h_3 hgt =>
      have hne : e.1 ≠ name := by
        intro heq
        rw [heq, Std.ReflOrd.compare_self] at hgt
        cases hgt
      simp [hne, ih]

theorem find?_place_of_ne {name other : Bytes} (hne : other ≠ name) (a : α)
    (es : List (Bytes × α)) :
    (place name a es).find? (fun e => e.1 == other) = es.find? (fun e => e.1 == other) := by
  induction es with
  | nil => simp [place, hne.symm]
  | cons e rest ih =>
    rw [place]
    split
    case h_1 => simp [hne.symm]
    case h_2 heq =>
      have he : name = e.1 := Std.LawfulEqCmp.eq_of_compare heq
      simp [hne.symm, ← he]
    case h_3 => simp only [List.find?_cons, ih]

theorem mem_insert {t : Table α} {name : Bytes} {a : α} {e : Bytes × α}
    (h : e ∈ (t.insert name a).entries) : e = (name, a) ∨ e ∈ t.entries :=
  mem_place h

@[simp] theorem find?_insert_self (t : Table α) (name : Bytes) (a : α) :
    (t.insert name a).find? name = some a := by
  simp [find?, insert, find?_place_self]

theorem find?_insert_of_ne (t : Table α) {name other : Bytes} (hne : other ≠ name) (a : α) :
    (t.insert name a).find? other = t.find? other := by
  simp [find?, insert, find?_place_of_ne hne]

theorem find?_insert (t : Table α) (name other : Bytes) (a : α) :
    (t.insert name a).find? other = if other = name then some a else t.find? other := by
  split
  case isTrue h => rw [h, find?_insert_self]
  case isFalse h => exact find?_insert_of_ne t h a

theorem mem_entries_of_find? {t : Table α} {name : Bytes} {a : α} (h : t.find? name = some a) :
    (name, a) ∈ t.entries := by
  obtain ⟨e, he, rfl⟩ := Option.map_eq_some_iff.mp h
  have hname : e.1 = name := by simpa using List.find?_some he
  rw [← hname]
  exact List.mem_of_find?_eq_some he

/-- A name has an entry. -/
def Defines (t : Table α) (name : Bytes) : Prop := (t.find? name).isSome = true

instance (t : Table α) (name : Bytes) : Decidable (t.Defines name) :=
  inferInstanceAs (Decidable (_ = true))

theorem defines_insert {t : Table α} {name other : Bytes} {a : α} :
    (t.insert name a).Defines other ↔ other = name ∨ t.Defines other := by
  rw [Defines, Defines, find?_insert]
  split
  case isTrue h => simp [h]
  case isFalse h => simp [h]

end SectScript.Table
