import SectScript.Program
import SectScript.Proofs.Table.Order
import Mathlib.Data.Tree.Basic

/-!
# Sections in a search tree

The table of sections can be kept in a search tree that is balanced in any way that does not move
entries past each other. A section is then added to the tree only if looking for its name finds
nothing, and else changed where it stands. In order, the tree holds the entries of the table: what
is looked up, counted and walked through is the same, and adding never meets a section that is
already there.
-/

namespace SectScript

/-! ## Search trees -/

namespace SearchTree

section Operations

variable {α κ : Type}

def inorder : BinaryTree α → List α
  | .nil => []
  | .node a l r => inorder l ++ a :: inorder r

/-- The entry that compares equal to `k`. -/
def lookup (cmp : κ → α → Ordering) (k : κ) : BinaryTree α → Option α
  | .nil => none
  | .node a l r =>
    match cmp k a with
    | .lt => lookup cmp k l
    | .eq => some a
    | .gt => lookup cmp k r

/-- The tree with the entry changed that compares equal to `k`. -/
def change (cmp : κ → α → Ordering) (k : κ) (f : α → α) : BinaryTree α → BinaryTree α
  | .nil => .nil
  | .node a l r =>
    match cmp k a with
    | .lt => .node a (change cmp k f l) r
    | .eq => .node (f a) l r
    | .gt => .node a l (change cmp k f r)

/-- The tree with one more entry, balanced on the way back to the root; none if an entry that
compares equal is there. -/
def add? (balance : BinaryTree α → BinaryTree α) (cmp : α → α → Ordering) (a : α) :
    BinaryTree α → Option (BinaryTree α)
  | .nil => some (.node a .nil .nil)
  | .node b l r =>
    match cmp a b with
    | .lt => (add? balance cmp a l).map fun l => balance (.node b l r)
    | .eq => none
    | .gt => (add? balance cmp a r).map fun r => balance (.node b l r)

def first? : BinaryTree α → Option α
  | .nil => none
  | .node a l _ => (first? l).or (some a)

/-- The first entry behind `k`. -/
def next? (cmp : κ → α → Ordering) (k : κ) : BinaryTree α → Option α
  | .nil => none
  | .node a l r =>
    match cmp k a with
    | .lt => (next? cmp k l).or (some a)
    | .eq | .gt => next? cmp k r

/-- Balancing moves no entry past another. -/
def KeepsOrder (balance : BinaryTree α → BinaryTree α) : Prop :=
  ∀ t, inorder (balance t) = inorder t

theorem first?_eq_head? (t : BinaryTree α) : first? t = (inorder t).head? := by
  induction t with
  | nil => rfl
  | node a l r ihl _ =>
    rw [first?, inorder, ihl, List.head?_append]
    rfl

end Operations

/-! ## Named entries -/

variable {α : Type}

/-- Compares a name with that of an entry. -/
def byName (name : Bytes) (e : Bytes × α) : Ordering := compare name e.1

/-- Compares two entries by their names. -/
def byEntry (d e : Bytes × α) : Ordering := compare d.1 e.1

/-- The entries of the tree ascend from left to right. -/
def Ordered (t : BinaryTree (Bytes × α)) : Prop := Table.Ascending (inorder t)

theorem ordered_node {e : Bytes × α} {l r : BinaryTree (Bytes × α)} :
    Ordered (.node e l r) ↔ Ordered l ∧ Ordered r ∧ (∀ d ∈ inorder l, d.1 < e.1) ∧
      (∀ f ∈ inorder r, e.1 < f.1) :=
  Table.ascending_append_cons

section Ordered

variable {t : BinaryTree (Bytes × α)} (h : Ordered t) (name : Bytes)
include h

/-- The side of an entry on which a name is looked for is the only one where it can be. -/
theorem lookup_eq_find? :
    lookup byName name t = (inorder t).find? (fun e => e.1 == name) := by
  induction t with
  | nil => rfl
  | node e l r ihl ihr =>
    obtain ⟨hl, hr, hleft, hright⟩ := ordered_node.mp h
    rw [lookup, inorder, List.find?_append, byName]
    split
    case h_1 hlt =>
      have hname := Bytes.compare_eq_lt_iff.mp hlt
      have hnone : (e :: inorder r).find? (fun e => e.1 == name) = none := by
        rw [List.find?_eq_none]
        intro d hd heq
        obtain rfl := beq_iff_eq.mp heq
        rcases List.mem_cons.mp hd with rfl | hd
        · exact List.lt_irrefl _ hname
        · exact List.lt_irrefl _ (List.lt_trans hname (hright d hd))
      rw [ihl hl, hnone, Option.or_none]
    case h_2 heq =>
      obtain rfl : name = e.1 := Std.LawfulEqCmp.eq_of_compare heq
      rw [List.find?_eq_none.mpr]
      · simp
      · intro d hd heq
        exact List.lt_irrefl _ (beq_iff_eq.mp heq ▸ hleft d hd)
    case h_3 hgt =>
      have hname := Bytes.compare_eq_gt_iff.mp hgt
      have hnone : (inorder l).find? (fun e => e.1 == name) = none := by
        rw [List.find?_eq_none]
        intro d hd heq
        obtain rfl := beq_iff_eq.mp heq
        exact List.lt_irrefl _ (List.lt_trans hname (hleft d hd))
      have hne : (e.1 == name) = false :=
        beq_eq_false_iff_ne.mpr fun heq => List.lt_irrefl name (heq ▸ hname)
      rw [ihr hr, hnone, List.find?_cons, hne]
      rfl

theorem next?_eq_find? :
    next? byName name t = (inorder t).find? (fun e => decide (name < e.1)) := by
  induction t with
  | nil => rfl
  | node e l r ihl ihr =>
    obtain ⟨hl, hr, hleft, -⟩ := ordered_node.mp h
    rw [next?, inorder, List.find?_append, List.find?_cons]
    -- From an entry at or before the name on, all to the left are before it.
    have hright : e.1 ≤ name → next? byName name r =
        ((inorder l).find? fun e => decide (name < e.1)).or
          (match decide (name < e.1) with
            | true => some e
            | false => (inorder r).find? fun e => decide (name < e.1)) := by
      intro hle
      rw [List.find?_eq_none.mpr, decide_eq_false (List.not_lt.mpr hle), ihr hr]
      · rfl
      · intro d hd hlt
        exact List.not_lt.mpr hle (List.lt_trans (of_decide_eq_true hlt) (hleft d hd))
    rw [byName]
    split
    case h_1 hlt => rw [ihl hl, decide_eq_true (Bytes.compare_eq_lt_iff.mp hlt)]
    case h_2 heq => exact hright (Std.LawfulEqCmp.eq_of_compare heq ▸ List.le_refl _)
    case h_3 hgt => exact hright (List.le_of_lt (Bytes.compare_eq_gt_iff.mp hgt))

/-- A walk from entry to entry follows the order of the tree. -/
theorem next?_of_inorder {before behind : List (Bytes × α)} {e : Bytes × α}
    (hsplit : inorder t = before ++ e :: behind) : next? byName e.1 t = behind.head? := by
  have hparts := h
  rw [Ordered, hsplit, Table.ascending_append_cons] at hparts
  obtain ⟨-, -, hbefore, hbehind⟩ := hparts
  rw [next?_eq_find? h, hsplit, List.find?_append, List.find?_eq_none.mpr, Option.none_or,
    List.find?_cons_of_neg]
  · cases behind with
    | nil => rfl
    | cons d behind => simp [hbehind d List.mem_cons_self]
  · simp
  · intro d hd hlt
    exact List.lt_irrefl _ (List.lt_trans (of_decide_eq_true hlt) (hbefore d hd))

/-- To change an entry where it stands is to place it. -/
theorem inorder_change {d : Bytes × α} (hd : d ∈ inorder t) (a : α) :
    inorder (change byName d.1 (fun e => (e.1, a)) t) = Table.place d.1 a (inorder t) := by
  induction t with
  | nil => cases hd
  | node e l r ihl ihr =>
    obtain ⟨hl, hr, hleft, hright⟩ := ordered_node.mp h
    rw [inorder, List.mem_append, List.mem_cons] at hd
    rw [change, byName]
    split
    case h_1 hlt =>
      have hname := Bytes.compare_eq_lt_iff.mp hlt
      have hd : d ∈ inorder l := by
        rcases hd with hd | rfl | hd
        · exact hd
        · exact absurd hname (List.lt_irrefl _)
        · exact absurd (List.lt_trans hname (hright d hd)) (List.lt_irrefl _)
      rw [inorder, inorder, ihl hl hd, Table.place_before a _ hname]
    case h_2 heq =>
      have hname : d.1 = e.1 := Std.LawfulEqCmp.eq_of_compare heq
      rw [inorder, inorder, hname, Table.place_at a _ hleft rfl]
    case h_3 hgt =>
      have hname := Bytes.compare_eq_gt_iff.mp hgt
      have hd : d ∈ inorder r := by
        rcases hd with hd | rfl | hd
        · exact absurd (List.lt_trans hname (hleft d hd)) (List.lt_irrefl _)
        · exact absurd hname (List.lt_irrefl _)
        · exact hd
      rw [inorder, inorder, ihr hr hd,
        Table.place_behind a _ (fun f hf => List.lt_trans (hleft f hf) hname) hname]

variable {name} in
/-- A name that is not there can be added, which places it. -/
theorem inorder_add? {balance : BinaryTree (Bytes × α) → BinaryTree (Bytes × α)}
    (hbalance : KeepsOrder balance) (hfresh : ∀ e ∈ inorder t, e.1 ≠ name) (a : α) :
    ∃ u, add? balance byEntry (name, a) t = some u ∧
      inorder u = Table.place name a (inorder t) := by
  induction t with
  | nil => exact ⟨_, rfl, rfl⟩
  | node e l r ihl ihr =>
    obtain ⟨hl, hr, hleft, -⟩ := ordered_node.mp h
    simp only [inorder, List.mem_append, List.mem_cons] at hfresh
    rw [add?, byEntry]
    split
    case h_1 hlt =>
      obtain ⟨u, hu, hin⟩ := ihl hl fun d hd => hfresh d (Or.inl hd)
      refine ⟨balance (.node e u r), by rw [hu]; rfl, ?_⟩
      rw [hbalance, inorder, inorder, hin, Table.place_before a _ (Bytes.compare_eq_lt_iff.mp hlt)]
    case h_2 heq =>
      exact absurd (Std.LawfulEqCmp.eq_of_compare heq).symm (hfresh e (Or.inr (Or.inl rfl)))
    case h_3 hgt =>
      have hname := Bytes.compare_eq_gt_iff.mp hgt
      obtain ⟨u, hu, hin⟩ := ihr hr fun d hd => hfresh d (Or.inr (Or.inr hd))
      refine ⟨balance (.node e l u), by rw [hu]; rfl, ?_⟩
      rw [hbalance, inorder, inorder, hin,
        Table.place_behind a _ (fun f hf => List.lt_trans (hleft f hf) hname) hname]

end Ordered

end SearchTree

/-! ## The tree of sections -/

/-- Sections in a search tree, with a count that is kept along. -/
structure SectionTree where
  root : BinaryTree (Bytes × Section) := .nil
  count : Nat := 0

namespace SectionTree

def find? (t : SectionTree) (name : Bytes) : Option Section :=
  (SearchTree.lookup SearchTree.byName name t.root).map (·.2)

def first? (t : SectionTree) : Option Bytes := (SearchTree.first? t.root).map (·.1)

def next? (t : SectionTree) (name : Bytes) : Option Bytes :=
  (SearchTree.next? SearchTree.byName name t.root).map (·.1)

/-- The interpreter gives up on a section that is not found and cannot be added either. -/
def taken (name : Bytes) : Fault :=
  .fatal (ascii "Section " ++ Quoted.quote name ++ ascii " already in tree???")

/-- A name that is found gets the new section; any other is added and counted. -/
def insert (balance : BinaryTree (Bytes × Section) → BinaryTree (Bytes × Section))
    (t : SectionTree) (i : Bytes × Section) : Except Fault SectionTree :=
  match SearchTree.lookup SearchTree.byName i.1 t.root with
  | some _ =>
    .ok { t with root := SearchTree.change SearchTree.byName i.1 (fun e => (e.1, i.2)) t.root }
  | none =>
    match SearchTree.add? balance SearchTree.byEntry i t.root with
    | some root => .ok ⟨root, t.count + 1⟩
    | none => .error (taken i.1)

/-- Insertions one after the other. -/
def insertAll (balance : BinaryTree (Bytes × Section) → BinaryTree (Bytes × Section))
    (is : List (Bytes × Section)) : Except Fault SectionTree :=
  is.foldlM (insert balance) {}

/-- The tree holds the sections of the program. -/
structure Holds (t : SectionTree) (p : Program) : Prop where
  inorder : SearchTree.inorder t.root = p.entries
  count : t.count = p.size

section Holds

variable {t : SectionTree} {p : Program} (h : t.Holds p)
include h

theorem Holds.ordered : SearchTree.Ordered t.root := by
  rw [SearchTree.Ordered, h.inorder]
  exact p.ascending

theorem Holds.find?_eq (name : Bytes) : t.find? name = p.find? name := by
  rw [find?, SearchTree.lookup_eq_find? h.ordered, h.inorder]
  rfl

/-- The walk through the tree comes to the names of the program. -/
theorem Holds.visits_names : Visits t.next? t.first? p.names := by
  have hfirst : t.first? = p.names.head? := by
    rw [first?, SearchTree.first?_eq_head?, h.inorder, Table.names, List.head?_map]
  rw [hfirst]
  apply Visits.of_next
  intro before name behind hnames
  obtain ⟨es, fs, hentries, -, hfs⟩ := List.map_eq_append_iff.mp hnames
  obtain ⟨e, fs, rfl, rfl, rfl⟩ := List.map_eq_cons_iff.mp hfs
  rw [next?, SearchTree.next?_of_inorder h.ordered (h.inorder.trans hentries), List.head?_map]

/-- An insertion succeeds, and the tree holds what the table then has. -/
theorem Holds.insert {balance : BinaryTree (Bytes × Section) → BinaryTree (Bytes × Section)}
    (hbalance : SearchTree.KeepsOrder balance) (i : Bytes × Section) :
    ∃ u, t.insert balance i = .ok u ∧ u.Holds (Table.insert p i.1 i.2) := by
  obtain ⟨name, s⟩ := i
  have hlookup := SearchTree.lookup_eq_find? h.ordered name
  rw [SectionTree.insert]
  cases hfound : SearchTree.lookup SearchTree.byName name t.root with
  | some d =>
    rw [hfound, eq_comm] at hlookup
    obtain rfl : d.1 = name := by simpa using List.find?_some hlookup
    have hin := SearchTree.inorder_change h.ordered (List.mem_of_find?_eq_some hlookup) s
    rw [h.inorder] at hin
    have hdefines : p.Defines d.1 := by
      rw [Table.Defines, ← h.find?_eq, find?, hfound]
      rfl
    refine ⟨_, rfl, hin, ?_⟩
    rw [p.size_insert, if_pos hdefines, h.count]
  | none =>
    rw [hfound, eq_comm, List.find?_eq_none] at hlookup
    have hfresh : ∀ e ∈ SearchTree.inorder t.root, e.1 ≠ name :=
      fun e he heq => hlookup e he (beq_iff_eq.mpr heq)
    obtain ⟨u, hu, hin⟩ := SearchTree.inorder_add? h.ordered hbalance hfresh s
    rw [h.inorder] at hin
    have hundefined : ¬ p.Defines name := by
      rw [Table.Defines, ← h.find?_eq, find?, hfound]
      exact Bool.false_ne_true
    refine ⟨⟨u, t.count + 1⟩, by dsimp only; rw [hu], hin, ?_⟩
    rw [p.size_insert, if_neg hundefined, h.count]

end Holds

theorem insertAll_holds {balance : BinaryTree (Bytes × Section) → BinaryTree (Bytes × Section)}
    (hbalance : SearchTree.KeepsOrder balance) (is : List (Bytes × Section)) :
    ∃ t, insertAll balance is = .ok t ∧ t.Holds (Table.empty.insertAll is) := by
  induction is using List.reverseRecOn with
  | nil => exact ⟨{}, rfl, rfl, rfl⟩
  | append_singleton is i ih =>
    obtain ⟨t, ht, hholds⟩ := ih
    obtain ⟨u, hu, hholds'⟩ := hholds.insert hbalance i
    refine ⟨u, ?_, by rwa [Table.insertAll_snoc]⟩
    rw [insertAll] at ht
    rw [insertAll, List.foldlM_append, ht]
    change (t.insert balance i >>= pure) = .ok u
    rw [hu]
    rfl

end SectionTree

/-- The table of sections after any sequence of insertions, kept in a tree that is balanced in any
way. No insertion fails; the count is the number of names inserted; a name is found just if it was
inserted, with its last section; and the walk from the first section to the next comes to every name
once, in ascending order, and ends. -/
theorem section_table_exact {balance : BinaryTree (Bytes × Section) → BinaryTree (Bytes × Section)}
    (hbalance : SearchTree.KeepsOrder balance) (is : List (Bytes × Section)) :
    let p : Program := Table.empty.insertAll is
    let inserted := is.map Prod.fst
    ∃ t, SectionTree.insertAll balance is = .ok t ∧
      (t.count = p.size ∧ p.size = inserted.dedup.length) ∧
      (∀ name, t.find? name = p.find? name ∧ (p.find? name = none ↔ name ∉ inserted) ∧
        ∀ s, p.find? name = some s ↔ Table.LastOf is name s) ∧
      (p.names.Pairwise (· < ·) ∧ ∀ name, name ∈ p.names ↔ name ∈ inserted) ∧
      Visits p.next? p.first? p.names ∧ Visits t.next? t.first? p.names := by
  intro p inserted
  obtain ⟨t, ht, hholds⟩ := SectionTree.insertAll_holds hbalance is
  have hdefines := Table.defines_insertAll_empty is
  refine ⟨t, ht, ⟨hholds.count, Table.size_insertAll_empty is⟩, ?_, ?_, ?_, ?_⟩
  · intro name
    refine ⟨hholds.find?_eq name, ?_, Table.find?_insertAll_empty is name⟩
    rw [← hdefines name, Table.Defines, Option.isSome_iff_ne_none, Decidable.not_not]
  · exact ⟨p.names_ascend, fun name => Table.mem_names_iff.trans (hdefines name)⟩
  · exact p.visits_names
  · exact hholds.visits_names

namespace SearchTree

variable {α : Type}

/-- Lifts the left child to the root; one that leans to the right is straightened first. -/
def liftLeft (a : α) (r : BinaryTree α) : BinaryTree α → BinaryTree α
  | .nil => .node a .nil r
  | .node b ll .nil => .node b ll (.node a .nil r)
  | .node b ll (.node c m n) =>
    if ll.height < max m.height n.height + 1 then .node c (.node b ll m) (.node a n r)
    else .node b ll (.node a (.node c m n) r)

/-- Lifts the right child to the root; one that leans to the left is straightened first. -/
def liftRight (a : α) (l : BinaryTree α) : BinaryTree α → BinaryTree α
  | .nil => .node a l .nil
  | .node b .nil rr => .node b (.node a l .nil) rr
  | .node b (.node c m n) rr =>
    if rr.height < max m.height n.height + 1 then .node c (.node a l m) (.node b n rr)
    else .node b (.node a l (.node c m n)) rr

/-- Balancing by height: the child that is higher than its sibling by two is lifted. -/
def byHeight : BinaryTree α → BinaryTree α
  | .nil => .nil
  | .node a l r =>
    if r.height + 1 < l.height then liftLeft a r l
    else if l.height + 1 < r.height then liftRight a l r
    else .node a l r

theorem inorder_liftLeft (a : α) (l r : BinaryTree α) :
    inorder (liftLeft a r l) = inorder (.node a l r) := by
  fun_cases liftLeft a r l <;> simp [inorder]

theorem inorder_liftRight (a : α) (l r : BinaryTree α) :
    inorder (liftRight a l r) = inorder (.node a l r) := by
  fun_cases liftRight a l r <;> simp [inorder]

theorem byHeight_keepsOrder : KeepsOrder (byHeight (α := α)) := by
  intro t
  fun_cases byHeight t with
  | case1 => rfl
  | case2 => exact inorder_liftLeft ..
  | case3 => exact inorder_liftRight ..
  | case4 => rfl

end SearchTree

/-- Sections that make the tree turn once to the right and once to the left, and one that is
replaced. -/
def turning : List (Bytes × Section) :=
  [(ascii "m", ⟨1, []⟩), (ascii "k", ⟨4, []⟩), (ascii "a", ⟨7, []⟩), (ascii "x", ⟨10, []⟩),
    (ascii "z", ⟨13, []⟩), (ascii "k", ⟨16, [⟨17, ascii "exit"⟩]⟩)]

theorem section_table_exact_turning :
    SearchTree.KeepsOrder (SearchTree.byHeight (α := Bytes × Section)) ∧
    ∃ t, SectionTree.insertAll SearchTree.byHeight turning = .ok t ∧ t.count = 5 ∧
      t.find? (ascii "k") = some ⟨16, [⟨17, ascii "exit"⟩]⟩ ∧ t.find? (ascii "M") = none ∧
      Visits t.next? t.first? [ascii "a", ascii "k", ascii "m", ascii "x", ascii "z"] := by
  have hbalance := SearchTree.byHeight_keepsOrder (α := Bytes × Section)
  obtain ⟨t, ht, ⟨hcount, -⟩, hfind, -, -, hvisits⟩ := section_table_exact hbalance turning
  have hsize : (Table.empty.insertAll turning).size = 5 := by decide +kernel
  have hfound : (Table.empty.insertAll turning).find? (ascii "k") =
      some ⟨16, [⟨17, ascii "exit"⟩]⟩ := by decide +kernel
  have hmissing : (Table.empty.insertAll turning).find? (ascii "M") = none := by decide +kernel
  have hnames : (Table.empty.insertAll turning).names =
      [ascii "a", ascii "k", ascii "m", ascii "x", ascii "z"] := by decide +kernel
  refine ⟨hbalance, t, ht, hcount.trans hsize, (hfind _).1.trans hfound,
    (hfind _).1.trans hmissing, ?_⟩
  rw [← hnames]
  exact hvisits

end SectScript
