import SectScript.Proofs.Loading.Location

/-!
# The lines that loading executes

Loading comes to a line just if it executes it: an assignment outside all sections, where the
dialect lets it stand. Such lines are visits like those of a run; they lead from the state before
loading to the one after it, and all other lines of the source leave the state alone.
-/

namespace SectScript

namespace Loading

/-- The line is executed on the spot. -/
def Executes (setup : Setup) (l : SourceLine) (p : Progress) : Prop :=
  l.mark = .code ∧ p.pending.isNone = true ∧ setup.dialect = .clarity ∧
    isAssignment l.text = true

instance (setup : Setup) (l : SourceLine) (p : Progress) : Decidable (Executes setup l p) :=
  inferInstanceAs (Decidable (_ ∧ _))

def scanVisits (setup : Setup) : List SourceLine → Progress → State → List Visit
  | [], _, _ => []
  | l :: ls, p, st =>
    (if Executes setup l p then [⟨[], l, st, (Machine.enter setup [] l st).2⟩] else []) ++
      match line setup l p st with
      | (.ok p, st) => scanVisits setup ls p st
      | (.error _, _) => []

/-- The lines that loading a source executes, in order. -/
def visits (setup : Setup) (source : Bytes) (st : State) : List Visit :=
  scanVisits setup (sourceLines source) {} st

theorem load_eq_scan (setup : Setup) (source : Bytes) (st : State) :
    load setup source st =
      match scan setup (sourceLines source) {} st with
      | (.error f, st) => (.error f, st)
      | (.ok p, st) => (finish setup.dialect p, st) := by
  have hlines : lines setup 1 (Bytes.pieces 0x0A source) {} st =
      scan setup (sourceLines source) {} st := lines_eq_scan ..
  rcases hscan : scan setup (sourceLines source) {} st with ⟨f | p, after⟩ <;>
    simp only [load, hlines, hscan]

theorem line_of_executes {setup : Setup} {l : SourceLine} {p : Progress}
    (h : Executes setup l p) (htrim : Bytes.trim l.text = l.text) (st : State) :
    line setup l p st =
      ((Machine.enter setup [] l st).1.map fun _ => p, (Machine.enter setup [] l st).2) := by
  obtain ⟨hmark, hnone, hd, ha⟩ := h
  rw [line_eq, hmark, Option.isNone_iff_eq_none.mp hnone]
  dsimp only
  rw [if_pos ⟨hd, ha⟩, Machine.runLine_eq]
  rcases henter : Machine.enter setup [] l st with ⟨f | _ | name, after⟩
  · rfl
  · rfl
  · exact absurd (by rw [henter]) (Machine.enter_assignment_ne_call htrim ha st name)

/-- A line that is not executed has the same result in every state, and leaves it alone. -/
theorem line_of_not_executes {setup : Setup} {l : SourceLine} {p : Progress}
    (h : ¬ Executes setup l p) : ∃ r, ∀ st, line setup l p st = (r, st) := by
  simp only [line_eq]
  cases hmark : l.mark with
  | opening name =>
    dsimp only
    split
    · exact ⟨_, fun _ => rfl⟩
    · exact ⟨_, fun _ => rfl⟩
  | closing => cases p.pending <;> exact ⟨_, fun _ => rfl⟩
  | code =>
    cases hp : p.pending with
    | some s => exact ⟨_, fun _ => rfl⟩
    | none =>
      have hno : ¬ (setup.dialect = .clarity ∧ isAssignment l.text = true) :=
        fun hyes => h ⟨hmark, by rw [hp]; rfl, hyes⟩
      simp only [if_neg hno]
      exact ⟨_, fun _ => rfl⟩

theorem scanVisits_leads (setup : Setup) {ls : List SourceLine}
    (htrim : ∀ l ∈ ls, Bytes.trim l.text = l.text) (p : Progress) (st : State) :
    Leads (scanVisits setup ls p st) st (scan setup ls p st).2 := by
  induction ls generalizing p st with
  | nil => exact rfl
  | cons l ls ih =>
    obtain ⟨hl, hls⟩ := List.forall_mem_cons.mp htrim
    have hrest : Leads (match line setup l p st with
        | (.ok p, st) => scanVisits setup ls p st
        | (.error _, _) => []) (line setup l p st).2 (scan setup (l :: ls) p st).2 := by
      rw [scan]
      rcases line setup l p st with ⟨f | q, after⟩
      · exact rfl
      · exact ih hls q after
    rw [scanVisits]
    split
    case isTrue h =>
      have hstate : (line setup l p st).2 = (Machine.enter setup [] l st).2 := by
        rw [line_of_executes h hl]
      exact ⟨rfl, hstate ▸ hrest⟩
    case isFalse h =>
      obtain ⟨r, hline⟩ := line_of_not_executes h
      rw [hline st] at hrest
      rw [List.nil_append, hline st]
      exact hrest

theorem mem_scanVisits {setup : Setup} {ls : List SourceLine} {p : Progress} {st : State}
    {v : Visit} (h : v ∈ scanVisits setup ls p st) :
    v.sect = [] ∧ v.line ∈ ls ∧ isAssignment v.line.text = true ∧
      v.after = (Machine.enter setup v.sect v.line v.before).2 := by
  induction ls generalizing p st with
  | nil => cases h
  | cons l ls ih =>
    rw [scanVisits] at h
    rcases List.mem_append.mp h with h | h
    · split at h
      case isTrue hexec =>
        obtain rfl := List.mem_singleton.mp h
        obtain ⟨-, -, -, hassigns⟩ := hexec
        exact ⟨rfl, List.mem_cons_self, hassigns, rfl⟩
      case isFalse => cases h
    · split at h
      · obtain ⟨hsect, hline, hv⟩ := ih h
        exact ⟨hsect, List.mem_cons_of_mem _ hline, hv⟩
      · cases h

/-! ## Whole sources -/

theorem trim_of_mem_sourceLines {source : Bytes} :
    ∀ l ∈ sourceLines source, Bytes.trim l.text = l.text :=
  fun _ hl => trim_of_lineOf (mem_sourceLines hl)

theorem visits_leads (setup : Setup) (source : Bytes) (st : State) :
    Leads (visits setup source st) st (load setup source st).2 := by
  have h := scanVisits_leads setup (@trim_of_mem_sourceLines source) {} st
  rw [load_eq_scan]
  rcases hscan : scan setup (sourceLines source) {} st with ⟨f | p, after⟩ <;> rw [hscan] at h
  · exact h
  · exact h

theorem visits_after (setup : Setup) (source : Bytes) (st : State) :
    ∀ v ∈ visits setup source st, v.after = (Machine.enter setup v.sect v.line v.before).2 := by
  intro v hv
  obtain ⟨-, -, -, hafter⟩ := mem_scanVisits hv
  exact hafter

end Loading

end SectScript
