import SectScript.Proofs.Machine.Location
import SectScript.Proofs.Machine.Unobserved

/-!
# Line numbers do not matter

Two programs that have the same statement texts section by section run alike, wherever their lines
stand in a source. An error carries the number of its line, and on its way out the only thing asked
of that number is whether it is zero. So errors are compared up to a change of numbers that keeps
zero, and what is left once a run has ended is that they agree in all but the number.
-/

namespace SectScript

namespace Fault

def renumber (change : Int → Int) : Fault → Fault
  | error e => error { e with lineNo := change e.lineNo }
  | f => f

/-- An error is left with the mere fact that it names a line. -/
def leveled : Fault → Fault := renumber fun n => if n = 0 then 0 else 1

/-- An error without the number of its line. -/
def unnumbered : Fault → Fault := renumber fun _ => 0

theorem unnumbered_leveled (f : Fault) : f.leveled.unnumbered = f.unnumbered := by
  cases f <;> rfl

theorem leveled_error_eq_iff {e e' : LangError} : leveled (.error e) = leveled (.error e') ↔
    e.cause = e'.cause ∧ (e.lineNo = 0 ↔ e'.lineNo = 0) ∧ e.line = e'.line := by
  have hnumbers : ((if e.lineNo = 0 then 0 else 1 : Int) = if e'.lineNo = 0 then 0 else 1) ↔
      (e.lineNo = 0 ↔ e'.lineNo = 0) := by
    by_cases h : e.lineNo = 0
    · by_cases h' : e'.lineNo = 0
      · simp [h, h']
      · simp [h, h']
    · by_cases h' : e'.lineNo = 0
      · simp [h, h']
      · simp [h, h']
  simp only [leveled, renumber, error.injEq, LangError.mk.injEq, hnumbers]

theorem leveled_eq_error {f : Fault} {e : LangError} (h : f.leveled = leveled (.error e)) :
    ∃ e', f = .error e' := by
  cases f with
  | error e' => exact ⟨e', rfl⟩
  | exit | refused | internal _ | crash | unfinished => cases h

end Fault

/-- Lines with the same text, both of them numbered. -/
structure SourceLine.SameText (l l' : SourceLine) : Prop where
  text : l.text = l'.text
  number : l.number ≠ 0
  number' : l'.number ≠ 0

/-- The innermost line wins on both sides. -/
theorem Fault.leveled_locate {l l' : SourceLine} (hl : l.SameText l') {f f' : Fault}
    (h : f.leveled = f'.leveled) : (f.locate l).leveled = (f'.locate l').leveled := by
  cases f with
  | error e =>
    obtain ⟨e', rfl⟩ := leveled_eq_error h.symm
    obtain ⟨hcause, hzero, hline⟩ := leveled_error_eq_iff.mp h
    by_cases he : e.lineNo = 0
    · have he' := hzero.mp he
      simp only [Fault.locate, if_pos he, if_pos he']
      refine leveled_error_eq_iff.mpr ⟨hcause, ?_, hl.text⟩
      simp [LangError.at, hl.number, hl.number']
    · have he' : ¬ e'.lineNo = 0 := fun h => he (hzero.mpr h)
      simp only [Fault.locate, if_neg he, if_neg he']
      exact h
  | exit | refused | internal _ | crash | unfinished =>
    have hf' : ∀ e, f' ≠ .error e := by
      rintro e rfl
      cases h
    cases f' with
    | error e => exact absurd rfl (hf' e)
    | exit | refused | internal _ | crash | unfinished => exact h

/-! ## Programs with the same texts -/

def Section.texts (s : Section) : List Bytes := s.body.map (·.text)

/-- The programs have the same sections, and these the same statement texts. -/
def Program.SameTexts (p p' : Program) : Prop :=
  ∀ name, (p.find? name).map Section.texts = (p'.find? name).map Section.texts

theorem forall₂_sameText {ls ls' : List SourceLine} (h : ls.map (·.text) = ls'.map (·.text))
    (hls : ∀ l ∈ ls, l.number ≠ 0) (hls' : ∀ l ∈ ls', l.number ≠ 0) :
    List.Forall₂ SourceLine.SameText ls ls' := by
  induction ls generalizing ls' with
  | nil =>
    obtain rfl : ls' = [] := by simpa using h.symm
    exact .nil
  | cons l ls ih =>
    cases ls' with
    | nil => simp at h
    | cons l' ls' =>
      obtain ⟨htext, hrest⟩ := List.cons.inj h
      have hfirst : l.SameText l' :=
        ⟨htext, hls l List.mem_cons_self, hls' l' List.mem_cons_self⟩
      exact .cons hfirst (ih hrest (fun x hx => hls x (List.mem_cons_of_mem _ hx))
        fun x hx => hls' x (List.mem_cons_of_mem _ hx))

theorem Program.SameTexts.programs {p p' : Program} (h : p.SameTexts p') (hnum : p.Numbered)
    (hnum' : p'.Numbered) : Parallel.Programs SourceLine.SameText p p' := by
  intro name
  have hname := h name
  have hlines := hnum name
  have hlines' := hnum' name
  cases hs : p.find? name with
  | none =>
    obtain hs' : p'.find? name = none := by simpa [hs] using hname.symm
    rw [hs']
    exact .none
  | some s =>
    obtain ⟨s', hs', htexts⟩ : ∃ s', p'.find? name = some s' ∧ s'.texts = s.texts := by
      simpa [hs] using hname.symm
    rw [hs']
    exact .some (forall₂_sameText htexts.symm (hlines s hs) (hlines' s' hs'))

theorem parallel_layout {setup setup' : Setup} (hdialect : setup'.dialect = setup.dialect)
    (sect : Bytes) :
    Parallel (fun _ => False) Fault.leveled (State.Unobserved Eq) SourceLine.SameText setup setup'
      sect sect where
  text h := h.text.symm
  interrupted {l l'} h := by
    refine Fault.leveled_error_eq_iff.mpr ⟨rfl, ?_, h.text⟩
    simp [LangError.at, h.number, h.number']
  located h _ _ hf := Fault.leveled_locate h hf
  passes := False.elim
  held h := h.poll.interrupted.symm
  stopped h := h.stopped
  counted h _ _ _ := h.counted setup setup' sect sect _ _
  step {st st'} h line := by
    -- a step does not look at the program, so the machines may be given the same one
    let shared : Setup := { setup' with program := setup.program }
    have hsame : shared.dialect = setup'.dialect := rfl
    have hprogram : Machine.step shared sect line st' = Machine.step setup' sect line st' :=
      Machine.step_elsewhere hsame rfl (Or.inl rfl) line st'
    have hlockstep : Lockstep (fun _ => False) (State.Unobserved Eq) setup shared :=
      lockstep_unobserved Input.echoes_eq hdialect rfl
    rw [← hprogram]
    exact (hlockstep.step sect line h).tallies

theorem Fault.exit_of_leveled {f f' : Fault} (h : f.leveled = f'.leveled) (hf : f = .exit) :
    f' = .exit := by
  subst hf
  cases f' with
  | exit => rfl
  | error _ | refused | internal _ | crash | unfinished => cases h

/-- Programs with the same texts run alike from the same state. -/
theorem Program.SameTexts.outcome {setup setup' : Setup} {p p' : Program}
    (hdialect : setup'.dialect = setup.dialect) (hp : setup.program = some p)
    (hp' : setup'.program = some p') (h : p.SameTexts p') (hnum : p.Numbered)
    (hnum' : p'.Numbered) (fuel : Nat) (task : Task) {st st' : State}
    (hst : st.Unobserved Eq st') :
    (task.outcome setup fuel st).1.mapError Fault.unnumbered =
        (task.outcome setup' fuel st').1.mapError Fault.unnumbered ∧
      (task.outcome setup fuel st).2.Unobserved Eq (task.outcome setup' fuel st').2 := by
  have hprograms : Option.Rel (Parallel.Programs SourceLine.SameText) setup.program
      setup'.program := by
    rw [hp, hp']
    exact .some (h.programs hnum hnum')
  have hsections : ∀ name {st st' : State}, st.Unobserved Eq st' →
      Tallies (fun _ => False) Fault.leveled (State.Unobserved Eq)
        (Machine.invoke setup fuel name st) (Machine.invoke setup' fuel name st') :=
    fun name _ _ => Parallel.invoke (parallel_layout hdialect) hprograms (Or.inl rfl) name
  have htask := Parallel.outcome_of_invoke (parallel_layout hdialect) hsections
    (by rw [hp, hp']; rfl) (by rw [hdialect]) id Fault.exit_of_leveled task hst
  rcases htask with ⟨_, _, hfalse⟩ | ⟨heq, hR⟩
  · exact hfalse.elim
  · have hlevel : ∀ r : Except Fault Unit,
        (r.mapError Fault.leveled).mapError Fault.unnumbered = r.mapError Fault.unnumbered := by
      intro r
      cases r with
      | ok _ => rfl
      | error f => exact congrArg Except.error f.unnumbered_leveled
    exact ⟨by rw [← hlevel, heq, hlevel], hR⟩

end SectScript
