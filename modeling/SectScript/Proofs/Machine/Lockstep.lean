import SectScript.Proofs.Machine.Parallel

/-!
# Two machines in lockstep

Two machines with the same program, started in states that a relation `R` joins, keep step: they end
alike in states that `R` joins again, or the first ends in a fault that is let pass. What has to be
shown for that concerns the single actions of a line; lines, sections and whole runs follow.
-/

namespace SectScript

/-- The first outcome is a fault that is let pass, or both end alike in states that `R` joins. -/
def Matches {α : Type} (pass : Fault → Prop) (R : State → State → Prop) (o o' : Outcome α) : Prop :=
  (∃ f, o.1 = .error f ∧ pass f) ∨ o.1 = o'.1 ∧ R o.2 o'.2

/-- What a machine does in a state, the other does in a state that `R` joins to it. -/
structure Lockstep (pass : Fault → Prop) (R : State → State → Prop) (setup setup' : Setup) :
    Prop where
  program : setup'.program = setup.program
  located : ∀ {f}, pass f → ∀ l, pass (f.locate l)
  held : ∀ {st st'}, R st st' → st'.poll.interrupted = st.poll.interrupted
  stopped : ∀ {st st'}, R st st' →
    R { st.poll with interrupted := false } { st'.poll with interrupted := false }
  counted : ∀ {st st'}, R st st' → ∀ sect l,
    R (Machine.counted setup sect l st) (Machine.counted setup' sect l st')
  heard : ∀ {st st'}, R st st' → ∀ form line,
    R (st.heard setup form line) (st'.heard setup' form line)
  print : ∀ {st st'}, R st st' → ∀ arg,
    Matches pass R (Machine.print arg st) (Machine.print arg st')
  assign : ∀ {st st'}, R st st' → ∀ sect name expr,
    Matches pass R (Machine.assign setup sect name expr st)
      (Machine.assign setup' sect name expr st')
  holds : ∀ {st st'}, R st st' → ∀ n, Condition.holds st'.vars n = Condition.holds st.vars n

section Matches

variable {α : Type} {pass : Fault → Prop} {R : State → State → Prop}

theorem Matches.of_state {r : Except Fault α} {st st' : State} (h : R st st') :
    Matches pass R (r, st) (r, st') :=
  Or.inr ⟨rfl, h⟩

theorem Matches.of_pass {o o' : Outcome α} {f : Fault} (h : o.1 = .error f) (hf : pass f) :
    Matches pass R o o' :=
  Or.inl ⟨f, h, hf⟩

theorem Matches.split {o o' : Outcome α} (h : Matches pass R o o') :
    (∃ f st, o = (.error f, st) ∧ pass f) ∨
      ∃ r st st', o = (r, st) ∧ o' = (r, st') ∧ R st st' := by
  rcases h with ⟨f, hf, hpass⟩ | ⟨heq, hR⟩
  · exact Or.inl ⟨f, o.2, by rw [← hf], hpass⟩
  · exact Or.inr ⟨o.1, o.2, o'.2, rfl, by rw [heq], hR⟩

theorem Matches.ended {o o' : Outcome Unit} (h : Matches pass R o o') :
    Matches pass R (Machine.ended o) (Machine.ended o') := by
  rcases h with ⟨f, hf, hpass⟩ | ⟨heq, hR⟩
  · exact .of_pass (by rw [Machine.ended, hf]; rfl) hpass
  · exact Or.inr ⟨by rw [Machine.ended, Machine.ended, heq], hR⟩

theorem matches_iff {o o' : Outcome α} : Matches pass R o o' ↔ Tallies pass id R o o' := by
  have hid : ∀ r : Except Fault α, r.mapError id = r := by
    intro r
    cases r <;> rfl
  rw [Matches, Tallies, hid, hid]

/-- Outcomes that match without exception tally in every respect. -/
theorem Matches.tallies {φ : Fault → Fault} {o o' : Outcome α}
    (h : Matches (fun _ => False) R o o') : Tallies pass φ R o o' := by
  rcases h with ⟨_, _, hfalse⟩ | ⟨heq, hR⟩
  · exact hfalse.elim
  · exact Or.inr ⟨congrArg (Except.mapError φ) heq, hR⟩

end Matches

namespace Lockstep

/-- Two machines that differ only in how they assign are in lockstep from equal states on. -/
theorem of_assign {pass : Fault → Prop} {setup setup' : Setup}
    (hprogram : setup'.program = setup.program) (hwatch : setup'.watch = setup.watch)
    (hlocated : ∀ {f}, pass f → ∀ l, pass (f.locate l))
    (hassign : ∀ sect name expr st, Matches pass Eq (Machine.assign setup sect name expr st)
      (Machine.assign setup' sect name expr st)) : Lockstep pass Eq setup setup' where
  program := hprogram
  located := hlocated
  held := by rintro st _ rfl; rfl
  stopped := by rintro st _ rfl; rfl
  counted := by rintro st _ rfl sect l; rw [Machine.counted, Machine.counted, hwatch]
  heard := by rintro st _ rfl form line; rw [State.heard, State.heard, hwatch]
  print := by rintro st _ rfl arg; exact .of_state rfl
  assign := by rintro st _ rfl sect name expr; exact hassign sect name expr st
  holds := by rintro st _ rfl n; rfl

variable {pass : Fault → Prop} {R : State → State → Prop} {setup setup' : Setup}
  (h : Lockstep pass R setup setup')
include h

theorem steps {sect line : Bytes} {st st' : State} {o : Outcome Machine.Callee}
    (hs : Machine.Steps setup sect line st o) (hR : R st st') :
    ∃ o', Machine.Steps setup' sect line st' o' ∧ Matches pass R o o' := by
  induction hs generalizing st' with
  | unread hline => exact ⟨_, .unread hline, .of_state hR⟩
  | comment hon => exact ⟨_, .comment hon, .of_state (h.heard hR _ _)⟩
  | printVar hon => exact ⟨_, .printVar hon, (h.print (h.heard hR _ _) _).ended⟩
  | printText hon => exact ⟨_, .printText hon, (h.print (h.heard hR _ _) _).ended⟩
  | assign hon => exact ⟨_, .assign hon, (h.assign (h.heard hR _ _) sect _ _).ended⟩
  | call hon => exact ⟨_, .call hon, .of_state (h.heard hR _ _)⟩
  | exit hon => exact ⟨_, .exit hon, .of_state (h.heard hR _ _)⟩
  | fault hon hf => exact ⟨_, .fault hon ((h.holds hR _).trans hf), .of_state (h.heard hR _ _)⟩
  | skip hon hf => exact ⟨_, .skip hon ((h.holds hR _).trans hf), .of_state (h.heard hR _ _)⟩
  | take hon ht _ ih =>
    obtain ⟨o', steps, hmatch⟩ := ih (h.heard hR _ _)
    exact ⟨o', .take hon ((h.holds hR _).trans ht) steps, hmatch⟩

theorem step (sect line : Bytes) {st st' : State} (hR : R st st') :
    Matches pass R (Machine.step setup sect line st) (Machine.step setup' sect line st') := by
  obtain ⟨o', steps, hmatch⟩ := h.steps (Machine.step_steps setup sect line st) hR
  rw [steps.step_eq]
  exact hmatch

/-- Machines in lockstep go side by side through the lines of one program. -/
theorem parallel (sect : Bytes) : Parallel pass id R Eq setup setup' sect sect where
  text := by rintro l _ rfl; rfl
  interrupted := by rintro l _ rfl; rfl
  located := by
    rintro l _ rfl f f' hf
    exact congrArg (Fault.locate l) hf
  passes := h.located
  held := h.held
  stopped := h.stopped
  counted := by
    rintro st st' hR l _ rfl
    exact h.counted hR sect l
  step hR line := matches_iff.mp (h.step sect line hR)

section Calls

variable {call call' : Bytes → State → Outcome Unit}
  (hcall : ∀ name {st st'}, R st st' → Matches pass R (call name st) (call' name st'))
include hcall

theorem perform (sect line : Bytes) {st st' : State} (hR : R st st') :
    Matches pass R (Machine.perform setup call sect line st)
      (Machine.perform setup' call' sect line st') :=
  matches_iff.mpr ((h.parallel sect).perform (fun name _ _ hR => matches_iff.mp (hcall name hR))
    line hR)

theorem runLine (sect : Bytes) (l : SourceLine) {st st' : State} (hR : R st st') :
    Matches pass R (Machine.runLine setup call sect l st)
      (Machine.runLine setup' call' sect l st') :=
  matches_iff.mpr ((h.parallel sect).runLine (fun name _ _ hR => matches_iff.mp (hcall name hR))
    rfl hR)

end Calls

/-- The second machine may be given more fuel if the first may run out of it. -/
theorem invoke {fuel fuel' : Nat} (hfuel : fuel' = fuel ∨ fuel ≤ fuel' ∧ pass .unfinished)
    (name : Bytes) {st st' : State} (hR : R st st') :
    Matches pass R (Machine.invoke setup fuel name st) (Machine.invoke setup' fuel' name st') := by
  have hp : Option.Rel (Parallel.Programs Eq) setup.program setup'.program := by
    rw [h.program]
    cases setup.program with
    | none => exact .none
    | some p => exact .some (.refl (fun _ => rfl) p)
  exact matches_iff.mpr (Parallel.invoke h.parallel hp hfuel name hR)

/-- A part of a program: the entry sections, which depend on the dialect, play no role. -/
theorem part {fuel fuel' : Nat} (hfuel : fuel' = fuel ∨ fuel ≤ fuel' ∧ pass .unfinished)
    {task : Task} (htask : task ≠ .program) {st st' : State} (hR : R st st') :
    Matches pass R (task.outcome setup fuel st) (task.outcome setup' fuel' st') := by
  cases task with
  | program => exact absurd rfl htask
  | block name => exact h.invoke hfuel name hR
  | statement sect line => exact h.perform (fun name _ _ => h.invoke hfuel name) sect line hR

theorem outcome (hentries : setup'.dialect.entrySections = setup.dialect.entrySections)
    (hexit : ¬ pass .exit) {fuel fuel' : Nat}
    (hfuel : fuel' = fuel ∨ fuel ≤ fuel' ∧ pass .unfinished) (task : Task) {st st' : State}
    (hR : R st st') :
    Matches pass R (task.outcome setup fuel st) (task.outcome setup' fuel' st') :=
  matches_iff.mpr (Parallel.outcome_of_invoke h.parallel
    (fun name _ _ hR => matches_iff.mp (h.invoke hfuel name hR)) (by rw [h.program]) hentries hexit
    (fun hf hexit => (hf : _ = _).symm.trans hexit) task hR)

end Lockstep

end SectScript
