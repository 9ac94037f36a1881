import SectScript.Proofs.Machine.Location

/-!
# Invariants of a run

What holds of the state and of the faults of single lines holds of sections and whole runs. A
section is held to it only if the sections that its lines call are; so the rule serves where all
sections keep an invariant and where only those do that a call can lead to.
-/

namespace SectScript

/-- The outcome leaves the state in `I`, and a fault that it ends in is one of `P`. -/
structure Keeps {α : Type} (I : State → Prop) (P : Fault → Prop) (o : Outcome α) : Prop where
  state : I o.2
  fault : ∀ f, o.1 = .error f → P f

/-- Single lines keep `I` and fail with faults of `P`. -/
structure Invariant (I : State → Prop) (P : Fault → Prop) (setup : Setup) : Prop where
  step : ∀ {st}, I st → ∀ sect line, Keeps I P (Machine.step setup sect line st)
  stopped : ∀ {st}, I st → I { st.poll with interrupted := false }
  counted : ∀ {st}, I st → ∀ sect l, I (Machine.counted setup sect l st)
  interrupted : ∀ l, P (Machine.interruptedAt l)
  located : ∀ {f}, P f → ∀ l, P (f.locate l)

section Keeps

variable {α : Type} {I : State → Prop} {P : Fault → Prop}

theorem Keeps.of_ok {a : α} {st : State} (h : I st) : Keeps I P (.ok a, st) :=
  ⟨h, fun f hf => by cases hf⟩

theorem Keeps.of_error {f : Fault} {st : State} (h : I st) (hf : P f) :
    Keeps I P ((.error f, st) : Outcome α) := by
  refine ⟨h, fun g hg => ?_⟩
  obtain rfl := Except.error.inj hg
  exact hf

theorem Keeps.located (hP : ∀ {f}, P f → ∀ l, P (f.locate l)) {o : Outcome α} (h : Keeps I P o)
    (l : SourceLine) : Keeps I P (Machine.located l o) := by
  rcases o with ⟨f | a, st⟩
  · exact .of_error h.state (hP (h.fault f rfl) l)
  · exact .of_ok h.state

theorem Keeps.runEntries {setup : Setup} {fuel : Nat} {names : List Bytes}
    (hinvoke : ∀ name ∈ names, ∀ st, I st → Keeps I P (Machine.invoke setup fuel name st))
    {st : State} (hI : I st) : Keeps I P (Machine.runEntries setup fuel names st) := by
  induction names generalizing st with
  | nil => exact .of_ok hI
  | cons name names ih =>
    have hfirst := hinvoke name List.mem_cons_self st hI
    rw [Machine.runEntries]
    rcases hrun : Machine.invoke setup fuel name st with ⟨f | _, after⟩ <;> rw [hrun] at hfirst
    · cases f with
      | exit => exact .of_ok hfirst.state
      | error _ | refused | internal _ | crash | unfinished =>
        exact .of_error hfirst.state (hfirst.fault _ rfl)
    · exact ih (fun name hname => hinvoke name (List.mem_cons_of_mem _ hname)) hfirst.state

end Keeps

namespace Invariant

variable {I : State → Prop} {P : Fault → Prop} {setup : Setup} (h : Invariant I P setup)
include h

theorem enter {st : State} (hI : I st) (sect : Bytes) (l : SourceLine) :
    Keeps I P (Machine.enter setup sect l st) := by
  rw [Machine.enter]
  split
  · exact .of_error (h.stopped hI) (h.interrupted l)
  · exact (h.step (h.counted hI sect l) sect l.text).located h.located l

section Calls

variable {call : Bytes → State → Outcome Unit}

theorem perform {sect line : Bytes}
    (hcall : ∀ name, CallsOut name line → ∀ st, I st → Keeps I P (call name st)) {st : State}
    (hI : I st) : Keeps I P (Machine.perform setup call sect line st) := by
  have hstep := h.step hI sect line
  have steps := Machine.step_steps setup sect line st
  rw [Machine.perform]
  rcases hrun : Machine.step setup sect line st with ⟨f | _ | name, after⟩ <;>
    rw [hrun] at hstep steps
  · exact .of_error hstep.state (hstep.fault f rfl)
  · exact .of_ok hstep.state
  · exact hcall name (steps.callsOut rfl) after hstep.state

theorem runLine {l : SourceLine}
    (hcall : ∀ name, CallsOut name l.text → ∀ st, I st → Keeps I P (call name st)) (sect : Bytes)
    {st : State} (hI : I st) : Keeps I P (Machine.runLine setup call sect l st) := by
  have henter := h.enter hI sect l
  rw [Machine.runLine_eq]
  rcases hrun : Machine.enter setup sect l st with ⟨f | _ | name, after⟩ <;> rw [hrun] at henter
  · exact .of_error henter.state (henter.fault f rfl)
  · exact .of_ok henter.state
  · exact (hcall name (Machine.enter_callsOut hrun) after henter.state).located h.located l

theorem runLines {ls : List SourceLine}
    (hcall : ∀ l ∈ ls, ∀ name, CallsOut name l.text → ∀ st, I st → Keeps I P (call name st))
    (sect : Bytes) {st : State} (hI : I st) :
    Keeps I P (Machine.runLines setup call sect ls st) := by
  induction ls generalizing st with
  | nil => exact .of_ok hI
  | cons l ls ih =>
    have hline := h.runLine (hcall l List.mem_cons_self) sect hI
    rw [Machine.runLines]
    rcases hrun : Machine.runLine setup call sect l st with ⟨f | _, after⟩ <;> rw [hrun] at hline
    · exact .of_error hline.state (hline.fault f rfl)
    · exact ih (fun l hl => hcall l (List.mem_cons_of_mem _ hl)) hline.state

end Calls

section Sections

variable {p : Program} (hp : setup.program = some p)
  (hmissing : ∀ name, P (.ofCause (.sectionNotFound name))) (hdeep : P .unfinished)
include hp hmissing hdeep

theorem invoke (fuel : Nat) (name : Bytes) {st : State} (hI : I st) :
    Keeps I P (Machine.invoke setup fuel name st) := by
  induction fuel generalizing name st with
  | zero => exact .of_error hI hdeep
  | succ fuel ih =>
    rw [Machine.invoke, hp]
    dsimp only
    cases p.find? name with
    | none => exact .of_error hI (hmissing name)
    | some s => exact h.runLines (fun _ _ name _ _ => ih name) name hI

theorem outcome (fuel : Nat) (task : Task) {st : State} (hI : I st) :
    Keeps I P (task.outcome setup fuel st) := by
  have hinvoke : ∀ name st, I st → Keeps I P (Machine.invoke setup fuel name st) :=
    fun name _ => h.invoke hp hmissing hdeep fuel name
  cases task with
  | program =>
    dsimp only [Task.outcome, Machine.run]
    rw [hp]
    exact Keeps.runEntries (fun name _ => hinvoke name) hI
  | block name => exact hinvoke name st hI
  | statement sect line => exact h.perform (fun name _ => hinvoke name) hI

end Sections

end Invariant

end SectScript
