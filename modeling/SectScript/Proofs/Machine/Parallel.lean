import SectScript.Proofs.Machine.Visit
import Mathlib.Data.List.Forall2

/-!
# Machines side by side

Two machines go through lines that correspond, each in a section of its own. If corresponding lines
do the same up to a call, in states that a relation `R` joins, then so do lists of lines, sections
and whole runs. Faults are compared by what a function `φ` leaves of them, and the first machine may
end in a fault that is let pass.
-/

namespace SectScript

namespace Machine

variable {α β : Type}

/-- What comes next unless there is a fault. -/
def andThen (o : Outcome α) (next : α → State → Outcome β) : Outcome β :=
  match o with
  | (.ok a, st) => next a st
  | (.error f, st) => (.error f, st)

/-- A line after its own work: the section it calls, if any. -/
def called (call : Bytes → State → Outcome Unit) : Callee → State → Outcome Unit
  | none, st => (.ok (), st)
  | some name, st => call name st

variable (setup : Setup) (call : Bytes → State → Outcome Unit) (sect : Bytes)

theorem perform_eq_andThen (line : Bytes) (st : State) :
    perform setup call sect line st = andThen (step setup sect line st) (called call) := by
  rw [perform]
  rcases step setup sect line st with ⟨_ | _ | name, after⟩ <;> rfl

theorem runLine_eq_andThen (l : SourceLine) (st : State) :
    runLine setup call sect l st =
      andThen (enter setup sect l st) (called fun name st => located l (call name st)) := by
  rw [runLine_eq]
  rcases enter setup sect l st with ⟨_ | _ | name, after⟩ <;> rfl

theorem runLines_cons (l : SourceLine) (ls : List SourceLine) (st : State) :
    runLines setup call sect (l :: ls) st =
      andThen (runLine setup call sect l st) fun _ => runLines setup call sect ls := by
  rw [runLines]
  rcases runLine setup call sect l st with ⟨f | _, after⟩ <;> rfl

theorem runLines_append (ls ls' : List SourceLine) (st : State) :
    runLines setup call sect (ls ++ ls') st =
      andThen (runLines setup call sect ls st) fun _ => runLines setup call sect ls' := by
  induction ls generalizing st with
  | nil => rfl
  | cons l ls ih =>
    rw [List.cons_append, runLines_cons, runLines_cons]
    rcases runLine setup call sect l st with ⟨f | _, after⟩
    · rfl
    · exact ih after

theorem runEntries_cons (fuel : Nat) (name : Bytes) (names : List Bytes) (st : State) :
    runEntries setup fuel (name :: names) st =
      match invoke setup fuel name st with
      | (.ok _, st) => runEntries setup fuel names st
      | (.error f, st) => if f = .exit then (.ok (), st) else (.error f, st) := by
  rw [runEntries]
  rcases invoke setup fuel name st with ⟨f | _, after⟩
  · cases f <;> rfl
  · rfl

end Machine

/-- The first outcome is a fault that is let pass, or both end alike, faults up to `φ`, in states
that `R` joins. -/
def Tallies {α : Type} (pass : Fault → Prop) (φ : Fault → Fault) (R : State → State → Prop)
    (o o' : Outcome α) : Prop :=
  (∃ f, o.1 = .error f ∧ pass f) ∨ o.1.mapError φ = o'.1.mapError φ ∧ R o.2 o'.2

namespace Tallies

variable {α β : Type} {pass : Fault → Prop} {φ : Fault → Fault} {R : State → State → Prop}

theorem of_state {r : Except Fault α} {st st' : State} (h : R st st') :
    Tallies pass φ R (r, st) (r, st') :=
  Or.inr ⟨rfl, h⟩

theorem of_error {f f' : Fault} {st st' : State} (hf : φ f = φ f') (h : R st st') :
    Tallies pass φ R ((.error f, st) : Outcome α) (.error f', st') :=
  Or.inr ⟨congrArg Except.error hf, h⟩

theorem of_pass {o o' : Outcome α} {f : Fault} (h : o.1 = .error f) (hf : pass f) :
    Tallies pass φ R o o' :=
  Or.inl ⟨f, h, hf⟩

theorem split {o o' : Outcome α} (h : Tallies pass φ R o o') :
    (∃ f st, o = (.error f, st) ∧ pass f) ∨
    (∃ f f' st st', o = (.error f, st) ∧ o' = (.error f', st') ∧ φ f = φ f' ∧ R st st') ∨
    ∃ a st st', o = (.ok a, st) ∧ o' = (.ok a, st') ∧ R st st' := by
  rcases o with ⟨f | a, st⟩
  · rcases h with ⟨g, hg, hpass⟩ | ⟨heq, hR⟩
    · obtain rfl := Except.error.inj hg
      exact Or.inl ⟨_, st, rfl, hpass⟩
    · rcases o' with ⟨f' | a', st'⟩
      · exact Or.inr (Or.inl ⟨f, f', st, st', rfl, rfl, Except.error.inj heq, hR⟩)
      · cases heq
  · rcases h with ⟨g, hg, _⟩ | ⟨heq, hR⟩
    · cases hg
    · rcases o' with ⟨f' | a', st'⟩
      · cases heq
      · obtain rfl := Except.ok.inj heq
        exact Or.inr (Or.inr ⟨_, st, st', rfl, rfl, hR⟩)

theorem andThen {o o' : Outcome α} (h : Tallies pass φ R o o') {next next' : α → State → Outcome β}
    (hnext : ∀ a {st st'}, R st st' → Tallies pass φ R (next a st) (next' a st')) :
    Tallies pass φ R (Machine.andThen o next) (Machine.andThen o' next') := by
  rcases h.split with ⟨f, st, rfl, hf⟩ | ⟨f, f', st, st', rfl, rfl, hf, hR⟩ |
    ⟨a, st, st', rfl, rfl, hR⟩
  · exact .of_pass rfl hf
  · exact .of_error hf hR
  · exact hnext a hR

theorem called {call call' : Bytes → State → Outcome Unit}
    (hcall : ∀ name {st st'}, R st st' → Tallies pass φ R (call name st) (call' name st'))
    (callee : Machine.Callee) {st st' : State} (hR : R st st') :
    Tallies pass φ R (Machine.called call callee st) (Machine.called call' callee st') := by
  cases callee with
  | none => exact .of_state hR
  | some name => exact hcall name hR

/-- Entry sections that tally one by one tally together, if `exit` is told from all else. -/
theorem runEntries {setup setup' : Setup} {fuel fuel' : Nat} (hexit : ¬ pass .exit)
    (hφ : ∀ {f f'}, φ f = φ f' → f = .exit → f' = .exit)
    (hinvoke : ∀ name {st st'}, R st st' → Tallies pass φ R (Machine.invoke setup fuel name st)
      (Machine.invoke setup' fuel' name st')) (names : List Bytes) {st st' : State}
    (hR : R st st') :
    Tallies pass φ R (Machine.runEntries setup fuel names st)
      (Machine.runEntries setup' fuel' names st') := by
  induction names generalizing st st' with
  | nil => exact .of_state hR
  | cons name names ih =>
    rw [Machine.runEntries_cons, Machine.runEntries_cons]
    rcases (hinvoke name hR).split with ⟨f, after, ho, hf⟩ |
      ⟨f, f', after, after', ho, ho', hf, hafter⟩ | ⟨_, after, after', ho, ho', hafter⟩
    · have hne : f ≠ .exit := by
        rintro rfl
        exact hexit hf
      simp only [ho, if_neg hne]
      exact .of_pass rfl hf
    · simp only [ho, ho']
      by_cases hstop : f = .exit
      · simp only [if_pos hstop, if_pos (hφ hf hstop)]
        exact .of_state hafter
      · have hgo : f' ≠ .exit := fun hstop' => hstop (hφ hf.symm hstop')
        simp only [if_neg hstop, if_neg hgo]
        exact .of_error hf hafter
    · simp only [ho, ho']
      exact ih hafter

end Tallies

/-- Lines that `L` joins, met in `sect` by one machine and in `sect'` by the other, do the same up
to a call. -/
structure Parallel (pass : Fault → Prop) (φ : Fault → Fault) (R : State → State → Prop)
    (L : SourceLine → SourceLine → Prop) (setup setup' : Setup) (sect sect' : Bytes) : Prop where
  text : ∀ {l l'}, L l l' → l'.text = l.text
  interrupted : ∀ {l l'}, L l l' → φ (Machine.interruptedAt l) = φ (Machine.interruptedAt l')
  located : ∀ {l l'}, L l l' → ∀ {f f'}, φ f = φ f' → φ (f.locate l) = φ (f'.locate l')
  passes : ∀ {f}, pass f → ∀ l, pass (f.locate l)
  held : ∀ {st st'}, R st st' → st'.poll.interrupted = st.poll.interrupted
  stopped : ∀ {st st'}, R st st' →
    R { st.poll with interrupted := false } { st'.poll with interrupted := false }
  counted : ∀ {st st'}, R st st' → ∀ {l l'}, L l l' →
    R (Machine.counted setup sect l st) (Machine.counted setup' sect' l' st')
  step : ∀ {st st'}, R st st' → ∀ line,
    Tallies pass φ R (Machine.step setup sect line st) (Machine.step setup' sect' line st')

namespace Parallel

variable {pass : Fault → Prop} {φ : Fault → Fault} {R : State → State → Prop}
  {L : SourceLine → SourceLine → Prop} {setup setup' : Setup}

section Lines

variable {sect sect' : Bytes} (h : Parallel pass φ R L setup setup' sect sect')
include h

theorem tallies_located {α : Type} {o o' : Outcome α} (ho : Tallies pass φ R o o')
    {l l' : SourceLine} (hl : L l l') :
    Tallies pass φ R (Machine.located l o) (Machine.located l' o') := by
  rcases ho.split with ⟨f, st, rfl, hf⟩ | ⟨f, f', st, st', rfl, rfl, hf, hR⟩ |
    ⟨a, st, st', rfl, rfl, hR⟩
  · exact .of_pass rfl (h.passes hf l)
  · exact .of_error (h.located hl hf) hR
  · exact .of_state hR

theorem enter {l l' : SourceLine} (hl : L l l') {st st' : State} (hR : R st st') :
    Tallies pass φ R (Machine.enter setup sect l st) (Machine.enter setup' sect' l' st') := by
  rw [Machine.enter, Machine.enter, h.held hR, h.text hl]
  split
  · exact .of_error (h.interrupted hl) (h.stopped hR)
  · exact h.tallies_located (h.step (h.counted hR hl) l.text) hl

section Calls

variable {call call' : Bytes → State → Outcome Unit}
  (hcall : ∀ name {st st'}, R st st' → Tallies pass φ R (call name st) (call' name st'))
include hcall

theorem perform (line : Bytes) {st st' : State} (hR : R st st') :
    Tallies pass φ R (Machine.perform setup call sect line st)
      (Machine.perform setup' call' sect' line st') := by
  rw [Machine.perform_eq_andThen, Machine.perform_eq_andThen]
  exact (h.step hR line).andThen fun callee _ _ => Tallies.called hcall callee

theorem runLine {l l' : SourceLine} (hl : L l l') {st st' : State} (hR : R st st') :
    Tallies pass φ R (Machine.runLine setup call sect l st)
      (Machine.runLine setup' call' sect' l' st') := by
  rw [Machine.runLine_eq_andThen, Machine.runLine_eq_andThen]
  refine (h.enter hl hR).andThen fun callee _ _ => Tallies.called ?_ callee
  intro name st st' hR
  exact h.tallies_located (hcall name hR) hl

theorem runLines {ls ls' : List SourceLine} (hls : List.Forall₂ L ls ls') {st st' : State}
    (hR : R st st') :
    Tallies pass φ R (Machine.runLines setup call sect ls st)
      (Machine.runLines setup' call' sect' ls' st') := by
  induction hls generalizing st st' with
  | nil => exact .of_state hR
  | cons hl _ ih =>
    rw [Machine.runLines_cons, Machine.runLines_cons]
    exact (h.runLine hcall hl hR).andThen fun _ _ _ => ih

end Calls

end Lines

/-! ## Sections and runs -/

/-- The programs have the same sections, with lines that `L` joins. -/
def Programs (L : SourceLine → SourceLine → Prop) (p p' : Program) : Prop :=
  ∀ name, Option.Rel (fun s s' => List.Forall₂ L s.body s'.body) (p.find? name) (p'.find? name)

theorem Programs.refl (hL : ∀ l, L l l) (p : Program) : Programs L p p := by
  intro name
  cases p.find? name with
  | none => exact .none
  | some s => exact .some (List.forall₂_same.mpr fun l _ => hL l)

variable (h : ∀ sect, Parallel pass φ R L setup setup' sect sect)
include h

/-- The second machine may be given more fuel if the first may run out of it. -/
theorem invoke (hp : Option.Rel (Programs L) setup.program setup'.program) {fuel fuel' : Nat}
    (hfuel : fuel' = fuel ∨ fuel ≤ fuel' ∧ pass .unfinished) (name : Bytes) {st st' : State}
    (hR : R st st') :
    Tallies pass φ R (Machine.invoke setup fuel name st)
      (Machine.invoke setup' fuel' name st') := by
  induction fuel generalizing fuel' name st st' with
  | zero =>
    rcases hfuel with rfl | ⟨_, hpass⟩
    · exact .of_state hR
    · exact .of_pass rfl hpass
  | succ fuel ih =>
    obtain ⟨fuel', rfl⟩ : ∃ n, fuel' = n + 1 := ⟨fuel' - 1, by omega⟩
    have hfuel : fuel' = fuel ∨ fuel ≤ fuel' ∧ pass .unfinished :=
      hfuel.imp (by omega) (And.imp_left (by omega))
    rw [Machine.invoke, Machine.invoke]
    generalize setup.program = program, setup'.program = program' at hp
    cases hp with
    | none => exact .of_state hR
    | some hsections =>
      dsimp only
      generalize hs : Table.find? _ name = s, hs' : Table.find? _ name = s'
      have hsection := hsections name
      rw [hs, hs'] at hsection
      cases hsection with
      | none => exact .of_state hR
      | some hbodies => exact (h name).runLines (fun name _ _ => ih hfuel name) hbodies hR

/-- Whole tasks tally if sections do, whatever makes these do so. -/
theorem outcome_of_invoke {fuel fuel' : Nat}
    (hinvoke : ∀ name {st st'}, R st st' → Tallies pass φ R (Machine.invoke setup fuel name st)
      (Machine.invoke setup' fuel' name st'))
    (hsome : setup'.program.isSome = setup.program.isSome)
    (hentries : setup'.dialect.entrySections = setup.dialect.entrySections)
    (hexit : ¬ pass .exit) (hφ : ∀ {f f'}, φ f = φ f' → f = .exit → f' = .exit)
    (task : Task) {st st' : State} (hR : R st st') :
    Tallies pass φ R (task.outcome setup fuel st) (task.outcome setup' fuel' st') := by
  cases task with
  | program =>
    have hrun := Tallies.runEntries hexit hφ hinvoke setup.dialect.entrySections hR
    dsimp only [Task.outcome, Machine.run]
    rw [hentries]
    cases hp : setup.program with
    | none =>
      have hp' : setup'.program = none := by simpa [hp] using hsome
      rw [hp']
      exact .of_state hR
    | some p =>
      obtain ⟨p', hp'⟩ : ∃ p', setup'.program = some p' := by
        simpa [hp, Option.isSome_iff_exists] using hsome
      rw [hp']
      exact hrun
  | block name => exact hinvoke name hR
  | statement sect line => exact (h sect).perform hinvoke line hR

end Parallel

end SectScript
