import SectScript.Proofs.Machine.Definition
import SectScript.Proofs.Machine.Invariant
import SectScript.Proofs.Machine.Lockstep
import Mathlib.Data.Finset.Card
import Mathlib.Data.List.Dedup

/-!
# Programs that come to an end

The fuel of a run bounds how deeply calls nest. What has ended keeps its outcome when there is more
fuel, so a run comes to an end if it ends with some fuel. A line by itself always does: its
consequent is shorter than the line. A program ends if no chain of calls from an entry section comes
back to a section it has passed, because then calls nest no deeper than there are sections.
-/

namespace SectScript

/-! ## Call targets -/

/-- The section that a line calls, at once or in its consequent. The fuel exceeds the length. -/
def targetWith : (fuel : Nat) → Bytes → Option Bytes
  | 0, _ => none
  | fuel + 1, line =>
    match Statement.ofLine line with
    | .ok ⟨.call, _, [.leaf _ name]⟩ => some name
    | .ok ⟨.cond, _, [_, .leaf _ consequent]⟩ => targetWith fuel consequent
    | _ => none

def target? (line : Bytes) : Option Bytes := targetWith (line.length + 1) line

theorem targetWith_eq_some_iff {fuel : Nat} {line name : Bytes} (enough : line.length < fuel) :
    targetWith fuel line = some name ↔ CallsOut name line := by
  induction fuel generalizing line with
  | zero => omega
  | succ fuel ih =>
    constructor
    · intro h
      rw [targetWith] at h
      cases hline : Statement.ofLine line with
      | error c => simp [hline] at h
      | ok stmt =>
        obtain ⟨form, rfl, shorter⟩ := Statement.ofLine_form hline
        rw [hline] at h
        cases form with
        | call other =>
          obtain rfl := Option.some.inj h
          exact .here hline
        | cond rel left right consequent =>
          have hlt := shorter rel left right consequent rfl
          exact .inside hline ((ih (by omega)).mp h)
        | comment | printVar _ | printText _ | assign _ _ | exit => cases h
    · intro h
      cases h with
      | here hon =>
        rw [targetWith, hon]
        rfl
      | inside hon rest =>
        have hlt := hon.shorter
        rw [targetWith, hon]
        exact (ih (by omega)).mpr rest

theorem target?_eq_some_iff {line name : Bytes} : target? line = some name ↔ CallsOut name line :=
  targetWith_eq_some_iff (Nat.lt_succ_self _)

/-- All pairs of a section and a section that it calls. -/
def Program.callPairs (p : Program) : List (Bytes × Bytes) :=
  p.entries.flatMap fun e => e.2.body.filterMap fun l => (target? l.text).map fun t => (e.1, t)

theorem Program.Calls.mem_callPairs {p : Program} {s t : Bytes} (h : p.Calls s t) :
    (s, t) ∈ p.callPairs := by
  obtain ⟨sect, hs, l, hl, hcalls⟩ := h
  refine List.mem_flatMap.mpr ⟨_, Table.mem_entries_of_find? hs, List.mem_filterMap.mpr ⟨l, hl, ?_⟩⟩
  rw [target?_eq_some_iff.mpr hcalls]
  rfl

/-- No chain of calls that begins in `root` comes back to a section it has passed. -/
def Program.Forward (p : Program) (root : Bytes) : Prop :=
  ∀ s, Relation.ReflTransGen p.Calls root s → ¬ Relation.TransGen p.Calls s s

theorem Program.Forward.of_calls {p : Program} {s t : Bytes} (h : p.Forward s)
    (hcalls : p.Calls s t) : p.Forward t :=
  fun u hu => h u (hu.head hcalls)

/-- Calls that go down a ranking do not come back. -/
theorem Program.forward_of_rank {p : Program} (rank : Bytes → Nat)
    (h : ∀ e ∈ p.callPairs, rank e.2 < rank e.1) (root : Bytes) : p.Forward root := by
  intro s _ hcycle
  have hlt : ∀ {a b}, Relation.TransGen p.Calls a b → rank b < rank a := by
    intro a b hab
    induction hab with
    | single hcalls => exact h _ hcalls.mem_callPairs
    | tail _ hcalls ih => exact Nat.lt_trans (h _ hcalls.mem_callPairs) ih
  exact Nat.lt_irrefl _ (hlt hcycle)

/-! ## Fuel -/

theorem lockstep_self (setup : Setup) : Lockstep (· = .unfinished) Eq setup setup :=
  .of_assign rfl rfl (by rintro _ rfl l; rfl) fun _ _ _ _ => .of_state rfl

namespace Task

/-- More fuel does not change the outcome of what has ended. -/
theorem outcome_of_le {setup : Setup} {fuel fuel' : Nat} (hle : fuel ≤ fuel') {st : State}
    {task : Task} (h : (task.outcome setup fuel st).1 ≠ .error .unfinished) :
    task.outcome setup fuel' st = task.outcome setup fuel st := by
  rcases (lockstep_self setup).outcome rfl (by simp) (Or.inr ⟨hle, rfl⟩) task rfl with
    ⟨f, hf, rfl⟩ | ⟨hr, hst⟩
  · exact absurd hf h
  · exact Prod.ext hr.symm hst.symm

/-- With fuel for calls as deep as `depth` or more, the task ends, and always in the same way. -/
def EndsWithin (depth : Nat) (setup : Setup) (st : State) (task : Task) : Prop :=
  ∃ o : Outcome Unit, o.1 ≠ .error .unfinished ∧ ∀ fuel, depth ≤ fuel →
    task.outcome setup fuel st = o

theorem endsWithin_iff {depth : Nat} {setup : Setup} {st : State} {task : Task} :
    task.EndsWithin depth setup st ↔ (task.outcome setup depth st).1 ≠ .error .unfinished := by
  constructor
  · rintro ⟨o, ho, heq⟩
    rw [heq depth (Nat.le_refl _)]
    exact ho
  · intro h
    exact ⟨_, h, fun fuel hle => outcome_of_le hle h⟩

theorem EndsWithin.outcome_eq {a b : Nat} {setup : Setup} {st : State} {task : Task}
    (h : task.EndsWithin a setup st) (h' : task.EndsWithin b setup st) :
    task.outcome setup a st = task.outcome setup b st := by
  rw [endsWithin_iff] at h h'
  rcases Nat.le_total a b with hle | hle
  · exact (outcome_of_le hle h).symm
  · exact outcome_of_le hle h'

end Task

theorem Fault.Raised.ne_unfinished {i : Input} {f : Fault} (h : f.Raised i) : f ≠ .unfinished := by
  cases h <;> intro heq <;> cases heq

theorem invariant_finished (setup : Setup) :
    Invariant (fun _ => True) (· ≠ .unfinished) setup where
  step _ sect line :=
    ⟨trivial, fun _ hf => ((Machine.step_steps setup sect line _).raised hf).ne_unfinished⟩
  stopped _ := trivial
  counted _ _ _ := trivial
  interrupted l := by intro h; cases h
  located hf _ := Fault.locate_preserves (P := (· ≠ .unfinished)) (fun _ _ h => by cases h) hf

namespace Machine

/-- The sections on the way to `name` are passed, and each can be passed only once. -/
theorem invoke_finished {setup : Setup} {p : Program} (hp : setup.program = some p) {fuel : Nat}
    (passed : Finset Bytes) {name : Bytes}
    (hpassed : ∀ s ∈ passed, Relation.TransGen p.Calls s name) (hforward : p.Forward name)
    (enough : (p.names.toFinset \ passed).card < fuel) (st : State) :
    Keeps (fun _ => True) (· ≠ .unfinished) (invoke setup fuel name st) := by
  induction fuel generalizing passed name st with
  | zero => omega
  | succ fuel ih =>
    rw [invoke, hp]
    dsimp only
    cases hs : p.find? name with
    | none => exact .of_error trivial (by intro h; cases h)
    | some s =>
      have hnew : name ∉ passed := fun hmem => hforward name .refl (hpassed name hmem)
      have hstored : name ∈ p.names := List.mem_map_of_mem (Table.mem_entries_of_find? hs)
      have hname : name ∈ p.names.toFinset \ passed :=
        Finset.mem_sdiff.mpr ⟨List.mem_toFinset.mpr hstored, hnew⟩
      refine (invariant_finished setup).runLines ?_ name trivial
      intro l hl callee hcallee after _
      have hcalls : p.Calls name callee := ⟨s, hs, l, hl, hcallee⟩
      refine ih (insert name passed) ?_ (hforward.of_calls hcalls) ?_ after
      · intro t ht
        rcases Finset.mem_insert.mp ht with rfl | ht
        · exact .single hcalls
        · exact (hpassed t ht).tail hcalls
      · rw [Finset.sdiff_insert]
        have := Finset.card_erase_lt_of_mem hname
        omega

theorem invoke_finished_of_forward {setup : Setup} {p : Program} (hp : setup.program = some p)
    {name : Bytes} (hforward : p.Forward name) {fuel : Nat} (enough : p.size < fuel) (st : State) :
    Keeps (fun _ => True) (· ≠ .unfinished) (invoke setup fuel name st) := by
  refine invoke_finished hp ∅ (by simp) hforward ?_ st
  have hcard := p.names.toFinset_card_le
  rw [Table.names, List.length_map] at hcard
  rw [Finset.sdiff_empty]
  exact Nat.lt_of_le_of_lt hcard enough

end Machine

namespace Task

theorem program_endsWithin {setup : Setup} {p : Program} (hp : setup.program = some p)
    (hforward : ∀ root ∈ setup.dialect.entrySections, p.Forward root) (st : State) :
    Task.program.EndsWithin (p.size + 1) setup st := by
  rw [endsWithin_iff]
  dsimp only [Task.outcome, Machine.run]
  rw [hp]
  intro h
  have hkeeps : Keeps (fun _ => True) (· ≠ .unfinished)
      (Machine.runEntries setup (p.size + 1) setup.dialect.entrySections st) := by
    refine Keeps.runEntries ?_ trivial
    intro root hroot st _
    exact Machine.invoke_finished_of_forward hp (hforward root hroot) (Nat.lt_succ_self _) st
  exact hkeeps.fault _ h rfl

theorem statement_endsWithin (setup : Setup) (sect : Bytes) {line : Bytes}
    (hline : ∀ name, ¬ CallsOut name line) (st : State) :
    (Task.statement sect line).EndsWithin 0 setup st := by
  rw [endsWithin_iff]
  intro h
  have hkeeps : Keeps (fun _ => True) (· ≠ .unfinished)
      (Machine.perform setup (Machine.invoke setup 0) sect line st) :=
    (invariant_finished setup).perform (fun name hname => absurd hname (hline name)) trivial
  exact hkeeps.fault _ h rfl

end Task

/-- A program comes to an end in every state if no chain of calls from an entry section comes back
to a section it has passed; calls then nest no deeper than there are sections. A line that calls no
section comes to an end without any depth, in every program and however its consequents nest. -/
theorem ends_of_forward (setup : Setup) :
    (∀ p, setup.program = some p →
      (∀ root ∈ setup.dialect.entrySections, ∀ s, Relation.ReflTransGen p.Calls root s →
        ¬ Relation.TransGen p.Calls s s) →
      ∀ st, Task.program.EndsWithin (p.size + 1) setup st) ∧
    ∀ sect line, (∀ name, ¬ CallsOut name line) →
      ∀ st, (Task.statement sect line).EndsWithin 0 setup st :=
  ⟨fun _ hp hforward st => Task.program_endsWithin hp hforward st,
    fun sect _ hline st => Task.statement_endsWithin setup sect hline st⟩

/-- Without the condition on chains of calls this fails: a section that begins with a call of itself
does not come to an end, whatever the depth, unless a stop request comes. -/
theorem Machine.invoke_unfinished_of_self_call {setup : Setup} {p : Program}
    (hp : setup.program = some p) {name : Bytes} {s : Section} (hs : p.find? name = some s)
    {l : SourceLine} {rest : List SourceLine} (hbody : s.body = l :: rest)
    (hl : (Form.call name).On l.text) (fuel : Nat) {st : State} (hgo : st.interrupted = false)
    (hquiet : st.arrivals = []) : (invoke setup fuel name st).1 = .error .unfinished := by
  induction fuel generalizing st with
  | zero => rfl
  | succ fuel ih =>
    have hpoll : st.poll = st := by rw [State.poll, hquiet]
    have henter : enter setup name l st =
        (.ok (some name), (counted setup name l st).heard setup (.call name) l.text) :=
      enter_call hl (by simp [hpoll, hgo])
    have hcall : (invoke setup fuel name
        ((counted setup name l st).heard setup (.call name) l.text)).1 = .error .unfinished :=
      ih ((congrArg State.interrupted hpoll).trans hgo)
        ((congrArg State.arrivals hpoll).trans hquiet)
    simp only [invoke, hp, hs, hbody, runLines, runLine_eq, henter, located]
    rw [hcall]
    rfl

/-- The place of a section of `nested` in the order in which its sections call each other. -/
def nestedRank (name : Bytes) : Nat :=
  if name = mainSection then 2 else if name = dataSection then 1 else 0

theorem ends_of_forward_nested :
    (∃ p, nested.program = some p ∧ p.callPairs = [(dataSection, ascii "help"),
        (mainSection, dataSection)] ∧
      ∀ st, Task.program.EndsWithin (p.size + 1) nested st) ∧
    target? (ascii "if 1 < 2 then if 2 > 3 then exit") = none ∧
    ∀ st, (Task.statement mainSection (ascii "if 1 < 2 then if 2 > 3 then exit")).EndsWithin 0
      nested st := by
  refine ⟨⟨_, rfl, by decide +kernel, ?_⟩, by decide +kernel, ?_⟩
  · refine (ends_of_forward nested).1 _ rfl fun root _ => ?_
    exact Program.forward_of_rank nestedRank (by decide +kernel) root
  · refine (ends_of_forward nested).2 _ _ fun name hname => ?_
    have hnone : target? (ascii "if 1 < 2 then if 2 > 3 then exit") = none := by decide +kernel
    rw [← target?_eq_some_iff, hnone] at hname
    cases hname

end SectScript
