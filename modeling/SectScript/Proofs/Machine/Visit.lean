import SectScript.Proofs.Machine.Step
import Mathlib.Logic.Relation

/-!
# The lines that a run comes to

A run is a list of visits: the lines in the order in which they are come to, each with the states
around its own work. The visits lead from the first state to the last without a gap, so what every
visit does to the state a whole run does. Each is a line of the section it is met in, to which calls
lead.
-/

namespace SectScript

/-- A line that a run came to: the section it was met in, and the states around the line's own work,
which ends where a section it calls begins. -/
structure Visit where
  sect : Bytes
  line : SourceLine
  before : State
  after : State

/-- What holds of a fault holds of it with its line, if no error loses it by naming one. -/
theorem Fault.locate_preserves {P : Fault → Prop} {l : SourceLine}
    (h : ∀ e, P (.error e) → P (.error (e.at l))) {f : Fault} (hf : P f) : P (f.locate l) := by
  cases f with
  | error e =>
    rw [locate]
    split
    · exact h e hf
    · exact hf
  | exit | refused | internal _ | crash | unfinished => exact hf

namespace Machine

/-- The state in which a line is executed, once no stop request has held it up. -/
def counted (setup : Setup) (sect : Bytes) (l : SourceLine) (st : State) : State :=
  { st.poll with executed := st.poll.executed + 1 }.note (setup.watch.entered sect l)

/-- An error without location gets that of the line. -/
def located {α : Type} (l : SourceLine) (o : Outcome α) : Outcome α :=
  (o.1.mapError (Fault.locate l), o.2)

/-- A source line up to a call. -/
def enter (setup : Setup) (sect : Bytes) (l : SourceLine) (st : State) : Outcome Callee :=
  if st.poll.interrupted then (.error (interruptedAt l), { st.poll with interrupted := false })
  else located l (step setup sect l.text (counted setup sect l st))

theorem runLine_eq (setup : Setup) (call : Bytes → State → Outcome Unit) (sect : Bytes)
    (l : SourceLine) (st : State) :
    runLine setup call sect l st =
      match enter setup sect l st with
      | (.error f, st) => (.error f, st)
      | (.ok none, st) => (.ok (), st)
      | (.ok (some name), st) => located l (call name st) := by
  rw [runLine, enter]
  dsimp only
  split
  · rfl
  · rw [perform, ← counted]
    rcases step setup sect l.text (counted setup sect l st) with ⟨_ | _ | name, st'⟩
    · rfl
    · rfl
    · rw [located]
      dsimp only [Except.mapError]
      rcases call name st' with ⟨_ | _, st''⟩ <;> rfl

theorem enter_call {setup : Setup} {sect name : Bytes} {l : SourceLine}
    (hl : (Form.call name).On l.text) {st : State} (hst : ¬ st.poll.interrupted = true) :
    enter setup sect l st =
      (.ok (some name), (counted setup sect l st).heard setup (.call name) l.text) := by
  rw [enter, if_neg hst, (Steps.call hl).step_eq]
  rfl

theorem invoke_of_find? {setup : Setup} {p : Program} (hp : setup.program = some p) {name : Bytes}
    {s : Section} (hs : p.find? name = some s) (fuel : Nat) (st : State) :
    invoke setup (fuel + 1) name st = runLines setup (invoke setup fuel) name s.body st := by
  simp only [invoke, hp, hs]

/-- The visits of a line, `calls` giving those of a section. -/
def lineVisits (setup : Setup) (calls : Bytes → State → List Visit) (sect : Bytes) (l : SourceLine)
    (st : State) : List Visit :=
  ⟨sect, l, st, (enter setup sect l st).2⟩ ::
    match enter setup sect l st with
    | (.ok (some name), st) => calls name st
    | _ => []

def linesVisits (setup : Setup) (call : Bytes → State → Outcome Unit)
    (calls : Bytes → State → List Visit) (sect : Bytes) : List SourceLine → State → List Visit
  | [], _ => []
  | l :: ls, st =>
    lineVisits setup calls sect l st ++
      match runLine setup call sect l st with
      | (.ok _, st) => linesVisits setup call calls sect ls st
      | (.error _, _) => []

/-- The lines that running a section comes to, in order. -/
def invokeVisits (setup : Setup) : (fuel : Nat) → Bytes → State → List Visit
  | 0, _, _ => []
  | fuel + 1, name, st =>
    match setup.program with
    | none => []
    | some program =>
      match program.find? name with
      | none => []
      | some s => linesVisits setup (invoke setup fuel) (invokeVisits setup fuel) name s.body st

def entriesVisits (setup : Setup) (fuel : Nat) : List Bytes → State → List Visit
  | [], _ => []
  | name :: names, st =>
    invokeVisits setup fuel name st ++
      match invoke setup fuel name st with
      | (.ok _, st) => entriesVisits setup fuel names st
      | (.error _, _) => []

/-- The lines that a whole run comes to. -/
def runVisits (setup : Setup) (fuel : Nat) (st : State) : List Visit :=
  match setup.program with
  | none => []
  | some _ => entriesVisits setup fuel setup.dialect.entrySections st

/-- The visits of a statement that stands on no source line, its own being the first. -/
def performVisits (setup : Setup) (fuel : Nat) (sect line : Bytes) (st : State) : List Visit :=
  ⟨sect, ⟨0, line⟩, st, (step setup sect line st).2⟩ ::
    match step setup sect line st with
    | (.ok (some name), st) => invokeVisits setup fuel name st
    | _ => []

end Machine

/-- The visits lead from one state to another without a gap. -/
def Leads : List Visit → State → State → Prop
  | [], st, st' => st' = st
  | v :: vs, st, st' => v.before = st ∧ Leads vs v.after st'

theorem Leads.append {vs ws : List Visit} {a b c : State} (h : Leads vs a b) (h' : Leads ws b c) :
    Leads (vs ++ ws) a c := by
  induction vs generalizing a with
  | nil =>
    cases h
    exact h'
  | cons v vs ih => exact ⟨h.1, ih h.2⟩

theorem Leads.of_append {vs ws : List Visit} {a c : State} (h : Leads (vs ++ ws) a c) :
    ∃ b, Leads vs a b ∧ Leads ws b c := by
  induction vs generalizing a with
  | nil => exact ⟨a, rfl, h⟩
  | cons v vs ih =>
    obtain ⟨b, hvs, hws⟩ := ih h.2
    exact ⟨b, ⟨h.1, hvs⟩, hws⟩

/-- What every visit does to the state, a whole run does. -/
theorem Leads.relates {R : State → State → Prop} (hrefl : ∀ a, R a a)
    (htrans : ∀ a b c, R a b → R b c → R a c) {vs : List Visit} {a b : State} (h : Leads vs a b)
    (hvs : ∀ v ∈ vs, R v.before v.after) : R a b := by
  induction vs generalizing a with
  | nil =>
    cases h
    exact hrefl _
  | cons v vs ih =>
    obtain ⟨rfl, hrest⟩ := h
    exact htrans _ _ _ (hvs v List.mem_cons_self)
      (ih hrest fun w hw => hvs w (List.mem_cons_of_mem v hw))

namespace Machine

variable {call : Bytes → State → Outcome Unit} {calls : Bytes → State → List Visit}

theorem lineVisits_leads (setup : Setup)
    (hcall : ∀ name st, Leads (calls name st) st (call name st).2)
    (sect : Bytes) (l : SourceLine) (st : State) :
    Leads (lineVisits setup calls sect l st) st (runLine setup call sect l st).2 := by
  refine ⟨rfl, ?_⟩
  rw [runLine_eq]
  rcases enter setup sect l st with ⟨_ | _ | name, st'⟩
  · exact rfl
  · exact rfl
  · exact hcall name st'

theorem linesVisits_leads (setup : Setup)
    (hcall : ∀ name st, Leads (calls name st) st (call name st).2)
    (sect : Bytes) (ls : List SourceLine) (st : State) :
    Leads (linesVisits setup call calls sect ls st) st (runLines setup call sect ls st).2 := by
  induction ls generalizing st with
  | nil => exact rfl
  | cons l ls ih =>
    rw [linesVisits, runLines]
    have h := lineVisits_leads setup hcall sect l st
    rcases hl : runLine setup call sect l st with ⟨_ | _, st'⟩ <;> rw [hl] at h
    · exact h.append rfl
    · exact h.append (ih st')

theorem invokeVisits_leads (setup : Setup) (fuel : Nat) (name : Bytes) (st : State) :
    Leads (invokeVisits setup fuel name st) st (invoke setup fuel name st).2 := by
  induction fuel generalizing name st with
  | zero => exact rfl
  | succ fuel ih =>
    rw [invokeVisits, invoke]
    cases setup.program with
    | none => exact rfl
    | some program =>
      dsimp only
      cases program.find? name with
      | none => exact rfl
      | some s => exact linesVisits_leads setup ih name s.body st

theorem entriesVisits_leads (setup : Setup) (fuel : Nat) (names : List Bytes) (st : State) :
    Leads (entriesVisits setup fuel names st) st (runEntries setup fuel names st).2 := by
  induction names generalizing st with
  | nil => exact rfl
  | cons name names ih =>
    rw [entriesVisits, runEntries]
    have h := invokeVisits_leads setup fuel name st
    rcases hi : invoke setup fuel name st with ⟨f | _, st'⟩ <;> rw [hi] at h
    · cases f <;> exact h.append rfl
    · exact h.append (ih st')

theorem runVisits_leads (setup : Setup) (fuel : Nat) (st : State) :
    Leads (runVisits setup fuel st) st (run setup fuel st).2 := by
  rw [runVisits, run]
  cases setup.program with
  | none => exact rfl
  | some program => exact entriesVisits_leads setup fuel _ st

theorem performVisits_leads (setup : Setup) (fuel : Nat) (sect line : Bytes) (st : State) :
    Leads (performVisits setup fuel sect line st) st
      (perform setup (invoke setup fuel) sect line st).2 := by
  refine ⟨rfl, ?_⟩
  rw [perform]
  rcases step setup sect line st with ⟨_ | _ | name, st'⟩
  · exact rfl
  · exact rfl
  · exact invokeVisits_leads setup fuel name st'

end Machine

/-- What a machine can be asked to do: run the program, a section, or a statement that stands on no
source line. -/
inductive Task where
  | program
  | block (name : Bytes)
  | statement (sect line : Bytes)

namespace Task

def outcome (setup : Setup) (fuel : Nat) (st : State) : Task → Outcome Unit
  | program => Machine.run setup fuel st
  | block name => Machine.invoke setup fuel name st
  | statement sect line => Machine.perform setup (Machine.invoke setup fuel) sect line st

/-- The lines that a task comes to, in order. -/
def visits (setup : Setup) (fuel : Nat) (st : State) : Task → List Visit
  | program => Machine.runVisits setup fuel st
  | block name => Machine.invokeVisits setup fuel name st
  | statement sect line => Machine.performVisits setup fuel sect line st

theorem visits_leads (setup : Setup) (fuel : Nat) (st : State) (task : Task) :
    Leads (task.visits setup fuel st) st (task.outcome setup fuel st).2 := by
  cases task with
  | program => exact Machine.runVisits_leads setup fuel st
  | block name => exact Machine.invokeVisits_leads setup fuel name st
  | statement sect line => exact Machine.performVisits_leads setup fuel sect line st

end Task

/-! ## Calls -/

/-- A line calls a section, at once or in its consequent. -/
inductive CallsOut (name : Bytes) : Bytes → Prop
  | here {line : Bytes} (h : (Form.call name).On line) : CallsOut name line
  | inside {line consequent : Bytes} {rel : Comparison} {left right : Term}
      (h : (Form.cond rel left right consequent).On line) (rest : CallsOut name consequent) :
      CallsOut name line

/-- A line of the section `s` calls the section `t`. -/
def Program.Calls (p : Program) (s t : Bytes) : Prop :=
  ∃ sect, p.find? s = some sect ∧ ∃ l ∈ sect.body, CallsOut t l.text

namespace Machine

theorem Steps.callsOut {setup : Setup} {sect line name : Bytes} {st : State} {o : Outcome Callee}
    (h : Steps setup sect line st o) (hname : o.1 = .ok (some name)) : CallsOut name line := by
  induction h with
  | unread | comment | exit | fault | skip => cases hname
  | printVar | printText | assign => exact absurd hname (ended_ne_call _ name)
  | call h =>
    obtain rfl : _ = name := by simpa using hname
    exact .here h
  | take h _ _ ih => exact .inside h (ih hname)

theorem enter_callsOut {setup : Setup} {sect name : Bytes} {l : SourceLine} {st st' : State}
    (h : enter setup sect l st = (.ok (some name), st')) : CallsOut name l.text := by
  rw [enter] at h
  split at h
  · cases h
  · have steps := step_steps setup sect l.text (counted setup sect l st)
    rcases hs : step setup sect l.text (counted setup sect l st) with ⟨_ | c, st''⟩
    · rw [hs] at h
      cases h
    · rw [hs] at h steps
      obtain ⟨hc, rfl⟩ := Prod.mk.inj h
      exact steps.callsOut hc

end Machine

/-- A visit of a run that began in the section `root`: a line of the program, met in its section,
which calls lead to. -/
structure Visit.Of (setup : Setup) (p : Program) (root : Bytes) (v : Visit) : Prop where
  after_eq : v.after = (Machine.enter setup v.sect v.line v.before).2
  stored : ∃ s, p.find? v.sect = some s ∧ v.line ∈ s.body
  reached : Relation.ReflTransGen p.Calls root v.sect

namespace Machine

section Visits

variable {setup : Setup} {p : Program} {call : Bytes → State → Outcome Unit}
  {calls : Bytes → State → List Visit}
  (hcalls : ∀ name st, ∀ v ∈ calls name st, v.Of setup p name)
include hcalls

theorem mem_lineVisits {sect : Bytes} {s : Section} (hs : p.find? sect = some s) {l : SourceLine}
    (hl : l ∈ s.body) (st : State) : ∀ v ∈ lineVisits setup calls sect l st, v.Of setup p sect := by
  intro v hv
  rcases List.mem_cons.mp hv with rfl | hv
  · exact ⟨rfl, ⟨s, hs, hl⟩, .refl⟩
  · split at hv
    case h_1 name st' hname =>
      have inner := hcalls name st' v hv
      have edge : p.Calls sect name := ⟨s, hs, l, hl, enter_callsOut hname⟩
      exact ⟨inner.after_eq, inner.stored, inner.reached.head edge⟩
    case h_2 => cases hv

theorem mem_linesVisits {sect : Bytes} {s : Section} (hs : p.find? sect = some s)
    {ls : List SourceLine} (hls : ∀ l ∈ ls, l ∈ s.body) (st : State) :
    ∀ v ∈ linesVisits setup call calls sect ls st, v.Of setup p sect := by
  induction ls generalizing st with
  | nil => intro v hv; cases hv
  | cons l ls ih =>
    intro v hv
    rw [linesVisits] at hv
    rcases List.mem_append.mp hv with hv | hv
    · exact mem_lineVisits hcalls hs (hls l List.mem_cons_self) st v hv
    · split at hv
      case h_1 st' _ => exact ih (fun l hl => hls l (List.mem_cons_of_mem _ hl)) st' v hv
      case h_2 => cases hv

end Visits

theorem mem_invokeVisits {setup : Setup} {p : Program} (hp : setup.program = some p) (fuel : Nat)
    (name : Bytes) (st : State) : ∀ v ∈ invokeVisits setup fuel name st, v.Of setup p name := by
  induction fuel generalizing name st with
  | zero => intro v hv; cases hv
  | succ fuel ih =>
    intro v hv
    simp only [invokeVisits, hp] at hv
    split at hv
    case h_1 => cases hv
    case h_2 s hs => exact mem_linesVisits ih hs (fun l hl => hl) st v hv

theorem mem_runVisits {setup : Setup} {p : Program} (hp : setup.program = some p) (fuel : Nat)
    (st : State) : ∀ v ∈ runVisits setup fuel st,
      ∃ root ∈ setup.dialect.entrySections, v.Of setup p root := by
  rw [runVisits, hp]
  dsimp only
  induction setup.dialect.entrySections generalizing st with
  | nil => intro v hv; cases hv
  | cons name names ih =>
    intro v hv
    rw [entriesVisits] at hv
    rcases List.mem_append.mp hv with hv | hv
    · exact ⟨name, List.mem_cons_self, mem_invokeVisits hp fuel name st v hv⟩
    · split at hv
      case h_1 st' _ =>
        obtain ⟨root, hroot, h⟩ := ih st' v hv
        exact ⟨root, List.mem_cons_of_mem _ hroot, h⟩
      case h_2 => cases hv

end Machine

end SectScript
