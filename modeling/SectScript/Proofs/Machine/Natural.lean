import SectScript.Proofs.Machine.Lockstep
import SectScript.Proofs.Table
import SectScript.Proofs.Text.Decimal

/-!
# Only the natural form of a value shows

A number can be held as an integer or as its text. Printing, comparing and tracing see the natural
form alone, and an expression takes from it the same operand as from the value, since a number that
is written is read again. So machines whose tables agree in names and natural forms are in lockstep
if a line does to their states only what keeps them related, and nothing that a program does tells
the tables apart.
-/

namespace SectScript

/-- Both tables define the same names and give each the same natural form. -/
def Table.SameForms (t t' : Table Value) : Prop :=
  ∀ name, (t.find? name).map Value.natural = (t'.find? name).map Value.natural

namespace Table.SameForms

variable {t t' : Table Value}

theorem refl (t : Table Value) : t.SameForms t := fun _ => rfl

theorem insert (h : t.SameForms t') {v v' : Value} (hv : v.natural = v'.natural) (name : Bytes) :
    (t.insert name v).SameForms (t'.insert name v') := by
  intro other
  rw [find?_insert, find?_insert]
  split
  · exact congrArg some hv
  · exact h other

theorem cases (h : t.SameForms t') (name : Bytes) :
    (t.find? name = none ∧ t'.find? name = none) ∨
      ∃ v v', t.find? name = some v ∧ t'.find? name = some v' ∧ v.natural = v'.natural := by
  have hname := h name
  cases hv : t.find? name with
  | none =>
    rw [hv] at hname
    exact Or.inl ⟨rfl, Option.map_eq_none_iff.mp hname.symm⟩
  | some v =>
    rw [hv] at hname
    obtain ⟨v', hv', heq⟩ := Option.map_eq_some_iff.mp hname.symm
    exact Or.inr ⟨v, v', rfl, hv', heq.symm⟩

theorem isNone_eq (h : t.SameForms t') (name : Bytes) :
    (t.find? name).isNone = (t'.find? name).isNone := by
  rcases h.cases name with ⟨hv, hv'⟩ | ⟨v, v', hv, hv', _⟩
  · rw [hv, hv']
  · rw [hv, hv']
    rfl

end Table.SameForms

/-- The operand that a variable stands for is that of its natural form. -/
theorem Operand.ofText_natural (v : Value) : ofText v.natural =
    match v with
    | .integer n => number (Decimal.ofInt64 n) n
    | .text s => ofText s := by
  cases v with
  | integer n => rw [Value.natural, ofText, Decimal.read?_ofInt64]
  | text s => rfl

section SameForms

variable {vars vars' : Table Value} (h : vars.SameForms vars')
include h

theorem Operand.resolve_congr (d : Dialect) (s : Bytes) : resolve d vars s = resolve d vars' s := by
  rw [resolve, resolve]
  split
  · rfl
  · split
    case h_1 name _ =>
      rcases h.cases name with ⟨hv, hv'⟩ | ⟨v, v', hv, hv', heq⟩
      · rw [hv, hv']
      · have hsame := congrArg ofText heq
        rw [ofText_natural, ofText_natural] at hsame
        rw [hv, hv']
        cases v <;> cases v' <;> exact congrArg Except.ok hsame
    case h_2 => rfl

theorem Expression.evaluate_congr (d : Dialect) (expr : Bytes) :
    evaluate d vars expr = evaluate d vars' expr := by
  simp only [evaluate, Operand.resolve_congr h]

/-- A variable stands for the same text. -/
theorem fetch_congr (name : Bytes) :
    (match fetch vars name with
      | .ok v => Except.ok v.natural
      | .error c => .error (Fault.ofCause c)) =
    match fetch vars' name with
      | .ok v => .ok v.natural
      | .error c => .error (.ofCause c) := by
  rcases h.cases name with ⟨hv, hv'⟩ | ⟨v, v', hv, hv', heq⟩
  · simp only [fetch, hv, hv']
  · simp only [fetch, hv, hv', heq]

theorem Condition.operandText_congr (n : Node) : operandText vars n = operandText vars' n := by
  rw [operandText, operandText]
  split
  case h_1 name _ _ => exact fetch_congr h name
  all_goals rfl

theorem Condition.holds_congr (n : Node) : holds vars n = holds vars' n := by
  simp only [holds, operandText_congr h]

theorem Machine.printed_congr (arg : Node) : printed vars arg = printed vars' arg := by
  rw [printed, printed]
  split
  case h_1 name _ _ => exact fetch_congr h name
  all_goals rfl

theorem Machine.assigned_congr (setup : Setup) (sect name expr : Bytes) :
    assigned setup sect name expr vars = assigned setup sect name expr vars' := by
  simp only [assigned, Expression.evaluate_congr h, h.isNone_eq name]

end SameForms

/-! ## What lines do to a state -/

/-- Machines of one dialect and program, and a relation between their states that is kept by all
that a line can do to a state: to be counted and heard of, to write, to store and to read. -/
structure Congruence (R : State → State → Prop) (setup setup' : Setup) : Prop where
  dialect : setup'.dialect = setup.dialect
  program : setup'.program = setup.program
  vars : ∀ {st st'}, R st st' → st.vars.SameForms st'.vars
  output : ∀ {st st'}, R st st' → st.output = st'.output
  held : ∀ {st st'}, R st st' → st'.poll.interrupted = st.poll.interrupted
  stopped : ∀ {st st'}, R st st' →
    R { st.poll with interrupted := false } { st'.poll with interrupted := false }
  counted : ∀ {st st'}, R st st' → ∀ sect l,
    R (Machine.counted setup sect l st) (Machine.counted setup' sect l st')
  heard : ∀ {st st'}, R st st' → ∀ form line,
    R (st.heard setup form line) (st'.heard setup' form line)
  wrote : ∀ {st st'}, R st st' → ∀ output, R { st with output } { st' with output }
  store : ∀ {st st'}, R st st' → ∀ name v,
    R (st.store setup.watch name v) (st'.store setup'.watch name v)
  readLine : ∀ {st st'}, R st st' → Matches (fun _ => False) R st.readLine st'.readLine

namespace Congruence

variable {R : State → State → Prop} {setup setup' : Setup} (h : Congruence R setup setup')
include h

theorem print {st st' : State} (hR : R st st') (arg : Node) :
    Matches (fun _ => False) R (Machine.print arg st) (Machine.print arg st') := by
  rw [Machine.print, Machine.print, Machine.printed_congr (h.vars hR), ← h.output hR]
  split
  · exact .of_state hR
  · split
    · exact .of_state (h.wrote hR _)
    · exact .of_state hR

theorem assignText {st st' : State} (hR : R st st') (sect name expr : Bytes) :
    Matches (fun _ => False) R (Machine.assignText setup sect name expr st)
      (Machine.assignText setup' sect name expr st') := by
  have hassigned : Machine.assigned setup' sect name expr st'.vars =
      Machine.assigned setup sect name expr st.vars := by
    rw [Machine.assigned_congr (h.vars hR), Machine.assigned, Machine.assigned, h.dialect]
  rw [Machine.assignText, Machine.assignText, hassigned]
  split
  · exact .of_state hR
  · exact .of_state (h.store hR _ _)

theorem assign {st st' : State} (hR : R st st') (sect name expr : Bytes) :
    Matches (fun _ => False) R (Machine.assign setup sect name expr st)
      (Machine.assign setup' sect name expr st') := by
  rw [Machine.assign, Machine.assign]
  split
  · rcases (h.readLine hR).split with ⟨_, _, _, hfalse⟩ | ⟨r, after, after', ho, ho', hafter⟩
    · exact hfalse.elim
    · rw [ho, ho']
      rcases r with f | line
      · exact .of_state hafter
      · exact h.assignText hafter sect name line
  · exact h.assignText hR sect name expr

theorem lockstep : Lockstep (fun _ => False) R setup setup' where
  program := h.program
  located := False.elim
  held := h.held
  stopped := h.stopped
  counted := h.counted
  heard := h.heard
  print := h.print
  assign := h.assign
  holds hR n := (Condition.holds_congr (h.vars hR) n).symm

end Congruence

/-! ## States that differ in the kinds of values -/

/-- The states differ at most in whether a value is held as an integer or as its text. -/
structure State.Alike (st st' : State) : Prop where
  vars : st.vars.SameForms st'.vars
  input : st.input = st'.input
  output : st.output = st'.output
  log : st.log = st'.log
  executed : st.executed = st'.executed
  interrupted : st.interrupted = st'.interrupted
  arrivals : st.arrivals = st'.arrivals

namespace State.Alike

variable {st st' : State} (h : st.Alike st')
include h

theorem note (events : List Event) : (st.note events).Alike (st'.note events) :=
  { h with log := congrArg (events.foldl Array.push ·) h.log }

theorem poll : st.poll.Alike st'.poll := by
  rw [State.poll, State.poll, ← h.arrivals]
  split
  · exact h
  · exact { h with interrupted := by rw [h.interrupted], arrivals := rfl }

theorem counted (setup : Setup) (sect : Bytes) (l : SourceLine) :
    (Machine.counted setup sect l st).Alike (Machine.counted setup sect l st') := by
  have hcount : Alike { st.poll with executed := st.poll.executed + 1 }
      { st'.poll with executed := st'.poll.executed + 1 } :=
    { h.poll with executed := by rw [h.poll.executed] }
  exact hcount.note _

theorem store (w : Watch) (name : Bytes) (v : Value) :
    (st.store w name v).Alike (st'.store w name v) := by
  have hevents :
      w.changed name (st.vars.find? name) v = w.changed name (st'.vars.find? name) v := by
    rw [Watch.changed, Watch.changed, h.vars name]
  rw [State.store, State.store, hevents]
  exact { h.note _ with vars := h.vars.insert rfl name }

/-- No fault is let pass. -/
theorem readLine : Matches (fun _ => False) Alike st.readLine st'.readLine := by
  rw [State.readLine, State.readLine, ← h.input]
  split
  · exact .of_state h
  case h_2 reply interrupts left _ =>
    have hread : Alike { st with input := left, interrupted := st.interrupted || interrupts }
        { st' with input := left, interrupted := st'.interrupted || interrupts } :=
      { h with input := rfl, interrupted := by rw [h.interrupted] }
    dsimp only
    split
    · exact .of_state hread
    · exact .of_state hread

end State.Alike

theorem lockstep_alike (setup : Setup) : Lockstep (fun _ => False) State.Alike setup setup :=
  Congruence.lockstep
    { dialect := rfl
      program := rfl
      vars := fun h => h.vars
      output := fun h => h.output
      held := fun h => h.poll.interrupted.symm
      stopped := fun h => { h.poll with interrupted := rfl }
      counted := fun h sect l => h.counted setup sect l
      heard := fun h _ _ => h.note _
      wrote := fun h _ => { h with output := rfl }
      store := fun h name v => h.store setup.watch name v
      readLine := fun h => h.readLine }

/-- Started from tables that agree in names and natural forms, and otherwise alike, a run, a section
or a statement has the same outcome, output, trace, count and rest of the input, and ends with
tables that agree again. -/
theorem Task.outcome_alike {st st' : State} (h : st.Alike st') (setup : Setup) (fuel : Nat)
    (task : Task) :
    (task.outcome setup fuel st).1 = (task.outcome setup fuel st').1 ∧
      (task.outcome setup fuel st).2.Alike (task.outcome setup fuel st').2 := by
  rcases (lockstep_alike setup).outcome rfl id (Or.inl rfl) task h with ⟨_, _, hfalse⟩ | hsame
  · exact hfalse.elim
  · exact hsame

/-- The variable `x` holds a negative number in one of two ways. -/
def holding (v : Value) : State where
  vars := Table.empty.insert (ascii "x") v

theorem outcome_alike_negative :
    let task : Task := .statement mainSection (ascii "if $x < 3 then $y = $x - 1")
    let setup : Setup := { dialect := .clarity, watch := { vars := true } }
    let number := holding (.integer (-5))
    let text := holding (.text (ascii "-5"))
    number.Alike text ∧ number.vars.find? (ascii "x") ≠ text.vars.find? (ascii "x") ∧
      (task.outcome setup 0 number).2.vars.find? (ascii "y") = some (.text (ascii "-6")) ∧
      (task.outcome setup 0 number).1 = (task.outcome setup 0 text).1 ∧
      (task.outcome setup 0 number).2.Alike (task.outcome setup 0 text).2 := by
  intro task setup number text
  have hforms : (Value.integer (-5)).natural = (Value.text (ascii "-5")).natural := by decide
  have halike : number.Alike text :=
    ⟨(Table.SameForms.refl .empty).insert hforms _, rfl, rfl, rfl, rfl, rfl, rfl⟩
  exact ⟨halike, by decide +kernel, by decide +kernel, Task.outcome_alike halike setup 0 task⟩

end SectScript
