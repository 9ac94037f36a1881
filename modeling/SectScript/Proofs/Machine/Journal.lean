import SectScript.Proofs.Loading.Section
import SectScript.Proofs.Machine.Invariant
import SectScript.Proofs.Machine.Unobserved

/-!
# The journal of variables

Where all variables are watched, the log tells everything that happens to them: the changes of a
name form a chain from its form before the run to its form after it, and a name without changes is
as it was. Where only some are watched, their changes are picked out and nothing else is.
-/

namespace SectScript

/-- What is told about a store: the form of the variable before it, if there was one, and after. -/
structure Change where
  name : Bytes
  before : Option Bytes
  now : Bytes
  deriving DecidableEq

def Event.change? : Event → Option Change
  | changed name before now => some ⟨name, before, now⟩
  | entered _ _ | loaded _ | final _ _ | understood _ => none

def Event.isEntered : Event → Bool
  | entered _ _ => true
  | changed _ _ _ | loaded _ | final _ _ | understood _ => false

/-- The changes among the events, in their order. -/
def changes (events : List Event) : List Change := events.filterMap Event.change?

@[simp] theorem changes_append (events events' : List Event) :
    changes (events ++ events') = changes events ++ changes events' :=
  List.filterMap_append ..

namespace Watch

variable (w : Watch)

@[simp] theorem changes_entered (sect : Bytes) (l : SourceLine) :
    changes (w.entered sect l) = [] := by
  rw [entered]
  split <;> rfl

@[simp] theorem changes_understood (stmt : Statement) : changes (w.understood stmt) = [] := by
  rw [understood]
  split <;> rfl

@[simp] theorem changes_changed (name : Bytes) (before : Option Value) (now : Value) :
    changes (w.changed name before now) =
      if w.wantsVariable name then [⟨name, before.map Value.natural, now.natural⟩] else [] := by
  rw [changed]
  split <;> rfl

@[simp] theorem countP_understood (stmt : Statement) :
    (w.understood stmt).countP Event.isEntered = 0 := by
  rw [understood]
  split <;> rfl

@[simp] theorem countP_changed (name : Bytes) (before : Option Value) (now : Value) :
    (w.changed name before now).countP Event.isEntered = 0 := by
  rw [changed]
  split <;> rfl

theorem countP_entered (h : w.exec = true) (sect : Bytes) (l : SourceLine) :
    (w.entered sect l).countP Event.isEntered = 1 := by
  rw [entered, if_pos h]
  rfl

end Watch

/-! ## Chains of changes -/

/-- The natural form of a variable. -/
def Table.form? (t : Table Value) (name : Bytes) : Option Bytes := (t.find? name).map Value.natural

theorem Table.form?_insert (t : Table Value) (name other : Bytes) (v : Value) :
    (t.insert name v).form? other = if other = name then some v.natural else t.form? other := by
  rw [form?, find?_insert]
  split <;> rfl

/-- The changes tell all that leads from one table to the other. -/
structure Journal (init final : Table Value) (cs : List Change) : Prop where
  /-- The first change of a name starts from its form in the beginning, if it has one. -/
  first : ∀ past c rest, cs = past ++ c :: rest → (∀ d ∈ past, d.name ≠ c.name) →
    c.before = init.form? c.name
  /-- A later change starts from what the previous one of its name has left. -/
  later : ∀ past d mid c rest, cs = past ++ d :: mid ++ c :: rest → d.name = c.name →
    (∀ e ∈ mid, e.name ≠ c.name) → c.before = some d.now
  /-- The last change of a name leaves its form in the end. -/
  last : ∀ past c rest, cs = past ++ c :: rest → (∀ d ∈ rest, d.name ≠ c.name) →
    final.form? c.name = some c.now
  untouched : ∀ name, (∀ c ∈ cs, c.name ≠ name) → final.form? name = init.form? name
  defines : ∀ name, final.Defines name ↔ init.Defines name ∨ ∃ c ∈ cs, c.name = name

theorem journal_nil (t : Table Value) : Journal t t [] where
  first := by simp
  later := by simp
  last := by simp
  untouched := by simp
  defines := by simp

/-- A store that is told goes on with the journal. -/
theorem Journal.snoc {init t : Table Value} {cs : List Change} (h : Journal init t cs)
    (name : Bytes) (v : Value) :
    Journal init (t.insert name v) (cs ++ [⟨name, t.form? name, v.natural⟩]) where
  first := by
    intro past c rest heq hpast
    rcases Loading.snoc_eq_append_cons.mp heq with ⟨rfl, rfl, rfl⟩ | ⟨rest, rfl, rfl⟩
    · exact h.untouched name hpast
    · exact h.first past c rest rfl hpast
  later := by
    intro past d mid c rest heq hname hmid
    rcases Loading.snoc_eq_append_cons.mp heq with ⟨rfl, rfl, hcs⟩ | ⟨rest, rfl, hcs⟩
    · -- the table before the store holds what the previous change has left
      have hlast := h.last past d mid hcs.symm (by rwa [hname])
      rw [hname] at hlast
      exact hlast
    · exact h.later past d mid c rest hcs hname hmid
  last := by
    intro past c rest heq hrest
    rw [Table.form?_insert]
    rcases Loading.snoc_eq_append_cons.mp heq with ⟨rfl, rfl, rfl⟩ | ⟨rest, rfl, rfl⟩
    · rw [if_pos rfl]
    · obtain ⟨hrest, hname⟩ := List.forall_mem_append.mp hrest
      have hne : c.name ≠ name := (List.forall_mem_singleton.mp hname).symm
      rw [if_neg hne]
      exact h.last past c rest rfl hrest
  untouched := by
    intro other hother
    obtain ⟨hcs, hname⟩ := List.forall_mem_append.mp hother
    have hne : other ≠ name := (List.forall_mem_singleton.mp hname).symm
    rw [Table.form?_insert, if_neg hne]
    exact h.untouched other hcs
  defines := by
    intro other
    rw [Table.defines_insert, h.defines]
    simp only [List.mem_append, List.mem_singleton, or_and_right, exists_or, exists_eq_left]
    rw [eq_comm (a := other), or_comm, or_assoc]

/-! ## What a line tells -/

/-- What a line does to the variables and the log, and that it counts nothing: it is heard how the
line is understood, and a store, of which there is at most one, is told if that is asked for. -/
def Tells (w : Watch) (st st' : State) : Prop :=
  st'.executed = st.executed ∧ ∃ heard : List Event,
    changes heard = [] ∧ heard.countP Event.isEntered = 0 ∧
    (st'.vars = st.vars ∧ st'.log.toList = st.log.toList ++ heard ∨
      ∃ name v, st'.vars = st.vars.insert name v ∧
        st'.log.toList = st.log.toList ++ (heard ++ w.changed name (st.vars.find? name) v))

theorem State.note_log (st : State) (events : List Event) :
    (st.note events).log.toList = st.log.toList ++ events := by
  simp [State.note]

namespace Tells

variable {w : Watch}

/-- Nothing is told. -/
theorem of_same {st st' : State} (hexecuted : st'.executed = st.executed)
    (hvars : st'.vars = st.vars) (hlog : st'.log = st.log) : Tells w st st' :=
  ⟨hexecuted, [], rfl, rfl, Or.inl ⟨hvars, by rw [hlog, List.append_nil]⟩⟩

theorem store (st : State) (name : Bytes) (v : Value) : Tells w st (st.store w name v) :=
  ⟨rfl, [], rfl, rfl, Or.inr ⟨name, v, rfl, State.note_log st _⟩⟩

theorem of_heard {setup : Setup} {st st' : State} {form : Form} {line : Bytes}
    (h : Tells w (st.heard setup form line) st') : Tells w st st' := by
  obtain ⟨hexecuted, heard, hchanges, hcount, hlog⟩ := h
  refine ⟨hexecuted, setup.watch.understood (form.statement (Bytes.trim line)) ++ heard, ?_, ?_, ?_⟩
  · rw [changes_append, Watch.changes_understood, hchanges, List.append_nil]
  · rw [List.countP_append, Watch.countP_understood, hcount]
  · simpa only [State.heard, State.note_log, State.note_vars, List.append_assoc] using hlog

end Tells

namespace Machine

/-- Reading changes the input and what is known of stop requests, and nothing else. -/
theorem readLine_state (st : State) :
    ∃ input interrupted, st.readLine.2 = { st with input, interrupted } := by
  rw [State.readLine]
  split
  · exact ⟨_, _, rfl⟩
  · dsimp only
    split <;> exact ⟨_, _, rfl⟩

theorem readLine_log (st : State) : st.readLine.2.log = st.log := by
  obtain ⟨_, _, h⟩ := readLine_state st
  rw [h]

theorem print_tells (w : Watch) (arg : Node) (st : State) : Tells w st (print arg st).2 := by
  rw [print]
  split
  · exact .of_same rfl rfl rfl
  · split <;> exact .of_same rfl rfl rfl

theorem assignText_tells (setup : Setup) (sect name expr : Bytes) (st : State) :
    Tells setup.watch st (assignText setup sect name expr st).2 := by
  rw [assignText]
  split
  · exact .of_same rfl rfl rfl
  · exact .store st name _

/-- A line of input that cannot be had or stored is not told. -/
theorem assign_tells (setup : Setup) (sect name expr : Bytes) (st : State) :
    Tells setup.watch st (assign setup sect name expr st).2 := by
  rw [assign]
  split
  · obtain ⟨input, interrupted, hstate⟩ := readLine_state st
    rcases hread : st.readLine with ⟨f | line, after⟩ <;> rw [hread] at hstate
    · obtain rfl : after = _ := hstate
      exact .of_same rfl rfl rfl
    · obtain rfl : after = _ := hstate
      exact assignText_tells setup sect name line { st with input, interrupted }
  · exact assignText_tells setup sect name expr st

theorem Steps.tells {setup : Setup} {sect line : Bytes} {st : State} {o : Outcome Callee}
    (h : Steps setup sect line st o) : Tells setup.watch st o.2 := by
  induction h with
  | unread => exact .of_same rfl rfl rfl
  | comment | call | exit | fault | skip => exact .of_heard (.of_same rfl rfl rfl)
  | printVar | printText => exact .of_heard (print_tells _ _ _)
  | assign => exact .of_heard (assign_tells _ _ _ _ _)
  | take _ _ _ ih => exact .of_heard ih

end Machine

/-! ## What a run tells -/

/-- The log has grown by these events: a journal of the variables if all are watched, and one
statement for each line counted if statements are. -/
structure Recorded (w : Watch) (st now : State) (events : List Event) : Prop where
  log : now.log.toList = st.log.toList ++ events
  journal : w.vars = true → Journal st.vars now.vars (changes events)
  count : w.exec = true → now.executed = st.executed + events.countP Event.isEntered

theorem recorded_nil (w : Watch) (st : State) : Recorded w st st [] where
  log := by simp
  journal _ := journal_nil st.vars
  count _ := rfl

namespace Recorded

variable {w : Watch} {st now : State} {events : List Event} (h : Recorded w st now events)
include h

/-- A line goes on with the record. -/
theorem tells {after : State} (ht : Tells w now after) :
    ∃ events', Recorded w st after events' := by
  obtain ⟨hexecuted, heard, hchanges, hcount, ⟨hvars, hlog⟩ | ⟨name, v, hvars, hlog⟩⟩ := ht
  · refine ⟨events ++ heard, ?_, ?_, ?_⟩
    · rw [hlog, h.log, List.append_assoc]
    · intro hw
      rw [hvars, changes_append, hchanges, List.append_nil]
      exact h.journal hw
    · intro hw
      rw [hexecuted, h.count hw, List.countP_append, hcount, Nat.add_zero]
  · refine ⟨events ++ (heard ++ w.changed name (now.vars.find? name) v), ?_, ?_, ?_⟩
    · rw [hlog, h.log, List.append_assoc]
    · intro hw
      have hwants : w.wantsVariable name = true := by rw [Watch.wantsVariable, hw, Bool.true_or]
      rw [hvars, changes_append, changes_append, hchanges, List.nil_append,
        Watch.changes_changed, if_pos hwants]
      exact (h.journal hw).snoc name v
    · intro hw
      rw [hexecuted, h.count hw, List.countP_append, List.countP_append, hcount,
        Watch.countP_changed, Nat.add_zero]

theorem polled : Recorded w st now.poll events := by
  rw [State.poll]
  split
  · exact h
  · exact { h with }

end Recorded

theorem Recorded.counted {setup : Setup} {st now : State} {events : List Event}
    (h : Recorded setup.watch st now events) (sect : Bytes) (l : SourceLine) :
    Recorded setup.watch st (Machine.counted setup sect l now)
      (events ++ setup.watch.entered sect l) where
  log := by rw [Machine.counted, State.note_log, ← List.append_assoc, ← h.polled.log]
  journal hvars := by
    rw [changes_append, Watch.changes_entered, List.append_nil]
    exact h.polled.journal hvars
  count hexec := by
    rw [List.countP_append, Watch.countP_entered _ hexec, ← Nat.add_assoc, ← h.polled.count hexec]
    rfl

theorem invariant_recorded (setup : Setup) (st : State) :
    Invariant (fun now => ∃ events, Recorded setup.watch st now events) (fun _ => True) setup where
  step := by
    rintro now ⟨events, h⟩ sect line
    exact ⟨h.tells (Machine.step_steps setup sect line now).tells, fun _ _ => trivial⟩
  stopped := by
    rintro now ⟨events, h⟩
    exact ⟨events, { h.polled with }⟩
  counted := by
    rintro now ⟨events, h⟩ sect l
    exact ⟨_, h.counted sect l⟩
  interrupted _ := trivial
  located _ _ := trivial

theorem Task.outcome_recorded (dialect : Dialect) (p : Program) (w : Watch) (fuel : Nat)
    (task : Task) (st : State) :
    ∃ events, Recorded w st
      (task.outcome { dialect, program := some p, watch := w } fuel st).2 events :=
  ((invariant_recorded { dialect, program := some p, watch := w } st).outcome rfl
    (fun _ => trivial) trivial fuel task ⟨[], recorded_nil w st⟩).state

/-! ## Watched names -/

/-- The states agree in all but the log, and of the changes that the first log has gained since
`st` the second has gained those of the names. -/
structure Sifted (names : List Bytes) (st now now' : State) : Prop where
  unobserved : now.Unobserved Eq now'
  log : ∃ events events', now.log.toList = st.log.toList ++ events ∧
    now'.log.toList = st.log.toList ++ events' ∧
    changes events' = (changes events).filter fun c => c.name ∈ names

namespace Sifted

variable {names : List Bytes} {st now now' : State} (h : Sifted names st now now')
include h

theorem note {told told' : List Event}
    (htold : changes told' = (changes told).filter fun c => c.name ∈ names) :
    Sifted names st (now.note told) (now'.note told') := by
  obtain ⟨events, events', hlog, hlog', hsifted⟩ := h.log
  refine ⟨h.unobserved.note _ _, events ++ told, events' ++ told', ?_, ?_, ?_⟩
  · rw [State.note_log, hlog, List.append_assoc]
  · rw [State.note_log, hlog', List.append_assoc]
  · rw [changes_append, changes_append, hsifted, htold, List.filter_append]

/-- A change of the states that the logs do not show. -/
theorem of_log {after after' : State} (hafter : after.Unobserved Eq after')
    (hlog : after.log = now.log) (hlog' : after'.log = now'.log) : Sifted names st after after' :=
  ⟨hafter, by rw [hlog, hlog']; exact h.log⟩

theorem readLine : Matches (fun _ => False) (Sifted names st) now.readLine now'.readLine := by
  rcases h.unobserved.readLine Input.echoes_eq with ⟨_, _, hfalse⟩ | ⟨hresult, hafter⟩
  · exact hfalse.elim
  · exact Or.inr ⟨hresult, h.of_log hafter (Machine.readLine_log _) (Machine.readLine_log _)⟩

end Sifted

theorem State.poll_log (st : State) : st.poll.log = st.log := by
  rw [State.poll]
  split <;> rfl

/-- Told apart are only the changes: of all variables by the first machine, of the names that are
watched by the second. -/
theorem congruence_sifted {dialect : Dialect} {program : Option Program} {w w' : Watch}
    (hall : w.vars = true) (hnames : w'.vars = false) (st : State) :
    Congruence (Sifted w'.names st) { dialect, program, watch := w }
      { dialect, program, watch := w' } where
  dialect := rfl
  program := rfl
  vars h := h.unobserved.vars ▸ .refl _
  output h := h.unobserved.output
  held h := h.unobserved.poll.interrupted.symm
  stopped h := h.of_log h.unobserved.stopped (State.poll_log _) (State.poll_log _)
  counted {now now'} h sect l := by
    have hcount : Sifted w'.names st { now.poll with executed := now.poll.executed + 1 }
        { now'.poll with executed := now'.poll.executed + 1 } :=
      h.of_log { h.unobserved.poll with executed := by rw [h.unobserved.poll.executed] }
        (State.poll_log _) (State.poll_log _)
    exact hcount.note (by simp)
  heard h _ _ := h.note (by simp)
  wrote h _ := h.of_log { h.unobserved with output := rfl } rfl rfl
  store {now now'} h name v := by
    have hwants : w.wantsVariable name = true := by rw [Watch.wantsVariable, hall, Bool.true_or]
    have hwants' : w'.wantsVariable name = decide (name ∈ w'.names) := by
      rw [Watch.wantsVariable, hnames, Bool.false_or, List.any_beq', List.contains_eq_mem]
    have hnoted : Sifted w'.names st (now.note (w.changed name (now.vars.find? name) v))
        (now'.note (w'.changed name (now'.vars.find? name) v)) := by
      refine h.note ?_
      rw [Watch.changes_changed, Watch.changes_changed, if_pos hwants, hwants', h.unobserved.vars]
      by_cases hname : name ∈ w'.names
      · simp [hname]
      · simp [hname]
    exact hnoted.of_log (h.unobserved.store w w' name v) rfl rfl
  readLine h := h.readLine

theorem Task.outcome_sifted {w w' : Watch} (hall : w.vars = true) (hnames : w'.vars = false)
    (dialect : Dialect) (p : Program) (fuel : Nat) (task : Task) (st : State) :
    Sifted w'.names st (task.outcome { dialect, program := some p, watch := w } fuel st).2
      (task.outcome { dialect, program := some p, watch := w' } fuel st).2 := by
  have hst : Sifted w'.names st st st :=
    ⟨⟨rfl, rfl, rfl, rfl, rfl, rfl⟩, [], [], by simp, by simp, rfl⟩
  rcases (congruence_sifted hall hnames st).lockstep.outcome rfl id (Or.inl rfl) task hst with
    ⟨_, _, hfalse⟩ | ⟨_, hafter⟩
  · exact hfalse.elim
  · exact hafter

/-- With all variables watched, the changes that a run, a section or a statement tells, whether it
fails or not, are a journal from the table before it to the table after it. With single names
watched instead, they are those of the journal's changes whose name is watched. With statements
watched, as many are told as lines are counted. -/
theorem variables_journaled (dialect : Dialect) (p : Program) (w : Watch) (fuel : Nat) (task : Task)
    (st : State) :
    let ran (w : Watch) : State :=
      (task.outcome { dialect, program := some p, watch := w } fuel st).2
    (∃ events, (ran { w with vars := true }).log.toList = st.log.toList ++ events ∧
      Journal st.vars (ran { w with vars := true }).vars (changes events) ∧
      ∃ watched, (ran { w with vars := false }).log.toList = st.log.toList ++ watched ∧
        changes watched = (changes events).filter fun c => c.name ∈ w.names) ∧
    ∃ events, (ran { w with exec := true }).log.toList = st.log.toList ++ events ∧
      (ran { w with exec := true }).executed = st.executed + events.countP Event.isEntered := by
  intro ran
  constructor
  · obtain ⟨events, h⟩ := task.outcome_recorded dialect p { w with vars := true } fuel st
    have hsifted : Sifted w.names st (ran { w with vars := true }) (ran { w with vars := false }) :=
      @Task.outcome_sifted { w with vars := true } { w with vars := false } rfl rfl dialect p fuel
        task st
    obtain ⟨events', watched, hlog, hlog', hchanges⟩ := hsifted.log
    obtain rfl : events = events' := List.append_cancel_left (h.log.symm.trans hlog)
    exact ⟨events, h.log, h.journal rfl, watched, hlog', hchanges⟩
  · obtain ⟨events, h⟩ := task.outcome_recorded dialect p { w with exec := true } fuel st
    exact ⟨events, h.log, h.count rfl⟩

/-- A run that changes a variable twice, defines another and then fails. -/
example :
    let p : Program := ⟨[(mainSection, ⟨1, [⟨2, ascii "$x = $x + 1"⟩, ⟨3, ascii "$y = $x + 0"⟩,
      ⟨4, ascii "if $y > 5 then $x = \"a\""⟩, ⟨5, ascii "$y = 1 / 0"⟩]⟩)], by decide⟩
    let setup : Setup := { dialect := .clarity, program := some p, watch := { vars := true } }
    changes (Machine.run setup 1 (holding (.integer 5))).2.log.toList =
      [⟨ascii "x", some (ascii "5"), ascii "6"⟩, ⟨ascii "y", none, ascii "6"⟩,
        ⟨ascii "x", some (ascii "6"), ascii "a"⟩] := by decide +kernel

end SectScript
