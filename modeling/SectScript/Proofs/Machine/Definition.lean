import SectScript.Proofs.Machine.Visit
import SectScript.Proofs.Table

/-!
# Where variables are defined

Only an assignment changes the table of variables, and it never takes a name away. In Timballo a
name that is not defined can be stored only in the section `data`, however the calls nest; so a
section from which no calls lead there leaves the defined names as they are.
-/

namespace SectScript

/-- A line's own work on the variables: none, or one store. Where definitions are restricted, the
store defines a name only in the section `data`. -/
def Stores (d : Dialect) (sect : Bytes) (before after : Table Value) : Prop :=
  after = before ∨ ∃ name v, after = before.insert name v ∧
    (d.restrictsDefinitions = true → before.Defines name ∨ sect = dataSection)

theorem Stores.defines {d : Dialect} {sect : Bytes} {before after : Table Value}
    (h : Stores d sect before after) {name : Bytes} (hname : before.Defines name) :
    after.Defines name := by
  rcases h with rfl | ⟨other, v, rfl, _⟩
  · exact hname
  · exact Table.defines_insert.mpr (Or.inr hname)

theorem Stores.defines_iff {d : Dialect} {sect : Bytes} {before after : Table Value}
    (h : Stores d sect before after) (hd : d.restrictsDefinitions = true)
    (hsect : sect ≠ dataSection) (name : Bytes) : after.Defines name ↔ before.Defines name := by
  constructor
  · intro hname
    rcases h with rfl | ⟨other, v, rfl, hplace⟩
    · exact hname
    · rcases Table.defines_insert.mp hname with rfl | hname
      · exact (hplace hd).resolve_right hsect
      · exact hname
  · exact h.defines

namespace Machine

theorem assigned_place {setup : Setup} {sect name expr : Bytes} {vars : Table Value} {v : Value}
    (h : assigned setup sect name expr vars = .ok v)
    (hd : setup.dialect.restrictsDefinitions = true) : vars.Defines name ∨ sect = dataSection := by
  rw [assigned] at h
  split at h
  case h_1 => cases h
  case h_2 =>
    split at h
    case h_1 => cases h
    case h_2 =>
      split at h
      case isTrue => cases h
      case isFalse hplace =>
        simp only [hd, Bool.true_and, Bool.and_eq_true, Option.isNone_iff_eq_none, bne_iff_ne,
          ne_eq, not_and, Decidable.not_not] at hplace
        rw [Table.Defines]
        cases hfind : vars.find? name with
        | none => exact Or.inr (hplace hfind)
        | some _ => exact Or.inl rfl

theorem assignText_stores (setup : Setup) (sect name expr : Bytes) (st : State) :
    Stores setup.dialect sect st.vars (assignText setup sect name expr st).2.vars := by
  rw [assignText]
  split
  case h_1 => exact Or.inl rfl
  case h_2 v h => exact Or.inr ⟨name, v, rfl, assigned_place h⟩

theorem readLine_vars (st : State) : st.readLine.2.vars = st.vars := by
  rw [State.readLine]
  split
  case h_1 => rfl
  case h_2 =>
    dsimp only
    split <;> rfl

theorem assign_stores (setup : Setup) (sect name expr : Bytes) (st : State) :
    Stores setup.dialect sect st.vars (assign setup sect name expr st).2.vars := by
  rw [assign]
  split
  · have hread := readLine_vars st
    rcases hr : st.readLine with ⟨_ | line, st'⟩ <;> rw [hr] at hread
    · exact Or.inl hread
    · have h := assignText_stores setup sect name line st'
      rw [hread] at h
      exact h
  · exact assignText_stores setup sect name expr st

theorem print_vars (arg : Node) (st : State) : (print arg st).2.vars = st.vars := by
  rw [print]
  split
  · rfl
  · split <;> rfl

theorem Steps.stores {setup : Setup} {sect line : Bytes} {st : State} {o : Outcome Callee}
    (h : Steps setup sect line st o) : Stores setup.dialect sect st.vars o.2.vars := by
  induction h with
  | unread | comment | call | exit | fault | skip => exact Or.inl rfl
  | printVar | printText => exact Or.inl (print_vars _ _)
  | assign => exact assign_stores setup sect _ _ _
  | take _ _ _ ih => exact ih

theorem poll_vars (st : State) : st.poll.vars = st.vars := by
  rw [State.poll]
  split <;> rfl

theorem enter_stores (setup : Setup) (sect : Bytes) (l : SourceLine) (st : State) :
    Stores setup.dialect sect st.vars (enter setup sect l st).2.vars := by
  rw [enter]
  split
  · exact Or.inl (poll_vars st)
  · have h := (step_steps setup sect l.text (counted setup sect l st)).stores
    rw [show (counted setup sect l st).vars = st.vars from poll_vars st] at h
    exact h

theorem invokeVisits_stores (setup : Setup) (fuel : Nat) (name : Bytes) (st : State) :
    ∀ v ∈ invokeVisits setup fuel name st,
      Stores setup.dialect v.sect v.before.vars v.after.vars := by
  intro v hv
  cases hp : setup.program with
  | none => cases fuel <;> simp [invokeVisits, hp] at hv
  | some p =>
    rw [(mem_invokeVisits hp fuel name st v hv).after_eq]
    exact enter_stores setup v.sect v.line v.before

end Machine

theorem Task.visits_stores (setup : Setup) (fuel : Nat) (st : State) (task : Task) :
    ∀ v ∈ task.visits setup fuel st,
      Stores setup.dialect v.sect v.before.vars v.after.vars := by
  intro v hv
  cases task with
  | program =>
    cases hp : setup.program with
    | none => simp [Task.visits, Machine.runVisits, hp] at hv
    | some p =>
      obtain ⟨root, _, h⟩ := Machine.mem_runVisits hp fuel st v hv
      rw [h.after_eq]
      exact Machine.enter_stores setup v.sect v.line v.before
  | block name => exact Machine.invokeVisits_stores setup fuel name st v hv
  | statement sect line =>
    rcases List.mem_cons.mp hv with rfl | hv
    · exact (Machine.step_steps setup sect line st).stores
    · split at hv
      case h_1 name st' _ => exact Machine.invokeVisits_stores setup fuel name st' v hv
      case h_2 => cases hv

theorem Task.outcome_defines (setup : Setup) (fuel : Nat) (st : State) (task : Task) {name : Bytes}
    (h : st.vars.Defines name) : (task.outcome setup fuel st).2.vars.Defines name := by
  have keeps : ∀ v ∈ task.visits setup fuel st,
      v.before.vars.Defines name → v.after.vars.Defines name :=
    fun v hv => (visits_stores setup fuel st task v hv).defines
  exact (visits_leads setup fuel st task).relates
    (R := fun a b => a.vars.Defines name → b.vars.Defines name) (fun _ h => h)
    (fun _ _ _ hab hbc h => hbc (hab h)) keeps h

theorem Task.block_defines_iff {setup : Setup} {p : Program} (hp : setup.program = some p)
    (hd : setup.dialect.restrictsDefinitions = true) {sect : Bytes} (hsect : sect ≠ dataSection)
    (apart : ¬ Relation.TransGen p.Calls sect dataSection) (fuel : Nat) (st : State)
    (name : Bytes) :
    ((Task.block sect).outcome setup fuel st).2.vars.Defines name ↔ st.vars.Defines name := by
  have same : ∀ v ∈ (Task.block sect).visits setup fuel st,
      (v.after.vars.Defines name ↔ v.before.vars.Defines name) := by
    intro v hv
    have reached := (Machine.mem_invokeVisits hp fuel sect st v hv).reached
    have hv' : v.sect ≠ dataSection := by
      intro heq
      rw [heq] at reached
      rcases Relation.reflTransGen_iff_eq_or_transGen.mp reached with h | h
      · exact hsect h.symm
      · exact apart h
    exact (visits_stores setup fuel st (.block sect) v hv).defines_iff hd hv' name
  exact (visits_leads setup fuel st (.block sect)).relates
    (R := fun a b => b.vars.Defines name ↔ a.vars.Defines name) (fun _ => Iff.rfl)
    (fun _ _ _ hab hbc => hbc.trans hab) same

/-- The states of a task follow one from the other, line by line. Each line stores one variable at
most, and a name that was not defined only in the section `data`; no name is lost. -/
structure Task.DefinesInData (task : Task) (setup : Setup) (fuel : Nat) (st : State) : Prop where
  leads : Leads (task.visits setup fuel st) st (task.outcome setup fuel st).2
  stores : ∀ v ∈ task.visits setup fuel st,
    v.after.vars = v.before.vars ∨
    ∃ name x, v.after.vars = v.before.vars.insert name x ∧
      (v.before.vars.Defines name ∨ v.sect = dataSection)
  keeps : ∀ v ∈ task.visits setup fuel st, ∀ name,
    v.before.vars.Defines name → v.after.vars.Defines name
  outlasts : ∀ name, st.vars.Defines name → (task.outcome setup fuel st).2.vars.Defines name

/-- In a run of Timballo a name is defined in a line of the section `data` only, whatever calls and
consequents lead there, and stays defined. A section from which no calls lead to `data` defines
nothing. -/
theorem timballo_defines_in_data {setup : Setup} (h : setup.dialect = .timballo) (fuel : Nat)
    (st : State) (task : Task) :
    task.DefinesInData setup fuel st ∧
    ∀ p sect, setup.program = some p → sect ≠ dataSection →
      ¬ Relation.TransGen p.Calls sect dataSection →
      ∀ name, ((Task.block sect).outcome setup fuel st).2.vars.Defines name ↔
        st.vars.Defines name := by
  have hd : setup.dialect.restrictsDefinitions = true := by rw [h]; rfl
  refine ⟨⟨task.visits_leads setup fuel st, ?_, ?_, ?_⟩, ?_⟩
  · intro v hv
    rcases task.visits_stores setup fuel st v hv with same | ⟨name, x, stored, hplace⟩
    · exact Or.inl same
    · exact Or.inr ⟨name, x, stored, hplace hd⟩
  · intro v hv name
    exact (task.visits_stores setup fuel st v hv).defines
  · intro name
    exact task.outcome_defines setup fuel st
  · intro p sect hp hsect apart name
    exact Task.block_defines_iff hp hd hsect apart fuel st name

/-- The section `data` defines a variable and calls a helper that changes it; `main` calls `data`
again from a consequent. -/
def nested : Setup where
  dialect := .timballo
  program := some ⟨[
    (dataSection, ⟨1, [⟨2, ascii "$x = 1"⟩, ⟨3, ascii "@help"⟩]⟩),
    (ascii "help", ⟨5, [⟨6, ascii "$x = $x + 1"⟩]⟩),
    (mainSection, ⟨8, [⟨9, ascii "if $x == 2 then @data"⟩]⟩)], by decide⟩

theorem nested_help_calls_nothing {p : Program} (hp : nested.program = some p) (t : Bytes) :
    ¬ p.Calls (ascii "help") t := by
  obtain rfl := Option.some.inj hp
  rintro ⟨s, hs, l, hl, hcalls⟩
  obtain rfl : _ = s := Option.some.inj hs
  obtain rfl := List.mem_singleton.mp hl
  have htoken : (Statement.ofLine (ascii "$x = $x + 1")).toOption.map (·.token) =
      some .assign := by decide +kernel
  cases hcalls with
  | here h =>
    rw [Form.On] at h
    rw [h] at htoken
    cases htoken
  | inside h _ =>
    rw [Form.On] at h
    rw [h] at htoken
    cases htoken

theorem timballo_defines_in_data_nested :
    nested.dialect = .timballo ∧
    (Task.program.outcome nested 4 {}).2.vars.Defines (ascii "x") ∧
    (∀ v ∈ Task.program.visits nested 4 {},
      v.after.vars = v.before.vars ∨
      ∃ name x, v.after.vars = v.before.vars.insert name x ∧
        (v.before.vars.Defines name ∨ v.sect = dataSection)) ∧
    ∀ name, ((Task.block (ascii "help")).outcome nested 4 {}).2.vars.Defines name ↔
      ({} : State).vars.Defines name := by
  obtain ⟨hprogram, hapart⟩ := @timballo_defines_in_data nested rfl 4 {} .program
  refine ⟨rfl, by decide +kernel, hprogram.stores, hapart _ _ rfl (by decide) ?_⟩
  intro chain
  cases Relation.TransGen.head'_iff.mp chain with
  | intro t ht => exact nested_help_calls_nothing rfl t ht.1

end SectScript
