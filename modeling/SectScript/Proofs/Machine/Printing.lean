import SectScript.Proofs.Loading.Location
import SectScript.Proofs.Machine.Definition
import SectScript.Proofs.Machine.Invariant
import SectScript.Proofs.Machine.Parallel
import SectScript.Proofs.Statement.Phrase

/-!
# What a run prints and where it stops

A line comes to one simple statement, its own or that of a consequent whose conditions hold, or to
none. From that follows what the line writes and whether it ends the run: the output of a run is
what its visits print, in their order, and an `exit` is the last visit that there is.
-/

namespace SectScript

/-! ## The statement that a line comes to -/

/-- The statement that a line comes to: its own, or for an `if` whose condition holds that of its
consequent. The fuel exceeds the length. -/
def comesToWith (vars : Table Value) : (fuel : Nat) → Bytes → Option Form
  | 0, _ => none
  | fuel + 1, line =>
    match Statement.ofLine line with
    | .error _ => none
    | .ok stmt =>
      match stmt.form? with
      | some (.cond rel left right consequent) =>
        if Condition.holds vars (.inner rel.token [left.node, right.node]) = .ok true then
          comesToWith vars fuel consequent
        else none
      | form => form

def comesTo (vars : Table Value) (line : Bytes) : Option Form :=
  comesToWith vars (line.length + 1) line

/-- The text that a simple statement prints. -/
def Form.text? (vars : Table Value) : Form → Option Bytes
  | .printVar name => (vars.find? name).map Value.natural
  | .printText s => some s
  | .comment | .assign _ _ | .call _ | .cond _ _ _ _ | .exit => none

/-- What a simple statement does. -/
def Form.act (setup : Setup) (sect : Bytes) (st : State) : Form → Outcome Machine.Callee
  | .printVar name => Machine.ended (Machine.print (.leaf .varName name) st)
  | .printText s => Machine.ended (Machine.print (.leaf .quoted s) st)
  | .assign name expr => Machine.ended (Machine.assign setup sect name expr st)
  | .call name => (.ok (some name), st)
  | .exit => (.error .exit, st)
  | .comment | .cond _ _ _ _ => (.ok none, st)

theorem State.note_note (st : State) (events events' : List Event) :
    (st.note events).note events' = st.note (events ++ events') := by
  simp [State.note, List.foldl_append]

theorem comesToWith_of_on {form : Form} {line : Bytes} (h : form.On line) (vars : Table Value)
    (fuel : Nat) :
    comesToWith vars (fuel + 1) line =
      match form with
      | .cond rel left right consequent =>
        if Condition.holds vars (.inner rel.token [left.node, right.node]) = .ok true then
          comesToWith vars fuel consequent
        else none
      | form => some form := by
  rw [comesToWith, show Statement.ofLine line = _ from h]
  dsimp only
  rw [Form.form?_statement]
  cases form <;> rfl

/-- A line does what the statement does that it comes to; if there is none it leaves the state as it
is, and may fail for a cause of the language. -/
theorem Machine.Steps.comesTo {setup : Setup} {sect line : Bytes} {st : State}
    {o : Outcome Callee} (h : Steps setup sect line st o) {fuel : Nat}
    (enough : line.length < fuel) :
    (comesToWith st.vars fuel line = none ∧ (∃ events, o.2 = st.note events) ∧
      ∀ f, o.1 = .error f → ∃ c, f = .ofCause c) ∨
    ∃ form events, comesToWith st.vars fuel line = some form ∧
      o = form.act setup sect (st.note events) := by
  induction h generalizing fuel with
  | @unread line st c hline =>
    obtain ⟨fuel, rfl⟩ := Nat.exists_eq_add_of_lt enough
    refine Or.inl ⟨?_, ⟨[], rfl⟩, fun f hf => ⟨c, (Except.error.inj hf).symm⟩⟩
    rw [comesToWith, hline]
  | comment h | printVar h | printText h | assign h | call h | exit h =>
    obtain ⟨fuel, rfl⟩ := Nat.exists_eq_add_of_lt enough
    exact Or.inr ⟨_, _, comesToWith_of_on h _ _, rfl⟩
  | fault h hf =>
    obtain ⟨fuel, rfl⟩ := Nat.exists_eq_add_of_lt enough
    obtain ⟨c, rfl⟩ := Condition.holds_error hf
    refine Or.inl ⟨?_, ⟨_, rfl⟩, fun g hg => ⟨c, (Except.error.inj hg).symm⟩⟩
    simp [comesToWith_of_on h, hf]
  | skip h hf =>
    obtain ⟨fuel, rfl⟩ := Nat.exists_eq_add_of_lt enough
    refine Or.inl ⟨?_, ⟨_, rfl⟩, fun g hg => by cases hg⟩
    simp [comesToWith_of_on h, hf]
  | @take line consequent st _ _ _ o h ht _ ih =>
    obtain ⟨fuel, rfl⟩ := Nat.exists_eq_add_of_lt enough
    have hlt := h.shorter
    have hcomes : comesToWith st.vars (line.length + fuel + 1) line =
        comesToWith st.vars (line.length + fuel) consequent := by
      simp [comesToWith_of_on h, ht]
    have hrest : consequent.length < line.length + fuel := by omega
    rw [hcomes]
    rcases ih hrest with ⟨hnone, ⟨events, hst⟩, hcause⟩ | ⟨form, events, hform, ho⟩
    · rw [State.heard, State.note_note] at hst
      exact Or.inl ⟨hnone, ⟨_, hst⟩, hcause⟩
    · rw [State.heard, State.note_note] at ho
      exact Or.inr ⟨form, _, hform, ho⟩

/-! ## Writing -/

/-- The output accepts everything, and the texts have been written to it as lines. -/
structure Output.Adds (texts : List Bytes) (before after : Output) : Prop where
  budget : after.budget = none
  writes : after.writes.toList = before.writes.toList ++ texts.map (· ++ Bytes.newline)

theorem Output.adds_nil {o : Output} (h : o.budget = none) : Output.Adds [] o o := ⟨h, by simp⟩

theorem Output.Adds.append {texts texts' : List Bytes} {a b c : Output}
    (h : Output.Adds texts a b) (h' : Output.Adds texts' b c) : Output.Adds (texts ++ texts') a c :=
  ⟨h'.budget, by rw [h'.writes, h.writes, List.map_append, List.append_assoc]⟩

namespace Machine

theorem print_adds (arg : Node) {st : State} (hbudget : st.output.budget = none) :
    Output.Adds (printed st.vars arg).toOption.toList st.output (print arg st).2.output := by
  rw [print]
  cases printed st.vars arg with
  | error f => exact Output.adds_nil hbudget
  | ok text =>
    dsimp only [Output.write?]
    rw [hbudget]
    refine ⟨rfl, ?_⟩
    simp [Except.toOption]

theorem print_not_refused {arg : Node} {st : State} (hbudget : st.output.budget = none)
    (harg : printed st.vars arg ≠ .error .refused) : (print arg st).1 ≠ .error .refused := by
  rw [print]
  cases hprinted : printed st.vars arg with
  | error f =>
    rw [hprinted] at harg
    exact fun h => harg (congrArg Except.error (Except.error.inj h))
  | ok text =>
    dsimp only [Output.write?]
    rw [hbudget]
    intro h
    cases h

theorem readLine_output (st : State) : st.readLine.2.output = st.output := by
  rw [State.readLine]
  split
  · rfl
  · dsimp only
    split <;> rfl

theorem assignText_output (setup : Setup) (sect name expr : Bytes) (st : State) :
    (assignText setup sect name expr st).2.output = st.output := by
  rw [assignText]
  split <;> rfl

theorem assign_output (setup : Setup) (sect name expr : Bytes) (st : State) :
    (assign setup sect name expr st).2.output = st.output := by
  rw [assign]
  split
  · have h := readLine_output st
    rcases hread : st.readLine with ⟨f | line, st'⟩ <;> rw [hread] at h
    · exact h
    · exact (assignText_output setup sect name line st').trans h
  · exact assignText_output setup sect name expr st

theorem poll_output (st : State) : st.poll.output = st.output := by
  rw [State.poll]
  split <;> rfl

end Machine

theorem Form.act_adds (setup : Setup) (sect : Bytes) {st : State}
    (hbudget : st.output.budget = none) (form : Form) :
    Output.Adds (form.text? st.vars).toList st.output (form.act setup sect st).2.output := by
  cases form with
  | printVar name =>
    have hprinted : (Machine.printed st.vars (.leaf .varName name)).toOption =
        (st.vars.find? name).map Value.natural := by
      simp only [Machine.printed, Node.token, Node.data?, fetch]
      cases st.vars.find? name <;> rfl
    have hadds := Machine.print_adds (.leaf .varName name) hbudget
    rw [hprinted] at hadds
    exact hadds
  | printText s => exact Machine.print_adds (.leaf .quoted s) hbudget
  | assign name expr =>
    have houtput := Machine.assign_output setup sect name expr st
    rw [Form.act, Machine.ended, houtput]
    exact Output.adds_nil hbudget
  | comment | call _ | exit | cond _ _ _ _ => exact Output.adds_nil hbudget

theorem Form.act_not_refused (setup : Setup) (sect : Bytes) {st : State}
    (hbudget : st.output.budget = none) (form : Form) :
    (form.act setup sect st).1 ≠ .error .refused := by
  intro h
  cases form with
  | printVar name =>
    refine Machine.print_not_refused hbudget ?_ (Machine.ended_eq_error h)
    intro hprinted
    obtain ⟨c, hc⟩ := Machine.printed_error hprinted
    cases hc
  | printText s =>
    refine Machine.print_not_refused hbudget ?_ (Machine.ended_eq_error h)
    intro hprinted
    cases hprinted
  | assign name expr =>
    rcases Machine.assign_error (Machine.ended_eq_error h) with ⟨c, hc⟩ | ⟨hinternal, _⟩
    · cases hc
    · cases hinternal
  | comment | call _ | exit | cond _ _ _ _ => cases h

theorem Form.act_exit {setup : Setup} {sect : Bytes} {st : State} {form : Form} :
    (form.act setup sect st).1 = .error .exit ↔ form = .exit := by
  constructor
  · intro h
    cases form with
    | exit => rfl
    | printVar name =>
      rcases Machine.print_error (Machine.ended_eq_error h) with hprinted | hrefused
      · obtain ⟨c, hc⟩ := Machine.printed_error hprinted
        cases hc
      · cases hrefused
    | printText s =>
      rcases Machine.print_error (Machine.ended_eq_error h) with hprinted | hrefused
      · cases hprinted
      · cases hrefused
    | assign name expr =>
      rcases Machine.assign_error (Machine.ended_eq_error h) with ⟨c, hc⟩ | ⟨hinternal, _⟩
      · cases hc
      · cases hinternal
    | comment | call _ | cond _ _ _ _ => cases h
  · rintro rfl
    rfl

/-- An output that accepts everything goes on to do so, and no write is refused. -/
theorem invariant_accepting (setup : Setup) :
    Invariant (fun st => st.output.budget = none) (· ≠ .refused) setup where
  step {st} hbudget sect line := by
    have steps := Machine.step_steps setup sect line st
    rcases steps.comesTo (Nat.lt_succ_self _) with ⟨_, ⟨events, hst⟩, hcause⟩ |
      ⟨form, events, _, hact⟩
    · refine ⟨by rw [hst]; exact hbudget, ?_⟩
      rintro _ hf rfl
      obtain ⟨c, hc⟩ := hcause _ hf
      cases hc
    · have hnoted : (st.note events).output.budget = none := hbudget
      rw [hact]
      refine ⟨(form.act_adds setup sect hnoted).budget, ?_⟩
      rintro _ hf rfl
      exact form.act_not_refused setup sect hnoted hf
  stopped {st} hbudget := (congrArg Output.budget (Machine.poll_output st)).trans hbudget
  counted {st} hbudget _ _ := (congrArg Output.budget (Machine.poll_output st)).trans hbudget
  interrupted _ := by intro h; cases h
  located hf _ := Fault.locate_preserves (P := (· ≠ .refused)) (fun _ _ h => by cases h) hf

/-! ## Visits -/

/-- The statement that a visit comes to, unless a stop request keeps it from that. -/
def Visit.form? (v : Visit) : Option Form :=
  if v.before.poll.interrupted then none else comesTo v.before.vars v.line.text

/-- The text that a visit prints. -/
def Visit.text? (v : Visit) : Option Bytes := v.form?.bind (Form.text? v.before.vars)

theorem Fault.locate_eq_exit_iff {f : Fault} {l : SourceLine} : f.locate l = .exit ↔ f = .exit := by
  cases f with
  | error e =>
    by_cases he : e.lineNo = 0
    · simp [Fault.locate, he]
    · simp [Fault.locate, he]
  | exit | refused | internal _ | crash | unfinished => rfl

namespace Machine

theorem located_exit_iff {α : Type} {l : SourceLine} {o : Outcome α} :
    (located l o).1 = .error .exit ↔ o.1 = .error .exit := by
  rcases o with ⟨f | a, st⟩
  · simp [located, Except.mapError, Fault.locate_eq_exit_iff]
  · simp [located, Except.mapError]

/-- A visit does what the statement does that it comes to, or it writes nothing and does not end the
run. -/
theorem enter_form? (setup : Setup) (v : Visit) :
    (v.form? = none ∧ (enter setup v.sect v.line v.before).1 ≠ .error .exit ∧
      (enter setup v.sect v.line v.before).2.output = v.before.output) ∨
    ∃ form, v.form? = some form ∧ ∃ st : State, st.vars = v.before.vars ∧
      st.input = v.before.input ∧ st.output = v.before.output ∧
      enter setup v.sect v.line v.before = located v.line (form.act setup v.sect st) := by
  obtain ⟨sect, l, st, after⟩ := v
  dsimp only [Visit.form?]
  rw [enter]
  split
  · refine Or.inl ⟨rfl, ?_, poll_output st⟩
    intro h
    cases h
  · have steps := step_steps setup sect l.text (counted setup sect l st)
    have hvars : (counted setup sect l st).vars = st.vars := poll_vars st
    rcases steps.comesTo (Nat.lt_succ_self _) with ⟨hnone, ⟨events, hst⟩, hcause⟩ |
      ⟨form, events, hform, hact⟩
    · rw [hvars] at hnone
      refine Or.inl ⟨hnone, ?_, ?_⟩
      · intro hexit
        obtain ⟨c, hc⟩ := hcause _ (located_exit_iff.mp hexit)
        cases hc
      · dsimp only [located]
        rw [hst]
        exact poll_output st
    · rw [hvars] at hform
      exact Or.inr ⟨form, hform, (counted setup sect l st).note events, poll_vars st, poll_input st,
        poll_output st, congrArg (located l) hact⟩

theorem enter_adds (setup : Setup) (v : Visit) (hbudget : v.before.output.budget = none) :
    Output.Adds v.text?.toList v.before.output (enter setup v.sect v.line v.before).2.output := by
  rw [Visit.text?]
  rcases enter_form? setup v with ⟨hnone, _, houtput⟩ | ⟨form, hform, st, hvars, _, houtput, hact⟩
  · rw [hnone, houtput]
    exact Output.adds_nil hbudget
  · rw [← houtput] at hbudget
    have hadds := form.act_adds setup v.sect hbudget
    rw [hvars, houtput] at hadds
    rw [hform, hact]
    exact hadds

/-- A visit ends the run by `exit` just if it comes to that statement. -/
theorem enter_exit_iff (setup : Setup) (v : Visit) :
    (enter setup v.sect v.line v.before).1 = .error .exit ↔ v.form? = some .exit := by
  rcases enter_form? setup v with ⟨hnone, hexit, _⟩ | ⟨form, hform, st, _, _, _, hact⟩
  · simp [hnone, hexit]
  · rw [hform, hact, located_exit_iff, Form.act_exit, Option.some.injEq]

theorem enter_exit_state (setup : Setup) {v : Visit} (h : v.form? = some .exit) :
    (enter setup v.sect v.line v.before).2.vars = v.before.vars ∧
      (enter setup v.sect v.line v.before).2.input = v.before.input ∧
      (enter setup v.sect v.line v.before).2.output = v.before.output := by
  rcases enter_form? setup v with ⟨hnone, _⟩ | ⟨form, hform, st, hvars, hinput, houtput, hact⟩
  · rw [hnone] at h
    cases h
  · obtain rfl : form = .exit := Option.some.inj (hform.symm.trans h)
    rw [hact]
    exact ⟨hvars, hinput, houtput⟩

end Machine

/-- Visits that follow each other print one after the other. -/
theorem Leads.adds {setup : Setup} {vs : List Visit} {st st' : State} (h : Leads vs st st')
    (hvs : ∀ v ∈ vs, v.after = (Machine.enter setup v.sect v.line v.before).2)
    (hbudget : st.output.budget = none) :
    Output.Adds (vs.filterMap Visit.text?) st.output st'.output := by
  induction vs generalizing st with
  | nil =>
    cases h
    exact Output.adds_nil hbudget
  | cons v vs ih =>
    obtain ⟨rfl, hrest⟩ := h
    have hfirst := Machine.enter_adds setup v hbudget
    rw [← hvs v List.mem_cons_self] at hfirst
    have hboth := hfirst.append
      (ih hrest (fun w hw => hvs w (List.mem_cons_of_mem _ hw)) hfirst.budget)
    cases htext : v.text? with
    | none => simpa [htext] using hboth
    | some text => simpa [htext] using hboth

theorem Machine.runVisits_after {setup : Setup} {p : Program} (hp : setup.program = some p)
    (fuel : Nat) (st : State) :
    ∀ v ∈ runVisits setup fuel st, v.after = (enter setup v.sect v.line v.before).2 := by
  intro v hv
  obtain ⟨root, _, h⟩ := mem_runVisits hp fuel st v hv
  exact h.after_eq

/-- The output of a run is what its visits print. -/
theorem Machine.run_adds {setup : Setup} {p : Program} (hp : setup.program = some p) (fuel : Nat)
    {st : State} (hbudget : st.output.budget = none) :
    Output.Adds ((runVisits setup fuel st).filterMap Visit.text?) st.output
      (run setup fuel st).2.output :=
  (runVisits_leads setup fuel st).adds (runVisits_after hp fuel st) hbudget

/-! ## Exits -/

def NeverExits (vs : List Visit) : Prop := ∀ v ∈ vs, v.form? ≠ some .exit

/-- The last visit, and no other, comes to `exit`. -/
def ExitsLast (vs : List Visit) : Prop :=
  ∃ past v, vs = past ++ [v] ∧ v.form? = some .exit ∧ NeverExits past

theorem NeverExits.append {vs ws : List Visit} (h : NeverExits vs) (h' : NeverExits ws) :
    NeverExits (vs ++ ws) :=
  List.forall_mem_append.mpr ⟨h, h'⟩

theorem ExitsLast.append {vs ws : List Visit} (h : NeverExits vs) (h' : ExitsLast ws) :
    ExitsLast (vs ++ ws) := by
  obtain ⟨past, v, rfl, hv, hpast⟩ := h'
  exact ⟨vs ++ past, v, by simp, hv, h.append hpast⟩

/-- The visits come to `exit` if that is the result, and then last. -/
structure Stops (vs : List Visit) (r : Except Fault Unit) : Prop where
  exits : r = .error .exit → ExitsLast vs
  goes : r ≠ .error .exit → NeverExits vs

theorem Stops.append {vs ws : List Visit} {r : Except Fault Unit} (h : NeverExits vs)
    (h' : Stops ws r) : Stops (vs ++ ws) r :=
  ⟨fun hr => .append h (h'.exits hr), fun hr => h.append (h'.goes hr)⟩

theorem stops_nil {r : Except Fault Unit} (h : r ≠ .error .exit) : Stops [] r :=
  ⟨fun hr => absurd hr h, fun _ v hv => by cases hv⟩

namespace Machine

section Calls

variable (setup : Setup) {call : Bytes → State → Outcome Unit} {calls : Bytes → State → List Visit}
  (hcall : ∀ name st, Stops (calls name st) (call name st).1)
include hcall

theorem lineVisits_stops (sect : Bytes) (l : SourceLine) (st : State) :
    Stops (lineVisits setup calls sect l st) (runLine setup call sect l st).1 := by
  let v : Visit := ⟨sect, l, st, (enter setup sect l st).2⟩
  have hvisit : (enter setup sect l st).1 = .error .exit ↔ v.form? = some .exit :=
    enter_exit_iff setup v
  have hsingle : (enter setup sect l st).1 ≠ .error .exit → NeverExits [v] := by
    intro hgoes w hw
    obtain rfl := List.mem_singleton.mp hw
    exact mt hvisit.mpr hgoes
  change Stops (v :: _) _
  rw [runLine_eq]
  rcases henter : enter setup sect l st with ⟨f | _ | name, st'⟩ <;> rw [henter] at hvisit hsingle
  · have hsame : (Except.error f : Except Fault Unit) = .error .exit ↔
        (Except.error f : Except Fault Callee) = .error .exit := by simp
    exact ⟨fun hexit => ⟨[], v, rfl, hvisit.mp (hsame.mp hexit), fun w hw => by cases hw⟩,
      fun hgoes => hsingle (mt hsame.mpr hgoes)⟩
  · exact ⟨fun hexit => (by cases hexit), fun _ => hsingle (by intro h; cases h)⟩
  · have hcallee := hcall name st'
    have hlocated : Stops (calls name st') (located l (call name st')).1 :=
      ⟨fun hexit => hcallee.exits (located_exit_iff.mp hexit),
        fun hgoes => hcallee.goes (mt located_exit_iff.mpr hgoes)⟩
    exact Stops.append (hsingle (by intro h; cases h)) hlocated

theorem linesVisits_stops (sect : Bytes) (ls : List SourceLine) (st : State) :
    Stops (linesVisits setup call calls sect ls st) (runLines setup call sect ls st).1 := by
  induction ls generalizing st with
  | nil => exact stops_nil (by intro h; cases h)
  | cons l ls ih =>
    have hfirst := lineVisits_stops setup hcall sect l st
    rw [linesVisits, runLines]
    rcases hrun : runLine setup call sect l st with ⟨f | _, st'⟩ <;> rw [hrun] at hfirst
    · rw [List.append_nil]
      exact hfirst
    · exact .append (hfirst.goes (by intro h; cases h)) (ih st')

end Calls

theorem invokeVisits_stops (setup : Setup) (fuel : Nat) (name : Bytes) (st : State) :
    Stops (invokeVisits setup fuel name st) (invoke setup fuel name st).1 := by
  induction fuel generalizing name st with
  | zero => exact stops_nil (by intro h; cases h)
  | succ fuel ih =>
    rw [invokeVisits, invoke]
    cases setup.program with
    | none => exact stops_nil (by intro h; cases h)
    | some p =>
      dsimp only
      cases p.find? name with
      | none => exact stops_nil (by intro h; cases h)
      | some s => exact linesVisits_stops setup ih name s.body st

/-- Every section in turn comes to its end. -/
def Completes (setup : Setup) (fuel : Nat) : List Bytes → State → State → Prop
  | [], st, st' => st' = st
  | name :: names, st, st' =>
    ∃ mid, invoke setup fuel name st = (.ok (), mid) ∧ Completes setup fuel names mid st'

/-- How sections that are run one after the other end, with the visits on the way: all come to their
end, or the last visit comes to `exit`, or there is a fault. -/
inductive Closes (setup : Setup) (fuel : Nat) (names : List Bytes) (st : State) :
    Outcome Unit → List Visit → Prop
  | completed {st' : State} {vs : List Visit} (h : Completes setup fuel names st st')
      (hvs : NeverExits vs) : Closes setup fuel names st (.ok (), st') vs
  | exited {st' : State} {vs : List Visit} (hvs : ExitsLast vs) :
      Closes setup fuel names st (.ok (), st') vs
  | failed {f : Fault} {st' : State} {vs : List Visit} (hf : f ≠ .exit) (hvs : NeverExits vs) :
      Closes setup fuel names st (.error f, st') vs

theorem runEntries_closes (setup : Setup) (fuel : Nat) (names : List Bytes) (st : State) :
    Closes setup fuel names st (runEntries setup fuel names st)
      (entriesVisits setup fuel names st) := by
  induction names generalizing st with
  | nil => exact .completed rfl (by intro v hv; cases hv)
  | cons name names ih =>
    have hstops := invokeVisits_stops setup fuel name st
    rw [runEntries_cons, entriesVisits]
    rcases hinvoke : invoke setup fuel name st with ⟨f | _, mid⟩ <;> rw [hinvoke] at hstops
    · rw [List.append_nil]
      by_cases hexit : f = .exit
      · simp only [if_pos hexit]
        exact .exited (hstops.exits (congrArg Except.error hexit))
      · simp only [if_neg hexit]
        exact .failed hexit (hstops.goes fun h => hexit (Except.error.inj h))
    · have hgoes := hstops.goes (by intro h; cases h)
      dsimp only
      have hrest := ih mid
      generalize runEntries setup fuel names mid = o,
        entriesVisits setup fuel names mid = vs at hrest
      cases hrest with
      | completed h hvs => exact .completed ⟨mid, hinvoke, h⟩ (hgoes.append hvs)
      | exited hvs => exact .exited (.append hgoes hvs)
      | failed hf hvs => exact .failed hf (hgoes.append hvs)

theorem run_closes {setup : Setup} {p : Program} (hp : setup.program = some p) (fuel : Nat)
    (st : State) :
    Closes setup fuel setup.dialect.entrySections st (run setup fuel st)
      (runVisits setup fuel st) := by
  rw [run, runVisits, hp]
  exact runEntries_closes setup fuel setup.dialect.entrySections st

end Machine

/-- What an `exit` leaves is the state in which it was come to. -/
theorem ExitsLast.state {setup : Setup} {vs : List Visit} {st st' : State} (h : ExitsLast vs)
    (hleads : Leads vs st st')
    (hvs : ∀ v ∈ vs, v.after = (Machine.enter setup v.sect v.line v.before).2) :
    ∃ past v, vs = past ++ [v] ∧ v.form? = some .exit ∧ NeverExits past ∧
      st'.vars = v.before.vars ∧ st'.input = v.before.input ∧ st'.output = v.before.output := by
  obtain ⟨past, v, rfl, hv, hpast⟩ := h
  have hlast : st' = v.after := by
    induction past generalizing st with
    | nil => exact hleads.2
    | cons w past ih =>
      exact ih hleads.2 (fun x hx => hvs x (List.mem_cons_of_mem _ hx))
        fun x hx => hpast x (List.mem_cons_of_mem _ hx)
  have hkept := Machine.enter_exit_state setup hv
  rw [← hvs v (by simp), ← hlast] at hkept
  exact ⟨past, v, rfl, hv, hpast, hkept⟩

end SectScript
