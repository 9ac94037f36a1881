import SectScript.Launch
import SectScript.Proofs.Integrity
import SectScript.Proofs.Machine.Printing

/-!
# How a launch ends

A launch gets a program ready and executes it. Getting ready writes nothing, and of the program it
executes only assignments that stand outside all sections. Executing writes what the run prints; at
the end there is nothing more, or one report on the error that ended the run. The status says which.
-/

namespace SectScript

/-! ## Loading -/

namespace Machine

section Assignment

variable (setup : Setup) (sect : Bytes) {l : SourceLine} (htrim : Bytes.trim l.text = l.text)
  (ha : isAssignment l.text = true)
include htrim ha

/-- An assignment calls no section, so it is the same line whatever sections there are. -/
theorem runLine_assignment_call (call call' : Bytes → State → Outcome Unit) (st : State) :
    runLine setup call sect l st = runLine setup call' sect l st := by
  rw [runLine_eq, runLine_eq]
  rcases henter : enter setup sect l st with ⟨f | _ | name, after⟩
  · rfl
  · rfl
  · exact absurd (by rw [henter]) (enter_assignment_ne_call htrim ha st name)

theorem enter_assignment_output (st : State) :
    (enter setup sect l st).2.output = st.output := by
  rw [enter]
  split
  · exact poll_output st
  · rw [← htrim] at ha
    rcases (step_steps setup sect l.text (counted setup sect l st)).assignment ha with
      ⟨c, hc⟩ | ⟨name, expr, hassign⟩
    · rw [hc]
      exact poll_output st
    · rw [hassign]
      exact (assign_output setup sect name expr _).trans (poll_output st)

theorem runLine_assignment_output (call : Bytes → State → Outcome Unit) (st : State) :
    (runLine setup call sect l st).2.output = st.output := by
  have houtput := enter_assignment_output setup sect htrim ha st
  rw [runLine_eq]
  rcases henter : enter setup sect l st with ⟨f | _ | name, after⟩ <;> rw [henter] at houtput
  · exact houtput
  · exact houtput
  · exact absurd (by rw [henter]) (enter_assignment_ne_call htrim ha st name)

end Assignment

end Machine

namespace Loading

/-- The state is left by the assignments `done`, whatever sections there are to call, and nothing
has been written. -/
structure Assigns (setup : Setup) (done : List SourceLine) (st st' : State) : Prop where
  assignments : ∀ l ∈ done, isAssignment l.text = true
  state : ∀ call, st' = (Machine.runLines setup call [] done st).2
  output : st'.output = st.output

theorem assigns_nil (setup : Setup) (st : State) : Assigns setup [] st st :=
  ⟨by simp, fun _ => rfl, rfl⟩

theorem Assigns.cons {setup : Setup} {l : SourceLine} (htrim : Bytes.trim l.text = l.text)
    (ha : isAssignment l.text = true) {done : List SourceLine} {st mid st' : State}
    {call : Bytes → State → Outcome Unit}
    (hl : Machine.runLine setup call [] l st = (.ok (), mid)) (h : Assigns setup done mid st') :
    Assigns setup (l :: done) st st' where
  assignments := List.forall_mem_cons.mpr ⟨ha, h.assignments⟩
  state call' := by
    rw [Machine.runLines, Machine.runLine_assignment_call setup [] htrim ha call' call, hl]
    exact h.state call'
  output := by
    have houtput := Machine.runLine_assignment_output setup [] htrim ha call st
    rw [hl] at houtput
    exact h.output.trans houtput

theorem assigns_single (setup : Setup) {l : SourceLine} (htrim : Bytes.trim l.text = l.text)
    (ha : isAssignment l.text = true) (call : Bytes → State → Outcome Unit) (st : State) :
    Assigns setup [l] st (Machine.runLine setup call [] l st).2 where
  assignments := List.forall_mem_singleton.mpr ha
  state call' := by
    rw [Machine.runLines, Machine.runLine_assignment_call setup [] htrim ha call call']
    rcases Machine.runLine setup call' [] l st with ⟨f | _, after⟩ <;> rfl
  output := Machine.runLine_assignment_output setup [] htrim ha call st

/-- A line of a source is refused or only filed, or it is an assignment outside all sections and is
executed. -/
theorem line_cases (setup : Setup) (l : SourceLine) (p : Progress) (st : State) :
    (∃ f, line setup l p st = (.error f, st)) ∨
    (∃ p', line setup l p st = (.ok p', st) ∧ p'.pending.isSome = l.mark.keeps p.pending.isSome ∧
      ¬ (l.mark = .code ∧ p.pending.isSome = false)) ∨
    (l.mark = .code ∧ p.pending.isSome = false ∧ isAssignment l.text = true ∧
      line setup l p st = Machine.andThen (Machine.runLine setup noCall [] l st)
        fun _ after => (.ok p, after)) := by
  rw [line_eq]
  cases hmark : l.mark with
  | opening name =>
    by_cases hname : name = []
    · exact Or.inl ⟨_, if_pos hname⟩
    · exact Or.inr (Or.inl ⟨_, if_neg hname, rfl, by simp⟩)
  | closing =>
    cases p.pending with
    | none => exact Or.inl ⟨_, rfl⟩
    | some s => exact Or.inr (Or.inl ⟨_, rfl, rfl, by simp⟩)
  | code =>
    cases p.pending with
    | some s => exact Or.inr (Or.inl ⟨_, rfl, rfl, by simp⟩)
    | none =>
      by_cases hassign : setup.dialect = .clarity ∧ isAssignment l.text = true
      · refine Or.inr (Or.inr ⟨rfl, rfl, hassign.2, (if_pos hassign).trans ?_⟩)
        rcases Machine.runLine setup noCall [] l st with ⟨f | _, after⟩ <;> rfl
      · exact Or.inl ⟨_, if_neg hassign⟩

/-- Scanning executes assignments outside all sections, from the first one on, and nothing else. -/
theorem scan_assigns (setup : Setup) {ls : List SourceLine}
    (htrim : ∀ l ∈ ls, Bytes.trim l.text = l.text) (p : Progress) (st : State) :
    ∃ done, done <+: loose p.pending.isSome ls ∧ Assigns setup done st (scan setup ls p st).2 := by
  induction ls generalizing p st with
  | nil => exact ⟨[], List.nil_prefix, assigns_nil setup st⟩
  | cons l ls ih =>
    have hrest := ih fun x hx => htrim x (List.mem_cons_of_mem _ hx)
    have hl := htrim l List.mem_cons_self
    rw [scan, loose]
    rcases line_cases setup l p st with ⟨f, hline⟩ | ⟨p', hline, hpending, hfiled⟩ |
      ⟨hcode, hout, hassign, hline⟩
    · rw [hline]
      exact ⟨[], List.nil_prefix, assigns_nil setup st⟩
    · rw [hline, if_neg hfiled, ← hpending]
      exact hrest p' st
    · rw [hline, if_pos ⟨hcode, hout⟩, hcode, Mark.keeps]
      have hsingle := assigns_single setup hl hassign noCall st
      rcases hrun : Machine.runLine setup noCall [] l st with ⟨f | _, mid⟩
      · rw [hrun] at hsingle
        exact ⟨[l], List.prefix_append _ _, hsingle⟩
      · obtain ⟨done, hdone, hassigns⟩ := hrest p mid
        exact ⟨l :: done, List.cons_prefix_cons.mpr ⟨rfl, hdone⟩, hassigns.cons hl hassign hrun⟩

theorem load_assigns (setup : Setup) (source : Bytes) (st : State) :
    ∃ done, done <+: loose false (sourceLines source) ∧
      Assigns setup done st (load setup source st).2 := by
  have htrim : ∀ l ∈ sourceLines source, Bytes.trim l.text = l.text :=
    fun l hl => trim_of_lineOf (mem_sourceLines hl)
  obtain ⟨done, hdone, hassigns⟩ := scan_assigns setup htrim {} st
  refine ⟨done, hdone, ?_⟩
  rw [load, lines_eq_scan, ← sourceLines]
  rcases hscan : scan setup (sourceLines source) {} st with ⟨f | p, after⟩ <;>
    rw [hscan] at hassigns
  · exact hassigns
  · exact hassigns

end Loading

/-! ## Launching -/

theorem Output.offer_writes {o : Output} (h : o.budget = none) (text : Bytes) :
    (o.offer text).writes.toList = o.writes.toList ++ [text] := by
  simp [Output.offer, Output.write?, h]

namespace Launch

/-- The machine with the program of a file, and the state in which it starts; or why there is none,
which is for the choice of the dialect, for the file or for its content to say. -/
def ready (settings : Settings) (read : FileReader) (name : Bytes) (st : State) : Outcome Setup :=
  match prepare settings read name with
  | .error c => (.error (.ofCause c), st)
  | .ok (dialect, text) =>
    match Loading.load { dialect, watch := settings.watch } text st with
    | (.error f, st) => (.error f, st)
    | (.ok p, st) =>
      (.ok { dialect, program := some p, watch := settings.watch },
        st.note (settings.watch.loaded p))

theorem file_eq_ready {settings : Settings} (hlist : settings.list = false) (read : FileReader)
    (fuel : Nat) (name : Bytes) (st : State) :
    file settings read fuel name st =
      match ready settings read name st with
      | (.error f, st) => failed settings.color f st none
      | (.ok setup, st) => execute settings setup fuel st := by
  rw [file, ready]
  cases prepare settings read name with
  | error c => rfl
  | ok prepared =>
    obtain ⟨dialect, text⟩ := prepared
    dsimp only
    rcases Loading.load { dialect, watch := settings.watch } text st with ⟨f | p, after⟩
    · rfl
    · simp only [hlist]
      rfl

/-- Either there is an error of the language, or a program and an input for it to read from; in both
cases nothing has been written. -/
theorem ready_spec (settings : Settings) (read : FileReader) (name : Bytes) {st : State}
    (hinput : st.input ≠ .absent) :
    (∃ e after, ready settings read name st = (.error (.error e), after) ∧
      after.output = st.output) ∨
    ∃ setup p start, ready settings read name st = (.ok setup, start) ∧ setup.program = some p ∧
      start.input ≠ .absent ∧ start.output = st.output := by
  rw [ready]
  cases prepare settings read name with
  | error c => exact Or.inl ⟨_, st, rfl, rfl⟩
  | ok prepared =>
    obtain ⟨dialect, text⟩ := prepared
    obtain ⟨_, _, hassigns⟩ := Loading.load_assigns { dialect, watch := settings.watch } text st
    dsimp only
    rcases hload : Loading.load { dialect, watch := settings.watch } text st with ⟨f | p, after⟩ <;>
      rw [hload] at hassigns
    · obtain ⟨e, rfl⟩ := Loading.load_error hinput (congrArg Prod.fst hload)
      exact Or.inl ⟨e, after, rfl, hassigns.output⟩
    · have hafter : after.input ≠ .absent := mt (Loading.load_input hload).mp hinput
      exact Or.inr ⟨_, p, _, rfl, rfl, hafter, hassigns.output⟩

/-- How a run that has a status ends: all entry sections come to their end; or the last visit comes
to `exit` and leaves all as it finds it; or there is an error, and a report on it. -/
inductive Ended (color : Bool) (setup : Setup) (fuel : Nat) (start : State) :
    Launch → List Bytes → Prop
  | completed {l : Launch} (hstatus : l.status = .ok 0)
      (h : Machine.Completes setup fuel setup.dialect.entrySections start
        (Machine.run setup fuel start).2)
      (hvs : NeverExits (Task.program.visits setup fuel start)) :
      Ended color setup fuel start l []
  | exited {l : Launch} {past : List Visit} {v : Visit} (hstatus : l.status = .ok 0)
      (hvs : Task.program.visits setup fuel start = past ++ [v]) (hv : v.form? = some .exit)
      (hpast : NeverExits past) (hvars : l.state.vars = v.before.vars)
      (hinput : l.state.input = v.before.input) (houtput : l.state.output = v.before.output) :
      Ended color setup fuel start l []
  | reported {l : Launch} {e : LangError} (hstatus : l.status = .ok 1)
      (hrun : (Machine.run setup fuel start).1 = .error (.error e))
      (hvs : NeverExits (Task.program.visits setup fuel start)) :
      Ended color setup fuel start l [Report.error e color ++ Bytes.newline]

/-- With an output that accepts everything, a run that comes to an end fails only with an error of
the language. -/
theorem run_error {setup : Setup} {p : Program} (hp : setup.program = some p) {fuel : Nat}
    {start : State} (hinput : start.input ≠ .absent) (hbudget : start.output.budget = none)
    {f : Fault} (hf : (Machine.run setup fuel start).1 = .error f) (hexit : f ≠ .exit)
    (hend : f ≠ .unfinished) : ∃ e, f = .error e := by
  have hbreaks : ¬ f.Breaks := Task.outcome_not_breaks hp fuel .program hinput hf
  have hkeeps := (invariant_accepting setup).outcome hp (by intro name h; cases h)
    (by intro h; cases h) fuel .program hbudget
  have hrefused : f ≠ .refused := hkeeps.fault f hf
  cases f with
  | error e => exact ⟨e, rfl⟩
  | exit => exact absurd rfl hexit
  | refused => exact absurd rfl hrefused
  | internal _ | crash => exact absurd trivial hbreaks
  | unfinished => exact absurd rfl hend

theorem execute_ended {settings : Settings} {setup : Setup} {p : Program}
    (hp : setup.program = some p) {fuel : Nat} {start : State} (hinput : start.input ≠ .absent)
    (hbudget : start.output.budget = none)
    (hend : (execute settings setup fuel start).status ≠ .error .unfinished) :
    ∃ report, Ended settings.color setup fuel start (execute settings setup fuel start) report ∧
      (execute settings setup fuel start).state.output.writes.toList =
        start.output.writes.toList ++
          ((Task.program.visits setup fuel start).filterMap Visit.text?).map (· ++ Bytes.newline) ++
          report := by
  have hadds := Machine.run_adds hp fuel hbudget
  have hcloses := Machine.run_closes hp fuel start
  have hleads := Machine.runVisits_leads setup fuel start
  have hafter := Machine.runVisits_after hp fuel start
  have herror := @run_error setup p hp fuel start hinput hbudget
  rw [execute] at hend ⊢
  rcases hrun : Machine.run setup fuel start with ⟨f | _, after⟩ <;>
    rw [hrun] at hadds hcloses hleads herror hend <;> dsimp only at hend ⊢
  · cases hcloses with
    | failed hexit hvs =>
      have hspent : f ≠ .unfinished := by
        rintro rfl
        exact hend rfl
      obtain ⟨e, rfl⟩ := herror rfl hexit hspent
      refine ⟨_, .reported rfl (by rw [hrun]) hvs, ?_⟩
      have hwrites := Output.offer_writes hadds.budget
        (Report.error e settings.color ++ Bytes.newline)
      rw [hadds.writes] at hwrites
      exact hwrites
  · have hwrites := hadds.writes
    refine ⟨[], ?_, by rw [List.append_nil]; exact hwrites⟩
    cases hcloses with
    | completed h hvs =>
      refine .completed rfl ?_ hvs
      rw [hrun]
      exact h
    | exited hvs =>
      obtain ⟨past, v, hsplit, hv, hpast, hvars, hread, hwrote⟩ := hvs.state hleads hafter
      exact .exited rfl hsplit hv hpast hvars hread hwrote

section File

variable {settings : Settings} (hlist : settings.list = false) {read : FileReader} {fuel : Nat}
  {name : Bytes} {st : State} (hinput : st.input ≠ .absent) (hbudget : st.output.budget = none)
include hlist hinput hbudget

theorem file_ended (hend : (file settings read fuel name st).status ≠ .error .unfinished)
    {setup : Setup} {start : State} (hready : ready settings read name st = (.ok setup, start)) :
    ∃ report, Ended settings.color setup fuel start (file settings read fuel name st) report ∧
      (file settings read fuel name st).state.output.writes.toList =
        st.output.writes.toList ++
          ((Task.program.visits setup fuel start).filterMap Visit.text?).map (· ++ Bytes.newline) ++
          report := by
  rw [file_eq_ready hlist, hready] at hend ⊢
  rcases ready_spec settings read name hinput with ⟨e, after, herror, _⟩ |
    ⟨_, p, _, hok, hp, hstart, houtput⟩
  · cases hready.symm.trans herror
  · obtain ⟨hsetup, rfl⟩ := Prod.mk.inj (hready.symm.trans hok)
    obtain rfl := Except.ok.inj hsetup
    rw [← houtput] at hbudget ⊢
    exact execute_ended hp hstart hbudget hend

theorem file_refused {f : Fault} {after : State}
    (hready : ready settings read name st = (.error f, after)) :
    ∃ e, f = .error e ∧ (file settings read fuel name st).status = .ok 1 ∧
      (file settings read fuel name st).state =
        { after with output := (file settings read fuel name st).state.output } ∧
      (file settings read fuel name st).state.output.writes.toList =
        st.output.writes.toList ++ [Report.error e settings.color ++ Bytes.newline] := by
  rw [file_eq_ready hlist, hready]
  rcases ready_spec settings read name hinput with ⟨e, _, herror, houtput⟩ | ⟨_, _, _, hok, _⟩
  · obtain ⟨hf, rfl⟩ := Prod.mk.inj (hready.symm.trans herror)
    obtain rfl := Except.error.inj hf
    rw [← houtput] at hbudget ⊢
    exact ⟨e, rfl, rfl, rfl, Output.offer_writes hbudget _⟩
  · cases hready.symm.trans hok

end File

/-- A launch that comes to an end, with an input to read from and an output that accepts everything,
writes what the visits of its run print, one line each and in their order, and then at most a
report. If the run completes its entry sections or comes to `exit`, the status is 0 and there is no
report; if it fails, the status is 1 and the report is on its error. If no program is got ready, the
status is 1 and a report is all that is written. Loading a program is never ended by `exit`; it
executes assignments outside all sections, from the first one on, calls no section and writes
nothing. -/
theorem pipeline_outcome {settings : Settings} (hlist : settings.list = false) (read : FileReader)
    (fuel : Nat) (name : Bytes) {st : State} (hinput : st.input ≠ .absent)
    (hbudget : st.output.budget = none)
    (hend : (file settings read fuel name st).status ≠ .error .unfinished) :
    let l := file settings read fuel name st
    (∀ setup start, ready settings read name st = (.ok setup, start) →
      ∃ report, Ended settings.color setup fuel start l report ∧
        l.state.output.writes.toList = st.output.writes.toList ++
          ((Task.program.visits setup fuel start).filterMap Visit.text?).map (· ++ Bytes.newline) ++
          report) ∧
    (∀ f after, ready settings read name st = (.error f, after) →
      ∃ e, f = .error e ∧ l.status = .ok 1 ∧ l.state = { after with output := l.state.output } ∧
        l.state.output.writes.toList = st.output.writes.toList ++
          [Report.error e settings.color ++ Bytes.newline]) ∧
    ∀ dialect text, prepare settings read name = .ok (dialect, text) →
      let setup : Setup := { dialect, watch := settings.watch }
      (Loading.load setup text st).1 ≠ .error .exit ∧
      ∃ done, done <+: Loading.loose false (Loading.sourceLines text) ∧
        Loading.Assigns setup done st (Loading.load setup text st).2 := by
  refine ⟨?_, ?_, ?_⟩
  · intro setup start hready
    exact file_ended hlist hinput hbudget hend hready
  · intro f after hready
    exact file_refused hlist hinput hbudget hready
  · intro dialect text hprepare setup
    refine ⟨?_, Loading.load_assigns setup text st⟩
    intro hexit
    obtain ⟨e, he⟩ := Loading.load_error hinput hexit
    cases he

/-- A file whose program leaves from within a section that is called. -/
def leaving : FileReader := fun _ =>
  .ok (ascii "$x = 3\nsect main\nprint $x\n@leave\nprint $x\n;\nsect leave\nif $x > 2 then exit\n;")

/-- The state in which there is nothing to read. -/
def alone : State where
  input := .stream [] none

theorem pipeline_outcome_leaving :
    ∃ l, file {} leaving 2 (ascii "leave.lnh") alone = l ∧ l.status = .ok 0 ∧
      l.state.output.text = ascii "3\n" ∧ l.state.executed = 4 ∧
      ∃ setup start report, ready {} leaving (ascii "leave.lnh") alone = (.ok setup, start) ∧
        Ended true setup 2 start l report ∧
        l.state.output.writes.toList = alone.output.writes.toList ++
          ((Task.program.visits setup 2 start).filterMap Visit.text?).map (· ++ Bytes.newline) ++
          report := by
  have hstatus : (file {} leaving 2 (ascii "leave.lnh") alone).status = .ok 0 := by decide +kernel
  have hend : (file {} leaving 2 (ascii "leave.lnh") alone).status ≠ .error .unfinished := by
    rw [hstatus]
    intro h
    cases h
  obtain ⟨hrun, hfailed, _⟩ :=
    @pipeline_outcome {} rfl leaving 2 (ascii "leave.lnh") alone (by intro h; cases h) rfl hend
  obtain ⟨⟨f | setup, start⟩, hready⟩ :
      ∃ o, ready {} leaving (ascii "leave.lnh") alone = o := ⟨_, rfl⟩
  · obtain ⟨_, _, hone, _⟩ := hfailed f start hready
    cases hstatus.symm.trans hone
  · obtain ⟨report, hended, hwrites⟩ := hrun setup start hready
    refine ⟨_, rfl, hstatus, ?_, ?_, setup, start, report, hready, hended, hwrites⟩
    · decide +kernel
    · decide +kernel

end Launch

end SectScript
