import SectScript.Proofs.Machine.Natural
import SectScript.Proofs.Machine.Termination

/-!
# Calls are inlining

Where definitions are not kept to a section, a line does the same wherever it stands, so a call does
what the lines of the section do in its place. Two programs that differ in calls written out in this
way both end or both do not, and then they end alike, errors naming the same lines. They differ only
in how deeply calls nest and in how many lines are executed.
-/

namespace SectScript

/-! ## Without stop requests -/

/-- No stop request comes with a reply. -/
def Input.Quiet : Input → Prop
  | .scripted turns => ∀ turn ∈ turns, turn.interrupts = false
  | .absent | .terminal _ _ _ | .stream _ _ => True

theorem Input.Quiet.read? {i left : Input} {reply : Reply} {interrupts : Bool} (h : i.Quiet)
    (hread : i.read? = some (reply, interrupts, left)) : interrupts = false ∧ left.Quiet := by
  cases i with
  | absent => cases hread
  | terminal prompt rest shown =>
    rw [Input.read?] at hread
    split at hread <;> cases hread <;> exact ⟨rfl, trivial⟩
  | scripted turns =>
    cases turns with
    | nil =>
      cases hread
      exact ⟨rfl, h⟩
    | cons turn turns =>
      cases hread
      exact ⟨h turn List.mem_cons_self, fun t ht => h t (List.mem_cons_of_mem _ ht)⟩
  | stream rest failure =>
    cases hread
    exact ⟨rfl, trivial⟩

/-- No stop request is pending or will come. -/
structure State.Quiet (st : State) : Prop where
  interrupted : st.interrupted = false
  arrivals : ∀ arrived ∈ st.arrivals, arrived = false
  input : st.input.Quiet

/-- The states agree in all that a program can see or change, and no stop request comes in them. -/
structure State.SameWork (st st' : State) : Prop where
  vars : st.vars = st'.vars
  input : st.input = st'.input
  output : st.output = st'.output
  quiet : st.Quiet
  quiet' : st'.Quiet

namespace State

theorem Quiet.sameWork {st : State} (h : st.Quiet) : st.SameWork st := ⟨rfl, rfl, rfl, h, h⟩

theorem SameWork.symm {st st' : State} (h : st.SameWork st') : st'.SameWork st :=
  ⟨h.vars.symm, h.input.symm, h.output.symm, h.quiet', h.quiet⟩

theorem SameWork.trans {a b c : State} (h : a.SameWork b) (h' : b.SameWork c) : a.SameWork c :=
  ⟨h.vars.trans h'.vars, h.input.trans h'.input, h.output.trans h'.output, h.quiet, h'.quiet'⟩

namespace Quiet

variable {st : State} (h : st.Quiet)
include h

theorem poll : st.poll.SameWork st := by
  rw [State.poll]
  split
  · exact h.sameWork
  case h_2 arrived later harrivals =>
    have hall := h.arrivals
    rw [harrivals] at hall
    have hquiet : Quiet { st with interrupted := st.interrupted || arrived, arrivals := later } :=
      { h with
        interrupted := by simp [h.interrupted, hall arrived List.mem_cons_self]
        arrivals := fun b hb => hall b (List.mem_cons_of_mem _ hb) }
    exact ⟨rfl, rfl, rfl, hquiet, h⟩

theorem not_held : ¬ st.poll.interrupted = true := by
  simp [h.poll.quiet.interrupted]

theorem note (events : List Event) : (st.note events).SameWork st :=
  ⟨rfl, rfl, rfl, { h with }, h⟩

theorem counted (setup : Setup) (sect : Bytes) (l : SourceLine) :
    (Machine.counted setup sect l st).SameWork st := by
  have hcount : SameWork { st.poll with executed := st.poll.executed + 1 } st :=
    { h.poll with quiet := { h.poll.quiet with } }
  exact (hcount.quiet.note _).trans hcount

/-- A line that only calls a section leaves all to it. -/
theorem called (setup : Setup) (sect name : Bytes) (l : SourceLine) :
    ((Machine.counted setup sect l st).heard setup (.call name) l.text).SameWork st :=
  ((h.counted setup sect l).quiet.note _).trans (h.counted setup sect l)

end Quiet

namespace SameWork

variable {st st' : State} (h : st.SameWork st')
include h

theorem stopped : SameWork { st.poll with interrupted := false }
    { st'.poll with interrupted := false } :=
  have hpoll := (h.quiet.poll.trans h).trans h.quiet'.poll.symm
  { hpoll with
    quiet := { hpoll.quiet with interrupted := rfl }
    quiet' := { hpoll.quiet' with interrupted := rfl } }

theorem store (w w' : Watch) (name : Bytes) (v : Value) :
    (st.store w name v).SameWork (st'.store w' name v) := by
  have hvars : st.vars.insert name v = st'.vars.insert name v := by rw [h.vars]
  exact { h with vars := hvars, quiet := { h.quiet with }, quiet' := { h.quiet' with } }

theorem readLine : Matches (fun _ => False) SameWork st.readLine st'.readLine := by
  rw [State.readLine, State.readLine, ← h.input]
  cases hread : st.input.read? with
  | none => exact .of_state h
  | some answer =>
    obtain ⟨reply, interrupts, left⟩ := answer
    obtain ⟨rfl, hleft⟩ := h.quiet.input.read? hread
    have hafter : SameWork { st with input := left, interrupted := st.interrupted || false }
        { st' with input := left, interrupted := st'.interrupted || false } :=
      { h with
        input := rfl
        quiet := { h.quiet with interrupted := by simp [h.quiet.interrupted], input := hleft }
        quiet' := { h.quiet' with interrupted := by simp [h.quiet'.interrupted], input := hleft } }
    dsimp only
    split
    · exact .of_state hafter
    · exact .of_state hafter

end SameWork

end State

theorem lockstep_sameWork (setup : Setup) :
    Lockstep (fun _ => False) State.SameWork setup setup :=
  Congruence.lockstep
    { dialect := rfl
      program := rfl
      vars := fun h => h.vars ▸ .refl _
      output := fun h => h.output
      held := fun h => by rw [h.quiet.poll.quiet.interrupted, h.quiet'.poll.quiet.interrupted]
      stopped := fun h => h.stopped
      counted := fun h sect l =>
        ((h.quiet.counted setup sect l).trans h).trans (h.quiet'.counted setup sect l).symm
      heard := fun h _ _ => ((h.quiet.note _).trans h).trans (h.quiet'.note _).symm
      wrote := fun h _ =>
        { h with output := rfl, quiet := { h.quiet with }, quiet' := { h.quiet' with } }
      store := fun h name v => h.store setup.watch setup.watch name v
      readLine := fun h => h.readLine }

/-- Where definitions are not kept to a section, a line does the same in all sections of all
programs. -/
theorem parallel_sameWork {setup setup' : Setup} (hdialect : setup'.dialect = setup.dialect)
    (hwatch : setup'.watch = setup.watch) (hfree : setup.dialect.restrictsDefinitions = false)
    (sect sect' : Bytes) :
    Parallel (· = .unfinished) id State.SameWork Eq setup setup' sect sect' where
  text := by rintro l _ rfl; rfl
  interrupted := by rintro l _ rfl; rfl
  located := by
    rintro l _ rfl f f' hf
    exact congrArg (Fault.locate l) hf
  passes := by rintro _ rfl l; rfl
  held := (lockstep_sameWork setup).held
  stopped := State.SameWork.stopped
  counted := by
    rintro st st' h l _ rfl
    exact ((h.quiet.counted setup sect l).trans h).trans (h.quiet'.counted setup' sect' l).symm
  step h line := by
    rw [Machine.step_elsewhere hdialect hwatch (Or.inr hfree)]
    exact ((lockstep_sameWork setup).step sect line h).tallies

/-! ## A call and the lines it leads to -/

/-- The innermost line wins. -/
theorem Fault.locate_locate {l : SourceLine} (hl : l.number ≠ 0) (outer : SourceLine) (f : Fault) :
    (f.locate l).locate outer = f.locate l := by
  cases f with
  | error e =>
    by_cases he : e.lineNo = 0
    · simp [Fault.locate, he, LangError.at, hl]
    · simp [Fault.locate, he]
  | exit | refused | internal _ | crash | unfinished => rfl

namespace Machine

variable {setup : Setup}

theorem located_runLine (call : Bytes → State → Outcome Unit) (sect : Bytes) {l : SourceLine}
    (hl : l.number ≠ 0) (outer : SourceLine) (st : State) :
    located outer (runLine setup call sect l st) = runLine setup call sect l st := by
  rw [runLine]
  dsimp only
  split
  · have hplaced : (interruptedAt l).locate outer = interruptedAt l := by
      simp [interruptedAt, Fault.locate, LangError.at, hl]
    rw [located]
    exact Prod.ext (congrArg Except.error hplaced) rfl
  · split
    · rfl
    · rw [located]
      exact Prod.ext (congrArg Except.error (Fault.locate_locate hl outer _)) rfl

/-- Lines that are numbered place their errors themselves. -/
theorem located_runLines (call : Bytes → State → Outcome Unit) (sect : Bytes)
    {ls : List SourceLine} (hls : ∀ l ∈ ls, l.number ≠ 0) (outer : SourceLine) (st : State) :
    located outer (runLines setup call sect ls st) = runLines setup call sect ls st := by
  induction ls generalizing st with
  | nil => rfl
  | cons l ls ih =>
    have hfirst : located outer (runLine setup call sect l st) = runLine setup call sect l st :=
      located_runLine call sect (hls l List.mem_cons_self) outer st
    rw [runLines_cons]
    rcases hrun : runLine setup call sect l st with ⟨f | _, after⟩
    · rw [hrun] at hfirst
      exact hfirst
    · exact ih (fun l hl => hls l (List.mem_cons_of_mem _ hl)) after

/-- A line that calls a section runs the lines of that section. -/
theorem runLine_call {p : Program} (hp : setup.program = some p) (hnum : p.Numbered)
    {sect name : Bytes} {l : SourceLine} (hl : (Form.call name).On l.text) {s : Section}
    (hs : p.find? name = some s) (fuel : Nat) {st : State} (hst : st.Quiet) :
    runLine setup (invoke setup (fuel + 1)) sect l st =
      runLines setup (invoke setup fuel) name s.body
        ((counted setup sect l st).heard setup (.call name) l.text) := by
  rw [runLine_eq, enter_call hl hst.not_held]
  dsimp only
  rw [invoke_of_find? hp hs, located_runLines _ _ (hnum name s hs)]

end Machine

/-- Lines that differ in calls of sections: for a line with a call, the other list may have the
lines of the section. -/
inductive Inlines (p p' : Program) : List SourceLine → List SourceLine → Prop
  | nil : Inlines p p' [] []
  | same (l : SourceLine) {ls ls' : List SourceLine} (rest : Inlines p p' ls ls') :
      Inlines p p' (l :: ls) (l :: ls')
  | leftCall {l : SourceLine} {name : Bytes} {s : Section} {ls ls' : List SourceLine}
      (hl : (Form.call name).On l.text) (hs : p.find? name = some s) (rest : Inlines p p' ls ls') :
      Inlines p p' (l :: ls) (s.body ++ ls')
  | rightCall {l : SourceLine} {name : Bytes} {s : Section} {ls ls' : List SourceLine}
      (hl : (Form.call name).On l.text) (hs : p'.find? name = some s) (rest : Inlines p p' ls ls') :
      Inlines p p' (s.body ++ ls) (l :: ls')

namespace Inlines

variable {p p' : Program} {ls ls' : List SourceLine}

theorem symm (h : Inlines p p' ls ls') : Inlines p' p ls' ls := by
  induction h with
  | nil => exact .nil
  | same l _ ih => exact .same l ih
  | leftCall hl hs _ ih => exact .rightCall hl hs ih
  | rightCall hl hs _ ih => exact .leftCall hl hs ih

theorem behind (h : Inlines p p' ls ls') (before : List SourceLine) :
    Inlines p p' (before ++ ls) (before ++ ls') := by
  induction before with
  | nil => exact h
  | cons l before ih => exact .same l ih

theorem refl (ls : List SourceLine) : Inlines p p' ls ls := by
  simpa using Inlines.nil.behind ls

end Inlines

/-- The programs have the same sections, up to calls that are written out. -/
def Program.Inlines (p p' : Program) : Prop :=
  ∀ name, Option.Rel (fun s s' => SectScript.Inlines p p' s.body s'.body) (p.find? name)
    (p'.find? name)

theorem Program.Inlines.symm {p p' : Program} (h : p.Inlines p') : p'.Inlines p := by
  intro name
  have hname := h name
  generalize p.find? name = s, p'.find? name = s' at hname ⊢
  cases hname with
  | none => exact .none
  | some hbodies => exact .some hbodies.symm

/-! ## Runs -/

section Runs

variable {setup setup' : Setup} {p p' : Program} (hdialect : setup'.dialect = setup.dialect)
  (hwatch : setup'.watch = setup.watch) (hfree : setup.dialect.restrictsDefinitions = false)
  (hp : setup.program = some p) (hp' : setup'.program = some p') (hnum : p.Numbered)
  (hnum' : p'.Numbered)
include hdialect hwatch hfree hp hp' hnum hnum'

/-- A call that is written out on one side costs fuel on the other side only, so twice the fuel is
enough for the second machine. -/
theorem Inlines.runLines {fuel fuel' : Nat}
    (hcall : ∀ n ≤ fuel, ∀ m, 2 * n ≤ m → ∀ name {st st'}, st.SameWork st' →
      Tallies (· = .unfinished) id State.SameWork (Machine.invoke setup n name st)
        (Machine.invoke setup' m name st'))
    (hfuel : 2 * fuel + 1 ≤ fuel') (sect : Bytes) {ls ls' : List SourceLine}
    (h : Inlines p p' ls ls') {st st' : State} (hR : st.SameWork st') :
    Tallies (· = .unfinished) id State.SameWork
      (Machine.runLines setup (Machine.invoke setup fuel) sect ls st)
      (Machine.runLines setup' (Machine.invoke setup' fuel') sect ls' st') := by
  have hlines := parallel_sameWork hdialect hwatch hfree
  induction h generalizing st st' with
  | nil => exact .of_state hR
  | same l _ ih =>
    rw [Machine.runLines_cons, Machine.runLines_cons]
    have hline := (hlines sect sect).runLine
      (fun name _ _ => hcall fuel (Nat.le_refl _) fuel' (by omega) name) (rfl : l = l) hR
    exact hline.andThen fun _ _ _ => ih
  | @leftCall l name s _ _ hl hs _ ih =>
    rw [Machine.runLines_cons, Machine.runLines_append]
    refine Tallies.andThen ?_ fun _ _ _ => ih
    cases fuel with
    | zero =>
      rw [Machine.runLine_eq, Machine.enter_call hl hR.quiet.not_held]
      exact .of_pass rfl rfl
    | succ fuel =>
      rw [Machine.runLine_call hp hnum hl hs fuel hR.quiet]
      exact (hlines name sect).runLines
        (fun name _ _ => hcall fuel (by omega) fuel' (by omega) name)
        (List.forall₂_refl _) ((hR.quiet.called setup sect name l).trans hR)
  | @rightCall l name s _ _ hl hs _ ih =>
    rw [Machine.runLines_cons, Machine.runLines_append]
    refine Tallies.andThen ?_ fun _ _ _ => ih
    obtain ⟨fuel', rfl⟩ : ∃ n, fuel' = n + 1 := ⟨fuel' - 1, by omega⟩
    rw [Machine.runLine_call hp' hnum' hl hs fuel' hR.quiet']
    exact (hlines sect name).runLines
      (fun name _ _ => hcall fuel (Nat.le_refl _) fuel' (by omega) name)
      (List.forall₂_refl _) (hR.trans (hR.quiet'.called setup' sect name l).symm)

variable (h : p.Inlines p')
include h

theorem Program.Inlines.invoke {fuel fuel' : Nat} (hfuel : 2 * fuel ≤ fuel') (name : Bytes)
    {st st' : State} (hR : st.SameWork st') :
    Tallies (· = .unfinished) id State.SameWork (Machine.invoke setup fuel name st)
      (Machine.invoke setup' fuel' name st') := by
  induction fuel using Nat.strongRecOn generalizing fuel' name st st' with
  | ind fuel ih =>
    cases fuel with
    | zero => exact .of_pass rfl rfl
    | succ fuel =>
      obtain ⟨fuel', rfl⟩ : ∃ n, fuel' = n + 1 := ⟨fuel' - 1, by omega⟩
      have hname := h name
      simp only [Machine.invoke, hp, hp']
      generalize p.find? name = s, p'.find? name = s' at hname ⊢
      cases hname with
      | none => exact .of_state hR
      | some hbodies =>
        refine hbodies.runLines hdialect hwatch hfree hp hp' hnum hnum' ?_ (by omega) name hR
        intro n hn m hm callee st st' hR
        exact ih n (by omega) hm callee hR

/-- What ends in one program ends in the other, and alike. -/
theorem Program.Inlines.ends {task : Task} {st : State} (hst : st.Quiet) {fuel : Nat}
    (hend : task.EndsWithin fuel setup st) :
    task.EndsWithin (2 * fuel) setup' st ∧
      (task.outcome setup fuel st).1 = (task.outcome setup' (2 * fuel) st).1 ∧
      (task.outcome setup fuel st).2.SameWork (task.outcome setup' (2 * fuel) st).2 := by
  rw [Task.endsWithin_iff] at hend ⊢
  have hsections : ∀ name {st st' : State}, st.SameWork st' →
      Tallies (· = .unfinished) id State.SameWork (Machine.invoke setup fuel name st)
        (Machine.invoke setup' (2 * fuel) name st') :=
    fun name _ _ => h.invoke hdialect hwatch hfree hp hp' hnum hnum' (Nat.le_refl _) name
  have htask := Parallel.outcome_of_invoke
    (fun sect => parallel_sameWork hdialect hwatch hfree sect sect) hsections (by rw [hp, hp']; rfl)
    (by rw [hdialect]) (by simp) (fun hf hexit => (hf : _ = _).symm.trans hexit) task hst.sameWork
  rcases matches_iff.mpr htask with ⟨f, hf, rfl⟩ | ⟨heq, hR⟩
  · exact absurd hf hend
  · exact ⟨heq ▸ hend, heq, hR⟩

theorem Program.Inlines.same_end {task : Task} {st : State} (hst : st.Quiet) :
    ((∃ depth, task.EndsWithin depth setup st) ↔ ∃ depth, task.EndsWithin depth setup' st) ∧
    ∀ depth depth', task.EndsWithin depth setup st → task.EndsWithin depth' setup' st →
      (task.outcome setup depth st).1 = (task.outcome setup' depth' st).1 ∧
      (task.outcome setup depth st).2.SameWork (task.outcome setup' depth' st).2 := by
  have hfree' : setup'.dialect.restrictsDefinitions = false := by
    rw [hdialect]
    exact hfree
  refine ⟨⟨?_, ?_⟩, ?_⟩
  · rintro ⟨depth, hend⟩
    exact ⟨_, (h.ends hdialect hwatch hfree hp hp' hnum hnum' hst hend).1⟩
  · rintro ⟨depth, hend⟩
    exact ⟨_, (h.symm.ends hdialect.symm hwatch.symm hfree' hp' hp hnum' hnum hst hend).1⟩
  · intro depth depth' hend hend'
    obtain ⟨hdouble, hsame⟩ := h.ends hdialect hwatch hfree hp hp' hnum hnum' hst hend
    rw [hend'.outcome_eq hdouble]
    exact hsame

end Runs

/-- The line that calls a section gives way to the lines of that section. -/
theorem Program.inlines_insert {p : Program} {r name : Bytes} {n : Int}
    {before after : List SourceLine} {l : SourceLine} {s : Section}
    (hr : p.find? r = some ⟨n, before ++ l :: after⟩) (hl : (Form.call name).On l.text)
    (hs : p.find? name = some s) : p.Inlines (p.insert r ⟨n, before ++ (s.body ++ after)⟩) := by
  intro other
  by_cases hother : other = r
  · rw [hother, hr, Table.find?_insert_self]
    exact .some ((SectScript.Inlines.refl after).leftCall hl hs |>.behind before)
  · rw [Table.find?_insert_of_ne p hother]
    cases p.find? other with
    | none => exact .none
    | some t => exact .some (.refl t.body)

theorem Program.Numbered.insert {p : Program} (h : p.Numbered) {name : Bytes} {s : Section}
    (hs : ∀ l ∈ s.body, l.number ≠ 0) : Program.Numbered (p.insert name s) := by
  intro other t ht
  rw [Table.find?_insert] at ht
  split at ht
  · obtain rfl := Option.some.inj ht
    exact hs
  · exact h other t ht

theorem Program.numbered_of_entries {p : Program}
    (h : ∀ e ∈ p.entries, ∀ l ∈ e.2.body, l.number ≠ 0) : p.Numbered :=
  fun _ _ hs => h _ (Table.mem_entries_of_find? hs)

/-- A section call of Clarity stands for the lines of the section: with them in its place, be the
section another one or the same, a run, a section or a statement ends if and only if it ended
before, with the same outcome, errors included, the same variables, the same output and the same
input left. -/
theorem calls_inline {setup : Setup} (hclarity : setup.dialect = .clarity) {p : Program}
    (hp : setup.program = some p) (hnum : p.Numbered) {r name : Bytes} {n : Int}
    {before after : List SourceLine} {l : SourceLine} {s : Section}
    (hr : p.find? r = some ⟨n, before ++ l :: after⟩) (hl : (Form.call name).On l.text)
    (hs : p.find? name = some s) {st : State} (hst : st.Quiet) (task : Task) :
    let inlined : Setup :=
      { setup with program := some (p.insert r ⟨n, before ++ (s.body ++ after)⟩) }
    ((∃ depth, task.EndsWithin depth setup st) ↔ ∃ depth, task.EndsWithin depth inlined st) ∧
    ∀ depth depth', task.EndsWithin depth setup st → task.EndsWithin depth' inlined st →
      (task.outcome setup depth st).1 = (task.outcome inlined depth' st).1 ∧
      (task.outcome setup depth st).2.SameWork (task.outcome inlined depth' st).2 := by
  intro inlined
  have hfree : setup.dialect.restrictsDefinitions = false := by
    rw [hclarity]
    rfl
  have hinlines := Program.inlines_insert hr hl hs
  have hbody : ∀ x ∈ before ++ (s.body ++ after), x.number ≠ 0 := by
    intro x hx
    have hcaller := hnum r _ hr x
    have hcallee := hnum name s hs x
    simp only [List.mem_append, List.mem_cons] at hx hcaller
    rcases hx with hx | hx | hx
    · exact hcaller (Or.inl hx)
    · exact hcallee hx
    · exact hcaller (Or.inr (Or.inr hx))
  have hdialect : inlined.dialect = setup.dialect := rfl
  exact hinlines.same_end hdialect rfl hfree hp rfl hnum (hnum.insert hbody) hst

/-- The section `main` reads and prints a line and calls itself, until there is nothing to read. -/
def rereading : Setup where
  dialect := .clarity
  program := some ⟨[(mainSection,
    ⟨1, [⟨2, ascii "$x = %"⟩, ⟨3, ascii "print $x"⟩, ⟨4, ascii "@main"⟩, ⟨5, ascii "exit"⟩]⟩)],
    by decide⟩

/-- The same with its own lines in place of the call. -/
def rereadingTwice : Setup where
  dialect := .clarity
  program := some ⟨[(mainSection,
    ⟨1, [⟨2, ascii "$x = %"⟩, ⟨3, ascii "print $x"⟩, ⟨2, ascii "$x = %"⟩, ⟨3, ascii "print $x"⟩,
      ⟨4, ascii "@main"⟩, ⟨5, ascii "exit"⟩, ⟨5, ascii "exit"⟩]⟩)], by decide⟩

theorem calls_inline_rereading :
    let st : State := { input := .stream (ascii "7\n8\n9") none }
    st.Quiet ∧ (Form.call mainSection).On (ascii "@main") ∧
      (Task.program.outcome rereading 4 st).2.output.text = ascii "7\n8\n9\n" ∧
      (Task.program.outcome rereadingTwice 2 st).1 =
        .error (.error ⟨.endOfInput, 2, ascii "$x = %"⟩) ∧
      (Task.program.outcome rereading 4 st).1 = (Task.program.outcome rereadingTwice 2 st).1 ∧
      (Task.program.outcome rereading 4 st).2.SameWork
        (Task.program.outcome rereadingTwice 2 st).2 := by
  intro st
  have hst : st.Quiet := ⟨rfl, by simp [st], trivial⟩
  have hcall : (Form.call mainSection).On (ascii "@main") := by rfl
  have hnum : Program.Numbered ⟨[(mainSection, ⟨1, [⟨2, ascii "$x = %"⟩, ⟨3, ascii "print $x"⟩,
      ⟨4, ascii "@main"⟩, ⟨5, ascii "exit"⟩]⟩)], by decide⟩ :=
    Program.numbered_of_entries (by decide +kernel)
  have hend : (Task.program.outcome rereadingTwice 2 st).1 =
      .error (.error ⟨.endOfInput, 2, ascii "$x = %"⟩) := by decide +kernel
  have hsame := (@calls_inline rereading rfl _ rfl hnum mainSection mainSection 1
    [⟨2, ascii "$x = %"⟩, ⟨3, ascii "print $x"⟩] [⟨5, ascii "exit"⟩] ⟨4, ascii "@main"⟩ _ rfl hcall
    rfl st hst .program).2 4 2 (Task.endsWithin_iff.mpr (by decide +kernel))
    (Task.endsWithin_iff.mpr (by decide +kernel))
  exact ⟨hst, hcall, by decide +kernel, hend, hsame⟩

end SectScript
