import SectScript.Proofs.Launch.Outcome
import SectScript.Proofs.Loading.Grammar
import SectScript.Proofs.Loading.Visit
import SectScript.Proofs.Machine.Asking
import SectScript.Proofs.Machine.Journal

/-!
# A listing runs no section

To list a program it is loaded and not run. Loading executes the assignments that stand outside all
sections, so a listing can count lines, ask for input and fail; but it does nothing else, and what it
writes depends on the input only through the answers to those assignments that are of `%`.
-/

namespace SectScript

/-! ## Lines are counted -/

/-- At most `n` lines have been counted, and all of them if there is no fault. -/
structure Counts {α : Type} (n : Nat) (st : State) (o : Outcome α) : Prop where
  least : st.executed ≤ o.2.executed
  most : o.2.executed ≤ st.executed + n
  all : ∀ a, o.1 = .ok a → o.2.executed = st.executed + n

theorem Counts.andThen {α β : Type} {n m : Nat} {st : State} {o : Outcome α}
    {next : α → State → Outcome β} (h : Counts n st o)
    (hnext : ∀ a, Counts m o.2 (next a o.2)) : Counts (n + m) st (Machine.andThen o next) := by
  obtain ⟨hleast, hmost, hall⟩ := h
  rcases o with ⟨f | a, mid⟩
  · refine ⟨hleast, hmost.trans (by omega), ?_⟩
    intro b h
    cases h
  · obtain ⟨hleast', hmost', hall'⟩ : Counts m mid (next a mid) := hnext a
    have hmid : mid.executed = st.executed + n := hall a rfl
    refine ⟨hleast.trans hleast', hmost'.trans (by omega), fun b h => ?_⟩
    have hlast := hall' b h
    exact hlast.trans (by omega)

namespace Machine

/-- A line counts itself, unless a stop request holds it up. -/
theorem enter_counts (setup : Setup) (sect : Bytes) (l : SourceLine) (st : State) :
    Counts 1 st (enter setup sect l st) := by
  have hpoll : st.poll.executed = st.executed := by
    rw [State.poll]
    split <;> rfl
  rw [enter]
  split
  · refine ⟨hpoll.ge, hpoll.trans_le (Nat.le_succ _), ?_⟩
    intro callee h
    cases h
  · have htells := (step_steps setup sect l.text (counted setup sect l st)).tells
    have hexecuted : (located l (step setup sect l.text (counted setup sect l st))).2.executed =
        st.executed + 1 := by
      rw [← hpoll]
      exact htells.1
    exact ⟨by omega, hexecuted.le, fun _ _ => hexecuted⟩

end Machine

namespace Loading

theorem runLine_counts (setup : Setup) (sect : Bytes) (l : SourceLine) (st : State) :
    Counts 1 st (Machine.runLine setup noCall sect l st) := by
  have hcalled : ∀ callee mid, Counts 0 mid
      (Machine.called (fun name st => Machine.located l (noCall name st)) callee mid) := by
    intro callee mid
    cases callee with
    | none => exact ⟨le_rfl, le_rfl, fun _ _ => rfl⟩
    | some name =>
      refine ⟨le_rfl, le_rfl, ?_⟩
      intro _ h
      cases h
  rw [Machine.runLine_eq_andThen]
  exact (Machine.enter_counts setup sect l st).andThen fun callee => hcalled callee _

theorem runLines_counts (setup : Setup) (sect : Bytes) (ls : List SourceLine) (st : State) :
    Counts ls.length st (Machine.runLines setup noCall sect ls st) := by
  induction ls generalizing st with
  | nil => exact ⟨le_rfl, le_rfl, fun _ _ => rfl⟩
  | cons l ls ih =>
    rw [Machine.runLines_cons, List.length_cons, Nat.add_comm]
    exact (runLine_counts setup sect l st).andThen fun _ => ih _

/-! ## What loading executes -/

/-- The assignments outside all sections, where the dialect lets them stand. -/
def startup (dialect : Dialect) (inside : Bool) (ls : List SourceLine) : List SourceLine :=
  if dialect = .clarity then (loose inside ls).filter fun l => isAssignment l.text else []

section Line

variable {setup : Setup} {l : SourceLine} {p : Progress}

theorem startup_cons_of_executes (h : Executes setup l p) (ls : List SourceLine) :
    startup setup.dialect p.pending.isSome (l :: ls) =
      l :: startup setup.dialect p.pending.isSome ls := by
  obtain ⟨hmark, hnone, hdialect, ha⟩ := h
  rw [Option.isNone_iff_eq_none] at hnone
  simp [startup, hdialect, loose, hmark, hnone, ha, Mark.keeps]

theorem startup_cons_of_not_executes (h : ¬ Executes setup l p) {st st' : State} {q : Progress}
    (hline : line setup l p st = (.ok q, st')) (ls : List SourceLine) :
    startup setup.dialect p.pending.isSome (l :: ls) =
      startup setup.dialect q.pending.isSome ls := by
  rcases line_cases setup l p st with ⟨f, hf⟩ | ⟨q', hq, hpending, hfiled⟩ | ⟨hcode, hout, ha, _⟩
  · cases hf.symm.trans hline
  · obtain ⟨hsame, _⟩ := Prod.mk.inj (hq.symm.trans hline)
    obtain rfl := Except.ok.inj hsame
    rw [startup, startup, loose, if_neg hfiled, hpending, List.nil_append]
  · have hdialect : setup.dialect ≠ .clarity := by
      intro hdialect
      exact h ⟨hcode, by simpa using hout, hdialect, ha⟩
    rw [startup, startup, if_neg hdialect, if_neg hdialect]

end Line

/-- In a source that is in place all code outside sections is made of such assignments. -/
theorem loose_eq_startup {setup : Setup} {st : State} {ls : List SourceLine}
    (h : Clean setup st ls) : loose false ls = startup setup.dialect false ls := by
  rw [startup]
  split
  case isFalse hdialect => exact loose_eq_nil hdialect h
  case isTrue hdialect =>
    refine (List.filter_eq_self.mpr ?_).symm
    induction ls using List.reverseRecOn with
    | nil => simp [loose]
    | append_singleton ls l ih =>
      have hls : Clean setup st ls := fun pre x post heq f =>
        h pre x (post ++ [l]) (by rw [heq]; simp) f
      by_cases hcode : l.mark = .code ∧ ¬ Inside ls
      · rw [loose_snoc_of_code hcode.1 hcode.2]
        intro x hx
        rcases List.mem_append.mp hx with hx | hx
        · exact ih hls x hx
        · obtain rfl := List.mem_singleton.mp hx
          by_contra hno
          exact h ls x [] rfl _ (.misplaced hcode.1 hcode.2 fun hyes => hno hyes.2)
      · rw [loose_snoc]
        · exact ih hls
        · by_cases hl : l.mark = .code
          · exact Or.inr (by_contra fun hout => hcode ⟨hl, hout⟩)
          · exact Or.inl hl

theorem scan_cons (setup : Setup) (l : SourceLine) (ls : List SourceLine) (p : Progress)
    (st : State) :
    scan setup (l :: ls) p st = Machine.andThen (line setup l p st) (scan setup ls) := by
  rw [scan]
  rcases line setup l p st with ⟨f | q, mid⟩ <;> rfl

/-- Scanning asks at most once for each assignment of `%` outside all sections. -/
theorem scan_consults (setup : Setup) {ls : List SourceLine}
    (htrim : ∀ l ∈ ls, Bytes.trim l.text = l.text) (p : Progress) (st : State) :
    Consults ((startup setup.dialect p.pending.isSome ls).countP fun l => asksForLine l.text)
      (scan setup ls p) st := by
  induction ls generalizing p st with
  | nil => exact ⟨0, Nat.zero_le _, fun _ _ => rfl⟩
  | cons l ls ih =>
    obtain ⟨hl, hls⟩ := List.forall_mem_cons.mp htrim
    by_cases h : Executes setup l p
    · rw [startup_cons_of_executes h, List.countP_cons, Nat.add_comm]
      have ⟨_, _, _, hassigns⟩ := h
      have henter := Machine.enter_consults setup [] hl hassigns st
      have hline : Consults (if asksForLine l.text then 1 else 0) (line setup l p) st :=
        (henter.map fun r => r.map fun _ => p).congr fun _ => line_of_executes h hl _
      refine (hline.andThen fun q hq => ?_).congr fun input => scan_cons setup l ls p _
      -- An assignment leaves the sections as they are.
      obtain rfl : q = p := by
        rw [line_of_executes h hl] at hq
        dsimp only at hq
        rcases hresult : (Machine.enter setup [] l st).1 with f | callee <;> rw [hresult] at hq
        · cases hq
        · exact (Except.ok.inj hq).symm
      exact ih hls q _
    · obtain ⟨r, hline⟩ := line_of_not_executes h
      cases r with
      | error f =>
        refine ⟨0, Nat.zero_le _, fun input _ => ?_⟩
        rw [scan_cons, scan_cons, hline, hline]
        rfl
      | ok q =>
        rw [startup_cons_of_not_executes h (hline st)]
        refine (ih hls q st).congr fun input => ?_
        rw [scan_cons, hline]
        rfl

theorem load_consults (setup : Setup) (source : Bytes) (st : State) :
    Consults ((startup setup.dialect false (sourceLines source)).countP fun l => asksForLine l.text)
      (load setup source) st := by
  have hscan := scan_consults setup (@trim_of_mem_sourceLines source) {} st
  refine (hscan.map fun r => r.bind (finish setup.dialect)).congr fun input => ?_
  rw [load_eq_scan]
  rcases scan setup (sourceLines source) {} (st.fed input) with ⟨f | p, mid⟩ <;> rfl

theorem scan_of_ne_clarity {setup : Setup} (hdialect : setup.dialect ≠ .clarity)
    (ls : List SourceLine) (p : Progress) (st : State) : (scan setup ls p st).2 = st := by
  induction ls generalizing p with
  | nil => rfl
  | cons l ls ih =>
    obtain ⟨r, hline⟩ := @line_of_not_executes setup l p fun h => hdialect h.2.2.1
    rw [scan_cons, hline]
    cases r with
    | error f => rfl
    | ok q => exact ih q

/-- Loading executes assignments outside all sections, from the first one on, in the one dialect in
which they may stand there. -/
theorem load_startup (setup : Setup) (source : Bytes) (st : State) :
    ∃ done, done <+: startup setup.dialect false (sourceLines source) ∧
      Assigns { setup with dialect := .clarity } done st (load setup source st).2 := by
  by_cases hdialect : setup.dialect = .clarity
  · obtain ⟨done, hdone, hassigns⟩ := load_assigns setup source st
    refine ⟨done, ?_, ?_⟩
    · rw [startup, if_pos hdialect, ← List.filter_eq_self.mpr hassigns.assignments]
      exact hdone.filter _
    · rw [← hdialect]
      exact hassigns
  · have hload : (load setup source st).2 = st := by
      have hscan := scan_of_ne_clarity hdialect (sourceLines source) {} st
      rw [load_eq_scan]
      rcases hresult : scan setup (sourceLines source) {} st with ⟨f | p, mid⟩ <;>
        rw [hresult] at hscan <;> exact hscan
    rw [hload]
    exact ⟨[], List.nil_prefix, assigns_nil _ st⟩

/-- A source that loads has had all of them executed. -/
theorem load_executed {setup : Setup} {source : Bytes} {st : State} {p : Program}
    (h : (load setup source st).1 = .ok p) :
    (load setup source st).2.executed =
      st.executed + (startup setup.dialect false (sourceLines source)).length := by
  rcases load_spec setup source st with ⟨q, mid, hload, _, htop, complete⟩ | ⟨f, mid, hload, _⟩
  · have hcounts := runLines_counts setup [] (loose false (sourceLines source)) st
    rw [topLevel] at htop
    rw [htop, loose_eq_startup complete.clean] at hcounts
    rw [hload]
    exact hcounts.all () rfl
  · rw [hload] at h
    cases h

end Loading

/-! ## Listing -/

namespace Launch

/-- The assignments that getting a file ready comes to, if none of them fails. -/
def startup (settings : Settings) (read : FileReader) (name : Bytes) : List SourceLine :=
  match prepare settings read name with
  | .ok (dialect, text) => Loading.startup dialect false (Loading.sourceLines text)
  | .error _ => []

/-- The listing of a program that is ready, or the report that there is none. -/
def listed (color : Bool) : Outcome Setup → Launch
  | (.error f, st) => failed color f st none
  | (.ok setup, st) => ⟨.ok 0, listing (setup.program.getD .empty) st, none⟩

theorem file_eq_listed {settings : Settings} (hlist : settings.list = true) (read : FileReader)
    (fuel : Nat) (name : Bytes) (st : State) :
    file settings read fuel name st = listed settings.color (ready settings read name st) := by
  rw [file, ready]
  cases prepare settings read name with
  | error c => rfl
  | ok prepared =>
    obtain ⟨dialect, text⟩ := prepared
    dsimp only
    rcases Loading.load { dialect, watch := settings.watch } text st with ⟨f | p, mid⟩
    · rfl
    · simp only [hlist]
      rfl

theorem listed_fed (color : Bool) (r : Except Fault Setup) (st : State) (input : Input) :
    listed color (r, st.fed input) =
      { listed color (r, st) with state := (listed color (r, st)).state.fed input } := by
  cases r with
  | error f =>
    rw [listed, listed, failed, failed]
    split <;> rfl
  | ok setup => rfl

/-- Only the output of the state is for a listing to change. -/
theorem listed_state (color : Bool) (o : Outcome Setup) :
    (listed color o).state = { o.2 with output := (listed color o).state.output } := by
  rcases o with ⟨f | setup, st⟩
  · rw [listed, failed]
    split <;> rfl
  · rfl

theorem ready_consults (settings : Settings) (read : FileReader) (name : Bytes) (st : State) :
    Consults ((startup settings read name).countP fun l => asksForLine l.text)
      (ready settings read name) st := by
  rw [startup]
  cases hprepare : prepare settings read name with
  | error c =>
    refine ⟨0, Nat.zero_le _, fun input _ => ?_⟩
    rw [ready, ready, hprepare]
    rfl
  | ok prepared =>
    obtain ⟨dialect, text⟩ := prepared
    obtain ⟨n, hn, hload⟩ := Loading.load_consults { dialect, watch := settings.watch } text st
    refine ⟨n, hn, fun input halike => ?_⟩
    simp only [ready, hprepare, hload input halike]
    rcases Loading.load { dialect, watch := settings.watch } text st with ⟨f | p, mid⟩ <;> rfl

theorem ready_startup (settings : Settings) (read : FileReader) (name : Bytes) (st : State) :
    ∃ done after, done <+: startup settings read name ∧
      Loading.Assigns { dialect := .clarity, watch := settings.watch } done st after ∧
      (ready settings read name st).2 =
        { after with log := (ready settings read name st).2.log } := by
  rw [startup, ready]
  cases prepare settings read name with
  | error c => exact ⟨[], st, List.nil_prefix, Loading.assigns_nil _ st, rfl⟩
  | ok prepared =>
    obtain ⟨dialect, text⟩ := prepared
    obtain ⟨done, hdone, hassigns⟩ :=
      Loading.load_startup { dialect, watch := settings.watch } text st
    refine ⟨done, _, hdone, hassigns, ?_⟩
    dsimp only
    rcases Loading.load { dialect, watch := settings.watch } text st with ⟨f | p, mid⟩ <;> rfl

theorem ready_executed {settings : Settings} {read : FileReader} {name : Bytes} {st start : State}
    {setup : Setup} (h : ready settings read name st = (.ok setup, start)) :
    start.executed = st.executed + (startup settings read name).length := by
  rw [ready] at h
  rw [startup]
  cases hprepare : prepare settings read name with
  | error c =>
    rw [hprepare] at h
    cases h
  | ok prepared =>
    obtain ⟨dialect, text⟩ := prepared
    rw [hprepare] at h
    dsimp only at h
    rcases hload : Loading.load { dialect, watch := settings.watch } text st with ⟨f | p, mid⟩ <;>
      rw [hload] at h
    · cases h
    · have hexecuted := Loading.load_executed (congrArg Prod.fst hload)
      rw [hload] at hexecuted
      obtain ⟨_, rfl⟩ := Prod.mk.inj h
      exact hexecuted

section File

variable {settings : Settings} (hlist : settings.list = true) (read : FileReader) (fuel : Nat)
  (name : Bytes) (st : State)
include hlist

theorem file_startup :
    ∃ done after, done <+: startup settings read name ∧
      Loading.Assigns { dialect := .clarity, watch := settings.watch } done st after ∧
      (file settings read fuel name st).state =
        { after with
          output := (file settings read fuel name st).state.output
          log := (file settings read fuel name st).state.log } := by
  obtain ⟨done, after, hdone, hassigns, hready⟩ := ready_startup settings read name st
  have hstate := listed_state settings.color (ready settings read name st)
  rw [hready] at hstate
  refine ⟨done, after, hdone, hassigns, ?_⟩
  rw [file_eq_listed hlist, hstate]

/-- The fuel is for runs, so it may differ as well. -/
theorem file_asks :
    ∃ n ≤ (startup settings read name).countP fun a => asksForLine a.text,
      (file settings read fuel name st).state.input = st.input.after n ∧
      ∀ fuel' input, st.input.AlikeFor n input →
        file settings read fuel' name (st.fed input) =
          { file settings read fuel name st with
            state := (file settings read fuel name st).state.fed (input.after n) } := by
  obtain ⟨n, hn, hleft, hsame⟩ := (ready_consults settings read name st).left
  refine ⟨n, hn, ?_, fun fuel' input halike => ?_⟩
  · rw [file_eq_listed hlist, listed_state]
    exact hleft
  · rw [file_eq_listed hlist, file_eq_listed hlist, hsame input halike]
    exact listed_fed settings.color _ _ _

theorem file_listed {setup : Setup} {start : State} {p : Program}
    (hready : ready settings read name st = (.ok setup, start)) (hp : setup.program = some p) :
    (file settings read fuel name st).status = .ok 0 ∧
      (file settings read fuel name st).state.output =
        (Program.list p).foldl Output.offer st.output ∧
      (file settings read fuel name st).state.executed =
        st.executed + (startup settings read name).length := by
  obtain ⟨done, after, _, hassigns, hstart⟩ := ready_startup settings read name st
  have houtput : start.output = st.output := by
    rw [hready] at hstart
    exact (congrArg State.output hstart).trans hassigns.output
  have hexecuted := ready_executed hready
  rw [file_eq_listed hlist, hready, listed, hp, ← houtput]
  exact ⟨rfl, rfl, hexecuted⟩

end File

/-- To list a program is not to run it. The only lines that are executed are assignments outside all
sections, in order and from the first one on, and nothing else is counted. The input is asked at most
once for each of them that is of `%`; with another input that gives the same answers all is the same
but what is left of the input. Where there is no such assignment, the input is not asked, and it
makes no difference. A program that is ready is listed with status 0, and then all the assignments
have been executed. -/
theorem listing_runs_no_section {settings : Settings} (hlist : settings.list = true)
    (read : FileReader) (fuel : Nat) (name : Bytes) (st : State) :
    let l := file settings read fuel name st
    let assignments := startup settings read name
    (∃ done after, done <+: assignments ∧
      Loading.Assigns { dialect := .clarity, watch := settings.watch } done st after ∧
      l.state = { after with output := l.state.output, log := l.state.log } ∧
      st.executed ≤ l.state.executed ∧ l.state.executed ≤ st.executed + done.length) ∧
    (∃ n ≤ assignments.countP fun a => asksForLine a.text,
      l.state.input = st.input.after n ∧
      ∀ fuel' input, st.input.AlikeFor n input →
        file settings read fuel' name (st.fed input) =
          { l with state := l.state.fed (input.after n) }) ∧
    ((∀ a ∈ assignments, ¬ asksForLine a.text = true) →
      l.state.input = st.input ∧
      ∀ fuel' input, file settings read fuel' name (st.fed input) =
        { l with state := l.state.fed input }) ∧
    ∀ setup start p, ready settings read name st = (.ok setup, start) → setup.program = some p →
      l.status = .ok 0 ∧ l.state.output = (Program.list p).foldl Output.offer st.output ∧
        l.state.executed = st.executed + assignments.length := by
  have hasks := file_asks hlist read fuel name st
  refine ⟨?_, hasks, ?_, fun _ _ _ => file_listed hlist read fuel name st⟩
  · obtain ⟨done, after, hdone, hassigns, hstate⟩ := file_startup hlist read fuel name st
    have hcounts := Loading.runLines_counts { dialect := .clarity, watch := settings.watch } []
      done st
    have hexecuted : (file settings read fuel name st).state.executed =
        (Machine.runLines { dialect := .clarity, watch := settings.watch } Loading.noCall []
          done st).2.executed := by
      rw [hstate, ← hassigns.state]
    exact ⟨done, after, hdone, hassigns, hstate, hexecuted ▸ hcounts.least,
      hexecuted ▸ hcounts.most⟩
  · intro hnone
    obtain ⟨n, hn, hinput, hfile⟩ := hasks
    rw [List.countP_eq_zero.mpr hnone, Nat.le_zero] at hn
    subst hn
    exact ⟨hinput, fun fuel' input => hfile fuel' input fun _ h => absurd h (Nat.not_lt_zero _)⟩

/-- A file whose second line asks for input outside all sections. -/
def inquiring : FileReader := fun _ =>
  .ok (ascii "$n = 1\n$x = %\nsect main\nprint $x\n;\n")

/-- The state in which there are two lines to read. -/
def supplied : State where
  input := .stream (ascii "7\nmore\n") none

/-- A stream and prepared replies that begin alike have the same listing, with any fuel. -/
theorem listing_runs_no_section_inquiring :
    ∃ l l', file { list := true } inquiring 0 (ascii "p.lnh") supplied = l ∧
      file { list := true } inquiring 9 (ascii "p.lnh")
        (supplied.fed (.scripted [⟨false, .line (ascii "7")⟩])) = l' ∧
      l.status = .ok 0 ∧ l.state.output.text = ascii "sect main\n    4  print $x\n;\n" ∧
      l'.status = l.status ∧ l'.state.output = l.state.output ∧ l.state.executed ≤ 2 := by
  have hstartup : (startup { list := true } inquiring (ascii "p.lnh")).length = 2 := by
    decide +kernel
  have hasking : ((startup { list := true } inquiring (ascii "p.lnh")).countP fun a =>
      asksForLine a.text) = 1 := by
    decide +kernel
  have hstatus : (file { list := true } inquiring 0 (ascii "p.lnh") supplied).status = .ok 0 := by
    decide +kernel
  have htext : (file { list := true } inquiring 0 (ascii "p.lnh") supplied).state.output.text =
      ascii "sect main\n    4  print $x\n;\n" := by
    decide +kernel
  obtain ⟨⟨done, _, hdone, _, _, _, hexecuted⟩, ⟨n, hn, _, hsame⟩, _⟩ :=
    @listing_runs_no_section { list := true } rfl inquiring 0 (ascii "p.lnh") supplied
  have halike : supplied.input.AlikeFor n (.scripted [⟨false, .line (ascii "7")⟩]) := by
    intro k hk
    obtain rfl : k = 0 := by omega
    rfl
  have hlength := hdone.length_le
  rw [hstartup] at hlength
  have hl' := hsame 9 _ halike
  -- Otherwise the listing would be evaluated again by the terms below.
  obtain ⟨l, hl⟩ : ∃ l, file { list := true } inquiring 0 (ascii "p.lnh") supplied = l :=
    ⟨_, rfl⟩
  rw [hl] at hstatus htext hexecuted hl'
  have hnone : supplied.executed = 0 := rfl
  rw [hnone, Nat.zero_add] at hexecuted
  exact ⟨l, _, hl, hl', hstatus, htext, rfl, rfl, hexecuted.trans hlength⟩

/-- A listing is not free of its input: where an assignment outside all sections asks for a line, an
input at its end and one that has the line make a difference, and the line is counted. -/
theorem listing_meets_input :
    let read : FileReader := fun _ => .ok (ascii "$x=%\nsect main\n;\n")
    let settings : Settings := { list := true, color := false }
    let unanswered := file settings read 0 (ascii "p.lnh") { input := .stream [] none }
    let answered := file settings read 0 (ascii "p.lnh") { input := .stream (ascii "7\n") none }
    unanswered.status = .ok 1 ∧ answered.status = .ok 0 ∧
      unanswered.state.output.text = ascii "Runtime Error at line 1: End of input\n  $x=%\n" ∧
      answered.state.output.text = ascii "sect main\n;\n" ∧
      unanswered.state.executed = 1 ∧ answered.state.executed = 1 := by
  decide +kernel

end Launch

end SectScript
