import SectScript.Launch
import SectScript.Proofs.Machine.Termination
import SectScript.Proofs.Machine.Unobserved

/-!
# Observers leave a launch as it is

Traces, dumps and statistics are asked for in the settings and go to the log. Two launches of one
file that differ in nothing else end alike: with the same status, the same output and the same rest
of the input, or neither ends. The prompt and the time to wait for a line make no difference either.
-/

namespace SectScript

/-! ## Loading in lockstep -/

namespace Lockstep

variable {pass : Fault → Prop} {R : State → State → Prop} {setup setup' : Setup}
  (h : Lockstep pass R setup setup') (hd : setup'.dialect = setup.dialect)
include h hd

theorem loadLine (l : SourceLine) (p : Loading.Progress) {st st' : State} (hR : R st st') :
    Matches pass R (Loading.line setup l p st) (Loading.line setup' l p st') := by
  rw [Loading.line, Loading.line, hd]
  split
  · dsimp only
    split
    · exact .of_state hR
    · exact .of_state hR
  · split
    · split
      · exact .of_state hR
      · exact .of_state hR
    · split
      · exact .of_state hR
      · split
        · -- an assignment outside all sections is a line like any other
          have hnone : ∀ name {st st' : State}, R st st' →
              Matches pass R (Loading.noCall name st) (Loading.noCall name st') :=
            fun _ _ _ hR => .of_state hR
          have hline := h.runLine hnone [] l hR
          rcases hline.split with ⟨f, after, ho, hf⟩ | ⟨r, after, after', ho, ho', hafter⟩
          · rw [ho]
            exact .of_pass rfl hf
          · rw [ho, ho']
            rcases r with f | _
            · exact .of_state hafter
            · exact .of_state hafter
        · exact .of_state hR

theorem loadLines (n : Nat) (raws : List Bytes) (p : Loading.Progress) {st st' : State}
    (hR : R st st') :
    Matches pass R (Loading.lines setup n raws p st) (Loading.lines setup' n raws p st') := by
  induction raws generalizing n p st st' with
  | nil => exact .of_state hR
  | cons raw rest ih =>
    rw [Loading.lines, Loading.lines]
    split
    · exact ih (n + 1) p hR
    · have hline := h.loadLine hd ⟨n, Bytes.trim raw⟩ p hR
      rcases hline.split with ⟨f, after, ho, hf⟩ | ⟨r, after, after', ho, ho', hafter⟩
      · rw [ho]
        exact .of_pass rfl hf
      · rw [ho, ho']
        rcases r with f | p'
        · exact .of_state hafter
        · exact ih (n + 1) p' hafter

theorem load (source : Bytes) {st st' : State} (hR : R st st') :
    Matches pass R (Loading.load setup source st) (Loading.load setup' source st') := by
  have hlines := h.loadLines hd 1 (Bytes.pieces 0x0A source) {} hR
  rw [Loading.load, Loading.load]
  rcases hlines.split with ⟨f, after, ho, hf⟩ | ⟨r, after, after', ho, ho', hafter⟩
  · rw [ho]
    exact .of_pass rfl hf
  · rw [ho, ho', hd]
    rcases r with f | p
    · exact .of_state hafter
    · exact .of_state hafter

end Lockstep

namespace Launch

/-! ## Launches that end -/

theorem execute_of_le {settings : Settings} {setup : Setup} {fuel fuel' : Nat}
    (hle : fuel ≤ fuel') {st : State}
    (h : (execute settings setup fuel st).status ≠ .error .unfinished) :
    execute settings setup fuel' st = execute settings setup fuel st := by
  have hrun : (Machine.run setup fuel st).1 ≠ .error .unfinished := by
    intro hspent
    apply h
    rw [execute]
    rcases hrun : Machine.run setup fuel st with ⟨f | _, after⟩ <;> rw [hrun] at hspent
    · obtain rfl := Except.error.inj hspent
      rfl
    · cases hspent
  have hsame : Task.program.outcome setup fuel' st = Task.program.outcome setup fuel st :=
    Task.outcome_of_le hle hrun
  simp only [Task.outcome] at hsame
  rw [execute, execute, hsame]

/-- More fuel does not change a launch that has ended. -/
theorem file_of_le {settings : Settings} {read : FileReader} {fuel fuel' : Nat}
    (hle : fuel ≤ fuel') {name : Bytes} {st : State}
    (h : (file settings read fuel name st).status ≠ .error .unfinished) :
    file settings read fuel' name st = file settings read fuel name st := by
  rw [file] at h
  rw [file, file]
  cases hprepare : prepare settings read name with
  | error c => rfl
  | ok prepared =>
    obtain ⟨dialect, text⟩ := prepared
    simp only [hprepare] at h ⊢
    rcases hload : Loading.load { dialect, watch := settings.watch } text st with ⟨f | p, after⟩
    · rfl
    · simp only [hload] at h ⊢
      by_cases hlist : settings.list = true
      · rw [if_pos hlist, if_pos hlist]
      · rw [if_neg hlist] at h ⊢
        rw [if_neg hlist]
        exact execute_of_le hle h

/-- The launch ends as `l`, calls being as deep as they need to be. -/
def Finishes (settings : Settings) (read : FileReader) (name : Bytes) (st : State) (l : Launch) :
    Prop :=
  l.status ≠ .error .unfinished ∧ ∃ fuel, file settings read fuel name st = l

theorem Finishes.eventually {settings : Settings} {read : FileReader} {name : Bytes} {st : State}
    {l : Launch} (h : Finishes settings read name st l) :
    ∃ depth, ∀ fuel, depth ≤ fuel → file settings read fuel name st = l := by
  obtain ⟨hend, depth, rfl⟩ := h
  exact ⟨depth, fun fuel hle => file_of_le hle hend⟩

/-! ## Launches that differ in their observers -/

/-- The launches show the same of the program: status, output, and the input that is left. -/
structure Alike (I : Input → Input → Prop) (l l' : Launch) : Prop where
  status : l.status = l'.status
  output : l.state.output = l'.state.output
  input : I l.state.input l'.state.input

/-- The settings agree in all that bears on the course of a launch. -/
structure SameCourse (settings settings' : Settings) : Prop where
  dialect : settings.dialect = settings'.dialect
  color : settings.color = settings'.color
  list : settings.list = settings'.list

variable {I : Input → Input → Prop}

theorem failed_alike {st st' : State} (h : st.Unobserved I st') (color : Bool) (f : Fault)
    (n n' : Option Nat) : Alike I (failed color f st n) (failed color f st' n') := by
  rw [failed, failed]
  split
  · exact ⟨rfl, h.output, h.input⟩
  · have hreport : st.output.offer (Report.fault f color ++ Bytes.newline) =
        st'.output.offer (Report.fault f color ++ Bytes.newline) := by rw [h.output]
    exact ⟨rfl, hreport, h.input⟩

section SameCourse

variable (hI : Input.Echoes I) {settings settings' : Settings} (hs : SameCourse settings settings')
include hI hs

theorem execute_alike {setup setup' : Setup} (hd : setup'.dialect = setup.dialect)
    (hp : setup'.program = setup.program) (fuel : Nat) {st st' : State} (h : st.Unobserved I st') :
    Alike I (execute settings setup fuel st) (execute settings' setup' fuel st') := by
  have hrun : Matches (fun _ => False) (State.Unobserved I) (Machine.run setup fuel st)
      (Machine.run setup' fuel st') :=
    (lockstep_unobserved hI hd hp).outcome (by rw [hd]) id (Or.inl rfl) .program h
  rw [execute, execute]
  rcases hrun.split with ⟨_, _, _, hfalse⟩ | ⟨r, after, after', ho, ho', hafter⟩
  · exact hfalse.elim
  · rw [ho, ho', hs.color]
    rcases r with f | _
    · dsimp only
      split
      · exact ⟨rfl, hafter.output, hafter.input⟩
      · exact failed_alike (hafter.note _ _) settings'.color f _ _
    · exact ⟨rfl, hafter.output, hafter.input⟩

theorem file_alike (read : FileReader) (fuel : Nat) (name : Bytes) {st st' : State}
    (h : st.Unobserved I st') :
    Alike I (file settings read fuel name st) (file settings' read fuel name st') := by
  have hprepare : prepare settings read name = prepare settings' read name := by
    rw [prepare, prepare, hs.dialect]
  rw [file, file, hprepare, hs.color, hs.list]
  cases prepare settings' read name with
  | error c => exact failed_alike h settings'.color _ _ _
  | ok prepared =>
    obtain ⟨dialect, text⟩ := prepared
    dsimp only
    have hlockstep : Lockstep (fun _ => False) (State.Unobserved I)
        { dialect, watch := settings.watch } { dialect, watch := settings'.watch } :=
      lockstep_unobserved hI rfl rfl
    have hload := hlockstep.load rfl text h
    rcases hload.split with ⟨_, _, _, hfalse⟩ | ⟨r, after, after', ho, ho', hafter⟩
    · exact hfalse.elim
    · rw [ho, ho']
      rcases r with f | p
      · exact failed_alike hafter settings'.color f _ _
      · dsimp only
        split
        · have hlisting : (Program.list p).foldl Output.offer after.output =
              (Program.list p).foldl Output.offer after'.output := by rw [hafter.output]
          exact ⟨rfl, hlisting, hafter.input⟩
        · refine execute_alike hI hs ?_ ?_ fuel (hafter.note _ _)
          · rfl
          · rfl

end SameCourse

/-- A launch ends whatever is traced, dumped and counted, and however lines are asked for, or it
never ends; and then it has the same status, writes the same output and leaves the same input. The
inputs of the two launches may be the same, or answer alike in another way that `I` says. -/
theorem observers_unseen (hI : Input.Echoes I) (settings : Settings) (trace : TraceSettings)
    (dump stats : Bool) (prompt : Bytes) (timeout : Int) (read : FileReader) (name : Bytes)
    (st : State) {input : Input} (hinput : I st.input input) :
    let settings' :=
      { settings with trace, dump, stats, readPrompt := prompt, readTimeout := timeout }
    let st' := { st with input }
    ((∃ l, Finishes settings read name st l) ↔ ∃ l, Finishes settings' read name st' l) ∧
    ∀ l l', Finishes settings read name st l → Finishes settings' read name st' l' →
      l.status = l'.status ∧ l.state.output = l'.state.output ∧
        I l.state.input l'.state.input := by
  intro settings' st'
  have hst : st.Unobserved I st' := ⟨rfl, hinput, rfl, rfl, rfl, rfl⟩
  have hsettings : SameCourse settings settings' := ⟨rfl, rfl, rfl⟩
  have halike : ∀ fuel, Alike I (file settings read fuel name st)
      (file settings' read fuel name st') := fun fuel =>
    file_alike hI hsettings read fuel name hst
  refine ⟨⟨?_, ?_⟩, ?_⟩
  · rintro ⟨_, hend, fuel, rfl⟩
    rw [(halike fuel).status] at hend
    exact ⟨_, hend, fuel, rfl⟩
  · rintro ⟨_, hend, fuel, rfl⟩
    rw [← (halike fuel).status] at hend
    exact ⟨_, hend, fuel, rfl⟩
  · intro l l' hl hl'
    obtain ⟨depth, hdepth⟩ := hl.eventually
    obtain ⟨depth', hdepth'⟩ := hl'.eventually
    have hsame := halike (max depth depth')
    rw [hdepth _ (by omega), hdepth' _ (by omega)] at hsame
    exact ⟨hsame.status, hsame.output, hsame.input⟩

/-- A file whose program asks for a line outside all sections and prints it. -/
def asking : FileReader := fun _ => .ok (ascii "$x = %\nsect main\nprint $x\n;")

/-- A terminal at which `7` and another line are typed. -/
def typing (prompt : Bytes) : State where
  input := .terminal prompt (ascii "7\n8\n") []

theorem observers_unseen_asking :
    let file := ascii "ask.lnh"
    let plain : Settings := { readPrompt := ascii "> " }
    let trace : TraceSettings := { exec := true, watched := [ascii "$x"] }
    let watched := { plain with trace, dump := true, stats := true, readPrompt := ascii "? " }
    ∃ l l', Finishes plain asking file (typing (ascii "> ")) l ∧
      Finishes watched asking file (typing (ascii "? ")) l' ∧
      l.state.log.size = 0 ∧ l'.state.log.size = 6 ∧ l.state.output.text = ascii "7\n" ∧
      l.status = l'.status ∧ l.state.output = l'.state.output ∧
      l.state.input.SameText l'.state.input := by
  intro file plain trace watched
  have hl : Finishes plain asking file (typing (ascii "> "))
      (Launch.file plain asking 1 file (typing (ascii "> "))) := ⟨by decide +kernel, 1, rfl⟩
  have hl' : Finishes watched asking file (typing (ascii "? "))
      (Launch.file watched asking 1 file (typing (ascii "? "))) := ⟨by decide +kernel, 1, rfl⟩
  have hterminals : (typing (ascii "> ")).input.SameText (typing (ascii "? ")).input :=
    .terminals (by decide +kernel) (by decide +kernel) _ _ _
  refine ⟨_, _, hl, hl', by decide +kernel, by decide +kernel, by decide +kernel, ?_⟩
  exact (observers_unseen Input.echoes_sameText plain trace true true (ascii "? ") 0 asking file
    (typing (ascii "> ")) hterminals).2 _ _ hl hl'

end Launch

end SectScript
