import SectScript.Proofs.Loading.Scan
import SectScript.Proofs.Machine.Location
import SectScript.Proofs.Text.Line

/-!
# Errors and the lines of a source

An error names a line by its number and its text, and both agree with the source. In a run the line
is the last that was come to; in loading it is the line that is out of place, and only an error
about the source as a whole names none.
-/

namespace SectScript

namespace Loading

/-- A line of the source that is not blank: its number counts from 1, its text is trimmed. -/
def LineOf (source : Bytes) (l : SourceLine) : Prop :=
  1 ≤ l.number ∧ (Bytes.pieces 0x0A source)[l.number.toNat - 1]?.map Bytes.trim = some l.text ∧
    l.text ≠ []

theorem mem_sourceLines {source : Bytes} {l : SourceLine} (h : l ∈ sourceLines source) :
    LineOf source l := by
  rw [sourceLines, numbered, List.mem_filterMap] at h
  obtain ⟨⟨raw, n⟩, hraw, hl⟩ := h
  rw [List.mem_zipIdx_iff_le_and_getElem?_sub] at hraw
  split at hl
  · cases hl
  · obtain rfl := Option.some.inj hl
    refine ⟨?_, ?_, by assumption⟩
    · exact Int.ofNat_le.mpr hraw.1
    · simp [hraw.2]

theorem trim_of_lineOf {source : Bytes} {l : SourceLine} (h : LineOf source l) :
    Bytes.trim l.text = l.text := by
  obtain ⟨raw, _, hraw⟩ := Option.map_eq_some_iff.mp h.2.1
  rw [← hraw, Bytes.trim_trim]

theorem lineOf_flat {source : Bytes} {l : SourceLine} (h : LineOf source l) : 0x0A ∉ l.text := by
  obtain ⟨raw, hraw, htext⟩ := Option.map_eq_some_iff.mp h.2.1
  rw [← htext]
  exact fun hmem => Bytes.not_mem_of_mem_pieces (List.mem_of_getElem? hraw)
    (Bytes.trim_subset raw hmem)

theorem CommitsLast.mem {ls : List SourceLine} {name : Bytes} {o : SourceLine}
    {body : List SourceLine} (h : CommitsLast ls name o body) {l : SourceLine} (hl : l ∈ body) :
    l ∈ ls := by
  obtain ⟨a, c, post, rfl, _, ⟨⟨b, rfl⟩, _⟩, _⟩ := h
  simp [hl]

theorem Reflects.lineOf {source : Bytes} {p : Progress} (h : Reflects (sourceLines source) p)
    {name : Bytes} {s : Section} (hs : p.program.find? name = some s) :
    ∀ l ∈ s.body, LineOf source l := by
  intro l hl
  obtain ⟨o, ho, _⟩ := h.found name s hs
  exact mem_sourceLines (ho.mem hl)

theorem Reflects.numbered {source : Bytes} {p : Progress} (h : Reflects (sourceLines source) p) :
    Program.Numbered p.program := by
  intro name s hs l hl hzero
  have hpos := (h.lineOf hs l hl).1
  omega

theorem Reflects.entries_found {setup : Setup} {st : State} {ls : List SourceLine} {p : Progress}
    (h : Reflects ls p) (complete : Complete setup st ls) :
    ∀ name ∈ setup.dialect.entrySections, ∃ s, p.program.find? name = some s := by
  intro name hname
  cases hfind : p.program.find? name with
  | some s => exact ⟨s, rfl⟩
  | none =>
    obtain ⟨o, body, hcommit⟩ := complete.entries name hname
    exact absurd hcommit (h.missing name hfind o body)

end Loading

/-! ## Assignments outside all sections -/

theorem Statement.ofLine_assignment {line : Bytes} (h : isAssignment (Bytes.trim line) = true) :
    (∃ c, Statement.ofLine line = .error c) ∨ ∃ name expr, (Form.assign name expr).On line := by
  have heq := Statement.ofLine_eq_ofAssignment h
  cases hstmt : Statement.ofLine line with
  | error c => exact Or.inl ⟨c, rfl⟩
  | ok stmt =>
    obtain ⟨name, expr, rfl⟩ := Statement.ofAssignment_form (heq.symm.trans hstmt)
    exact Or.inr ⟨name, expr, hstmt⟩

namespace Machine

theorem Steps.assignment {setup : Setup} {sect line : Bytes} {st : State} {o : Outcome Callee}
    (h : Steps setup sect line st o) (ha : isAssignment (Bytes.trim line) = true) :
    (∃ c, o = (.error (.ofCause c), st)) ∨ ∃ name expr, o =
      ended (Machine.assign setup sect name expr (st.heard setup (.assign name expr) line)) := by
  cases h with
  | @unread _ _ c => exact Or.inl ⟨c, rfl⟩
  | assign h => exact Or.inr ⟨_, _, rfl⟩
  | comment h | printVar h | printText h | call h | exit h | fault h | skip h | take h =>
    rcases Statement.ofLine_assignment ha with ⟨c, hc⟩ | ⟨name, expr, hassign⟩
    · cases hc.symm.trans h
    · cases hassign.symm.trans h

theorem poll_input (st : State) : st.poll.input = st.input := by
  rw [State.poll]
  split <;> rfl

theorem print_input (arg : Node) (st : State) : (print arg st).2.input = st.input := by
  rw [print]
  split
  · rfl
  · split <;> rfl

theorem readLine_input (st : State) : st.readLine.2.input = .absent ↔ st.input = .absent := by
  rw [State.readLine]
  split
  · rfl
  case h_2 reply interrupts left hread =>
    have hleft : left ≠ .absent := Input.read?_ne_absent hread
    have hinput : st.input ≠ .absent := by
      intro h
      rw [Input.read?_eq_none_iff.mpr h] at hread
      cases hread
    dsimp only
    split
    · exact iff_of_false hleft hinput
    · exact iff_of_false hleft hinput

theorem assign_input (setup : Setup) (sect name expr : Bytes) (st : State) :
    (assign setup sect name expr st).2.input = .absent ↔ st.input = .absent := by
  rw [assign]
  split
  · have h := readLine_input st
    rcases hread : st.readLine with ⟨_ | line, st'⟩ <;> rw [hread] at h
    · exact h
    · dsimp only
      rw [assignText_input]
      exact h
  · rw [assignText_input]

/-- A line neither takes the input away nor brings one. -/
theorem Steps.input {setup : Setup} {sect line : Bytes} {st : State} {o : Outcome Callee}
    (h : Steps setup sect line st o) : o.2.input = .absent ↔ st.input = .absent := by
  induction h with
  | unread | comment | call | exit | fault | skip => rfl
  | printVar | printText => exact iff_of_eq (congrArg (· = Input.absent) (print_input _ _))
  | assign => exact assign_input _ _ _ _ _
  | take _ _ _ ih => exact ih

theorem enter_input (setup : Setup) (sect : Bytes) (l : SourceLine) (st : State) :
    (enter setup sect l st).2.input = .absent ↔ st.input = .absent := by
  rw [enter]
  split
  · rw [← poll_input st]
  · exact (step_steps setup sect l.text (counted setup sect l st)).input.trans (by
      rw [← poll_input st]; rfl)

section Assignment

variable {setup : Setup} {sect : Bytes} {l : SourceLine} (htrim : Bytes.trim l.text = l.text)
  (ha : isAssignment l.text = true)
include htrim ha

theorem enter_assignment_ne_call (st : State) (name : Bytes) :
    (enter setup sect l st).1 ≠ .ok (some name) := by
  rw [enter]
  split
  · intro h
    cases h
  · rw [← htrim] at ha
    rcases (step_steps setup sect l.text (counted setup sect l st)).assignment ha with
      ⟨c, hc⟩ | ⟨x, expr, hx⟩
    · rw [hc]
      intro h
      cases h
    · rw [hx]
      rcases hassign : assign setup sect x expr _ with ⟨_ | _, st'⟩ <;> intro h <;> cases h

/-- An assignment fails at its place, if there is an input to read from. -/
theorem enter_assignment_error {st : State} {f : Fault}
    (h : (enter setup sect l st).1 = .error f) :
    (∃ e, f = .error e ∧ e.place = l) ∨
      f = .internal (ascii "No input source") ∧ st.input = .absent := by
  rw [enter] at h
  split at h
  · obtain rfl := Except.error.inj h
    exact Or.inl ⟨_, rfl, rfl⟩
  · rw [← htrim] at ha
    rcases (step_steps setup sect l.text (counted setup sect l st)).assignment ha with
      ⟨c, hc⟩ | ⟨x, expr, hx⟩
    · rw [hc] at h
      obtain rfl := Except.error.inj h
      exact Or.inl ⟨_, rfl, rfl⟩
    · rw [hx] at h
      rcases hassign : assign setup sect x expr _ with ⟨g | _, st'⟩ <;> rw [hassign] at h
      · obtain rfl := Except.error.inj h
        rcases assign_error (by rw [hassign]) with ⟨c, rfl⟩ | ⟨rfl, hinput⟩
        · exact Or.inl ⟨_, rfl, rfl⟩
        · exact Or.inr ⟨rfl, (poll_input st).symm.trans hinput⟩
      · cases h

end Assignment

end Machine

namespace Loading

theorem runLine_assignment_error {setup : Setup} {l : SourceLine}
    (htrim : Bytes.trim l.text = l.text) (ha : isAssignment l.text = true) {st : State} {f : Fault}
    (h : (Machine.runLine setup noCall [] l st).1 = .error f) :
    (∃ e, f = .error e ∧ e.place = l) ∨
      f = .internal (ascii "No input source") ∧ st.input = .absent := by
  rw [Machine.runLine_eq] at h
  rcases henter : Machine.enter setup [] l st with ⟨g | _ | name, st'⟩ <;> rw [henter] at h
  · obtain rfl := Except.error.inj h
    exact Machine.enter_assignment_error htrim ha (by rw [henter])
  · cases h
  · exact absurd (by rw [henter]) (Machine.enter_assignment_ne_call htrim ha st name)

theorem runLines_input (setup : Setup) (sect : Bytes) (ls : List SourceLine) (st : State) :
    (Machine.runLines setup noCall sect ls st).2.input = .absent ↔ st.input = .absent := by
  induction ls generalizing st with
  | nil => rfl
  | cons l ls ih =>
    have hl : (Machine.runLine setup noCall sect l st).2.input = .absent ↔ st.input = .absent := by
      rw [← Machine.enter_input setup sect l st, Machine.runLine_eq]
      rcases Machine.enter setup sect l st with ⟨_ | _ | _, st'⟩ <;> rfl
    rw [Machine.runLines]
    rcases hrun : Machine.runLine setup noCall sect l st with ⟨_ | _, st'⟩ <;> rw [hrun] at hl
    · exact hl
    · exact (ih st').trans hl

/-- A line that is out of place is named, if there is an input to read from. -/
theorem Offence.located {setup : Setup} {st : State} {pre : List SourceLine} {l : SourceLine}
    {f : Fault} (h : Offence setup st pre l f) (htrim : Bytes.trim l.text = l.text) :
    (∃ e, f = .error e ∧ e.place = l) ∨
      f = .internal (ascii "No input source") ∧ st.input = .absent := by
  cases h with
  | unnamed | stray | misplaced => exact Or.inl ⟨_, rfl, rfl⟩
  | failed _ _ hyes hf =>
    rcases runLine_assignment_error htrim hyes.2 hf with he | ⟨rfl, hinput⟩
    · exact Or.inl he
    · exact Or.inr ⟨rfl, (runLines_input setup [] _ st).mp hinput⟩

/-- An error about the source as a whole. -/
def Whole (dialect : Dialect) (e : LangError) : Prop :=
  e.place = ⟨0, []⟩ ∧ ((∃ name, e.cause = .unclosedSection name) ∨ e.cause = .missingEntry dialect)

theorem Refused.located {setup : Setup} {st : State} {source : Bytes} {f : Fault}
    (h : Refused setup st (sourceLines source) f) :
    (∃ e, f = .error e ∧ (LineOf source e.place ∨ Whole setup.dialect e)) ∨
      f = .internal (ascii "No input source") ∧ st.input = .absent := by
  cases h with
  | @line pre post l _ hls _ hl =>
    have hline : LineOf source l := mem_sourceLines (by simp [hls])
    rcases hl.located (trim_of_lineOf hline) with ⟨e, rfl, rfl⟩ | habsent
    · exact Or.inl ⟨e, rfl, Or.inl hline⟩
    · exact Or.inr habsent
  | unclosed => exact Or.inl ⟨_, rfl, Or.inr ⟨rfl, Or.inl ⟨_, rfl⟩⟩⟩
  | absent => exact Or.inl ⟨_, rfl, Or.inr ⟨rfl, Or.inr rfl⟩⟩

/-- Every error of a run names the last line that the run came to, which is a statement of the
program and a line of the source; every error in loading names a line of the source, or is about the
source as a whole. -/
theorem errors_located (setup : Setup) (source : Bytes) (st : State) :
    (∀ p, (load setup source st).1 = .ok p → ∀ fuel st' e,
      (Machine.run { setup with program := some p } fuel st').1 = .error (.error e) →
      ∃ past v, Machine.runVisits { setup with program := some p } fuel st' = past ++ [v] ∧
        Leads (past ++ [v]) st' (Machine.run { setup with program := some p } fuel st').2 ∧
        e.place = v.line ∧ LineOf source v.line ∧
        (∃ s, p.find? v.sect = some s ∧ v.line ∈ s.body) ∧
        (∀ w ∈ past, ¬ w.Held) ∧ (v.Held → e.cause = .interrupted)) ∧
    ∀ f, (load setup source st).1 = .error f →
      (∃ e, f = .error e ∧ (LineOf source e.place ∨ Whole setup.dialect e)) ∨
        f = .internal (ascii "No input source") ∧ st.input = .absent := by
  rcases load_spec setup source st with ⟨p, st₁, hload, hp, _, complete⟩ | ⟨g, st₁, hload, refused⟩
  · rw [hload]
    refine ⟨?_, fun f hf => by cases hf⟩
    intro q hq fuel st' e he
    obtain rfl := Except.ok.inj hq
    have hentries := hp.entries_found complete
    obtain ⟨past, v, hvisits, hpast, hheld, _, hplaced⟩ :=
      @Machine.runVisits_endsAt { setup with program := some p.program } p.program rfl hp.numbered
        hentries fuel st' e he
    have hmem : v ∈ Machine.runVisits { setup with program := some p.program } fuel st' := by
      simp [hvisits]
    obtain ⟨root, _, hv⟩ := Machine.mem_runVisits rfl fuel st' v hmem
    obtain ⟨s, hs, hl⟩ := hv.stored
    refine ⟨past, v, hvisits, ?_, hplaced e rfl, hp.lineOf hs _ hl, ⟨s, hs, hl⟩, hpast, ?_⟩
    · rw [← hvisits]
      exact Machine.runVisits_leads _ fuel st'
    · intro h
      rw [Fault.error.inj (hheld h)]
      rfl
  · rw [hload]
    refine ⟨fun p hp => (by cases hp), ?_⟩
    intro f hf
    obtain rfl := Except.error.inj hf
    exact refused.located

/-- The place that the error of a run names, if it ends with one. -/
def errorPlace? : Except Fault Unit → Option SourceLine
  | .error (.error e) => some e.place
  | _ => none

theorem errorPlace?_eq_some {r : Except Fault Unit} {l : SourceLine} (h : errorPlace? r = some l) :
    ∃ e, r = .error (.error e) ∧ e.place = l := by
  rw [errorPlace?.eq_def] at h
  split at h
  case h_1 e => exact ⟨e, rfl, Option.some.inj h⟩
  case h_2 => cases h

/-- The section `main` calls another, in which a consequent fails. -/
def failing : Bytes := ascii "sect main\n@help\n;\n\nsect help\n if 1 == 1 then print $x\n;"

theorem errors_located_failing :
    ∃ p e past v, (load { dialect := .clarity } failing {}).1 = .ok p ∧
      (Machine.run { dialect := .clarity, program := some p } 3 {}).1 = .error (.error e) ∧
      e.place = ⟨6, ascii "if 1 == 1 then print $x"⟩ ∧
      Machine.runVisits { dialect := .clarity, program := some p } 3 {} = past ++ [v] ∧
      e.place = v.line ∧ LineOf failing v.line := by
  have hplace : ((load { dialect := .clarity } failing {}).1.toOption.bind fun p =>
      errorPlace? (Machine.run { dialect := .clarity, program := some p } 3 {}).1) =
        some ⟨6, ascii "if 1 == 1 then print $x"⟩ := by decide +kernel
  rcases hload : (load { dialect := .clarity } failing {}).1 with f | p <;> rw [hload] at hplace
  · cases hplace
  · obtain ⟨e, he, hline⟩ := errorPlace?_eq_some hplace
    obtain ⟨past, v, hvisits, _, hv, hlineOf, _⟩ :=
      (errors_located { dialect := .clarity } failing {}).1 p hload 3 {} e he
    exact ⟨p, e, past, v, rfl, he, hline, hvisits, hv, hlineOf⟩

end Loading

end SectScript
