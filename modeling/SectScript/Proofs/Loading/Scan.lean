import SectScript.Proofs.Loading.Section
import SectScript.Proofs.Table

/-!
# Scanning a source

The loader goes through a source once, keeping a section that is being read and the sections that
are complete. `Reflects` says what both are in terms of the lines so far. A line is out of place for
one of four reasons (`Offence`); the first such line decides the result, else the end of the source.
-/

namespace SectScript.Loading

/-! ## Lines outside all sections -/

/-- Whether a section is open behind the lines, one being open before them or not. -/
def enclosed : (inside : Bool) → List SourceLine → Bool
  | inside, [] => inside
  | inside, l :: ls => enclosed (l.mark.keeps inside) ls

/-- The code outside all sections. -/
def loose : (inside : Bool) → List SourceLine → List SourceLine
  | _, [] => []
  | inside, l :: ls =>
    (if l.mark = .code ∧ inside = false then [l] else []) ++ loose (l.mark.keeps inside) ls

theorem enclosed_append (inside : Bool) (ls ls' : List SourceLine) :
    enclosed inside (ls ++ ls') = enclosed (enclosed inside ls) ls' := by
  induction ls generalizing inside with
  | nil => rfl
  | cons l ls ih => exact ih _

theorem loose_append (inside : Bool) (ls ls' : List SourceLine) :
    loose inside (ls ++ ls') = loose inside ls ++ loose (enclosed inside ls) ls' := by
  induction ls generalizing inside with
  | nil => rfl
  | cons l ls ih => rw [List.cons_append, loose, loose, ih, List.append_assoc, enclosed]

theorem enclosed_iff_inside (ls : List SourceLine) : enclosed false ls = true ↔ Inside ls := by
  induction ls using List.reverseRecOn with
  | nil =>
    constructor
    · intro h; cases h
    · rintro ⟨a, o, b, name, h, _⟩
      simp at h
  | append_singleton ls l ih =>
    rw [inside_snoc, enclosed_append, enclosed, enclosed]
    cases hl : l.mark <;> simp [Mark.keeps, ih]

theorem loose_snoc_of_code {ls : List SourceLine} {l : SourceLine} (hl : l.mark = .code)
    (hout : ¬ Inside ls) : loose false (ls ++ [l]) = loose false ls ++ [l] := by
  have henc : enclosed false ls = false := by
    rw [← Bool.not_eq_true, enclosed_iff_inside]
    exact hout
  simp [loose_append, henc, loose, hl]

theorem loose_snoc {ls : List SourceLine} {l : SourceLine} (h : l.mark ≠ .code ∨ Inside ls) :
    loose false (ls ++ [l]) = loose false ls := by
  rw [← enclosed_iff_inside] at h
  rw [loose_append, loose, if_neg, loose]
  · simp
  · rintro ⟨hl, henc⟩
    rcases h with h | h
    · exact h hl
    · rw [henc] at h; cases h

/-- The state once the code outside all sections has been executed. -/
def topLevel (setup : Setup) (st : State) (ls : List SourceLine) : Outcome Unit :=
  Machine.runLines setup noCall [] (loose false ls) st

theorem runLines_snoc (setup : Setup) (call : Bytes → State → Outcome Unit) (sect : Bytes)
    (ls : List SourceLine) (l : SourceLine) (st : State) :
    Machine.runLines setup call sect (ls ++ [l]) st =
      match Machine.runLines setup call sect ls st with
      | (.ok _, st) => Machine.runLine setup call sect l st
      | (.error f, st) => (.error f, st) := by
  induction ls generalizing st with
  | nil =>
    simp only [List.nil_append, Machine.runLines]
    rcases Machine.runLine setup call sect l st with ⟨_ | _, st'⟩ <;> rfl
  | cons x ls ih =>
    rw [List.cons_append, Machine.runLines, Machine.runLines]
    rcases Machine.runLine setup call sect x st with ⟨_ | _, st'⟩
    · rfl
    · exact ih st'

/-! ## What a line does to the progress -/

theorem line_eq (setup : Setup) (l : SourceLine) (p : Progress) (st : State) :
    line setup l p st =
      match l.mark with
      | .opening name =>
        if name = [] then (.error (failAt .missingSectionName l), st)
        else (.ok { p with pending := some ⟨name, l.number, []⟩ }, st)
      | .closing =>
        match p.pending with
        | none => (.error (failAt .strayCloser l), st)
        | some s => (.ok ⟨none, p.program.insert s.name ⟨s.lineNo, s.body⟩⟩, st)
      | .code =>
        match p.pending with
        | some s => (.ok { p with pending := some { s with body := s.body ++ [l] } }, st)
        | none =>
          if setup.dialect = .clarity ∧ isAssignment l.text = true then
            match Machine.runLine setup noCall [] l st with
            | (.ok _, st) => (.ok p, st)
            | (.error f, st) => (.error f, st)
          else (.error (failAt .codeOutsideSection l), st) := by
  by_cases hopen : hasKeyword l.text sectWord = true
  · have hmark : l.mark = .opening (Bytes.trim (l.text.drop sectWord.length)) := if_pos hopen
    rw [hmark]
    simp [line, hopen]
  · by_cases hclose : l.text = closer
    · have hmark : l.mark = .closing := (if_neg hopen).trans (if_pos hclose)
      rw [hmark]
      refine (if_neg hopen).trans ((if_pos (beq_iff_eq.mpr hclose)).trans ?_)
      cases p.pending <;> rfl
    · have hmark : l.mark = .code := (if_neg hopen).trans (if_neg hclose)
      rw [hmark]
      refine (if_neg hopen).trans ((if_neg (mt beq_iff_eq.mp hclose)).trans ?_)
      cases p.pending with
      | none => exact if_congr (by simp [Dialect.allowsTopLevelAssign]) rfl rfl
      | some s => rfl

/-- Why a line cannot stand behind the lines `pre`. -/
inductive Offence (setup : Setup) (st : State) (pre : List SourceLine) (l : SourceLine) :
    Fault → Prop
  | unnamed (h : l.mark = .opening []) : Offence setup st pre l (failAt .missingSectionName l)
  | stray (h : l.mark = .closing) (hout : ¬ Inside pre) :
      Offence setup st pre l (failAt .strayCloser l)
  | misplaced (h : l.mark = .code) (hout : ¬ Inside pre)
      (hno : ¬ (setup.dialect = .clarity ∧ isAssignment l.text = true)) :
      Offence setup st pre l (failAt .codeOutsideSection l)
  | failed {f : Fault} (h : l.mark = .code) (hout : ¬ Inside pre)
      (hyes : setup.dialect = .clarity ∧ isAssignment l.text = true)
      (hf : (Machine.runLine setup noCall [] l (topLevel setup st pre).2).1 = .error f) :
      Offence setup st pre l f

/-- No line among them is out of place. -/
def Clean (setup : Setup) (st : State) (ls : List SourceLine) : Prop :=
  ∀ pre l post, ls = pre ++ l :: post → ∀ f, ¬ Offence setup st pre l f

/-- The progress is what the lines so far say. -/
structure Reflects (ls : List SourceLine) (p : Progress) : Prop where
  pending : ∀ s, p.pending = some s → ∃ o, Opened ls s.name o s.body ∧ s.lineNo = o.number
  outside : p.pending = none → ¬ Inside ls
  found : ∀ name s, p.program.find? name = some s →
    ∃ o, CommitsLast ls name o s.body ∧ s.lineNo = o.number
  missing : ∀ name, p.program.find? name = none → ∀ o body, ¬ Commits ls name o body

theorem Reflects.inside {ls : List SourceLine} {p : Progress} (h : Reflects ls p) {s : Pending}
    (hs : p.pending = some s) : Inside ls := by
  obtain ⟨o, ho, _⟩ := h.pending s hs
  exact inside_iff_opened.mpr ⟨_, o, _, ho⟩

theorem reflects_nil : Reflects [] {} where
  pending := by intro s h; cases h
  outside := by
    rintro - ⟨a, o, b, name, h, _⟩
    simp at h
  found := by intro name s h; cases h
  missing := by
    rintro name - o body ⟨a, c, post, h, _⟩
    simp at h

/-- Lines that close nothing leave the committed sections as they are. -/
theorem Reflects.snoc_of_not_closing {ls : List SourceLine} {p : Progress} (h : Reflects ls p)
    {l : SourceLine} (hl : l.mark ≠ .closing) {s : Option Pending}
    (hpending : ∀ t, s = some t → ∃ o, Opened (ls ++ [l]) t.name o t.body ∧ t.lineNo = o.number)
    (houtside : s = none → ¬ Inside (ls ++ [l])) :
    Reflects (ls ++ [l]) { p with pending := s } where
  pending := hpending
  outside := houtside
  found := by
    intro name t ht
    obtain ⟨o, ho, hno⟩ := h.found name t ht
    exact ⟨o, ho.snoc fun hclose => absurd hclose hl, hno⟩
  missing := by
    intro name hname o body hcommit
    rcases commits_snoc.mp hcommit with ⟨hclose, _⟩ | hcommit
    · exact hl hclose
    · exact h.missing name hname o body hcommit

theorem Reflects.snoc_closing {ls : List SourceLine} {p : Progress} (h : Reflects ls p)
    {l : SourceLine} (hl : l.mark = .closing) {s : Pending} (hs : p.pending = some s) :
    Reflects (ls ++ [l]) ⟨none, p.program.insert s.name ⟨s.lineNo, s.body⟩⟩ := by
  obtain ⟨o, ho, hno⟩ := h.pending s hs
  -- a section of another name is not the one that is open
  have other : ∀ name, name ≠ s.name → ∀ o' body', ¬ Opened ls name o' body' :=
    fun name hne o' body' h' => hne (h'.unique ho).1
  refine ⟨(by intro t ht; cases ht), ?_, ?_, ?_⟩
  · rintro - hin
    rcases inside_snoc.mp hin with ⟨name, h⟩ | ⟨h, _⟩
    · rw [hl] at h; cases h
    · rw [hl] at h; cases h
  · intro name t ht
    by_cases heq : name = s.name
    · subst heq
      rw [Table.find?_insert_self, Option.some.injEq] at ht
      subst ht
      exact ⟨o, .of_closing hl ho, hno⟩
    · rw [Table.find?_insert_of_ne _ heq] at ht
      obtain ⟨o', ho', hno'⟩ := h.found name t ht
      exact ⟨o', ho'.snoc fun _ => other name heq, hno'⟩
  · intro name hname o' body' hcommit
    have hne : name ≠ s.name := by
      rintro rfl
      rw [Table.find?_insert_self] at hname
      cases hname
    rw [Table.find?_insert_of_ne _ hne] at hname
    rcases commits_snoc.mp hcommit with ⟨_, hopen⟩ | hcommit
    · exact other name hne o' body' hopen
    · exact h.missing name hname o' body' hcommit

theorem topLevel_snoc {setup : Setup} {st : State} {ls : List SourceLine} {l : SourceLine}
    (h : l.mark ≠ .code ∨ Inside ls) : topLevel setup st (ls ++ [l]) = topLevel setup st ls := by
  rw [topLevel, topLevel, loose_snoc h]

/-- What may come of a line behind lines that are in place: it is in place as well, or its offence
is the result. -/
def Advances (setup : Setup) (st : State) (ls : List SourceLine) (l : SourceLine)
    (o : Outcome Progress) : Prop :=
  (∃ p st', o = (.ok p, st') ∧ Reflects (ls ++ [l]) p ∧
    topLevel setup st (ls ++ [l]) = (.ok (), st') ∧ ∀ f, ¬ Offence setup st ls l f) ∨
  ∃ f st', o = (.error f, st') ∧ Offence setup st ls l f

section Line

variable {setup : Setup} {st st' : State} {ls : List SourceLine} {p : Progress} {l : SourceLine}
  (h : Reflects ls p) (hst : topLevel setup st ls = (.ok (), st'))
include h hst

theorem line_opening {name : Bytes} (hl : l.mark = .opening name) :
    Advances setup st ls l (line setup l p st') := by
  rw [line_eq, hl]
  dsimp only
  split
  case isTrue hname =>
    subst hname
    exact Or.inr ⟨_, _, rfl, .unnamed hl⟩
  case isFalse hname =>
    refine Or.inl ⟨_, _, rfl, ?_, ?_, ?_⟩
    · apply h.snoc_of_not_closing (by rw [hl]; simp)
      · intro t ht
        obtain rfl := Option.some.inj ht
        exact ⟨l, opened_snoc.mpr (Or.inl ⟨hl, rfl, rfl⟩), rfl⟩
      · intro hnone
        cases hnone
    · rw [topLevel_snoc (Or.inl (by rw [hl]; simp)), hst]
    · intro f hf
      cases hf with
      | unnamed h' =>
        rw [hl] at h'
        exact hname (Mark.opening.inj h')
      | stray h' | misplaced h' | failed h' => rw [hl] at h'; cases h'

theorem line_closing (hl : l.mark = .closing) : Advances setup st ls l (line setup l p st') := by
  rw [line_eq, hl]
  dsimp only
  cases hp : p.pending with
  | none => exact Or.inr ⟨_, _, rfl, .stray hl (h.outside hp)⟩
  | some s =>
    refine Or.inl ⟨_, _, rfl, h.snoc_closing hl hp, ?_, ?_⟩
    · rw [topLevel_snoc (Or.inl (by rw [hl]; simp)), hst]
    · intro f hf
      cases hf with
      | stray h' hout => exact hout (h.inside hp)
      | unnamed h' | misplaced h' | failed h' => rw [hl] at h'; cases h'

theorem line_code_inside (hl : l.mark = .code) {s : Pending} (hp : p.pending = some s) :
    Advances setup st ls l (line setup l p st') := by
  have hin := h.inside hp
  rw [line_eq, hl, hp]
  refine Or.inl ⟨_, _, rfl, ?_, ?_, ?_⟩
  · apply h.snoc_of_not_closing (by rw [hl]; simp)
    · intro t ht
      obtain rfl := Option.some.inj ht
      obtain ⟨o, ho, hno⟩ := h.pending s hp
      exact ⟨o, opened_snoc.mpr (Or.inr ⟨hl, s.body, rfl, ho⟩), hno⟩
    · intro hnone
      cases hnone
  · rw [topLevel_snoc (Or.inr hin), hst]
  · intro f hf
    cases hf with
    | unnamed h' | stray h' => rw [hl] at h'; cases h'
    | misplaced _ hout | failed _ hout => exact hout hin

theorem line_code_outside (hl : l.mark = .code) (hp : p.pending = none) :
    Advances setup st ls l (line setup l p st') := by
  have hout := h.outside hp
  rw [line_eq, hl, hp]
  dsimp only
  split
  case isFalse hno => exact Or.inr ⟨_, _, rfl, .misplaced hl hout hno⟩
  case isTrue hyes =>
    have htop : topLevel setup st (ls ++ [l]) = Machine.runLine setup noCall [] l st' := by
      rw [topLevel, loose_snoc_of_code hl hout, runLines_snoc, ← topLevel, hst]
    rcases hrun : Machine.runLine setup noCall [] l st' with ⟨f | _, st''⟩
    · exact Or.inr ⟨f, st'', rfl, .failed hl hout hyes (by rw [hst, hrun])⟩
    · refine Or.inl ⟨_, _, rfl, ?_, by rw [htop, hrun], ?_⟩
      · have hsame : p = { p with pending := none } := by rw [← hp]
        rw [hsame]
        apply h.snoc_of_not_closing (by rw [hl]; simp)
        · intro t ht
          cases ht
        · rintro - hin
          rcases inside_snoc.mp hin with ⟨name, h'⟩ | ⟨_, h'⟩
          · rw [hl] at h'; cases h'
          · exact hout h'
      · intro f hf
        cases hf with
        | unnamed h' | stray h' => rw [hl] at h'; cases h'
        | misplaced _ _ hno => exact hno hyes
        | failed _ _ _ hf => rw [hst, hrun] at hf; cases hf

variable (l) in
theorem line_advances : Advances setup st ls l (line setup l p st') := by
  cases hl : l.mark with
  | opening name => exact line_opening h hst hl
  | closing => exact line_closing h hst hl
  | code =>
    cases hp : p.pending with
    | some s => exact line_code_inside h hst hl hp
    | none => exact line_code_outside h hst hl hp

end Line

/-! ## Whole sources -/

/-- The lines of a source one after the other. -/
def scan (setup : Setup) : List SourceLine → Progress → State → Outcome Progress
  | [], p, st => (.ok p, st)
  | l :: ls, p, st =>
    match line setup l p st with
    | (.ok p, st) => scan setup ls p st
    | (.error f, st) => (.error f, st)

theorem lines_eq_scan (setup : Setup) (n : Nat) (raws : List Bytes) (p : Progress) (st : State) :
    lines setup n raws p st = scan setup (numbered n raws) p st := by
  induction raws generalizing n p st with
  | nil => rfl
  | cons raw rest ih =>
    rw [lines, numbered, List.zipIdx_cons, List.filterMap_cons, ← numbered]
    by_cases hblank : Bytes.trim raw = []
    · simp only [hblank, beq_self_eq_true, if_true]
      exact ih (n + 1) p st
    · simp only [hblank, beq_iff_eq, if_false, scan]
      rcases line setup ⟨n, Bytes.trim raw⟩ p st with ⟨_ | p', st'⟩
      · rfl
      · exact ih (n + 1) p' st'

theorem scan_snoc (setup : Setup) (ls : List SourceLine) (l : SourceLine) (p : Progress)
    (st : State) :
    scan setup (ls ++ [l]) p st =
      match scan setup ls p st with
      | (.ok p, st) => line setup l p st
      | (.error f, st) => (.error f, st) := by
  induction ls generalizing p st with
  | nil =>
    simp only [List.nil_append, scan]
    rcases line setup l p st with ⟨_ | _, st'⟩ <;> rfl
  | cons x ls ih =>
    rw [List.cons_append, scan, scan]
    rcases line setup x p st with ⟨_ | p', st'⟩
    · rfl
    · exact ih p' st'

theorem Clean.snoc {setup : Setup} {st : State} {ls : List SourceLine} (h : Clean setup st ls)
    {l : SourceLine} (hl : ∀ f, ¬ Offence setup st ls l f) : Clean setup st (ls ++ [l]) := by
  intro pre x post heq f
  rcases snoc_eq_append_cons.mp heq with ⟨rfl, rfl, rfl⟩ | ⟨post, rfl, rfl⟩
  · exact hl f
  · exact h pre x post rfl f

/-- All lines are in place and the progress reflects them, or the first offence is the result. -/
theorem scan_spec (setup : Setup) (st : State) (ls : List SourceLine) :
    (∃ p st', scan setup ls {} st = (.ok p, st') ∧ Reflects ls p ∧
      topLevel setup st ls = (.ok (), st') ∧ Clean setup st ls) ∨
    ∃ f st', scan setup ls {} st = (.error f, st') ∧ ∃ pre l post, ls = pre ++ l :: post ∧
      Clean setup st pre ∧ Offence setup st pre l f := by
  induction ls using List.reverseRecOn with
  | nil =>
    refine Or.inl ⟨{}, st, rfl, reflects_nil, rfl, ?_⟩
    intro pre l post h
    simp at h
  | append_singleton ls l ih =>
    rw [scan_snoc]
    rcases ih with ⟨p, st', hscan, hp, hst, hclean⟩ | ⟨f, st', hscan, pre, x, post, rfl, hpre, hx⟩
    · rw [hscan]
      rcases line_advances l hp hst with ⟨p', st'', hline, hp', hst', hl⟩ | ⟨f, st'', hline, hf⟩
      · exact Or.inl ⟨p', st'', hline, hp', hst', hclean.snoc hl⟩
      · exact Or.inr ⟨f, st'', hline, ls, l, [], rfl, hclean, hf⟩
    · rw [hscan]
      exact Or.inr ⟨f, st', rfl, pre, x, post ++ [l], by simp, hpre, hx⟩

/-- Why a source is refused: its first line that is out of place, else a section left open, else an
entry section that is not there. -/
inductive Refused (setup : Setup) (st : State) (ls : List SourceLine) : Fault → Prop
  | line {pre post : List SourceLine} {l : SourceLine} {f : Fault} (hls : ls = pre ++ l :: post)
      (hpre : Clean setup st pre) (hl : Offence setup st pre l f) : Refused setup st ls f
  | unclosed {name : Bytes} {o : SourceLine} {body : List SourceLine} (hls : Clean setup st ls)
      (ho : Opened ls name o body) : Refused setup st ls (.ofCause (.unclosedSection name))
  | absent {name : Bytes} (hls : Clean setup st ls) (hout : ¬ Inside ls)
      (hname : name ∈ setup.dialect.entrySections) (hno : ∀ o body, ¬ Commits ls name o body) :
      Refused setup st ls (.ofCause (.missingEntry setup.dialect))

/-- Every line is in place, no section is left open, and the entry sections are there. -/
structure Complete (setup : Setup) (st : State) (ls : List SourceLine) : Prop where
  clean : Clean setup st ls
  outside : ¬ Inside ls
  entries : ∀ name ∈ setup.dialect.entrySections, ∃ o body, Commits ls name o body

theorem load_spec (setup : Setup) (source : Bytes) (st : State) :
    (∃ p st', load setup source st = (.ok p.program, st') ∧ Reflects (sourceLines source) p ∧
      topLevel setup st (sourceLines source) = (.ok (), st') ∧
      Complete setup st (sourceLines source)) ∨
    ∃ f st', load setup source st = (.error f, st') ∧ Refused setup st (sourceLines source) f := by
  rw [load, lines_eq_scan, ← sourceLines]
  rcases scan_spec setup st (sourceLines source) with
    ⟨p, st', hscan, hp, hst, hclean⟩ | ⟨f, st', hscan, pre, l, post, hls, hpre, hl⟩
  · rw [hscan]
    dsimp only
    rw [finish]
    cases hpending : p.pending with
    | some s =>
      obtain ⟨o, ho, _⟩ := hp.pending s hpending
      exact Or.inr ⟨_, _, rfl, .unclosed hclean ho⟩
    | none =>
      dsimp only
      split
      case isTrue hall =>
        refine Or.inl ⟨p, st', rfl, hp, hst, hclean, hp.outside hpending, ?_⟩
        intro name hname
        obtain ⟨s, hs⟩ := Option.isSome_iff_exists.mp (List.all_eq_true.mp hall name hname)
        obtain ⟨o, ho, _⟩ := hp.found name s hs
        exact ⟨o, s.body, ho.commits⟩
      case isFalse hall =>
        obtain ⟨name, hname, hnone⟩ : ∃ name ∈ setup.dialect.entrySections,
            p.program.find? name = none := by
          simpa using hall
        exact Or.inr ⟨_, _, rfl, .absent hclean (hp.outside hpending) hname
          (hp.missing name hnone)⟩
  · rw [hscan]
    exact Or.inr ⟨f, st', rfl, .line hls hpre hl⟩

end SectScript.Loading
