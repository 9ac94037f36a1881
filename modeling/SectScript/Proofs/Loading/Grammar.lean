import SectScript.Proofs.Loading.Scan
import Mathlib.Tactic.ByContra

/-!
# The grammar of sources

`Accepts` says what each line requires of the lines before it, and the source of its end. The main
statement is that a source loads exactly when it is in the grammar, that otherwise its first offence
is the result, and that the table then holds what was committed last under each name.
-/

namespace SectScript.Loading

theorem Offence.unique {setup : Setup} {st : State} {pre : List SourceLine} {l : SourceLine}
    {f f' : Fault} (h : Offence setup st pre l f) (h' : Offence setup st pre l f') : f = f' := by
  cases h with
  | unnamed hl =>
    cases h' with
    | unnamed => rfl
    | stray hl' | misplaced hl' | failed hl' => rw [hl] at hl'; cases hl'
  | stray hl =>
    cases h' with
    | stray => rfl
    | unnamed hl' | misplaced hl' | failed hl' => rw [hl] at hl'; cases hl'
  | misplaced hl hout hno =>
    cases h' with
    | misplaced => rfl
    | unnamed hl' | stray hl' => rw [hl] at hl'; cases hl'
    | failed _ _ hyes => exact absurd hyes hno
  | failed hl hout hyes hf =>
    cases h' with
    | failed _ _ _ hf' => exact Except.error.inj (hf.symm.trans hf')
    | unnamed hl' | stray hl' => rw [hl] at hl'; cases hl'
    | misplaced _ _ hno => exact absurd hyes hno

/-- There is one first offence. -/
theorem first_offence_unique {setup : Setup} {st : State} {pre pre' post post' : List SourceLine}
    {l l' : SourceLine} {f f' : Fault} (heq : pre ++ l :: post = pre' ++ l' :: post')
    (hpre : Clean setup st pre) (hl : Offence setup st pre l f) (hpre' : Clean setup st pre')
    (hl' : Offence setup st pre' l' f') : f = f' := by
  rcases List.append_eq_append_iff.mp heq with ⟨m, rfl, hm⟩ | ⟨m, rfl, hm⟩
  · cases m with
    | nil =>
      obtain ⟨rfl, rfl⟩ := List.cons.inj hm
      rw [List.append_nil] at hl'
      exact hl.unique hl'
    | cons x m =>
      obtain ⟨rfl, _⟩ := List.cons.inj hm
      exact absurd hl (hpre' pre l m rfl f)
  · cases m with
    | nil =>
      obtain ⟨rfl, rfl⟩ := List.cons.inj hm
      rw [List.append_nil] at hl
      exact hl.unique hl'
    | cons x m =>
      obtain ⟨rfl, _⟩ := List.cons.inj hm
      exact absurd hl' (hpre pre' l' m rfl f')

theorem Refused.unique {setup : Setup} {st : State} {ls : List SourceLine} {f f' : Fault}
    (h : Refused setup st ls f) (h' : Refused setup st ls f') : f = f' := by
  cases h with
  | line hls hpre hl =>
    cases h' with
    | line hls' hpre' hl' => exact first_offence_unique (hls.symm.trans hls') hpre hl hpre' hl'
    | unclosed hclean | absent hclean => exact absurd hl (hclean _ _ _ hls f)
  | unclosed hclean ho =>
    cases h' with
    | line hls' hpre' hl' => exact absurd hl' (hclean _ _ _ hls' f')
    | unclosed _ ho' => rw [(ho.unique ho').1]
    | absent _ hout => exact absurd (inside_iff_opened.mpr ⟨_, _, _, ho⟩) hout
  | absent hclean hout =>
    cases h' with
    | line hls' hpre' hl' => exact absurd hl' (hclean _ _ _ hls' f')
    | unclosed _ ho' => exact absurd (inside_iff_opened.mpr ⟨_, _, _, ho'⟩) hout
    | absent => rfl

theorem Refused.not_complete {setup : Setup} {st : State} {ls : List SourceLine} {f : Fault}
    (h : Refused setup st ls f) : ¬ Complete setup st ls := by
  intro complete
  cases h with
  | line hls hpre hl => exact complete.clean _ _ _ hls f hl
  | unclosed _ ho => exact complete.outside (inside_iff_opened.mpr ⟨_, _, _, ho⟩)
  | absent _ _ hname hno =>
    obtain ⟨o, body, hcommit⟩ := complete.entries _ hname
    exact hno o body hcommit

/-- The grammar of sources: what each line requires of the lines before it, and the source of its
end. -/
structure Accepts (setup : Setup) (st : State) (ls : List SourceLine) : Prop where
  named : ∀ l ∈ ls, l.mark ≠ .opening []
  opened : ∀ pre l post, ls = pre ++ l :: post → l.mark = .closing → Inside pre
  placed : ∀ pre l post, ls = pre ++ l :: post → l.mark = .code → Inside pre ∨
    (setup.dialect = .clarity ∧ isAssignment l.text = true ∧
      (Machine.runLine setup noCall [] l (topLevel setup st pre).2).1 = .ok ())
  closed : ∀ pre o post name, ls = pre ++ o :: post → o.mark = .opening name →
    (∀ l ∈ post, ∀ other, l.mark ≠ .opening other) → ∃ l ∈ post, l.mark = .closing
  entries : ∀ name ∈ setup.dialect.entrySections, ∃ o body, Commits ls name o body

theorem Accepts.clean {setup : Setup} {st : State} {ls : List SourceLine}
    (h : Accepts setup st ls) : Clean setup st ls := by
  rintro pre l post rfl f offence
  cases offence with
  | unnamed hl => exact h.named l (by simp) hl
  | stray hl hout => exact hout (h.opened pre l post rfl hl)
  | misplaced hl hout hno =>
    rcases h.placed pre l post rfl hl with hin | ⟨hclarity, hassign, _⟩
    · exact hout hin
    · exact hno ⟨hclarity, hassign⟩
  | failed hl hout _ hf =>
    rcases h.placed pre l post rfl hl with hin | ⟨_, _, hok⟩
    · exact hout hin
    · rw [hf] at hok; cases hok

theorem accepts_iff_complete {setup : Setup} {st : State} {ls : List SourceLine} :
    Accepts setup st ls ↔ Complete setup st ls := by
  constructor
  · intro h
    refine ⟨h.clean, ?_, h.entries⟩
    intro hin
    obtain ⟨name, o, body, ⟨a, rfl⟩, ho, hbody⟩ := inside_iff_opened.mp hin
    obtain ⟨l, hl, hclose⟩ := h.closed a o body name rfl ho fun l hl other => by
      rw [hbody l hl]; simp
    rw [hbody l hl] at hclose
    cases hclose
  · intro h
    refine ⟨?_, ?_, ?_, ?_, h.entries⟩
    · intro l hl hmark
      obtain ⟨pre, post, rfl⟩ := List.append_of_mem hl
      exact h.clean pre l post rfl _ (.unnamed hmark)
    · intro pre l post hls hmark
      by_contra hout
      exact h.clean pre l post hls _ (.stray hmark hout)
    · intro pre l post hls hmark
      by_contra hno
      rw [not_or] at hno
      by_cases hyes : setup.dialect = .clarity ∧ isAssignment l.text = true
      · rcases hrun : (Machine.runLine setup noCall [] l (topLevel setup st pre).2).1 with f | _
        · exact h.clean pre l post hls f (.failed hmark hno.1 hyes hrun)
        · exact hno.2 ⟨hyes.1, hyes.2, hrun⟩
      · exact h.clean pre l post hls _ (.misplaced hmark hno.1 hyes)
    · rintro pre o post name rfl ho _
      by_contra hno
      refine h.outside ⟨pre, o, post, name, rfl, ho, ?_⟩
      intro l hl hclose
      exact hno ⟨l, hl, hclose⟩

theorem Reflects.find?_eq_none_iff {ls : List SourceLine} {p : Progress} (h : Reflects ls p)
    (name : Bytes) : p.program.find? name = none ↔ ¬ ∃ o body, Commits ls name o body := by
  constructor
  · rintro hnone ⟨o, body, hcommit⟩
    exact h.missing name hnone o body hcommit
  · intro hno
    cases hfind : p.program.find? name with
    | none => rfl
    | some s =>
      obtain ⟨o, ho, _⟩ := h.found name s hfind
      exact absurd ⟨o, s.body, ho.commits⟩ hno

theorem Reflects.find?_eq_some_iff {ls : List SourceLine} {p : Progress} (h : Reflects ls p)
    (name : Bytes) (s : Section) : p.program.find? name = some s ↔
      ∃ o, CommitsLast ls name o s.body ∧ s.lineNo = o.number := by
  constructor
  · exact h.found name s
  · rintro ⟨o, ho, hno⟩
    cases hfind : p.program.find? name with
    | none => exact absurd ho.commits (h.missing name hfind o s.body)
    | some t =>
      obtain ⟨o', ho', hno'⟩ := h.found name t hfind
      obtain ⟨rfl, hbody⟩ := ho.unique ho'
      obtain ⟨lineNo, body⟩ := s
      obtain ⟨lineNo', body'⟩ := t
      simp only at hbody hno hno'
      rw [hbody, hno, hno']

/-- Outside Clarity there is nothing to execute in a source that is in place. -/
theorem loose_eq_nil {setup : Setup} {st : State} {ls : List SourceLine}
    (hd : setup.dialect ≠ .clarity) (h : Clean setup st ls) : loose false ls = [] := by
  induction ls using List.reverseRecOn with
  | nil => rfl
  | append_singleton ls l ih =>
    have hls : Clean setup st ls := fun pre x post heq f =>
      h pre x (post ++ [l]) (by rw [heq]; simp) f
    by_cases hcode : l.mark = .code ∧ ¬ Inside ls
    · exact absurd (.misplaced hcode.1 hcode.2 fun hyes => hd hyes.1) (h ls l [] rfl _)
    · rw [loose_snoc, ih hls]
      by_cases hl : l.mark = .code
      · exact Or.inr (by_contra fun hout => hcode ⟨hl, hout⟩)
      · exact Or.inl hl

/-- A source loads exactly when it is in the grammar, and is else refused for its first offence. The
table holds for each name the section that is committed last, and the state is that in which the
code outside all sections leaves the machine. -/
theorem load_exact (setup : Setup) (source : Bytes) (st : State) :
    (∀ l : SourceLine,
      (∀ name, l.mark = .opening name ↔ ∃ rest, l.text = sectWord ++ rest ∧
        (∀ b ∈ rest.head?, Bytes.isBlankByte b = true) ∧ name = Bytes.trim rest) ∧
      (l.mark = .closing ↔ l.text = closer)) ∧
    ((∃ p, (load setup source st).1 = .ok p) ↔ Accepts setup st (sourceLines source)) ∧
    (∀ f, (load setup source st).1 = .error f ↔ Refused setup st (sourceLines source) f) ∧
    ∀ p, (load setup source st).1 = .ok p →
      (∀ name, (p.find? name = none ↔ ¬ ∃ o body, Commits (sourceLines source) name o body) ∧
        ∀ s, p.find? name = some s ↔
          ∃ o, CommitsLast (sourceLines source) name o s.body ∧ s.lineNo = o.number) ∧
      topLevel setup st (sourceLines source) = (.ok (), (load setup source st).2) ∧
      (setup.dialect ≠ .clarity → (load setup source st).2 = st) := by
  refine ⟨fun l => ⟨fun name => l.mark_eq_opening_iff, l.mark_eq_closing_iff⟩, ?_⟩
  rw [accepts_iff_complete]
  rcases load_spec setup source st with
    ⟨p, st', hload, hp, hst, complete⟩ | ⟨f, st', hload, refused⟩
  · rw [hload]
    refine ⟨⟨fun _ => complete, fun _ => ⟨_, rfl⟩⟩, ?_, ?_⟩
    · intro f
      constructor
      · intro h
        cases h
      · intro h
        exact absurd complete h.not_complete
    · intro q hq
      obtain rfl := Except.ok.inj hq
      refine ⟨fun name => ⟨hp.find?_eq_none_iff name, hp.find?_eq_some_iff name⟩, hst, ?_⟩
      intro hd
      rw [topLevel, loose_eq_nil hd complete.clean] at hst
      exact (Prod.mk.inj hst).2.symm
  · rw [hload]
    refine ⟨⟨?_, fun complete => absurd complete refused.not_complete⟩, ?_, ?_⟩
    · rintro ⟨p, hp⟩
      cases hp
    · intro g
      constructor
      · intro h
        obtain rfl := Except.error.inj h
        exact refused
      · intro h
        rw [refused.unique h]
    · intro p hp
      cases hp

end SectScript.Loading
