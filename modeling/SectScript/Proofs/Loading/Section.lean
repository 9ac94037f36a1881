import SectScript.Loading
import SectScript.Proofs.Statement.Word
import Mathlib.Data.List.Basic
import Mathlib.Data.List.Induction

/-!
# Sections in a source

What the lines of a source are to the loader, and which sections they open and commit. A closing
line commits the section that was opened last, so between the two stands only code; a section that
was opened before is dropped. Each notion has a law for one more line at the end, and what is open
or committed last is unique.
-/

namespace SectScript

/-- What a line of a source is to the loader. -/
inductive Mark where
  | opening (name : Bytes)
  | closing
  | code
  deriving DecidableEq

/-- Whether a section is open behind a line, one being open before it or not. -/
def Mark.keeps (inside : Bool) : Mark → Bool
  | opening _ => true
  | closing => false
  | code => inside

def SourceLine.mark (l : SourceLine) : Mark :=
  if hasKeyword l.text sectWord then .opening (Bytes.trim (l.text.drop sectWord.length))
  else if l.text = closer then .closing
  else .code

/-- The word `sect` is alone on its line, or a blank byte follows it. -/
theorem SourceLine.mark_eq_opening_iff {l : SourceLine} {name : Bytes} : l.mark = .opening name ↔
    ∃ rest, l.text = sectWord ++ rest ∧ (∀ b ∈ rest.head?, Bytes.isBlankByte b = true) ∧
      name = Bytes.trim rest := by
  rw [mark]
  constructor
  · intro h
    split at h
    case isTrue hword =>
      obtain rfl := Mark.opening.inj h
      rcases hasKeyword_iff.mp hword with htext | ⟨b, s, htext, hb⟩
      · exact ⟨[], by simpa using htext, by simp, by simp [htext]⟩
      · exact ⟨b :: s, htext, by simpa using hb, by simp [htext]⟩
    case isFalse => split at h <;> cases h
  · rintro ⟨rest, htext, hrest, rfl⟩
    have hword : hasKeyword l.text sectWord = true := by
      rw [hasKeyword_iff, htext]
      cases rest with
      | nil => exact Or.inl (List.append_nil _)
      | cons b s => exact Or.inr ⟨b, s, rfl, hrest b rfl⟩
    rw [if_pos hword, htext, List.drop_left]

theorem SourceLine.mark_eq_closing_iff {l : SourceLine} : l.mark = .closing ↔ l.text = closer := by
  rw [mark]
  constructor
  · intro h
    split at h
    · cases h
    · split at h
      case isTrue htext => exact htext
      case isFalse => cases h
  · intro htext
    have hword : hasKeyword closer sectWord = false := by decide
    rw [if_neg (by rw [htext, hword]; simp), if_pos htext]

namespace Loading

/-- The lines of a source that are not blank, trimmed, with their numbers from `n` on. -/
def numbered (n : Nat) (raws : List Bytes) : List SourceLine :=
  (raws.zipIdx n).filterMap fun r =>
    if Bytes.trim r.1 = [] then none else some ⟨r.2, Bytes.trim r.1⟩

def sourceLines (source : Bytes) : List SourceLine := numbered 1 (Bytes.pieces 0x0A source)

/-! ## Open and committed sections -/

/-- An opening line stands behind the last closing line. -/
def Inside (ls : List SourceLine) : Prop :=
  ∃ a o b name, ls = a ++ o :: b ∧ o.mark = .opening name ∧ ∀ l ∈ b, l.mark ≠ .closing

/-- The most recent opening line is `o`, and behind it stands only code. -/
def Opened (ls : List SourceLine) (name : Bytes) (o : SourceLine) (body : List SourceLine) : Prop :=
  (∃ a, ls = a ++ o :: body) ∧ o.mark = .opening name ∧ ∀ l ∈ body, l.mark = .code

/-- A closing line commits the section that `o` opened. -/
def Commits (ls : List SourceLine) (name : Bytes) (o : SourceLine) (body : List SourceLine) :
    Prop :=
  ∃ a c post, ls = a ++ c :: post ∧ c.mark = .closing ∧ Opened a name o body

/-- The last closing line that commits a section of this name commits the one that `o` opened. -/
def CommitsLast (ls : List SourceLine) (name : Bytes) (o : SourceLine) (body : List SourceLine) :
    Prop :=
  ∃ a c post, ls = a ++ c :: post ∧ c.mark = .closing ∧ Opened a name o body ∧
    ∀ o' body', ¬ Commits post name o' body'

theorem snoc_eq_append_cons {α : Type} {ls a b : List α} {l o : α} :
    ls ++ [l] = a ++ o :: b ↔
      (b = [] ∧ o = l ∧ a = ls) ∨ ∃ b', b = b' ++ [l] ∧ ls = a ++ o :: b' := by
  constructor
  · intro h
    rcases List.eq_nil_or_concat' b with rfl | ⟨b', x, rfl⟩
    · obtain ⟨h1, h2⟩ := List.append_inj' h rfl
      exact Or.inl ⟨rfl, (List.singleton_inj.mp h2).symm, h1.symm⟩
    · rw [← List.cons_append, ← List.append_assoc] at h
      obtain ⟨h1, h2⟩ := List.append_inj' h rfl
      obtain rfl := List.singleton_inj.mp h2
      exact Or.inr ⟨b', rfl, h1⟩
  · rintro (⟨rfl, rfl, rfl⟩ | ⟨b', rfl, rfl⟩)
    · rfl
    · simp

theorem opened_snoc {ls : List SourceLine} {l : SourceLine} {name : Bytes} {o : SourceLine}
    {body : List SourceLine} :
    Opened (ls ++ [l]) name o body ↔
      (l.mark = .opening name ∧ o = l ∧ body = []) ∨
      (l.mark = .code ∧ ∃ b, body = b ++ [l] ∧ Opened ls name o b) := by
  constructor
  · rintro ⟨⟨a, h⟩, ho, hbody⟩
    rcases snoc_eq_append_cons.mp h with ⟨rfl, rfl, rfl⟩ | ⟨b, rfl, rfl⟩
    · exact Or.inl ⟨ho, rfl, rfl⟩
    · refine Or.inr ⟨hbody l (by simp), b, rfl, ⟨a, rfl⟩, ho, ?_⟩
      exact fun x hx => hbody x (List.mem_append_left _ hx)
  · rintro (⟨hl, rfl, rfl⟩ | ⟨hl, b, rfl, ⟨a, rfl⟩, ho, hb⟩)
    · exact ⟨⟨ls, rfl⟩, hl, by simp⟩
    · refine ⟨⟨a, by simp⟩, ho, ?_⟩
      intro x hx
      rcases List.mem_append.mp hx with hx | hx
      · exact hb x hx
      · rw [List.mem_singleton.mp hx]; exact hl

theorem not_opened_nil {name : Bytes} {o : SourceLine} {body : List SourceLine} :
    ¬ Opened [] name o body := by
  rintro ⟨⟨a, h⟩, _⟩
  simp at h

theorem Opened.unique {ls : List SourceLine} {name name' : Bytes} {o o' : SourceLine}
    {body body' : List SourceLine} (h : Opened ls name o body) (h' : Opened ls name' o' body') :
    name = name' ∧ o = o' ∧ body = body' := by
  induction ls using List.reverseRecOn generalizing body body' with
  | nil => exact absurd h not_opened_nil
  | append_singleton ls l ih =>
    rcases opened_snoc.mp h with ⟨hl, rfl, rfl⟩ | ⟨hl, b, rfl, hb⟩ <;>
      rcases opened_snoc.mp h' with ⟨hl', rfl, rfl⟩ | ⟨hl', b', rfl, hb'⟩
    · rw [hl] at hl'
      exact ⟨Mark.opening.inj hl', rfl, rfl⟩
    · rw [hl] at hl'; cases hl'
    · rw [hl] at hl'; cases hl'
    · obtain ⟨rfl, rfl, rfl⟩ := ih hb hb'
      exact ⟨rfl, rfl, rfl⟩

theorem inside_snoc {ls : List SourceLine} {l : SourceLine} :
    Inside (ls ++ [l]) ↔ (∃ name, l.mark = .opening name) ∨ (l.mark = .code ∧ Inside ls) := by
  constructor
  · rintro ⟨a, o, b, name, h, ho, hb⟩
    rcases snoc_eq_append_cons.mp h with ⟨rfl, rfl, rfl⟩ | ⟨b, rfl, rfl⟩
    · exact Or.inl ⟨name, ho⟩
    · cases hl : l.mark with
      | opening n => exact Or.inl ⟨n, rfl⟩
      | closing => exact absurd hl (hb l (by simp))
      | code =>
        exact Or.inr ⟨rfl, a, o, b, name, rfl, ho, fun x hx => hb x (List.mem_append_left _ hx)⟩
  · rintro (⟨name, hl⟩ | ⟨hl, a, o, b, name, rfl, ho, hb⟩)
    · exact ⟨ls, l, [], name, rfl, hl, by simp⟩
    · refine ⟨a, o, b ++ [l], name, by simp, ho, ?_⟩
      intro x hx
      rcases List.mem_append.mp hx with hx | hx
      · exact hb x hx
      · rw [List.mem_singleton.mp hx, hl]; simp

theorem inside_iff_opened {ls : List SourceLine} :
    Inside ls ↔ ∃ name o body, Opened ls name o body := by
  induction ls using List.reverseRecOn with
  | nil =>
    constructor
    · rintro ⟨a, o, b, name, h, _⟩
      simp at h
    · rintro ⟨name, o, body, h⟩
      exact absurd h not_opened_nil
  | append_singleton ls l ih =>
    rw [inside_snoc, ih]
    constructor
    · rintro (⟨name, hl⟩ | ⟨hl, name, o, b, h⟩)
      · exact ⟨name, l, [], opened_snoc.mpr (Or.inl ⟨hl, rfl, rfl⟩)⟩
      · exact ⟨name, o, b ++ [l], opened_snoc.mpr (Or.inr ⟨hl, b, rfl, h⟩)⟩
    · rintro ⟨name, o, body, h⟩
      rcases opened_snoc.mp h with ⟨hl, rfl, rfl⟩ | ⟨hl, b, rfl, hb⟩
      · exact Or.inl ⟨name, hl⟩
      · exact Or.inr ⟨hl, name, o, b, hb⟩

theorem commits_snoc {ls : List SourceLine} {l : SourceLine} {name : Bytes} {o : SourceLine}
    {body : List SourceLine} :
    Commits (ls ++ [l]) name o body ↔
      (l.mark = .closing ∧ Opened ls name o body) ∨ Commits ls name o body := by
  constructor
  · rintro ⟨a, c, post, h, hc, ho⟩
    rcases snoc_eq_append_cons.mp h with ⟨rfl, rfl, rfl⟩ | ⟨post, rfl, rfl⟩
    · exact Or.inl ⟨hc, ho⟩
    · exact Or.inr ⟨a, c, post, rfl, hc, ho⟩
  · rintro (⟨hl, ho⟩ | ⟨a, c, post, rfl, hc, ho⟩)
    · exact ⟨ls, l, [], rfl, hl, ho⟩
    · exact ⟨a, c, post ++ [l], by simp, hc, ho⟩

theorem Opened.append_left {ls : List SourceLine} {name : Bytes} {o : SourceLine}
    {body : List SourceLine} (h : Opened ls name o body) (pre : List SourceLine) :
    Opened (pre ++ ls) name o body := by
  obtain ⟨⟨a, rfl⟩, ho, hb⟩ := h
  exact ⟨⟨pre ++ a, by simp⟩, ho, hb⟩

theorem CommitsLast.snoc {ls : List SourceLine} {l : SourceLine} {name : Bytes} {o : SourceLine}
    {body : List SourceLine} (h : CommitsLast ls name o body)
    (hl : l.mark = .closing → ∀ o' body', ¬ Opened ls name o' body') :
    CommitsLast (ls ++ [l]) name o body := by
  obtain ⟨a, c, post, rfl, hc, ho, hlast⟩ := h
  refine ⟨a, c, post ++ [l], by simp, hc, ho, ?_⟩
  intro o' body' hcommit
  rcases commits_snoc.mp hcommit with ⟨hclose, hopen⟩ | hcommit
  · refine hl hclose o' body' ?_
    simpa using hopen.append_left (a ++ [c])
  · exact hlast o' body' hcommit

theorem CommitsLast.of_closing {ls : List SourceLine} {l : SourceLine} {name : Bytes}
    {o : SourceLine} {body : List SourceLine} (hl : l.mark = .closing)
    (h : Opened ls name o body) : CommitsLast (ls ++ [l]) name o body := by
  refine ⟨ls, l, [], rfl, hl, h, ?_⟩
  rintro o' body' ⟨a, c, post, h, _⟩
  simp at h

theorem CommitsLast.commits {ls : List SourceLine} {name : Bytes} {o : SourceLine}
    {body : List SourceLine} (h : CommitsLast ls name o body) : Commits ls name o body := by
  obtain ⟨a, c, post, hls, hc, ho, _⟩ := h
  exact ⟨a, c, post, hls, hc, ho⟩

theorem Opened.of_closing {a m : List SourceLine} {c : SourceLine} (hc : c.mark = .closing)
    {name : Bytes} {o : SourceLine} {body : List SourceLine}
    (h : Opened (a ++ c :: m) name o body) : Opened m name o body := by
  induction m using List.reverseRecOn generalizing body with
  | nil =>
    rcases opened_snoc.mp h with ⟨hl, _⟩ | ⟨hl, _⟩
    · rw [hc] at hl; cases hl
    · rw [hc] at hl; cases hl
  | append_singleton m l ih =>
    rw [← List.cons_append, ← List.append_assoc] at h
    rcases opened_snoc.mp h with ⟨hl, rfl, rfl⟩ | ⟨hl, b, rfl, hb⟩
    · exact opened_snoc.mpr (Or.inl ⟨hl, rfl, rfl⟩)
    · exact opened_snoc.mpr (Or.inr ⟨hl, b, rfl, ih hb⟩)

theorem CommitsLast.unique {ls : List SourceLine} {name : Bytes} {o o' : SourceLine}
    {body body' : List SourceLine} (h : CommitsLast ls name o body)
    (h' : CommitsLast ls name o' body') : o = o' ∧ body = body' := by
  obtain ⟨a, c, post, hls, hc, ho, hlast⟩ := h
  obtain ⟨a', c', post', hls', hc', ho', hlast'⟩ := h'
  rcases List.append_eq_append_iff.mp (hls.symm.trans hls') with ⟨m, rfl, hm⟩ | ⟨m, rfl, hm⟩
  · cases m with
    | nil =>
      rw [List.append_nil] at ho'
      exact (ho.unique ho').2
    | cons x m =>
      obtain ⟨rfl, rfl⟩ := List.cons.inj hm
      exact absurd ⟨m, c', post', rfl, hc', ho'.of_closing hc⟩ (hlast o' body')
  · cases m with
    | nil =>
      rw [List.append_nil] at ho
      exact (ho.unique ho').2
    | cons x m =>
      obtain ⟨rfl, rfl⟩ := List.cons.inj hm
      exact absurd ⟨m, c, post, rfl, hc, ho.of_closing hc'⟩ (hlast' o body)

end Loading

end SectScript
