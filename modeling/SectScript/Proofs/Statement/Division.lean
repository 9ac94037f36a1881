import SectScript.Proofs.Statement.RoundTrip
import SectScript.Proofs.Text.Character

/-!
# Where an `if` is divided

The word `then` stands alone between blank bytes, and a byte counts as blank if it would be white
space as a code point of its own. In a valid text 0x85 and 0xA0 are no white space: they belong to
longer characters. What follows a `then` begins a character, so an operand without white space is
not divided in front of more text; but one that ends in `then` behind such a byte is.
-/

namespace SectScript

/-- A comparison of two texts with single spaces. -/
def comparedText (rel : Comparison) (left right : Bytes) : Bytes :=
  left ++ 0x20 :: (rel.token.name ++ 0x20 :: right)

/-- An `if` with single spaces. -/
def ifLine (rel : Comparison) (left right consequent : Bytes) : Bytes :=
  ifWord ++ 0x20 :: (comparedText rel left right ++ 0x20 :: (thenWord ++ 0x20 :: consequent))

/-- A text in valid characters that can be written as an operand: no white space, no byte of an
operator, and not the word `then`. -/
structure OperandText (s : Bytes) : Prop where
  ne_nil : s ≠ []
  valid : Utf8.isValid s = true
  spaceless : ∀ code ∈ Utf8.codes s, code ∉ Utf8.spaces
  free : ∀ b ∈ relationBytes, b ∉ s
  ne_then : s ≠ thenWord

/-- The text ends in `then` behind a byte that would be white space on its own. -/
def EndsInThen (s : Bytes) : Prop := 0x85 :: thenWord <:+ s ∨ 0xA0 :: thenWord <:+ s

instance (s : Bytes) : Decidable (EndsInThen s) := inferInstanceAs (Decidable (_ ∨ _))

theorem endsInThen_iff {s : Bytes} :
    EndsInThen s ↔ ∃ u b, (b = 0x85 ∨ b = 0xA0) ∧ s = u ++ b :: thenWord := by
  constructor
  · rintro (⟨u, rfl⟩ | ⟨u, rfl⟩)
    · exact ⟨u, 0x85, Or.inl rfl, rfl⟩
    · exact ⟨u, 0xA0, Or.inr rfl, rfl⟩
  · rintro ⟨u, b, rfl | rfl, rfl⟩
    · exact Or.inl ⟨u, rfl⟩
    · exact Or.inr ⟨u, rfl⟩

/-! ## Words -/

/-- A text without spaces in which no `then` has a blank byte behind it. -/
structure Word (s : Bytes) : Prop where
  solid : ∀ b ∈ s, Bytes.isBlank₁ b = false
  closed : ∀ u b v, s = u ++ (thenWord ++ b :: v) → Bytes.isBlankByte b = false

theorem isBlankByte_cases {b : UInt8} (h : Bytes.isBlankByte b = true) :
    Bytes.isBlank₁ b = true ∨ b = 0x85 ∨ b = 0xA0 := by
  simpa [Bytes.isBlankByte, Bytes.isBlank₁, or_assoc] using h

namespace Word

theorem of_append {s t : Bytes} (h : Word (s ++ t)) : Word s where
  solid b hb := h.solid b (List.mem_append_left t hb)
  closed u b v hs := h.closed u b (v ++ t) (by simp [hs])

theorem name (rel : Comparison) : Word rel.token.name where
  solid b hb := by
    have hall : rel.token.name.all (fun b => !Bytes.isBlank₁ b) = true := by cases rel <;> decide
    simpa using List.all_eq_true.mp hall b hb
  closed u b v hs := by
    have hshort : rel.token.name.length ≤ 2 := by cases rel <;> decide
    have hword : thenWord.length = 4 := by decide
    rw [hs] at hshort
    simp only [List.length_append, List.length_cons] at hshort
    omega

/-- The blank byte in front of a `then` at the end is no space. -/
theorem endsInThen {u : Bytes} {b : UInt8} (h : Word (u ++ b :: thenWord))
    (hb : Bytes.isBlankByte b = true) : EndsInThen (u ++ b :: thenWord) := by
  rcases isBlankByte_cases hb with hblank | hbyte
  · rw [h.solid b (by simp)] at hblank
    cases hblank
  · exact endsInThen_iff.mpr ⟨u, b, hbyte, rfl⟩

theorem not_holdsThen {w : Bytes} (h : Word w) : ¬ HoldsThen (0x20 :: w) := by
  rintro ⟨u, x, y, v, hw, -, hy⟩
  have hclosed : Bytes.isBlankByte y = false := by
    cases u with
    | nil =>
      obtain ⟨-, rfl⟩ := List.cons.inj hw
      exact h.closed [] y v rfl
    | cons a u =>
      obtain ⟨-, rfl⟩ := List.cons.inj hw
      exact h.closed (u ++ [x]) y v (by simp)
  rw [hy] at hclosed
  cases hclosed

/-- A word that ends in `then` behind a blank byte, the space in front of it counting. -/
theorem eq_or_endsInThen {w u : Bytes} {x : UInt8} (h : Word w)
    (hw : 0x20 :: w = u ++ x :: thenWord) (hx : Bytes.isBlankByte x = true) :
    w = thenWord ∨ EndsInThen w := by
  cases u with
  | nil => exact Or.inl (List.cons.inj hw).2
  | cons a u =>
    obtain ⟨-, rfl⟩ := List.cons.inj hw
    exact Or.inr (h.endsInThen hx)

/-- A `then` between blank bytes is the first word, or ends it, or comes later. -/
theorem holdsThen_cases {w q : Bytes} (h : Word w) (hthen : HoldsThen (0x20 :: (w ++ 0x20 :: q))) :
    (w = thenWord ∨ EndsInThen w) ∨ HoldsThen (0x20 :: q) := by
  obtain ⟨u, x, y, v, hw, hx, hy⟩ := hthen
  have hsplit : (0x20 :: w) ++ 0x20 :: q = (u ++ x :: thenWord) ++ y :: v := by simpa using hw
  rcases List.append_eq_append_iff.mp hsplit with ⟨r, hr, hq⟩ | ⟨r, hr, hq⟩
  · -- The word `then` ends with the first word or behind it.
    cases r with
    | nil => exact Or.inl (h.eq_or_endsInThen (by simpa using hr.symm) hx)
    | cons z r =>
      obtain ⟨rfl, -⟩ := List.cons.inj hq
      rcases List.append_eq_append_iff.mp hr with ⟨c, -, hc⟩ | ⟨c, -, hc⟩
      · cases c with
        | nil =>
          obtain ⟨rfl, rfl⟩ := List.cons.inj hc
          exact Or.inr ⟨[], 0x20, y, v, hq, hx, hy⟩
        | cons a c =>
          obtain ⟨-, hinside⟩ := List.cons.inj hc
          exact absurd (hinside ▸ by simp) (not_mem_thenWord (b := 0x20) (by decide))
      · refine Or.inr ⟨c, x, y, v, ?_, hx, hy⟩
        rw [hq, hc, List.append_assoc, List.cons_append]
  · cases r with
    | nil => exact Or.inl (h.eq_or_endsInThen (by simpa using hr) hx)
    | cons z r =>
      obtain ⟨rfl, -⟩ := List.cons.inj hq
      exact absurd ⟨u, x, y, r, by simpa using hr, hx, hy⟩ h.not_holdsThen

end Word

/-! ## Operands -/

namespace OperandText

variable {s : Bytes} (h : OperandText s)
include h

theorem spells : Utf8.Spells (Utf8.codes s) s := Utf8.spells_of_isValid h.valid

theorem solid {b : UInt8} (hb : b ∈ s) : Bytes.isBlank₁ b = false := by
  rw [← Bool.not_eq_true]
  intro hblank
  exact h.spaceless b.toNat (h.spells.mem_of_ascii hb (Bytes.ascii_of_blank hblank))
    (Utf8.mem_spaces_of_blank hblank)

theorem word : Word s where
  solid b hb := h.solid hb
  closed u b v hs := by
    have hword : thenWord = ascii "the" ++ [0x6E] := by decide
    have hspells := h.spells
    rw [hs, hword, List.append_assoc, ← List.append_assoc] at hspells
    have hlead := hspells.lead_behind_ascii (by decide)
    rw [← Bool.not_eq_true]
    intro hb
    rcases isBlankByte_cases hb with hblank | rfl | rfl
    · rw [h.solid (by simp [hs])] at hblank
      cases hblank
    · cases hlead
    · cases hlead

theorem plain : Plain s where
  ne_nil := h.ne_nil
  trimmed := h.spells.trim_eq_self h.spaceless
  free := h.free

/-- What stands before a `then` at the end can stand on a side of a comparison too. -/
theorem plain_before {u : Bytes} {b : UInt8} (hs : s = u ++ b :: thenWord) : Plain (u ++ [b]) := by
  have hspells := h.spells
  have hcut : s = (u ++ [b]) ++ 0x74 :: ascii "hen" := by rw [hs]; simp [thenWord, ascii]
  rw [hcut] at hspells
  obtain ⟨front, back, hcodes, hfront, -⟩ := hspells.split (by decide)
  refine ⟨by simp, hfront.trim_eq_self fun code hcode => ?_, fun c hc hmem => ?_⟩
  · exact h.spaceless code (by rw [hcut, hcodes]; exact List.mem_append_left back hcode)
  · exact h.free c hc (by rw [hcut]; exact List.mem_append_left _ hmem)

theorem word_before {u : Bytes} {b : UInt8} (hs : s = u ++ b :: thenWord) : Word (u ++ [b]) := by
  have hword := h.word
  rw [hs, List.append_cons] at hword
  exact hword.of_append

end OperandText

/-! ## Conditions -/

theorem comparedText_text (rel : Comparison) (left right : Term) :
    comparedText rel left.text right.text = comparisonText rel left right := rfl

theorem Node.ofCondition_of_free {s : Bytes} (hfree : ∀ b ∈ relationBytes, b ∉ s) :
    Node.ofCondition s = .error (.malformedCondition s) := by
  have hnone : Node.relations.find? (fun rel => Bytes.contains rel.name s) = none := by
    rw [List.find?_eq_none]
    intro r hr
    obtain ⟨rel, rfl⟩ := Node.mem_relations hr
    obtain ⟨c, hmem, hc⟩ : ∃ c ∈ rel.token.name, c ∈ relationBytes := by
      cases rel <;> exact ⟨_, List.mem_cons_self, by decide⟩
    rw [Bytes.contains_eq_false hmem (hfree c hc)]
    exact Bool.false_ne_true
  rw [Node.ofCondition, hnone]

/-! ## Lines -/

theorem hasKeyword_then_space (s : Bytes) : hasKeyword (thenWord ++ 0x20 :: s) thenWord = true :=
  hasKeyword_iff.mpr (Or.inr ⟨0x20, s, rfl, by decide⟩)

/-- Behind the operand in front a `then` between blank bytes is behind the operator. -/
theorem holdsThen_of_compared {rel : Comparison} {left rest : Bytes} (hl : OperandText left)
    (hclear : ¬ EndsInThen left) (h : HoldsThen (0x20 :: comparedText rel left rest)) :
    HoldsThen (0x20 :: rest) := by
  have hname : ¬ (rel.token.name = thenWord ∨ EndsInThen rel.token.name) := by
    cases rel <;> decide
  rcases hl.word.holdsThen_cases h with (hthen | hends) | hlater
  · exact absurd hthen hl.ne_then
  · exact absurd hends hclear
  · exact ((Word.name rel).holdsThen_cases hlater).resolve_left hname

section Line

variable {rel : Comparison} {left right consequent : Bytes} (hne : consequent ≠ [])
  (htrim : Bytes.trim consequent = consequent)
include hne htrim

theorem trim_ifLine :
    Bytes.trim (ifLine rel left right consequent) = ifLine rel left right consequent := by
  have hline : ifLine rel left right consequent = ifWord ++ 0x20 ::
      ((comparedText rel left right ++ 0x20 :: thenWord) ++ 0x20 :: consequent) := by
    simp [ifLine]
  rw [hline]
  refine Bytes.trim_append_space_cons (by decide) (by decide) ?_ (by simp)
  rw [Bytes.trimRight_append_cons (by decide), ((Bytes.trim_eq_self_iff consequent).mp htrim).2,
    if_neg hne]

theorem Statement.ofLine_ifLine : Statement.ofLine (ifLine rel left right consequent) =
    Statement.ofIf (ifLine rel left right consequent)
      (0x20 :: (comparedText rel left right ++ 0x20 :: (thenWord ++ 0x20 :: consequent))) := by
  have hcontains : Bytes.contains thenWord (ifLine rel left right consequent) = true := by
    rw [Bytes.contains_iff]
    exact ⟨ifWord ++ 0x20 :: (comparedText rel left right ++ [0x20]), 0x20 :: consequent,
      by simp [ifLine]⟩
  rw [Statement.ofLine, trim_ifLine hne htrim]
  exact Statement.ofTrimmed_if hcontains

/-- The left operand is divided, and nothing of the comparison is left but its front. -/
theorem Statement.ofLine_ifLine_left (hl : OperandText left) {u : Bytes} {b : UInt8}
    (hb : Bytes.isBlankByte b = true) (hu : left = u ++ b :: thenWord) :
    Statement.ofLine (ifLine rel left right consequent) =
      .error (.malformedCondition (u ++ [b])) := by
  have hplain := hl.plain_before hu
  have hword := hl.word_before hu
  -- what follows the word that divides the line
  let rest := rel.token.name ++ 0x20 :: (right ++ 0x20 :: (thenWord ++ 0x20 :: consequent))
  have hcut : 0x20 :: (comparedText rel left right ++ 0x20 :: (thenWord ++ 0x20 :: consequent)) =
      (0x20 :: u) ++ b :: (thenWord ++ 0x20 :: rest) := by
    simp [rest, comparedText, hu]
  have hrest : Bytes.trim (0x20 :: rest) ≠ [] := by
    obtain ⟨c, w, hname, hc⟩ : ∃ c w, rel.token.name = c :: w ∧ Bytes.isSolid c = true := by
      cases rel <;> exact ⟨_, _, rfl, by decide⟩
    simp only [rest, hname]
    rw [Bytes.trim_space_cons, List.cons_append, Bytes.trim_cons_of_solid hc]
    exact List.cons_ne_nil _ _
  rw [Statement.ofLine_ifLine hne htrim, hcut,
    Statement.ofIf_cut hb hword.not_holdsThen (hasKeyword_then_space rest) hrest,
    List.cons_append, Bytes.trim_space_cons, Bytes.trim_space_cons, hplain.trimmed,
    Node.ofCondition_of_free hplain.free]
  rfl

section Operands

variable {l r : Term} (hleft : l.Proper) (hright : r.Proper) (hl : OperandText l.text)
  (hclear : ¬ EndsInThen l.text)
include hleft hright hl hclear

theorem Form.cond_on_ifLine (hr : OperandText r.text) (hclear' : ¬ EndsInThen r.text) :
    (Form.cond rel l r consequent).On (ifLine rel l.text r.text consequent) := by
  have hnothing : ¬ HoldsThen ((0x20 :: comparedText rel l.text r.text) ++ [0x20]) := by
    intro hthen
    have hlater : HoldsThen (0x20 :: (r.text ++ 0x20 :: [])) :=
      holdsThen_of_compared hl hclear (by simpa [comparedText] using hthen)
    rcases hr.word.holdsThen_cases hlater with (hthen | hends) | hempty
    · exact hr.ne_then hthen
    · exact hclear' hends
    · revert hempty
      decide
  rw [Form.On, trim_ifLine hne htrim, Statement.ofLine_ifLine hne htrim, ← List.cons_append,
    Statement.ofIf_cut (by decide) hnothing (hasKeyword_then_space consequent)
      (by rwa [Bytes.trim_space_cons, htrim]),
    Bytes.trim_space_cons, htrim, List.cons_append, Bytes.trim_space_cons,
    Bytes.trim_append_space, comparedText_text, trim_comparisonText hl.plain hr.plain,
    Node.ofCondition_text hleft hright hl.plain hr.plain]
  rfl

/-- The right operand is divided, and the word `then` that was meant begins the consequent. -/
theorem Form.cond_on_ifLine_right (hr : OperandText right) {u : Bytes} {b : UInt8}
    (hb : Bytes.isBlankByte b = true) (hu : right = u ++ b :: thenWord)
    (hfront : r.text = u ++ [b]) :
    (Form.cond rel l r (thenWord ++ 0x20 :: consequent)).On
      (ifLine rel l.text right consequent) := by
  have hplain : Plain r.text := hfront ▸ hr.plain_before hu
  have hword : Word r.text := hfront ▸ hr.word_before hu
  have hcut : 0x20 :: (comparedText rel l.text right ++ 0x20 :: (thenWord ++ 0x20 :: consequent)) =
      (0x20 :: comparedText rel l.text u) ++
        b :: (thenWord ++ 0x20 :: (thenWord ++ 0x20 :: consequent)) := by
    simp [comparedText, hu]
  have hbefore : (0x20 :: comparedText rel l.text u) ++ [b] =
      0x20 :: comparedText rel l.text r.text := by
    simp [comparedText, hfront]
  have hnothing : ¬ HoldsThen ((0x20 :: comparedText rel l.text u) ++ [b]) := by
    rw [hbefore]
    exact fun hthen => hword.not_holdsThen (holdsThen_of_compared hl hclear hthen)
  have hrest : Bytes.trim (0x20 :: (thenWord ++ 0x20 :: consequent)) =
      thenWord ++ 0x20 :: consequent := by
    rw [Bytes.trim_space_cons]
    exact Bytes.trim_append_space_cons (by decide) (by decide)
      ((Bytes.trim_eq_self_iff consequent).mp htrim).2 hne
  rw [Form.On, trim_ifLine hne htrim, Statement.ofLine_ifLine hne htrim, hcut,
    Statement.ofIf_cut hb hnothing (hasKeyword_then_space _) (by rw [hrest]; simp), hbefore, hrest,
    Bytes.trim_space_cons, comparedText_text, trim_comparisonText hl.plain hplain,
    Node.ofCondition_text hleft hright hl.plain hplain]
  rfl

end Operands

end Line

/-- A line `if L op R then S` is read as that comparison and consequent exactly if neither operand
ends in `then` behind a character whose last byte is 0x85 or 0xA0. If the left one does, no
comparison is found; if only the right one does, the line is divided inside it. -/
theorem ifLine_divided_iff (rel : Comparison) (left right consequent : Bytes)
    (hl : OperandText left) (hr : OperandText right) (hne : consequent ≠ [])
    (htrim : Bytes.trim consequent = consequent) :
    let line := ifLine rel left right consequent
    ∃ l r : Term, l.Proper ∧ l.text = left ∧ r.Proper ∧ r.text = right ∧
      ((Form.cond rel l r consequent).On line ↔ ¬ EndsInThen left ∧ ¬ EndsInThen right) ∧
      (∀ u b, (b = 0x85 ∨ b = 0xA0) → left = u ++ b :: thenWord →
        Statement.ofLine line = .error (.malformedCondition (u ++ [b]))) ∧
      (∀ u b, (b = 0x85 ∨ b = 0xA0) → right = u ++ b :: thenWord → ¬ EndsInThen left →
        ∃ front : Term, front.Proper ∧ front.text = u ++ [b] ∧
          (Form.cond rel l front (thenWord ++ 0x20 :: consequent)).On line) := by
  intro line
  obtain ⟨l, ⟨hleft, rfl⟩, -⟩ := Term.existsUnique_text left
  obtain ⟨r, ⟨hright, rfl⟩, -⟩ := Term.existsUnique_text right
  have hblank : ∀ {b : UInt8}, b = 0x85 ∨ b = 0xA0 → Bytes.isBlankByte b = true := by
    rintro b (rfl | rfl) <;> decide
  have hfails : ∀ u b, (b = 0x85 ∨ b = 0xA0) → l.text = u ++ b :: thenWord →
      Statement.ofLine line = .error (.malformedCondition (u ++ [b])) := by
    intro u b hb hu
    exact Statement.ofLine_ifLine_left hne htrim hl (hblank hb) hu
  have hdivides : ∀ u b, (b = 0x85 ∨ b = 0xA0) → r.text = u ++ b :: thenWord →
      ¬ EndsInThen l.text → ∃ front : Term, front.Proper ∧ front.text = u ++ [b] ∧
        (Form.cond rel l front (thenWord ++ 0x20 :: consequent)).On line := by
    intro u b hb hu hclear
    obtain ⟨front, ⟨hproper, hfront⟩, -⟩ := Term.existsUnique_text (u ++ [b])
    exact ⟨front, hproper, hfront, Form.cond_on_ifLine_right hne htrim hleft hproper hl hclear hr
      (hblank hb) hu hfront⟩
  refine ⟨l, r, hleft, rfl, hright, rfl, ⟨fun hread => ?_, fun ⟨hclear, hclear'⟩ =>
    Form.cond_on_ifLine hne htrim hleft hright hl hclear hr hclear'⟩, hfails, hdivides⟩
  rw [Form.On] at hread
  have hclear : ¬ EndsInThen l.text := by
    intro hends
    obtain ⟨u, b, hb, hu⟩ := endsInThen_iff.mp hends
    rw [hfails u b hb hu] at hread
    cases hread
  refine ⟨hclear, fun hends => ?_⟩
  obtain ⟨u, b, hb, hu⟩ := endsInThen_iff.mp hends
  obtain ⟨front, -, -, hother⟩ := hdivides u b hb hu hclear
  rw [Form.On, hread] at hother
  have hsame : r.node = front.node ∧ consequent = thenWord ++ 0x20 :: consequent := by
    simpa [Form.statement] using hother
  have hlength := congrArg List.length hsame.2
  simp only [List.length_append, List.length_cons] at hlength
  omega

/-- A variable with `then` in front, and behind the character U+00E0, but not at the end. -/
def thenInside : Bytes := ascii "$then" ++ [0xC3, 0xA0] ++ ascii "thens"

theorem ifLine_divided_iff_inside :
    OperandText thenInside ∧ OperandText (ascii "athen") ∧
      (Form.cond .ne (.var (ascii "then" ++ [0xC3, 0xA0] ++ ascii "thens")) (.bare (ascii "athen"))
        (ascii "@then")).On (ascii "if " ++ thenInside ++ ascii " != athen then @then") := by
  have hleft : OperandText thenInside := by constructor <;> decide +kernel
  have hright : OperandText (ascii "athen") := by constructor <;> decide +kernel
  have hline : ifLine .ne thenInside (ascii "athen") (ascii "@then") =
      ascii "if " ++ thenInside ++ ascii " != athen then @then" := by decide
  obtain ⟨l, r, hl, hltext, hr, hrtext, hread, -⟩ := ifLine_divided_iff .ne thenInside
    (ascii "athen") (ascii "@then") hleft hright (by decide) (by decide)
  have hvar : l = .var (ascii "then" ++ [0xC3, 0xA0] ++ ascii "thens") :=
    (Term.existsUnique_text thenInside).unique ⟨hl, hltext⟩ ⟨trivial, by decide⟩
  have hbare : r = .bare (ascii "athen") :=
    (Term.existsUnique_text (ascii "athen")).unique ⟨hr, hrtext⟩ ⟨by decide, rfl⟩
  rw [hline, hvar, hbare] at hread
  exact ⟨hleft, hright, hread.mpr ⟨by decide +kernel, by decide +kernel⟩⟩

/-- A variable that ends in `then` behind U+00E0, whose last byte is 0xA0. -/
def thenAtEnd : Bytes := ascii "$" ++ [0xC3, 0xA0] ++ ascii "then"

/-- The line is divided inside the variable, and no comparison is left in front. -/
theorem ifLine_divided_early :
    OperandText thenAtEnd ∧ OperandText (ascii "1") ∧
      Statement.ofLine (ascii "if " ++ thenAtEnd ++ ascii " == 1 then exit") =
        .error (.malformedCondition (ascii "$" ++ [0xC3, 0xA0])) := by
  have hleft : OperandText thenAtEnd := by constructor <;> decide +kernel
  have hright : OperandText (ascii "1") := by constructor <;> decide +kernel
  have hline : ifLine .eq thenAtEnd (ascii "1") (ascii "exit") =
      ascii "if " ++ thenAtEnd ++ ascii " == 1 then exit" := by decide
  have hend : thenAtEnd = (ascii "$" ++ [0xC3]) ++ 0xA0 :: thenWord := by decide
  have hread : Statement.ofLine (ifLine .eq thenAtEnd (ascii "1") (ascii "exit")) =
      .error (.malformedCondition ((ascii "$" ++ [0xC3]) ++ [0xA0])) :=
    Statement.ofLine_ifLine_left (by decide) (by decide) hleft (by decide) hend
  rw [hline] at hread
  exact ⟨hleft, hright, hread⟩

end SectScript
