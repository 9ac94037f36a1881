import SectScript.Proofs.Statement.Form
import Mathlib.Data.List.Find
import Mathlib.Logic.ExistsUnique

/-!
# Comparisons as they are written

An operand has a text, and every text is that of one operand. A comparison of two texts that hold no
byte of an operator, with its operator between single spaces, is read as that comparison: the
operators are tried in a fixed order, and an operator that is found before its own would lie inside
it.
-/

namespace SectScript

/-- An operand as it is written. -/
def Term.text : Term → Bytes
  | var name => sigil ++ name
  | quoted s => 0x22 :: (s ++ [0x22])
  | bare s => s

/-- A bare word looks neither like a variable nor like a quoted text. -/
def Term.Proper : Term → Prop
  | var _ | quoted _ => True
  | bare s => (∀ name, s ≠ (var name).text) ∧ ∀ inside, s ≠ (quoted inside).text

/-- A comparison with single spaces. -/
def comparisonText (rel : Comparison) (left right : Term) : Bytes :=
  left.text ++ 0x20 :: (rel.token.name ++ 0x20 :: right.text)

/-- The bytes that comparison operators are made of. -/
def relationBytes : Bytes := ascii "=!<>"

/-- A text that can stand on a side of a comparison. -/
structure Plain (s : Bytes) : Prop where
  ne_nil : s ≠ []
  trimmed : Bytes.trim s = s
  free : ∀ b ∈ relationBytes, b ∉ s

/-! ## Operands -/

theorem unquote?_eq_some_iff {s inside : Bytes} :
    unquote? s = some inside ↔ s = 0x22 :: (inside ++ [0x22]) := by
  constructor
  · intro h
    rw [unquote?.eq_def] at h
    split at h
    case h_1 t =>
      split at h
      case isTrue hlast =>
        obtain ⟨front, rfl⟩ := List.getLast?_eq_some_iff.mp hlast
        obtain rfl := Option.some.inj h
        rw [List.dropLast_concat]
      case isFalse => cases h
    case h_2 => cases h
  · rintro rfl
    simp [unquote?]

instance (t : Term) : Decidable t.Proper :=
  match t with
  | .var _ | .quoted _ => .isTrue trivial
  | .bare s => decidable_of_iff (sigil.isPrefixOf? s = none ∧ unquote? s = none) (by
      simp only [Option.eq_none_iff_forall_ne_some, ne_eq, List.isPrefixOf?_eq_some_iff_append_eq,
        unquote?_eq_some_iff, @eq_comm _ _ s]
      rfl)

theorem Node.ofOperand_text {t : Term} (h : t.Proper) : Node.ofOperand t.text = t.node := by
  cases t with
  | var name => simp [Node.ofOperand, Term.text, Term.node, Bytes.isPrefixOf?_append]
  | quoted s =>
    have hsigil : sigil.isPrefixOf? (0x22 :: (s ++ [0x22])) = none := rfl
    have hquoted : unquote? (0x22 :: (s ++ [0x22])) = some s := unquote?_eq_some_iff.mpr rfl
    simp only [Node.ofOperand, Term.text, Term.node, hsigil, hquoted]
  | bare s =>
    have hsigil : sigil.isPrefixOf? s = none := by
      rw [Option.eq_none_iff_forall_ne_some]
      intro name hname
      exact h.1 name (List.append_eq_of_isPrefixOf?_eq_some hname).symm
    have hquoted : unquote? s = none := by
      rw [Option.eq_none_iff_forall_ne_some]
      intro inside hinside
      exact h.2 inside (unquote?_eq_some_iff.mp hinside)
    simp only [Node.ofOperand, Term.text, Term.node, hsigil, hquoted]

/-- Every text is that of one operand. -/
theorem Term.existsUnique_text (s : Bytes) : ∃! t : Term, t.Proper ∧ t.text = s := by
  have hnode : ∀ t t' : Term, t.node = t'.node → t = t' := by
    intro t t' h
    cases t <;> cases t' <;> cases h <;> rfl
  have hexists : ∃ t : Term, t.Proper ∧ t.text = s := by
    by_cases hvar : ∃ name, s = (Term.var name).text
    · obtain ⟨name, rfl⟩ := hvar
      exact ⟨.var name, trivial, rfl⟩
    · by_cases hquoted : ∃ inside, s = (Term.quoted inside).text
      · obtain ⟨inside, rfl⟩ := hquoted
        exact ⟨.quoted inside, trivial, rfl⟩
      · exact ⟨.bare s, ⟨fun name h => hvar ⟨name, h⟩, fun inside h => hquoted ⟨inside, h⟩⟩, rfl⟩
  obtain ⟨t, hproper, rfl⟩ := hexists
  refine ⟨t, ⟨hproper, rfl⟩, ?_⟩
  rintro t' ⟨hproper', heq⟩
  apply hnode
  rw [← Node.ofOperand_text hproper', heq, Node.ofOperand_text hproper]

/-! ## Comparisons -/

theorem filter_relationBytes_eq_nil_iff {s : Bytes} :
    s.filter (· ∈ relationBytes) = [] ↔ ∀ b ∈ relationBytes, b ∉ s := by
  rw [List.filter_eq_nil_iff]
  constructor
  · intro h b hb hmem
    exact h b hmem (by simpa using hb)
  · intro h b hmem hb
    exact h b (by simpa using hb) hmem

instance (s : Bytes) : Decidable (Plain s) :=
  decidable_of_iff (s ≠ [] ∧ Bytes.trim s = s ∧ s.filter (· ∈ relationBytes) = [])
    ⟨fun h => ⟨h.1, h.2.1, filter_relationBytes_eq_nil_iff.mp h.2.2⟩,
      fun h => ⟨h.ne_nil, h.trimmed, filter_relationBytes_eq_nil_iff.mpr h.free⟩⟩

/-- The bytes of operators in a comparison are those of its own. -/
theorem filter_comparisonText {rel : Comparison} {left right : Term} (hl : Plain left.text)
    (hr : Plain right.text) :
    (comparisonText rel left right).filter (· ∈ relationBytes) = rel.token.name := by
  have hspace : decide ((0x20 : UInt8) ∈ relationBytes) = false := by decide
  have hname : rel.token.name.filter (· ∈ relationBytes) = rel.token.name := by
    cases rel <;> decide
  have hleft := filter_relationBytes_eq_nil_iff.mpr hl.free
  have hright := filter_relationBytes_eq_nil_iff.mpr hr.free
  rw [comparisonText, List.filter_append, List.filter_cons_of_neg (by simp [hspace]),
    List.filter_append, List.filter_cons_of_neg (by simp [hspace]), hleft, hright, hname,
    List.nil_append, List.append_nil]

/-- An operator occurs in a comparison only inside that of the comparison. -/
theorem contains_comparisonText {rel other : Comparison} {left right : Term}
    (hl : Plain left.text) (hr : Plain right.text) :
    Bytes.contains other.token.name (comparisonText rel left right) =
      Bytes.contains other.token.name rel.token.name := by
  rw [Bool.eq_iff_iff, Bytes.contains_iff, Bytes.contains_iff]
  constructor
  · rintro ⟨l, r, h⟩
    have hother : other.token.name.filter (· ∈ relationBytes) = other.token.name := by
      cases other <;> decide
    refine ⟨l.filter (· ∈ relationBytes), r.filter (· ∈ relationBytes), ?_⟩
    rw [← filter_comparisonText hl hr, h, List.filter_append, List.filter_append, hother]
  · rintro ⟨l, r, h⟩
    refine ⟨left.text ++ 0x20 :: l, r ++ 0x20 :: right.text, ?_⟩
    rw [comparisonText, h]
    simp

/-- The search for an operator in the order of the list finds that of the comparison. -/
theorem find?_relations {rel : Comparison} {left right : Term} (hl : Plain left.text)
    (hr : Plain right.text) :
    Node.relations.find? (fun r => Bytes.contains r.name (comparisonText rel left right)) =
      some rel.token := by
  have hsame : ∀ r ∈ Node.relations, Bytes.contains r.name (comparisonText rel left right) =
      Bytes.contains r.name rel.token.name := by
    intro r hr'
    obtain ⟨other, rfl⟩ := Node.mem_relations hr'
    exact contains_comparisonText hl hr
  rw [List.find?_congr hsame]
  cases rel <;> decide

theorem cut_comparisonText {rel : Comparison} {left right : Term} (hl : Plain left.text) :
    Bytes.cut rel.token.name (comparisonText rel left right) =
      some (left.text ++ [0x20], 0x20 :: right.text) := by
  obtain ⟨c, w, hname, hc⟩ : ∃ c w, rel.token.name = c :: w ∧ c ∈ relationBytes := by
    cases rel <;> exact ⟨_, _, rfl, by decide⟩
  have hfront : c ∉ left.text ++ [0x20] := by
    rw [List.mem_append, List.mem_singleton]
    rintro (hmem | rfl)
    · exact hl.free c hc hmem
    · exact absurd hc (by decide)
  have h := Bytes.cut_append (w := w) hfront (0x20 :: right.text)
  rw [← hname] at h
  rw [← h, comparisonText]
  simp

theorem Node.ofCondition_text {rel : Comparison} {left right : Term} (hleft : left.Proper)
    (hright : right.Proper) (hl : Plain left.text) (hr : Plain right.text) :
    Node.ofCondition (comparisonText rel left right) =
      .ok (.inner rel.token [left.node, right.node]) := by
  have honce : Bytes.contains rel.token.name (0x20 :: right.text) = false := by
    obtain ⟨c, hmem, hc⟩ : ∃ c ∈ rel.token.name, c ∈ relationBytes := by
      cases rel <;> exact ⟨_, List.mem_cons_self, by decide⟩
    apply Bytes.contains_eq_false hmem
    rw [List.mem_cons]
    rintro (rfl | hright)
    · exact absurd hc (by decide)
    · exact hr.free c hc hright
  rw [Node.ofCondition, find?_relations hl hr]
  dsimp only
  rw [cut_comparisonText hl]
  dsimp only
  rw [honce, Bytes.trim_append_space, Bytes.trim_space_cons, hl.trimmed, hr.trimmed,
    Node.ofOperand_text hleft, Node.ofOperand_text hright]
  simp [hl.ne_nil, hr.ne_nil]

theorem trim_comparisonText {rel : Comparison} {left right : Term} (hl : Plain left.text)
    (hr : Plain right.text) :
    Bytes.trim (comparisonText rel left right) = comparisonText rel left right := by
  apply Bytes.trim_append_space_cons ((Bytes.trim_eq_self_iff _).mp hl.trimmed).1 hl.ne_nil
  · rw [Bytes.trimRight_append_cons (by decide), ((Bytes.trim_eq_self_iff _).mp hr.trimmed).2,
      if_neg hr.ne_nil]
  · simp

end SectScript
