import SectScript.Proofs.Statement.Word
import SectScript.Proofs.Text.Blank

/-!
# Forms of statements

A statement that a line gives is of one of seven forms; operands are variables, quoted texts or bare
words. `Form.statement` gives the statement of a form and `Statement.ofLine_form` says that there
are no others.
-/

namespace SectScript

/-- An operand of a comparison, by kind. -/
inductive Term where
  | var (name : Bytes)
  | quoted (s : Bytes)
  | bare (s : Bytes)
  deriving DecidableEq

def Term.node : Term → Node
  | var name => .leaf .varName name
  | quoted s => .leaf .quoted s
  | bare s => .leaf .bare s

inductive Comparison where
  | eq
  | ne
  | ge
  | le
  | lt
  | gt
  deriving DecidableEq

def Comparison.token : Comparison → Token
  | eq => .eq
  | ne => .ne
  | ge => .ge
  | le => .le
  | lt => .lt
  | gt => .gt

/-- What a line can be. -/
inductive Form where
  | comment
  | printVar (name : Bytes)
  | printText (s : Bytes)
  | assign (name expr : Bytes)
  | call (name : Bytes)
  | cond (rel : Comparison) (left right : Term) (consequent : Bytes)
  | exit
  deriving DecidableEq

/-- The statement on a line of this form. -/
def Form.statement (line : Bytes) : Form → Statement
  | comment => ⟨.comment, line, []⟩
  | printVar name => ⟨.print, line, [.leaf .varName name]⟩
  | printText s => ⟨.print, line, [.leaf .quoted s]⟩
  | assign name expr => ⟨.assign, line, [.leaf .varName name, .leaf .expr expr]⟩
  | call name => ⟨.call, line, [.leaf .sectName name]⟩
  | cond rel left right consequent =>
    ⟨.cond, line, [.inner rel.token [left.node, right.node], .leaf .stmtText consequent]⟩
  | exit => ⟨.exit, line, []⟩

/-- A line is read as a statement of this form. -/
def Form.On (form : Form) (line : Bytes) : Prop :=
  Statement.ofLine line = .ok (form.statement (Bytes.trim line))

theorem Node.ofOperand_term (s : Bytes) : ∃ t : Term, Node.ofOperand s = t.node := by
  rw [Node.ofOperand]
  split
  case h_1 name _ => exact ⟨.var name, rfl⟩
  case h_2 =>
    split
    case h_1 inside _ => exact ⟨.quoted inside, rfl⟩
    case h_2 => exact ⟨.bare s, rfl⟩

theorem Node.mem_relations {rel : Token} (h : rel ∈ Node.relations) :
    ∃ c : Comparison, rel = c.token := by
  simp only [Node.relations, List.mem_cons, List.not_mem_nil, or_false] at h
  rcases h with rfl | rfl | rfl | rfl | rfl | rfl
  · exact ⟨.eq, rfl⟩
  · exact ⟨.ne, rfl⟩
  · exact ⟨.ge, rfl⟩
  · exact ⟨.le, rfl⟩
  · exact ⟨.lt, rfl⟩
  · exact ⟨.gt, rfl⟩

theorem Node.ofCondition_form {text : Bytes} {n : Node} (h : Node.ofCondition text = .ok n) :
    ∃ (rel : Comparison) (left right : Term), n = .inner rel.token [left.node, right.node] := by
  rw [Node.ofCondition] at h
  split at h
  case h_1 => cases h
  case h_2 rel hrel =>
    obtain ⟨c, rfl⟩ := Node.mem_relations (List.mem_of_find?_eq_some hrel)
    split at h
    case h_1 => cases h
    case h_2 left right _ =>
      obtain ⟨l, hl⟩ := Node.ofOperand_term (Bytes.trim left)
      obtain ⟨r, hr⟩ := Node.ofOperand_term (Bytes.trim right)
      split at h
      · cases h
      · split at h
        · cases h
        · exact ⟨c, l, r, by rw [← hl, ← hr]; exact (Except.ok.inj h).symm⟩

namespace Statement

theorem ofPrint_form {line rest : Bytes} {stmt : Statement} (h : ofPrint line rest = .ok stmt) :
    (∃ name, stmt = (Form.printVar name).statement line) ∨
      ∃ s, stmt = (Form.printText s).statement line := by
  rw [ofPrint] at h
  split at h
  · cases h
  · split at h
    case h_1 name _ => exact Or.inl ⟨name, (Except.ok.inj h).symm⟩
    case h_2 =>
      split at h
      case h_1 inside _ => exact Or.inr ⟨inside, (Except.ok.inj h).symm⟩
      case h_2 => cases h

theorem ofAssignment_form {line rest : Bytes} {stmt : Statement}
    (h : ofAssignment line rest = .ok stmt) :
    ∃ name expr, stmt = (Form.assign name expr).statement line := by
  rw [ofAssignment] at h
  dsimp only at h
  split at h
  · cases h
  · exact ⟨_, _, (Except.ok.inj h).symm⟩

theorem ofIf_form {line rest : Bytes} {stmt : Statement} (h : ofIf line rest = .ok stmt) :
    ∃ rel left right consequent,
      stmt = (Form.cond rel left right consequent).statement line ∧
        consequent.length ≤ rest.length := by
  rw [ofIf] at h
  split at h
  case h_1 => cases h
  case h_2 i _ =>
    dsimp only at h
    split at h
    · cases h
    · split at h
      case h_1 => cases h
      case h_2 n hn =>
        obtain ⟨rel, left, right, rfl⟩ := Node.ofCondition_form hn
        refine ⟨rel, left, right, _, (Except.ok.inj h).symm, ?_⟩
        have hle := Bytes.length_trim_le (rest.drop (i + thenWord.length))
        rw [List.length_drop] at hle
        omega

theorem ofLine_eq_ofAssignment {line : Bytes} (h : isAssignment (Bytes.trim line) = true) :
    ofLine line = ofAssignment (Bytes.trim line) ((Bytes.trim line).drop sigil.length) := by
  have hsigil := h
  rw [isAssignment, Bool.and_eq_true, Bytes.startsWith_iff] at hsigil
  obtain ⟨⟨rest, hline⟩, _⟩ := hsigil
  have hcomment : Bytes.startsWith (ascii "--") (Bytes.trim line) = false := by
    rw [hline]
    rfl
  have hprint : hasKeyword (Bytes.trim line) printWord = false := by
    rw [hline]
    rfl
  rw [ofLine, ofTrimmed, hcomment, hprint, h]
  rfl

/-- Every statement that a line gives has a form, and the consequent of an `if` is shorter than its
line. -/
theorem ofLine_form {line : Bytes} {stmt : Statement} (h : ofLine line = .ok stmt) :
    ∃ form : Form, stmt = form.statement (Bytes.trim line) ∧
      ∀ rel left right consequent, form = .cond rel left right consequent →
        consequent.length < line.length := by
  rw [ofLine, ofTrimmed] at h
  split at h
  · exact ⟨.comment, (Except.ok.inj h).symm, by intros; contradiction⟩
  split at h
  · rcases ofPrint_form h with ⟨name, rfl⟩ | ⟨s, rfl⟩
    · exact ⟨.printVar name, rfl, by intros; contradiction⟩
    · exact ⟨.printText s, rfl, by intros; contradiction⟩
  split at h
  · obtain ⟨name, expr, rfl⟩ := ofAssignment_form h
    exact ⟨.assign name expr, rfl, by intros; contradiction⟩
  split at h
  case h_1 name _ => exact ⟨.call name, (Except.ok.inj h).symm, by intros; contradiction⟩
  case h_2 =>
    split at h
    case isTrue hif =>
      obtain ⟨rel, left, right, consequent, rfl, hle⟩ := ofIf_form h
      refine ⟨.cond rel left right consequent, rfl, ?_⟩
      intro _ _ _ _ heq
      obtain ⟨rfl, rfl, rfl, rfl⟩ := Form.cond.inj heq
      rw [Bool.and_eq_true] at hif
      have hword := hasKeyword_length hif.1
      have htrim := Bytes.length_trim_le line
      have hpos : 0 < ifWord.length := by decide
      rw [List.length_drop] at hle
      omega
    case isFalse =>
      split at h
      · exact ⟨.exit, (Except.ok.inj h).symm, by intros; contradiction⟩
      · cases h

end Statement

end SectScript
