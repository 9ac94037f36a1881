import SectScript.Proofs.Statement.Comparison

/-!
# Phrases

A phrase is a statement with the statements of its consequents. `Phrase.render` writes one on a
line, and `Phrase.read` reads a line back, taking each consequent as a line of its own.
-/

namespace SectScript

inductive Phrase where
  | comment (text : Bytes)
  | printVar (name : Bytes)
  | printText (s : Bytes)
  | assign (name expr : Bytes)
  | call (name : Bytes)
  | cond (rel : Comparison) (left right : Term) (consequent : Phrase)
  | exit
  deriving DecidableEq

namespace Phrase

/-- The line of a phrase. -/
def render : Phrase → Bytes
  | comment text => text
  | printVar name => printWord ++ 0x20 :: (Term.var name).text
  | printText s => printWord ++ 0x20 :: (Term.quoted s).text
  | assign name expr => sigil ++ name ++ ascii " = " ++ expr
  | call name => ascii "@" ++ name
  | cond rel left right consequent =>
    ifWord ++ 0x20 :: (comparisonText rel left right ++ 0x20 :: (thenWord ++ 0x20 ::
      consequent.render))
  | exit => exitWord

end Phrase

/-- What the parts of a phrase must be for its line to mean it. -/
def Phrase.Proper : Phrase → Prop
  | comment text => Bytes.trim text = text ∧ ∃ s, text = ascii "--" ++ s
  | printVar name => Bytes.trimRight name = name
  | printText _ => True
  | assign name expr => name ≠ [] ∧ Bytes.trim name = name ∧ 0x3D ∉ name ∧ Bytes.trim expr = expr
  | call name => name ≠ [] ∧ Bytes.trim name = name
  | cond rel left right consequent =>
    left.Proper ∧ right.Proper ∧ Plain left.text ∧ Plain right.text ∧
      ¬ HoldsThen (0x20 :: (comparisonText rel left right ++ [0x20])) ∧ consequent.Proper
  | exit => True

instance Phrase.decidableProper : (t : Phrase) → Decidable t.Proper
  | comment text =>
    decidable_of_iff (Bytes.trim text = text ∧ Bytes.startsWith (ascii "--") text = true)
      (and_congr_right fun _ => Bytes.startsWith_iff)
  | printVar name => inferInstanceAs (Decidable (Bytes.trimRight name = name))
  | assign name expr => inferInstanceAs
    (Decidable (name ≠ [] ∧ Bytes.trim name = name ∧ 0x3D ∉ name ∧ Bytes.trim expr = expr))
  | call name => inferInstanceAs (Decidable (name ≠ [] ∧ Bytes.trim name = name))
  | cond rel left right consequent =>
    have := consequent.decidableProper
    inferInstanceAs (Decidable (left.Proper ∧ right.Proper ∧ Plain left.text ∧ Plain right.text ∧
      ¬ HoldsThen (0x20 :: (comparisonText rel left right ++ [0x20])) ∧ consequent.Proper))
  | printText _ | exit => .isTrue trivial

/-! ## Reading -/

def Comparison.all : List Comparison := [eq, ne, ge, le, lt, gt]

def Node.term? : Node → Option Term
  | leaf .varName name => some (.var name)
  | leaf .quoted s => some (.quoted s)
  | leaf .bare s => some (.bare s)
  | _ => none

/-- The form of a statement, all its tokens and operands being as the form says. -/
def Statement.form? (stmt : Statement) : Option Form :=
  match stmt.token, stmt.operands with
  | .comment, [] => some .comment
  | .print, [.leaf .varName name] => some (.printVar name)
  | .print, [.leaf .quoted s] => some (.printText s)
  | .assign, [.leaf .varName name, .leaf .expr expr] => some (.assign name expr)
  | .call, [.leaf .sectName name] => some (.call name)
  | .cond, [.inner rel [left, right], .leaf .stmtText consequent] =>
    match Comparison.all.find? (·.token = rel), left.term?, right.term? with
    | some rel, some left, some right => some (.cond rel left right consequent)
    | _, _, _ => none
  | .exit, [] => some .exit
  | _, _ => none

theorem Form.form?_statement (form : Form) (line : Bytes) :
    (form.statement line).form? = some form := by
  cases form with
  | cond rel left right consequent => cases rel <;> cases left <;> cases right <;> rfl
  | _ => rfl

namespace Phrase

/-- Reads a line and, as lines of their own, its consequents, at most `fuel` in all. -/
def readWith : (fuel : Nat) → Bytes → Option Phrase
  | 0, _ => none
  | fuel + 1, line =>
    match Statement.ofLine line with
    | .error _ => none
    | .ok stmt =>
      match stmt.form? with
      | none => none
      | some .comment => some (comment stmt.line)
      | some (.printVar name) => some (printVar name)
      | some (.printText s) => some (printText s)
      | some (.assign name expr) => some (assign name expr)
      | some (.call name) => some (call name)
      | some (.cond rel left right consequent) =>
        (readWith fuel consequent).map (cond rel left right)
      | some .exit => some exit

/-- The phrase of a line. Each consequent is shorter than its line. -/
def read (line : Bytes) : Option Phrase := readWith (line.length + 1) line

theorem readWith_trim (fuel : Nat) (line : Bytes) :
    readWith fuel (Bytes.trim line) = readWith fuel line := by
  cases fuel with
  | zero => rfl
  | succ fuel => rw [readWith, readWith, Statement.ofLine, Statement.ofLine, Bytes.trim_trim]

/-- What is read from a line of a known form. -/
theorem readWith_of_on {form : Form} {line : Bytes} (h : form.On line) (fuel : Nat) :
    readWith (fuel + 1) line =
      match form with
      | .comment => some (comment (Bytes.trim line))
      | .printVar name => some (printVar name)
      | .printText s => some (printText s)
      | .assign name expr => some (assign name expr)
      | .call name => some (call name)
      | .cond rel left right consequent => (readWith fuel consequent).map (cond rel left right)
      | .exit => some exit := by
  rw [readWith, show Statement.ofLine line = _ from h]
  dsimp only
  rw [Form.form?_statement]
  cases form <;> rfl

end Phrase

end SectScript
