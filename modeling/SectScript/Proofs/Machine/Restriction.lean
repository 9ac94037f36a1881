import SectScript.Proofs.Machine.Lockstep

/-!
# Timballo within Clarity

The dialect is asked in two places while a program runs: when an expression names a variable that is
not defined, and when an assignment would define one. Where Clarity goes on, another dialect fails
with an error of its own. Up to such an error the two machines are in lockstep, so what Timballo
carries out Clarity carries out in the same way.
-/

namespace SectScript

/-- An error by which a dialect refuses what Clarity carries out. -/
def Cause.Restricts : Cause → Prop
  | undefinedVariable _ | misplacedDefinition => True
  | _ => False

def Fault.Restricts : Fault → Prop
  | error e => e.cause.Restricts
  | exit | refused | internal _ | crash | unfinished => False

theorem Fault.Restricts.locate {f : Fault} (h : f.Restricts) (l : SourceLine) :
    (f.locate l).Restricts :=
  Fault.locate_preserves (fun _ h => h) h

/-- A result is that of Clarity, or an error by which the dialect refuses. -/
def Agrees {α : Type} (r clarity : Except Cause α) : Prop :=
  (∃ c, r = .error c ∧ c.Restricts) ∨ clarity = r

theorem Operand.resolve_agrees (d : Dialect) (vars : Table Value) (s : Bytes) :
    Agrees (resolve d vars s) (resolve .clarity vars s) := by
  rw [resolve, resolve]
  split
  · exact Or.inr rfl
  · split
    case h_1 name _ =>
      split
      case h_1 =>
        split
        · exact Or.inr rfl
        · exact Or.inl ⟨_, rfl, trivial⟩
      case h_2 | h_3 => exact Or.inr rfl
    case h_2 => exact Or.inr rfl

theorem Expression.evaluate_agrees (d : Dialect) (vars : Table Value) (expr : Bytes) :
    Agrees (evaluate d vars expr) (evaluate .clarity vars expr) := by
  rw [evaluate, evaluate]
  split
  · exact Or.inr rfl
  · split
    case h_1 => exact Or.inr rfl
    case h_2 op _ =>
      split
      case h_1 => exact Or.inr rfl
      case h_2 left right _ =>
        split
        · exact Or.inr rfl
        · rcases Operand.resolve_agrees d vars (Bytes.trim left) with ⟨c, hc, hr⟩ | hleft
          · rw [hc]
            exact Or.inl ⟨c, rfl, hr⟩
          · rw [hleft]
            split
            case h_1 => exact Or.inr rfl
            case h_2 =>
              rcases Operand.resolve_agrees d vars (Bytes.trim right) with ⟨c, hc, hr⟩ | hright
              · rw [hc]
                exact Or.inl ⟨c, rfl, hr⟩
              · rw [hright]
                exact Or.inr rfl

/-- The same machine for another dialect. -/
def Setup.as (setup : Setup) (d : Dialect) : Setup := { setup with dialect := d }

namespace Machine

theorem assigned_agrees (setup : Setup) (d : Dialect) (sect name expr : Bytes)
    (vars : Table Value) :
    Agrees (assigned (setup.as d) sect name expr vars)
      (assigned (setup.as .clarity) sect name expr vars) := by
  rw [assigned, assigned]
  dsimp only [Setup.as]
  rcases Expression.evaluate_agrees d vars expr with ⟨c, hc, hr⟩ | heval
  · rw [hc]
    exact Or.inl ⟨c, rfl, hr⟩
  · rw [heval]
    split
    case h_1 => exact Or.inr rfl
    case h_2 =>
      split
      case h_1 => exact Or.inr rfl
      case h_2 =>
        by_cases hplace :
          (d.restrictsDefinitions && (vars.find? name).isNone && sect != dataSection) = true
        · exact Or.inl ⟨.misplacedDefinition, if_pos hplace, trivial⟩
        · exact Or.inr (if_neg hplace).symm

theorem assignText_matches (setup : Setup) (d : Dialect) (sect name expr : Bytes) (st : State) :
    Matches Fault.Restricts Eq (assignText (setup.as d) sect name expr st)
      (assignText (setup.as .clarity) sect name expr st) := by
  rw [assignText, assignText]
  rcases assigned_agrees setup d sect name expr st.vars with ⟨c, hc, hr⟩ | heq
  · rw [hc]
    exact .of_pass rfl hr
  · rw [heq]
    exact Or.inr ⟨rfl, rfl⟩

theorem assign_matches (setup : Setup) (d : Dialect) (sect name expr : Bytes) (st : State) :
    Matches Fault.Restricts Eq (assign (setup.as d) sect name expr st)
      (assign (setup.as .clarity) sect name expr st) := by
  rw [assign, assign]
  split
  · rcases st.readLine with ⟨_ | line, after⟩
    · exact Or.inr ⟨rfl, rfl⟩
    · exact assignText_matches setup d sect name line after
  · exact assignText_matches setup d sect name expr st

end Machine

theorem lockstep_clarity (setup : Setup) (d : Dialect) :
    Lockstep Fault.Restricts Eq (setup.as d) (setup.as .clarity) :=
  .of_assign rfl rfl Fault.Restricts.locate (Machine.assign_matches setup d)

/-- What Timballo carries out, a section or a statement, Clarity carries out with the same outcome
and to the same state, unless Timballo refuses a name that is not defined. -/
theorem clarity_of_timballo {setup : Setup} {fuel : Nat} {st : State} {task : Task}
    (htask : task ≠ .program)
    (h : ∀ f, (task.outcome (setup.as .timballo) fuel st).1 = .error f → ¬ f.Restricts) :
    task.outcome (setup.as .clarity) fuel st = task.outcome (setup.as .timballo) fuel st := by
  rcases (lockstep_clarity setup .timballo).part (Or.inl rfl) htask rfl with ⟨f, hf, hr⟩ | ⟨hr, hst⟩
  · exact absurd hr (h f hf)
  · exact Prod.ext hr.symm hst.symm

/-- The section `main` calls one that reads and prints a number, and then divides by zero. -/
def dividing : Setup where
  dialect := .timballo
  program := some ⟨[
    (ascii "ask", ⟨1, [⟨2, ascii "$x = %"⟩, ⟨3, ascii "print $x"⟩]⟩),
    (mainSection, ⟨5, [⟨6, ascii "@ask"⟩, ⟨7, ascii "if $x < 9 then $x = $x / 0"⟩]⟩)], by decide⟩

/-- The state in which `x` is defined and the line `7` waits to be read. -/
def awaiting : State where
  vars := ⟨[(ascii "x", .integer 1)], by decide⟩
  input := .stream (ascii "7\n") none

theorem clarity_of_timballo_dividing :
    ((Task.block mainSection).outcome (dividing.as .timballo) 2 awaiting).1 =
      .error (.error ⟨.invalidExpression (ascii "$x / 0") (some .divisionByZero), 7,
        ascii "if $x < 9 then $x = $x / 0"⟩) ∧
    (Task.block mainSection).outcome (dividing.as .clarity) 2 awaiting =
      (Task.block mainSection).outcome (dividing.as .timballo) 2 awaiting := by
  have hend : ((Task.block mainSection).outcome (dividing.as .timballo) 2 awaiting).1 =
      .error (.error ⟨.invalidExpression (ascii "$x / 0") (some .divisionByZero), 7,
        ascii "if $x < 9 then $x = $x / 0"⟩) := by decide +kernel
  refine ⟨hend, clarity_of_timballo (by simp) ?_⟩
  intro f hf
  obtain rfl := Except.error.inj (hend.symm.trans hf)
  exact id

end SectScript
