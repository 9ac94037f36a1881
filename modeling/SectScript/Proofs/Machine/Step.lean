import SectScript.Machine
import SectScript.Proofs.Statement.Form

/-!
# What a line does

`Steps` lists all that a line can do up to a call, with one rule for each form of statement; the
consequent of an `if` is a step of its line. Facts about lines are proved from it rule by rule.
-/

namespace SectScript

namespace State

/-- The state once an observer has been told how a line is understood. -/
def heard (setup : Setup) (form : Form) (line : Bytes) (st : State) : State :=
  st.note (setup.watch.understood (form.statement (Bytes.trim line)))

@[simp] theorem note_vars (st : State) (events : List Event) : (st.note events).vars = st.vars :=
  rfl

end State

/-- The consequent of an `if` is shorter than its line. -/
theorem Form.On.shorter {rel : Comparison} {left right : Term} {consequent line : Bytes}
    (h : (Form.cond rel left right consequent).On line) : consequent.length < line.length := by
  obtain ⟨form, hform, shorter⟩ := Statement.ofLine_form h
  cases form with
  | cond rel' left' right' consequent' =>
    obtain ⟨_, rfl⟩ : _ ∧ consequent = consequent' := by simpa [Form.statement] using hform
    exact shorter rel' left' right' consequent rfl
  | comment | printVar _ | printText _ | assign _ _ | call _ | exit => cases hform

namespace Machine

/-- A line that comes to its end without a call. -/
def ended (o : Outcome Unit) : Outcome Callee := (o.1.map fun _ => none, o.2)

/-- All that a line can do up to a call, the consequent of an `if` being part of its line. -/
inductive Steps (setup : Setup) (sect : Bytes) : Bytes → State → Outcome Callee → Prop
  | unread {line : Bytes} {st : State} {c : Cause} (h : Statement.ofLine line = .error c) :
      Steps setup sect line st (.error (.ofCause c), st)
  | comment {line : Bytes} {st : State} (h : Form.comment.On line) :
      Steps setup sect line st (.ok none, st.heard setup .comment line)
  | printVar {line name : Bytes} {st : State} (h : (Form.printVar name).On line) :
      Steps setup sect line st
        (ended (print (.leaf .varName name) (st.heard setup (.printVar name) line)))
  | printText {line s : Bytes} {st : State} (h : (Form.printText s).On line) :
      Steps setup sect line st
        (ended (print (.leaf .quoted s) (st.heard setup (.printText s) line)))
  | assign {line name expr : Bytes} {st : State} (h : (Form.assign name expr).On line) :
      Steps setup sect line st
        (ended (Machine.assign setup sect name expr (st.heard setup (.assign name expr) line)))
  | call {line name : Bytes} {st : State} (h : (Form.call name).On line) :
      Steps setup sect line st (.ok (some name), st.heard setup (.call name) line)
  | exit {line : Bytes} {st : State} (h : Form.exit.On line) :
      Steps setup sect line st (.error .exit, st.heard setup .exit line)
  | fault {line consequent : Bytes} {st : State} {rel : Comparison} {left right : Term} {f : Fault}
      (h : (Form.cond rel left right consequent).On line)
      (hf : Condition.holds st.vars (.inner rel.token [left.node, right.node]) = .error f) :
      Steps setup sect line st (.error f, st.heard setup (.cond rel left right consequent) line)
  | skip {line consequent : Bytes} {st : State} {rel : Comparison} {left right : Term}
      (h : (Form.cond rel left right consequent).On line)
      (hf : Condition.holds st.vars (.inner rel.token [left.node, right.node]) = .ok false) :
      Steps setup sect line st (.ok none, st.heard setup (.cond rel left right consequent) line)
  | take {line consequent : Bytes} {st : State} {rel : Comparison} {left right : Term}
      {o : Outcome Callee} (h : (Form.cond rel left right consequent).On line)
      (ht : Condition.holds st.vars (.inner rel.token [left.node, right.node]) = .ok true)
      (rest : Steps setup sect consequent
        (st.heard setup (.cond rel left right consequent) line) o) :
      Steps setup sect line st o

theorem ended_eq (o : Outcome Unit) :
    (match o with
      | (.ok _, st) => ((.ok none, st) : Outcome Callee)
      | (.error f, st) => (.error f, st)) = ended o := by
  rcases o with ⟨_ | _, st⟩ <;> rfl

theorem ended_ne_call (o : Outcome Unit) (name : Bytes) : (ended o).1 ≠ .ok (some name) := by
  rcases o with ⟨_ | _, st⟩ <;> intro h <;> cases h

theorem ended_eq_error {o : Outcome Unit} {f : Fault} (h : (ended o).1 = .error f) :
    o.1 = .error f := by
  rcases o with ⟨_ | _, st⟩ <;> cases h
  rfl

variable {setup : Setup} {sect : Bytes}

theorem stepWith_steps {fuel : Nat} {line : Bytes} (enough : line.length < fuel) (st : State) :
    Steps setup sect line st (stepWith setup sect fuel line st) := by
  induction fuel generalizing line st with
  | zero => omega
  | succ fuel ih =>
    rw [stepWith]
    cases hline : Statement.ofLine line with
    | error c => exact .unread hline
    | ok stmt =>
      obtain ⟨form, rfl, shorter⟩ := Statement.ofLine_form hline
      cases form with
      | comment => exact .comment hline
      | printVar name =>
        have h : Steps setup sect line st _ := .printVar hline
        rw [← ended_eq] at h
        exact h
      | printText s =>
        have h : Steps setup sect line st _ := .printText hline
        rw [← ended_eq] at h
        exact h
      | assign name expr =>
        have h : Steps setup sect line st _ := .assign hline
        rw [← ended_eq] at h
        exact h
      | call name => exact .call hline
      | exit => exact .exit hline
      | cond rel left right consequent =>
        have hlt := shorter rel left right consequent rfl
        dsimp only [Form.statement]
        split
        case h_1 f hf => exact .fault hline hf
        case h_2 hf => exact .skip hline hf
        case h_3 ht => exact .take hline ht (ih (by omega) _)

theorem step_steps (setup : Setup) (sect line : Bytes) (st : State) :
    Steps setup sect line st (step setup sect line st) :=
  stepWith_steps (Nat.lt_succ_self _) st

theorem Steps.stepWith_eq {line : Bytes} {st : State} {o : Outcome Callee}
    (h : Steps setup sect line st o) {fuel : Nat} (enough : line.length < fuel) :
    stepWith setup sect fuel line st = o := by
  induction h generalizing fuel with
  | unread h =>
    obtain ⟨fuel, rfl⟩ := Nat.exists_eq_add_of_lt enough
    rw [stepWith, h]
  | comment h | call h | exit h =>
    obtain ⟨fuel, rfl⟩ := Nat.exists_eq_add_of_lt enough
    rw [stepWith, h]
    rfl
  | printVar h | printText h | assign h =>
    obtain ⟨fuel, rfl⟩ := Nat.exists_eq_add_of_lt enough
    rw [stepWith, h, ← ended_eq]
    rfl
  | fault h hf | skip h hf =>
    obtain ⟨fuel, rfl⟩ := Nat.exists_eq_add_of_lt enough
    rw [stepWith, h]
    simp only [Form.statement, State.note_vars, hf]
    rfl
  | take h ht rest ih =>
    obtain ⟨fuel, rfl⟩ := Nat.exists_eq_add_of_lt enough
    have hlt := h.shorter
    rw [stepWith, h]
    simp only [Form.statement, State.note_vars, ht]
    exact ih (by omega)

theorem Steps.step_eq {line : Bytes} {st : State} {o : Outcome Callee}
    (h : Steps setup sect line st o) : step setup sect line st = o :=
  h.stepWith_eq (Nat.lt_succ_self _)

/-! ## The place of a line -/

section Elsewhere

variable {setup' : Setup} {sect' : Bytes} (hdialect : setup'.dialect = setup.dialect)
  (hwatch : setup'.watch = setup.watch)
  (hsect : sect' = sect ∨ setup.dialect.restrictsDefinitions = false)
include hdialect hsect

theorem assigned_elsewhere (name expr : Bytes) (vars : Table Value) :
    assigned setup' sect' name expr vars = assigned setup sect name expr vars := by
  rw [assigned, assigned, hdialect]
  rcases hsect with rfl | hfree
  · rfl
  · simp only [hfree, Bool.false_and]

include hwatch

theorem assign_elsewhere (name expr : Bytes) (st : State) :
    assign setup' sect' name expr st = assign setup sect name expr st := by
  simp only [assign, assignText, assigned_elsewhere hdialect hsect, hwatch]

/-- A line does the same in every program, and in every section unless the dialect keeps definitions
to one. -/
theorem Steps.elsewhere {line : Bytes} {st : State} {o : Outcome Callee}
    (h : Steps setup sect line st o) : Steps setup' sect' line st o := by
  have hheard : ∀ form line (st : State), st.heard setup form line = st.heard setup' form line := by
    intro form line st
    rw [State.heard, State.heard, hwatch]
  induction h with
  | unread h => exact .unread h
  | comment h => simpa only [hheard] using Steps.comment h
  | printVar h => simpa only [hheard] using Steps.printVar h
  | printText h => simpa only [hheard] using Steps.printText h
  | assign h =>
    rw [← assign_elsewhere hdialect hwatch hsect, hheard]
    exact .assign h
  | call h => simpa only [hheard] using Steps.call h
  | exit h => simpa only [hheard] using Steps.exit h
  | fault h hf => simpa only [hheard] using Steps.fault h hf
  | skip h hf => simpa only [hheard] using Steps.skip h hf
  | take h ht _ ih =>
    rw [hheard] at ih
    exact .take h ht ih

theorem step_elsewhere (line : Bytes) (st : State) :
    step setup' sect' line st = step setup sect line st :=
  ((step_steps setup sect line st).elsewhere hdialect hwatch hsect).step_eq

end Elsewhere

end Machine

end SectScript
