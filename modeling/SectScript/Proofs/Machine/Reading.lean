import SectScript.Proofs.Machine.Location
import SectScript.Proofs.Machine.Unobserved
import SectScript.Proofs.Statement.RoundTrip
import SectScript.Proofs.Statement.Within

/-!
# Reading is substitution

An assignment of `%` does what the assignment does that has the line of input in its place. The one
is cut out of the program's line and the other comes from the input, but neither is searched for a
second equals sign and both are trimmed, so it makes no difference what the input holds. Only a line
that is `%` itself is not read in turn: it is an expression without operands.
-/

namespace SectScript

/-- The line that assigns an expression, written without blanks. -/
def assignment (name expr : Bytes) : Bytes := sigil ++ (name ++ (ascii "=" ++ expr))

/-- The state once a line has been taken from the input. -/
def State.took (left : Input) (interrupts : Bool) (st : State) : State :=
  { st with input := left, interrupted := st.interrupted || interrupts }

theorem Form.assign_on_assignment {name expr : Bytes} (hname : Nameable name)
    (hexpr : Bytes.trim expr = expr) : (Form.assign name expr).On (assignment name expr) := by
  refine assign_on_cut hname.no_equals hname.trimmed hname.ne_nil ?_
  rw [((Bytes.trim_eq_self_iff expr).mp hexpr).2, hexpr]

theorem Expression.evaluate_marker (d : Dialect) (vars : Table Value) :
    evaluate d vars (ascii "%") = .error (.invalidExpression (ascii "%") none) := rfl

theorem State.Unobserved.took {st st' : State} (h : st.Unobserved Eq st') (left : Input)
    (interrupts : Bool) : (st.took left interrupts).Unobserved Eq (st'.took left interrupts) :=
  { h with input := rfl, interrupted := congrArg (· || interrupts) h.interrupted }

/-- What observers are told of a line does not matter to the rest of the state. -/
theorem State.unobserved_heard (st : State) (setup : Setup) (form form' : Form)
    (line line' : Bytes) : (st.heard setup form line).Unobserved Eq (st.heard setup form' line') :=
  State.Unobserved.note ⟨rfl, rfl, rfl, rfl, rfl, rfl⟩ _ _

theorem State.heard_of_not_dump {setup : Setup} (h : setup.watch.dump = false) (form : Form)
    (line : Bytes) (st : State) : st.heard setup form line = st := by
  simp [heard, Watch.understood, h, note]

namespace Machine

theorem perform_assign {line name expr : Bytes} (h : (Form.assign name expr).On line)
    (setup : Setup) (call : Bytes → State → Outcome Unit) (sect : Bytes) (st : State) :
    perform setup call sect line st =
      assign setup sect name expr (st.heard setup (.assign name expr) line) := by
  rw [perform, (Steps.assign h).step_eq]
  rcases assign setup sect name expr _ with ⟨f | _, after⟩ <;> rfl

theorem readLine_of_read? {st : State} {line : Bytes} {interrupts : Bool} {left : Input}
    (h : st.input.read? = some (.line line, interrupts, left)) :
    st.readLine = (.ok (Bytes.trim line), st.took left interrupts) := by
  rw [State.readLine, h]
  rfl

section Assign

variable (setup : Setup) (sect name : Bytes)

/-- An assignment of a text takes no notice of the input. -/
theorem assignText_took (expr : Bytes) (st : State) (left : Input) (interrupts : Bool) :
    assignText setup sect name expr (st.took left interrupts) =
      ((assignText setup sect name expr st).1,
        (assignText setup sect name expr st).2.took left interrupts) := by
  have hvars : (st.took left interrupts).vars = st.vars := rfl
  rw [assignText, assignText, hvars]
  cases assigned setup sect name expr st.vars <;> rfl

/-- The marker itself is an expression that lacks both operands. -/
theorem assignText_marker (st : State) : assignText setup sect name (ascii "%") st =
    (.error (.ofCause (.invalidExpression (ascii "%") none)), st) := by
  rw [assignText, assigned, Expression.evaluate_marker]

theorem assign_of_ne_marker {expr : Bytes} (h : expr ≠ ascii "%") (st : State) :
    assign setup sect name expr st = assignText setup sect name expr st := by
  rw [assign, if_neg (by simpa using h)]

theorem assignText_unobserved (expr : Bytes) {st st' : State} (h : st.Unobserved Eq st') :
    (assignText setup sect name expr st).1 = (assignText setup sect name expr st').1 ∧
      (assignText setup sect name expr st).2.Unobserved Eq
        (assignText setup sect name expr st').2 := by
  rw [assignText, assignText, h.vars]
  cases assigned setup sect name expr st'.vars with
  | error c => exact ⟨rfl, h⟩
  | ok v => exact ⟨rfl, h.store setup.watch setup.watch name v⟩

theorem assign_marker {st : State} {line : Bytes} {interrupts : Bool} {left : Input}
    (h : st.input.read? = some (.line line, interrupts, left)) :
    assign setup sect name (ascii "%") st =
      ((assignText setup sect name (Bytes.trim line) st).1,
        (assignText setup sect name (Bytes.trim line) st).2.took left interrupts) := by
  rw [assign, if_pos (by decide), readLine_of_read? h]
  exact assignText_took setup sect name (Bytes.trim line) st left interrupts

end Assign

end Machine

/-- If the next line of input is not `%` itself, an assignment of `%` is the assignment of that line
without the blanks around it: it has the same result and leaves the same state behind, but for the
line that it has taken from the input and for how an observer is told to understand it. If the line
is `%`, it fails and has changed neither variables nor output. In both cases one line is taken. -/
theorem marker_substitutes (setup : Setup) (fuel : Nat) (sect name : Bytes) (hname : Nameable name)
    (st : State) (line : Bytes) (interrupts : Bool) (left : Input)
    (hread : st.input.read? = some (.line line, interrupts, left)) :
    let asked := (Task.statement sect (assignment name (ascii "%"))).outcome setup fuel st
    let typed := (Task.statement sect (assignment name (Bytes.trim line))).outcome setup fuel st
    asked.2.input = left ∧
    (Bytes.trim line ≠ ascii "%" →
      asked.1 = typed.1 ∧ asked.2.Unobserved Eq (typed.2.took left interrupts) ∧
      typed.2.input = st.input ∧
      (setup.watch.dump = false → asked.2 = typed.2.took left interrupts)) ∧
    (Bytes.trim line = ascii "%" →
      asked.1 = .error (.ofCause (.invalidExpression (ascii "%") none)) ∧
      (Cause.invalidExpression (ascii "%") none).message = ascii "Invalid expression '%'" ∧
      asked.2.vars = st.vars ∧ asked.2.output = st.output) := by
  intro asked typed
  have hmarker := @Form.assign_on_assignment name (ascii "%") hname (by decide)
  let marked := st.heard setup (.assign name (ascii "%")) (assignment name (ascii "%"))
  have hasked : asked = ((Machine.assignText setup sect name (Bytes.trim line) marked).1,
      (Machine.assignText setup sect name (Bytes.trim line) marked).2.took left interrupts) := by
    refine (Machine.perform_assign hmarker setup _ sect st).trans ?_
    exact Machine.assign_marker setup sect name hread
  refine ⟨by rw [hasked]; rfl, ?_, ?_⟩
  · intro hother
    have hplain := Form.assign_on_assignment hname (Bytes.trim_trim line)
    let plain := st.heard setup (.assign name (Bytes.trim line)) (assignment name (Bytes.trim line))
    have htyped : typed = Machine.assignText setup sect name (Bytes.trim line) plain := by
      refine (Machine.perform_assign hplain setup _ sect st).trans ?_
      exact Machine.assign_of_ne_marker setup sect name hother plain
    have hheard : marked.Unobserved Eq plain := st.unobserved_heard setup _ _ _ _
    obtain ⟨hresult, hstate⟩ := Machine.assignText_unobserved setup sect name _ hheard
    refine ⟨?_, ?_, ?_, ?_⟩
    · rw [hasked, htyped, hresult]
    · rw [hasked, htyped]
      exact hstate.took left interrupts
    · rw [htyped]
      exact Machine.assignText_input setup sect name _ plain
    · intro hdump
      have hsame : marked = plain := by
        simp only [marked, plain, State.heard_of_not_dump hdump]
      rw [hasked, htyped, hsame]
  · intro hline
    rw [hasked, hline, Machine.assignText_marker]
    exact ⟨rfl, by decide, rfl, rfl⟩

/-- The machine assigns to the variable `a b` while these bytes are left to read. -/
def filling (expr rest : Bytes) : Outcome Unit :=
  (Task.statement mainSection (assignment (ascii "a b") expr)).outcome { dialect := .clarity } 0
    { input := .stream rest none }

/-- The first reply holds an equals sign in quotes, the second is the marker. -/
theorem marker_substitutes_replies :
    let replies := ascii " \"p=q\" + 1 \r\n%\n7\n"
    ∃ asked typed failed, filling (ascii "%") replies = asked ∧
      filling (ascii "\"p=q\" + 1") replies = typed ∧
      filling (ascii "%") (ascii "%\n7\n") = failed ∧
      Nameable (ascii "a b") ∧ asked.1 = .ok () ∧ typed.1 = .ok () ∧
      asked.2.vars.find? (ascii "a b") = some (.text (ascii "p=q1")) ∧
      asked.2.vars = typed.2.vars ∧ asked.2.input = .stream (ascii "%\n7\n") none ∧
      failed.1 = .error (.ofCause (.invalidExpression (ascii "%") none)) ∧
      failed.2.vars = .empty ∧ failed.2.input = .stream (ascii "7\n") none := by
  intro replies
  have hname : Nameable (ascii "a b") := ⟨by decide, by decide, by decide⟩
  have hread : (Input.stream replies none).read? =
      some (.line (ascii " \"p=q\" + 1 "), false, .stream (ascii "%\n7\n") none) := rfl
  have hread' : (Input.stream (ascii "%\n7\n") none).read? =
      some (.line (ascii "%"), false, .stream (ascii "7\n") none) := rfl
  have htrim : Bytes.trim (ascii " \"p=q\" + 1 ") = ascii "\"p=q\" + 1" := by decide +kernel
  have hok : (filling (ascii "\"p=q\" + 1") replies).1 = .ok () := by decide +kernel
  have hvalue : (filling (ascii "\"p=q\" + 1") replies).2.vars.find? (ascii "a b") =
      some (.text (ascii "p=q1")) := by decide +kernel
  obtain ⟨hleft, hsubst, _⟩ := marker_substitutes { dialect := .clarity } 0 mainSection
    (ascii "a b") hname { input := .stream replies none } _ false _ hread
  obtain ⟨hleft', _, hfails⟩ := marker_substitutes { dialect := .clarity } 0 mainSection
    (ascii "a b") hname { input := .stream (ascii "%\n7\n") none } _ false _ hread'
  rw [htrim, ← filling, ← filling] at hsubst
  rw [← filling] at hleft hleft' hfails
  obtain ⟨hresult, hstate, _⟩ := hsubst (by decide +kernel)
  obtain ⟨hfault, _, hvars, _⟩ := hfails (by decide +kernel)
  -- Otherwise the runs would be evaluated again by the terms below.
  generalize filling (ascii "%") replies = asked at hleft hresult hstate
  generalize filling (ascii "\"p=q\" + 1") replies = typed at hresult hstate hok hvalue
  generalize filling (ascii "%") (ascii "%\n7\n") = failed at hleft' hfault hvars
  have hsame : asked.2.vars = typed.2.vars := hstate.vars
  refine ⟨asked, typed, failed, rfl, rfl, rfl, hname, hresult.trans hok, hok, ?_, hsame, hleft,
    hfault, hvars, hleft'⟩
  rw [hsame, hvalue]

end SectScript
