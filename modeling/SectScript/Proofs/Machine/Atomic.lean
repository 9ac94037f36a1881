import SectScript.Proofs.Machine.Printing
import SectScript.Proofs.Machine.Termination

/-!
# Lines are atomic

A line that calls no section does one thing at most: it stores one variable or prints one line, as
the statement says that it comes to. If it fails, it has done neither, even where an assignment has
already read its line of input.
-/

namespace SectScript

/-- What a line that ends normally has done to the variables and the output, by the statement that
it came to. -/
inductive Effect (st after : State) : Option Form → Prop
  | stored {name expr : Bytes} {v : Value} (hvars : after.vars = st.vars.insert name v)
      (houtput : after.output = st.output) : Effect st after (some (.assign name expr))
  | printed {form : Form} {text : Bytes} (htext : form.text? st.vars = some text)
      (hvars : after.vars = st.vars)
      (hwrites : after.output.writes = st.output.writes.push (text ++ Bytes.newline)) :
      Effect st after (some form)
  | nothing {reached : Option Form} (hassign : ∀ name expr, reached ≠ some (.assign name expr))
      (htext : reached.bind (Form.text? st.vars) = none) (hvars : after.vars = st.vars)
      (houtput : after.output = st.output) : Effect st after reached

/-- Only the name that is assigned changes. -/
theorem Effect.find?_eq {st after : State} {reached : Option Form} (h : Effect st after reached)
    {other : Bytes} (hother : ∀ expr, reached ≠ some (.assign other expr)) :
    after.vars.find? other = st.vars.find? other := by
  cases h with
  | @stored name expr v hvars _ =>
    have hne : other ≠ name := by
      rintro rfl
      exact hother expr rfl
    rw [hvars, Table.find?_insert_of_ne _ hne]
  | printed _ hvars _ => rw [hvars]
  | nothing _ _ hvars _ => rw [hvars]

/-- The input is as it was, or one line has been asked for because the statement is an assignment of
`%`. -/
def Asks (st after : State) (reached : Option Form) : Prop :=
  after.input = st.input ∨ ∃ name reply interrupts,
    reached = some (.assign name (ascii "%")) ∧
      st.input.read? = some (reply, interrupts, after.input)

/-- The outcome of a line that comes to a statement: a fault leaves variables and output as they
were. -/
structure Atomic {α : Type} (st : State) (o : Outcome α) (reached : Option Form) : Prop where
  failed : ∀ f, o.1 = .error f → o.2.vars = st.vars ∧ o.2.output = st.output
  done : ∀ a, o.1 = .ok a → Effect st o.2 reached
  asks : Asks st o.2 reached

theorem Atomic.of_error {α : Type} {st after : State} {f : Fault} {reached : Option Form}
    (hvars : after.vars = st.vars) (houtput : after.output = st.output)
    (hasks : Asks st after reached) : Atomic st ((.error f, after) : Outcome α) reached :=
  ⟨fun _ _ => ⟨hvars, houtput⟩, (fun a h => by cases h), hasks⟩

theorem Atomic.of_ok {α : Type} {st after : State} {a : α} {reached : Option Form}
    (heffect : Effect st after reached) (hasks : Asks st after reached) :
    Atomic st ((.ok a, after) : Outcome α) reached :=
  ⟨(fun f h => by cases h), fun _ _ => heffect, hasks⟩

namespace Machine

/-! ## Statements -/

theorem readLine_asks (name : Bytes) (st : State) :
    Asks st st.readLine.2 (some (.assign name (ascii "%"))) := by
  rw [State.readLine]
  cases hread : st.input.read? with
  | none => exact Or.inl rfl
  | some answer =>
    obtain ⟨reply, interrupts, left⟩ := answer
    refine Or.inr ⟨name, reply, interrupts, rfl, ?_⟩
    dsimp only
    split <;> exact hread

/-- An assignment stores once it has a value, and all that can fail comes before. -/
theorem assignText_atomic (setup : Setup) (sect name line : Bytes) {st mid : State} {expr : Bytes}
    (hvars : mid.vars = st.vars) (houtput : mid.output = st.output)
    (hasks : Asks st mid (some (.assign name expr))) :
    Atomic st (assignText setup sect name line mid) (some (.assign name expr)) := by
  rw [assignText]
  split
  case h_1 => exact .of_error hvars houtput hasks
  case h_2 v _ =>
    have hstored : (mid.store setup.watch name v).vars = st.vars.insert name v :=
      congrArg (Table.insert · name v) hvars
    exact .of_ok (.stored hstored houtput) hasks

theorem assign_atomic (setup : Setup) (sect name expr : Bytes) (st : State) :
    Atomic st (assign setup sect name expr st) (some (.assign name expr)) := by
  rw [assign]
  split
  case isTrue hmarker =>
    -- The input has moved in every case from here on; variables and output have not.
    obtain rfl := beq_iff_eq.mp hmarker
    have hvars := readLine_vars st
    have houtput := readLine_output st
    have hasks := readLine_asks name st
    rcases hread : st.readLine with ⟨f | line, mid⟩ <;> rw [hread] at hvars houtput hasks
    · exact .of_error hvars houtput hasks
    · exact assignText_atomic setup sect name line hvars houtput hasks
  case isFalse => exact assignText_atomic setup sect name expr rfl rfl (Or.inl rfl)

theorem print_atomic {form : Form} {arg : Node} {st : State}
    (htext : form.text? st.vars = (printed st.vars arg).toOption) :
    Atomic st (print arg st) (some form) := by
  rw [print]
  cases hprinted : printed st.vars arg with
  | error f => exact .of_error rfl rfl (Or.inl rfl)
  | ok text =>
    rw [hprinted] at htext
    dsimp only
    split
    case h_1 output hwrite =>
      refine .of_ok (.printed htext rfl ?_) (Or.inl rfl)
      rw [Output.write?.eq_def] at hwrite
      split at hwrite
      · rw [← Option.some.inj hwrite]
      · cases hwrite
      · rw [← Option.some.inj hwrite]
    case h_2 => exact .of_error rfl rfl (Or.inl rfl)

end Machine

theorem Atomic.ended {st : State} {o : Outcome Unit} {reached : Option Form}
    (h : Atomic st o reached) : Atomic st (Machine.ended o) reached := by
  rcases o with ⟨f | a, after⟩
  · obtain ⟨hvars, houtput⟩ := h.failed f rfl
    exact .of_error hvars houtput h.asks
  · exact .of_ok (h.done a rfl) h.asks

theorem Form.act_atomic (setup : Setup) (sect : Bytes) (st : State) (form : Form) :
    Atomic st (form.act setup sect st) (some form) := by
  cases form with
  | printVar name =>
    refine Atomic.ended (Machine.print_atomic ?_)
    simp only [Form.text?, Machine.printed, Node.token, Node.data?, fetch]
    cases st.vars.find? name <;> rfl
  | printText s => exact Atomic.ended (Machine.print_atomic rfl)
  | assign name expr => exact (Machine.assign_atomic setup sect name expr st).ended
  | exit => exact .of_error rfl rfl (Or.inl rfl)
  | comment | call _ | cond _ _ _ _ =>
    refine .of_ok (.nothing ?_ rfl rfl rfl) (Or.inl rfl)
    intro name expr h
    cases h

/-! ## Lines -/

theorem Effect.of_note {st after : State} {events : List Event} {reached : Option Form}
    (h : Effect (st.note events) after reached) : Effect st after reached := by
  cases h with
  | stored hvars houtput => exact .stored hvars houtput
  | printed htext hvars hwrites => exact .printed htext hvars hwrites
  | nothing hassign htext hvars houtput => exact .nothing hassign htext hvars houtput

/-- To tell an observer of a line is no effect of it. -/
theorem Atomic.of_note {α : Type} {st : State} {events : List Event} {o : Outcome α}
    {reached : Option Form} (h : Atomic (st.note events) o reached) : Atomic st o reached :=
  ⟨h.failed, fun a ha => (h.done a ha).of_note, h.asks⟩

namespace Machine

/-- The conditions on the way to a statement change nothing, so a line is atomic as the statement
is. -/
theorem step_atomic (setup : Setup) (sect line : Bytes) (st : State) :
    Atomic st (step setup sect line st) (comesTo st.vars line) := by
  have steps := step_steps setup sect line st
  rcases steps.comesTo (Nat.lt_succ_self _) with ⟨hnone, ⟨events, hst⟩, _⟩ |
    ⟨form, events, hform, hact⟩
  · -- No statement is come to, and only the observers know of the line.
    rw [comesTo, hnone]
    generalize step setup sect line st = o at hst
    obtain ⟨result, after⟩ := o
    obtain rfl : after = st.note events := hst
    refine ⟨fun _ _ => ⟨rfl, rfl⟩, fun _ _ => .nothing ?_ rfl rfl rfl, Or.inl rfl⟩
    intro name expr h
    cases h
  · rw [comesTo, hform, hact]
    exact (form.act_atomic setup sect (st.note events)).of_note

theorem perform_atomic (setup : Setup) (call : Bytes → State → Outcome Unit) (sect : Bytes)
    {line : Bytes} (hline : ∀ name, ¬ CallsOut name line) (st : State) :
    Atomic st (perform setup call sect line st) (comesTo st.vars line) := by
  have hatomic := step_atomic setup sect line st
  have steps := step_steps setup sect line st
  rw [perform]
  rcases hstep : step setup sect line st with ⟨f | _ | name, after⟩ <;> rw [hstep] at hatomic steps
  · obtain ⟨hvars, houtput⟩ := hatomic.failed f rfl
    exact .of_error hvars houtput hatomic.asks
  · exact .of_ok (hatomic.done none rfl) hatomic.asks
  · exact absurd (steps.callsOut rfl) (hline name)

end Machine

theorem Atomic.find?_eq {α : Type} {st : State} {o : Outcome α} {reached : Option Form}
    (h : Atomic st o reached) {other : Bytes} (hother : ∀ expr, reached ≠ some (.assign other expr)) :
    o.2.vars.find? other = st.vars.find? other := by
  rcases hresult : o.1 with f | a
  · rw [(h.failed f hresult).1]
  · exact (h.done a hresult).find?_eq hother

/-- A line that calls no section is atomic, in every section and state and however its consequents
nest. If it fails, variables and output are as they were; if it ends, it has stored one variable,
printed one line or done nothing, as the statement says that it came to. Of the variables only the
one that is assigned can change. It asks for one line of input at most, and only for an assignment
of `%`. -/
theorem line_atomic (setup : Setup) (fuel : Nat) (sect line : Bytes)
    (hline : ∀ name, ¬ CallsOut name line) (st : State) :
    let o := (Task.statement sect line).outcome setup fuel st
    (∀ f, o.1 = .error f → o.2.vars = st.vars ∧ o.2.output = st.output) ∧
    (o.1 = .ok () → Effect st o.2 (comesTo st.vars line)) ∧
    (∀ other, (∀ expr, comesTo st.vars line ≠ some (.assign other expr)) →
      o.2.vars.find? other = st.vars.find? other) ∧
    (o.2.input = st.input ∨ ∃ name reply interrupts,
      comesTo st.vars line = some (.assign name (ascii "%")) ∧
        st.input.read? = some (reply, interrupts, o.2.input)) := by
  have hatomic := Machine.perform_atomic setup (Machine.invoke setup fuel) sect hline st
  exact ⟨hatomic.failed, hatomic.done (), fun _ hother => hatomic.find?_eq hother, hatomic.asks⟩

/-- A nested consequent that asks for a line. -/
def asking : Bytes := ascii "if 1 < 2 then if $x == 3 then $y = %"

def answered (reply : Bytes) : State where
  vars := Table.empty.insert (ascii "x") (.integer 3)
  input := .scripted [⟨false, .line reply⟩, ⟨false, .aborted⟩]

/-- The reply `5 / 0` is read and lost: nothing is stored. The reply `7` is stored, and `x` kept. -/
theorem line_atomic_asking :
    let setup : Setup := { dialect := .clarity }
    let reached := some (Form.assign (ascii "y") (ascii "%"))
    (∀ name, ¬ CallsOut name asking) ∧
    (∃ after, (Task.statement mainSection asking).outcome setup 0 (answered (ascii "5 / 0")) =
        (.error (.ofCause (.invalidExpression (ascii "5 / 0") (some .divisionByZero))), after) ∧
      after.vars = (answered (ascii "5 / 0")).vars ∧
      after.output = (answered (ascii "5 / 0")).output) ∧
    ∃ after, (Task.statement mainSection asking).outcome setup 0 (answered (ascii "7")) =
        (.ok (), after) ∧
      comesTo (answered (ascii "7")).vars asking = reached ∧
      Effect (answered (ascii "7")) after reached ∧
      after.vars.find? (ascii "x") = some (.integer 3) := by
  intro setup reached
  have hline : ∀ name, ¬ CallsOut name asking := by
    intro name hname
    have hnone : target? asking = none := by decide +kernel
    rw [← target?_eq_some_iff, hnone] at hname
    cases hname
  have hreached : comesTo (answered (ascii "7")).vars asking = reached := by decide +kernel
  have hother : ∀ expr, reached ≠ some (.assign (ascii "x") expr) := by
    intro expr h
    have hname : ascii "y" = ascii "x" := (Form.assign.inj (Option.some.inj h)).1
    exact absurd hname (by decide +kernel)
  refine ⟨hline, ?_, ?_⟩
  · have hfailed : ((Task.statement mainSection asking).outcome setup 0
        (answered (ascii "5 / 0"))).1 =
        .error (.ofCause (.invalidExpression (ascii "5 / 0") (some .divisionByZero))) := by
      decide +kernel
    have hatomic := line_atomic setup 0 mainSection asking hline (answered (ascii "5 / 0"))
    -- Otherwise the run would be evaluated again by the terms below.
    generalize (Task.statement mainSection asking).outcome setup 0 (answered (ascii "5 / 0")) = o
      at hfailed hatomic
    exact ⟨o.2, Prod.ext hfailed rfl, hatomic.1 _ hfailed⟩
  · have hdone : ((Task.statement mainSection asking).outcome setup 0
        (answered (ascii "7"))).1 = .ok () := by decide +kernel
    have hx : (answered (ascii "7")).vars.find? (ascii "x") = some (.integer 3) := by
      decide +kernel
    have hatomic := line_atomic setup 0 mainSection asking hline (answered (ascii "7"))
    rw [hreached] at hatomic
    generalize (Task.statement mainSection asking).outcome setup 0 (answered (ascii "7")) = o
      at hdone hatomic
    obtain ⟨-, heffect, hothers, -⟩ := hatomic
    exact ⟨o.2, Prod.ext hdone rfl, hreached, heffect hdone, (hothers _ hother).trans hx⟩

end SectScript
