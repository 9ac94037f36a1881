import SectScript.Proofs.Loading.Location
import SectScript.Proofs.Machine.Parallel
import Mathlib.Logic.Function.Iterate

/-!
# How often the input is asked

Work depends on the input only through the answers that it gets. `Consults k` says so of work that
asks at most `k` times: with any other input that gives the same answers it does the same, and
leaves what is behind them. An assignment asks once if it is one of `%`, and else not at all.
-/

namespace SectScript

namespace Input

/-- The answer to the next request: the reply and whether a stop request comes with it. -/
def answer? (i : Input) : Option (Reply × Bool) := i.read?.map fun answer => (answer.1, answer.2.1)

/-- What is left behind the next answer. -/
def behind (i : Input) : Input := (i.read?.map fun answer => answer.2.2).getD i

/-- What is left behind the first `n` answers. -/
def after (n : Nat) (i : Input) : Input := behind^[n] i

/-- The inputs give the same answers to the first `n` requests. -/
def AlikeFor (n : Nat) (i i' : Input) : Prop :=
  ∀ k < n, (i.after k).answer? = (i'.after k).answer?

theorem after_add (n m : Nat) (i : Input) : i.after (n + m) = (i.after n).after m := by
  rw [after, after, after, Nat.add_comm, Function.iterate_add_apply]

theorem AlikeFor.first {n m : Nat} {i i' : Input} (h : i.AlikeFor (n + m) i') : i.AlikeFor n i' :=
  fun k hk => h k (Nat.lt_add_right m hk)

theorem AlikeFor.later {n m : Nat} {i i' : Input} (h : i.AlikeFor (n + m) i') :
    (i.after n).AlikeFor m (i'.after n) := by
  intro k hk
  rw [← after_add, ← after_add]
  exact h (n + k) (Nat.add_lt_add_left hk n)

end Input

namespace State

/-- The state with another input. -/
def fed (input : Input) (st : State) : State := { st with input }

theorem fed_self (st : State) : st.fed st.input = st := rfl

theorem fed_poll (input : Input) (st : State) : (st.fed input).poll = st.poll.fed input := by
  rcases st with ⟨_, _, _, _, _, _, _ | _⟩ <;> rfl

end State

/-! ## Work that asks -/

/-- The work asks the input at most `k` times, and depends on it through the answers alone. -/
def Consults {α : Type} (k : Nat) (work : State → Outcome α) (st : State) : Prop :=
  ∃ n ≤ k, ∀ input, st.input.AlikeFor n input →
    work (st.fed input) = ((work st).1, (work st).2.fed (input.after n))

namespace Consults

variable {α β : Type} {k : Nat} {work : State → Outcome α} {st : State}

/-- Work that is the same with every input asks as often. -/
theorem congr {work' : State → Outcome α} (h : Consults k work' st)
    (hwork : ∀ input, work (st.fed input) = work' (st.fed input)) : Consults k work st := by
  obtain ⟨n, hn, hsame⟩ := h
  have hself : work st = work' st := hwork st.input
  refine ⟨n, hn, fun input halike => ?_⟩
  rw [hwork, hself]
  exact hsame input halike

theorem map (h : Consults k work st) (g : Except Fault α → Except Fault β) :
    Consults k (fun st => (g (work st).1, (work st).2)) st := by
  obtain ⟨n, hn, hwork⟩ := h
  refine ⟨n, hn, fun input halike => ?_⟩
  simp only [hwork input halike]

/-- What leaves the input alone can be done before. -/
theorem comp {f : State → State} (h : Consults k work (f st))
    (hf : ∀ input, f (st.fed input) = (f st).fed input) : Consults k (fun st => work (f st)) st := by
  obtain ⟨n, hn, hwork⟩ := h
  have hinput : (f (st.fed st.input)).input = st.input := by rw [hf, State.fed]
  rw [State.fed_self] at hinput
  rw [hinput] at hwork
  refine ⟨n, hn, fun input halike => ?_⟩
  simp only [hf, hwork input halike]

/-- The input itself is one that gives the same answers. -/
theorem left (h : Consults k work st) :
    ∃ n ≤ k, (work st).2.input = st.input.after n ∧ ∀ input, st.input.AlikeFor n input →
      work (st.fed input) = ((work st).1, (work st).2.fed (input.after n)) := by
  obtain ⟨n, hn, hwork⟩ := h
  have hself := hwork st.input fun _ _ => rfl
  exact ⟨n, hn, congrArg (fun o => o.2.input) hself, hwork⟩

/-- One work after the other asks as often as both. -/
theorem andThen (h : Consults k work st) {next : α → State → Outcome β} {k' : Nat}
    (hnext : ∀ a, (work st).1 = .ok a → Consults k' (next a) (work st).2) :
    Consults (k + k') (fun st => Machine.andThen (work st) next) st := by
  obtain ⟨n, hn, hleft, hwork⟩ := h.left
  rcases hresult : work st with ⟨f | a, mid⟩ <;> rw [hresult] at hnext hleft hwork
  · refine ⟨n, Nat.le_add_right_of_le hn, fun input halike => ?_⟩
    simp only [hwork input halike, hresult]
    rfl
  · obtain ⟨m, hm, hsame⟩ := hnext a rfl
    refine ⟨n + m, Nat.add_le_add hn hm, fun input halike => ?_⟩
    have hlater := halike.later
    rw [← hleft] at hlater
    simp only [hwork input halike.first, hresult, Machine.andThen]
    rw [Input.after_add]
    exact hsame _ hlater

end Consults

/-! ## Assignments -/

/-- The line assigns `%`. -/
def asksForLine (line : Bytes) : Bool :=
  match Statement.ofLine line with
  | .ok ⟨.assign, _, [_, .leaf _ expr]⟩ => expr == ascii "%"
  | _ => false

theorem Form.On.asksForLine {name expr line : Bytes} (h : (Form.assign name expr).On line) :
    asksForLine line = (expr == ascii "%") := by
  rw [SectScript.asksForLine, h]
  rfl

namespace Machine

variable (setup : Setup) (sect : Bytes)

theorem readLine_consults (st : State) : Consults 1 State.readLine st := by
  refine ⟨1, le_rfl, fun input halike => ?_⟩
  have hanswer : st.input.answer? = input.answer? := halike 0 Nat.one_pos
  have hbehind : input.after 1 = input.behind := rfl
  rw [Input.answer?, Input.answer?] at hanswer
  rw [State.readLine, State.readLine, hbehind, Input.behind, State.fed]
  cases hread : st.input.read? with
  | none =>
    have hnone : input.read? = none := by simpa [hread] using hanswer.symm
    simp only [hnone]
    rfl
  | some answer =>
    obtain ⟨reply, interrupts, left⟩ := answer
    rw [hread] at hanswer
    obtain ⟨⟨reply', interrupts', left'⟩, hread', hsame⟩ :=
      Option.map_eq_some_iff.mp hanswer.symm
    obtain ⟨rfl, rfl⟩ := Prod.mk.inj hsame
    simp only [hread']
    cases reply'.line? <;> rfl

theorem assignText_consults (name expr : Bytes) (st : State) :
    Consults 0 (assignText setup sect name expr) st := by
  refine ⟨0, le_rfl, fun input _ => ?_⟩
  rw [assignText, assignText, State.fed]
  cases assigned setup sect name expr st.vars <;> rfl

/-- Only an assignment of `%` asks. -/
theorem assign_consults (name expr : Bytes) (st : State) :
    Consults (if expr == ascii "%" then 1 else 0) (assign setup sect name expr) st := by
  by_cases hmarker : (expr == ascii "%") = true
  · rw [if_pos hmarker]
    have hread := (readLine_consults st).andThen fun line _ =>
      assignText_consults setup sect name line _
    refine hread.congr fun input => ?_
    rw [assign, if_pos hmarker]
    rcases (st.fed input).readLine with ⟨f | line, mid⟩ <;> rfl
  · rw [if_neg hmarker]
    refine (assignText_consults setup sect name expr st).congr fun input => ?_
    rw [assign, if_neg hmarker]

section Assignment

variable {l : SourceLine} (htrim : Bytes.trim l.text = l.text) (ha : isAssignment l.text = true)
include htrim ha

theorem step_consults (st : State) :
    Consults (if asksForLine l.text then 1 else 0) (step setup sect l.text) st := by
  rw [← htrim] at ha
  rcases Statement.ofLine_assignment ha with ⟨c, hc⟩ | ⟨name, expr, hform⟩
  · refine ⟨0, Nat.zero_le _, fun input _ => ?_⟩
    rw [(Steps.unread hc).step_eq, (Steps.unread hc).step_eq]
    rfl
  · have hheard := (assign_consults setup sect name expr
      (st.heard setup (.assign name expr) l.text)).comp fun _ => rfl
    rw [hform.asksForLine]
    exact (hheard.map fun r => r.map fun _ => none).congr fun _ => (Steps.assign hform).step_eq

theorem enter_consults (st : State) :
    Consults (if asksForLine l.text then 1 else 0) (enter setup sect l) st := by
  by_cases hheld : st.poll.interrupted = true
  · refine ⟨0, Nat.zero_le _, fun input _ => ?_⟩
    have hheld' : (st.poll.fed input).interrupted = true := hheld
    rw [enter, enter, if_pos hheld, State.fed_poll, if_pos hheld']
    rfl
  · have hfed : ∀ input, counted setup sect l (st.fed input) =
        (counted setup sect l st).fed input := by
      intro input
      rw [counted, State.fed_poll]
      rfl
    have hcounted := (step_consults setup sect htrim ha (counted setup sect l st)).comp hfed
    refine (hcounted.map (Except.mapError (Fault.locate l))).congr fun input => ?_
    have hheld' : ¬ (st.poll.fed input).interrupted = true := hheld
    rw [enter, State.fed_poll, if_neg hheld', located]

end Assignment

end Machine

end SectScript
