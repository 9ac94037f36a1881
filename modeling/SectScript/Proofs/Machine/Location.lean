import SectScript.Proofs.Machine.Visit

/-!
# Where errors come from

An error arises without location and gets that of the line being executed on its way out, each line
around it leaving it as it is. So the error of a run names the last line that the run came to,
however deep the calls are.
-/

namespace SectScript

/-- The line that an error names. -/
def LangError.place (e : LangError) : SourceLine := ⟨e.lineNo, e.line⟩

namespace Fault

/-- An error that names no line yet. -/
def Unplaced (f : Fault) : Prop := ∀ e, f = .error e → e.lineNo = 0

def PlacedAt (l : SourceLine) (f : Fault) : Prop := ∀ e, f = .error e → e.place = l

theorem unplaced_ofCause (c : Cause) : (ofCause c).Unplaced := by
  intro e he
  cases he
  rfl

theorem unplaced_of_ne_error {f : Fault} (h : ∀ e, f ≠ .error e) : f.Unplaced :=
  fun e he => absurd he (h e)

theorem Unplaced.locate {f : Fault} (h : f.Unplaced) (l : SourceLine) :
    (f.locate l).PlacedAt l := by
  intro e he
  cases f with
  | error e' =>
    rw [Fault.locate, if_pos (h e' rfl)] at he
    cases he
    rfl
  | exit | refused | internal _ | crash | unfinished => cases he

/-- The innermost line wins. -/
theorem PlacedAt.locate {f : Fault} {l : SourceLine} (h : f.PlacedAt l) (hl : l.number ≠ 0)
    (outer : SourceLine) : f.locate outer = f := by
  cases f with
  | error e =>
    have hne : e.lineNo ≠ 0 := by
      rw [← h e rfl] at hl
      exact hl
    rw [Fault.locate, if_neg hne]
  | exit | refused | internal _ | crash | unfinished => rfl

end Fault

namespace Input

theorem read?_eq_none_iff {i : Input} : i.read? = none ↔ i = .absent := by
  constructor
  · intro h
    cases i with
    | absent => rfl
    | terminal prompt rest shown =>
      rw [read?] at h
      split at h <;> cases h
    | scripted turns => cases turns <;> cases h
    | stream rest failure => cases h
  · rintro rfl
    rfl

theorem read?_ne_absent {i left : Input} {reply : Reply} {interrupts : Bool}
    (h : i.read? = some (reply, interrupts, left)) : left ≠ .absent := by
  rintro rfl
  cases i with
  | absent => cases h
  | terminal prompt rest shown =>
    rw [read?] at h
    split at h <;> cases h
  | scripted turns => cases turns <;> cases h
  | stream rest failure => cases h

end Input

theorem Condition.operandText_error {vars : Table Value} {t : Term} {f : Fault}
    (h : Condition.operandText vars t.node = .error f) : ∃ c, f = .ofCause c := by
  cases t with
  | var name =>
    simp only [Condition.operandText, Term.node, Node.token, Node.data?] at h
    split at h
    · cases h
    · exact ⟨_, (Except.error.inj h).symm⟩
  | quoted s | bare s => cases h

theorem Condition.holds_error {vars : Table Value} {rel : Comparison} {left right : Term}
    {f : Fault} (h : Condition.holds vars (.inner rel.token [left.node, right.node]) = .error f) :
    ∃ c, f = .ofCause c := by
  simp only [Condition.holds, Node.operands, Node.token] at h
  split at h
  case h_1 hl =>
    obtain rfl := Except.error.inj h
    exact operandText_error hl
  case h_2 =>
    split at h
    case h_1 hr =>
      obtain rfl := Except.error.inj h
      exact operandText_error hr
    case h_2 => cases rel <;> cases h

/-- How a line fails by itself, with `i` to read from: for a cause of the language, by `exit`,
because a write is refused, or because there is nothing to read from. -/
inductive Fault.Raised (i : Input) : Fault → Prop
  | cause (c : Cause) : Raised i (.ofCause c)
  | exit : Raised i .exit
  | refused : Raised i .refused
  | absent (h : i = .absent) : Raised i (.internal (ascii "No input source"))

theorem Fault.Raised.unplaced {i : Input} {f : Fault} (h : f.Raised i) : f.Unplaced := by
  cases h with
  | cause c => exact unplaced_ofCause c
  | exit | refused | absent _ => exact unplaced_of_ne_error (by intro e he; cases he)

namespace Machine

theorem printed_error {vars : Table Value} {name : Bytes} {f : Fault}
    (h : printed vars (.leaf .varName name) = .error f) : ∃ c, f = .ofCause c := by
  simp only [printed, Node.token, Node.data?] at h
  split at h
  · cases h
  · exact ⟨_, (Except.error.inj h).symm⟩

theorem print_error {arg : Node} {st : State} {f : Fault} (h : (print arg st).1 = .error f) :
    printed st.vars arg = .error f ∨ f = .refused := by
  rw [print] at h
  split at h
  case h_1 hf =>
    obtain rfl := Except.error.inj h
    exact Or.inl hf
  case h_2 =>
    split at h
    · cases h
    · exact Or.inr (Except.error.inj h).symm

/-- A line of input is missing for a cause of the language, or because there is nowhere to read
from. -/
theorem readLine_error {st : State} {f : Fault} (h : st.readLine.1 = .error f) :
    (∃ c, f = .ofCause c) ∨ f = .internal (ascii "No input source") ∧ st.input = .absent := by
  rw [State.readLine] at h
  split at h
  case h_1 hnone =>
    exact Or.inr ⟨(Except.error.inj h).symm, Input.read?_eq_none_iff.mp hnone⟩
  case h_2 reply _ _ _ =>
    dsimp only at h
    split at h
    case h_1 => cases h
    case h_2 c _ => exact Or.inl ⟨c, (Except.error.inj h).symm⟩

theorem assignText_error {setup : Setup} {sect name expr : Bytes} {st : State} {f : Fault}
    (h : (assignText setup sect name expr st).1 = .error f) : ∃ c, f = .ofCause c := by
  rw [assignText] at h
  split at h
  case h_1 c _ => exact ⟨c, (Except.error.inj h).symm⟩
  case h_2 => cases h

theorem assignText_input (setup : Setup) (sect name expr : Bytes) (st : State) :
    (assignText setup sect name expr st).2.input = st.input := by
  rw [assignText]
  split <;> rfl

theorem assign_error {setup : Setup} {sect name expr : Bytes} {st : State} {f : Fault}
    (h : (assign setup sect name expr st).1 = .error f) :
    (∃ c, f = .ofCause c) ∨ f = .internal (ascii "No input source") ∧ st.input = .absent := by
  rw [assign] at h
  split at h
  · split at h
    case h_1 f' st' hread =>
      obtain rfl := Except.error.inj h
      exact readLine_error (by rw [hread])
    case h_2 => exact Or.inl (assignText_error h)
  · exact Or.inl (assignText_error h)

theorem Steps.raised {setup : Setup} {sect line : Bytes} {st : State} {o : Outcome Callee}
    (h : Steps setup sect line st o) {f : Fault} (hf : o.1 = .error f) : f.Raised st.input := by
  induction h with
  | unread =>
    obtain rfl := Except.error.inj hf
    exact .cause _
  | comment | call | skip => cases hf
  | printVar =>
    rcases print_error (ended_eq_error hf) with hprinted | rfl
    · obtain ⟨c, rfl⟩ := printed_error hprinted
      exact .cause c
    · exact .refused
  | printText =>
    rcases print_error (ended_eq_error hf) with hprinted | rfl
    · cases hprinted
    · exact .refused
  | assign =>
    rcases assign_error (ended_eq_error hf) with ⟨c, rfl⟩ | ⟨rfl, hinput⟩
    · exact .cause c
    · exact .absent hinput
  | exit =>
    obtain rfl := Except.error.inj hf
    exact .exit
  | fault _ hholds =>
    obtain rfl := Except.error.inj hf
    obtain ⟨c, rfl⟩ := Condition.holds_error hholds
    exact .cause c
  | take _ _ _ ih => exact ih hf

end Machine

/-- A stop request keeps the line from being executed. -/
def Visit.Held (v : Visit) : Prop := v.before.poll.interrupted = true

/-- The last visit is where a fault arose: all lines before were executed, and if that one was not,
the fault is the stop request. -/
def EndsAt (vs : List Visit) (f : Fault) : Prop :=
  ∃ past v, vs = past ++ [v] ∧ (∀ w ∈ past, ¬ w.Held) ∧
    (v.Held → f = Machine.interruptedAt v.line) ∧ v.line.number ≠ 0 ∧ f.PlacedAt v.line

/-- All lines were executed, or the last is where the fault arose. -/
def Traced (vs : List Visit) : Except Fault Unit → Prop
  | .ok _ => ∀ v ∈ vs, ¬ v.Held
  | .error f => EndsAt vs f

/-- No line was come to, and the fault names none. -/
def Unvisited (vs : List Visit) (o : Except Fault Unit) : Prop :=
  vs = [] ∧ ∃ f, o = .error f ∧ f.Unplaced

theorem Traced.append {vs ws : List Visit} {o : Except Fault Unit} (hvs : ∀ v ∈ vs, ¬ v.Held)
    (h : Traced ws o) : Traced (vs ++ ws) o := by
  cases o with
  | ok _ => exact List.forall_mem_append.mpr ⟨hvs, h⟩
  | error f =>
    obtain ⟨past, v, rfl, hpast, hv⟩ := h
    exact ⟨vs ++ past, v, by simp, List.forall_mem_append.mpr ⟨hvs, hpast⟩, hv⟩

namespace Machine

theorem enter_placed {setup : Setup} {sect : Bytes} {l : SourceLine} {st st' : State} {f : Fault}
    (h : enter setup sect l st = (.error f, st')) :
    f.PlacedAt l ∧ (st.poll.interrupted = true → f = interruptedAt l) := by
  rw [enter] at h
  split at h
  case isTrue =>
    obtain rfl := Except.error.inj (Prod.mk.inj h).1
    refine ⟨?_, fun _ => rfl⟩
    intro e he
    cases he
    rfl
  case isFalse hgo =>
    refine ⟨?_, fun hheld => absurd hheld hgo⟩
    have steps := step_steps setup sect l.text (counted setup sect l st)
    rcases hs : step setup sect l.text (counted setup sect l st) with ⟨g | _, st''⟩
    · rw [hs] at h steps
      obtain rfl := Except.error.inj (Prod.mk.inj h).1
      exact (steps.raised rfl).unplaced.locate l
    · rw [hs] at h
      cases h

theorem enter_not_held {setup : Setup} {sect : Bytes} {l : SourceLine} {st st' : State} {c : Callee}
    (h : enter setup sect l st = (.ok c, st')) : ¬ st.poll.interrupted = true := by
  intro hheld
  rw [enter, if_pos hheld] at h
  cases h

section Traced

variable (setup : Setup) {call : Bytes → State → Outcome Unit}
  {calls : Bytes → State → List Visit}
  (hcall : ∀ name st, Traced (calls name st) (call name st).1 ∨
    Unvisited (calls name st) (call name st).1)
include hcall

/-- The fault of a section that is called keeps its line, or gets that of the call. -/
theorem called_traced {v : Visit} (hv : ¬ v.Held) (hl : v.line.number ≠ 0) (name : Bytes)
    (st : State) : Traced (v :: calls name st) (located v.line (call name st)).1 := by
  dsimp only [located]
  rcases hcall name st with htraced | ⟨hnone, f, hf, hunplaced⟩
  · rcases hrun : (call name st).1 with f | _ <;> rw [hrun] at htraced
    · have hend : EndsAt (v :: calls name st) f :=
        Traced.append (o := .error f) (List.forall_mem_singleton.mpr hv) htraced
      obtain ⟨_, last, _, _, _, hnumber, hplaced⟩ := htraced
      change EndsAt _ (f.locate v.line)
      rw [hplaced.locate hnumber]
      exact hend
    · exact List.forall_mem_cons.mpr ⟨hv, htraced⟩
  · rw [hf, hnone]
    exact ⟨[], v, rfl, by simp, fun hheld => absurd hheld hv, hl, hunplaced.locate v.line⟩

theorem lineVisits_traced (sect : Bytes) {l : SourceLine} (hl : l.number ≠ 0) (st : State) :
    Traced (lineVisits setup calls sect l st) (runLine setup call sect l st).1 := by
  rw [runLine_eq, lineVisits]
  rcases henter : enter setup sect l st with ⟨f | _ | name, st'⟩
  · obtain ⟨hplaced, hheld⟩ := enter_placed henter
    exact ⟨[], _, rfl, by simp, hheld, hl, hplaced⟩
  · exact List.forall_mem_cons.mpr ⟨enter_not_held henter, by simp⟩
  · exact called_traced hcall (enter_not_held henter) hl name st'

theorem linesVisits_traced (sect : Bytes) {ls : List SourceLine} (hls : ∀ l ∈ ls, l.number ≠ 0)
    (st : State) :
    Traced (linesVisits setup call calls sect ls st) (runLines setup call sect ls st).1 := by
  induction ls generalizing st with
  | nil => intro v hv; cases hv
  | cons l ls ih =>
    have first : Traced (lineVisits setup calls sect l st) (runLine setup call sect l st).1 :=
      lineVisits_traced setup hcall sect (hls l List.mem_cons_self) st
    rw [linesVisits, runLines]
    rcases hrun : runLine setup call sect l st with ⟨f | _, st'⟩ <;> rw [hrun] at first
    · rw [List.append_nil]
      exact first
    · exact Traced.append first (ih (fun l hl => hls l (List.mem_cons_of_mem _ hl)) st')

end Traced

end Machine

/-- No statement of the program stands on line 0. -/
def Program.Numbered (p : Program) : Prop :=
  ∀ name s, p.find? name = some s → ∀ l ∈ s.body, l.number ≠ 0

namespace Machine

section Numbered

variable {setup : Setup} {p : Program} (hp : setup.program = some p) (hnum : p.Numbered)
include hp hnum

theorem invokeVisits_traced (fuel : Nat) (name : Bytes) (st : State) :
    Traced (invokeVisits setup fuel name st) (invoke setup fuel name st).1 ∨
      Unvisited (invokeVisits setup fuel name st) (invoke setup fuel name st).1 := by
  induction fuel generalizing name st with
  | zero => exact Or.inr ⟨rfl, _, rfl, Fault.unplaced_of_ne_error (by intro e he; cases he)⟩
  | succ fuel ih =>
    simp only [invokeVisits, invoke, hp]
    cases hs : p.find? name with
    | none => exact Or.inr ⟨rfl, _, rfl, Fault.unplaced_ofCause _⟩
    | some s => exact Or.inl (linesVisits_traced setup ih name (hnum name s hs) st)

/-- Only a section that is not there fails with an error that names no line. -/
theorem invokeVisits_endsAt {name : Bytes} {s : Section} (hs : p.find? name = some s) {fuel : Nat}
    {st : State} {e : LangError} (h : (invoke setup fuel name st).1 = .error (.error e)) :
    EndsAt (invokeVisits setup fuel name st) (.error e) := by
  cases fuel with
  | zero => cases h
  | succ fuel =>
    simp only [invokeVisits, invoke, hp, hs] at h ⊢
    have htraced :=
      linesVisits_traced setup (invokeVisits_traced hp hnum fuel) name (hnum name s hs) st
    rw [h] at htraced
    exact htraced

theorem entriesVisits_endsAt {names : List Bytes}
    (hfound : ∀ name ∈ names, ∃ s, p.find? name = some s) {fuel : Nat} {st : State} {e : LangError}
    (h : (runEntries setup fuel names st).1 = .error (.error e)) :
    EndsAt (entriesVisits setup fuel names st) (.error e) := by
  induction names generalizing st with
  | nil => cases h
  | cons name names ih =>
    obtain ⟨s, hs⟩ := hfound name List.mem_cons_self
    rw [runEntries] at h
    rw [entriesVisits]
    rcases hinvoke : invoke setup fuel name st with ⟨f | _, st'⟩ <;> rw [hinvoke] at h
    · have hf : f = .error e := by cases f <;> cases h; rfl
      rw [List.append_nil]
      exact invokeVisits_endsAt hp hnum hs (by rw [hinvoke, hf])
    · have rest : EndsAt (entriesVisits setup fuel names st') (.error e) :=
        ih (fun name hname => hfound name (List.mem_cons_of_mem _ hname)) h
      rcases invokeVisits_traced hp hnum fuel name st with htraced | ⟨_, f, hf, _⟩
      · rw [hinvoke] at htraced
        exact Traced.append (o := .error (.error e)) htraced rest
      · rw [hinvoke] at hf
        cases hf

/-- A run that fails with an error ends at the line that the error names. -/
theorem runVisits_endsAt
    (hentries : ∀ name ∈ setup.dialect.entrySections, ∃ s, p.find? name = some s)
    {fuel : Nat} {st : State} {e : LangError} (h : (run setup fuel st).1 = .error (.error e)) :
    EndsAt (runVisits setup fuel st) (.error e) := by
  simp only [run, runVisits, hp] at h ⊢
  exact entriesVisits_endsAt hp hnum hentries h

end Numbered

end Machine

end SectScript
