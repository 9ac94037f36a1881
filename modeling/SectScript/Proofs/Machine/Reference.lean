import SectScript.Proofs.Machine.Quotation
import SectScript.Proofs.Text.Padding

/-!
# Written references

An assignment trims the name behind the sigil on both sides, a reference only on the right. Both
mean one variable unless white space stands right behind the sigil: what is then assigned cannot be
printed by the reference as it was written, which finds another variable or none.
-/

namespace SectScript

/-! ## A line of output -/

/-- The text is printed as a line. -/
def Shows (text : Bytes) (st : State) (o : Outcome Unit) : Prop :=
  o.1 = .ok () ∧ st.output.write? (text ++ Bytes.newline) = some o.2.output

namespace Output

theorem exists_write? {o : Output} (h : o.budget ≠ some 0) (text : Bytes) :
    ∃ after, o.write? text = some after := by
  rw [write?.eq_def]
  split
  case h_1 => exact ⟨_, rfl⟩
  case h_2 hnone => exact absurd hnone h
  case h_3 => exact ⟨_, rfl⟩

theorem writes_of_write? {o after : Output} {text : Bytes} (h : o.write? text = some after) :
    after.writes = o.writes.push text := by
  rw [write?.eq_def] at h
  split at h
  case h_1 => rw [← Option.some.inj h]
  case h_2 => cases h
  case h_3 => rw [← Option.some.inj h]

theorem write?_injective {o after : Output} {s t : Bytes} (hs : o.write? s = some after)
    (ht : o.write? t = some after) : s = t := by
  have h := (writes_of_write? hs).symm.trans (writes_of_write? ht)
  exact (Array.push_eq_push.mp h).1

end Output

theorem Prints.shows_iff {text other : Bytes} {st : State} {o : Outcome Unit}
    (h : Prints text st o) (hopen : st.output.budget ≠ some 0) :
    Shows other st o ↔ text = other := by
  obtain ⟨after, hwrite⟩ := Output.exists_write? hopen (text ++ Bytes.newline)
  obtain ⟨hdone, hstate⟩ := h.taken after hwrite
  have houtput : o.2.output = after := hstate.output
  constructor
  · rintro ⟨-, hother⟩
    rw [houtput] at hother
    exact List.append_cancel_right (Output.write?_injective hwrite hother)
  · rintro rfl
    rw [Shows, houtput]
    exact ⟨hdone, hwrite⟩

/-! ## Printing and assigning by a written name -/

namespace Machine

variable {setup : Setup} {sect : Bytes} {st : State} (call : Bytes → State → Outcome Unit)

theorem perform_print_undefined {name : Bytes}
    (hfind : st.vars.find? (Bytes.trimRight name) = none) :
    perform setup call sect (Phrase.printVar name).render st =
      (.error (.ofCause (.undefinedVariable (Bytes.trimRight name))),
        st.heard setup (.printVar (Bytes.trimRight name)) (Phrase.printVar name).render) := by
  have hprinted : ∀ events, printed (st.note events).vars (.leaf .varName (Bytes.trimRight name)) =
      .error (.ofCause (.undefinedVariable (Bytes.trimRight name))) := by
    intro events
    simp [printed, Node.token, Node.data?, fetch, hfind]
  rw [perform_printVar call (Form.printVar_on_trimRight name), print, State.heard, hprinted]

/-- A reference prints the natural form of the variable that it means. -/
theorem perform_shows_iff (hopen : st.output.budget ≠ some 0) (name text : Bytes) :
    Shows text st (perform setup call sect (Phrase.printVar name).render st) ↔
      (st.vars.find? (Bytes.trimRight name)).map Value.natural = some text := by
  cases hfind : st.vars.find? (Bytes.trimRight name) with
  | none =>
    rw [perform_print_undefined call hfind]
    simp [Shows]
  | some v =>
    rw [(perform_print_defined call hfind).shows_iff hopen]
    simp

theorem perform_unread {line : Bytes} {c : Cause} (h : Statement.ofLine line = .error c) :
    perform setup call sect line st = (.error (.ofCause c), st) := by
  rw [perform, (Steps.unread h).step_eq]

theorem assigned_five {name : Bytes} {vars : Table Value} {v : Value}
    (h : assigned setup sect name (ascii "5") vars = .ok v) : v = .integer 5 := by
  have heval : Expression.evaluate setup.dialect vars (ascii "5") = .ok (ascii "5") := rfl
  have hvalue : Value.ofResult? (ascii "5") = some (.integer 5) := by decide
  rw [assigned, heval] at h
  dsimp only at h
  rw [hvalue] at h
  dsimp only at h
  split at h
  case isTrue => cases h
  case isFalse => exact (Except.ok.inj h).symm

/-- An assignment that is done has a name and has stored its value under that. -/
theorem holds_of_assigned_five {n : Bytes} (hn : 0x3D ∉ n)
    (hdone : (perform setup call sect (assignment n (ascii "5")) st).1 = .ok ()) :
    Bytes.trim n ≠ [] ∧
      Holds (Bytes.trim n) (.integer 5) st
        (perform setup call sect (assignment n (ascii "5")) st) := by
  have hne : Bytes.trim n ≠ [] := by
    intro hnil
    have hline : Statement.ofLine (assignment n (ascii "5")) = .error .missingVariableName := by
      rw [assignment, Statement.ofLine_cut hn, if_pos hnil]
    rw [perform_unread call hline] at hdone
    cases hdone
  have hon : (Form.assign (Bytes.trim n) (ascii "5")).On (assignment n (ascii "5")) :=
    Form.assign_on_cut hn rfl hne (by decide)
  refine ⟨hne, ?_⟩
  cases hassigned : assigned setup sect (Bytes.trim n) (ascii "5") st.vars with
  | error c =>
    rw [(perform_of_unassigned call hon (by decide) hassigned).1] at hdone
    cases hdone
  | ok v =>
    obtain rfl := assigned_five hassigned
    exact perform_of_assigned call hon (by decide) hassigned

end Machine

/-- Once 5 is assigned, the reference as it was written prints 5 exactly if no white space begins
it, or if the variable with this white space in its name had been 5 before. With white space in
front and no such variable it is undefined. -/
theorem reference_agrees_iff (setup : Setup) (fuel : Nat) (sect n : Bytes) (hn : 0x3D ∉ n)
    (st : State) (hopen : st.output.budget ≠ some 0) :
    let execute := fun line st => (Task.statement sect line).outcome setup fuel st
    let stored := execute (assignment n (ascii "5")) st
    let shown := execute (Phrase.printVar n).render stored.2
    stored.1 = .ok () →
      Holds (Bytes.trim n) (.integer 5) st stored ∧
      (Shows (ascii "5") stored.2 shown ↔ Bytes.trimLeft n = n ∨
        (st.vars.find? (Bytes.trimRight n)).map Value.natural = some (ascii "5")) ∧
      (Bytes.trimLeft n ≠ n → st.vars.find? (Bytes.trimRight n) = none →
        shown.1 = .error (.ofCause (.undefinedVariable (Bytes.trimRight n))) ∧
        shown.2.output = st.output) := by
  simp only [Task.outcome]
  generalize Machine.invoke setup fuel = call
  intro hdone
  obtain ⟨hne, hholds⟩ := Machine.holds_of_assigned_five call hn hdone
  have hfind := Table.find?_insert st.vars (Bytes.trim n) (Bytes.trimRight n) (.integer 5)
  rw [← hholds.vars] at hfind
  simp only [Bytes.trimRight_eq_trim_iff hne] at hfind
  refine ⟨hholds, ?_, fun hblank hnone => ?_⟩
  · rw [Machine.perform_shows_iff call (by rwa [hholds.output]), hfind]
    split
    case isTrue hclear => exact iff_of_true rfl (Or.inl hclear)
    case isFalse hblank => rw [or_iff_right hblank]
  · rw [if_neg hblank, hnone] at hfind
    rw [Machine.perform_print_undefined call hfind]
    exact ⟨rfl, hholds.output⟩

/-- The line is executed in the section `main` of Clarity. -/
def typed (line : Bytes) (st : State) : Outcome Unit :=
  (Task.statement mainSection line).outcome { dialect := .clarity } 0 st

/-- The name holds a blank, a sigil and a byte that is no character before white space. -/
theorem reference_agrees_iff_trailing :
    let n := ascii "a $b" ++ [0xC2, 0xC2, 0xA0]
    ∃ stored shown, typed (assignment n (ascii "5")) {} = stored ∧
      typed (Phrase.printVar n).render stored.2 = shown ∧ 0x3D ∉ n ∧ stored.1 = .ok () ∧
      stored.2.vars.find? (ascii "a $b" ++ [0xC2]) = some (.integer 5) ∧
      Shows (ascii "5") stored.2 shown := by
  intro n
  have hdone : (typed (assignment n (ascii "5")) {}).1 = .ok () := by decide +kernel
  have hclear : Bytes.trimLeft n = n := by decide
  have hname : Bytes.trim n = ascii "a $b" ++ [0xC2] := by decide
  have hagrees := reference_agrees_iff { dialect := .clarity } 0 mainSection n (by decide) {}
    (by decide)
  dsimp only at hagrees
  rw [← typed, ← typed] at hagrees
  obtain ⟨hholds, hshows, -⟩ := hagrees hdone
  -- Otherwise the runs would be evaluated again by the terms below.
  generalize typed (assignment n (ascii "5")) {} = stored at hdone hholds hshows
  refine ⟨stored, _, rfl, rfl, by decide, hdone, ?_, hshows.mpr (Or.inl hclear)⟩
  rw [← hname, hholds.vars, Table.find?_insert_self]

/-- With a space behind the sigil the assignment is done, but its reference is undefined. -/
theorem reference_lost_behind_space :
    let stored := typed (ascii "$ x=5") {}
    let shown := typed (ascii "print $ x") stored.2
    stored.1 = .ok () ∧ stored.2.vars.find? (ascii "x") = some (.integer 5) ∧
      shown.1 = .error (.ofCause (.undefinedVariable (ascii " x"))) ∧
      (Cause.undefinedVariable (ascii " x")).message = ascii "Variable '$ x' is not defined" ∧
      shown.2.output.writes = #[] := by
  decide +kernel

end SectScript
