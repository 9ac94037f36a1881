import SectScript.Proofs.Loading.Location
import SectScript.Proofs.Machine.Invariant
import SectScript.Proofs.Strict.Expression

/-!
# Nothing breaks

The machine trusts the shape of the statements that it is given, the loader trusts that no call
stands outside the sections, and both cut texts by computed places and divide. With an input to read
from, none of this fails, whatever the source, the line and the variables. Fuel that is spent is no
such failure: it only says that calls nest more deeply than was looked at.
-/

namespace SectScript

/-- Something that the interpreter relies on does not hold, or is not there. -/
def Fault.Breaks : Fault → Prop
  | internal _ | crash => True
  | error _ | exit | refused | unfinished => False

theorem Fault.Raised.not_breaks {i : Input} {f : Fault} (h : f.Raised i) (hi : i ≠ .absent) :
    ¬ f.Breaks := by
  cases h with
  | cause c | exit | refused => exact id
  | absent habsent => exact absurd habsent hi

/-! ## Runs -/

theorem invariant_integrity (setup : Setup) :
    Invariant (fun st => st.input ≠ .absent) (fun f => ¬ f.Breaks) setup where
  step {st} hst sect line :=
    have steps := Machine.step_steps setup sect line st
    ⟨fun h => hst (steps.input.mp h), fun _ hf => (steps.raised hf).not_breaks hst⟩
  stopped {st} hst := fun h => hst ((Machine.poll_input st).symm.trans h)
  counted {st} hst _ _ := fun h => hst ((Machine.poll_input st).symm.trans h)
  interrupted _ := id
  located h _ := Fault.locate_preserves (P := fun f => ¬ f.Breaks) (fun _ h => h) h

theorem Task.outcome_not_breaks {setup : Setup} {p : Program} (hp : setup.program = some p)
    (fuel : Nat) (task : Task) {st : State} (hst : st.input ≠ .absent) {f : Fault}
    (hf : (task.outcome setup fuel st).1 = .error f) : ¬ f.Breaks :=
  ((invariant_integrity setup).outcome hp (fun _ => id) id fuel task hst).fault f hf

/-! ## Loading -/

namespace Loading

/-- With an input to read from, a source is refused with an error of the language. -/
theorem load_error {setup : Setup} {source : Bytes} {st : State} (hst : st.input ≠ .absent)
    {f : Fault} (hf : (load setup source st).1 = .error f) : ∃ e, f = .error e := by
  rcases load_spec setup source st with ⟨p, st', hload, _⟩ | ⟨g, st', hload, refused⟩
  · rw [hload] at hf
    cases hf
  · rw [hload] at hf
    obtain rfl := Except.error.inj hf
    rcases refused.located with ⟨e, rfl, _⟩ | ⟨_, habsent⟩
    · exact ⟨e, rfl⟩
    · exact absurd habsent hst

theorem load_not_isAbort {setup : Setup} {source : Bytes} {st : State} (hst : st.input ≠ .absent)
    {f : Fault} (hf : (load setup source st).1 = .error f) : f.isAbort = false := by
  obtain ⟨e, rfl⟩ := load_error hst hf
  rfl

theorem load_input {setup : Setup} {source : Bytes} {st st' : State} {p : Program}
    (h : load setup source st = (.ok p, st')) : st'.input = .absent ↔ st.input = .absent := by
  rcases load_spec setup source st with ⟨q, st₁, hload, _, htop, _⟩ | ⟨f, st₁, hload, _⟩
  · obtain ⟨_, rfl⟩ := Prod.mk.inj (hload.symm.trans h)
    rw [← runLines_input setup [] (loose false (sourceLines source)) st]
    rw [topLevel] at htop
    rw [htop]
  · cases hload.symm.trans h

end Loading

/-! ## Lines within their bounds -/

namespace Strict

variable {α : Type}

/-- Puts an entry in its place; none if the name is taken. -/
def place (name : Bytes) (a : α) : List (Bytes × α) → Option (List (Bytes × α))
  | [] => some [(name, a)]
  | e :: rest =>
    match compare name e.1 with
    | .lt => some ((name, a) :: e :: rest)
    | .eq => none
    | .gt => (place name a rest).map (e :: ·)

theorem place_eq {name : Bytes} {es : List (Bytes × α)}
    (h : es.find? (fun e => e.1 == name) = none) (a : α) :
    place name a es = some (Table.place name a es) := by
  induction es with
  | nil => rfl
  | cons e rest ih =>
    rw [List.find?_cons] at h
    rw [place, Table.place]
    cases hcmp : compare name e.1 with
    | lt => rfl
    | eq =>
      have he : name = e.1 := Std.LawfulEqCmp.eq_of_compare hcmp
      simp [he] at h
    | gt =>
      split at h
      · cases h
      · dsimp only
        rw [ih h]
        rfl

theorem eq_place_of_some {name : Bytes} {a : α} {es fs : List (Bytes × α)}
    (h : place name a es = some fs) : fs = Table.place name a es := by
  induction es generalizing fs with
  | nil => exact (Option.some.inj h).symm
  | cons e rest ih =>
    rw [place] at h
    rw [Table.place]
    rcases hcmp : compare name e.1 with _ | _ | _ <;> rw [hcmp] at h
    · exact (Option.some.inj h).symm
    · cases h
    · obtain ⟨gs, hgs, rfl⟩ := Option.map_eq_some_iff.mp h
      exact congrArg (e :: ·) (ih hgs)

/-- An entry that is there is given its new content; else the name is expected not to be taken. -/
def insert (t : Table α) (name : Bytes) (a : α) : Option (Table α) :=
  match t.find? name with
  | some _ => some (t.insert name a)
  | none =>
    (place name a t.entries).pmap Table.mk fun _ hplace =>
      eq_place_of_some hplace ▸ Table.place_ascending name a t.ascending

theorem insert_eq (t : Table α) (name : Bytes) (a : α) :
    insert t name a = some (t.insert name a) := by
  rw [insert]
  split
  · rfl
  case h_2 hnone =>
    simp only [place_eq (Option.map_eq_none_iff.mp hnone)]
    rfl

open Loading in
/-- One line of the source. -/
def line (setup : Setup) (l : SourceLine) (p : Progress) (st : State) :
    Option (Outcome Progress) := do
  let opens ← hasKeyword l.text sectWord
  if opens then
    let rest ← behind l.text sectWord.length
    if Bytes.trim rest == [] then some (.error (failAt .missingSectionName l), st)
    else some (.ok { p with pending := some ⟨Bytes.trim rest, l.number, []⟩ }, st)
  else if l.text == closer then
    match p.pending with
    | none => some (.error (failAt .strayCloser l), st)
    | some s =>
      let program ← insert p.program s.name ⟨s.lineNo, s.body⟩
      some (.ok ⟨none, program⟩, st)
  else some (Loading.line setup l p st)

theorem line_eq (setup : Setup) (l : SourceLine) (p : Loading.Progress) (st : State) :
    line setup l p st = some (Loading.line setup l p st) := by
  simp only [line, hasKeyword_eq, insert_eq, Option.bind_eq_bind, Option.bind_some]
  rw [Loading.line]
  split
  case isTrue hopen =>
    rw [behind_eq (hasKeyword_length hopen), Option.bind_some, apply_ite some]
  case isFalse =>
    split
    · cases p.pending <;> rfl
    · rfl

end Strict

/-- With an input to read from, loading never fails but with an error of the language, and a run of
what was loaded, like every run, section or line in every program, never breaks. The texts that are
cut on the way, when a line of the source is filed, when it is read as a statement and when it is
assigned, are cut within their bounds, every operator that is found is known, and no division is by
zero. -/
theorem never_breaks (setup : Setup) {st : State} (hst : st.input ≠ .absent) :
    (∀ source f, (Loading.load setup source st).1 = .error f → f.isAbort = false) ∧
    (∀ source p st', Loading.load setup source st = (.ok p, st') → ∀ fuel f,
      (Machine.run { setup with program := some p } fuel st').1 = .error f → ¬ f.Breaks) ∧
    (∀ p task fuel f, (Task.outcome { setup with program := some p } fuel st task).1 = .error f →
      ¬ f.Breaks) ∧
    (∀ l p, Strict.line setup l p st = some (Loading.line setup l p st)) ∧
    (∀ line, Strict.ofLine line = some (Statement.ofLine line)) ∧
    ∀ sect name expr, Strict.assigned setup sect name expr st.vars =
      some (Machine.assigned setup sect name expr st.vars) := by
  refine ⟨?_, ?_, ?_, ?_, Strict.ofLine_eq, ?_⟩
  · exact fun source f => Loading.load_not_isAbort hst
  · intro source p st' hload fuel f hf
    have hst' : st'.input ≠ .absent := fun h => hst ((Loading.load_input hload).mp h)
    exact @Task.outcome_not_breaks { setup with program := some p } p rfl fuel .program _ hst' _ hf
  · exact fun p task fuel f => Task.outcome_not_breaks rfl fuel task hst
  · exact fun l p => Strict.line_eq setup l p st
  · exact fun sect name expr => Strict.assigned_eq setup sect name expr st.vars

-- Without an input to read from, a line that reads breaks.
example : (Machine.step { dialect := .clarity } [] (ascii "$x = %") {}).1 =
    .error (.internal (ascii "No input source")) := by decide +kernel

/-- A variable is read outside all sections and divided by zero in one. -/
def risky : Bytes := ascii "$x = %\nsect main\nif $x > 5 then $y = $x / 0\n;"

theorem never_breaks_risky :
    ∃ p st', Loading.load { dialect := .clarity } risky { input := .stream (ascii "7\n") none } =
        (.ok p, st') ∧
      (Machine.run { dialect := .clarity, program := some p } 1 st').1 =
        .error (.error ⟨.invalidExpression (ascii "$x / 0") (some .divisionByZero), 3,
          ascii "if $x > 5 then $y = $x / 0"⟩) ∧
      ∀ fuel f, (Machine.run { dialect := .clarity, program := some p } fuel st').1 = .error f →
        ¬ f.Breaks := by
  have hrun : (Loading.load { dialect := .clarity } risky
      { input := .stream (ascii "7\n") none }).1.toOption.map (fun p =>
        (Machine.run { dialect := .clarity, program := some p } 1 (Loading.load
          { dialect := .clarity } risky { input := .stream (ascii "7\n") none }).2).1) =
      some (.error (.error ⟨.invalidExpression (ascii "$x / 0") (some .divisionByZero), 3,
        ascii "if $x > 5 then $y = $x / 0"⟩)) := by decide +kernel
  rcases hload : Loading.load { dialect := .clarity } risky
    { input := .stream (ascii "7\n") none } with ⟨f | p, st'⟩ <;> rw [hload] at hrun
  · cases hrun
  · refine ⟨p, st', rfl, Option.some.inj hrun, ?_⟩
    exact (never_breaks { dialect := .clarity } (by intro h; cases h)).2.1 risky p st' hload

end SectScript
