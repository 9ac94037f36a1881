import SectScript.Proofs.Machine.Natural

/-!
# What observers do not change

Machines of one dialect and one program are in lockstep whatever they are watched for: their states
agree in all but the log. The inputs need not be the same as long as they answer alike, so a
terminal may ask with another prompt.
-/

namespace SectScript

namespace Input

/-- Inputs that `I` joins answer alike, and what is left of them is joined again. -/
def Echoes (I : Input → Input → Prop) : Prop :=
  ∀ i i', I i i' → (i.read? = none ∧ i'.read? = none) ∨
    ∃ reply interrupts left left', i.read? = some (reply, interrupts, left) ∧
      i'.read? = some (reply, interrupts, left') ∧ I left left'

theorem echoes_eq : Echoes Eq := by
  rintro i _ rfl
  cases hread : i.read? with
  | none => exact Or.inl ⟨rfl, rfl⟩
  | some answer => exact Or.inr ⟨_, _, _, _, rfl, rfl, rfl⟩

/-- Terminals that hold the same text, each with a prompt that can be shown. -/
inductive SameText : Input → Input → Prop
  | terminals {prompt prompt' : Bytes} (h : Category.hasOther prompt = false)
      (h' : Category.hasOther prompt' = false) (rest shown shown' : Bytes) :
      SameText (.terminal prompt rest shown) (.terminal prompt' rest shown')

theorem echoes_sameText : Echoes SameText := by
  rintro _ _ (@⟨prompt, prompt', h, h', rest, shown, shown'⟩)
  have hread : (terminal prompt rest shown).read? = some ((readTerminal rest).1, false,
      terminal prompt (readTerminal rest).2 (shown ++ prompt)) := by simp [read?, h]
  have hread' : (terminal prompt' rest shown').read? = some ((readTerminal rest).1, false,
      terminal prompt' (readTerminal rest).2 (shown' ++ prompt')) := by simp [read?, h']
  exact Or.inr ⟨_, _, _, _, hread, hread', .terminals h h' _ _ _⟩

end Input

/-- The states agree in all but the log, their inputs being joined by `I`. -/
structure State.Unobserved (I : Input → Input → Prop) (st st' : State) : Prop where
  vars : st.vars = st'.vars
  input : I st.input st'.input
  output : st.output = st'.output
  executed : st.executed = st'.executed
  interrupted : st.interrupted = st'.interrupted
  arrivals : st.arrivals = st'.arrivals

namespace State.Unobserved

variable {I : Input → Input → Prop} {st st' : State} (h : st.Unobserved I st')
include h

theorem note (events events' : List Event) : (st.note events).Unobserved I (st'.note events') :=
  { h with }

theorem poll : st.poll.Unobserved I st'.poll := by
  have harrivals := h.arrivals
  rw [State.poll, State.poll, ← harrivals]
  split
  · exact h
  · exact { h with interrupted := by rw [h.interrupted], arrivals := rfl }

theorem stopped : Unobserved I { st.poll with interrupted := false }
    { st'.poll with interrupted := false } :=
  { h.poll with interrupted := rfl }

theorem counted (setup setup' : Setup) (sect sect' : Bytes) (l l' : SourceLine) :
    (Machine.counted setup sect l st).Unobserved I (Machine.counted setup' sect' l' st') := by
  have hcount : Unobserved I { st.poll with executed := st.poll.executed + 1 }
      { st'.poll with executed := st'.poll.executed + 1 } :=
    { h.poll with executed := by rw [h.poll.executed] }
  exact hcount.note _ _

theorem store (w w' : Watch) (name : Bytes) (v : Value) :
    (st.store w name v).Unobserved I (st'.store w' name v) := by
  have hvars : st.vars.insert name v = st'.vars.insert name v := by rw [h.vars]
  exact { h with vars := hvars }

theorem readLine (hI : Input.Echoes I) :
    Matches (fun _ => False) (Unobserved I) st.readLine st'.readLine := by
  rw [State.readLine, State.readLine]
  rcases hI _ _ h.input with ⟨hnone, hnone'⟩ |
    ⟨reply, interrupts, left, left', hread, hread', hleft⟩
  · rw [hnone, hnone']
    exact .of_state h
  · have hafter : Unobserved I
        { st with input := left, interrupted := st.interrupted || interrupts }
        { st' with input := left', interrupted := st'.interrupted || interrupts } :=
      { h with input := hleft, interrupted := by rw [h.interrupted] }
    rw [hread, hread']
    dsimp only
    split
    · exact .of_state hafter
    · exact .of_state hafter

end State.Unobserved

theorem lockstep_unobserved {I : Input → Input → Prop} (hI : Input.Echoes I) {setup setup' : Setup}
    (hd : setup'.dialect = setup.dialect) (hp : setup'.program = setup.program) :
    Lockstep (fun _ => False) (State.Unobserved I) setup setup' :=
  Congruence.lockstep
    { dialect := hd
      program := hp
      vars := fun h => h.vars ▸ .refl _
      output := fun h => h.output
      held := fun h => h.poll.interrupted.symm
      stopped := fun h => h.stopped
      counted := fun h sect l => h.counted setup setup' sect sect l l
      heard := fun h _ _ => h.note _ _
      wrote := fun h _ => { h with output := rfl }
      store := fun h name v => h.store setup.watch setup'.watch name v
      readLine := fun h => h.readLine hI }

end SectScript
