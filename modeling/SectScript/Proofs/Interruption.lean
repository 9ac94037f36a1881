import SectScript.Proofs.Loading.Visit
import SectScript.Proofs.Machine.Printing

/-!
# Stop requests

A request to stop is looked at where a line begins and nowhere else. So it takes effect at the next
line that is come to, at any depth of calls: that line is not executed, the request is used up, and
loading or the run ends there. Without a next line nothing tells that there was a request.
-/

namespace SectScript

/-! ## The line that is held up -/

/-- A line that a request holds up is the last, and the result names it. -/
def Obeyed {α : Type} (vs : List Visit) (r : Except Fault α) : Prop :=
  ∀ past v rest, vs = past ++ v :: rest → v.Held →
    rest = [] ∧ r = .error (Machine.interruptedAt v.line)

namespace Obeyed

variable {α : Type} {vs ws : List Visit} {r : Except Fault α}

theorem of_not_held (h : ∀ v ∈ vs, ¬ v.Held) : Obeyed vs r := by
  rintro past v rest rfl hv
  exact absurd hv (h v (by simp))

theorem not_held (h : Obeyed vs r) (hr : ∀ l, r ≠ .error (Machine.interruptedAt l)) :
    ∀ v ∈ vs, ¬ v.Held := by
  intro v hv hheld
  obtain ⟨past, rest, rfl⟩ := List.append_of_mem hv
  exact hr v.line (h past v rest rfl hheld).2

theorem append (hvs : ∀ v ∈ vs, ¬ v.Held) (h : Obeyed ws r) : Obeyed (vs ++ ws) r := by
  intro past v rest heq hheld
  rcases List.append_eq_append_iff.mp heq with ⟨more, rfl, hws⟩ | ⟨more, rfl, hmore⟩
  · exact h more v rest hws hheld
  · cases more with
    | nil => exact h [] v rest (by simpa using hmore.symm) hheld
    | cons w more =>
      obtain ⟨rfl, -⟩ := List.cons.inj hmore
      exact absurd hheld (hvs v (by simp))

theorem singleton {v : Visit} (h : v.Held → r = .error (Machine.interruptedAt v.line)) :
    Obeyed [v] r := by
  intro past w rest heq hheld
  obtain ⟨rfl, rfl, rfl⟩ : past = [] ∧ w = v ∧ rest = [] := by
    cases past <;> simp_all
  exact ⟨rfl, h hheld⟩

theorem of_traced {r : Except Fault Unit} (h : Traced vs r) : Obeyed vs r := by
  cases r with
  | ok _ => exact .of_not_held h
  | error f =>
    obtain ⟨past, v, rfl, hpast, hv, -⟩ := h
    exact .append hpast (.singleton fun hheld => congrArg Except.error (hv hheld))

end Obeyed

/-- A request is pending from before, or has come in since. -/
theorem Visit.held_iff {v : Visit} :
    v.Held ↔ v.before.interrupted = true ∨ v.before.arrivals.head? = some true := by
  rw [Held, State.poll]
  split
  case h_1 h => simp [h]
  case h_2 arrived later h => simp [h]

theorem State.poll_stopped (st : State) :
    { st.poll with interrupted := false } =
      { st with interrupted := false, arrivals := st.arrivals.tail } := by
  rw [State.poll]
  split
  case h_1 h => simp [h]
  case h_2 arrived later h => simp [h]

namespace Machine

theorem enter_of_held {setup : Setup} {v : Visit} (h : v.Held) :
    enter setup v.sect v.line v.before =
      (.error (interruptedAt v.line), { v.before.poll with interrupted := false }) := by
  rw [enter]
  exact if_pos h

section Numbered

variable {setup : Setup} {p : Program} (hp : setup.program = some p) (hnum : p.Numbered)
include hp hnum

theorem invokeVisits_obeyed (fuel : Nat) (name : Bytes) (st : State) :
    Obeyed (invokeVisits setup fuel name st) (invoke setup fuel name st).1 := by
  rcases invokeVisits_traced hp hnum fuel name st with h | ⟨hnone, _⟩
  · exact .of_traced h
  · rw [hnone]
    exact .of_not_held (by simp)

theorem entriesVisits_obeyed (fuel : Nat) (names : List Bytes) (st : State) :
    Obeyed (entriesVisits setup fuel names st) (runEntries setup fuel names st).1 := by
  induction names generalizing st with
  | nil => exact .of_not_held (by simp [entriesVisits])
  | cons name names ih =>
    have hfirst := invokeVisits_obeyed hp hnum fuel name st
    rw [entriesVisits, runEntries]
    rcases hinvoke : invoke setup fuel name st with ⟨f | _, after⟩ <;> rw [hinvoke] at hfirst
    · rw [List.append_nil]
      cases f with
      | exit =>
        -- an `exit` counts as a good end, but no line that is held up gives one
        exact .of_not_held (hfirst.not_held fun l h => by cases h)
      | error _ | refused | internal _ | crash | unfinished => exact hfirst
    · exact .append (hfirst.not_held fun l h => by cases h) (ih after)

theorem runVisits_obeyed (fuel : Nat) (st : State) :
    Obeyed (runVisits setup fuel st) (run setup fuel st).1 := by
  rw [runVisits, run, hp]
  exact entriesVisits_obeyed hp hnum fuel _ st

end Numbered

end Machine

namespace Loading

theorem scanVisits_obeyed (setup : Setup) {ls : List SourceLine}
    (htrim : ∀ l ∈ ls, Bytes.trim l.text = l.text) (p : Progress) (st : State) :
    Obeyed (scanVisits setup ls p st) (scan setup ls p st).1 := by
  induction ls generalizing p st with
  | nil => exact .of_not_held (by simp [scanVisits])
  | cons l ls ih =>
    obtain ⟨hl, hls⟩ := List.forall_mem_cons.mp htrim
    rw [scanVisits, scan]
    split
    case isTrue h =>
      rw [line_of_executes h hl]
      rcases henter : Machine.enter setup [] l st with ⟨f | c, after⟩
      · exact .singleton fun hheld =>
          congrArg Except.error ((Machine.enter_placed henter).2 hheld)
      · refine .append ?_ (ih hls p after)
        exact List.forall_mem_singleton.mpr (Machine.enter_not_held henter)
    case isFalse h =>
      obtain ⟨r, hline⟩ := line_of_not_executes h
      rw [hline st, List.nil_append]
      cases r with
      | error f => exact .of_not_held (by simp)
      | ok q => exact ih hls q st

theorem visits_obeyed (setup : Setup) (source : Bytes) (st : State) :
    Obeyed (visits setup source st) (load setup source st).1 := by
  have h := scanVisits_obeyed setup (@trim_of_mem_sourceLines source) {} st
  rw [load_eq_scan]
  rcases hscan : scan setup (sourceLines source) {} st with ⟨f | p, after⟩ <;> rw [hscan] at h
  · intro past v rest heq hheld
    obtain ⟨hrest, hf⟩ := h past v rest heq hheld
    obtain rfl := Except.error.inj hf
    exact ⟨hrest, rfl⟩
  · exact .of_not_held (h.not_held fun l hl => by cases hl)

end Loading

/-! ## Without requests -/

/-- The same replies, none of which comes with a request. -/
def Input.hushed : Input → Input
  | .scripted turns => .scripted (turns.map fun t => { t with interrupts := false })
  | i => i

/-- The state with no request pending and none to come. -/
def State.hushed (st : State) : State :=
  { st with input := st.input.hushed, interrupted := false, arrivals := [] }

/-- The outcome, all requests apart. -/
def Outcome.hushed {α : Type} (o : Outcome α) : Outcome α := (o.1, o.2.hushed)

theorem Input.read?_hushed (i : Input) :
    i.hushed.read? = i.read?.map fun answer => (answer.1, false, answer.2.2.hushed) := by
  cases i with
  | absent => rfl
  | terminal prompt rest shown =>
    simp only [hushed, read?]
    split <;> rfl
  | scripted turns => cases turns <;> rfl
  | stream rest failure => rfl

theorem State.readLine_hushed (st : State) : st.hushed.readLine = st.readLine.hushed := by
  have hread : st.hushed.input.read? = _ := st.input.read?_hushed
  rw [State.readLine, State.readLine, hread]
  cases st.input.read? with
  | none => rfl
  | some answer =>
    dsimp only [Option.map_some]
    split <;> rfl

namespace Machine

theorem print_hushed (arg : Node) (st : State) :
    print arg st.hushed = Outcome.hushed (print arg st) := by
  rw [print, print, show st.hushed.vars = st.vars from rfl,
    show st.hushed.output = st.output from rfl]
  split
  · rfl
  · split <;> rfl

theorem assignText_hushed (setup : Setup) (sect name expr : Bytes) (st : State) :
    assignText setup sect name expr st.hushed =
      Outcome.hushed (assignText setup sect name expr st) := by
  rw [assignText, assignText, show st.hushed.vars = st.vars from rfl]
  split <;> rfl

theorem assign_hushed (setup : Setup) (sect name expr : Bytes) (st : State) :
    assign setup sect name expr st.hushed = Outcome.hushed (assign setup sect name expr st) := by
  rw [assign, assign]
  split
  · rw [st.readLine_hushed]
    rcases st.readLine with ⟨f | line, after⟩
    · rfl
    · exact assignText_hushed setup sect name line after
  · exact assignText_hushed setup sect name expr st

theorem ended_hushed (o : Outcome Unit) : ended o.hushed = (ended o).hushed := rfl

theorem Steps.hushed {setup : Setup} {sect line : Bytes} {st : State} {o : Outcome Callee}
    (h : Steps setup sect line st o) : Steps setup sect line st.hushed o.hushed := by
  induction h with
  | unread h => exact .unread h
  | comment h => exact .comment h
  | printVar h =>
    rw [← ended_hushed, ← print_hushed]
    exact .printVar h
  | printText h =>
    rw [← ended_hushed, ← print_hushed]
    exact .printText h
  | assign h =>
    rw [← ended_hushed, ← assign_hushed]
    exact .assign h
  | call h => exact .call h
  | exit h => exact .exit h
  | fault h hf => exact .fault h hf
  | skip h hf => exact .skip h hf
  | take h ht _ ih => exact .take h ht ih

theorem step_hushed (setup : Setup) (sect line : Bytes) (st : State) :
    step setup sect line st.hushed = (step setup sect line st).hushed :=
  (step_steps setup sect line st).hushed.step_eq

theorem counted_hushed (setup : Setup) (sect : Bytes) (l : SourceLine) (st : State) :
    counted setup sect l st.hushed = (counted setup sect l st).hushed := by
  have hpoll : st.poll.hushed = st.hushed := by
    rw [State.poll]
    split <;> rfl
  change _ = { st.poll.hushed with executed := st.poll.hushed.executed + 1 }.note _
  rw [hpoll]
  rfl

/-- A line that is not held up does the same without requests. -/
theorem enter_hushed (setup : Setup) (sect : Bytes) (l : SourceLine) {st : State}
    (h : ¬ st.poll.interrupted = true) :
    enter setup sect l st.hushed = (enter setup sect l st).hushed := by
  have hgo : ¬ st.hushed.poll.interrupted = true := Bool.false_ne_true
  rw [enter, enter, if_neg h, if_neg hgo, counted_hushed, step_hushed]
  rfl

section Calls

variable (setup : Setup) {call : Bytes → State → Outcome Unit} {calls : Bytes → State → List Visit}
  (hcall : ∀ name st, (∀ v ∈ calls name st, ¬ v.Held) →
    call name st.hushed = (call name st).hushed)
include hcall

theorem runLine_hushed (sect : Bytes) (l : SourceLine) {st : State}
    (h : ∀ v ∈ lineVisits setup calls sect l st, ¬ v.Held) :
    runLine setup call sect l st.hushed = (runLine setup call sect l st).hushed := by
  obtain ⟨hgo, hcalled⟩ := List.forall_mem_cons.mp h
  rw [runLine_eq, runLine_eq, enter_hushed setup sect l hgo]
  rcases henter : enter setup sect l st with ⟨f | _ | name, after⟩ <;> rw [henter] at hcalled
  · rfl
  · rfl
  · dsimp only [Outcome.hushed]
    rw [hcall name after hcalled]
    rfl

theorem runLines_hushed (sect : Bytes) (ls : List SourceLine) {st : State}
    (h : ∀ v ∈ linesVisits setup call calls sect ls st, ¬ v.Held) :
    runLines setup call sect ls st.hushed = (runLines setup call sect ls st).hushed := by
  induction ls generalizing st with
  | nil => rfl
  | cons l ls ih =>
    obtain ⟨hfirst, hrest⟩ := List.forall_mem_append.mp h
    rw [runLines, runLines, runLine_hushed setup hcall sect l hfirst]
    rcases hrun : runLine setup call sect l st with ⟨f | _, after⟩ <;> rw [hrun] at hrest
    · rfl
    · exact ih hrest

end Calls

theorem invoke_hushed (setup : Setup) (fuel : Nat) (name : Bytes) (st : State)
    (h : ∀ v ∈ invokeVisits setup fuel name st, ¬ v.Held) :
    invoke setup fuel name st.hushed = (invoke setup fuel name st).hushed := by
  induction fuel generalizing name st with
  | zero => rfl
  | succ fuel ih =>
    rw [invokeVisits] at h
    rw [invoke, invoke]
    cases hp : setup.program with
    | none => rfl
    | some p =>
      simp only [hp] at h ⊢
      cases hs : p.find? name with
      | none => rfl
      | some s =>
        rw [hs] at h
        exact runLines_hushed setup ih name s.body h

theorem runEntries_hushed (setup : Setup) (fuel : Nat) (names : List Bytes) {st : State}
    (h : ∀ v ∈ entriesVisits setup fuel names st, ¬ v.Held) :
    runEntries setup fuel names st.hushed = (runEntries setup fuel names st).hushed := by
  induction names generalizing st with
  | nil => rfl
  | cons name names ih =>
    obtain ⟨hfirst, hrest⟩ := List.forall_mem_append.mp h
    rw [runEntries, runEntries, invoke_hushed setup fuel name st hfirst]
    rcases hinvoke : invoke setup fuel name st with ⟨f | _, after⟩ <;> rw [hinvoke] at hrest
    · cases f <;> rfl
    · exact ih hrest

theorem run_hushed (setup : Setup) (fuel : Nat) {st : State}
    (h : ∀ v ∈ runVisits setup fuel st, ¬ v.Held) :
    run setup fuel st.hushed = (run setup fuel st).hushed := by
  rw [runVisits] at h
  rw [run, run]
  cases hp : setup.program with
  | none => rfl
  | some p =>
    rw [hp] at h
    exact runEntries_hushed setup fuel _ h

end Machine

namespace Loading

theorem scan_hushed (setup : Setup) {ls : List SourceLine}
    (htrim : ∀ l ∈ ls, Bytes.trim l.text = l.text) (p : Progress) {st : State}
    (h : ∀ v ∈ scanVisits setup ls p st, ¬ v.Held) :
    scan setup ls p st.hushed = (scan setup ls p st).hushed := by
  induction ls generalizing p st with
  | nil => rfl
  | cons l ls ih =>
    obtain ⟨hl, hls⟩ := List.forall_mem_cons.mp htrim
    obtain ⟨hfirst, hrest⟩ := List.forall_mem_append.mp h
    have hline : line setup l p st.hushed = (line setup l p st).hushed := by
      by_cases hexec : Executes setup l p
      · rw [if_pos hexec] at hfirst
        have hgo := List.forall_mem_singleton.mp hfirst
        rw [line_of_executes hexec hl, line_of_executes hexec hl,
          Machine.enter_hushed setup [] l hgo]
        rfl
      · obtain ⟨r, hline⟩ := line_of_not_executes hexec
        rw [hline, hline]
        rfl
    rw [scan, scan, hline]
    rcases hrun : line setup l p st with ⟨f | q, after⟩ <;> rw [hrun] at hrest
    · rfl
    · exact ih hls q hrest

theorem load_hushed (setup : Setup) (source : Bytes) {st : State}
    (h : ∀ v ∈ visits setup source st, ¬ v.Held) :
    load setup source st.hushed = (load setup source st).hushed := by
  rw [load_eq_scan, load_eq_scan,
    scan_hushed setup (@trim_of_mem_sourceLines source) {} h]
  rcases scan setup (sourceLines source) {} st with ⟨f | p, after⟩ <;> rfl

end Loading

/-! ## Requests at any moment -/

/-- What is left of work that a request ends at this visit: an error that names the line, and the
state from before it with the request used up. -/
def Visit.stopped {α : Type} (v : Visit) : Outcome α :=
  (.error (.error ⟨.interrupted, v.line.number, v.line.text⟩),
    { v.before with interrupted := false, arrivals := v.before.arrivals.tail })

/-- How work that comes to the lines `visits` honours requests that are made before or during it. -/
structure Honours {α : Type} (setup : Setup) (visits : State → List Visit)
    (work : State → Outcome α) (st : State) : Prop where
  leads : Leads (visits st) st (work st).2
  own : ∀ v ∈ visits st, v.after = (Machine.enter setup v.sect v.line v.before).2
  /-- A line during which a request is made is followed by one that is held up, or by none. -/
  once : ∀ past v w rest, visits st = past ++ v :: w :: rest → v.after.interrupted = true →
    w.Held ∧ rest = []
  /-- The line that is come to next is the end, for itself and for the whole. -/
  stops : ∀ past v rest, visits st = past ++ v :: rest →
    v.before.interrupted = true ∨ v.before.arrivals.head? = some true →
    rest = [] ∧ (∀ call, Machine.runLine setup call v.sect v.line v.before = v.stopped) ∧
      work st = v.stopped
  /-- A request that no line follows makes no difference. -/
  unheard : (∀ v ∈ visits st, ¬ v.Held) → work st.hushed = (work st).hushed

theorem Machine.runLine_of_held {setup : Setup} {v : Visit} (h : v.Held)
    (call : Bytes → State → Outcome Unit) :
    runLine setup call v.sect v.line v.before = v.stopped := by
  rw [runLine_eq, enter_of_held h, State.poll_stopped]
  rfl

theorem Obeyed.honours {α : Type} {setup : Setup} {visits : State → List Visit}
    {work : State → Outcome α} {st : State} (h : Obeyed (visits st) (work st).1)
    (hleads : Leads (visits st) st (work st).2)
    (hown : ∀ v ∈ visits st, v.after = (Machine.enter setup v.sect v.line v.before).2)
    (hunheard : (∀ v ∈ visits st, ¬ v.Held) → work st.hushed = (work st).hushed) :
    Honours setup visits work st where
  leads := hleads
  own := hown
  once := by
    intro past v w rest heq hafter
    rw [heq] at hleads
    obtain ⟨_, _, _, hw, _⟩ := hleads.of_append
    -- the next line begins where this one ends
    have hheld : w.Held := Visit.held_iff.mpr (Or.inl (hw ▸ hafter))
    exact ⟨hheld, (h (past ++ [v]) w rest (by simp [heq]) hheld).1⟩
  stops := by
    intro past v rest heq hpending
    have hheld := Visit.held_iff.mpr hpending
    obtain ⟨rfl, hresult⟩ := h past v rest heq hheld
    have hlast : (work st).2 = v.after := by
      rw [heq] at hleads
      obtain ⟨_, _, _, hlast⟩ := hleads.of_append
      exact hlast
    have hafter : v.after = v.stopped (α := α).2 := by
      rw [hown v (by simp [heq]), Machine.enter_of_held hheld, State.poll_stopped]
      rfl
    exact ⟨rfl, Machine.runLine_of_held hheld, Prod.ext hresult (hlast.trans hafter)⟩
  unheard := hunheard

namespace Loading

theorem load_honours (setup : Setup) (source : Bytes) (st : State) :
    Honours setup (visits setup source) (load setup source) st :=
  (visits_obeyed setup source st).honours (visits_leads setup source st)
    (visits_after setup source st) (load_hushed setup source)

end Loading

theorem Machine.run_honours {setup : Setup} {p : Program} (hp : setup.program = some p)
    (hnum : p.Numbered) (fuel : Nat) (st : State) :
    Honours setup (runVisits setup fuel) (run setup fuel) st :=
  (runVisits_obeyed hp hnum fuel st).honours (runVisits_leads setup fuel st)
    (runVisits_after hp fuel st) (run_hushed setup fuel)

/-- Loading a source and running what was loaded honour every request to stop, whenever it is made:
before they begin, from outside between two lines, or while a line reads. -/
theorem requests_honoured (setup : Setup) (source : Bytes) (st : State) :
    Cause.interrupted.kind = .runtime ∧ Cause.interrupted.message = ascii "Interrupted" ∧
    Honours setup (Loading.visits setup source) (Loading.load setup source) st ∧
    ∀ p, (Loading.load setup source st).1 = .ok p → ∀ fuel start,
      Honours { setup with program := some p }
        (Machine.runVisits { setup with program := some p } fuel)
        (Machine.run { setup with program := some p } fuel) start := by
  refine ⟨rfl, rfl, Loading.load_honours setup source st, ?_⟩
  intro p hp fuel start
  rcases Loading.load_spec setup source st with ⟨q, _, hload, hq, _⟩ | ⟨f, _, hload, _⟩
  · rw [hload] at hp
    obtain rfl := Except.ok.inj hp
    exact Machine.run_honours rfl hq.numbered fuel start
  · rw [hload] at hp
    cases hp

/-- A consequent in a called section asks for a line. -/
def reading : Bytes :=
  ascii "sect main\n@ask\nprint \"on\"\n;\nsect ask\nif 1 == 1 then $x = %\nprint $x\n;"

/-- With the reply comes a request to stop. -/
def replying : State where
  input := .scripted [⟨true, .line (ascii "5")⟩]

theorem requests_honoured_reading :
    ∃ p past v, (Loading.load { dialect := .clarity } reading {}).1 = .ok p ∧
      Machine.runVisits { dialect := .clarity, program := some p } 3 replying = past ++ [v] ∧
      past.length = 2 ∧ v.line = ⟨7, ascii "print $x"⟩ ∧ v.before.interrupted = true ∧
      v.before.vars.find? (ascii "x") = some (.integer 5) ∧
      Machine.run { dialect := .clarity, program := some p } 3 replying = v.stopped := by
  have hvisits : ((Loading.load { dialect := .clarity } reading {}).1.toOption.map fun p =>
      (Machine.runVisits { dialect := .clarity, program := some p } 3 replying).map fun v =>
        (v.line, v.before.interrupted, v.before.vars.find? (ascii "x"))) =
      some [(⟨2, ascii "@ask"⟩, false, none), (⟨6, ascii "if 1 == 1 then $x = %"⟩, false, none),
        (⟨7, ascii "print $x"⟩, true, some (.integer 5))] := by decide +kernel
  rcases hload : (Loading.load { dialect := .clarity } reading {}).1 with f | p <;>
    rw [hload] at hvisits
  · cases hvisits
  · obtain ⟨a, _, hvs, _, hvs'⟩ := List.map_eq_cons_iff.mp (Option.some.inj hvisits)
    obtain ⟨b, _, rfl, _, hvs'⟩ := List.map_eq_cons_iff.mp hvs'
    obtain ⟨v, _, rfl, hv, hvs'⟩ := List.map_eq_cons_iff.mp hvs'
    obtain rfl := List.map_eq_nil_iff.mp hvs'
    obtain ⟨hline, hpending, hx⟩ : v.line = _ ∧ v.before.interrupted = true ∧ _ = _ := by
      simpa using hv
    obtain ⟨-, -, -, honours⟩ := requests_honoured { dialect := .clarity } reading {}
    obtain ⟨_, _, hrun⟩ := (honours p hload 3 replying).stops [a, b] v [] hvs (Or.inl hpending)
    exact ⟨p, [a, b], v, rfl, hvs, rfl, hline, hpending, hx, hrun⟩

end SectScript
