import SectScript.Proofs.Launch.Outcome
import SectScript.Proofs.Loading.Visit
import SectScript.Proofs.Statement.Within
import SectScript.Proofs.Text.Decimal

/-!
# Tidy variables

Lines of a source and lines of a stream hold no line feed, and neither does anything that is made of
them. So whatever a program loads, reads and computes, its table is tidy: the names are trimmed and
could be written in an assignment, numbers are not negative, and all texts are of one line. Each
statement that prints therefore adds one line feed to the output, and no other does.
-/

namespace SectScript

/-! ## Tidy tables -/

def Value.Tidy : Value → Prop
  | .integer n => 0 ≤ n.toInt ∧ n.toInt ≤ 9223372036854775807
  | .text s => 0x0A ∉ s

/-- Every name can be that of a variable, and no name and no text holds a line feed. -/
def Table.Tidy (t : Table Value) : Prop :=
  ∀ e ∈ t.entries, Nameable e.1 ∧ 0x0A ∉ e.1 ∧ e.2.Tidy

theorem Table.Tidy.insert {t : Table Value} (h : t.Tidy) {name : Bytes} (hname : Nameable name)
    (hline : 0x0A ∉ name) {v : Value} (hv : v.Tidy) : (t.insert name v).Tidy := by
  intro e he
  rcases mem_insert he with rfl | he
  · exact ⟨hname, hline, hv⟩
  · exact h e he

theorem Table.Tidy.value {t : Table Value} (h : t.Tidy) {name : Bytes} {v : Value}
    (hv : t.find? name = some v) : v.Tidy :=
  (h _ (mem_entries_of_find? hv)).2.2

theorem Decimal.not_mem_ofInt64 (n : Int64) : 0x0A ∉ ofInt64 n := by
  have hdigits := not_mem_of_isDigits (ofNat_spec n.toInt.natAbs).1 (b := 0x0A) (by decide)
  rw [ofInt64, ofInt]
  split
  · simpa using hdigits
  · exact hdigits

theorem Value.Tidy.natural {v : Value} (h : v.Tidy) : 0x0A ∉ v.natural := by
  cases v with
  | integer n => exact Decimal.not_mem_ofInt64 n
  | text s => exact h

/-! ## Values of assignments -/

/-- The text that an operand stands for has no line feed. -/
def Operand.Flat : Operand → Prop
  | .missing => True
  | .number s _ | .text s => 0x0A ∉ s

theorem Operand.flat_ofText {s : Bytes} (h : 0x0A ∉ s) : (ofText s).Flat := by
  rw [ofText]
  split <;> exact h

section Flat

variable {d : Dialect} {vars : Table Value} (htidy : vars.Tidy)
include htidy

theorem Operand.resolve_flat {s : Bytes} (hs : 0x0A ∉ s) {o : Operand}
    (h : resolve d vars s = .ok o) : o.Flat := by
  rw [resolve] at h
  split at h
  · obtain rfl := Except.ok.inj h
    exact trivial
  split at h
  case h_1 name _ =>
    split at h
    case h_1 =>
      split at h
      · obtain rfl := Except.ok.inj h
        exact hs
      · cases h
    case h_2 n _ =>
      obtain rfl := Except.ok.inj h
      exact Decimal.not_mem_ofInt64 n
    case h_3 t ht =>
      obtain rfl := Except.ok.inj h
      exact flat_ofText (htidy.value ht)
  case h_2 =>
    split at h
    case h_1 inside hinside =>
      obtain rfl := Except.ok.inj h
      exact fun hmem => hs (unquote?_subset hinside hmem)
    case h_2 =>
      obtain rfl := Except.ok.inj h
      exact flat_ofText hs

omit htidy in
theorem Operand.signed_flat (op : Operator) {left : Operand} (h : left.Flat) (right : Operand) :
    (signed op left right).Flat := by
  rw [signed.eq_def]
  split
  · split
    · change 0x0A ∉ ascii "0"
      decide
    · exact trivial
  · exact h

omit htidy in
theorem Expression.apply_flat {expr : Bytes} {op : Operator} {left right : Operand}
    (hleft : left.Flat) (hright : right.Flat) {s : Bytes} (h : apply expr op left right = .ok s) :
    0x0A ∉ s := by
  have hsigned := Operand.signed_flat op hleft right
  rw [apply.eq_def] at h
  generalize Operand.signed op left right = first at h hsigned
  have hjoined : ∀ a b : Bytes, 0x0A ∉ a → 0x0A ∉ b →
      (if op == .add then .ok (a ++ b) else .error (.invalidExpression expr none) :
        Except Cause Bytes) = .ok s → 0x0A ∉ s := by
    intro a b ha hb hab
    split at hab
    · obtain rfl := Except.ok.inj hab
      exact fun hmem => (List.mem_append.mp hmem).elim ha hb
    · cases hab
  cases first with
  | missing => cases right <;> cases h
  | number a n =>
    cases right with
    | missing => cases h
    | number b m =>
      dsimp only at h
      split at h
      · obtain rfl := Except.ok.inj h
        exact Decimal.not_mem_ofInt64 _
      · cases h
    | text b => exact hjoined a b hsigned hright h
  | text a =>
    cases right with
    | missing => cases h
    | number b m => exact hjoined a b hsigned hright h
    | text b => exact hjoined a b hsigned hright h

theorem Expression.evaluate_flat {expr : Bytes} (hexpr : 0x0A ∉ expr) {s : Bytes}
    (h : evaluate d vars expr = .ok s) : 0x0A ∉ s := by
  have hsame : (Except.ok expr : Except Cause Bytes) = .ok s → 0x0A ∉ s :=
    fun h => Except.ok.inj h ▸ hexpr
  rw [evaluate] at h
  split at h
  · exact hsame h
  split at h
  · exact hsame h
  split at h
  · exact hsame h
  case h_2 left right hcut =>
    obtain ⟨hleft, hright⟩ := Bytes.cut_subset hcut
    split at h
    · cases h
    split at h
    · cases h
    case h_2 l hl =>
      split at h
      · cases h
      case h_2 r hr =>
        have hl := Operand.resolve_flat htidy
          (fun hmem => hexpr (hleft (Bytes.trim_subset left hmem))) hl
        have hr := Operand.resolve_flat htidy
          (fun hmem => hexpr (hright (Bytes.trim_subset right hmem))) hr
        exact apply_flat hl hr h

end Flat

/-- Digits denote a number that is not negative. -/
theorem Value.ofResult?_tidy {raw : Bytes} (hraw : 0x0A ∉ raw) {v : Value}
    (h : ofResult? raw = some v) : v.Tidy := by
  rw [ofResult?] at h
  split at h
  case isTrue hdigits =>
    obtain ⟨n, hn, rfl⟩ := Option.map_eq_some_iff.mp h
    rw [Decimal.read?, Decimal.readInt?, Decimal.sign_of_isDigits hdigits] at hn
    simp only [hdigits, if_true, Bool.false_eq_true, if_false, Option.ite_none_right_eq_some,
      Option.some.injEq] at hn
    obtain ⟨hrange, rfl⟩ := hn
    simp only [Decimal.inRange, Bool.and_eq_true, decide_eq_true_eq] at hrange
    rw [Value.Tidy, Int64.toInt_ofInt_of_le (by omega) (by omega)]
    omega
  case isFalse =>
    obtain rfl := Option.some.inj h
    cases hinside : unquote? raw with
    | none => exact hraw
    | some inside => exact fun hmem => hraw (unquote?_subset hinside hmem)

/-! ## Lines -/

/-- The variables are tidy, and lines are read from a stream. -/
structure State.Tidy (st : State) : Prop where
  vars : st.vars.Tidy
  input : ∃ rest failure, st.input = .stream rest failure

theorem Input.readStream_flat {rest line left : Bytes} {failure : Option Bytes}
    (h : readStream rest failure = (.line line, left)) : 0x0A ∉ line := by
  rw [readStream.eq_def] at h
  split at h
  case h_1 l r hcut =>
    obtain ⟨hline, -⟩ := Prod.mk.inj h
    obtain rfl := Reply.line.inj hline
    exact fun hmem => Bytes.not_mem_of_cut hcut (Bytes.dropRightWhile_subset _ _ hmem)
  case h_2 hcut =>
    split at h
    · cases h
    · split at h
      · cases h
      · obtain ⟨hline, -⟩ := Prod.mk.inj h
        obtain rfl := Reply.line.inj hline
        exact fun hmem => Bytes.not_mem_of_cut_eq_none hcut (Bytes.dropRightWhile_subset _ _ hmem)

theorem State.Tidy.readLine {st : State} (h : st.Tidy) :
    st.readLine.2.Tidy ∧ ∀ line, st.readLine.1 = .ok line → 0x0A ∉ line := by
  obtain ⟨rest, failure, hinput⟩ := h.input
  have hread : st.input.read? =
      some ((Input.readStream rest failure).1, false,
        .stream (Input.readStream rest failure).2 failure) := by
    rw [hinput]
    rfl
  rcases hstream : Input.readStream rest failure with ⟨reply, left⟩
  rw [State.readLine, hread, hstream]
  dsimp only
  split
  case h_1 line hline =>
    refine ⟨⟨h.vars, left, failure, rfl⟩, ?_⟩
    intro trimmed heq
    obtain rfl := Except.ok.inj heq
    have hreply : reply = .line line := by
      cases reply with
      | line text => rw [Except.ok.inj hline]
      | aborted | timedOut | failed _ | ended => cases hline
    rw [hreply] at hstream
    exact fun hmem => Input.readStream_flat hstream (Bytes.trim_subset _ hmem)
  case h_2 => exact ⟨⟨h.vars, left, failure, rfl⟩, fun line heq => by cases heq⟩

namespace Machine

theorem assigned_tidy {setup : Setup} {sect name expr : Bytes} {vars : Table Value}
    (htidy : vars.Tidy) (hexpr : 0x0A ∉ expr) {v : Value}
    (h : assigned setup sect name expr vars = .ok v) : v.Tidy := by
  rw [assigned] at h
  split at h
  · cases h
  case h_2 result hresult =>
    split at h
    · cases h
    case h_2 w hw =>
      split at h
      · cases h
      · obtain rfl := Except.ok.inj h
        exact Value.ofResult?_tidy (Expression.evaluate_flat htidy hexpr hresult) hw

section Assign

variable {name : Bytes} (hname : Nameable name) (hline : 0x0A ∉ name)
include hname hline

theorem assignText_tidy {setup : Setup} {sect expr : Bytes} (hexpr : 0x0A ∉ expr) {st : State}
    (h : st.Tidy) : (assignText setup sect name expr st).2.Tidy := by
  rw [assignText]
  split
  · exact h
  case h_2 v hv => exact ⟨h.vars.insert hname hline (assigned_tidy h.vars hexpr hv), h.input⟩

theorem assign_tidy {setup : Setup} {sect expr : Bytes} (hexpr : 0x0A ∉ expr) {st : State}
    (h : st.Tidy) : (assign setup sect name expr st).2.Tidy := by
  rw [assign]
  split
  · obtain ⟨hafter, hread⟩ := h.readLine
    rcases hr : st.readLine with ⟨f | line, after⟩ <;> rw [hr] at hafter hread
    · exact hafter
    · exact assignText_tidy hname hline (hread line rfl) hafter
  · exact assignText_tidy hname hline hexpr h

end Assign

theorem print_tidy (arg : Node) {st : State} (h : st.Tidy) : (print arg st).2.Tidy :=
  ⟨by rw [print_vars]; exact h.vars, by rw [print_input]; exact h.input⟩

end Machine

theorem Form.act_tidy {form : Form} {line : Bytes} (hform : form.Within line)
    (hline : 0x0A ∉ line) (setup : Setup) (sect : Bytes) {st : State} (h : st.Tidy) :
    (form.act setup sect st).2.Tidy := by
  cases form with
  | printVar _ | printText _ => exact Machine.print_tidy _ h
  | assign name expr =>
    obtain ⟨hname, hsub, hexpr⟩ := hform
    exact Machine.assign_tidy hname (fun hmem => hline (hsub hmem))
      (fun hmem => hline (hexpr hmem)) h
  | comment | call _ | exit | cond _ _ _ _ => exact h

theorem comesToWith_within {vars : Table Value} {fuel : Nat} {line : Bytes} {form : Form}
    (h : comesToWith vars fuel line = some form) : form.Within line := by
  induction fuel generalizing line with
  | zero => cases h
  | succ fuel ih =>
    cases hline : Statement.ofLine line with
    | error c =>
      rw [comesToWith, hline] at h
      cases h
    | ok stmt =>
      obtain ⟨read, rfl, -⟩ := Statement.ofLine_form hline
      have hread : read.Within line := Form.On.within hline
      rw [comesToWith_of_on hline] at h
      cases read with
      | cond rel left right consequent =>
        dsimp only at h
        split at h
        · exact (ih h).mono hread
        · cases h
      | comment | printVar _ | printText _ | assign _ _ | call _ | exit =>
        obtain rfl := Option.some.inj h
        exact hread

namespace Machine

theorem poll_tidy {st : State} (h : st.Tidy) : st.poll.Tidy :=
  ⟨by rw [poll_vars]; exact h.vars, by rw [poll_input]; exact h.input⟩

/-- A line without line feed leaves the variables tidy. -/
theorem enter_tidy (setup : Setup) (sect : Bytes) {l : SourceLine} (hl : 0x0A ∉ l.text)
    {st : State} (h : st.Tidy) : (enter setup sect l st).2.Tidy := by
  have hpoll := poll_tidy h
  rw [enter]
  split
  · exact ⟨hpoll.vars, hpoll.input⟩
  · have steps := step_steps setup sect l.text (counted setup sect l st)
    rcases steps.comesTo (Nat.lt_succ_self _) with ⟨_, ⟨events, hst⟩, _⟩ |
      ⟨form, events, hform, hact⟩
    · rw [located, hst]
      exact ⟨hpoll.vars, hpoll.input⟩
    · have hnoted : ((counted setup sect l st).note events).Tidy := ⟨hpoll.vars, hpoll.input⟩
      rw [located, hact]
      exact Form.act_tidy (comesToWith_within hform) hl setup sect hnoted

end Machine

/-! ## Line feeds in the output -/

def Output.lineFeeds (o : Output) : Nat := o.text.count 0x0A

theorem Output.lineFeeds_write? {o o' : Output} {s : Bytes}
    (h : o.write? (s ++ Bytes.newline) = some o') (hs : 0x0A ∉ s) :
    o'.lineFeeds = o.lineFeeds + 1 := by
  have htext : o'.text = o.text ++ (s ++ Bytes.newline) := by
    rw [write?.eq_def] at h
    split at h
    · obtain rfl := Option.some.inj h
      simp [text]
    · cases h
    · obtain rfl := Option.some.inj h
      simp [text]
  rw [lineFeeds, htext, List.count_append, List.count_append, List.count_eq_zero_of_not_mem hs]
  rfl

def Form.isPrint : Form → Bool
  | .printVar _ | .printText _ => true
  | .comment | .assign _ _ | .call _ | .cond _ _ _ _ | .exit => false

/-- The visit comes to a print statement and carries it out. -/
def Visit.prints (setup : Setup) (v : Visit) : Bool :=
  v.form?.any Form.isPrint && (Machine.enter setup v.sect v.line v.before).1.isOk

theorem Machine.print_lineFeeds {arg : Node} {st : State}
    (hflat : ∀ s, printed st.vars arg = .ok s → 0x0A ∉ s) :
    (print arg st).2.output.lineFeeds =
      st.output.lineFeeds + if (print arg st).1.isOk then 1 else 0 := by
  cases hprinted : printed st.vars arg with
  | error f =>
    have hprint : print arg st = (.error f, st) := by simp only [print, hprinted]
    rw [hprint]
    rfl
  | ok s =>
    cases hwrite : st.output.write? (s ++ Bytes.newline) with
    | none =>
      have hprint : print arg st = (.error .refused, st) := by simp only [print, hprinted, hwrite]
      rw [hprint]
      rfl
    | some output =>
      have hprint : print arg st = (.ok (), { st with output }) := by
        simp only [print, hprinted, hwrite]
      rw [hprint]
      exact Output.lineFeeds_write? hwrite (hflat s hprinted)

theorem Machine.ended_isOk (o : Outcome Unit) : (ended o).1.isOk = o.1.isOk := by
  rcases o with ⟨_ | _, st⟩ <;> rfl

theorem Machine.located_isOk {α : Type} (l : SourceLine) (o : Outcome α) :
    (located l o).1.isOk = o.1.isOk := by
  rcases o with ⟨_ | _, st⟩ <;> rfl

theorem Form.act_lineFeeds {form : Form} {line : Bytes} (hform : form.Within line)
    (hline : 0x0A ∉ line) (setup : Setup) (sect : Bytes) {st : State} (h : st.vars.Tidy) :
    (form.act setup sect st).2.output.lineFeeds =
      st.output.lineFeeds + if form.isPrint && (form.act setup sect st).1.isOk then 1 else 0 := by
  cases form with
  | printVar name =>
    rw [Form.act, Machine.ended_isOk]
    refine Machine.print_lineFeeds ?_
    intro s hs
    simp only [Machine.printed, Node.token, Node.data?, fetch] at hs
    cases hv : st.vars.find? name with
    | none =>
      rw [hv] at hs
      cases hs
    | some v =>
      rw [hv] at hs
      obtain rfl := Except.ok.inj hs
      exact (h.value hv).natural
  | printText s =>
    rw [Form.act, Machine.ended_isOk]
    refine Machine.print_lineFeeds ?_
    intro t ht
    obtain rfl := Except.ok.inj ht
    exact fun hmem => hline (hform hmem)
  | assign name expr =>
    exact congrArg Output.lineFeeds (Machine.assign_output setup sect name expr st)
  | comment | call _ | exit | cond _ _ _ _ => rfl

theorem Visit.form?_within {v : Visit} {form : Form} (h : v.form? = some form) :
    form.Within v.line.text := by
  rw [Visit.form?] at h
  split at h
  · cases h
  · exact comesToWith_within h

/-- A visit adds a line feed just if it prints. -/
theorem Visit.lineFeeds (setup : Setup) {v : Visit} (hl : 0x0A ∉ v.line.text)
    (h : v.before.vars.Tidy) :
    (Machine.enter setup v.sect v.line v.before).2.output.lineFeeds =
      v.before.output.lineFeeds + if v.prints setup then 1 else 0 := by
  rw [Visit.prints]
  rcases Machine.enter_form? setup v with ⟨hnone, _, houtput⟩ |
    ⟨form, hform, st, hvars, _, houtput, hact⟩
  · rw [hnone, houtput]
    rfl
  · rw [← hvars] at h
    have hcount := Form.act_lineFeeds (form?_within hform) hl setup v.sect h
    rw [hform, hact, Machine.located_isOk, ← houtput]
    exact hcount

/-! ## Whole runs -/

/-- What every visit keeps holds around each of them and in the end. -/
theorem Leads.keeps {I : State → Prop} {vs : List Visit} {a b : State} (h : Leads vs a b)
    (hvs : ∀ v ∈ vs, I v.before → I v.after) (ha : I a) :
    (∀ v ∈ vs, I v.before ∧ I v.after) ∧ I b := by
  induction vs generalizing a with
  | nil =>
    cases h
    exact ⟨by simp, ha⟩
  | cons v vs ih =>
    obtain ⟨rfl, hrest⟩ := h
    obtain ⟨hv, hvs⟩ := List.forall_mem_cons.mp hvs
    obtain ⟨hall, hb⟩ := ih hrest hvs (hv ha)
    exact ⟨List.forall_mem_cons.mpr ⟨⟨ha, hv ha⟩, hall⟩, hb⟩

section Visits

variable {setup : Setup} {vs : List Visit} {a b : State} (h : Leads vs a b)
  (hafter : ∀ v ∈ vs, v.after = (Machine.enter setup v.sect v.line v.before).2)
  (hlines : ∀ v ∈ vs, 0x0A ∉ v.line.text)
include h hafter hlines

theorem Leads.tidy (ha : a.Tidy) : (∀ v ∈ vs, v.before.Tidy ∧ v.after.Tidy) ∧ b.Tidy := by
  refine h.keeps ?_ ha
  intro v hv hbefore
  rw [hafter v hv]
  exact Machine.enter_tidy setup v.sect (hlines v hv) hbefore

theorem Leads.lineFeeds (htidy : ∀ v ∈ vs, v.before.vars.Tidy) :
    b.output.lineFeeds = a.output.lineFeeds + vs.countP (Visit.prints setup) := by
  induction vs generalizing a with
  | nil =>
    cases h
    rfl
  | cons v vs ih =>
    obtain ⟨rfl, hrest⟩ := h
    obtain ⟨hv, hafter⟩ := List.forall_mem_cons.mp hafter
    obtain ⟨hl, hlines⟩ := List.forall_mem_cons.mp hlines
    obtain ⟨hvars, htidy⟩ := List.forall_mem_cons.mp htidy
    rw [ih hrest hafter hlines htidy, hv, Visit.lineFeeds setup hl hvars, List.countP_cons]
    omega

end Visits

namespace Loading

theorem load_tidy (setup : Setup) (source : Bytes) {st : State} (h : st.Tidy) :
    (∀ v ∈ visits setup source st, v.before.Tidy ∧ v.after.Tidy) ∧
      (load setup source st).2.Tidy :=
  (visits_leads setup source st).tidy (visits_after setup source st)
    (fun _ hv => lineOf_flat (mem_sourceLines (mem_scanVisits hv).2.1)) h

/-- The lines that a run of a loaded program comes to hold no line feed. -/
theorem runVisits_flat {setup : Setup} {source : Bytes} {st : State} {p : Program}
    (hload : (load setup source st).1 = .ok p) (fuel : Nat) (start : State) :
    ∀ v ∈ Machine.runVisits { setup with program := some p } fuel start, 0x0A ∉ v.line.text := by
  intro v hv
  rcases load_spec setup source st with ⟨q, _, hq, hreflects, _⟩ | ⟨f, _, hq, _⟩ <;>
    rw [hq] at hload
  · obtain rfl := Except.ok.inj hload
    obtain ⟨root, _, hof⟩ := Machine.mem_runVisits rfl fuel start v hv
    obtain ⟨s, hs, hl⟩ := hof.stored
    exact lineOf_flat (hreflects.lineOf hs _ hl)
  · cases hload

end Loading

/-- In every state that a fresh interpreter comes to by loading a source and running it, whatever
the stream holds that lines are read from, the variables are tidy, and the line feeds in the output
are as many as the print statements that were carried out. -/
theorem variables_tidy (dialect : Dialect) (watch : Watch) (source bytes : Bytes)
    (failure : Option Bytes) (budget : Option Nat) (arrivals : List Bool) :
    let setup : Setup := { dialect, watch }
    let fresh : State := { input := .stream bytes failure, output := { budget }, arrivals }
    let loaded := Loading.load setup source fresh
    Leads (Loading.visits setup source fresh) fresh loaded.2 ∧
    (∀ v ∈ Loading.visits setup source fresh, v.before.vars.Tidy ∧ v.after.vars.Tidy) ∧
    loaded.2.vars.Tidy ∧
    ∀ p, loaded.1 = .ok p → ∀ fuel,
      let running : Setup := { dialect, program := some p, watch }
      let visits := Machine.runVisits running fuel loaded.2
      let ran := (Machine.run running fuel loaded.2).2
      Leads visits loaded.2 ran ∧
      (∀ v ∈ visits, v.before.vars.Tidy ∧ v.after.vars.Tidy) ∧ ran.vars.Tidy ∧
      ran.output.text.count 0x0A = visits.countP (Visit.prints running) := by
  intro setup fresh loaded
  have hfresh : fresh.Tidy := ⟨fun e he => (by cases he), bytes, failure, rfl⟩
  obtain ⟨hload, hloaded⟩ := Loading.load_tidy setup source hfresh
  refine ⟨Loading.visits_leads setup source fresh,
    fun v hv => ⟨(hload v hv).1.vars, (hload v hv).2.vars⟩, hloaded.vars, ?_⟩
  intro p hp fuel running visits ran
  have hleads : Leads visits loaded.2 ran := Machine.runVisits_leads running fuel loaded.2
  have hafter := @Machine.runVisits_after running p rfl fuel loaded.2
  have hflat := Loading.runVisits_flat hp fuel loaded.2
  obtain ⟨hrun, hran⟩ := hleads.tidy hafter hflat hloaded
  have hcount := hleads.lineFeeds hafter hflat fun v hv => (hrun v hv).1.vars
  obtain ⟨_, _, hassigns⟩ := Loading.load_assigns setup source fresh
  rw [hassigns.output] at hcount
  refine ⟨hleads, fun v hv => ⟨(hrun v hv).1.vars, (hrun v hv).2.vars⟩, hran.vars, ?_⟩
  exact hcount.trans (Nat.zero_add _)

/-- A negative number is computed while loading, and another from a line of input. -/
def subtracting : Bytes :=
  ascii "$n = -3\nsect main\n$x = %\n$n = $n - $x\nprint $n\nif $x > 1 then print \"on\"\n;"

theorem variables_tidy_subtracting :
    let fresh : State := { input := .stream (ascii "7\r\n8") none }
    let loaded := Loading.load { dialect := .clarity } subtracting fresh
    ∃ p, loaded.1 = .ok p ∧
      let running : Setup := { dialect := .clarity, program := some p }
      let ran := (Machine.run running 1 loaded.2).2
      ran.vars.find? (ascii "n") = some (.text (ascii "-10")) ∧
      ran.vars.find? (ascii "x") = some (.integer 7) ∧ ran.vars.Tidy ∧
      ran.output.text = ascii "-10\non\n" ∧
      ran.output.text.count 0x0A =
        (Machine.runVisits running 1 loaded.2).countP (Visit.prints running) := by
  intro fresh loaded
  have hran : (loaded.1.toOption.map fun p =>
      let ran := (Machine.run { dialect := .clarity, program := some p } 1 loaded.2).2
      (ran.vars.find? (ascii "n"), ran.vars.find? (ascii "x"), ran.output.text)) =
      some (some (.text (ascii "-10")), some (.integer 7), ascii "-10\non\n") := by decide +kernel
  rcases hload : loaded.1 with f | p <;> rw [hload] at hran
  · cases hran
  · obtain ⟨hn, hrest⟩ := Prod.mk.inj (Option.some.inj hran)
    obtain ⟨hx, htext⟩ := Prod.mk.inj hrest
    obtain ⟨-, -, -, hruns⟩ :=
      variables_tidy .clarity {} subtracting (ascii "7\r\n8") none none []
    obtain ⟨_, _, htidy, hcount⟩ := hruns p hload 1
    exact ⟨p, rfl, hn, hx, htidy, htext, hcount⟩

end SectScript
