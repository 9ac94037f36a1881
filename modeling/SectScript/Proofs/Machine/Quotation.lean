import SectScript.Proofs.Expression
import SectScript.Proofs.Machine.Reading
import SectScript.Proofs.Text.Order

/-!
# Quoted texts

A text in quotes is stored and printed as it is. Each stage on the way has its own idea of quotes,
but all agree on a text that holds none: the line is cut at the equals sign before it, no operator
is searched for inside it, and only its own quotes are taken off. Two quoted texts that are joined
lose their quotes before they are looked at, so digits joined to digits become a number.
-/

namespace SectScript

/-! ## What is evaluated -/

theorem isQuotedLiteral_quoted (s : Bytes) :
    isQuotedLiteral (Term.quoted s).text = !s.any (· == 0x22) := by
  have hquoted : unquote? (Term.quoted s).text = some s := unquote?_eq_some_iff.mpr rfl
  rw [isQuotedLiteral, hquoted]

theorem any_quote_eq_false {s : Bytes} (h : 0x22 ∉ s) : s.any (· == 0x22) = false := by
  rw [List.any_eq_false]
  intro b hb heq
  exact h (beq_iff_eq.mp heq ▸ hb)

/-- Two quoted texts with a plus sign between them. -/
def junction (a b : Bytes) : Bytes := (Term.quoted a).text ++ (ascii "+" ++ (Term.quoted b).text)

/-- Seen from its ends a junction looks like one quoted text. -/
theorem junction_eq (a b : Bytes) :
    junction a b = (Term.quoted (a ++ 0x22 :: 0x2B :: 0x22 :: b)).text := by
  simp [junction, Term.text, ascii]

theorem Operand.resolve_quoted (d : Dialect) (vars : Table Value) (s : Bytes) :
    resolve d vars (Term.quoted s).text = .ok (text s) := by
  have hne : ((Term.quoted s).text == []) = false := rfl
  have hsigil : sigil.isPrefixOf? (Term.quoted s).text = none := rfl
  have hquoted : unquote? (Term.quoted s).text = some s := unquote?_eq_some_iff.mpr rfl
  rw [resolve, hne, hsigil]
  dsimp only
  rw [hquoted]
  rfl

namespace Expression

variable (d : Dialect) (vars : Table Value)

/-- A quoted text is taken as it is, whatever operators it holds. -/
theorem evaluate_quoted {s : Bytes} (h : 0x22 ∉ s) :
    evaluate d vars (Term.quoted s).text = .ok (Term.quoted s).text := by
  rw [evaluate, isQuotedLiteral_quoted, any_quote_eq_false h]
  rfl

theorem evaluate_junction {a b : Bytes} (ha : 0x2B ∉ a) (hb : 0x2B ∉ b) :
    evaluate d vars (junction a b) = .ok (a ++ b) := by
  have hplus : Operator.add.symbol = [0x2B] := by decide
  have hfree : ∀ {s : Bytes}, 0x2B ∉ s → 0x2B ∉ (Term.quoted s).text := by
    intro s hs
    simpa [Term.text] using hs
  have hliteral : isQuotedLiteral (junction a b) = false := by
    rw [junction_eq, isQuotedLiteral_quoted]
    simp
  have hoperator : operator? (junction a b) = some .add := by
    have hcontains : Bytes.contains Operator.add.symbol (junction a b) = true :=
      Bytes.contains_append _ _ _
    simp [operator?, Operator.all, hcontains]
  have hcut : Bytes.cut Operator.add.symbol (junction a b) =
      some ((Term.quoted a).text, (Term.quoted b).text) := by
    rw [hplus]
    exact Bytes.cut_append (hfree ha) _
  have honce : Bytes.contains Operator.add.symbol (Term.quoted b).text = false := by
    rw [hplus]
    exact Bytes.contains_eq_false List.mem_cons_self (hfree hb)
  rw [evaluate, hliteral, hoperator]
  dsimp only
  rw [hcut]
  dsimp only
  rw [honce, trim_quoted, trim_quoted, Operand.resolve_quoted, Operand.resolve_quoted]
  rfl

end Expression

/-! ## What is stored -/

namespace Value

theorem ofResult?_quoted (s : Bytes) : ofResult? (Term.quoted s).text = some (.text s) := by
  have hdigits : Decimal.isDigits (Term.quoted s).text = false := rfl
  have hquoted : unquote? (Term.quoted s).text = some s := unquote?_eq_some_iff.mpr rfl
  rw [ofResult?, hdigits, hquoted]
  rfl

/-- A text without quotes is stored as it is unless it is digits. -/
theorem ofResult?_of_not_isDigits {s : Bytes} (h : ¬ Decimal.isDigits s = true)
    (hquote : 0x22 ∉ s) : ofResult? s = some (.text s) := by
  have hunquoted : unquote? s = none := by
    rw [Option.eq_none_iff_forall_ne_some]
    intro inside hinside
    rw [unquote?_eq_some_iff.mp hinside] at hquote
    exact hquote List.mem_cons_self
  rw [ofResult?, if_neg h, hunquoted]
  rfl

theorem fits_value_iff (s : Bytes) :
    Arithmetic.Fits (Decimal.value s : Int) ↔ Decimal.value s < 2 ^ 63 := by
  rw [Arithmetic.Fits]
  omega

/-- Digits that a word can hold are stored as a number, whose natural form is the shortest. -/
theorem ofResult?_of_isDigits {s : Bytes} (h : Decimal.isDigits s = true)
    (hfits : Decimal.value s < 2 ^ 63) :
    ofResult? s = some (.integer (Int64.ofInt (Decimal.value s))) ∧
      (integer (Int64.ofInt (Decimal.value s))).natural = Decimal.shortest s := by
  have hreads : Decimal.Reads s (Decimal.value s) := ⟨.unsigned h, (fits_value_iff s).mpr hfits⟩
  have hall : s.all Decimal.isDigit = true := by
    rw [Decimal.isDigits, Bool.and_eq_true] at h
    exact h.2
  constructor
  · rw [ofResult?, if_pos h, hreads.read?_eq]
    rfl
  · rw [natural, Decimal.ofInt64, Arithmetic.toInt_ofInt hreads.2, Decimal.ofInt,
      if_neg (by omega), Int.natAbs_natCast, Decimal.ofNat_value hall]

theorem ofResult?_eq_none {s : Bytes} (h : Decimal.isDigits s = true)
    (hlarge : 2 ^ 63 ≤ Decimal.value s) : ofResult? s = none := by
  have hread : Decimal.read? s = none := by
    rw [Decimal.read?_eq_none_iff]
    rintro n ⟨hdenotes, hfits⟩
    have hvalue := Decimal.readInt?_eq_some_iff.mpr hdenotes
    rw [Decimal.readInt?_eq_some_iff.mpr (.unsigned h)] at hvalue
    obtain rfl := Option.some.inj hvalue
    have hsmall := (fits_value_iff s).mp hfits
    omega
  rw [ofResult?, if_pos h, hread]
  rfl

end Value

/-! ## Storing -/

/-- The place of a line lets it store the name. -/
def Storable (d : Dialect) (sect : Bytes) (vars : Table Value) (name : Bytes) : Prop :=
  d.restrictsDefinitions = true → vars.Defines name ∨ sect = dataSection

/-- The line stores the value and, what observers are told aside, does nothing else. -/
structure Holds (name : Bytes) (v : Value) (st : State) (o : Outcome Unit) : Prop where
  done : o.1 = .ok ()
  state : o.2.Unobserved Eq { st with vars := st.vars.insert name v }

/-- The text is printed as a line, or nothing is done if the output takes no more. -/
structure Prints (text : Bytes) (st : State) (o : Outcome Unit) : Prop where
  taken : ∀ output, st.output.write? (text ++ Bytes.newline) = some output →
    o.1 = .ok () ∧ o.2.Unobserved Eq { st with output }
  refused : st.output.write? (text ++ Bytes.newline) = none →
    o.1 = .error .refused ∧ o.2.Unobserved Eq st

theorem Holds.vars {name : Bytes} {v : Value} {st : State} {o : Outcome Unit}
    (h : Holds name v st o) : o.2.vars = st.vars.insert name v := h.state.vars

theorem Holds.output {name : Bytes} {v : Value} {st : State} {o : Outcome Unit}
    (h : Holds name v st o) : o.2.output = st.output := h.state.output

theorem Prints.text_eq {text : Bytes} {st : State} {o : Outcome Unit} (h : Prints text st o)
    (hbudget : st.output.budget = none) :
    o.1 = .ok () ∧ o.2.output.text = st.output.text ++ (text ++ Bytes.newline) := by
  have hwrite : st.output.write? (text ++ Bytes.newline) =
      some { st.output with writes := st.output.writes.push (text ++ Bytes.newline) } := by
    simp [Output.write?, hbudget]
  obtain ⟨hdone, hstate⟩ := h.taken _ hwrite
  refine ⟨hdone, ?_⟩
  rw [hstate.output]
  simp [Output.text]

namespace Machine

section Assign

variable {setup : Setup} {sect name expr line : Bytes} {st : State}
  (call : Bytes → State → Outcome Unit)

theorem assigned_of_storable {result : Bytes} {v : Value}
    (hplace : Storable setup.dialect sect st.vars name)
    (heval : Expression.evaluate setup.dialect st.vars expr = .ok result)
    (hvalue : Value.ofResult? result = some v) : assigned setup sect name expr st.vars = .ok v := by
  rw [assigned, heval]
  dsimp only
  rw [hvalue]
  dsimp only
  rw [if_neg]
  simp only [Bool.and_eq_true, Option.isNone_iff_eq_none, bne_iff_ne, ne_eq, not_and,
    Decidable.not_not]
  rintro ⟨hrestricts, hnone⟩
  refine (hplace hrestricts).resolve_left ?_
  rw [Table.Defines, hnone]
  simp

/-- A line that assigns what is not the marker does with the text what the assignment does. -/
theorem perform_of_assigned (hon : (Form.assign name expr).On line) (hmarker : expr ≠ ascii "%")
    {v : Value} (hvalue : assigned setup sect name expr st.vars = .ok v) :
    Holds name v st (perform setup call sect line st) := by
  have hassigned : assigned setup sect name expr
      (st.heard setup (.assign name expr) line).vars = .ok v := hvalue
  rw [perform_assign hon, assign_of_ne_marker _ _ _ hmarker, assignText, hassigned]
  exact ⟨rfl, rfl, rfl, rfl, rfl, rfl, rfl⟩

theorem perform_of_unassigned (hon : (Form.assign name expr).On line) (hmarker : expr ≠ ascii "%")
    {c : Cause} (hcause : assigned setup sect name expr st.vars = .error c) :
    (perform setup call sect line st).1 = .error (.ofCause c) ∧
      (perform setup call sect line st).2.Unobserved Eq st := by
  have hunassigned : assigned setup sect name expr
      (st.heard setup (.assign name expr) line).vars = .error c := hcause
  rw [perform_assign hon, assign_of_ne_marker _ _ _ hmarker, assignText, hunassigned]
  exact ⟨rfl, rfl, rfl, rfl, rfl, rfl, rfl⟩

end Assign

/-! ## Printing -/

section Print

variable {setup : Setup} {sect line name text : Bytes} {st : State}
  (call : Bytes → State → Outcome Unit)

theorem perform_printVar (hon : (Form.printVar name).On line) :
    perform setup call sect line st =
      print (.leaf .varName name) (st.heard setup (.printVar name) line) := by
  rw [perform, (Steps.printVar hon).step_eq]
  rcases print _ _ with ⟨f | _, after⟩ <;> rfl

theorem perform_printText (hon : (Form.printText text).On line) :
    perform setup call sect line st =
      print (.leaf .quoted text) (st.heard setup (.printText text) line) := by
  rw [perform, (Steps.printText hon).step_eq]
  rcases print _ _ with ⟨f | _, after⟩ <;> rfl

theorem printed_var {vars : Table Value} {v : Value} (h : vars.find? name = some v) :
    printed vars (.leaf .varName name) = .ok v.natural := by
  simp [printed, Node.token, Node.data?, fetch, h]

theorem print_eq {arg : Node} (h : printed st.vars arg = .ok text) (events : List Event) :
    print arg (st.note events) =
      ((st.output.write? (text ++ Bytes.newline)).elim (.error .refused) fun _ => .ok (),
        { st.note events with
          output := (st.output.write? (text ++ Bytes.newline)).getD st.output }) := by
  have hprinted : printed (st.note events).vars arg = .ok text := h
  have houtput : (st.note events).output = st.output := rfl
  rw [print, hprinted]
  dsimp only
  rw [houtput]
  cases st.output.write? (text ++ Bytes.newline) <;> rfl

theorem print_prints {arg : Node} (h : printed st.vars arg = .ok text) (events : List Event) :
    Prints text st (print arg (st.note events)) := by
  rw [print_eq h]
  constructor
  · intro output hwrite
    rw [hwrite]
    exact ⟨rfl, rfl, rfl, rfl, rfl, rfl, rfl⟩
  · intro hwrite
    rw [hwrite]
    exact ⟨rfl, rfl, rfl, rfl, rfl, rfl, rfl⟩

/-- Only the text counts, not what it was taken from. -/
theorem print_alike {arg arg' : Node} (h : printed st.vars arg = .ok text)
    (h' : printed st.vars arg' = .ok text) (events events' : List Event) :
    (print arg (st.note events)).1 = (print arg' (st.note events')).1 ∧
      (print arg (st.note events)).2.Unobserved Eq (print arg' (st.note events')).2 := by
  rw [print_eq h, print_eq h']
  exact ⟨rfl, rfl, rfl, rfl, rfl, rfl, rfl⟩

/-- The line prints a variable that is defined in its natural form. -/
theorem perform_print_defined {v : Value} (hfind : st.vars.find? (Bytes.trimRight name) = some v) :
    Prints v.natural st (perform setup call sect (Phrase.printVar name).render st) := by
  rw [perform_printVar call (Form.printVar_on_trimRight name)]
  exact print_prints (printed_var hfind) _

theorem perform_print_quoted (text : Bytes) :
    Prints text st (perform setup call sect (Phrase.printText text).render st) := by
  rw [perform_printText call (Form.printText_on text)]
  exact print_prints rfl _

/-- The variable is printed as if its natural form stood in the line. -/
theorem perform_print_alike {v : Value} (hfind : st.vars.find? (Bytes.trimRight name) = some v) :
    let shown := perform setup call sect (Phrase.printVar name).render st
    let literal := perform setup call sect (Phrase.printText v.natural).render st
    shown.1 = literal.1 ∧ shown.2.Unobserved Eq literal.2 := by
  intro shown literal
  have hshown : shown = print (.leaf .varName (Bytes.trimRight name)) _ :=
    perform_printVar call (Form.printVar_on_trimRight name)
  have hliteral : literal = print (.leaf .quoted v.natural) _ :=
    perform_printText call (Form.printText_on v.natural)
  rw [hshown, hliteral]
  exact print_alike (printed_var hfind) rfl _ _

end Print

/-! ## Storing and printing -/

section Named

variable {setup : Setup} {sect name : Bytes} {st : State} (call : Bytes → State → Outcome Unit)
  (hname : Nameable name)
include hname

theorem perform_assignment {expr result : Bytes} {v : Value} (htrim : Bytes.trim expr = expr)
    (hmarker : expr ≠ ascii "%") (hplace : Storable setup.dialect sect st.vars name)
    (heval : Expression.evaluate setup.dialect st.vars expr = .ok result)
    (hvalue : Value.ofResult? result = some v) :
    Holds name v st (perform setup call sect (assignment name expr) st) :=
  perform_of_assigned call (Form.assign_on_assignment hname htrim) hmarker
    (assigned_of_storable hplace heval hvalue)

theorem find?_of_holds {v : Value} {o : Outcome Unit} (h : Holds name v st o) :
    o.2.vars.find? (Bytes.trimRight name) = some v := by
  rw [((Bytes.trim_eq_self_iff name).mp hname.trimmed).2, h.vars, Table.find?_insert_self]

/-- What a line has stored, the next can print. -/
theorem perform_print_held {v : Value} {o : Outcome Unit} (h : Holds name v st o) :
    Prints v.natural o.2 (perform setup call sect (Phrase.printVar name).render o.2) :=
  perform_print_defined call (find?_of_holds hname h)

end Named

end Machine

/-- A text in quotes that holds none is stored as it is and printed as if it stood in the line that
prints. Two such texts joined are printed one behind the other unless digits are all they hold:
these are printed without leading zeros if a word can hold the number, and else are not stored. -/
theorem quoted_verbatim (setup : Setup) (fuel : Nat) (sect name : Bytes) (hname : Nameable name)
    (st : State) (hplace : Storable setup.dialect sect st.vars name) :
    let execute := fun line st => (Task.statement sect line).outcome setup fuel st
    (∀ lit, 0x22 ∉ lit →
      let stored := execute (assignment name (Term.quoted lit).text) st
      let shown := execute (Phrase.printVar name).render stored.2
      let literal := execute (Phrase.printText lit).render stored.2
      Holds name (.text lit) st stored ∧ Prints lit stored.2 shown ∧ Prints lit stored.2 literal ∧
        shown.1 = literal.1 ∧ shown.2.Unobserved Eq literal.2) ∧
    ∀ a b, 0x22 ∉ a ++ b → 0x2B ∉ a ++ b →
      let stored := execute (assignment name (junction a b)) st
      let shown := execute (Phrase.printVar name).render stored.2
      (¬ Decimal.isDigits (a ++ b) = true →
        Holds name (.text (a ++ b)) st stored ∧ Prints (a ++ b) stored.2 shown) ∧
      (Decimal.isDigits (a ++ b) = true → Decimal.value (a ++ b) < 2 ^ 63 →
        Holds name (.integer (Int64.ofInt (Decimal.value (a ++ b)))) st stored ∧
        Prints (Decimal.shortest (a ++ b)) stored.2 shown) ∧
      (Decimal.isDigits (a ++ b) = true → 2 ^ 63 ≤ Decimal.value (a ++ b) →
        stored.1 = .error (.ofCause (.arithmetic .overflow)) ∧
        (Cause.arithmetic .overflow).message = ascii "Integer overflow" ∧
        stored.2.Unobserved Eq st) := by
  simp only [Task.outcome]
  generalize Machine.invoke setup fuel = call
  refine ⟨fun lit hlit => ?_, fun a b hquote hplus => ?_⟩
  · have hmarker : (Term.quoted lit).text ≠ ascii "%" := by simp [Term.text, ascii]
    have hstored := Machine.perform_assignment call hname (trim_quoted lit) hmarker hplace
      (Expression.evaluate_quoted setup.dialect st.vars hlit) (Value.ofResult?_quoted lit)
    refine ⟨hstored, Machine.perform_print_held call hname hstored,
      Machine.perform_print_quoted call lit, ?_⟩
    exact Machine.perform_print_alike (v := .text lit) call (Machine.find?_of_holds hname hstored)
  · rw [List.mem_append, not_or] at hquote hplus
    have hmarker : junction a b ≠ ascii "%" := by simp [junction_eq, Term.text, ascii]
    have htrim : Bytes.trim (junction a b) = junction a b := by rw [junction_eq, trim_quoted]
    have heval := Expression.evaluate_junction setup.dialect st.vars hplus.1 hplus.2
    have hstores : ∀ {v : Value}, Value.ofResult? (a ++ b) = some v →
        Holds name v st (Machine.perform setup call sect (assignment name (junction a b)) st) :=
      Machine.perform_assignment call hname htrim hmarker hplace heval
    refine ⟨fun hdigits => ?_, fun hdigits hfits => ?_, fun hdigits hlarge => ?_⟩
    · have hstored := hstores (Value.ofResult?_of_not_isDigits hdigits (by simp [hquote]))
      exact ⟨hstored, Machine.perform_print_held call hname hstored⟩
    · obtain ⟨hvalue, hnatural⟩ := Value.ofResult?_of_isDigits hdigits hfits
      have hstored := hstores hvalue
      rw [← hnatural]
      exact ⟨hstored, Machine.perform_print_held call hname hstored⟩
    · have hcause : Machine.assigned setup sect name (junction a b) st.vars =
          .error (.arithmetic .overflow) := by
        rw [Machine.assigned, heval]
        dsimp only
        rw [Value.ofResult?_eq_none hdigits hlarge]
      obtain ⟨hfault, hstate⟩ := Machine.perform_of_unassigned call
        (Form.assign_on_assignment hname htrim) hmarker hcause
      exact ⟨hfault, by decide, hstate⟩

/-- The line is executed in the section `data` of Timballo. -/
def declaring (line : Bytes) (st : State) : Outcome Unit :=
  (Task.statement dataSection line).outcome { dialect := .timballo } 0 st

/-- What ends a name, operators, sigils, blanks and a byte that is no character. -/
def oddities : Bytes := ascii " =1 + % $a b * @x " ++ [0xFF]

/-- The digits of the second junction make a number that is one too large for a word. -/
theorem quoted_verbatim_declared :
    let name := ascii "a b"
    ∃ stored shown literal joined number large,
      declaring (assignment name (Term.quoted oddities).text) {} = stored ∧
      declaring (Phrase.printVar name).render stored.2 = shown ∧
      declaring (Phrase.printText oddities).render stored.2 = literal ∧
      declaring (assignment name (junction (ascii "00") (ascii "7"))) {} = joined ∧
      declaring (Phrase.printVar name).render joined.2 = number ∧
      declaring (assignment name (junction (ascii "922337203685477580") (ascii "8"))) {} = large ∧
      Nameable name ∧ Storable .timballo dataSection .empty name ∧
      stored.1 = .ok () ∧ stored.2.vars.find? name = some (.text oddities) ∧
      shown.2.output.text = oddities ++ Bytes.newline ∧ shown.2.output = literal.2.output ∧
      joined.1 = .ok () ∧ number.2.output.text = ascii "7\n" ∧
      large.1 = .error (.ofCause (.arithmetic .overflow)) ∧ large.2.vars = .empty := by
  intro name
  have hname : Nameable name := ⟨by decide, by decide, by decide⟩
  have hplace : Storable .timballo dataSection .empty name := fun _ => Or.inr rfl
  obtain ⟨hquoted, hjoins⟩ :=
    quoted_verbatim { dialect := .timballo } 0 dataSection name hname {} hplace
  have hstored := hquoted oddities (by decide)
  have hjoined := (hjoins (ascii "00") (ascii "7") (by decide) (by decide)).2.1
    (by decide) (by decide)
  have hlarge := (hjoins (ascii "922337203685477580") (ascii "8") (by decide) (by decide)).2.2
    (by decide) (by decide)
  dsimp only at hstored hjoined hlarge
  rw [← declaring, ← declaring, ← declaring] at hstored
  rw [← declaring, ← declaring] at hjoined
  rw [← declaring] at hlarge
  -- Otherwise the runs would be evaluated again by the terms below.
  generalize declaring (assignment name (Term.quoted oddities).text) {} = stored at hstored
  generalize declaring (assignment name (junction (ascii "00") (ascii "7"))) {} = joined at hjoined
  generalize declaring (assignment name (junction (ascii "922337203685477580") (ascii "8"))) {} =
    large at hlarge
  obtain ⟨hholds, hshown, -, -, halike⟩ := hstored
  have htext := hshown.text_eq (by rw [hholds.output])
  have hnumber := hjoined.2.text_eq (by rw [hjoined.1.output])
  rw [hholds.output] at htext
  rw [hjoined.1.output] at hnumber
  refine ⟨stored, _, _, joined, _, large, rfl, rfl, rfl, rfl, rfl, rfl, hname, hplace, hholds.done,
    ?_, htext.2, halike.output, hjoined.1.done, hnumber.2, hlarge.1, hlarge.2.2.vars⟩
  rw [hholds.vars, Table.find?_insert_self]

end SectScript
