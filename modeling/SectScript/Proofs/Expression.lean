import SectScript.Proofs.Machine.Natural
import SectScript.Proofs.Number
import SectScript.Proofs.Statement.Comparison

/-!
# Operations between variables

An operation between two variables is a text: its operator has to be found, the variables are known
by their natural forms, and the result is a text again. `Operator.result` says what the operation
ought to give in the integers. What is evaluated is its decimal, or the error that it names; texts
that are no numbers are joined by `+` and refused by the other operators.
-/

namespace SectScript

/-! ## Operations on the integers -/

namespace Operator

/-- The operation on the integers, division being floored. -/
def integer (op : Operator) (m n : Int) : Int :=
  match op with
  | add => m + n
  | sub => m - n
  | mul => m * n
  | div => m.fdiv n
  | mod => m.fmod n

/-- The true result, if there is one and a word can hold it. -/
def result (op : Operator) (m n : Int) : Except ArithError Int :=
  if (op = div ∨ op = mod) ∧ n = 0 then .error .divisionByZero
  else if Arithmetic.Fits (op.integer m n) then .ok (op.integer m n)
  else .error .overflow

theorem map_result {op : Operator} {m n : Int} (h : ¬ ((op = div ∨ op = mod) ∧ n = 0)) :
    (op.result m n).map Int64.ofInt = Arithmetic.word (op.integer m n) := by
  rw [result, if_neg h, Arithmetic.word]
  split <;> rfl

theorem fits_of_result {op : Operator} {m n k : Int} (h : op.result m n = .ok k) :
    Arithmetic.Fits k := by
  rw [result] at h
  split at h
  · cases h
  · split at h
    case isTrue hfits =>
      obtain rfl := Except.ok.inj h
      exact hfits
    case isFalse => cases h

/-- The operations on words are those on the integers. -/
theorem apply_eq_result (op : Operator) (a b : Int64) :
    op.apply a b = (op.result a.toInt b.toInt).map Int64.ofInt := by
  have hzero : b.toInt = 0 ↔ b = 0 := ⟨fun h => Int64.toInt_inj.mp h, fun h => by rw [h]; rfl⟩
  cases op with
  | add => rw [map_result (by simp), apply, Arithmetic.add_eq, integer]
  | sub => rw [map_result (by simp), apply, Arithmetic.sub_eq, integer]
  | mul => rw [map_result (by simp), apply, Arithmetic.mul_eq, integer]
  | div =>
    by_cases hb : b = 0
    · rw [(div_by_zero_iff a b).mpr hb, result, if_pos ⟨Or.inl rfl, hzero.mpr hb⟩]
      rfl
    · rw [map_result (by simp [hzero, hb]), apply, Arithmetic.div_eq hb, integer]
  | mod =>
    by_cases hb : b = 0
    · rw [(mod_by_zero_iff a b).mpr hb, result, if_pos ⟨Or.inr rfl, hzero.mpr hb⟩]
      rfl
    · have hfits := Arithmetic.fits_fmod (mt hzero.mp hb) (Arithmetic.fits_toInt b) a.toInt
      rw [map_result (by simp [hzero, hb]), apply, Arithmetic.mod_eq hb, integer, Arithmetic.word,
        if_pos hfits]

end Operator

/-! ## Operations between variables -/

/-- The bytes that operators are made of. -/
def operatorBytes : Bytes := ascii "+-*/%"

/-- A name that can stand on a side of an operator. -/
structure Referable (name : Bytes) : Prop where
  trimmed : Bytes.trim name = name
  free : ∀ b ∈ operatorBytes, b ∉ name

/-- Two variables with an operator between them, and the blanks around it. -/
structure Operation where
  left : Bytes
  before : Bytes
  op : Operator
  behind : Bytes
  right : Bytes

/-- The left variable with the blanks behind it. -/
def Operation.front (o : Operation) : Bytes := (Term.var o.left).text ++ o.before

/-- The right variable with the blanks before it. -/
def Operation.back (o : Operation) : Bytes := o.behind ++ (Term.var o.right).text

def Operation.text (o : Operation) : Bytes := o.front ++ (o.op.symbol ++ o.back)

structure Operation.Proper (o : Operation) : Prop where
  left : Referable o.left
  right : Referable o.right
  before : Bytes.Gap o.before
  behind : Bytes.Gap o.behind

theorem Operator.symbol_byte (op : Operator) : ∃ c ∈ operatorBytes, op.symbol = [c] := by
  cases op
  · exact ⟨0x2B, by decide, rfl⟩
  · exact ⟨0x2D, by decide, rfl⟩
  · exact ⟨0x2A, by decide, rfl⟩
  · exact ⟨0x2F, by decide, rfl⟩
  · exact ⟨0x25, by decide, rfl⟩

theorem Operator.symbol_injective {op other : Operator} (h : op.symbol = other.symbol) :
    op = other := by
  revert h
  cases op <;> cases other <;> decide

theorem trim_var {name : Bytes} (h : Bytes.trim name = name) :
    Bytes.trim (Term.var name).text = (Term.var name).text :=
  @Bytes.trim_cons_eq_self 0x24 (by decide) name ((Bytes.trim_eq_self_iff name).mp h).2

namespace Operation

variable {o : Operation} (ho : o.Proper)
include ho

theorem trim_front : Bytes.trim o.front = (Term.var o.left).text := by
  rw [front, Bytes.trim_append_gap ho.before, trim_var ho.left.trimmed]

theorem trim_back : Bytes.trim o.back = (Term.var o.right).text := by
  rw [back, Bytes.trim_gap_append ho.behind, trim_var ho.right.trimmed]

theorem trim_text : Bytes.trim o.text = o.text := by
  have hright := ((Bytes.trim_eq_self_iff o.right).mp ho.right.trimmed).2
  have hline : o.text =
      0x24 :: ((o.left ++ o.before ++ o.op.symbol ++ o.behind) ++ 0x24 :: o.right) := by
    simp [text, front, back, Term.text, sigil, ascii]
  rw [hline, Bytes.trim_cons_of_solid (by decide), Bytes.trimRight_append_cons_of_solid (by decide),
    hright]

/-- No operator stands on either side. -/
theorem sides_free {c : UInt8} (hc : c ∈ operatorBytes) : c ∉ o.front ∧ c ∉ o.back := by
  have hsigil : ∀ c ∈ operatorBytes, c ∉ sigil := by decide +kernel
  have hblank : ∀ c ∈ operatorBytes, Bytes.isBlank₁ c = false := by decide +kernel
  have hgap : ∀ {gap : Bytes}, Bytes.Gap gap → c ∉ gap := by
    intro gap h hmem
    have hyes := h c hmem
    rw [hblank c hc] at hyes
    cases hyes
  simp only [front, back, Term.text, List.mem_append, not_or]
  exact ⟨⟨⟨hsigil c hc, ho.left.free c hc⟩, hgap ho.before⟩, hgap ho.behind, hsigil c hc,
    ho.right.free c hc⟩

theorem contains_symbol (op : Operator) :
    Bytes.contains op.symbol o.text = decide (op = o.op) := by
  by_cases h : op = o.op
  · rw [h, decide_eq_true rfl]
    exact Bytes.contains_append _ _ _
  · obtain ⟨c, hc, hsymbol⟩ := op.symbol_byte
    obtain ⟨c', hc', hsymbol'⟩ := o.op.symbol_byte
    obtain ⟨hfront, hback⟩ := sides_free ho hc
    have hother : c ≠ c' := by
      rintro rfl
      exact h (Operator.symbol_injective (hsymbol.trans hsymbol'.symm))
    rw [decide_eq_false h, hsymbol]
    refine Bytes.contains_eq_false List.mem_cons_self ?_
    rw [text, hsymbol']
    simp [hfront, hback, hother]

theorem operator?_text : Expression.operator? o.text = some o.op := by
  -- The search goes by priority, but there is one operator only to be found.
  have hfind : Expression.operator? o.text = Operator.all.find? fun op => decide (op = o.op) := by
    simp only [Expression.operator?, contains_symbol ho]
  rw [hfind]
  cases o.op <;> rfl

theorem cut_text : Bytes.cut o.op.symbol o.text = some (o.front, o.back) := by
  obtain ⟨c, hc, hsymbol⟩ := o.op.symbol_byte
  rw [text, hsymbol]
  exact Bytes.cut_append (sides_free ho hc).1 o.back

theorem not_contains_back : Bytes.contains o.op.symbol o.back = false := by
  obtain ⟨c, hc, hsymbol⟩ := o.op.symbol_byte
  rw [hsymbol]
  exact Bytes.contains_eq_false List.mem_cons_self (sides_free ho hc).2

end Operation

/-! ## Operands -/

/-- A variable stands for what its natural form reads as. -/
theorem Operand.resolve_var (d : Dialect) {vars : Table Value} {name : Bytes} {v : Value}
    (h : vars.find? name = some v) :
    resolve d vars (Term.var name).text = .ok (ofText v.natural) := by
  have hne : ((Term.var name).text == []) = false := rfl
  have hname : sigil.isPrefixOf? (Term.var name).text = some name :=
    Bytes.isPrefixOf?_append sigil name
  rw [ofText_natural, resolve, hne, hname]
  dsimp only
  rw [h]
  cases v <;> rfl

theorem Operand.ofText_of_reads {s : Bytes} {n : Int} (h : Decimal.Reads s n) :
    ofText s = number s (Int64.ofInt n) := by
  rw [ofText, h.read?_eq]

theorem Operand.ofText_of_not_reads {s : Bytes} (h : ∀ n, ¬ Decimal.Reads s n) :
    ofText s = text s := by
  rw [ofText, Decimal.read?_eq_none_iff.mpr h]

namespace Expression

theorem evaluate_operation {o : Operation} (ho : o.Proper) (d : Dialect) {vars : Table Value}
    {v w : Value} (hv : vars.find? o.left = some v) (hw : vars.find? o.right = some w) :
    evaluate d vars o.text =
      apply o.text o.op (.ofText v.natural) (.ofText w.natural) := by
  have hquoted : isQuotedLiteral o.text = false := rfl
  rw [evaluate, hquoted, Operation.operator?_text ho]
  dsimp only
  rw [Operation.cut_text ho]
  dsimp only
  rw [Operation.not_contains_back ho, Operation.trim_front ho, Operation.trim_back ho,
    Operand.resolve_var d hv, Operand.resolve_var d hw]
  rfl

theorem apply_numbers {s t : Bytes} {m n : Int} (hs : Decimal.Reads s m) (ht : Decimal.Reads t n)
    (expr : Bytes) (op : Operator) :
    apply expr op (.ofText s) (.ofText t) =
      match op.result m n with
      | .ok k => .ok (Decimal.ofInt k)
      | .error why => .error (.invalidExpression expr (some why)) := by
  have hresult := op.apply_eq_result (Int64.ofInt m) (Int64.ofInt n)
  rw [Arithmetic.toInt_ofInt hs.2, Arithmetic.toInt_ofInt ht.2] at hresult
  rw [Operand.ofText_of_reads hs, Operand.ofText_of_reads ht]
  simp only [apply, Operand.signed, hresult]
  cases hr : op.result m n with
  | error why => rfl
  | ok k =>
    have hk := Arithmetic.toInt_ofInt (Operator.fits_of_result hr)
    simp only [Except.map, Decimal.ofInt64, hk]

theorem apply_texts {s t : Bytes}
    (h : ¬ ∃ m n, Decimal.Reads s m ∧ Decimal.Reads t n) (expr : Bytes) (op : Operator) :
    apply expr op (.ofText s) (.ofText t) =
      if op = .add then .ok (s ++ t) else .error (.invalidExpression expr none) := by
  by_cases hs : ∃ m, Decimal.Reads s m
  · obtain ⟨m, hs⟩ := hs
    have ht : ∀ n, ¬ Decimal.Reads t n := fun n ht => h ⟨m, n, hs, ht⟩
    rw [Operand.ofText_of_reads hs, Operand.ofText_of_not_reads ht]
    simp [apply, Operand.signed]
  · rw [not_exists] at hs
    rw [Operand.ofText_of_not_reads hs]
    by_cases ht : ∃ n, Decimal.Reads t n
    · obtain ⟨n, ht⟩ := ht
      rw [Operand.ofText_of_reads ht]
      simp [apply, Operand.signed]
    · rw [not_exists] at ht
      rw [Operand.ofText_of_not_reads ht]
      simp [apply, Operand.signed]

end Expression

end SectScript
