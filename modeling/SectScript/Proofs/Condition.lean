import SectScript.Condition
import SectScript.Proofs.Number
import SectScript.Proofs.Statement.Form
import SectScript.Proofs.Text.Order

/-!
# Comparisons

Which order a comparison goes by depends on the pair: that of numbers if both texts are digits, that
of bytes otherwise. The six operators still agree with each other on all operands, and `==` is an
equivalence, because it says that the texts are the same or are digits of the same number. On
numbers that variables hold the operators are those of the integers, but for two negative ones,
which are ordered as texts.
-/

namespace SectScript

/-! ## Operators -/

namespace Comparison

/-- What the operator says of two elements of an order. -/
def Between {α : Type} [LT α] [LE α] (a b : α) : Comparison → Prop
  | eq => a = b
  | ne => a ≠ b
  | ge => b ≤ a
  | le => a ≤ b
  | lt => a < b
  | gt => b < a

instance {α : Type} [LT α] [LE α] [DecidableEq α] [DecidableLT α] [DecidableLE α] (a b : α)
    (rel : Comparison) : Decidable (rel.Between a b) :=
  match rel with
  | eq => inferInstanceAs (Decidable (a = b))
  | ne => inferInstanceAs (Decidable (a ≠ b))
  | ge => inferInstanceAs (Decidable (b ≤ a))
  | le => inferInstanceAs (Decidable (a ≤ b))
  | lt => inferInstanceAs (Decidable (a < b))
  | gt => inferInstanceAs (Decidable (b < a))

/-- The operator holds between operands that compare so. -/
def admits (rel : Comparison) (o : Ordering) : Bool := (Condition.relates? rel.token o).getD false

theorem relates?_token (rel : Comparison) (o : Ordering) :
    Condition.relates? rel.token o = some (rel.admits o) := by
  cases rel <;> rfl

theorem admits_compare {α : Type} [Ord α] [LT α] [LE α] [Std.LawfulOrderOrd α]
    [Std.LawfulOrderLT α] [Std.LawfulEqOrd α] (rel : Comparison) (a b : α) :
    rel.admits (compare a b) = true ↔ rel.Between a b := by
  cases rel with
  | eq => exact beq_iff_eq.trans Std.compare_eq_iff_eq
  | ne => exact bne_iff_ne.trans (not_congr Std.compare_eq_iff_eq)
  | ge => exact bne_iff_ne.trans (Ordering.isGE_iff_ne_lt.symm.trans Std.isGE_compare)
  | le => exact bne_iff_ne.trans (Ordering.isLE_iff_ne_gt.symm.trans Std.isLE_compare)
  | lt => exact beq_iff_eq.trans Std.compare_eq_lt
  | gt => exact beq_iff_eq.trans Std.compare_eq_gt

theorem admits_one (o : Ordering) :
    lt.admits o = true ∧ ¬ eq.admits o = true ∧ ¬ gt.admits o = true ∨
      ¬ lt.admits o = true ∧ eq.admits o = true ∧ ¬ gt.admits o = true ∨
      ¬ lt.admits o = true ∧ ¬ eq.admits o = true ∧ gt.admits o = true := by
  cases o <;> decide

theorem admits_opposite (o : Ordering) :
    ne.admits o = !eq.admits o ∧ ge.admits o = !lt.admits o ∧ le.admits o = !gt.admits o := by
  cases o <;> decide

theorem admits_swap (o : Ordering) :
    gt.admits o.swap = lt.admits o ∧ ge.admits o.swap = le.admits o ∧
      eq.admits o.swap = eq.admits o := by
  cases o <;> decide

end Comparison

namespace Condition

open Decimal

/-! ## Texts -/

theorem compareTexts_of_isDigits {a b : Bytes} (ha : isDigits a = true) (hb : isDigits b = true) :
    compareTexts a b = compare (value a) (value b) := by
  have hall := ha
  have hall' := hb
  rw [isDigits, Bool.and_eq_true] at hall hall'
  rw [compareTexts, ha, hb]
  exact compareDigits_eq hall.2 hall'.2

theorem compareTexts_of_not_isDigits {a b : Bytes} (h : ¬ (isDigits a = true ∧ isDigits b = true)) :
    compareTexts a b = compare a b := by
  rw [compareTexts, if_neg]
  simpa using h

theorem compareTexts_swap (a b : Bytes) : compareTexts b a = (compareTexts a b).swap := by
  by_cases h : isDigits a = true ∧ isDigits b = true
  · rw [compareTexts_of_isDigits h.1 h.2, compareTexts_of_isDigits h.2 h.1]
    exact Std.OrientedCmp.eq_swap
  · rw [compareTexts_of_not_isDigits h, compareTexts_of_not_isDigits fun h' => h h'.symm]
    exact Std.OrientedCmp.eq_swap

/-- Equal texts are the same, or digits of the same number. -/
theorem compareTexts_eq_iff {a b : Bytes} : compareTexts a b = .eq ↔
    a = b ∨ isDigits a = true ∧ isDigits b = true ∧ value a = value b := by
  by_cases h : isDigits a = true ∧ isDigits b = true
  · rw [compareTexts_of_isDigits h.1 h.2, Std.compare_eq_iff_eq]
    constructor
    · exact fun hvalue => Or.inr ⟨h.1, h.2, hvalue⟩
    · rintro (rfl | ⟨_, _, hvalue⟩)
      · rfl
      · exact hvalue
  · rw [compareTexts_of_not_isDigits h, Std.compare_eq_iff_eq]
    constructor
    · exact Or.inl
    · rintro (hsame | ⟨ha, hb, _⟩)
      · exact hsame
      · exact absurd ⟨ha, hb⟩ h

theorem compareTexts_eq_trans {a b c : Bytes} (h : compareTexts a b = .eq)
    (h' : compareTexts b c = .eq) : compareTexts a c = .eq := by
  -- Digits equal digits only, so both steps go by the same order or one of them is trivial.
  rw [compareTexts_eq_iff] at *
  rcases h with rfl | ⟨ha, hb, hvalue⟩
  · exact h'
  · rcases h' with rfl | ⟨_, hc, hvalue'⟩
    · exact Or.inr ⟨ha, hb, hvalue⟩
    · exact Or.inr ⟨ha, hc, hvalue.trans hvalue'⟩

/-! ## Written numbers -/

theorem compareTexts_ofInt_neg {m n : Int} (hm : m < 0) :
    compareTexts (ofInt m) (ofInt n) = compare (ofInt m) (ofInt n) := by
  apply compareTexts_of_not_isDigits
  rw [isDigits_ofInt, decide_eq_true_eq]
  omega

theorem compareTexts_ofInt_of_neg_of_nonneg {m n : Int} (hm : m < 0) (hn : 0 ≤ n) :
    compareTexts (ofInt m) (ofInt n) = .lt := by
  have hdigits : isDigits (ofInt n) = true := by rw [isDigits_ofInt, decide_eq_true hn]
  have hminus : ofInt m = 0x2D :: ofNat m.natAbs := if_pos hm
  rw [compareTexts_ofInt_neg hm, hminus]
  exact compare_minus hdigits

/-- Decimals are in the order of their numbers, unless both are negative. -/
theorem compareTexts_ofInt {m n : Int} (h : 0 ≤ m ∨ 0 ≤ n) :
    compareTexts (ofInt m) (ofInt n) = compare m n := by
  by_cases hm : 0 ≤ m
  · by_cases hn : 0 ≤ n
    · have hm' := value_ofInt hm
      have hn' := value_ofInt hn
      rw [compareTexts_of_isDigits (by simpa [isDigits_ofInt] using hm)
        (by simpa [isDigits_ofInt] using hn)]
      exact compare_congr (by omega) (by omega)
    · rw [compareTexts_swap, compareTexts_ofInt_of_neg_of_nonneg (by omega) hm]
      exact (Std.compare_eq_gt.mpr (by omega)).symm
  · rw [compareTexts_ofInt_of_neg_of_nonneg (by omega) (by omega)]
    exact (Std.compare_eq_lt.mpr (by omega)).symm

/-! ## Operands -/

/-- The operand has a text: it is no variable without a value. -/
def Resolves (vars : Table Value) (n : Node) : Prop := ∃ s, operandText vars n = .ok s

theorem operandText_var {vars : Table Value} {name : Bytes} {v : Value}
    (h : vars.find? name = some v) : operandText vars (Term.var name).node = .ok v.natural := by
  simp [operandText, Term.node, Node.token, Node.data?, fetch, h]

theorem holds_eq {vars : Table Value} {l r : Node} {a b : Bytes}
    (hl : operandText vars l = .ok a) (hr : operandText vars r = .ok b) (rel : Comparison) :
    holds vars (.inner rel.token [l, r]) = .ok (rel.admits (compareTexts a b)) := by
  simp only [holds, Node.operands, Node.token, hl, hr, Comparison.relates?_token]

/-- The comparison comes out true. -/
def Says (vars : Table Value) (rel : Comparison) (l r : Node) : Prop :=
  holds vars (.inner rel.token [l, r]) = .ok true

theorem says_iff {vars : Table Value} {l r : Node} {a b : Bytes}
    (hl : operandText vars l = .ok a) (hr : operandText vars r = .ok b) {rel : Comparison} :
    Says vars rel l r ↔ rel.admits (compareTexts a b) = true := by
  rw [Says, holds_eq hl hr, Except.ok.injEq]

/-- The six operators are consistent on all operands that have a text. Each comparison comes to a
result; just one of `<`, `==` and `>` holds; `!=`, `>=` and `<=` are the opposites of `==`, `<` and
`>`; exchanging the operands exchanges `<` with `>` and `<=` with `>=`; and `==` is an
equivalence. -/
theorem comparisons_consistent {vars : Table Value} {a b c : Node} (ha : Resolves vars a)
    (hb : Resolves vars b) (hc : Resolves vars c) :
    (∀ rel, Says vars rel a b ∨ holds vars (.inner (Comparison.token rel) [a, b]) = .ok false) ∧
    (Says vars .lt a b ∧ ¬ Says vars .eq a b ∧ ¬ Says vars .gt a b ∨
      ¬ Says vars .lt a b ∧ Says vars .eq a b ∧ ¬ Says vars .gt a b ∨
      ¬ Says vars .lt a b ∧ ¬ Says vars .eq a b ∧ Says vars .gt a b) ∧
    (Says vars .ne a b ↔ ¬ Says vars .eq a b) ∧
    (Says vars .ge a b ↔ ¬ Says vars .lt a b) ∧
    (Says vars .le a b ↔ ¬ Says vars .gt a b) ∧
    (Says vars .lt a b ↔ Says vars .gt b a) ∧
    (Says vars .le a b ↔ Says vars .ge b a) ∧
    Says vars .eq a a ∧
    (Says vars .eq a b → Says vars .eq b a) ∧
    (Says vars .eq a b → Says vars .eq b c → Says vars .eq a c) := by
  obtain ⟨s, ha⟩ := ha
  obtain ⟨t, hb⟩ := hb
  obtain ⟨u, hc⟩ := hc
  have hswap := compareTexts_swap s t
  have hself : compareTexts s s = .eq := compareTexts_eq_iff.mpr (Or.inl rfl)
  have htrans := @compareTexts_eq_trans s t u
  simp only [says_iff ha hb, says_iff hb ha, says_iff ha ha, says_iff hb hc, says_iff ha hc,
    holds_eq ha hb, hself, hswap]
  generalize compareTexts s t = o at htrans ⊢
  obtain ⟨hne, hge, hle⟩ := Comparison.admits_opposite o
  obtain ⟨hgt, hge', heq⟩ := Comparison.admits_swap o
  refine ⟨fun rel => ?_, Comparison.admits_one o, by simp [hne], by simp [hge], by simp [hle],
    by rw [hgt], by rw [hge'], rfl, by simp [heq], ?_⟩
  · cases rel.admits o <;> simp
  · intro h h'
    exact beq_iff_eq.mpr (htrans (beq_iff_eq.mp h) (beq_iff_eq.mp h'))

/-- A variable that holds 7, a bare word and a quoted text. -/
theorem comparisons_consistent_sevens :
    let vars := Table.empty.insert (ascii "x") (.integer 7)
    let x := (Term.var (ascii "x")).node
    let padded := (Term.bare (ascii "007")).node
    let word := (Term.quoted (ascii "7a")).node
    Resolves vars x ∧ Resolves vars padded ∧ Resolves vars word ∧
      Says vars .eq x padded ∧ Says vars .eq padded x ∧
      Says vars .lt padded word ∧ Says vars .gt word padded := by
  intro vars x padded word
  have hx : Resolves vars x := ⟨ascii "7", by decide +kernel⟩
  have hpadded : Resolves vars padded := ⟨ascii "007", rfl⟩
  have hword : Resolves vars word := ⟨ascii "7a", rfl⟩
  have hsame : Says vars .eq x padded := by
    unfold Says
    decide +kernel
  have hless : Says vars .lt padded word := by
    unfold Says
    decide +kernel
  obtain ⟨_, _, _, _, _, _, _, _, hsymm, _⟩ := comparisons_consistent hx hpadded hword
  obtain ⟨_, _, _, _, _, hdual, _⟩ := comparisons_consistent hpadded hword hx
  exact ⟨hx, hpadded, hword, hsame, hsymm hsame, hless, hdual.mp hless⟩

-- The order itself has cycles, since the pairs do not all go by the same one.
example : compareTexts (ascii "2") (ascii "10") = .lt ∧
    compareTexts (ascii "10") (ascii "1a") = .lt ∧
    compareTexts (ascii "1a") (ascii "2") = .lt := by decide +kernel

/-! ## Numbers -/

/-- A comparison goes by any order that the texts are compared in. -/
theorem holds_of_compareTexts {α : Type} [Ord α] [LT α] [LE α] [Std.LawfulOrderOrd α]
    [Std.LawfulOrderLT α] [Std.LawfulEqOrd α] [DecidableEq α] [DecidableLT α] [DecidableLE α]
    {vars : Table Value} {l r : Node} {a b : Bytes} (hl : operandText vars l = .ok a)
    (hr : operandText vars r = .ok b) {x y : α} (h : compareTexts a b = compare x y)
    (rel : Comparison) :
    holds vars (.inner rel.token [l, r]) = .ok (decide (rel.Between x y)) := by
  have hadmits : rel.admits (compare x y) = decide (rel.Between x y) := by
    rw [Bool.eq_iff_iff, Comparison.admits_compare, decide_eq_true_iff]
  rw [holds_eq hl hr, h, hadmits]

/-- Whether two numbers are the same shows in their decimals. -/
theorem between_ofInt_iff {rel : Comparison} (h : rel = .eq ∨ rel = .ne) {m n : Int} :
    rel.Between (ofInt m) (ofInt n) ↔ rel.Between m n := by
  have hsame : ofInt m = ofInt n ↔ m = n := ⟨ofInt_injective, congrArg ofInt⟩
  rcases h with rfl | rfl
  · exact hsame
  · exact not_congr hsame

section Written

variable {vars : Table Value} {l r : Node} {m n : Int} (hl : operandText vars l = .ok (ofInt m))
  (hr : operandText vars r = .ok (ofInt n)) {rel : Comparison}
include hl hr

theorem holds_of_neg (hm : m < 0) :
    holds vars (.inner rel.token [l, r]) = .ok (decide (rel.Between (ofInt m) (ofInt n))) :=
  holds_of_compareTexts hl hr (compareTexts_ofInt_neg hm) rel

theorem holds_ofInt (h : rel = .eq ∨ rel = .ne ∨ 0 ≤ m ∨ 0 ≤ n) :
    holds vars (.inner rel.token [l, r]) = .ok (decide (rel.Between m n)) := by
  by_cases hsigns : 0 ≤ m ∨ 0 ≤ n
  · exact holds_of_compareTexts hl hr (compareTexts_ofInt hsigns) rel
  · have hrel : rel = .eq ∨ rel = .ne := by tauto
    rw [holds_of_neg hl hr (by omega)]
    simp only [between_ofInt_iff hrel]

end Written

/-- Digits of any length compare as the numbers that they denote. An assignment stores a number that
is not negative as an integer and a negative one as text; between numbers stored so the operators
are those of the integers, but for the order of two negative ones, which is that of their
decimals as texts. -/
theorem numbers_compared (vars : Table Value) (rel : Comparison) :
    (∀ l r a b, operandText vars l = .ok a → operandText vars r = .ok b → isDigits a = true →
      isDigits b = true →
      holds vars (.inner rel.token [l, r]) = .ok (decide (rel.Between (value a) (value b)))) ∧
    (∀ n : Int64, Value.ofResult? (ofInt64 n) = some (.ofNumber n)) ∧
    ∀ x y (m n : Int64), vars.find? x = some (.ofNumber m) → vars.find? y = some (.ofNumber n) →
      (rel = .eq ∨ rel = .ne ∨ 0 ≤ m.toInt ∨ 0 ≤ n.toInt →
        holds vars (.inner rel.token [(Term.var x).node, (Term.var y).node]) =
          .ok (decide (rel.Between m.toInt n.toInt))) ∧
      (m.toInt < 0 → n.toInt < 0 →
        holds vars (.inner rel.token [(Term.var x).node, (Term.var y).node]) =
          .ok (decide (rel.Between (ofInt64 m) (ofInt64 n)))) := by
  refine ⟨?_, Value.ofResult?_ofInt64, ?_⟩
  · intro l r a b hl hr ha hb
    exact holds_of_compareTexts hl hr (compareTexts_of_isDigits ha hb) rel
  · intro x y m n hx hy
    have hl := operandText_var hx
    have hr := operandText_var hy
    rw [Value.natural_ofNumber] at hl hr
    exact ⟨holds_ofInt hl hr, fun hm _ => holds_of_neg hl hr hm⟩

/-- Two negative numbers, which are ordered as texts, beside one that is not negative. -/
theorem numbers_compared_negative :
    let vars := ((Table.empty.insert (ascii "x") (.text (ascii "-2"))).insert (ascii "y")
      (.text (ascii "-30"))).insert (ascii "z") (.integer 7)
    vars.find? (ascii "x") = some (.ofNumber (-2)) ∧
      vars.find? (ascii "y") = some (.ofNumber (-30)) ∧
      vars.find? (ascii "z") = some (.ofNumber 7) ∧
      holds vars (.inner .eq [(Term.bare (ascii "007")).node, (Term.var (ascii "z")).node]) =
        .ok true ∧
      holds vars (.inner .lt [(Term.var (ascii "x")).node, (Term.var (ascii "z")).node]) =
        .ok true ∧
      holds vars (.inner .lt [(Term.var (ascii "x")).node, (Term.var (ascii "y")).node]) =
        .ok true := by
  intro vars
  have hx : vars.find? (ascii "x") = some (.ofNumber (-2)) := by decide +kernel
  have hy : vars.find? (ascii "y") = some (.ofNumber (-30)) := by decide +kernel
  have hz : vars.find? (ascii "z") = some (.ofNumber 7) := by decide +kernel
  have hseven : operandText vars (Term.var (ascii "z")).node = .ok (ascii "7") := by decide +kernel
  obtain ⟨hdigits, -, -⟩ := numbers_compared vars .eq
  obtain ⟨-, -, hvars⟩ := numbers_compared vars .lt
  exact ⟨hx, hy, hz, hdigits _ _ (ascii "007") _ rfl hseven (by decide) (by decide),
    (hvars _ _ _ _ hx hz).1 (by decide), (hvars _ _ _ _ hx hy).2 (by decide) (by decide)⟩

end Condition

end SectScript
