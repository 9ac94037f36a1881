import SectScript.Proofs.Expression
import SectScript.Proofs.Machine.Inlining
import SectScript.Proofs.Statement.RoundTrip
import SectScript.Proofs.Statement.Within

/-!
# Chains of computations

A chain of assignments, each of an operation between two variables, computes what the same chain
computes in the integers. The numbers are held in the table by their natural forms: a negative one
is text between two assignments and a number again in the next.
-/

namespace SectScript

/-- Numbers that variables are known to hold. -/
def Numbers := Bytes → Option Int

namespace Numbers

def set (env : Numbers) (name : Bytes) (n : Int) : Numbers :=
  fun other => if other = name then some n else env other

/-- The variables hold the numbers, as integers or as texts. -/
def HeldIn (env : Numbers) (vars : Table Value) : Prop :=
  ∀ name n, env name = some n → ∃ v, vars.find? name = some v ∧ Decimal.Reads v.natural n

theorem HeldIn.set {env : Numbers} {vars : Table Value} (h : env.HeldIn vars) (name : Bytes)
    {n : Int} {v : Value} (hv : Decimal.Reads v.natural n) :
    (env.set name n).HeldIn (vars.insert name v) := by
  intro other k hk
  rw [Table.find?_insert]
  by_cases hname : other = name
  · obtain rfl : n = k := by simpa [Numbers.set, hname] using hk
    exact ⟨v, if_pos hname, hv⟩
  · rw [if_neg hname]
    exact h other k (by simpa [Numbers.set, hname] using hk)

end Numbers

/-- The assignment of an operation between two variables. -/
structure Computation where
  target : Bytes
  operation : Operation

namespace Computation

structure Proper (c : Computation) : Prop where
  target : Nameable c.target
  operation : c.operation.Proper

/-- The line of the assignment. -/
def line (c : Computation) : Bytes := (Phrase.assign c.target c.operation.text).render

/-- The numbers after the assignment, unless an operand is not known or there is no result. -/
def next? (c : Computation) (env : Numbers) : Option Numbers :=
  match env c.operation.left, env c.operation.right with
  | some m, some n => (c.operation.op.result m n).toOption.map (env.set c.target)
  | _, _ => none

/-- The numbers after a chain of assignments. -/
def chain? : List Computation → Numbers → Option Numbers
  | [], env => some env
  | c :: cs, env => (c.next? env).bind (chain? cs)

theorem next?_eq_some {c : Computation} {env env' : Numbers} (h : c.next? env = some env') :
    ∃ m n k, env c.operation.left = some m ∧ env c.operation.right = some n ∧
      c.operation.op.result m n = .ok k ∧ env' = env.set c.target k := by
  rw [next?] at h
  split at h
  case h_1 m n hm hn =>
    cases hresult : c.operation.op.result m n with
    | error why =>
      rw [hresult] at h
      cases h
    | ok k =>
      rw [hresult] at h
      exact ⟨m, n, k, hm, hn, hresult, (Option.some.inj h).symm⟩
  case h_2 => cases h

theorem Proper.assign_on {c : Computation} (h : c.Proper) :
    (Form.assign c.target c.operation.text).On c.line :=
  Form.assign_on ⟨h.target.ne_nil, h.target.trimmed, h.target.no_equals,
    Operation.trim_text h.operation⟩

end Computation

namespace Machine

variable {setup : Setup} {sect : Bytes}
  (hplace : setup.dialect.restrictsDefinitions = true → sect = dataSection)
include hplace

/-- One assignment keeps the numbers held. -/
theorem assigned_computation {c : Computation} (hc : c.Proper) {env env' : Numbers}
    (hnext : c.next? env = some env') {vars : Table Value} (hheld : env.HeldIn vars) :
    ∃ v, assigned setup sect c.target c.operation.text vars = .ok v ∧
      env'.HeldIn (vars.insert c.target v) := by
  obtain ⟨m, n, k, hm, hn, hresult, rfl⟩ := Computation.next?_eq_some hnext
  obtain ⟨v, hv, hm⟩ := hheld _ _ hm
  obtain ⟨w, hw, hn⟩ := hheld _ _ hn
  have hfits := Operator.fits_of_result hresult
  have heval : Expression.evaluate setup.dialect vars c.operation.text = .ok (Decimal.ofInt k) := by
    rw [Expression.evaluate_operation hc.operation _ hv hw, Expression.apply_numbers hm hn, hresult]
  refine ⟨.ofNumber (Int64.ofInt k), ?_, hheld.set _ (Value.reads_ofNumber hfits)⟩
  rw [assigned, heval]
  dsimp only
  rw [Value.ofResult?_ofInt hfits]
  dsimp only
  -- The place allows a definition, so it does not matter whether this is one.
  rw [if_neg]
  simp only [Bool.and_eq_true, bne_iff_ne, not_and, Decidable.not_not]
  exact fun hrestricts => hplace hrestricts.1

theorem runLine_computation (call : Bytes → State → Outcome Unit) {c : Computation}
    (hc : c.Proper) {l : SourceLine} (hl : l.text = c.line) {env env' : Numbers}
    (hnext : c.next? env = some env') {st : State} (hst : st.Quiet) (hheld : env.HeldIn st.vars) :
    ∃ after, runLine setup call sect l st = (.ok (), after) ∧ after.Quiet ∧
      env'.HeldIn after.vars := by
  have hon : (Form.assign c.target c.operation.text).On l.text := hl ▸ hc.assign_on
  have hcounted := hst.counted setup sect l
  have hheard := hcounted.quiet.note (setup.watch.understood
    ((Form.assign c.target c.operation.text).statement (Bytes.trim l.text)))
  have hvars := (hheard.trans hcounted).vars
  obtain ⟨v, hv, hheld'⟩ := assigned_computation hplace hc hnext hheld
  rw [← hvars] at hv hheld'
  refine ⟨_, ?_, (hheard.quiet.sameWork.store setup.watch setup.watch c.target v).quiet, hheld'⟩
  -- The text begins with a sigil, so it does not ask for input.
  have hmarker : (c.operation.text == ascii "%") = false := rfl
  rw [runLine_eq, enter, if_neg hst.not_held, (Steps.assign hon).step_eq, State.heard, assign,
    hmarker, assignText, hv]
  rfl

/-- A chain of assignments computes what it computes in the integers. -/
theorem runLines_computations (call : Bytes → State → Outcome Unit) {cs : List Computation}
    (hcs : ∀ c ∈ cs, c.Proper) {ls : List SourceLine}
    (hls : ls.map SourceLine.text = cs.map Computation.line) {env env' : Numbers}
    (hchain : Computation.chain? cs env = some env') {st : State} (hst : st.Quiet)
    (hheld : env.HeldIn st.vars) :
    ∃ after, runLines setup call sect ls st = (.ok (), after) ∧ env'.HeldIn after.vars := by
  induction cs generalizing ls env st with
  | nil =>
    obtain rfl := List.map_eq_nil_iff.mp hls
    obtain rfl := Option.some.inj hchain
    exact ⟨st, rfl, hheld⟩
  | cons c cs ih =>
    obtain ⟨l, ls, rfl, hl, hls⟩ := List.map_eq_cons_iff.mp hls
    obtain ⟨mid, hnext, hrest⟩ := Option.bind_eq_some_iff.mp hchain
    obtain ⟨after, hline, hquiet, hheld⟩ := runLine_computation hplace call
      (hcs c List.mem_cons_self) hl hnext hst hheld
    rw [runLines, hline]
    exact ih (fun c hc => hcs c (List.mem_cons_of_mem _ hc)) hls hrest hquiet hheld

end Machine

/-- Arithmetic through variables is exact. If the natural forms of two variables read as numbers, an
operation between them gives the decimal of the true result, or is invalid with the reason that
there is none; otherwise `+` joins the natural forms and the other operators are invalid. A number
that is stored is the same number to the next operation, so a chain of assignments computes what it
computes in the integers. -/
theorem arithmetic_exact (d : Dialect) :
    (∀ (vars : Table Value) (o : Operation) (v w : Value), o.Proper →
      vars.find? o.left = some v → vars.find? o.right = some w →
      (∀ m n, Decimal.Reads v.natural m → Decimal.Reads w.natural n →
        Expression.evaluate d vars o.text =
          match o.op.result m n with
          | .ok k => .ok (Decimal.ofInt k)
          | .error why => .error (.invalidExpression o.text (some why))) ∧
      ((¬ ∃ m n, Decimal.Reads v.natural m ∧ Decimal.Reads w.natural n) →
        Expression.evaluate d vars o.text =
          if o.op = .add then .ok (v.natural ++ w.natural)
          else .error (.invalidExpression o.text none))) ∧
    (∀ n : Int64, ∃ v, Value.ofResult? (Decimal.ofInt64 n) = some v ∧
      ∀ (vars : Table Value) (x : Bytes),
        Operand.resolve d (vars.insert x v) (Term.var x).text =
          .ok (.number (Decimal.ofInt64 n) n)) ∧
    (∀ (setup : Setup) (sect : Bytes) (call : Bytes → State → Outcome Unit)
      (cs : List Computation) (ls : List SourceLine) (env env' : Numbers) (st : State),
      setup.dialect = d → (d.restrictsDefinitions = true → sect = dataSection) →
      (∀ c ∈ cs, c.Proper) → ls.map SourceLine.text = cs.map Computation.line → st.Quiet →
      env.HeldIn st.vars → Computation.chain? cs env = some env' →
      ∃ after, Machine.runLines setup call sect ls st = (.ok (), after) ∧
        env'.HeldIn after.vars) ∧
    (∀ text why, (Cause.invalidExpression text (some why)).message =
      ascii "Invalid expression '" ++ text ++ ascii "': " ++ why.message) ∧
    (∀ text, (Cause.invalidExpression text none).message =
      ascii "Invalid expression '" ++ text ++ ascii "'") ∧
    ArithError.overflow.message = ascii "Integer overflow" ∧
    ArithError.divisionByZero.message = ascii "Division by 0" := by
  refine ⟨?_, ?_, ?_, fun _ _ => rfl, fun _ => rfl, rfl, rfl⟩
  · intro vars o v w ho hv hw
    rw [Expression.evaluate_operation ho d hv hw]
    exact ⟨fun m n hm hn => Expression.apply_numbers hm hn _ _,
      fun hnot => Expression.apply_texts hnot _ _⟩
  · intro n
    refine ⟨.ofNumber n, Value.ofResult?_ofInt64 n, fun vars x => ?_⟩
    rw [Operand.resolve_var d (Table.find?_insert_self vars x _), Value.natural_ofNumber,
      Operand.ofText, Decimal.read?_ofInt64]
  · rintro setup sect call cs ls env env' st rfl hplace hcs hls hst hheld hchain
    exact Machine.runLines_computations hplace call hcs hls hchain hst hheld

/-- A quotient that is negative, and then its product with a negative number. -/
def signChanges : List Computation :=
  [⟨ascii "z", ⟨ascii "x", [], .div, ascii " ", ascii "y"⟩⟩,
    ⟨ascii "z", ⟨ascii "z", ascii " ", .mul, ascii " ", ascii "x"⟩⟩]

theorem arithmetic_exact_signChanges :
    let vars := (Table.empty.insert (ascii "x") (.text (ascii "-7"))).insert (ascii "y")
      (.integer 2)
    let ls : List SourceLine := [⟨3, ascii "$z = $x/ $y"⟩, ⟨4, ascii "$z = $z * $x"⟩]
    let setup : Setup := { dialect := .timballo }
    Decimal.Reads (ascii "-7") (-7) ∧ Decimal.Reads (ascii "2") 2 ∧
      Expression.evaluate .timballo vars (ascii "$x/ $y") = .ok (ascii "-4") ∧
      ∃ after v, Machine.runLines setup (Machine.invoke setup 0) dataSection ls
          { vars := vars } = (.ok (), after) ∧
        after.vars.find? (ascii "z") = some v ∧ Decimal.Reads v.natural 28 := by
  intro vars ls setup
  have hx : Decimal.Reads (ascii "-7") (-7) := ⟨.minus (s := ascii "7") rfl, by decide⟩
  have hy : Decimal.Reads (ascii "2") 2 := ⟨.unsigned (s := ascii "2") rfl, by decide⟩
  have hvx : vars.find? (ascii "x") = some (.text (ascii "-7")) := by decide +kernel
  have hvy : vars.find? (ascii "y") = some (.integer 2) := by decide +kernel
  have hproper : ∀ c ∈ signChanges, c.Proper := by
    have htarget : Nameable (ascii "z") := ⟨by decide, by decide, by decide⟩
    have hrefx : Referable (ascii "x") := ⟨by decide, by decide +kernel⟩
    have hrefy : Referable (ascii "y") := ⟨by decide, by decide +kernel⟩
    have hrefz : Referable (ascii "z") := ⟨by decide, by decide +kernel⟩
    have hempty : Bytes.Gap [] := by decide +kernel
    have hspace : Bytes.Gap (ascii " ") := by decide +kernel
    intro c hc
    rcases List.mem_cons.mp hc with rfl | hc
    · exact ⟨htarget, hrefx, hrefy, hempty, hspace⟩
    · obtain rfl := List.mem_singleton.mp hc
      exact ⟨htarget, hrefz, hrefx, hspace, hspace⟩
  let env : Numbers := fun name =>
    if name = ascii "x" then some (-7) else if name = ascii "y" then some 2 else none
  have hheld : env.HeldIn vars := by
    intro name n hn
    by_cases hname : name = ascii "x"
    · subst hname
      obtain rfl : -7 = n := Option.some.inj hn
      exact ⟨_, hvx, hx⟩
    · by_cases hname' : name = ascii "y"
      · subst hname'
        obtain rfl : 2 = n := Option.some.inj hn
        exact ⟨_, hvy, hy⟩
      · simp [env, hname, hname'] at hn
  obtain ⟨hone, -, hchain, -⟩ := arithmetic_exact .timballo
  obtain ⟨after, hrun, hafter⟩ := hchain setup dataSection (Machine.invoke setup 0) signChanges ls
    env _ { vars := vars } rfl (fun _ => rfl) hproper (by decide +kernel) ⟨rfl, by simp, trivial⟩
    hheld rfl
  obtain ⟨v, hv, hreads⟩ := hafter (ascii "z") 28 rfl
  have hoperation := (hone vars _ _ _ (hproper _ List.mem_cons_self).operation hvx hvy).1 _ _ hx hy
  exact ⟨hx, hy, hoperation, after, v, hrun, hv, hreads⟩

end SectScript
