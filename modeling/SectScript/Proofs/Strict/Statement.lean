import SectScript.Proofs.Statement.Comparison

/-!
# Reading a line within its bounds

To cut a piece out of a text and to look at one of its bytes have a meaning only within the text.
Here both are partial, `none` standing for what lies outside, and the reading of a line is given
once more over them: every piece is cut out by places that are computed. It has always a value, that
of `Statement.ofLine`; so no line makes it leave its bounds.
-/

namespace SectScript.Strict

/-- The bytes from place `i` up to place `j`. -/
def slice (s : Bytes) (i j : Nat) : Option Bytes :=
  if i ≤ j ∧ j ≤ s.length then some ((s.take j).drop i) else none

/-- All from place `i` on. -/
def behind (s : Bytes) (i : Nat) : Option Bytes := slice s i s.length

theorem behind_eq {s : Bytes} {i : Nat} (h : i ≤ s.length) : behind s i = some (s.drop i) := by
  rw [behind, slice, if_pos ⟨h, Nat.le_refl _⟩, List.take_length]

theorem slice_zero {s : Bytes} {j : Nat} (h : j ≤ s.length) : slice s 0 j = some (s.take j) := by
  rw [slice, if_pos ⟨Nat.zero_le j, h⟩, List.drop_zero]

/-- The byte at place `i` is blank. -/
def blankAt (s : Bytes) (i : Nat) : Option Bool := s[i]?.map Bytes.isBlankByte

/-- The text ends at place `i`, or goes on with a blank byte. -/
def endsAt (s : Bytes) (i : Nat) : Option Bool :=
  if i = s.length then some true else blankAt s i

theorem endsAt_append (w rest : Bytes) :
    endsAt (w ++ rest) w.length = some (rest.head?.all Bytes.isBlankByte) := by
  cases rest <;> simp [endsAt, blankAt]

/-! ## Words and quotes at the ends -/

/-- What follows the word at the front, if it is there. -/
def after (w s : Bytes) : Option (Option Bytes) :=
  if Bytes.startsWith w s then (behind s w.length).map some else some none

theorem after_eq (w s : Bytes) : after w s = some (w.isPrefixOf? s) := by
  rw [after, Bytes.startsWith, ← List.isSome_isPrefixOf?_eq_isPrefixOf]
  cases h : w.isPrefixOf? s with
  | none => rfl
  | some rest =>
    obtain rfl := List.append_eq_of_isPrefixOf?_eq_some h
    rw [behind_eq (by simp), List.drop_left]
    rfl

def hasKeyword (line word : Bytes) : Option Bool :=
  if Bytes.startsWith word line then endsAt line word.length else some false

theorem hasKeyword_eq (line word : Bytes) :
    hasKeyword line word = some (SectScript.hasKeyword line word) := by
  rw [hasKeyword]
  split
  case isTrue h =>
    obtain ⟨rest, rfl⟩ := Bytes.startsWith_iff.mp h
    rw [endsAt_append, hasKeyword_append]
  case isFalse h =>
    cases hk : SectScript.hasKeyword line word with
    | false => rfl
    | true => exact absurd (hasKeyword_startsWith hk) h

/-- The inside of a text with a double quote at both ends. -/
def unquote (s : Bytes) : Option (Option Bytes) :=
  if 2 ≤ s.length ∧ s.head? = some 0x22 ∧ s.getLast? = some 0x22 then
    (slice s 1 (s.length - 1)).map some
  else some none

theorem unquote_eq (s : Bytes) : unquote s = some (unquote? s) := by
  rw [unquote]
  cases h : unquote? s with
  | some inside =>
    obtain rfl := unquote?_eq_some_iff.mp h
    have hlast : (0x22 :: (inside ++ [0x22]) : Bytes).getLast? = some 0x22 := by
      rw [← List.cons_append, List.getLast?_concat]
    rw [if_pos ⟨by simp, rfl, hlast⟩]
    simp [slice]
  | none =>
    rw [if_neg]
    rintro ⟨hlength, hhead, hlast⟩
    obtain ⟨front, rfl⟩ := List.getLast?_eq_some_iff.mp hlast
    cases front with
    | nil => simp at hlength
    | cons b inside =>
      obtain rfl : b = 0x22 := by simpa using hhead
      rw [List.cons_append, unquote?_eq_some_iff.mpr rfl] at h
      cases h

/-! ## The search for `then` -/

/-- There is a byte in front of place `i` and it is blank. -/
def startsAt (s : Bytes) (i : Nat) : Option Bool :=
  if 0 < i then blankAt s (i - 1) else some false

theorem startsAt_append (front rest : Bytes) : startsAt (front ++ rest) front.length =
    some ((preceding none (front ++ rest) front.length).any Bytes.isBlankByte) := by
  rcases List.eq_nil_or_concat front with rfl | ⟨init, b, rfl⟩
  · rfl
  · simp [startsAt, blankAt, preceding]

/-- Looks for the word from place `off` on, and behind an occurrence that does not stand alone
again. -/
def seekThen (s : Bytes) : (fuel off : Nat) → Option (Option Nat)
  | 0, _ => none
  | fuel + 1, off =>
    if off < s.length then do
      let rest ← behind s off
      match Bytes.cut thenWord rest with
      | none => some none
      | some (ahead, _) =>
        let i := off + ahead.length
        let starts ← startsAt s i
        let ends ← endsAt s (i + thenWord.length)
        if starts && ends then some (some i) else seekThen s fuel (i + thenWord.length)
    else some none

def findThen (s : Bytes) : Option (Option Nat) := seekThen s (s.length + 1) 0

/-- The bytes around an occurrence tell whether it stands alone. -/
theorem around_eq (front rest : Bytes) : ∃ starts ends,
    startsAt (front ++ (thenWord ++ rest)) front.length = some starts ∧
      endsAt (front ++ (thenWord ++ rest)) (front.length + thenWord.length) = some ends ∧
      ((starts && ends) = true ↔ LoneAt none (front ++ (thenWord ++ rest)) front.length) := by
  refine ⟨_, rest.head?.all Bytes.isBlankByte, startsAt_append front (thenWord ++ rest), ?_, ?_⟩
  · rw [← List.append_assoc, ← List.length_append, endsAt_append]
  · rw [LoneAt, standsAlone, List.drop_left, hasKeyword_append]

/-- What a round does: it ends the search if no `then` is left and if the next one stands alone, and
else leaves the rest to a round that begins right behind it. -/
theorem seekThen_round {s : Bytes} {off : Nat} (hoff : off ≤ s.length) (fuel : Nat) :
    (∀ k, off ≤ k → ¬ ThenAt s k) ∧ seekThen s (fuel + 1) off = some none ∨
      ∃ i, FirstThen s off i ∧ seekThen s (fuel + 1) off =
        if LoneAt none s i then some (some i) else seekThen s fuel (i + thenWord.length) := by
  rw [seekThen]
  split
  case isFalse hend =>
    refine Or.inl ⟨fun k hk hthen => ?_, rfl⟩
    have hlength := hthen.add_length_le
    have hword : 0 < thenWord.length := by decide
    omega
  case isTrue =>
    rw [behind_eq hoff]
    simp only [Option.bind_eq_bind, Option.bind_some]
    cases hcut : Bytes.cut thenWord (s.drop off) with
    | none => exact Or.inl ⟨fun k => not_thenAt_of_cut_eq_none hcut, rfl⟩
    | some parts =>
      obtain ⟨ahead, rest⟩ := parts
      refine Or.inr ⟨off + ahead.length, firstThen_of_cut hcut, ?_⟩
      -- the text around the occurrence
      obtain ⟨front, hfront, hs⟩ : ∃ front : Bytes, off + ahead.length = front.length ∧
          s = front ++ (thenWord ++ rest) := by
        refine ⟨s.take off ++ ahead, ?_, ?_⟩
        · simp [hoff]
        · rw [List.append_assoc, ← Bytes.cut_eq_some hcut, List.take_append_drop]
      obtain ⟨starts, ends, hstarts, hends, hlone⟩ := around_eq front rest
      rw [← hs, ← hfront] at hstarts hends hlone
      simp only [hstarts, hends, Option.bind_some, hlone]

/-- A round that goes on leaves a whole word behind, so there are no more rounds than words have
room in the text. -/
theorem seekThen_eq {s : Bytes} {fuel off : Nat} (hoff : off ≤ s.length)
    (enough : s.length < off + thenWord.length * fuel) :
    seekThen s fuel off = some (findThenFrom s off) := by
  induction fuel generalizing off with
  | zero => omega
  | succ fuel ih =>
    rcases seekThen_round hoff fuel with ⟨hnone, hround⟩ | ⟨i, hfirst, hround⟩
    · rw [hround, findThenFrom_eq_none_iff.mpr fun k hk lone => hnone k hk lone.thenAt]
    · have hle : off ≤ i := hfirst.1.1
      rw [hround]
      split
      case isTrue lone =>
        rw [findThenFrom_eq_some_iff.mpr ⟨⟨hle, lone⟩, ?_⟩]
        rintro m hm ⟨hoff', lone'⟩
        exact hfirst.2 m hm ⟨hoff', lone'.thenAt⟩
      case isFalse hlone =>
        rw [Nat.mul_succ] at enough
        rw [ih hfirst.1.2.add_length_le (by omega), hfirst.findThenFrom_eq hlone]

theorem findThen_eq (s : Bytes) : findThen s = some (SectScript.findThen s) := by
  have hword : 1 ≤ thenWord.length := by decide
  have hroom := Nat.mul_le_mul_right (s.length + 1) hword
  rw [findThen, seekThen_eq (Nat.zero_le _) (by omega), findThenFrom_zero]

/-! ## Statements -/

def ofOperand (s : Bytes) : Option Node := do
  match ← after sigil s with
  | some name => some (.leaf .varName name)
  | none =>
    match ← unquote s with
    | some inside => some (.leaf .quoted inside)
    | none => some (.leaf .bare s)

theorem ofOperand_eq (s : Bytes) : ofOperand s = some (Node.ofOperand s) := by
  rw [ofOperand, Node.ofOperand, after_eq, unquote_eq]
  cases sigil.isPrefixOf? s with
  | some name => rfl
  | none => cases unquote? s <;> rfl

def ofCondition (text : Bytes) : Option (Except Cause Node) :=
  match Node.relations.find? fun rel => Bytes.contains rel.name text with
  | none => some (.error (.malformedCondition text))
  | some rel =>
    match Bytes.cut rel.name text with
    | none => some (.error (.malformedCondition text))
    | some (left, right) =>
      if Bytes.contains rel.name right then some (.error (.malformedCondition text))
      else if Bytes.trim left == [] || Bytes.trim right == [] then
        some (.error (.malformedCondition text))
      else do
        let left ← ofOperand (Bytes.trim left)
        let right ← ofOperand (Bytes.trim right)
        some (.ok (.inner rel [left, right]))

theorem ofCondition_eq (text : Bytes) : ofCondition text = some (Node.ofCondition text) := by
  rw [ofCondition, Node.ofCondition]
  cases Node.relations.find? fun rel => Bytes.contains rel.name text with
  | none => rfl
  | some rel =>
    dsimp only
    cases Bytes.cut rel.name text with
    | none => rfl
    | some parts =>
      simp only [ofOperand_eq, Option.bind_eq_bind, Option.bind_some, apply_ite some]

def ofPrint (line rest : Bytes) : Option (Except Cause Statement) :=
  let arg := Bytes.trim rest
  if arg == [] then some (.error .missingPrintArgument)
  else do
    match ← after sigil arg with
    | some name => some (.ok ⟨.print, line, [.leaf .varName name]⟩)
    | none =>
      match ← unquote arg with
      | some inside => some (.ok ⟨.print, line, [.leaf .quoted inside]⟩)
      | none => some (.error .badPrintArgument)

theorem ofPrint_eq (line rest : Bytes) :
    ofPrint line rest = some (Statement.ofPrint line rest) := by
  rw [ofPrint, Statement.ofPrint, after_eq, unquote_eq]
  split
  · rfl
  · cases sigil.isPrefixOf? (Bytes.trim rest) with
    | some name => rfl
    | none => cases unquote? (Bytes.trim rest) <;> rfl

def ofIf (line rest : Bytes) : Option (Except Cause Statement) := do
  match ← findThen rest with
  | none => some (.error (.malformedCondition (Bytes.trim rest)))
  | some i =>
    let text ← slice rest 0 i
    let consequent ← behind rest (i + thenWord.length)
    if Bytes.trim consequent == [] then some (.error .missingConsequent)
    else
      match ← ofCondition (Bytes.trim text) with
      | .error c => some (.error c)
      | .ok condition =>
        some (.ok ⟨.cond, line, [condition, .leaf .stmtText (Bytes.trim consequent)]⟩)

theorem ofIf_eq (line rest : Bytes) : ofIf line rest = some (Statement.ofIf line rest) := by
  rw [ofIf, Statement.ofIf, findThen_eq]
  simp only [Option.bind_eq_bind, Option.bind_some]
  cases hthen : SectScript.findThen rest with
  | none => rfl
  | some i =>
    have hle := findThen_add_length_le hthen
    simp only [slice_zero (show i ≤ rest.length by omega), behind_eq hle, ofCondition_eq,
      Option.bind_some]
    split
    · rfl
    · cases Node.ofCondition (Bytes.trim (rest.take i)) <;> rfl

def callee (line : Bytes) : Option (Option Bytes) := do
  match ← after (ascii "@") line with
  | some rest => some (if Bytes.trim rest == [] then none else some (Bytes.trim rest))
  | none => some none

theorem callee_eq (line : Bytes) : callee line = some (Statement.callee? line) := by
  rw [callee, Statement.callee?, after_eq]
  cases (ascii "@").isPrefixOf? line <;> rfl

def ofTrimmed (line : Bytes) : Option (Except Cause Statement) :=
  if Bytes.startsWith (ascii "--") line then some (.ok ⟨.comment, line, []⟩)
  else do
    let prints ← hasKeyword line printWord
    if prints then
      let rest ← behind line printWord.length
      ofPrint line rest
    else if isAssignment line then
      let rest ← behind line sigil.length
      some (Statement.ofAssignment line rest)
    else
      match ← callee line with
      | some name => some (.ok ⟨.call, line, [.leaf .sectName name]⟩)
      | none =>
        let asks ← hasKeyword line ifWord
        if asks && Bytes.contains thenWord line then
          let rest ← behind line ifWord.length
          ofIf line rest
        else
          let exits ← hasKeyword line exitWord
          some (if exits then .ok ⟨.exit, line, []⟩ else .error .unrecognized)

theorem ofTrimmed_eq (line : Bytes) : ofTrimmed line = some (Statement.ofTrimmed line) := by
  rw [ofTrimmed, Statement.ofTrimmed]
  simp only [hasKeyword_eq, callee_eq, Option.bind_eq_bind, Option.bind_some]
  split
  · rfl
  split
  case isTrue h => rw [behind_eq (hasKeyword_length h), Option.bind_some, ofPrint_eq]
  split
  case isTrue h =>
    rw [isAssignment, Bool.and_eq_true, Bytes.startsWith_iff] at h
    obtain ⟨⟨rest, rfl⟩, _⟩ := h
    rw [behind_eq (by simp), Option.bind_some]
  cases Statement.callee? line with
  | some name => rfl
  | none =>
    dsimp only
    split
    case isTrue h =>
      rw [Bool.and_eq_true] at h
      rw [behind_eq (hasKeyword_length h.1), Option.bind_some, ofIf_eq]
    case isFalse => rfl

def ofLine (line : Bytes) : Option (Except Cause Statement) := ofTrimmed (Bytes.trim line)

theorem ofLine_eq (line : Bytes) : ofLine line = some (Statement.ofLine line) :=
  ofTrimmed_eq (Bytes.trim line)

end SectScript.Strict
