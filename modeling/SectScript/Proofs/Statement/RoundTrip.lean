import SectScript.Proofs.Statement.Phrase

/-!
# Reading undoes rendering

The line of each kind of phrase is a statement of its form (`comment_on` to `cond_on`). By induction
on the phrase, reading the line gives it back, however deep the consequents nest.
-/

namespace SectScript

theorem trim_quoted (s : Bytes) : Bytes.trim (Term.quoted s).text = (Term.quoted s).text := by
  rw [Term.text, Bytes.trim_cons_of_solid (by decide), Bytes.trimRight_append_of_solid (by decide)]

theorem trim_printLine {arg : Bytes} (hne : arg ≠ []) (htrim : Bytes.trim arg = arg) :
    Bytes.trim (printWord ++ 0x20 :: arg) = printWord ++ 0x20 :: arg :=
  Bytes.trim_append_space_cons (by decide) (by decide) ((Bytes.trim_eq_self_iff arg).mp htrim).2 hne

theorem Statement.ofLine_print {arg : Bytes} (hne : arg ≠ []) (htrim : Bytes.trim arg = arg) :
    Statement.ofLine (printWord ++ 0x20 :: arg) =
      Statement.ofPrint (printWord ++ 0x20 :: arg) (0x20 :: arg) := by
  have hcomment : Bytes.startsWith (ascii "--") (printWord ++ 0x20 :: arg) = false := rfl
  have hprint : hasKeyword (printWord ++ 0x20 :: arg) printWord = true :=
    hasKeyword_iff.mpr (Or.inr ⟨0x20, arg, rfl, by decide⟩)
  rw [Statement.ofLine, trim_printLine hne htrim, Statement.ofTrimmed, hcomment, hprint,
    List.drop_left]
  rfl

/-- An assignment is cut at its first equals sign, and both parts are trimmed. -/
theorem Statement.ofLine_cut {front back : Bytes} (hfree : 0x3D ∉ front) :
    Statement.ofLine (sigil ++ (front ++ (ascii "=" ++ back))) =
      if Bytes.trim front = [] then .error .missingVariableName
      else .ok ((Form.assign (Bytes.trim front) (Bytes.trim (Bytes.trimRight back))).statement
        (Bytes.trim (sigil ++ (front ++ (ascii "=" ++ back))))) := by
  have htrim : Bytes.trim (sigil ++ (front ++ (ascii "=" ++ back))) =
      sigil ++ (front ++ (ascii "=" ++ Bytes.trimRight back)) := by
    have hline : sigil ++ (front ++ (ascii "=" ++ back)) = 0x24 :: (front ++ 0x3D :: back) := rfl
    rw [hline, Bytes.trim_cons_of_solid (by decide),
      Bytes.trimRight_append_cons_of_solid (by decide)]
    rfl
  have hassign : isAssignment (Bytes.trim (sigil ++ (front ++ (ascii "=" ++ back)))) = true := by
    rw [isAssignment, Bool.and_eq_true, htrim, Bytes.startsWith_iff, ← List.append_assoc sigil]
    exact ⟨⟨_, List.append_assoc _ _ _⟩, Bytes.contains_append _ _ _⟩
  have hcut : Bytes.cut (ascii "=") (front ++ (ascii "=" ++ Bytes.trimRight back)) =
      some (front, Bytes.trimRight back) := by
    have hbyte : ascii "=" = [0x3D] := by decide
    rw [hbyte]
    exact Bytes.cut_append hfree _
  rw [Statement.ofLine_eq_ofAssignment hassign, htrim, List.drop_left, Statement.ofAssignment, hcut]
  simp [Form.statement]

namespace Form

theorem comment_on {text : Bytes} (h : (Phrase.comment text).Proper) : comment.On text := by
  obtain ⟨htrim, s, rfl⟩ := h
  rw [On, Statement.ofLine, htrim, Statement.ofTrimmed,
    if_pos (Bytes.startsWith_iff.mpr ⟨s, rfl⟩)]
  rfl

theorem printVar_on {name : Bytes} (h : (Phrase.printVar name).Proper) :
    (printVar name).On (Phrase.printVar name).render := by
  have htrim : Bytes.trim (Term.var name).text = (Term.var name).text :=
    @Bytes.trim_cons_eq_self 0x24 (by decide) name h
  have hne : (Term.var name).text ≠ [] := by simp [Term.text, sigil, ascii]
  have hsigil : sigil.isPrefixOf? (Term.var name).text = some name :=
    Bytes.isPrefixOf?_append sigil name
  rw [On, Phrase.render, Statement.ofLine_print hne htrim, trim_printLine hne htrim,
    Statement.ofPrint, Bytes.trim_space_cons, htrim]
  rw [if_neg (by simpa using hne), hsigil]
  rfl

/-- What stands behind the sigil is trimmed on the right only. -/
theorem printVar_on_trimRight (name : Bytes) :
    (printVar (Bytes.trimRight name)).On (Phrase.printVar name).render := by
  have htrim : Bytes.trim (Phrase.printVar name).render =
      (Phrase.printVar (Bytes.trimRight name)).render := by
    have hline : (Phrase.printVar name).render = 0x70 :: (ascii "rint " ++ 0x24 :: name) := rfl
    rw [hline, Bytes.trim_cons_of_solid (by decide),
      Bytes.trimRight_append_cons_of_solid (by decide)]
    rfl
  have hon := printVar_on (Bytes.trimRight_trimRight name)
  rw [On, Statement.ofLine, ← htrim, Bytes.trim_trim] at hon
  exact hon

theorem printText_on (s : Bytes) : (printText s).On (Phrase.printText s).render := by
  have htrim := trim_quoted s
  have hne : (Term.quoted s).text ≠ [] := by simp [Term.text]
  have hsigil : sigil.isPrefixOf? (Term.quoted s).text = none := rfl
  have hquoted : unquote? (Term.quoted s).text = some s := unquote?_eq_some_iff.mpr rfl
  rw [On, Phrase.render, Statement.ofLine_print hne htrim, trim_printLine hne htrim,
    Statement.ofPrint, Bytes.trim_space_cons, htrim]
  rw [if_neg (by simpa using hne), hsigil]
  dsimp only
  rw [hquoted]
  rfl

theorem assign_on_cut {front back name expr : Bytes} (hfree : 0x3D ∉ front)
    (hname : Bytes.trim front = name) (hne : name ≠ [])
    (hexpr : Bytes.trim (Bytes.trimRight back) = expr) :
    (assign name expr).On (sigil ++ (front ++ (ascii "=" ++ back))) := by
  rw [On, Statement.ofLine_cut hfree, hname, if_neg hne, hexpr]

theorem assign_on {name expr : Bytes} (h : (Phrase.assign name expr).Proper) :
    (assign name expr).On (Phrase.assign name expr).render := by
  obtain ⟨hne, hname, hfree, hexpr⟩ := h
  have hline : (Phrase.assign name expr).render =
      sigil ++ ((name ++ [0x20]) ++ (ascii "=" ++ 0x20 :: expr)) := by
    simp [Phrase.render, sigil, ascii]
  rw [hline]
  apply assign_on_cut
  · simpa using hfree
  · rw [Bytes.trim_append_space, hname]
  · exact hne
  · exact Bytes.trim_trimRight_space_cons hexpr

theorem call_on {name : Bytes} (h : (Phrase.call name).Proper) :
    (call name).On (Phrase.call name).render := by
  obtain ⟨hne, hname⟩ := h
  have htrim : Bytes.trim (ascii "@" ++ name) = ascii "@" ++ name :=
    @Bytes.trim_cons_eq_self 0x40 (by decide) name ((Bytes.trim_eq_self_iff name).mp hname).2
  have hcomment : Bytes.startsWith (ascii "--") (ascii "@" ++ name) = false := rfl
  have hprint : hasKeyword (ascii "@" ++ name) printWord = false := rfl
  have hassign : isAssignment (ascii "@" ++ name) = false := rfl
  have hcallee : Statement.callee? (ascii "@" ++ name) = some name := by
    simp [Statement.callee?, Bytes.isPrefixOf?_append, hname, hne]
  rw [On, Phrase.render, Statement.ofLine, htrim, Statement.ofTrimmed, hcomment, hprint, hassign,
    hcallee]
  rfl

theorem exit_on : exit.On Phrase.exit.render := by
  have htrim : Bytes.trim exitWord = exitWord := by decide
  have hcallee : Statement.callee? exitWord = none := by decide
  have hif : hasKeyword exitWord ifWord = false := by decide
  have hexit : hasKeyword exitWord exitWord = true := by decide
  rw [On, Phrase.render, Statement.ofLine, htrim, Statement.ofTrimmed, hcallee, hif, hexit]
  rfl

end Form

/-- An `if` is cut at a `then` between blank bytes if there is none in front of it. -/
theorem Statement.ofIf_cut {line a t : Bytes} {b : UInt8} (hb : Bytes.isBlankByte b = true)
    (clear : ¬ HoldsThen (a ++ [b])) (ht : hasKeyword (thenWord ++ t) thenWord = true)
    (hne : Bytes.trim t ≠ []) :
    Statement.ofIf line (a ++ b :: (thenWord ++ t)) =
      (Node.ofCondition (Bytes.trim (a ++ [b]))).map fun condition =>
        ⟨.cond, line, [condition, .leaf .stmtText (Bytes.trim t)]⟩ := by
  have htake : (a ++ b :: (thenWord ++ t)).take (a.length + 1) = a ++ [b] := by
    rw [List.append_cons]
    exact List.take_left' (by simp)
  have hdrop : (a ++ b :: (thenWord ++ t)).drop (a.length + 1 + thenWord.length) = t := by
    rw [List.append_cons, ← List.append_assoc]
    exact List.drop_left' (by simp; omega)
  rw [Statement.ofIf, findThen_of_not_holdsThen hb clear ht]
  dsimp only
  rw [htake, hdrop, if_neg (by simpa using hne)]
  cases Node.ofCondition (Bytes.trim (a ++ [b])) <;> rfl

theorem Statement.ofIf_text {line consequent : Bytes} {rel : Comparison} {left right : Term}
    (hleft : left.Proper) (hright : right.Proper) (hl : Plain left.text) (hr : Plain right.text)
    (hthen : ¬ HoldsThen (0x20 :: (comparisonText rel left right ++ [0x20])))
    (hne : Bytes.trim consequent ≠ []) :
    Statement.ofIf line
        ((0x20 :: comparisonText rel left right) ++ 0x20 :: (thenWord ++ 0x20 :: consequent)) =
      .ok ((Form.cond rel left right (Bytes.trim consequent)).statement line) := by
  have hword : hasKeyword (thenWord ++ 0x20 :: consequent) thenWord = true :=
    hasKeyword_iff.mpr (Or.inr ⟨0x20, consequent, rfl, by decide⟩)
  rw [Statement.ofIf_cut (by decide) hthen hword (by rwa [Bytes.trim_space_cons]),
    Bytes.trim_space_cons, List.cons_append, Bytes.trim_space_cons, Bytes.trim_append_space,
    trim_comparisonText hl hr, Node.ofCondition_text hleft hright hl hr]
  rfl

theorem Phrase.render_solid {t : Phrase} (h : t.Proper) :
    ∃ a s, t.render = a :: s ∧ Bytes.isSolid a = true := by
  cases t with
  | comment text =>
    obtain ⟨_, s, rfl⟩ := h
    exact ⟨0x2D, _, rfl, by decide⟩
  | printVar name => exact ⟨0x70, _, rfl, by decide⟩
  | printText s => exact ⟨0x70, _, rfl, by decide⟩
  | assign name expr => exact ⟨0x24, _, rfl, by decide⟩
  | call name => exact ⟨0x40, _, rfl, by decide⟩
  | cond rel left right consequent => exact ⟨0x69, _, rfl, by decide⟩
  | exit => exact ⟨0x65, _, rfl, by decide⟩

theorem Statement.ofTrimmed_if {rest : Bytes}
    (h : Bytes.contains thenWord (ifWord ++ 0x20 :: rest) = true) :
    Statement.ofTrimmed (ifWord ++ 0x20 :: rest) =
      Statement.ofIf (ifWord ++ 0x20 :: rest) (0x20 :: rest) := by
  have hcomment : Bytes.startsWith (ascii "--") (ifWord ++ 0x20 :: rest) = false := rfl
  have hprint : hasKeyword (ifWord ++ 0x20 :: rest) printWord = false := rfl
  have hassign : isAssignment (ifWord ++ 0x20 :: rest) = false := rfl
  have hcallee : Statement.callee? (ifWord ++ 0x20 :: rest) = none := rfl
  have hif : hasKeyword (ifWord ++ 0x20 :: rest) ifWord = true :=
    hasKeyword_iff.mpr (Or.inr ⟨0x20, rest, rfl, by decide⟩)
  rw [Statement.ofTrimmed, hcomment, hprint, hassign, hcallee, hif, h, List.drop_left]
  rfl

theorem Form.cond_on {rel : Comparison} {left right : Term} {consequent : Phrase}
    (h : (Phrase.cond rel left right consequent).Proper) :
    (Form.cond rel left right (Bytes.trim consequent.render)).On
      (Phrase.cond rel left right consequent).render := by
  obtain ⟨hleft, hright, hl, hr, hthen, hconsequent⟩ := h
  obtain ⟨a, s, hrender, ha⟩ := Phrase.render_solid hconsequent
  have hinner : Bytes.trim consequent.render = a :: Bytes.trimRight s := by
    rw [hrender, Bytes.trim_cons_of_solid ha]
  -- trimming the line trims its consequent, which begins with a byte that is not blank
  have htrim : Bytes.trim (Phrase.cond rel left right consequent).render =
      ifWord ++ 0x20 :: (comparisonText rel left right ++
        0x20 :: (thenWord ++ 0x20 :: Bytes.trim consequent.render)) := by
    have hsplit : ∀ r, ifWord ++ 0x20 :: (comparisonText rel left right ++
        0x20 :: (thenWord ++ 0x20 :: a :: r)) =
          0x69 :: ((0x66 :: 0x20 :: (comparisonText rel left right ++
            0x20 :: (thenWord ++ [0x20]))) ++ a :: r) := by
      intro r
      simp [ifWord, ascii]
    rw [Phrase.render, hinner, hrender, hsplit, Bytes.trim_cons_of_solid (by decide),
      Bytes.trimRight_append_cons_of_solid ha, ← hsplit]
  have hcontains : Bytes.contains thenWord (ifWord ++ 0x20 :: (comparisonText rel left right ++
      0x20 :: (thenWord ++ 0x20 :: Bytes.trim consequent.render))) = true := by
    rw [Bytes.contains_iff]
    exact ⟨ifWord ++ 0x20 :: (comparisonText rel left right ++ [0x20]),
      0x20 :: Bytes.trim consequent.render, by simp⟩
  have hne : Bytes.trim (Bytes.trim consequent.render) ≠ [] := by
    rw [Bytes.trim_trim, hinner]
    exact List.cons_ne_nil _ _
  rw [On, Statement.ofLine, htrim, Statement.ofTrimmed_if hcontains, ← List.cons_append,
    Statement.ofIf_text hleft hright hl hr hthen hne, Bytes.trim_trim]

namespace Phrase

theorem readWith_render {t : Phrase} (h : t.Proper) {fuel : Nat} (enough : t.render.length ≤ fuel) :
    readWith (fuel + 1) t.render = some t := by
  induction t generalizing fuel with
  | comment text =>
    rw [render, readWith_of_on (Form.comment_on h)]
    exact congrArg (fun s => some (comment s)) h.1
  | printVar name => rw [readWith_of_on (Form.printVar_on h)]
  | printText s => rw [readWith_of_on (Form.printText_on s)]
  | assign name expr => rw [readWith_of_on (Form.assign_on h)]
  | call name => rw [readWith_of_on (Form.call_on h)]
  | exit => rw [readWith_of_on Form.exit_on]
  | cond rel left right consequent ih =>
    rw [readWith_of_on (Form.cond_on h)]
    dsimp only
    obtain ⟨-, -, -, -, -, hconsequent⟩ := h
    -- the consequent is shorter, so there is fuel for it
    simp only [render, List.length_append, List.length_cons] at enough
    obtain ⟨n, rfl⟩ : ∃ n, fuel = n + 1 := ⟨fuel - 1, by omega⟩
    rw [readWith_trim, ih hconsequent (by omega)]
    rfl

/-- Reading gives back the phrase whose line is read; and no operand text is left out, each being
that of one operand. -/
theorem read_render {t : Phrase} (h : t.Proper) :
    read t.render = some t ∧ ∀ s : Bytes, ∃! operand : Term, operand.Proper ∧ operand.text = s :=
  ⟨readWith_render h le_rfl, Term.existsUnique_text⟩

/-- An `if` in an `if`, with the word `then` inside both operands. -/
def nestedIf : Phrase :=
  cond .ge (.var (ascii "athens")) (.quoted (ascii "then"))
    (cond .lt (.bare (ascii "1")) (.bare (ascii "2")) (assign (ascii "x") []))

theorem nestedIf_proper : nestedIf.Proper := by decide +kernel

theorem read_render_nestedIf : nestedIf.Proper ∧
    read (ascii "if $athens >= \"then\" then if 1 < 2 then $x = ") = some nestedIf := by
  have hline : ascii "if $athens >= \"then\" then if 1 < 2 then $x = " = nestedIf.render := by
    decide
  rw [hline]
  exact ⟨nestedIf_proper, (read_render nestedIf_proper).1⟩

end Phrase

end SectScript
