import SectScript.Proofs.Statement.Phrase
import SectScript.Proofs.Text.Search

/-!
# What statements take from their lines

The texts of a statement are cut out of its line, so they hold no byte that the line does not hold.
The name that an assignment stores is trimmed and not empty, and it ends before the first equals
sign.
-/

namespace SectScript

/-! ## Parts of a text -/

namespace Bytes

theorem cut_subset {w s l r : Bytes} (h : cut w s = some (l, r)) : l ⊆ s ∧ r ⊆ s := by
  rw [cut_eq_some h]
  exact ⟨List.subset_append_left _ _, fun b hb => by simp [hb]⟩

theorem dropRightWhile_subset (p : UInt8 → Bool) (s : Bytes) : dropRightWhile p s ⊆ s := by
  intro b hb
  rw [dropRightWhile, List.mem_reverse] at hb
  exact List.mem_reverse.mp ((List.dropWhile_suffix p).subset hb)

/-- Nothing before the first occurrence of a byte is that byte. -/
theorem not_mem_of_cut {c : UInt8} {s l r : Bytes} (h : cut [c] s = some (l, r)) : c ∉ l := by
  intro hc
  obtain ⟨front, back, rfl, hfront⟩ := List.eq_append_cons_of_mem hc
  have hearlier : cut [c] (front ++ ([c] ++ (back ++ ([c] ++ r)))) = some (front, _) :=
    cut_append hfront _
  rw [cut_eq_some h] at h
  simp only [List.append_assoc, List.cons_append, List.nil_append] at h hearlier
  rw [h] at hearlier
  simp at hearlier

theorem not_mem_of_cut_eq_none {c : UInt8} {s : Bytes} (h : cut [c] s = none) : c ∉ s := by
  intro hc
  obtain ⟨l, r, rfl⟩ := List.append_of_mem hc
  have hyes := contains_append l [c] r
  rw [contains, List.singleton_append, h] at hyes
  cases hyes

end Bytes

theorem unquote?_subset {s t : Bytes} (h : unquote? s = some t) : t ⊆ s := by
  rw [unquote?_eq_some_iff.mp h]
  intro b hb
  simp [hb]

/-! ## The texts of a statement -/

/-- The name can be that of a variable. -/
structure Nameable (name : Bytes) : Prop where
  ne_nil : name ≠ []
  trimmed : Bytes.trim name = name
  no_equals : 0x3D ∉ name

/-- What the statement stores, prints or goes on with is taken from the text. -/
def Form.Within (text : Bytes) : Form → Prop
  | .printText s => s ⊆ text
  | .assign name expr => Nameable name ∧ name ⊆ text ∧ expr ⊆ text
  | .cond _ _ _ consequent => consequent ⊆ text
  | .comment | .printVar _ | .call _ | .exit => True

theorem Form.Within.mono {form : Form} {text text' : Bytes} (h : form.Within text)
    (hsub : text ⊆ text') : form.Within text' := by
  cases form with
  | printText s => exact List.Subset.trans h hsub
  | assign name expr => exact ⟨h.1, List.Subset.trans h.2.1 hsub, List.Subset.trans h.2.2 hsub⟩
  | cond rel left right consequent => exact List.Subset.trans h hsub
  | comment | printVar _ | call _ | exit => exact trivial

namespace Statement

theorem ofPrint_within {line rest : Bytes} {stmt : Statement} (h : ofPrint line rest = .ok stmt) :
    ∃ form : Form, stmt = form.statement line ∧ form.Within rest := by
  rw [ofPrint] at h
  split at h
  · cases h
  · split at h
    case h_1 name _ => exact ⟨.printVar name, (Except.ok.inj h).symm, trivial⟩
    case h_2 =>
      split at h
      case h_1 inside hinside =>
        exact ⟨.printText inside, (Except.ok.inj h).symm,
          List.Subset.trans (unquote?_subset hinside) (Bytes.trim_subset rest)⟩
      case h_2 => cases h

theorem ofAssignment_within {line rest : Bytes} {stmt : Statement}
    (h : ofAssignment line rest = .ok stmt) :
    ∃ form : Form, stmt = form.statement line ∧ form.Within rest := by
  rw [ofAssignment] at h
  have hparts : ∀ name expr, (Bytes.cut (ascii "=") rest).getD (rest, []) = (name, expr) →
      0x3D ∉ name ∧ name ⊆ rest ∧ expr ⊆ rest := by
    intro name expr hcut
    cases hfind : Bytes.cut (ascii "=") rest with
    | none =>
      rw [hfind] at hcut
      obtain ⟨rfl, rfl⟩ := Prod.mk.inj hcut
      exact ⟨Bytes.not_mem_of_cut_eq_none hfind, List.Subset.refl _, List.nil_subset _⟩
    | some parts =>
      rw [hfind] at hcut
      obtain rfl : parts = (name, expr) := hcut
      exact ⟨Bytes.not_mem_of_cut hfind, Bytes.cut_subset hfind⟩
  generalize (Bytes.cut (ascii "=") rest).getD (rest, []) = parts at h hparts
  obtain ⟨name, expr⟩ := parts
  obtain ⟨hequals, hname, hexpr⟩ := hparts name expr rfl
  dsimp only at h
  split at h
  · cases h
  case isFalse hne =>
    refine ⟨.assign (Bytes.trim name) (Bytes.trim expr), (Except.ok.inj h).symm, ?_, ?_, ?_⟩
    · exact ⟨fun hnil => hne (beq_iff_eq.mpr hnil), Bytes.trim_trim name,
        fun hmem => hequals (Bytes.trim_subset name hmem)⟩
    · exact List.Subset.trans (Bytes.trim_subset name) hname
    · exact List.Subset.trans (Bytes.trim_subset expr) hexpr

theorem ofIf_within {line rest : Bytes} {stmt : Statement} (h : ofIf line rest = .ok stmt) :
    ∃ form : Form, stmt = form.statement line ∧ form.Within rest := by
  rw [ofIf] at h
  split at h
  case h_1 => cases h
  case h_2 i _ =>
    dsimp only at h
    split at h
    · cases h
    · split at h
      case h_1 => cases h
      case h_2 n hn =>
        obtain ⟨rel, left, right, rfl⟩ := Node.ofCondition_form hn
        exact ⟨.cond rel left right _, (Except.ok.inj h).symm,
          List.Subset.trans (Bytes.trim_subset _) (List.drop_subset _ rest)⟩

theorem ofLine_within {line : Bytes} {stmt : Statement} (h : ofLine line = .ok stmt) :
    ∃ form : Form, stmt = form.statement (Bytes.trim line) ∧ form.Within line := by
  have hdrop : ∀ n, (Bytes.trim line).drop n ⊆ line :=
    fun n => List.Subset.trans (List.drop_subset n _) (Bytes.trim_subset line)
  rw [ofLine, ofTrimmed] at h
  split at h
  · exact ⟨.comment, (Except.ok.inj h).symm, trivial⟩
  split at h
  · obtain ⟨form, hstmt, hwithin⟩ := ofPrint_within h
    exact ⟨form, hstmt, hwithin.mono (hdrop _)⟩
  split at h
  · obtain ⟨form, hstmt, hwithin⟩ := ofAssignment_within h
    exact ⟨form, hstmt, hwithin.mono (hdrop _)⟩
  split at h
  case h_1 name _ => exact ⟨.call name, (Except.ok.inj h).symm, trivial⟩
  case h_2 =>
    split at h
    · obtain ⟨form, hstmt, hwithin⟩ := ofIf_within h
      exact ⟨form, hstmt, hwithin.mono (hdrop _)⟩
    · split at h
      · exact ⟨.exit, (Except.ok.inj h).symm, trivial⟩
      · cases h

end Statement

theorem Form.On.within {form : Form} {line : Bytes} (h : form.On line) : form.Within line := by
  obtain ⟨form', hstmt, hwithin⟩ := Statement.ofLine_within h
  have hsame := congrArg Statement.form? hstmt
  rw [form?_statement, form?_statement] at hsame
  obtain rfl := Option.some.inj hsame
  exact hwithin

end SectScript
