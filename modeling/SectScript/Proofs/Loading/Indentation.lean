import SectScript.Proofs.Loading.Scan
import SectScript.Proofs.Text.Line
import SectScript.Proofs.Text.Padding
import Mathlib.Data.List.Forall2

/-!
# Indentation

A source is loaded from its trimmed lines alone. So white space at the beginning or the end of its
lines does not matter, in whatever bytes the lines begin and end, and neither does it matter which
line ends are used.
-/

namespace SectScript

namespace Bytes

/-- The text with padding at both ends of its lines, which are counted from 0. -/
def indent (pads : Nat → Bytes × Bytes) (s : Bytes) : Bytes :=
  join newline ((pieces 0x0A s).mapIdx fun i line => (pads i).1 ++ line ++ (pads i).2)

/-- The text with a carriage return before every line feed. -/
def withReturns (s : Bytes) : Bytes := s.flatMap fun b => if b = 0x0A then [0x0D, 0x0A] else [b]

theorem pieces_indent {pads : Nat → Bytes × Bytes}
    (hpads : ∀ i, Padding (pads i).1 ∧ Padding (pads i).2) (s : Bytes) :
    pieces 0x0A (indent pads s) =
      (pieces 0x0A s).mapIdx fun i line => (pads i).1 ++ line ++ (pads i).2 := by
  apply pieces_join
  · rw [ne_eq, List.mapIdx_eq_nil_iff]
    exact pieces_ne_nil 0x0A s
  · intro line hline
    obtain ⟨i, hi, rfl⟩ := List.mem_mapIdx.mp hline
    have hfree := not_mem_of_mem_pieces (List.getElem_mem hi)
    simp only [List.mem_append, not_or]
    exact ⟨⟨(hpads i).1.not_mem, hfree⟩, (hpads i).2.not_mem⟩

/-- A carriage return is padding at the end of the line before it. -/
theorem pieces_withReturns (s : Bytes) :
    List.Forall₂ (fun p q => ∃ pad, Padding pad ∧ q = p ++ pad) (pieces 0x0A s)
      (pieces 0x0A (withReturns s)) := by
  induction s with
  | nil => exact .cons ⟨[], .nil, rfl⟩ .nil
  | cons b s ih =>
    by_cases hb : b = 0x0A
    · subst hb
      have hreturn : Padding (Utf8.encode 0x0D ++ []) := .cons (by decide) (by decide) .nil
      exact .cons ⟨[0x0D], hreturn, rfl⟩ ih
    · have hnext : withReturns (b :: s) = b :: withReturns s := by simp [withReturns, hb]
      rw [hnext, pieces, pieces, if_neg hb, if_neg hb]
      cases hs : pieces 0x0A s with
      | nil => exact absurd hs (pieces_ne_nil 0x0A s)
      | cons p ps =>
        rw [hs] at ih
        obtain ⟨q, qs, ⟨pad, hpad, rfl⟩, hps, hqs⟩ := List.forall₂_cons_left_iff.mp ih
        rw [hqs]
        exact .cons ⟨pad, hpad, rfl⟩ hps

end Bytes

namespace Loading

theorem lines_map_trim (setup : Setup) (n : Nat) (raws : List Bytes) (p : Progress) (st : State) :
    lines setup n (raws.map Bytes.trim) p st = lines setup n raws p st := by
  induction raws generalizing n p st with
  | nil => rfl
  | cons raw raws ih =>
    rw [List.map_cons, lines, lines, Bytes.trim_trim]
    split
    · exact ih (n + 1) p st
    · rcases line setup ⟨n, Bytes.trim raw⟩ p st with ⟨f | q, after⟩
      · rfl
      · exact ih (n + 1) q after

/-- Sources with the same trimmed lines load alike. -/
theorem load_congr {source source' : Bytes}
    (h : (Bytes.pieces 0x0A source).map Bytes.trim = (Bytes.pieces 0x0A source').map Bytes.trim)
    (setup : Setup) (st : State) : load setup source st = load setup source' st := by
  rw [load, load, ← lines_map_trim, h, lines_map_trim]

/-- White space that is added at the ends of lines, or a carriage return before each line feed, does
not change what comes of loading a source: the program with its line numbers and texts, or the error
and its place, and the state. -/
theorem indentation_unseen (setup : Setup) (source : Bytes) (st : State) :
    (∀ pads : Nat → Bytes × Bytes, (∀ i, Bytes.Padding (pads i).1 ∧ Bytes.Padding (pads i).2) →
      load setup (Bytes.indent pads source) st = load setup source st) ∧
    load setup (Bytes.withReturns source) st = load setup source st := by
  constructor
  · intro pads hpads
    apply load_congr
    rw [Bytes.pieces_indent hpads]
    apply List.ext_getElem
    · simp
    · intro i _ _
      simpa using Bytes.trim_padded (hpads i).1 (hpads i).2 _
  · apply load_congr
    have hsame : List.Forall₂ (fun p q => Bytes.trim p = Bytes.trim q) (Bytes.pieces 0x0A source)
        (Bytes.pieces 0x0A (Bytes.withReturns source)) := by
      refine (Bytes.pieces_withReturns source).imp ?_
      rintro p _ ⟨pad, hpad, rfl⟩
      exact (hpad.trim_append_right p).symm
    rw [eq_comm, ← List.forall₂_eq_eq_eq, List.forall₂_map_left_iff, List.forall₂_map_right_iff]
    exact hsame

/-- A source whose code begins and ends in bytes that belong to no character: the first could be the
end of a blank, the last the beginning of one. -/
def straying : Bytes :=
  ascii "$x = 1\nsect main\n" ++ [0xA0, 0x78, 0xC2] ++ ascii "\n;\nsect loose\n" ++
    [0x80, 0xE2, 0x80] ++ ascii "\n;"

/-- A no-break space and a tab in front of a line, an ideographic space and a carriage return behind
it. -/
def wideMargins (_ : Nat) : Bytes × Bytes :=
  (Utf8.encode 0xA0 ++ (Utf8.encode 0x09 ++ []), Utf8.encode 0x3000 ++ (Utf8.encode 0x0D ++ []))

theorem indentation_unseen_straying :
    let setup : Setup := { dialect := .clarity }
    (∀ i, Bytes.Padding (wideMargins i).1 ∧ Bytes.Padding (wideMargins i).2) ∧
    ∃ p after, load setup (Bytes.indent wideMargins straying) {} = (.ok p, after) ∧
      load setup (Bytes.withReturns straying) {} = (.ok p, after) ∧
      p.find? mainSection = some ⟨2, [⟨3, [0xA0, 0x78, 0xC2]⟩]⟩ ∧
      p.find? (ascii "loose") = some ⟨5, [⟨6, [0x80, 0xE2, 0x80]⟩]⟩ ∧
      after.vars.find? (ascii "x") = some (.integer 1) ∧ after.executed = 1 := by
  intro setup
  have hpads : ∀ i, Bytes.Padding (wideMargins i).1 ∧ Bytes.Padding (wideMargins i).2 := fun _ =>
    ⟨.cons (by decide) (by decide) (.cons (by decide) (by decide) .nil),
      .cons (by decide) (by decide) (.cons (by decide) (by decide) .nil)⟩
  obtain ⟨hindent, hreturns⟩ := indentation_unseen setup straying {}
  rw [hindent _ hpads, hreturns]
  have hfound : ((load setup straying {}).1.toOption.bind (Table.find? · mainSection)) =
      some ⟨2, [⟨3, [0xA0, 0x78, 0xC2]⟩]⟩ := by decide +kernel
  have hloose : ((load setup straying {}).1.toOption.bind (Table.find? · (ascii "loose"))) =
      some ⟨5, [⟨6, [0x80, 0xE2, 0x80]⟩]⟩ := by decide +kernel
  have hx : (load setup straying {}).2.vars.find? (ascii "x") = some (.integer 1) := by
    decide +kernel
  have hcount : (load setup straying {}).2.executed = 1 := by decide +kernel
  refine ⟨hpads, ?_⟩
  -- Otherwise the source would be loaded again by the terms below.
  generalize load setup straying {} = o at hfound hloose hx hcount ⊢
  rcases o with ⟨f | p, after⟩
  · cases hfound
  · exact ⟨p, after, rfl, rfl, hfound, hloose, hx, hcount⟩

end Loading

end SectScript
