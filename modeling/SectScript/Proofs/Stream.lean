import SectScript.Input
import SectScript.Proofs.Text.Line

/-!
# What a stream delivers

A stream is read line by line. Behind each line feed there is more to come, if only an empty rest,
so the lines that are complete are the pieces of the text without the last one. The last piece is a
line of its own if the stream ends there and it is not empty; a stream that fails does not deliver
it. What then follows, follows forever.
-/

namespace SectScript.Input

/-- The replies to requests that are made one after the other; there are none without a source. -/
def replies : (requests : Nat) → Input → List Reply
  | 0, _ => []
  | n + 1, i =>
    match i.read? with
    | none => []
    | some (reply, _, left) => reply :: replies n left

/-- Without all the carriage returns at its end. -/
def withoutReturns (line : Bytes) : Bytes := Bytes.dropRightWhile (· == 0x0D) line

/-- The reply once a stream has no more lines. -/
def closing : (failure : Option Bytes) → Reply
  | none => .ended
  | some text => .failed text

/-- The pieces of a text that are delivered as lines. -/
def delivered (failure : Option Bytes) (rest : Bytes) : List Bytes :=
  let pieces := Bytes.pieces 0x0A rest
  if failure = none ∧ pieces.getLast? ≠ some [] then pieces else pieces.dropLast

theorem dropWhile_isLineEnd {s : Bytes} (h : 0x0A ∉ s) :
    s.dropWhile isLineEnd = s.dropWhile (· == 0x0D) := by
  induction s with
  | nil => rfl
  | cons b s ih =>
    rw [List.mem_cons, not_or] at h
    have hb : isLineEnd b = (b == 0x0D) := by simp [isLineEnd, Ne.symm h.1]
    rw [List.dropWhile_cons, List.dropWhile_cons, hb, ih h.2]

/-- In a piece there is no line feed to drop. -/
theorem dropRightWhile_isLineEnd {piece : Bytes} (h : 0x0A ∉ piece) :
    Bytes.dropRightWhile isLineEnd piece = withoutReturns piece := by
  rw [withoutReturns, Bytes.dropRightWhile, Bytes.dropRightWhile,
    dropWhile_isLineEnd (by simpa using h)]

theorem delivered_cons (failure : Option Bytes) {rest piece left : Bytes}
    (h : Bytes.pieces 0x0A rest = piece :: Bytes.pieces 0x0A left) :
    delivered failure rest = piece :: delivered failure left := by
  have hleft := Bytes.pieces_ne_nil 0x0A left
  rw [delivered, delivered, h, List.getLast?_cons_of_ne_nil hleft,
    List.dropLast_cons_of_ne_nil hleft]
  split <;> rfl

/-- A stream delivers its first line, if it has one left to deliver, and else says how it ends. -/
theorem readStream_cases (rest : Bytes) (failure : Option Bytes) :
    (∃ piece left, readStream rest failure = (.line (withoutReturns piece), left) ∧
      delivered failure rest = piece :: delivered failure left) ∨
    readStream rest failure = (closing failure, []) ∧ delivered failure rest = [] := by
  have hpieces := Bytes.pieces_eq_cut 0x0A rest
  have hfree := @Bytes.not_mem_of_mem_pieces 0x0A rest
  cases hcut : Bytes.cut Bytes.newline rest with
  | some lr =>
    obtain ⟨piece, left⟩ := lr
    rw [show [0x0A] = Bytes.newline from rfl, hcut] at hpieces
    have hline := dropRightWhile_isLineEnd (@hfree piece (by simp [hpieces]))
    exact Or.inl ⟨piece, left, by simp [readStream, hcut, hline], delivered_cons failure hpieces⟩
  | none =>
    rw [show [0x0A] = Bytes.newline from rfl, hcut] at hpieces
    have hline := dropRightWhile_isLineEnd (@hfree rest (by simp [hpieces]))
    cases failure with
    | some text =>
      exact Or.inr ⟨by simp [readStream, hcut, closing], by simp [delivered, hpieces]⟩
    | none =>
      by_cases hrest : rest = []
      · subst hrest
        exact Or.inr ⟨rfl, rfl⟩
      · -- the stream ends behind this line
        refine Or.inl ⟨rest, [], by simp [readStream, hcut, hrest, hline], ?_⟩
        simp [delivered, hpieces, hrest, Bytes.pieces]

/-- The replies are the lines that are left to deliver, and then the end again and again. -/
theorem replies_stream (failure : Option Bytes) (rest : Bytes) (n : Nat) :
    replies n (.stream rest failure) =
      ((delivered failure rest).map (fun piece => Reply.line (withoutReturns piece)) ++
        List.replicate n (closing failure)).take n := by
  induction n generalizing rest with
  | zero => simp [replies]
  | succ n ih =>
    rcases readStream_cases rest failure with ⟨piece, left, hread, hmore⟩ | ⟨hread, hnone⟩
    · have hrest := ih left
      simp only [replies, read?, hread, hmore, hrest, List.map_cons, List.cons_append,
        List.take_succ_cons, List.take_append, List.take_replicate]
      congr 3
      omega
    · have hrest := ih []
      simp only [replies, read?, hread, hnone, hrest]
      have hnone' : delivered failure [] = [] := by cases failure <;> rfl
      simp [hnone', List.replicate_succ]

/-- A stream delivers, in order, the pieces of its text between line feeds, each without the carriage
returns at its end. A last piece that is empty is no line; and if the stream fails in the end, the
last piece is lost and all others are delivered as they would be otherwise. Every further request
gets the end, or the failure. -/
theorem stream_loses_nothing (rest : Bytes) :
    ∃ complete last, Bytes.pieces 0x0A rest = complete ++ [last] ∧
      (∀ piece ∈ complete ++ [last], 0x0A ∉ piece) ∧
      Bytes.join Bytes.newline (complete ++ [last]) = rest ∧
      (∀ n, replies n (.stream rest none) =
        ((complete ++ if last = [] then [] else [last]).map
            (fun piece => Reply.line (withoutReturns piece)) ++
          List.replicate n Reply.ended).take n) ∧
      ∀ text n, replies n (.stream rest (some text)) =
        (complete.map (fun piece => Reply.line (withoutReturns piece)) ++
          List.replicate n (Reply.failed text)).take n := by
  obtain ⟨complete, last, hpieces⟩ : ∃ complete last,
      Bytes.pieces 0x0A rest = complete ++ [last] :=
    ⟨_, _, (List.dropLast_concat_getLast (Bytes.pieces_ne_nil 0x0A rest)).symm⟩
  refine ⟨complete, last, hpieces, ?_, ?_, ?_, ?_⟩
  · rw [← hpieces]
    exact fun piece hpiece => Bytes.not_mem_of_mem_pieces hpiece
  · rw [← hpieces]
    exact Bytes.join_pieces 0x0A rest
  · intro n
    have hlines : delivered none rest = complete ++ if last = [] then [] else [last] := by
      by_cases hlast : last = [] <;> simp [delivered, hpieces, hlast]
    rw [← hlines]
    exact replies_stream none rest n
  · intro text n
    have hlines : delivered (some text) rest = complete := by simp [delivered, hpieces]
    rw [← hlines]
    exact replies_stream (some text) rest n

/-- An empty line, a line that ends in two carriage returns, and a last piece of nothing else. -/
example : (replies 5 (.stream (ascii "\na\r\r\n\r") none)).map (Reply.line? · |>.toOption) =
    [some [], some (ascii "a"), some [], none, none] := by decide +kernel

end SectScript.Input
