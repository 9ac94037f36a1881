import SectScript.Text.Utf8

/-!
# Aligned columns

A tabulator ends the first cell of a line. In every run of neighbouring lines that have such a cell
the cells are brought to one width, a blank wider than the widest. Text between two bytes 0xFF is
protected: tabulators and line ends in it stand for themselves.
-/

namespace SectScript.Columns

/-- Text up to the first unprotected tabulator or line end, and what is behind it. -/
structure Line where
  cells : List Bytes

/-- Splits a text into lines of cells. `shield` tells whether the position is protected; `cell` and
`cells` hold what the current line has so far, last first. -/
def split : (shield : Bool) → (cell : Bytes) → (cells : List Bytes) → Bytes → List Line
  | _, cell, cells, [] => [⟨(cell.reverse :: cells).reverse⟩]
  | shield, cell, cells, b :: s =>
    if b == 0xFF then split (!shield) (b :: cell) cells s
    else if !shield && b == 0x09 then split shield [] (cell.reverse :: cells) s
    else if !shield && b == 0x0A then
      ⟨(cell.reverse :: cells).reverse⟩ :: split shield [] [] s
    else split shield (b :: cell) cells s

def width (cell : Bytes) : Nat := (Utf8.items cell).length

/-- The widest first cell in the run of two-cell lines at the front. -/
def runWidth : List Line → Nat
  | ⟨cell :: _ :: _⟩ :: lines => max (width cell) (runWidth lines)
  | _ => 0

/-- Writes the lines; `column` is the width of the current run, if the line before was in one. -/
def write : (column : Option Nat) → List Line → List Bytes
  | _, [] => []
  | column, line :: lines =>
    match line.cells with
    | cell :: next :: more =>
      let wide := column.getD (runWidth (line :: lines))
      (cell ++ List.replicate (wide + 1 - width cell) 0x20 ++ next ++ more.flatten) ::
        write (some wide) lines
    | cells => cells.flatten :: write none lines

def align (s : Bytes) : Bytes := Bytes.join Bytes.newline (write none (split false [] [] s))

example : align (ascii "a\t1\nbcd\t2\n-\ne\t3") = ascii "a   1\nbcd 2\n-\ne 3" := by
  decide +kernel

end SectScript.Columns
