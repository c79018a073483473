import CqlConsole.Text.Ligature
import CqlConsole.Text.Lines

/-!
# Grids of cells

A grid is drawn with lines around every cell. The first row is a header, whose
cells are centred and may be coloured; other cells start at the left. A cell
may hold several lines, and a row is as high as its highest cell. Before that,
a cell that is too wide can be wrapped.
-/

set_option autoImplicit false

namespace CqlConsole.Render

open CqlConsole.Text

def textWidth (s : List Char) : Nat :=
  ((lines s).map lineWidth).foldl max 0

/-- The text broken so that no line takes more than `width` columns, from column `used` on.
Every character counts for at least one column, and one that is too wide for a whole line
is replaced by marks that fill the line. -/
def wrapFrom (width : Nat) : Nat → List Char → List Char
  | _, [] => []
  | used, c :: s =>
    if c = '\n' then '\n' :: wrapFrom width 0 s
    else
      let full := used = width
      let start := if full then 0 else used
      let breakBefore := if full then ['\n'] else []
      let size := max 1 (charWidth c)
      if start + size ≤ width then breakBefore ++ c :: wrapFrom width (start + size) s
      else if size ≤ width then breakBefore ++ '\n' :: c :: wrapFrom width size s
      else
        breakBefore ++ List.replicate (width - start) '\uFFFD' ++ wrapFrom width width s

def wrap (width : Nat) (s : List Char) : List Char :=
  if textWidth s ≤ width then s
  else if width = 0 then []
  else wrapFrom width 0 s

abbrev Row := List (List (List Char))

def Row.ofTexts (cells : List (List Char)) : Row :=
  cells.map lines

def cellWidth (cell : List (List Char)) : Nat :=
  (cell.map lineWidth).foldl max 0

def Row.height (row : Row) : Nat :=
  (row.map List.length).foldl max 0

def widen : List Nat → Row → List Nat
  | [], row => row.map cellWidth
  | ws, [] => ws
  | w :: ws, cell :: row => max w (cellWidth cell) :: widen ws row

def columnWidths (rows : List Row) : List Nat :=
  rows.foldl widen []

structure LineStyle where
  centred : Bool
  before : List Char
  after : List Char

def plainStyle : LineStyle := ⟨false, [], []⟩

def headerStyle (colours : Bool) : LineStyle :=
  if colours then ⟨true, "\x1b[36m\x1b[1m".toList, "\x1b[39m\x1b[22m".toList⟩
  else ⟨true, [], []⟩

def spaces (n : Nat) : List Char :=
  List.replicate n ' '

def drawLine (style : LineStyle) (width : Nat) (cell : List (List Char)) (i : Nat) : List Char :=
  match cell[i]? with
  | none => spaces width
  | some line =>
    let left := if style.centred then (width - cellWidth cell) / 2 else 0
    spaces left ++ style.before ++ line ++ style.after ++ spaces (width - left - lineWidth line)

def drawCells (style : LineStyle) (i : Nat) : List Nat → Row → List Char
  | w :: ws, cell :: row =>
    ' ' :: drawLine style w cell i ++ ' ' :: '│' :: drawCells style i ws row
  | _, _ => []

def drawRow (style : LineStyle) (widths : List Nat) (row : Row) : List (List Char) :=
  (List.range row.height).map fun i => '│' :: drawCells style i widths row

def rule (left cross right : Char) (widths : List Nat) : List Char :=
  let strokes := widths.map fun w => List.replicate (w + 2) '─'
  left :: List.intercalate [cross] strokes ++ [right]

def drawRows (widths : List Nat) : List Row → List (List Char)
  | [] => []
  | row :: rows =>
    rule '├' '┼' '┤' widths :: drawRow plainStyle widths row ++ drawRows widths rows

def drawGrid (colours : Bool) (header : Row) (rows : List Row) : List (List Char) :=
  let widths := columnWidths (header :: rows)
  rule '┌' '┬' '┐' widths :: drawRow (headerStyle colours) widths header ++
    drawRows widths rows ++ [rule '└' '┴' '┘' widths]

def gridText (colours : Bool) (header : Row) (rows : List Row) : List Char :=
  List.intercalate ['\n'] (drawGrid colours header rows)

end CqlConsole.Render
