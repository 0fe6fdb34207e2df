import Cabinet.Text.Width

/-!
# Text on a screen

* `Screen.plain` : a text without the controls that colour it;
* `Screen.shown` : a text as it is shown, without controls that move about, and with tabs filled up;
* `Screen.table` : a table with a title, a header and rows.

Every column of a table is as wide as its widest cell, and a cell may have several lines.
-/

namespace Cabinet.Screen

/-- How many code points the control at the beginning of a text has: an escape, an opening bracket,
numbers and marks, a letter. -/
def controlLength? : Text → Option Nat
  | .char '\x1b' :: .char '[' :: t =>
    let marks := t.takeWhile fun p => p.isAsciiDigit || p = .char ';' || p = .char '?'
    match t.drop marks.length with
    | .char c :: _ => if c.isAlpha then some (marks.length + 3) else none
    | _ => none
  | _ => none

/-- A text without its controls, from after some skipped code points on. -/
def withoutControls : (skipped : Nat) → Text → Text
  | _, [] => []
  | skipped + 1, _ :: t => withoutControls skipped t
  | 0, p :: t =>
    match controlLength? (p :: t) with
    | some n => withoutControls (n - 1) t
    | none => p :: withoutControls 0 t

/-- A text without the controls that colour it. -/
def plain (t : Text) : Text := withoutControls 0 t

/-- A control that a screen would obey by moving about. -/
def isMovement (p : CodePoint) : Bool := [7, 8, 11, 12, 13].elem p.toNat

/-- The spaces that a tab at a column stands for. -/
def tabWidth (column : Nat) : Nat := (8 - (column + 1) % 8) % 8 + 1

/-- A line with its tabs filled up, from a column on. -/
def fillTabs : (column : Nat) → Text → Text
  | _, [] => []
  | column, p :: t =>
    if p = .char '\t' then
      Text.repeated (tabWidth column) ' ' ++ fillTabs (column + tabWidth column) t
    else if p = .char '\n' then p :: fillTabs 0 t
    else p :: fillTabs (column + p.width) t

/-- A text as it is shown. -/
def shown (t : Text) : Text := fillTabs 0 (t.filter fun p => !isMovement p)

/-! ## Tables -/

def title : Text := "Documents".toText

/-- A text as wide as a column. -/
def padded (width : Nat) (t : Text) : Text := t ++ Text.repeated (width - t.width) ' '

/-- The longest beginning of a text that fits a width, with at least one code point. -/
def fitting (width : Nat) : Text → Nat
  | [] => 0
  | p :: t => if p.width ≤ width then fitting (width - p.width) t + 1 else 0

/-- A text in lines of a width at most; the fuel bounds the lines. -/
def chopped (width : Nat) : (fuel : Nat) → Text → List Text
  | 0, _ | _, [] => []
  | fuel + 1, t =>
    let n := max 1 (fitting width t)
    t.take n :: chopped width fuel (t.drop n)

/-- A text in the middle of a line. -/
def centred (width : Nat) (t : Text) : Text :=
  padded width (Text.repeated ((width - t.width) / 2) ' ' ++ t)

/-- A line of a table: a mark, the columns with marks between them, a mark. -/
def line (left between right : Char) (columns : List Text) : Text :=
  .char left :: Text.join [.char between] columns ++ [.char right, .char '\n']

/-- A line of a table without text. -/
def rule (left fill between right : Char) (widths : List Nat) : Text :=
  line left between right (widths.map fun w => Text.repeated (w + 2) fill)

/-- The lines of a cell. -/
def cellLines (cell : Text) : List Text := Text.splitOn '\n' cell

/-- One line of the cells of a row. -/
def rowLine (bar : Char) (n : Nat) (cells : List (Nat × Text)) : Text :=
  line bar bar bar (cells.map fun (width, cell) =>
    .char ' ' :: padded width ((cellLines cell).getD n []) ++ [.char ' '])

/-- A row, as high as its highest cell. -/
def row (bar : Char) (widths : List Nat) (cells : List Text) : Text :=
  let height := (cells.map fun c => (cellLines c).length).foldl max 1
  (List.range height).flatMap fun n => rowLine bar n (widths.zip cells)

/-- The width of a column of cells. -/
def columnWidth (cells : List Text) : Nat :=
  ((cells.flatMap cellLines).map Text.width).foldl max 0

/-- The column of a table at a place. -/
def columnAt (n : Nat) (rows : List (List Text)) : List Text := rows.map fun cells => cells.getD n []

/-- A table. Without columns there is only an empty line. -/
def table (header : List Text) (rows : List (List Text)) : Text :=
  if header.isEmpty then "\n".toText
  else
    let header := header.map shown
    let rows := rows.map fun cells => cells.map shown
    let widths := (List.range header.length).map fun n => columnWidth (columnAt n (header :: rows))
    let whole := widths.foldl (fun n w => n + (w + 3)) 1
    (chopped whole title.length title).flatMap (fun t => centred whole t ++ "\n".toText)
      ++ rule '┏' '━' '┳' '┓' widths ++ row '┃' widths header ++ rule '┡' '━' '╇' '┩' widths
      ++ rows.flatMap (row '│' widths) ++ rule '└' '─' '┴' '┘' widths

end Cabinet.Screen
