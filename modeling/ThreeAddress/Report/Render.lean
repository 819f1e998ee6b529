import ThreeAddress.Report.Columns
import ThreeAddress.Report.Line
import ThreeAddress.Report.Picture

/-!
# Drawn reports

A report is drawn with its title, the place, the lines marked, and perhaps a hint, in a frame.  This is the drawing that
the command is run with; what is proved about reports is proved for all drawings.

* `Picture.draw` — the drawing;
* `Report.render`, `Findings.render` — reports drawn so.

A mark within one line is drawn below it; one over several lines is drawn at their left, and only
the first and the last of these lines are shown.
-/

namespace ThreeAddress

/-! ### Lines on the screen -/

/-- Tabs reach to the next multiple of this many characters. -/
def tabStop : Nat := 4

/-- The columns that a character takes as the given one of its line. -/
def shownColumns (c : Char) (index : Nat) : Nat :=
  if c = '\t' then (index / tabStop + 1) * tabStop - index
  else if isWhite c then 1
  else charColumns c

/-- A character as shown: blanks for white characters, all others as they are. -/
def shownChar (c : Char) (index : Nat) : List Char :=
  if isWhite c then List.replicate (shownColumns c index) ' ' else [c]

/-- A text without the white characters at its end. -/
def trimEnd (text : List Char) : List Char := (text.reverse.dropWhile isWhite).reverse

/-- A line as shown. -/
def shownText (line : Line) : String :=
  String.ofList ((trimEnd line.text).zipIdx.flatMap fun (c, i) => shownChar c i)

/-- The columns of the first characters of a line, with one column each for those behind its end. -/
def columnsOf (line : Line) (count : Nat) : List Nat :=
  let shown := (trimEnd line.text).take count
  (shown.zipIdx.map fun (c, i) => shownColumns c i) ++ List.replicate (count - shown.length) 1

/-- A row of marks: each character of a line has a mark on its first column, and a filler on the
others. -/
def markRow (columns : List Nat) (mark : Nat → Char × Char) : String :=
  String.ofList (columns.zipIdx.flatMap fun (width, i) =>
    match width with
    | 0 => []
    | more + 1 => (mark i).1 :: List.replicate more (mark i).2)

/-! ### The frame -/

/-- A text that is repeated. -/
def repeated (count : Nat) (text : String) : String := String.join (List.replicate count text)

/-- The margin of a report whose line numbers have the given width. -/
structure Margin where
  width : Nat

namespace Margin

/-- The blanks in place of a line number. -/
def blank (m : Margin) : String := repeated (m.width + 2) " "

/-- The margin beside something that is no line. -/
def bar (m : Margin) : String := m.blank ++ "│ "

/-- The margin beside lines that are left out. -/
def gap (m : Margin) : String := m.blank ++ "┆ "

/-- The margin beside a line; lines are numbered from one. -/
def number (m : Margin) (index : Nat) : String :=
  let digits := toString (index + 1)
  " " ++ repeated (m.width - digits.length) " " ++ digits ++ " │ "

end Margin

/-! ### Marks -/

/-- The rows for a mark within one line, which reaches from `start` to `stop`.  If it does not fit the
line, nothing is shown of it. -/
def markedLine (m : Margin) (line : Line) (index start stop : Nat) (message : String) : List String :=
  if line.offset + line.text.length < stop then [m.bar]
  else
    let columns := columnsOf line (stop + 2 - line.offset)
    let middle := (start + stop) / 2 - line.offset
    let under (i : Nat) : Bool := start ≤ line.offset + i && line.offset + i < stop
    let mark (i : Nat) : Char × Char :=
      if i = middle then if under i then ('┬', '─') else ('│', ' ')
      else if under i then ('─', '─')
      else (' ', ' ')
    let tail (i : Nat) : Char × Char :=
      if i = middle then ('╰', '─')
      else if middle < i then ('─', '─')
      else (' ', ' ')
    [m.number index ++ shownText line, m.bar ++ markRow columns mark,
      m.bar ++ markRow columns tail ++ " " ++ message]

/-- The rows for the lines behind the first one of a mark that ends with the character `last`. -/
def markedTail (m : Margin) (last : Nat) (message : String) : Bool → List (Line × Nat) → List String
  | _, [] => []
  | gapShown, (line, index) :: more =>
    if line.offset ≤ last && last < line.offset + line.text.length then
      let total := (columnsOf line (line.text.length + 2)).sum
      [m.number index ++ "├─▶ " ++ shownText line, m.bar ++ "│   " ++ repeated total " ",
        m.bar ++ "╰───" ++ repeated total "─" ++ " " ++ message] ++
        markedTail m last message gapShown more
    else if gapShown then markedTail m last message gapShown more
    else (m.gap ++ "┆   ") :: markedTail m last message true more

/-- The rows for a mark over several lines. -/
def markedLines (m : Margin) (lines : List (Line × Nat)) (last : Nat) (message : String) :
    List String :=
  match lines with
  | [] => []
  | (line, index) :: more =>
    (m.number index ++ "╭─▶ " ++ shownText line) :: markedTail m last message false more

/-! ### Rendering -/

/-- Rows as text, each ended by a line feed. -/
def rowsText (rows : List String) : String := String.join (rows.map (· ++ "\n"))

/-- The rows of the hint.  Where several lines are marked it keeps clear of the mark. -/
def hintRows (m : Margin) (hint : Option String) (inset : String) : List String :=
  match hint with
  | none => []
  | some text => [m.bar ++ inset, m.bar ++ inset ++ "Help: " ++ text]

/-- The drawing of a report.  A place outside the source is not shown. -/
def Picture.draw (p : Picture) : String :=
  let chars := p.source.toList
  let lines := linesFrom 0 chars
  let title := "[" ++ p.code ++ "] " ++ p.kind ++ ": " ++ p.message
  let last := if p.range.start < p.range.stop then p.range.stop - 1 else p.range.start
  if chars.length < p.range.start || chars.length < last then rowsText [title]
  else
    match lineAt? lines p.range.start, lineAt? lines last with
    | some (first, a), some (_, z) =>
      let m : Margin := ⟨(toString (z + 1)).length⟩
      let place := toString (a + 1) ++ ":" ++ toString (p.range.start - first.offset + 1)
      let firstLength := (lines.head?.map (·.text.length)).getD 0
      let inset :=
        if a = z then "" else if p.range.start = firstLength then "│   " else "    "
      let marked :=
        if a = z then markedLine m first a p.range.start p.range.stop p.message
        else markedLines m ((lines.zipIdx.drop a).take (z + 1 - a)) last p.message
      rowsText
        ([title, m.blank ++ "╭─[" ++ p.fileName ++ ":" ++ place ++ "]", m.blank ++ "│"] ++ marked ++
          hintRows m p.hint inset ++ [repeated (m.width + 2) "─" ++ "╯"])
    | _, _ => rowsText [title]

/-- A report on a source. -/
def Report.render (r : Report) (source fileName : String) : String := r.drawn (some ·.draw) source fileName

/-- All reports on a source. -/
def Findings.render (f : Findings) (source fileName : String) : String := f.drawn (some ·.draw) source fileName

end ThreeAddress
