/-!
# Lines of a text

* `Line` — a line with its terminator, and the offset of its first character;
* `linesFrom` — the lines of a text; nothing follows a last terminator, so an empty text has no line;
* `lineAt?` — the line that holds a character offset.
-/

namespace ThreeAddress

/-- The characters that end a line.  A carriage return and a line feed behind it end it together. -/
def endsLine (c : Char) : Bool :=
  c == '\n' || c == '\r' || c == '\x0b' || c == '\x0c' || c == '\u0085' || c == '\u2028' ||
    c == '\u2029'

/-- The first line of a text with its terminator, and the text behind it. -/
def breakLine : List Char → List Char × List Char
  | [] => ([], [])
  | '\r' :: '\n' :: more => (['\r', '\n'], more)
  | c :: cs =>
    if endsLine c then ([c], cs) else (c :: (breakLine cs).1, (breakLine cs).2)

/-- Nothing is lost at the end of a line. -/
theorem breakLine_append (cs : List Char) : (breakLine cs).1 ++ (breakLine cs).2 = cs := by
  fun_induction breakLine cs with
  | case1 => rfl
  | case2 => rfl
  | case3 => rfl
  | case4 c cs _ _ ih => simpa using ih

theorem breakLine_ne_nil (c : Char) (cs : List Char) : (breakLine (c :: cs)).1 ≠ [] := by
  unfold breakLine
  split
  · contradiction
  · simp
  · split <;> simp_all

theorem breakLine_rest_lt (c : Char) (cs : List Char) :
    (breakLine (c :: cs)).2.length < (c :: cs).length := by
  have hlen := congrArg List.length (breakLine_append (c :: cs))
  have hpos := List.length_pos_iff.2 (breakLine_ne_nil c cs)
  rw [List.length_append] at hlen
  omega

/-- A line with its terminator, and the offset of its first character in the text. -/
structure Line where
  offset : Nat
  text : List Char
deriving DecidableEq

/-- The lines of a text whose first character has the given offset. -/
def linesFrom (offset : Nat) (text : List Char) : List Line :=
  match text with
  | [] => []
  | c :: cs =>
    let line := (breakLine (c :: cs)).1
    ⟨offset, line⟩ :: linesFrom (offset + line.length) (breakLine (c :: cs)).2
termination_by text.length
decreasing_by exact breakLine_rest_lt c cs

/-- The last line that starts at an offset or before it, with its number counted from zero. -/
def lineAt? (lines : List Line) (offset : Nat) : Option (Line × Nat) :=
  (lines.zipIdx.takeWhile fun l => l.1.offset ≤ offset).getLast?

end ThreeAddress
