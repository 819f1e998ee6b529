/-!
# Paths of files

A path is any sequence of bytes, of which only slashes and dots mean something.

* `bytesOf`, `textOf?`, `shownBytes` — a text as bytes, bytes as the text that they encode, and as they are shown in any
  case;
* `FilePath` — a path, `FilePath.display` — as it is shown;
* `FilePath.names` — the names along a path;
* `FilePath.fileName?`, `extension?` — the final name of a path, and what follows the last dot of a name.
-/

namespace ThreeAddress

/-! ### Bytes as text -/

/-- The bytes of a text. -/
def bytesOf (text : String) : List UInt8 := text.toUTF8.data.toList

/-- The text that bytes encode. -/
def textOf? (bytes : List UInt8) : Option String := String.fromUTF8? ⟨⟨bytes⟩⟩

/-- The ranges of the bytes behind the first one of a character.  No character begins with certain bytes, and behind
some others not every continuation is allowed. -/
def continuations? (b : UInt8) : Option (List (UInt8 × UInt8)) :=
  if b < 0x80 then some []
  else if b < 0xC2 then none
  else if b < 0xE0 then some [(0x80, 0xBF)]
  else if b = 0xE0 then some [(0xA0, 0xBF), (0x80, 0xBF)]
  else if b = 0xED then some [(0x80, 0x9F), (0x80, 0xBF)]
  else if b < 0xF0 then some [(0x80, 0xBF), (0x80, 0xBF)]
  else if b = 0xF0 then some [(0x90, 0xBF), (0x80, 0xBF), (0x80, 0xBF)]
  else if b < 0xF4 then some [(0x80, 0xBF), (0x80, 0xBF), (0x80, 0xBF)]
  else if b = 0xF4 then some [(0x80, 0x8F), (0x80, 0xBF), (0x80, 0xBF)]
  else none

/-- How many bytes at the front lie in some ranges, one in each. -/
def countWithin : List (UInt8 × UInt8) → List UInt8 → Nat
  | (lo, hi) :: ranges, b :: bytes => if lo ≤ b && b ≤ hi then countWithin ranges bytes + 1 else 0
  | _, _ => 0

/-- The characters of bytes behind some that have been told already.  A beginning that no character goes on from is
told as one replacement character. -/
def shownFrom : Nat → List UInt8 → List Char
  | _, [] => []
  | told + 1, _ :: bytes => shownFrom told bytes
  | 0, b :: bytes =>
    match continuations? b with
    | none => '\uFFFD' :: shownFrom 0 bytes
    | some ranges =>
      let count := countWithin ranges bytes
      let char := if count < ranges.length then none else (textOf? (b :: bytes.take count)).bind (·.toList.head?)
      char.getD '\uFFFD' :: shownFrom count bytes

/-- Bytes as they are shown. -/
def shownBytes (bytes : List UInt8) : String := (textOf? bytes).getD (String.ofList (shownFrom 0 bytes))

/-! ### Paths -/

/-- A path as the system takes it. -/
structure FilePath where
  bytes : List UInt8
deriving DecidableEq

namespace FilePath

/-- The byte between the names of a path. -/
def slash : UInt8 := 0x2F

/-- The byte in front of an extension. -/
def dot : UInt8 := 0x2E

/-- A text as a path. -/
def ofText (text : String) : FilePath := ⟨bytesOf text⟩

/-- The text of a path. -/
def text? (p : FilePath) : Option String := textOf? p.bytes

/-- A path as it is shown. -/
def display (p : FilePath) : String := shownBytes p.bytes

/-- The names along a path, from left to right.  Slashes in a row are one. -/
def names (p : FilePath) : List (List UInt8) := (p.bytes.splitOn slash).filter fun name => !name.isEmpty

/-- The final name of a path, unless it only leads upwards.  Single dots say nothing. -/
def fileName? (p : FilePath) : Option (List UInt8) :=
  let last := (p.names.filter (· != [dot])).getLast?
  if last = some [dot, dot] then none else last

end FilePath

/-- What follows the last dot of a name, if that dot is not its first byte. -/
def extension? (name : List UInt8) : Option (List UInt8) :=
  match name.reverse.span (· != FilePath.dot) with
  | (ending, _ :: _ :: _) => some ending.reverse
  | _ => none

end ThreeAddress
