import ThreeAddress.Fault
import ThreeAddress.Token

/-!
# Scanning a text into tokens

A text is cut into pieces from left to right.  Each piece is as long as it can be: a run of blanks, a
comment, a word, a number, or the longest mark that fits.  Blanks and comments are dropped, the other
pieces become tokens with the span of their bytes.

* `munch` — the first piece of a non-empty text;
* `scan` — all pieces of a text that starts at a given offset;
* `tokenize` — the tokens of a whole source, or the first lexical fault.
-/

namespace ThreeAddress

/-! ### Character classes -/

/-- The blanks between tokens: space, tab, carriage return, line feed and form feed. -/
def isBlank (c : Char) : Bool :=
  c == ' ' || c == '\t' || c == '\r' || c == '\n' || c == '\x0c'

/-- A word starts with an ASCII letter or an underscore. -/
def isWordStart (c : Char) : Bool := c.isAlpha || c == '_'

/-- A word goes on with ASCII letters, digits and underscores. -/
def isWordPart (c : Char) : Bool := c.isAlphanum || c == '_'

/-- The number of bytes of a text in UTF-8. -/
def byteLength (text : List Char) : Nat := text.foldr (fun c n => c.utf8Size + n) 0

/-! ### Lexical faults -/

/-- Why no piece could be cut off. -/
inductive LexicalCause
  | invalidCharacter (c : Char)
  | unterminatedComment
deriving DecidableEq

namespace LexicalCause

/-- The code of a lexical fault. -/
def code : LexicalCause → FaultCode
  | .invalidCharacter _ => .invalidCharacter
  | .unterminatedComment => .unterminatedComment

/-- The wording of a lexical fault. -/
def message : LexicalCause → String
  | .invalidCharacter c => "Invalid character '" ++ c.toString ++ "'"
  | .unterminatedComment => "Unterminated block comment"

/-- How many bytes the fault marks: the character that fits nothing, or the opening of the comment. -/
def extent : LexicalCause → Nat
  | .invalidCharacter c => c.utf8Size
  | .unterminatedComment => 2

/-- The fault at a byte offset. -/
def fault (cause : LexicalCause) (offset : Nat) : Fault :=
  ⟨cause.code, cause.message, ⟨offset, offset + cause.extent⟩, none⟩

end LexicalCause

/-! ### Cutting off one piece -/

/-- A piece cut off the front of a text: what it stands for (nothing if it is skipped), its
characters, and the text behind it. -/
structure Munch where
  token : Option Token
  taken : List Char
  rest : List Char

/-- The longest mark at the front of a text given by its first character and the others. -/
def munchMark : Char → List Char → Option Munch
  | '!', '=' :: r => some ⟨some (.mark .notEqual), ['!', '='], r⟩
  | '&', '&' :: r => some ⟨some (.mark .and), ['&', '&'], r⟩
  | '|', '|' :: r => some ⟨some (.mark .or), ['|', '|'], r⟩
  | '=', '=' :: r => some ⟨some (.mark .equal), ['=', '='], r⟩
  | '<', '=' :: r => some ⟨some (.mark .lessEqual), ['<', '='], r⟩
  | '>', '=' :: r => some ⟨some (.mark .greaterEqual), ['>', '='], r⟩
  | '!', r => some ⟨some (.mark .not), ['!'], r⟩
  | '=', r => some ⟨some (.mark .assign), ['='], r⟩
  | '<', r => some ⟨some (.mark .less), ['<'], r⟩
  | '>', r => some ⟨some (.mark .greater), ['>'], r⟩
  | '+', r => some ⟨some (.mark .plus), ['+'], r⟩
  | '-', r => some ⟨some (.mark .minus), ['-'], r⟩
  | '(', r => some ⟨some (.mark .leftParen), ['('], r⟩
  | ')', r => some ⟨some (.mark .rightParen), [')'], r⟩
  | '\x7b', r => some ⟨some (.mark .leftBrace), ['\x7b'], r⟩
  | '\x7d', r => some ⟨some (.mark .rightBrace), ['\x7d'], r⟩
  | ',', r => some ⟨some (.mark .comma), [','], r⟩
  | ':', r => some ⟨some (.mark .colon), [':'], r⟩
  | ';', r => some ⟨some (.mark .semicolon), [';'], r⟩
  | _, _ => none

/-- The text up to and including the first closing of a block comment, and the text behind it. -/
def closeComment : List Char → Option (List Char × List Char)
  | [] => none
  | [_] => none
  | c :: d :: r =>
    if c = '*' ∧ d = '/' then some ([c, d], r)
    else (closeComment (d :: r)).map fun p => (c :: p.1, p.2)

/-- The token that a word stands for. -/
def Token.ofWord (w : String) : Token :=
  match Keyword.ofText? w with
  | some k => .word k
  | none => .identifier w

/-- A run of characters of a class, the first of them already known. -/
def munchRun (p : Char → Bool) (c : Char) (cs : List Char) (token : String → Option Token) : Munch :=
  let taken := c :: cs.takeWhile p
  ⟨token (String.ofList taken), taken, cs.dropWhile p⟩

/-- The first piece of a text given by its first character and the others. -/
def munch (c : Char) (cs : List Char) : Except LexicalCause Munch :=
  if isBlank c then .ok (munchRun isBlank c cs fun _ => none)
  else if isWordStart c then .ok (munchRun isWordPart c cs fun w => some (Token.ofWord w))
  else if c.isDigit then .ok (munchRun Char.isDigit c cs fun d => some (.number d))
  else match c, cs with
    | '/', '/' :: r => .ok ⟨none, '/' :: '/' :: r.takeWhile (· != '\n'), r.dropWhile (· != '\n')⟩
    | '/', '*' :: r =>
      match closeComment r with
      | some (body, rest) => .ok ⟨none, '/' :: '*' :: body, rest⟩
      | none => .error .unterminatedComment
    | _, _ =>
      match munchMark c cs with
      | some m => .ok m
      | none => .error (.invalidCharacter c)

/-! ### Every piece is taken off the front -/

theorem closeComment_append {text body rest : List Char} (h : closeComment text = some (body, rest)) :
    body ++ rest = text := by
  fun_induction closeComment text generalizing body rest with
  | case1 => simp at h
  | case2 => simp at h
  | case3 c d r hcd =>
    simp only [Option.some.injEq, Prod.mk.injEq] at h
    obtain ⟨rfl, rfl⟩ := h
    rfl
  | case4 c d r hcd ih =>
    obtain ⟨⟨b, t⟩, hb, he⟩ := Option.map_eq_some_iff.1 h
    simp only [Prod.mk.injEq] at he
    obtain ⟨rfl, rfl⟩ := he
    simp [ih hb]

theorem munchMark_append {c : Char} {cs : List Char} {m : Munch} (h : munchMark c cs = some m) :
    m.taken ++ m.rest = c :: cs := by
  unfold munchMark at h
  split at h <;> simp_all <;> subst h <;> simp

theorem munchMark_ne_nil {c : Char} {cs : List Char} {m : Munch} (h : munchMark c cs = some m) :
    m.taken ≠ [] := by
  unfold munchMark at h
  split at h <;> simp_all <;> subst h <;> simp

/-- Nothing is lost: the piece and the text behind it make up the text. -/
theorem munch_append {c : Char} {cs : List Char} {m : Munch} (h : munch c cs = .ok m) :
    m.taken ++ m.rest = c :: cs := by
  unfold munch at h
  split at h
  · cases h; simp [munchRun]
  split at h
  · cases h; simp [munchRun]
  split at h
  · cases h; simp [munchRun]
  split at h
  · cases h; simp
  · split at h
    · rename_i hc
      cases h
      simp [closeComment_append hc]
    · cases h
  · split at h
    · rename_i hm
      cases h
      exact munchMark_append hm
    · cases h

/-- A piece holds at least one character. -/
theorem munch_ne_nil {c : Char} {cs : List Char} {m : Munch} (h : munch c cs = .ok m) :
    m.taken ≠ [] := by
  unfold munch at h
  split at h
  · cases h; simp [munchRun]
  split at h
  · cases h; simp [munchRun]
  split at h
  · cases h; simp [munchRun]
  split at h
  · cases h; simp
  · split at h
    · cases h; simp
    · cases h
  · split at h
    · rename_i hm
      cases h
      exact munchMark_ne_nil hm
    · cases h

theorem munch_rest_lt {c : Char} {cs : List Char} {m : Munch} (h : munch c cs = .ok m) :
    m.rest.length < (c :: cs).length := by
  rw [← munch_append h, List.length_append]
  have := List.length_pos_iff.2 (munch_ne_nil h)
  omega

/-! ### The whole text -/

/-- The tokens of a text that starts at the given byte offset. -/
def scan (offset : Nat) (text : List Char) : Except Fault (List Lexeme) :=
  match text with
  | [] => .ok []
  | c :: cs =>
    match _h : munch c cs with
    | .error cause => .error (cause.fault offset)
    | .ok m =>
      let next := offset + byteLength m.taken
      match scan next m.rest with
      | .error fault => .error fault
      | .ok more =>
        match m.token with
        | none => .ok more
        | some t => .ok (⟨t, ⟨offset, next⟩⟩ :: more)
termination_by text.length
decreasing_by exact munch_rest_lt _h

/-- The tokens of a source. -/
def tokenize (source : String) : Except Fault (List Lexeme) := scan 0 source.toList

end ThreeAddress
