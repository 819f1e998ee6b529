import ThreeAddress.Span

/-!
# Tokens

The words and marks of the language.

* `Keyword` and `Mark` — the tokens of fixed spelling;
* `Token` — these, together with identifiers and numbers, which carry their own text;
* `Token.text` — the token as written;
* `Lexeme` — a token and the span where it stands.
-/

namespace ThreeAddress

/-- The reserved words. -/
inductive Keyword
  | var
  | const
  | ret
  | integer
  | boolean
  | void
  | main
  | ite
  | otherwise
  | loop
  | skip
  | true
  | false
deriving DecidableEq

namespace Keyword

/-- The spelling of a reserved word. -/
def text : Keyword → String
  | .var => "var"
  | .const => "const"
  | .ret => "return"
  | .integer => "integer"
  | .boolean => "boolean"
  | .void => "void"
  | .main => "main"
  | .ite => "if"
  | .otherwise => "else"
  | .loop => "while"
  | .skip => "skip"
  | .true => "true"
  | .false => "false"

/-- All reserved words. -/
def all : List Keyword :=
  [.var, .const, .ret, .integer, .boolean, .void, .main, .ite, .otherwise, .loop, .skip, .true, .false]

/-- The reserved word of this spelling, if there is one. -/
def ofText? (s : String) : Option Keyword := all.find? (·.text == s)

/-- The words that name a type. -/
def isType : Keyword → Bool
  | .integer | .boolean | .void => Bool.true
  | _ => Bool.false

end Keyword

/-- The operators and the punctuation. -/
inductive Mark
  | plus
  | minus
  | not
  | and
  | or
  | equal
  | notEqual
  | less
  | lessEqual
  | greater
  | greaterEqual
  | assign
  | leftParen
  | rightParen
  | leftBrace
  | rightBrace
  | comma
  | colon
  | semicolon
deriving DecidableEq

namespace Mark

/-- The spelling of a mark. -/
def text : Mark → String
  | .plus => "+"
  | .minus => "-"
  | .not => "!"
  | .and => "&&"
  | .or => "||"
  | .equal => "=="
  | .notEqual => "!="
  | .less => "<"
  | .lessEqual => "<="
  | .greater => ">"
  | .greaterEqual => ">="
  | .assign => "="
  | .leftParen => "("
  | .rightParen => ")"
  | .leftBrace => "\x7b"
  | .rightBrace => "\x7d"
  | .comma => ","
  | .colon => ":"
  | .semicolon => ";"

/-- The marks that compare two operands. -/
def isComparison : Mark → Bool
  | .equal | .notEqual | .less | .lessEqual | .greater | .greaterEqual => true
  | _ => false

end Mark

/-- A token.  The opening of a block comment can stand in a token list, but scanning a text never
yields it: comments are skipped. -/
inductive Token
  | word (k : Keyword)
  | identifier (name : String)
  | number (digits : String)
  | mark (m : Mark)
  | blockComment
deriving DecidableEq

namespace Token

/-- The token as written. -/
def text : Token → String
  | .word k => k.text
  | .identifier name => name
  | .number digits => digits
  | .mark m => m.text
  | .blockComment => "/*"

/-- The name that an identifier carries. -/
def name? : Token → Option String
  | .identifier name => some name
  | _ => none

/-- Whether the token is a reserved word. -/
def isKeyword : Token → Bool
  | .word _ => true
  | _ => false

/-- Whether the token names a type. -/
def isType : Token → Bool
  | .word k => k.isType
  | _ => false

/-- Whether the token compares two operands. -/
def isComparison : Token → Bool
  | .mark m => m.isComparison
  | _ => false

end Token

/-- A token and where it stands. -/
structure Lexeme where
  token : Token
  span : Span
deriving DecidableEq

end ThreeAddress
