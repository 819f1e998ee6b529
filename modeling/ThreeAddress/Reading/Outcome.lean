import ThreeAddress.Fault
import ThreeAddress.Token

/-!
# Reading positions and outcomes

A routine reads from a cursor into a list of lexemes.  It either delivers a value or fails with a
fault; in both cases it says where it stopped, and nothing is ever given back.

* `Cursor` — the lexemes still to come, and the span of the one taken last;
* `SyntaxCause` — why a routine fails;
* `Outcome k c α` — what a routine that started at `c` comes to.  A delivery has taken at least `k`
  lexemes and a failure has not gone back, which is what lets the routines call each other;
* `Outcome.andThen` — one routine after another;
* `Cursor.chain`, `Cursor.many`, `Cursor.commaList` — the three repetitions of the grammar.
-/

namespace ThreeAddress

/-! ### Cursors -/

/-- A position in a list of lexemes. -/
structure Cursor where
  previous : Option Span
  rest : List Lexeme
deriving DecidableEq

namespace Cursor

/-- The position before the first lexeme. -/
def ofLexemes (ls : List Lexeme) : Cursor := ⟨none, ls⟩

/-- The number of lexemes still to come. -/
def size (c : Cursor) : Nat := c.rest.length

/-- The next token. -/
def next? (c : Cursor) : Option Token := c.rest.head?.map (·.token)

/-- The token behind the next one. -/
def second? (c : Cursor) : Option Token := c.rest.tail.head?.map (·.token)

/-- The span of the lexeme taken last; before the first one, the span of that one. -/
def previousSpan (c : Cursor) : Span :=
  match c.previous, c.rest with
  | some s, _ => s
  | none, l :: _ => l.span
  | none, [] => .origin

/-- Where a complaint about the next token is placed: there, or at the end of the list at the last
token. -/
def here (c : Cursor) : Span :=
  match c.rest with
  | l :: _ => l.span
  | [] => c.previousSpan

/-- From a start up to the lexeme taken last. -/
def spanFrom (c : Cursor) (start : Span) : Span := start.merge c.previousSpan

/-- The position behind a lexeme. -/
def behind (l : Lexeme) (rest : List Lexeme) : Cursor := ⟨some l.span, rest⟩

theorem behind_size {c : Cursor} {l : Lexeme} {rest : List Lexeme} (h : c.rest = l :: rest) :
    (behind l rest).size + 1 = c.size := by
  simp [behind, size, h]

theorem behind_size_le {c : Cursor} {l : Lexeme} {rest : List Lexeme} (h : c.rest = l :: rest) :
    (behind l rest).size + 1 ≤ c.size := Nat.le_of_eq (behind_size h)

/-- A walk may begin where the cursor stands. -/
theorem size_le_size (c : Cursor) : c.size ≤ c.size := Nat.le_refl _

end Cursor

/-! ### Causes of failure -/

/-- What a routine was looking for. -/
inductive Wanted
  | token
  | identifier
  | type
  | expression
  | condition
  | statement
deriving DecidableEq

/-- The code for something that is missing. -/
def Wanted.code : Wanted → FaultCode
  | .token => .unexpectedToken
  | .identifier => .expectedIdentifier
  | .type => .expectedType
  | .expression => .expectedExpression
  | .condition => .expectedCondition
  | .statement => .expectedStatement

/-- Why a routine fails. -/
inductive SyntaxCause
  | missing (sort : Wanted) (wanted : String) (found : Option Token)
  | missingMain (found : Option Token)
  | afterMain (found : Token)
  | neitherAssignedNorCalled (name : String)
  | signWithoutOperand
  | returnInMain
  | returnInBlock
  | lateDeclaration
deriving DecidableEq

/-- A token that was found, or the end of the list. -/
def foundText : Option Token → String
  | some t => "'" ++ t.text ++ "'"
  | none => "end of file"

namespace SyntaxCause

/-- The code of a cause.  Whatever is missing at the end of the list is missing for that reason, the
main part excepted. -/
def code : SyntaxCause → FaultCode
  | .missing _ _ none => .unexpectedEnd
  | .missing sort _ (some _) => sort.code
  | .missingMain _ => .expectedMain
  | .afterMain _ => .unexpectedToken
  | .neitherAssignedNorCalled _ => .unexpectedToken
  | .signWithoutOperand => .expectedExpression
  | .returnInMain => .expectedStatement
  | .returnInBlock => .expectedStatement
  | .lateDeclaration => .expectedStatement

/-- The wording of a cause. -/
def message : SyntaxCause → String
  | .missing _ wanted found => "Expected " ++ wanted ++ ", found " ++ foundText found
  | .missingMain found => "Expected 'main', found " ++ foundText found
  | .afterMain found => "Unexpected '" ++ found.text ++ "' after main"
  | .neitherAssignedNorCalled name => "Expected '=' or '(' after '" ++ name ++ "'"
  | .signWithoutOperand => "Expected identifier or number after '-'"
  | .returnInMain => "'main' cannot contain a return"
  | .returnInBlock => "'return' is only allowed at the end of a function body"
  | .lateDeclaration => "Declarations must come before the first statement"

end SyntaxCause

/-! ### Outcomes -/

/-- What a routine that started at `start` comes to: a value with at least `k` lexemes taken, or a
fault; and where it stopped. -/
inductive Outcome (k : Nat) (start : Cursor) (α : Type)
  | done (value : α) (stop : Cursor) (le : stop.size + k ≤ start.size)
  | failed (fault : Fault) (stop : Cursor) (le : stop.size ≤ start.size)

namespace Outcome

variable {α β : Type} {k j : Nat} {c d : Cursor}

/-- The value, or the fault. -/
def result : Outcome k c α → Except Fault α
  | .done a _ _ => .ok a
  | .failed f _ _ => .error f

/-- Where the routine stopped. -/
def stop : Outcome k c α → Cursor
  | .done _ d _ => d
  | .failed _ d _ => d

/-- Change the value. -/
def map (f : α → β) : Outcome k c α → Outcome k c β
  | .done a d h => .done (f a) d h
  | .failed x d h => .failed x d h

/-- What starts later is seen from an earlier start. -/
def since (h : d.size + k ≤ c.size) : Outcome j d α → Outcome k c α
  | .done a e h' => .done a e (by omega)
  | .failed x e h' => .failed x e (by omega)

/-- One routine after another; the second does not run if the first fails. -/
def andThen (o : Outcome k c α) (f : α → (d : Cursor) → d.size + k ≤ c.size → Outcome j d β) :
    Outcome k c β :=
  match o with
  | .done a d h => (f a d h).since h
  | .failed x d h => .failed x d h

/-- Forget how many lexemes were taken. -/
def weaken (o : Outcome k c α) : Outcome 0 c α :=
  match o with
  | .done a d h => .done a d (by omega)
  | .failed x d h => .failed x d h

end Outcome

namespace Cursor

variable {α ω : Type} {k : Nat}

/-- Deliver a value without taking anything. -/
def give (c : Cursor) (a : α) : Outcome 0 c α := .done a c (Nat.le_refl _)

/-- Fail where the cursor stands. -/
def fail (c : Cursor) (cause : SyntaxCause) : Outcome k c α :=
  .failed ⟨cause.code, cause.message, c.here, none⟩ c (Nat.le_refl _)

/-- Fail because something is missing. -/
def lacks (c : Cursor) (sort : Wanted) (wanted : String) : Outcome k c α :=
  c.fail (.missing sort wanted c.next?)

/-- Take the next lexeme if the test picks a value from its token. -/
def takeIf (c : Cursor) (pick : Token → Option α) (sort : Wanted) (wanted : String) :
    Outcome 1 c (α × Span) :=
  match h : c.rest with
  | [] => c.lacks sort wanted
  | l :: rest =>
    match pick l.token with
    | some a => .done (a, l.span) (behind l rest) (behind_size_le h)
    | none => c.lacks sort wanted

/-- Take a given token and say where it stands. -/
def expect (c : Cursor) (t : Token) (wanted : String) : Outcome 1 c Span :=
  (c.takeIf (fun u => if u = t then some () else none) .token wanted).map (·.2)

/-- Take an identifier: its name and where it stands. -/
def expectName (c : Cursor) (wanted : String) : Outcome 1 c (String × Span) :=
  c.takeIf Token.name? .identifier wanted

/-! ### Repetitions -/

/-- Operators and operands in turn, joined to the left, as long as operators follow. -/
def chain (operator? : Token → Option ω) (join : ω → α → α → α) (n : Nat)
    (operand : (d : Cursor) → d.size < n → Outcome 1 d α) (left : α) (c : Cursor) (hc : c.size ≤ n) :
    Outcome 0 c α :=
  match h : c.rest with
  | [] => c.give left
  | l :: rest =>
    match operator? l.token with
    | none => c.give left
    | some op =>
      have hd := behind_size h
      ((operand (behind l rest) (by omega)).andThen fun right e he =>
        chain operator? join n operand (join op left right) e (by omega)).since
          (Nat.le_trans (Nat.le_add_right _ 1) (Nat.le_of_eq hd))
termination_by c.size
decreasing_by omega

/-- Items one behind the other, as long as the next token starts one. -/
def many (starts : Token → Bool) (n : Nat)
    (item : (d : Cursor) → d.size ≤ n → Outcome 1 d α) (c : Cursor) (hc : c.size ≤ n) :
    Outcome 0 c (List α) :=
  if c.next?.any starts then
    ((item c hc).andThen fun a d _hd =>
      (many starts n item d (by omega)).map (a :: ·)).weaken
  else c.give []
termination_by c.size
decreasing_by omega

/-- One item or more, separated by commas. -/
def commaList (item : (d : Cursor) → Outcome 1 d α) (c : Cursor) : Outcome 1 c (List α) :=
  (item c).andThen fun a d _hd =>
    match h : d.rest with
    | [] => d.give [a]
    | l :: rest =>
      if l.token = .mark .comma then
        have he := behind_size h
        ((commaList item (behind l rest)).map (a :: ·)).since
          (Nat.le_trans (Nat.le_add_right _ 1) (Nat.le_of_eq he))
      else d.give [a]
termination_by c.size
decreasing_by omega

end Cursor

end ThreeAddress
