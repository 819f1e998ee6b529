import ThreeAddress.Reading.Program

/-!
# Reading by positions

The routines of the reader once more, over a list of lexemes and a position in it.  Here a lookup can miss the list, a
position can be taken back to before the first one, and nothing but a budget bounds recursions and repetitions.

* `Landing` — what such a routine comes to: a value or a fault and the position afterwards, or neither;
* `Positional` — routines, one after another;
* `Positional.lexemeAt`, `Positional.stepBack` — the two steps that can go astray;
* `Positional.chain`, `Positional.many`, `Positional.commaList` — repetitions;
* `Positional.expression`, `Positional.condition`, `Positional.statement`, `Positional.program` — the grammar.

The first number that a routine takes is its budget: how deep recursions and repetitions may go.
-/

namespace ThreeAddress

/-! ### Routines over positions -/

/-- What a routine comes to.  It goes astray where it looks up or goes to a position that is not there, and does not
finish where the budget is used up. -/
inductive Landing (α : Type)
  | done (value : α) (position : Nat)
  | failed (fault : Fault) (position : Nat)
  | astray
  | unfinished
deriving DecidableEq

/-- A routine that reads a list of lexemes from a position on. -/
def Positional (α : Type) := List Lexeme → Nat → Landing α

namespace Positional

variable {α ω : Type}

instance : Monad Positional where
  pure a := fun _ p => .done a p
  bind m f := fun ls p =>
    match m ls p with
    | .done a q => f a ls q
    | .failed fault q => .failed fault q
    | .astray => .astray
    | .unfinished => .unfinished

/-- Only a value leads on. -/
theorem bind_eq {β : Type} (m : Positional α) (f : α → Positional β) (ls : List Lexeme) (p : Nat) :
    (m >>= f) ls p =
      match m ls p with
      | .done a q => f a ls q
      | .failed fault q => .failed fault q
      | .astray => .astray
      | .unfinished => .unfinished := rfl

/-- Give up for want of budget. -/
def unfinished : Positional α := fun _ _ => .unfinished

/-- The lexeme at a place, which has to be there. -/
def lexemeAt (i : Nat) : Positional Lexeme := fun ls p =>
  match ls[i]? with
  | some l => .done l p
  | none => .astray

/-- Go back by one position; there has to be one. -/
def stepBack : Positional Unit := fun _ p => if p = 0 then .astray else .done () (p - 1)

/-- Where the routine stands. -/
def position : Positional Nat := fun _ p => .done p p

/-- Go to a position that was noted before. -/
def goTo (p : Nat) : Positional Unit := fun _ _ => .done () p

/-- The lexeme some places ahead, if there is one. -/
def ahead? (k : Nat) : Positional (Option Lexeme) := fun ls p => .done ls[p + k]? p

/-- The next token. -/
def peek : Positional (Option Token) := return (← ahead? 0).map (·.token)

/-- The span of the next token. -/
def peekSpan : Positional (Option Span) := return (← ahead? 0).map (·.span)

/-- Take the next lexeme, if there is one. -/
def advance : Positional (Option Lexeme) := fun ls p =>
  match ls[p]? with
  | some l => .done (some l) (p + 1)
  | none => .done none p

/-- The first lexeme of the list. -/
def first? : Positional (Option Lexeme) := fun ls p => .done ls.head? p

/-- The span of the lexeme before the position; before the first one, the span of that one. -/
def previousSpan : Positional Span := do
  let p ← position
  if 0 < p then return (← lexemeAt (p - 1)).span
  else
    match ← first? with
    | some l => return l.span
    | none => return .origin

/-- The span of the next token, or at the end the one before. -/
def here : Positional Span := do
  match ← peekSpan with
  | some s => return s
  | none => previousSpan

/-- From a start up to the lexeme before the position. -/
def spanFrom (start : Span) : Positional Span := return start.merge (← previousSpan)

/-- End with a fault. -/
def throw (fault : Fault) : Positional α := fun _ p => .failed fault p

/-- The fault of a routine as a value. -/
def attempt (m : Positional α) : Positional (Except Fault α) := fun ls p =>
  match m ls p with
  | .done a q => .done (.ok a) q
  | .failed fault q => .done (.error fault) q
  | .astray => .astray
  | .unfinished => .unfinished

/-- Fail for a cause, at the next token. -/
def fail (cause : SyntaxCause) : Positional α := do
  throw ⟨cause.code, cause.message, ← here, none⟩

/-- Fail because something is missing. -/
def lacks (sort : Wanted) (wanted : String) : Positional α := do
  fail (.missing sort wanted (← peek))

/-- Whether the next token is a given one. -/
def check (t : Token) : Positional Bool := return (← peek) = some t

/-- Take the next token if it is a given one. -/
def matchToken (t : Token) : Positional Bool := do
  if ← check t then
    let _ ← advance
    return true
  else return false

/-- Take the next lexeme if the test picks a value from its token. -/
def takeIf (pick : Token → Option α) (sort : Wanted) (wanted : String) : Positional (α × Span) := do
  match (← peek).bind pick with
  | some a =>
    match ← advance with
    | some l => return (a, l.span)
    | none => lacks sort wanted
  | none => lacks sort wanted

/-- Take a given token. -/
def expect (t : Token) (wanted : String) : Positional Span :=
  return (← takeIf (fun u => if u = t then some () else none) .token wanted).2

/-- Take an identifier. -/
def expectName (wanted : String) : Positional (String × Span) := takeIf Token.name? .identifier wanted

/-! ### Repetitions -/

/-- Operators and operands in turn. -/
def chain (operator? : Token → Option ω) (join : ω → α → α → α) (operand : Positional α) : Nat → α → Positional α
  | 0, _ => unfinished
  | n + 1, left => do
    match (← peek).bind operator? with
    | none => return left
    | some op =>
      let _ ← advance
      let right ← operand
      chain operator? join operand n (join op left right)

/-- Items as long as the next token starts one. -/
def many (starts : Token → Bool) (item : Positional α) : Nat → Positional (List α)
  | 0 => unfinished
  | n + 1 => do
    if (← peek).any starts then
      let a ← item
      let more ← many starts item n
      return a :: more
    else return []

/-- Items with commas between them. -/
def commaList (item : Positional α) : Nat → Positional (List α)
  | 0 => unfinished
  | n + 1 => do
    let a ← item
    if ← matchToken (.mark .comma) then
      let more ← commaList item n
      return a :: more
    else return [a]

/-- Items with commas between them before a closing parenthesis; there may be none. -/
def listed (item : Positional α) (n : Nat) : Positional (List α) := do
  if ← check (.mark .rightParen) then return [] else commaList item n

/-! ### Expressions -/

/-- An argument of a call. -/
def argument : Positional Argument := do
  let wanted := if (← peek).isNone then "argument" else "identifier or number as argument"
  let (atom, span) ← takeIf Atom.ofToken? .expression wanted
  return ⟨atom, span⟩

/-- A call behind its name. -/
def call (n : Nat) (name : String) (start : Span) : Positional Call := do
  let _ ← expect (.mark .leftParen) "'(' after function name"
  let args ← listed argument n
  let _ ← expect (.mark .rightParen) "')' after arguments"
  return ⟨name, args, ← spanFrom start⟩

/-- The name or numeral behind a minus. -/
def negated : Positional Fragment := do
  match (← peek).bind Atom.ofToken? with
  | none => fail .signWithoutOperand
  | some operand =>
    let _ ← advance
    return .atom true operand

/-- The fragment that a token is by itself.  If it is none, its lexeme is given back. -/
def tokenFragment (t : Token) : Positional Fragment :=
  match Fragment.ofToken? t with
  | some f => return f
  | none => do
    stepBack
    lacks .expression "expression"

/-- What a fragment holds behind its first lexeme. -/
def fragmentFrom (l : Lexeme) : Positional Fragment :=
  match l.token with
  | .mark .minus => negated
  | .mark .not => return .not (← expectName "identifier after '!'").1
  | t => tokenFragment t

/-- A fragment.  Its first lexeme is taken before it is looked at, and given back if no fragment starts with it. -/
def fragment : Positional Expr := do
  match ← advance with
  | none => lacks .expression "expression"
  | some l =>
    let f ← fragmentFrom l
    return .fragment f (← spanFrom l.span)

mutual

/-- An expression. -/
def expression : Nat → Positional Expr
  | 0 => unfinished
  | n + 1 => do
    let left ← sum n
    chain Connective.ofToken? Expr.joinLogic (sum n) n left

/-- A sum. -/
def sum : Nat → Positional Expr
  | 0 => unfinished
  | n + 1 => do
    let left ← term n
    chain ArithOp.ofToken? Expr.joinArith (term n) n left

/-- A term. -/
def term : Nat → Positional Expr
  | 0 => unfinished
  | n + 1 => do
    match ← peek with
    | some (.mark .leftParen) =>
      let start ← expect (.mark .leftParen) "'('"
      let inner ← expression n
      let _ ← expect (.mark .rightParen) "')' after expression"
      return .paren inner (← spanFrom start)
    | some (.identifier _) =>
      if (← ahead? 1).map (·.token) = some (.mark .leftParen) then
        let (name, start) ← expectName "function name"
        let c ← call n name start
        return .call c c.span
      else fragment
    | _ => fragment

end

/-! ### Conditions -/

/-- A comparison. -/
def comparison (n : Nat) : Positional Cond := do
  let left ← sum n
  let (op, _) ← takeIf Relation.ofToken? .condition "comparison operator"
  let right ← sum n
  let span := left.span.merge right.span
  match op with
  | .inl order => return .comparison order left right span
  | .inr same => return .equality same left right span

/-- An atom of a condition that is no comparison, from its first lexeme on: a negation, a group or a truth value; or
the fault of the comparison that has been tried. -/
def otherAtomFrom (atom condition : Positional Cond) (fault : Fault) (l : Lexeme) : Positional Cond :=
  match l.token with
  | .mark .not => do
    let _ ← advance
    let inner ← atom
    return .neg inner (← spanFrom l.span)
  | .mark .leftParen => do
    let _ ← advance
    let inner ← condition
    let _ ← expect (.mark .rightParen) "')' after condition"
    return .paren inner (← spanFrom l.span)
  | .word .true => do
    let _ ← advance
    return .bool true l.span
  | .word .false => do
    let _ ← advance
    return .bool false l.span
  | _ => throw fault

/-- An atom of a condition once a comparison has failed, back at the start. -/
def otherAtom (atom condition : Positional Cond) (checkpoint : Nat) (fault : Fault) : Positional Cond := do
  goTo checkpoint
  match ← ahead? 0 with
  | none => throw fault
  | some l => otherAtomFrom atom condition fault l

mutual

/-- A condition. -/
def condition : Nat → Positional Cond
  | 0 => unfinished
  | n + 1 => do
    let left ← conditionAtom n
    chain Connective.ofToken? Cond.join (conditionAtom n) n left

/-- An atom of a condition. -/
def conditionAtom : Nat → Positional Cond
  | 0 => unfinished
  | n + 1 => do
    let checkpoint ← position
    match ← attempt (comparison n) with
    | .ok cond => return cond
    | .error fault => otherAtom (conditionAtom n) (condition n) checkpoint fault

end

/-! ### Declarations -/

/-- The name of a type. -/
def type : Positional Ty := return (← takeIf Ty.ofToken? .type "type").1

/-- The declaration of a variable. -/
def varDecl : Positional Decl := do
  let start ← expect (.word .var) "'var'"
  let (name, _) ← expectName "variable name after 'var'"
  let _ ← expect (.mark .colon) "':' after variable name"
  let ty ← type
  let _ ← expect (.mark .semicolon) "';' after variable declaration"
  return .var name ty (← spanFrom start)

/-- The declaration of a constant. -/
def constDecl (n : Nat) : Positional Decl := do
  let start ← expect (.word .const) "'const'"
  let (name, _) ← expectName "constant name after 'const'"
  let _ ← expect (.mark .colon) "':' after constant name"
  let ty ← type
  let _ ← expect (.mark .assign) "'=' in constant declaration"
  let value ← expression n
  let _ ← expect (.mark .semicolon) "';' after constant declaration"
  return .const name ty value (← spanFrom start)

/-- The declaration that the next token announces. -/
def declaration (n : Nat) : Positional Decl := do
  if ← check (.word .const) then constDecl n else varDecl

/-- Declarations as long as they follow. -/
def declarations (n : Nat) : Positional (List Decl) := many Decl.starts (declaration n) n

/-! ### Statements -/

/-- The statement that does nothing. -/
def skipStatement : Positional Stmt := do
  let start ← expect (.word .skip) "'skip'"
  let _ ← expect (.mark .semicolon) "';' after 'skip'"
  return .skip (← spanFrom start)

/-- The statement that starts with a name. -/
def namedStatement (n : Nat) : Positional Stmt := do
  let (name, start) ← expectName "identifier"
  match ← peek with
  | some (.mark .assign) =>
    let _ ← advance
    let value ← expression n
    let _ ← expect (.mark .semicolon) "';' after assignment"
    let span ← spanFrom start
    return .assign name value span span
  | some (.mark .leftParen) =>
    let c ← call n name start
    let _ ← expect (.mark .semicolon) "';' after function call"
    return .call c (← spanFrom start)
  | _ => fail (.neitherAssignedNorCalled name)

mutual

/-- Statements up to a closing brace, a `return` or the end. -/
def statements : Nat → Positional (List Stmt)
  | 0 => unfinished
  | n + 1 => many Stmt.goesOn (statement n) n

/-- One statement. -/
def statement : Nat → Positional Stmt
  | 0 => unfinished
  | n + 1 => do
    match ← peek with
    | some (.word .ite) => ifStatement n
    | some (.word .loop) => whileStatement n
    | some (.word .skip) => skipStatement
    | some (.mark .leftBrace) =>
      let b ← block n
      return .block b b.span
    | some (.identifier _) => namedStatement n
    | some (.word .var) | some (.word .const) => fail .lateDeclaration
    | _ => lacks .statement "statement"

/-- A choice between two blocks. -/
def ifStatement : Nat → Positional Stmt
  | 0 => unfinished
  | n + 1 => do
    let start ← expect (.word .ite) "'if'"
    let cond ← condition n
    let thenBlock ← block n
    let _ ← expect (.word .otherwise) "'else' after if block"
    let elseBlock ← block n
    return .ite cond thenBlock elseBlock (start.merge elseBlock.span)

/-- A repeated block. -/
def whileStatement : Nat → Positional Stmt
  | 0 => unfinished
  | n + 1 => do
    let start ← expect (.word .loop) "'while'"
    let cond ← condition n
    let body ← block n
    return .loop cond body (start.merge body.span)

/-- Statements between braces. -/
def block : Nat → Positional Block
  | 0 => unfinished
  | n + 1 => do
    let start ← expect (.mark .leftBrace) "'\x7b'"
    let stmts ← statements n
    if ← check (.word .ret) then fail .returnInBlock
    else
      let _ ← expect (.mark .rightBrace) "'\x7d' after block"
      return ⟨stmts, ← spanFrom start⟩

end

/-! ### Functions and programs -/

/-- A parameter. -/
def parameter : Positional Param := do
  let (name, start) ← expectName "parameter name"
  let _ ← expect (.mark .colon) "':' after parameter name"
  let ty ← type
  return ⟨name, ty, ← spanFrom start⟩

/-- The parameters before a closing parenthesis. -/
def parameterList (n : Nat) : Positional (List Param) := listed parameter n

/-- The value of a return, if there is one. -/
def returned (n : Nat) : Positional (Option Expr) := do
  if ← check (.mark .rightParen) then return none else return some (← expression n)

/-- A function. -/
def function (n : Nat) : Positional Func := do
  let start ← here
  let returnType ← type
  let (name, _) ← expectName "function name"
  let _ ← expect (.mark .leftParen) "'(' after function name"
  let params ← parameterList n
  let _ ← expect (.mark .rightParen) "')' after parameters"
  let bodyStart ← expect (.mark .leftBrace) "'\x7b' before function body"
  let decls ← declarations n
  let stmts ← statements n
  let bodySpan ← spanFrom bodyStart
  let _ ← expect (.word .ret) "'return' at the end of the function body"
  let _ ← expect (.mark .leftParen) "'(' after 'return'"
  let returnValue ← returned n
  let _ ← expect (.mark .rightParen) "')' after return value"
  let _ ← expect (.mark .semicolon) "';' after return"
  let _ ← expect (.mark .rightBrace) "'\x7d' after return"
  return ⟨name, params, decls, ⟨stmts, bodySpan⟩, returnType, returnValue, ← spanFrom start⟩

/-- The main part. -/
def main (n : Nat) : Positional Main := do
  if ← check (.word .main) then
    let start ← expect (.word .main) "'main'"
    let bodyStart ← expect (.mark .leftBrace) "'\x7b' after 'main'"
    let decls ← declarations n
    let stmts ← statements n
    if ← check (.word .ret) then fail .returnInMain
    else
      let _ ← expect (.mark .rightBrace) "'\x7d' after main body"
      let bodySpan ← spanFrom bodyStart
      return ⟨decls, ⟨stmts, bodySpan⟩, ← spanFrom start⟩
  else fail (.missingMain (← peek))

/-- A whole program. -/
def program (n : Nat) : Positional Program := do
  let decls ← declarations n
  let funcs ← many Token.isType (function n) n
  let mainPart ← main n
  match ← peek with
  | some found => fail (.afterMain found)
  | none => return ⟨decls, funcs, mainPart⟩

end Positional

end ThreeAddress
