import ThreeAddress.Span

/-!
# Program trees

The tree of a program.  Every node but the program itself carries a span.

* `Ty` — the three types;
* `ArithOp`, `Connective`, `Comparison`, `Equality` — the four families of operators;
* `Expr` over `Fragment`s and `Call`s, `Cond` over expressions;
* `Stmt` and `Block`, `Decl`, `Param`, `Func`, `Main`, and `Program`.

Parentheses are nodes of their own, so a tree can be written back as it was read.
-/

namespace ThreeAddress

/-! ### Types and operators -/

/-- The types.  Nothing has the value of type `void`; it is the type of a call without result. -/
inductive Ty
  | integer
  | boolean
  | void
deriving DecidableEq

/-- Whether there are values of a type. -/
def Ty.isValue : Ty → Bool
  | .void => false
  | _ => true

/-- Sum and difference. -/
inductive ArithOp
  | plus
  | minus
deriving DecidableEq

/-- The connectives, which join expressions as well as conditions. -/
inductive Connective
  | and
  | or
deriving DecidableEq

/-- The comparisons of two integers. -/
inductive Comparison
  | less
  | greater
  | lessEqual
  | greaterEqual
deriving DecidableEq

/-- Equality and its negation. -/
inductive Equality
  | equal
  | notEqual
deriving DecidableEq

/-! ### Expressions -/

/-- What can stand as an argument: a name or a numeral. -/
inductive Atom
  | name (id : String)
  | number (digits : String)
deriving DecidableEq

/-- The smallest expressions.  The numeral `0` without a minus is a fragment of its own. -/
inductive Fragment
  | atom (negated : Bool) (operand : Atom)
  | not (id : String)
  | zero
  | bool (value : Bool)
deriving DecidableEq

/-- One argument of a call. -/
structure Argument where
  atom : Atom
  span : Span
deriving DecidableEq

/-- A call of a function. -/
structure Call where
  name : String
  args : List Argument
  span : Span
deriving DecidableEq

/-- Expressions. -/
inductive Expr
  | arith (op : ArithOp) (left right : Expr) (span : Span)
  | logic (op : Connective) (left right : Expr) (span : Span)
  | paren (inner : Expr) (span : Span)
  | call (call : Call) (span : Span)
  | fragment (fragment : Fragment) (span : Span)
deriving DecidableEq

namespace Expr

/-- The span of an expression. -/
def span : Expr → Span
  | .arith _ _ _ s | .logic _ _ _ s | .paren _ s | .call _ s | .fragment _ s => s

/-- The one name that an expression copies or negates logically, parentheses aside. -/
def referencedName? : Expr → Option String
  | .fragment (.atom false (.name id)) _ => some id
  | .fragment (.not id) _ => some id
  | .paren inner _ => inner.referencedName?
  | _ => none

end Expr

/-! ### Conditions -/

/-- Conditions of statements. -/
inductive Cond
  | comparison (op : Comparison) (left right : Expr) (span : Span)
  | equality (op : Equality) (left right : Expr) (span : Span)
  | neg (inner : Cond) (span : Span)
  | paren (inner : Cond) (span : Span)
  | binary (op : Connective) (left right : Cond) (span : Span)
  | bool (value : Bool) (span : Span)
deriving DecidableEq

/-- The span of a condition. -/
def Cond.span : Cond → Span
  | .comparison _ _ _ s | .equality _ _ _ s | .neg _ s | .paren _ s | .binary _ _ _ s | .bool _ s => s

/-! ### Statements -/

/-- A sequence of nodes between braces. -/
structure Braced (α : Type) where
  nodes : List α
  span : Span
deriving DecidableEq

/-- Statements.  An assignment has a span of its own beside that of its statement. -/
inductive Stmt
  | assign (target : String) (value : Expr) (assignSpan span : Span)
  | ite (cond : Cond) (thenBlock elseBlock : Braced Stmt) (span : Span)
  | loop (cond : Cond) (body : Braced Stmt) (span : Span)
  | call (call : Call) (span : Span)
  | block (block : Braced Stmt) (span : Span)
  | skip (span : Span)

/-- A sequence of statements between braces. -/
abbrev Block := Braced Stmt

/-- The span of a statement. -/
def Stmt.span : Stmt → Span
  | .assign _ _ _ s | .ite _ _ _ s | .loop _ _ s | .call _ s | .block _ s | .skip s => s

/-- What is met on a walk through a block. -/
inductive Visit
  | block (block : Block)
  | assignment (target : String) (value : Expr)

mutual

/-- The walk through a statement. -/
def Stmt.visits : Stmt → List Visit
  | .assign target value _ _ => [.assignment target value]
  | .ite _ thenBlock elseBlock _ => Block.visits thenBlock ++ Block.visits elseBlock
  | .loop _ body _ => Block.visits body
  | .block inner _ => Block.visits inner
  | .call _ _ | .skip _ => []

/-- The walk through a block: the block itself, then its statements in order. -/
def Block.visits : Block → List Visit
  | ⟨stmts, span⟩ => .block ⟨stmts, span⟩ :: Stmt.visitsOfList stmts

/-- The walk through statements in order. -/
def Stmt.visitsOfList : List Stmt → List Visit
  | [] => []
  | s :: more => s.visits ++ Stmt.visitsOfList more

end

/-! ### Declarations and programs -/

/-- Declarations of variables and constants. -/
inductive Decl
  | var (name : String) (type : Ty) (span : Span)
  | const (name : String) (type : Ty) (value : Expr) (span : Span)
deriving DecidableEq

namespace Decl

/-- The declared name. -/
def name : Decl → String
  | .var name _ _ | .const name _ _ _ => name

/-- The span of a declaration. -/
def span : Decl → Span
  | .var _ _ s | .const _ _ _ s => s

/-- Whether a constant is declared. -/
def isConst : Decl → Bool
  | .var _ _ _ => false
  | .const _ _ _ _ => true

end Decl

/-- A parameter of a function. -/
structure Param where
  name : String
  type : Ty
  span : Span
deriving DecidableEq

/-- A function.  Its body ends with the one return, whose value may be absent. -/
structure Func where
  name : String
  params : List Param
  decls : List Decl
  body : Block
  returnType : Ty
  returnValue : Option Expr
  span : Span

/-- The main part of a program. -/
structure Main where
  decls : List Decl
  body : Block
  span : Span

/-- A program: global declarations, functions, and the main part. -/
structure Program where
  decls : List Decl
  funcs : List Func
  main : Main

namespace Program

/-- The first function of a name. -/
def function? (p : Program) (name : String) : Option Func := p.funcs.find? (·.name == name)

/-- The global constants in order. -/
def constants (p : Program) : List Decl := p.decls.filter Decl.isConst

end Program

end ThreeAddress
