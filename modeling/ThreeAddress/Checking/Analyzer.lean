import ThreeAddress.Checking.Program

/-!
# Checking with one analyser

An analyser is kept while a program is checked: the table of the open scopes, and all that has been found so far.
The walk through the program changes the table in place, one change after another, and hands the findings over when
it is done.

* `Analyzer`, `Walk` — the analyser, and the steps of a walk, which record every table that they make;
* `Walk.inspect`, `Walk.change`, `Walk.warn` — look something up and report faults, change the table, keep warnings;
* `Expr.walk`, `Cond.walk`, `Stmt.walk`, `Decl.walk`, `Func.walk` — the walk through each part;
* `Program.analyzeWith` — the findings in a program, and the analyser behind it.
-/

namespace ThreeAddress

variable {α : Type}

/-! ### Analysers -/

/-- The table, and the faults and warnings that have not been handed over. -/
structure Analyzer where
  symbols : SymbolTable
  faults : List Fault
  warnings : List Warning
deriving DecidableEq

/-- Nothing is declared, and nothing has been found. -/
def Analyzer.fresh : Analyzer := ⟨.empty, [], []⟩

/-- Steps with an analyser.  The record holds every table that they make, in order. -/
abbrev Walk (α : Type) := Pass Analyzer SymbolTable α

namespace Walk

/-- The table. -/
def symbols : Walk SymbolTable := do
  return (← Pass.get).symbols

/-- Check something over the table, which stays as it is; the faults are kept. -/
def inspect (p : Check α) : Walk α := fun a =>
  let r := p.run a.symbols
  ⟨r.value, { a with faults := a.faults ++ r.record }, []⟩

/-- Change the table. -/
def change (f : SymbolTable → SymbolTable) : Walk Unit := do
  Pass.modify fun a => { a with symbols := f a.symbols }
  Pass.tell (← symbols)

/-- Keep warnings. -/
def warn (warnings : List Warning) : Walk Unit :=
  Pass.modify fun a => { a with warnings := a.warnings ++ warnings }

/-- Hand over what has been found. -/
def takeFindings : Walk Findings := do
  let a ← Pass.get
  Pass.modify fun a => { a with faults := [], warnings := [] }
  return ⟨a.faults, a.warnings⟩

end Walk

/-! ### Expressions and conditions -/

/-- A call marks its function as used before its arguments are looked at. -/
def Call.walk (c : Call) : Walk Yield := do
  match ((← Walk.symbols).lookupGlobal? c.name).map Entity.kind with
  | none =>
    Walk.inspect (Check.report (.undefinedFunction c.name) c.span c.text)
    return .unknown
  | some (.value _) =>
    Walk.inspect (Check.report (.notAFunction c.name) c.span c.text)
    return .unknown
  | some (.function returnType params) =>
    let arity := params.length
    let count := c.args.length
    Walk.inspect (Check.require (arity ≤ count) (.tooFewArguments c.name arity count) c.span c.text)
    Walk.inspect (Check.require (count ≤ arity) (.tooManyArguments c.name arity count) c.span c.text)
    Walk.change (·.setGlobalState c.name .used)
    let yields ← Walk.inspect (c.args.mapM (Argument.check c.text))
    if count = arity then
      Walk.inspect (checkArguments c.name c.text 1 (c.args.zip (yields.zip params)))
    return .call returnType

/-- What an expression yields. -/
def Expr.walk : Expr → Walk Yield
  | .arith op left right span => do
    let l ← left.walk
    let r ← right.walk
    Walk.inspect (checkOperands (.operands op.text .integer) .integer l r span
      (Expr.arith op left right span).text)
    return .value .integer
  | .logic op left right span => do
    let l ← left.walk
    let r ← right.walk
    Walk.inspect (checkOperands (.operands op.text .boolean) .boolean l r span
      (Expr.logic op left right span).text)
    return .value .boolean
  | .paren inner _ => inner.walk
  | .call c _ => c.walk
  | .fragment f span => Walk.inspect (f.check span)

/-- The walk through a condition. -/
def Cond.walk : Cond → Walk Unit
  | .comparison op left right span => do
    let l ← left.walk
    let r ← right.walk
    Walk.inspect (checkOperands (.comparedOperands op) .integer l r span
      (Cond.comparison op left right span).text)
  | .equality op left right span => do
    let l ← left.walk
    let r ← right.walk
    Walk.inspect (Check.require (l.agreesWith r) (.incomparable op l r) span
      (Cond.equality op left right span).text)
  | .neg inner _ | .paren inner _ => inner.walk
  | .binary _ left right _ => do
    left.walk
    right.walk
  | .bool _ _ => return

/-! ### Statements -/

/-- A name on its own on the right-hand side becomes used, if it is a variable or a parameter. -/
def walkReferenced (value : Expr) : Walk Unit := do
  match value.referencedName? with
  | none => return
  | some name =>
    match (← Walk.symbols).lookup? name with
    | none => return
    | some e =>
      if e.isFunction || e.isConstant then return
      else Walk.change (·.setState name .used)

/-- An assignment.  Only a variable or a parameter becomes assigned. -/
def walkAssignment (target : String) (value : Expr) (span : Span) : Walk Unit := do
  let found ← value.walk
  walkReferenced value
  let hint := assignmentText target value
  match (← Walk.symbols).lookup? target with
  | none => Walk.inspect (Check.report (.undeclaredTarget target) span hint)
  | some e =>
    match e.valueType? with
    | none => Walk.inspect (Check.report (.functionAsTarget target) span hint)
    | some type =>
      if e.isConstant then Walk.inspect (Check.report (.constantTarget target) span hint)
      else do
        Walk.inspect (Check.require (found.resolvesTo type) (.targetType target type found) span hint)
        Walk.change (·.setState target .assigned)

mutual

/-- The walk through a statement. -/
def Stmt.walk : Stmt → Walk Unit
  | .assign target value assignSpan _ => walkAssignment target value assignSpan
  | .ite cond thenBlock elseBlock _ => do
    cond.walk
    Block.walk thenBlock
    Block.walk elseBlock
  | .loop cond body _ => do
    cond.walk
    Block.walk body
  | .call c _ => do
    let _ ← c.walk
  | .block inner _ => Block.walk inner
  | .skip _ => return

/-- The walk through a block. -/
def Block.walk : Block → Walk Unit
  | ⟨stmts, _⟩ => Stmt.walkAll stmts

/-- The walk through statements in order. -/
def Stmt.walkAll : List Stmt → Walk Unit
  | [] => return
  | s :: more => do
    s.walk
    Stmt.walkAll more

end

/-! ### Declarations -/

/-- Bind an entity by the given way of defining; if the name is taken, say so and go on. -/
def walkEntity (define : SymbolTable → Except Entity SymbolTable) (cause : Entity → SemanticCause)
    (span : Span) (since : String) : Walk Unit := do
  match define (← Walk.symbols) with
  | .ok table => Walk.change fun _ => table
  | .error existing => Walk.inspect (Check.report (cause existing) span (since ++ toString existing.span.start))

/-- Bind a declared entity in the innermost scope. -/
def walkLocal (e : Entity) : Walk Unit :=
  walkEntity (·.define e) (fun _ => .redeclared e.name) e.span "Previously declared at position "

/-- The walk through a declaration. -/
def Decl.walk : Decl → Walk Unit
  | .var name type span => do
    Walk.inspect (checkReserved name span)
    walkLocal (.unassigned name type span)
  | .const name type value span => do
    let found ← value.walk
    Walk.inspect (checkReserved name span)
    walkLocal (.constant name type span)
    Walk.inspect (Check.require (found.resolvesTo type) (.constantType name type found) span
      (Decl.const name type value span).text)

/-- The walk through a parameter. -/
def Param.walk (function : String) (p : Param) : Walk Unit := do
  Walk.inspect (checkReserved p.name p.span)
  walkEntity (·.define (.parameter p.name p.type p.span))
    (fun _ => .duplicateParameter p.name function) p.span "Previously defined at position "

/-! ### Functions and programs -/

/-- A walk in a scope of its own, whose warnings are kept when it closes. -/
def Walk.inScope (body : Walk Unit) : Walk Unit := do
  Walk.change SymbolTable.push
  body
  match (← Walk.symbols).pop? with
  | none => return
  | some (scope, outer) =>
    Walk.change fun _ => outer
    Walk.warn scope.warnings

/-- The walk through a return. -/
def Func.walkReturn (f : Func) : Walk Unit := do
  match f.returnValue with
  | some value =>
    let found ← value.walk
    Walk.inspect (Check.require (found.resolvesTo f.returnType) (.returnType f.name f.returnType found) value.span
      ("return (" ++ value.text ++ ");"))
  | none =>
    Walk.inspect (Check.require (f.returnType == .void) (.returnMissing f.name f.returnType) f.span "return ();")

/-- Bind a function among the globals. -/
def Func.walkName (f : Func) : Walk Unit := do
  Walk.inspect (checkReserved f.name f.span)
  walkEntity (·.defineGlobal (.function f.name f.returnType (f.params.map (·.type)) f.span))
    (fun existing =>
      if existing.isFunction then .functionRedefined f.name else .takenByGlobal f.name)
    f.span "Previously defined at position "

/-- The walk through a function. -/
def Func.walk (f : Func) : Walk Unit := do
  f.walkName
  Walk.inScope do
    f.params.forM (Param.walk f.name)
    f.decls.forM Decl.walk
    Block.walk f.body
    f.walkReturn

namespace Program

/-- The walk through a program. -/
def walk (p : Program) : Walk Unit := do
  p.decls.forM Decl.walk
  p.funcs.forM Func.walk
  Walk.inScope do
    p.main.decls.forM Decl.walk
    Block.walk p.main.body
  Walk.warn (← Walk.symbols).globals.warnings

/-- The findings in a program; the analyser keeps none of them. -/
def analyzeWith (p : Program) : Walk Findings := do
  p.walk
  Walk.takeFindings

/-- The tables that a fresh analyser comes through, from the empty one on. -/
def tables (p : Program) : List SymbolTable := .empty :: (p.analyzeWith.run .fresh).record

end Program

end ThreeAddress
