import ThreeAddress.Lowering.Program

/-!
# Lowering program after program

A workspace is kept from one program to the next.  The code at hand grows in a buffer, and a program is done when
the buffer is emptied.  All locals so far are kept in one list, and for each open body a table says at which places
there the names of the body are found.

* `PlaceTable`, `Workspace` — the tables, and the whole state;
* `Work` — steps in a workspace: those that need no table (`Work.perform`), and those that do (`Work.resolve`,
  `Work.register`);
* `Expr.generate`, `Cond.generate`, `Stmt.generate`, `Func.generate` — the code of the parts;
* `Program.generate`, `Workspace.after` — one program, and a row of them.
-/

namespace ThreeAddress

/-! ### Workspaces -/

/-- The names of one body, each with its place among all locals. -/
structure PlaceTable where
  ordinal : Nat
  places : List (String × Nat)
deriving DecidableEq

namespace PlaceTable

/-- A table without names. -/
def empty (ordinal : Nat) : PlaceTable := ⟨ordinal, []⟩

/-- The place of a name. -/
def find? (t : PlaceTable) (name : String) : Option Nat := t.places.lookup name

/-- The number of names. -/
def size (t : PlaceTable) : Nat := t.places.length

/-- Give a name a place, be it new or not. -/
def insert (t : PlaceTable) (name : String) (place : Nat) : PlaceTable :=
  { t with places := (name, place) :: t.places.filter (·.1 != name) }

end PlaceTable

/-- The code at hand, the names to come with all locals so far, and the tables of the open bodies, innermost
first. -/
structure Workspace where
  buffer : List Instruction
  generator : Generator
  tables : List PlaceTable
deriving DecidableEq

namespace Workspace

/-- The workspace before any program. -/
def first : Workspace := ⟨[], .first, []⟩

/-- The number of locals so far. -/
def localCount (w : Workspace) : Nat := w.generator.locals.length

/-- The local that a name stands for in the innermost body. -/
def find? (w : Workspace) (name : String) : Option LocalName := do
  let t ← w.tables.head?
  let place ← t.find? name
  w.generator.locals[place]?

/-- A name as written in the code of the innermost body. -/
def resolve (w : Workspace) (name : String) : String :=
  match w.find? name with
  | some l => l.text
  | none => name

end Workspace

/-! ### Steps -/

/-- Steps in a workspace. -/
abbrev Work (α : Type) := StateM Workspace α

namespace Work

/-- Emit code that needs no table. -/
def perform {α : Type} (p : Emit α) : Work α := fun w =>
  let r := p.run w.generator
  (r.value, { w with buffer := w.buffer ++ r.record, generator := r.state })

/-- Emit one instruction. -/
def emit (i : Instruction) : Work Unit := perform (Pass.tell i)

/-- A name as written in the code of the innermost body. -/
def resolve (name : String) : Work String := do
  return (← get).resolve name

/-- Make a name local to the innermost body, and say how it is written there. -/
def register (name : String) : Work String := do
  let w ← get
  match w.tables with
  | [] => return name
  | t :: outer =>
    let made : LocalName := ⟨name, t.ordinal, t.size⟩
    set ({ w with
      generator := { w.generator with locals := w.generator.locals ++ [made] }
      tables := t.insert name w.generator.locals.length :: outer } : Workspace)
    return made.text

/-- Open a body. -/
def openBody : Work Unit :=
  modify fun w => { w with tables := .empty w.generator.names.ordinal :: w.tables }

/-- Close the innermost body. -/
def closeBody : Work Unit := modify fun w => { w with tables := w.tables.tail }

/-- Go on to the next ordinal. -/
def nextOrdinal : Work Unit := perform (Pass.modify fun g => { g with names := g.names.nextOrdinal })

/-- Empty the buffer. -/
def takeCode : Work (List Instruction) := do
  let w ← get
  set { w with buffer := [] }
  return w.buffer

end Work

/-! ### Expressions and conditions -/

/-- A name or numeral. -/
def Atom.generate : Atom → Work String
  | .name id => Work.resolve id
  | .number digits => return digits

/-- Pass the arguments of a call in order. -/
def Call.generate (c : Call) : Work Rvalue := do
  c.args.forM fun a => do Work.emit (.param (← a.atom.generate))
  return .call c.name c.args.length

/-- A fragment as a right-hand side. -/
def Fragment.generate : Fragment → Work Rvalue
  | .atom false operand => return .atom (← operand.generate)
  | .atom true operand => return .binary "0" (.arith .minus) (← operand.generate)
  | .not id => return .not (← Work.resolve id)
  | .zero => return .atom "0"
  | .bool value => return .atom (boolText value)

/-- An operand as a right-hand side. -/
def Operand.generate : Operand → Work Rvalue
  | .call c => c.generate
  | .fragment f => f.generate

/-- An operand as an atom. -/
def Operand.generateAtom (o : Operand) : Work String := do
  Work.perform (Emit.atomOf (← o.generate))

/-- The right-hand side that an expression comes to. -/
def Expr.generate (e : Expr) : Work Rvalue := do
  match e.chain with
  | ⟨only, []⟩ => only.generate
  | ⟨first, more⟩ =>
    let head ← first.generateAtom
    let tail ← more.mapM fun (op, o) => do return (op, ← o.generateAtom)
    match tail with
    | [(op, right)] => return .binary head op right
    | _ => return .atom (← Work.perform (foldAtoms head tail))

/-- The atom that an expression comes to. -/
def Expr.generateAtom (e : Expr) : Work String := do
  Work.perform (Emit.atomOf (← e.generate))

/-- The flags of the atomic conditions. -/
def Cond.generateFlags : Cond → Work (Chain Connective String)
  | .binary op left right _ => do
    let l ← left.generateFlags
    let r ← right.generateFlags
    return l.link op r
  | .paren inner _ => inner.generateFlags
  | .comparison op left right _ => do
    let l ← left.generateAtom
    let r ← right.generateAtom
    return .single (← Work.perform (flagOf (.binary l (.order op) r)))
  | .equality op left right _ => do
    let l ← left.generateAtom
    let r ← right.generateAtom
    return .single (← Work.perform (flagOf (.binary l (.same op) r)))
  | .neg inner _ => do
    let flags ← inner.generateFlags
    let flag ← Work.perform flags.combine
    return .single (← Work.perform (flagOf (.binary flag (.same .equal) "false")))
  | .bool value _ => return .single (← Work.perform (flagOf (.atom (boolText value))))

/-- The predicate that a condition comes to. -/
def Cond.generate (c : Cond) : Work Rvalue := do
  let flags ← c.generateFlags
  let flag ← Work.perform flags.combine
  return .binary flag (.same .equal) "true"

/-! ### Statements -/

mutual

/-- The code of a statement. -/
def Stmt.generate : Stmt → Work Unit
  | .assign target value _ _ => do
    let v ← value.generate
    let dest ← Work.resolve target
    Work.emit (.assign dest v)
  | .ite cond thenBlock elseBlock _ => do
    let (elseLabel, endLabel) ← Work.perform (Emit.take NameSupply.takeLabels)
    let predicate ← cond.generate
    Work.emit (.ifz predicate elseLabel)
    Block.generate thenBlock
    Work.emit (.goto endLabel)
    Work.emit (.label elseLabel)
    Block.generate elseBlock
    Work.emit (.label endLabel)
  | .loop cond body _ => do
    let (startLabel, endLabel) ← Work.perform (Emit.take NameSupply.takeLabels)
    Work.emit (.label startLabel)
    let predicate ← cond.generate
    Work.emit (.ifz predicate endLabel)
    Block.generate body
    Work.emit (.goto startLabel)
    Work.emit (.label endLabel)
  | .call c _ => do
    let _ ← c.generate
    Work.emit (.call c.name c.args.length)
  | .block inner _ => Block.generate inner
  | .skip _ => return

/-- The code of a block. -/
def Block.generate : Block → Work Unit
  | ⟨stmts, _⟩ => Stmt.generateAll stmts

/-- The code of statements in order. -/
def Stmt.generateAll : List Stmt → Work Unit
  | [] => return
  | s :: more => do
    s.generate
    Stmt.generateAll more

end

/-! ### Bodies and programs -/

/-- A local declaration. -/
def Decl.generateLocal : Decl → Work Unit
  | .var name _ _ => do
    let _ ← Work.register name
  | .const name _ value _ => do
    let v ← value.generate
    let dest ← Work.register name
    Work.emit (.assign dest v)

/-- A global constant is assigned under its own name. -/
def Decl.generateGlobal : Decl → Work Unit
  | .var _ _ _ => return
  | .const name _ value _ => do
    let v ← value.generate
    Work.emit (.assign name v)

/-- Fetch parameters under the names that they are written with, numbered from the given index on. -/
def generateFetches : Nat → List String → Work Unit
  | _, [] => return
  | index, dest :: more => do
    Work.emit (.getparam dest index)
    generateFetches (index + 1) more

/-- The value of a return.  The result of a call goes through a temporary. -/
def Expr.generateReturned (e : Expr) : Work Rvalue := do
  match ← e.generate with
  | .call name count => return .atom (← Work.perform (Emit.atomOf (.call name count)))
  | value => return value

/-- A return. -/
def generateReturn : Option Expr → Work Unit
  | none => Work.emit (.ret none)
  | some value => do
    let v ← value.generateReturned
    Work.emit (.ret (some v))

/-- The code of a function. -/
def Func.generate (f : Func) : Work Unit := do
  Work.emit (.label f.name)
  Work.openBody
  let dests ← f.params.mapM fun p => Work.register p.name
  generateFetches 1 dests
  f.decls.forM Decl.generateLocal
  Block.generate f.body
  generateReturn f.returnValue
  Work.closeBody
  Work.nextOrdinal

namespace Program

/-- The code of the main part. -/
def generateMain (p : Program) : Work Unit := do
  Work.emit (.label "main")
  Work.openBody
  p.decls.forM Decl.generateGlobal
  p.main.decls.forM Decl.generateLocal
  Block.generate p.main.body
  Work.emit (.call exitRoutine 0)
  Work.closeBody

/-- The code of a program. -/
def generate (p : Program) : Work (List Instruction) := do
  p.funcs.forM Func.generate
  p.generateMain
  Work.takeCode

end Program

namespace Workspace

/-- The codes of programs that are lowered one after another in a workspace. -/
def codes (ps : List Program) : List (List Instruction) := ((ps.mapM Program.generate).run first).1

/-- The workspace behind these programs. -/
def after (ps : List Program) : Workspace := ((ps.mapM Program.generate).run first).2

end Workspace

end ThreeAddress
