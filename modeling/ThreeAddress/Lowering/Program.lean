import ThreeAddress.Lowering.Expression

/-!
# Lowering programs

* `Stmt.lower`, `Block.lower` — the code of statements;
* `Decl.lowerLocal` — a local declaration, which extends the rename table;
* `Func.lower`, `Program.lowerMain` — the code of the bodies;
* `Program.lower` — all functions in order, then the main part;
* `Program.code` — the code of a program with names supplied from the beginning.

Every body has a rename table of its own.  Its ordinal counts the functions before it.
-/

namespace ThreeAddress

/-- The routine that the main part ends with. -/
def exitRoutine : String := "_exit"

/-! ### Statements -/

mutual

/-- The code of a statement. -/
def Stmt.lower (t : RenameTable) : Stmt → Emit Unit
  | .assign target value _ _ => do
    let v ← value.lower t
    Emit.assign (t.resolve target) v
  | .ite cond thenBlock elseBlock _ => do
    let (elseLabel, endLabel) ← Emit.take NameSupply.takeLabels
    let predicate ← cond.lower t
    Pass.tell (.ifz predicate elseLabel)
    Block.lower t thenBlock
    Pass.tell (.goto endLabel)
    Pass.tell (.label elseLabel)
    Block.lower t elseBlock
    Pass.tell (.label endLabel)
  | .loop cond body _ => do
    let (startLabel, endLabel) ← Emit.take NameSupply.takeLabels
    Pass.tell (.label startLabel)
    let predicate ← cond.lower t
    Pass.tell (.ifz predicate endLabel)
    Block.lower t body
    Pass.tell (.goto startLabel)
    Pass.tell (.label endLabel)
  | .call c _ => do
    let _ ← c.lower t
    Pass.tell (.call c.name c.args.length)
  | .block inner _ => Block.lower t inner
  | .skip _ => return

/-- The code of a block. -/
def Block.lower (t : RenameTable) : Block → Emit Unit
  | ⟨stmts, _⟩ => Stmt.lowerAll t stmts

/-- The code of statements in order. -/
def Stmt.lowerAll (t : RenameTable) : List Stmt → Emit Unit
  | [] => return
  | s :: more => do
    s.lower t
    Stmt.lowerAll t more

end

/-! ### Locals -/

/-- Make a name local to a body. -/
def RenameTable.register (t : RenameTable) (name : String) : Emit RenameTable := do
  Pass.modify fun g => { g with locals := g.locals ++ [t.localName name] }
  return t.insert name

/-- A local declaration.  The value of a constant does not see the name it is given to. -/
def Decl.lowerLocal (t : RenameTable) : Decl → Emit RenameTable
  | .var name _ _ => t.register name
  | .const name _ value _ => do
    let v ← value.lower t
    let t' ← t.register name
    Emit.assign (t'.resolve name) v
    return t'

/-- A global constant is assigned under its own name. -/
def Decl.lowerGlobal (t : RenameTable) : Decl → Emit Unit
  | .var _ _ _ => return
  | .const name _ value _ => do
    let v ← value.lower t
    Emit.assign name v

/-- Fetch parameters, numbered from the given index on. -/
def fetchParams (t : RenameTable) : Nat → List Param → Emit Unit
  | _, [] => return
  | index, p :: more => do
    Pass.tell (.getparam (t.resolve p.name) index)
    fetchParams t (index + 1) more

/-! ### Bodies and programs -/

/-- A table without locals for the body at hand. -/
def openTable : Emit RenameTable := do
  return .empty (← Pass.get).names.ordinal

/-- The value of a return.  The result of a call goes through a temporary. -/
def Expr.lowerReturned (t : RenameTable) (e : Expr) : Emit Rvalue := do
  match ← e.lower t with
  | .call name count => return .atom (← Emit.atomOf (.call name count))
  | value => return value

/-- The code of a function. -/
def Func.lower (f : Func) : Emit Unit := do
  Pass.tell (.label f.name)
  let outer ← openTable
  let params ← f.params.foldlM (fun t p => t.register p.name) outer
  fetchParams params 1 f.params
  let t ← f.decls.foldlM Decl.lowerLocal params
  Block.lower t f.body
  match f.returnValue with
  | none => Pass.tell (.ret none)
  | some value => do
    let v ← value.lowerReturned t
    Pass.tell (.ret (some v))
  Pass.modify fun g => { g with names := g.names.nextOrdinal }

namespace Program

/-- The code of the main part: the global constants, the main part's own constants and statements,
and the call that ends the run. -/
def lowerMain (p : Program) : Emit Unit := do
  Pass.tell (.label "main")
  let outer ← openTable
  p.decls.forM (Decl.lowerGlobal outer)
  let t ← p.main.decls.foldlM Decl.lowerLocal outer
  Block.lower t p.main.body
  Pass.tell (.call exitRoutine 0)

/-- The code of a program. -/
def lower (p : Program) : Emit Unit := do
  p.funcs.forM Func.lower
  p.lowerMain

/-- The code of a program by itself. -/
def code (p : Program) : List Instruction := (p.lower.run .first).record

end Program

end ThreeAddress
