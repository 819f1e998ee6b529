import Mathlib.Data.List.Forall2
import ThreeAddress.Checking.Cause
import ThreeAddress.Code.Name

/-!
# Well-formed programs

What it means for a program tree to be in order, without a checker and without entity states.  A judgement
is made in a *view*: the names declared so far, global ones and those of the body at hand, and the
variables that an assignment has reached so far in the order of the walk.

* `Binding`, `Place`, `View` — what a name is bound to, in which scope, and the view;
* `View.Readable` — a name may stand as a value: it is a constant, a parameter, or an assigned variable;
* `Expr.Yields` — an expression is in order and yields a value or the result of a call, of some type;
* `Cond.InOrder`, `Stmt.AllInOrder`, `Decl.AllInOrder`, `Func.InOrder` — the other parts;
* `Program.WellFormed` — the whole program.
-/

namespace ThreeAddress

/-! ### Views -/

/-- What a name is bound to. -/
inductive Binding
  | var (type : Ty)
  | const (type : Ty)
  | param (type : Ty)
  | func (result : Ty) (params : List Ty)

/-- The two scopes that a name can be bound in. -/
inductive Place
  | outer
  | inner
deriving DecidableEq

/-- The names declared so far, and the variables assigned so far.  Outside of bodies there is no inner
scope. -/
structure View where
  globals : List (String × Binding)
  locals : Option (List (String × Binding))
  assigned : List (Place × String)

namespace View

/-- Nothing is declared. -/
def empty : View := ⟨[], none, []⟩

/-- The bindings of a scope. -/
def scope (v : View) : Place → List (String × Binding)
  | .outer => v.globals
  | .inner => v.locals.getD []

/-- What a name means and where it is bound, the inner scope first. -/
def find? (v : View) (x : String) : Option (Place × Binding) :=
  match (v.scope .inner).lookup x with
  | some b => some (.inner, b)
  | none => (v.globals.lookup x).map fun b => (.outer, b)

/-- A name is declared in the innermost scope. -/
def declare (v : View) (x : String) (b : Binding) : View :=
  match v.locals with
  | none => { v with globals := (x, b) :: v.globals }
  | some bs => { v with locals := some ((x, b) :: bs) }

/-- A name is assigned: the variable that it means counts as assigned from now on. -/
def assign (v : View) (x : String) : View :=
  match v.find? x with
  | some (place, _) => { v with assigned := (place, x) :: v.assigned }
  | none => v

/-- A body is entered. -/
def enter (v : View) : View := { v with locals := some [] }

/-- A body is left: its names are out of view. -/
def leave (v : View) : View :=
  { v with locals := none, assigned := v.assigned.filter (·.1 = .outer) }

/-- A name that may stand as a value of a type. -/
inductive Readable (v : View) (x : String) (type : Ty) : Prop
  | const {place : Place} (h : v.find? x = some (place, .const type))
  | param {place : Place} (h : v.find? x = some (place, .param type))
  | var {place : Place} (h : v.find? x = some (place, .var type)) (ha : (place, x) ∈ v.assigned)

/-- A name that may stand as the target of an assignment of a type. -/
inductive Writable (v : View) (x : String) (type : Ty) : Prop
  | param {place : Place} (h : v.find? x = some (place, .param type))
  | var {place : Place} (h : v.find? x = some (place, .var type))

end View

/-! ### Expressions -/

/-- A yield is of a type, be it a value or the result of a call. -/
def Yield.Of (y : Yield) (type : Ty) : Prop := y = .value type ∨ y = .call type

/-- An atom has a type. -/
inductive Atom.HasType (v : View) : Atom → Ty → Prop
  | name {x : String} {type : Ty} (h : v.Readable x type) : HasType v (.name x) type
  | number {digits : String} : HasType v (.number digits) .integer

/-- A fragment has a type: a minus stands before an integer, `!` before a boolean. -/
inductive Fragment.HasType (v : View) : Fragment → Ty → Prop
  | atom {a : Atom} {type : Ty} (h : a.HasType v type) : HasType v (.atom false a) type
  | negated {a : Atom} (h : a.HasType v .integer) : HasType v (.atom true a) .integer
  | not {x : String} (h : v.Readable x .boolean) : HasType v (.not x) .boolean
  | zero : HasType v .zero .integer
  | bool {b : Bool} : HasType v (.bool b) .boolean

/-- A call is of a function that is declared, with as many arguments as it has parameters and of the
same types. -/
def Call.Fits (v : View) (c : Call) (result : Ty) : Prop :=
  ∃ params, v.globals.lookup c.name = some (.func result params) ∧
    List.Forall₂ (fun (a : Argument) type => a.atom.HasType v type) c.args params

/-- What an expression yields. -/
inductive Expr.Yields (v : View) : Expr → Yield → Prop
  | arith {op : ArithOp} {l r : Expr} {s : Span} {yl yr : Yield}
      (hl : Yields v l yl) (hr : Yields v r yr) (tl : yl.Of .integer) (tr : yr.Of .integer) :
      Yields v (.arith op l r s) (.value .integer)
  | logic {op : Connective} {l r : Expr} {s : Span} {yl yr : Yield}
      (hl : Yields v l yl) (hr : Yields v r yr) (tl : yl.Of .boolean) (tr : yr.Of .boolean) :
      Yields v (.logic op l r s) (.value .boolean)
  | paren {e : Expr} {s : Span} {y : Yield} (h : Yields v e y) : Yields v (.paren e s) y
  | call {c : Call} {s : Span} {result : Ty} (h : c.Fits v result) :
      Yields v (.call c s) (.call result)
  | fragment {f : Fragment} {s : Span} {type : Ty} (h : f.HasType v type) :
      Yields v (.fragment f s) (.value type)

/-- An expression has a type. -/
def Expr.HasType (v : View) (e : Expr) (type : Ty) : Prop := ∃ y, e.Yields v y ∧ y.Of type

/-! ### Conditions and statements -/

/-- A condition is in order: `<` and its like compare integers, `==` and `!=` two operands that yield the
same. -/
inductive Cond.InOrder (v : View) : Cond → Prop
  | comparison {op : Comparison} {l r : Expr} {s : Span}
      (hl : l.HasType v .integer) (hr : r.HasType v .integer) : InOrder v (.comparison op l r s)
  | equality {op : Equality} {l r : Expr} {s : Span} {y : Yield}
      (hl : l.Yields v y) (hr : r.Yields v y) : InOrder v (.equality op l r s)
  | neg {c : Cond} {s : Span} (h : InOrder v c) : InOrder v (.neg c s)
  | paren {c : Cond} {s : Span} (h : InOrder v c) : InOrder v (.paren c s)
  | binary {op : Connective} {l r : Cond} {s : Span} (hl : InOrder v l) (hr : InOrder v r) :
      InOrder v (.binary op l r s)
  | bool {b : Bool} {s : Span} : InOrder v (.bool b s)

mutual

/-- The targets of the assignments in a statement, in the order of the walk. -/
def Stmt.targets : Stmt → List String
  | .assign target _ _ _ => [target]
  | .ite _ thenBlock elseBlock _ => Block.targets thenBlock ++ Block.targets elseBlock
  | .loop _ body _ => Block.targets body
  | .block inner _ => Block.targets inner
  | .call _ _ | .skip _ => []

/-- The targets of the assignments in a block. -/
def Block.targets : Block → List String
  | ⟨stmts, _⟩ => Stmt.targetsOfList stmts

/-- The targets of the assignments in statements in order. -/
def Stmt.targetsOfList : List Stmt → List String
  | [] => []
  | s :: more => s.targets ++ Stmt.targetsOfList more

end

/-- The view behind some statements. -/
def View.after (v : View) (ss : List Stmt) : View := (Stmt.targetsOfList ss).foldl View.assign v

/-- Statements are in order.  Blocks open no scope, and what a block assigns counts as assigned behind
it. -/
inductive Stmt.AllInOrder : View → List Stmt → Prop
  | nil {v : View} : AllInOrder v []
  | assign {v : View} {x : String} {e : Expr} {a s : Span} {type : Ty} {more : List Stmt}
      (he : e.HasType v type) (hx : v.Writable x type) (h : AllInOrder (v.assign x) more) :
      AllInOrder v (.assign x e a s :: more)
  | ite {v : View} {c : Cond} {t e : Block} {s : Span} {more : List Stmt} (hc : c.InOrder v)
      (ht : AllInOrder v t.nodes) (he : AllInOrder (v.after t.nodes) e.nodes)
      (h : AllInOrder ((v.after t.nodes).after e.nodes) more) : AllInOrder v (.ite c t e s :: more)
  | loop {v : View} {c : Cond} {b : Block} {s : Span} {more : List Stmt} (hc : c.InOrder v)
      (hb : AllInOrder v b.nodes) (h : AllInOrder (v.after b.nodes) more) :
      AllInOrder v (.loop c b s :: more)
  | call {v : View} {c : Call} {s : Span} {result : Ty} {more : List Stmt} (hc : c.Fits v result)
      (h : AllInOrder v more) : AllInOrder v (.call c s :: more)
  | block {v : View} {b : Block} {s : Span} {more : List Stmt} (hb : AllInOrder v b.nodes)
      (h : AllInOrder (v.after b.nodes) more) : AllInOrder v (.block b s :: more)
  | skip {v : View} {s : Span} {more : List Stmt} (h : AllInOrder v more) :
      AllInOrder v (.skip s :: more)

/-! ### Declarations, functions and programs -/

/-- What a declaration binds its name to. -/
def Decl.binding : Decl → Binding
  | .var _ type _ => .var type
  | .const _ type _ _ => .const type

/-- The view behind some declarations. -/
def View.declareAll (v : View) (ds : List Decl) : View :=
  ds.foldl (fun v d => v.declare d.name d.binding) v

/-- Declarations are in order: the value of a constant has its type, and does not see the name that is
being declared. -/
inductive Decl.AllInOrder : View → List Decl → Prop
  | nil {v : View} : AllInOrder v []
  | var {v : View} {x : String} {type : Ty} {s : Span} {more : List Decl}
      (h : AllInOrder (v.declare x (.var type)) more) : AllInOrder v (.var x type s :: more)
  | const {v : View} {x : String} {type : Ty} {e : Expr} {s : Span} {more : List Decl}
      (he : e.HasType v type) (h : AllInOrder (v.declare x (.const type)) more) :
      AllInOrder v (.const x type e s :: more)

/-- The names bound in one scope are distinct, and none is reserved. -/
structure ProperNames (names : List String) : Prop where
  distinct : names.Nodup
  unreserved : ∀ x ∈ names, isReservedName x = false

namespace Func

/-- The names that the scope of a function binds. -/
def scopeNames (f : Func) : List String := f.params.map (·.name) ++ f.decls.map (·.name)

/-- The view in which the function itself is declared, too. -/
def ownView (f : Func) (v : View) : View :=
  v.declare f.name (.func f.returnType (f.params.map (·.type)))

/-- The view behind the parameters. -/
def paramView (f : Func) (v : View) : View :=
  f.params.foldl (fun v p => v.declare p.name (.param p.type)) v.enter

/-- The view at the beginning of the body. -/
def bodyView (f : Func) (v : View) : View := (f.paramView v).declareAll f.decls

/-- The view behind the whole function, which may have assigned global variables. -/
def viewAfter (f : Func) (v : View) : View := ((f.bodyView (f.ownView v)).after f.body.nodes).leave

/-- A return carries a value of the declared type; only a function of type void may do without. -/
def ReturnInOrder (f : Func) (v : View) : Prop :=
  match f.returnValue with
  | some e => e.HasType v f.returnType
  | none => f.returnType = .void

/-- A function is in order in the view where it is declared already. -/
structure InOrder (f : Func) (v : View) : Prop where
  names : ProperNames f.scopeNames
  decls : Decl.AllInOrder (f.paramView v) f.decls
  body : Stmt.AllInOrder (f.bodyView v) f.body.nodes
  returned : f.ReturnInOrder ((f.bodyView v).after f.body.nodes)

/-- Functions are in order, each in the view behind the earlier ones. -/
inductive AllInOrder : View → List Func → Prop
  | nil {v : View} : AllInOrder v []
  | cons {v : View} {f : Func} {more : List Func} (hf : f.InOrder (f.ownView v))
      (h : AllInOrder (f.viewAfter v) more) : AllInOrder v (f :: more)

end Func

namespace Program

/-- The names that the global scope binds. -/
def scopeNames (p : Program) : List String := p.decls.map (·.name) ++ p.funcs.map (·.name)

/-- The view behind the global declarations. -/
def globalView (p : Program) : View := View.empty.declareAll p.decls

/-- The view behind the functions. -/
def mainView (p : Program) : View := p.funcs.foldl (fun v f => f.viewAfter v) p.globalView

/-- **Well-formed programs.** -/
structure WellFormed (p : Program) : Prop where
  names : ProperNames p.scopeNames
  decls : Decl.AllInOrder View.empty p.decls
  funcs : Func.AllInOrder p.globalView p.funcs
  mainNames : ProperNames (p.main.decls.map (·.name))
  mainDecls : Decl.AllInOrder p.mainView.enter p.main.decls
  mainBody : Stmt.AllInOrder (p.mainView.enter.declareAll p.main.decls) p.main.body.nodes

end Program

end ThreeAddress
