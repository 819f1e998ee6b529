import ThreeAddress.Lowering.Program
import ThreeAddress.Proofs.Machine

/-!
# The meaning of programs

What the bodies of a program do, told by its tree alone.  The operands of an expression are evaluated in
order, parentheses aside, and its operators are applied from the left; the atomic conditions of a condition
are evaluated in order, all of them, and its connectives are applied from the right.

* `Memory`, `Config` — the variables as a body sees them, and the calls made so far;
* `Expr.eval`, `Cond.eval` — the value of an expression, the truth of a condition;
* `Stmt.Exec` — statements take one configuration to another;
* `Body`, `Body.Runs` — what a function or the main part consists of, and its runs from end to end.
-/

namespace ThreeAddress

/-! ### Variables -/

/-- The variables as a body sees them. -/
structure Memory where
  globals : String → Value
  locals : String → Value

namespace Memory

/-- A local variable is assigned. -/
def setLocal (m : Memory) (x : String) (v : Value) : Memory :=
  { m with locals := fun y => if y = x then v else m.locals y }

/-- A global variable is assigned. -/
def setGlobal (m : Memory) (x : String) (v : Value) : Memory :=
  { m with globals := fun y => if y = x then v else m.globals y }

/-- The variable that a name means: a local one if the name is declared in the body. -/
def read (m : Memory) (scope : List String) (x : String) : Value :=
  if scope.contains x then m.locals x else m.globals x

/-- The variable that a name means is assigned. -/
def write (m : Memory) (scope : List String) (x : String) (v : Value) : Memory :=
  if scope.contains x then m.setLocal x v else m.setGlobal x v

end Memory

/-- The variables, and the calls made so far. -/
structure Config where
  memory : Memory
  history : List Event

/-! ### Expressions and conditions -/

namespace Chain

variable {ω α : Type}

/-- Apply the links from the left. -/
def foldLeft (f : ω → α → α → α) (c : Chain ω α) : α := c.tail.foldl (fun a x => f x.1 a x.2) c.head

/-- Apply links from the right. -/
def foldRightFrom (f : ω → α → α → α) (first : α) : List (ω × α) → α
  | [] => first
  | (op, second) :: more => f op first (foldRightFrom f second more)

/-- Apply the links from the right. -/
def foldRight (f : ω → α → α → α) (c : Chain ω α) : α := foldRightFrom f c.head c.tail

end Chain

section Eval

variable (w : World) (scope : List String) (m : Memory)

/-- The value of a name or numeral. -/
def Atom.value : Atom → Value
  | .name x => m.read scope x
  | .number digits => numeralValue digits

/-- The value of a fragment. -/
def Fragment.value : Fragment → Value
  | .atom false operand => operand.value scope m
  | .atom true operand => w.apply (.arith .minus) (.integer 0) (operand.value scope m)
  | .not x => (m.read scope x).invert
  | .zero => .integer 0
  | .bool b => .boolean b

/-- The values of the arguments of a call. -/
def Call.values (c : Call) : List Value := c.args.map fun a => a.atom.value scope m

/-- What a call answers; the call is made. -/
def Call.eval (c : Call) (h : List Event) : Value × List Event :=
  (w.answer h c.name (c.values scope m), h ++ [⟨c.name, c.values scope m⟩])

/-- The values of the operands of an expression in order, with its operators between them. -/
def Expr.values : Expr → List Event → Chain Operator Value × List Event
  | .arith op left right _, h =>
    let l := left.values h
    let r := right.values l.2
    (l.1.link (.arith op) r.1, r.2)
  | .logic op left right _, h =>
    let l := left.values h
    let r := right.values l.2
    (l.1.link (.logic op) r.1, r.2)
  | .paren inner _, h => inner.values h
  | .call c _, h => (.single (c.eval w scope m h).1, (c.eval w scope m h).2)
  | .fragment f _, h => (.single (f.value w scope m), h)

/-- The value of an expression: its operators are applied from the left. -/
def Expr.eval (e : Expr) (h : List Event) : Value × List Event :=
  ((e.values w scope m h).1.foldLeft w.apply, (e.values w scope m h).2)

/-- The truths of the atomic conditions in order, with the connectives between them.  A negation is atomic;
what it negates is a condition of its own. -/
def Cond.truths : Cond → List Event → Chain Connective Bool × List Event
  | .comparison op left right _, h =>
    let l := left.eval w scope m h
    let r := right.eval w scope m l.2
    (.single (w.apply (.order op) l.1 r.1).holds, r.2)
  | .equality op left right _, h =>
    let l := left.eval w scope m h
    let r := right.eval w scope m l.2
    (.single (w.apply (.same op) l.1 r.1).holds, r.2)
  | .neg inner _, h =>
    let i := inner.truths h
    (.single (!i.1.foldRight Connective.apply), i.2)
  | .paren inner _, h => inner.truths h
  | .binary op left right _, h =>
    let l := left.truths h
    let r := right.truths l.2
    (l.1.link op r.1, r.2)
  | .bool b _, h => (.single b, h)

/-- The truth of a condition: its connectives are applied from the right. -/
def Cond.eval (c : Cond) (h : List Event) : Bool × List Event :=
  ((c.truths w scope m h).1.foldRight Connective.apply, (c.truths w scope m h).2)

end Eval

/-! ### Statements -/

/-- Statements take one configuration to another. -/
inductive Stmt.Exec (w : World) (scope : List String) : List Stmt → Config → Config → Prop
  | nil {c : Config} : Exec w scope [] c c
  | assign {x : String} {e : Expr} {a s : Span} {more : List Stmt} {m : Memory} {h : List Event}
      {c' : Config}
      (hmore : Exec w scope more
        ⟨m.write scope x (e.eval w scope m h).1, (e.eval w scope m h).2⟩ c') :
      Exec w scope (.assign x e a s :: more) ⟨m, h⟩ c'
  | ite {b : Cond} {t e : Block} {s : Span} {more : List Stmt} {m : Memory} {h : List Event}
      {c c' : Config}
      (hbranch : Exec w scope (bif (b.eval w scope m h).1 then t.nodes else e.nodes)
        ⟨m, (b.eval w scope m h).2⟩ c)
      (hmore : Exec w scope more c c') : Exec w scope (.ite b t e s :: more) ⟨m, h⟩ c'
  | loopEnd {b : Cond} {t : Block} {s : Span} {more : List Stmt} {m : Memory} {h : List Event}
      {c' : Config} (hb : (b.eval w scope m h).1 = false)
      (hmore : Exec w scope more ⟨m, (b.eval w scope m h).2⟩ c') :
      Exec w scope (.loop b t s :: more) ⟨m, h⟩ c'
  | loopAgain {b : Cond} {t : Block} {s : Span} {more : List Stmt} {m : Memory} {h : List Event}
      {c c' : Config} (hb : (b.eval w scope m h).1 = true)
      (hbody : Exec w scope t.nodes ⟨m, (b.eval w scope m h).2⟩ c)
      (hagain : Exec w scope (.loop b t s :: more) c c') : Exec w scope (.loop b t s :: more) ⟨m, h⟩ c'
  | call {f : Call} {s : Span} {more : List Stmt} {m : Memory} {h : List Event} {c' : Config}
      (hmore : Exec w scope more ⟨m, (f.eval w scope m h).2⟩ c') :
      Exec w scope (.call f s :: more) ⟨m, h⟩ c'
  | block {b : Block} {s : Span} {more : List Stmt} {c c₁ c' : Config}
      (hblock : Exec w scope b.nodes c c₁) (hmore : Exec w scope more c₁ c') :
      Exec w scope (.block b s :: more) c c'
  | skip {s : Span} {more : List Stmt} {c c' : Config} (hmore : Exec w scope more c c') :
      Exec w scope (.skip s :: more) c c'

/-! ### Bodies -/

/-- Global constants take their values, in order. -/
def Decl.initGlobals (w : World) : List Decl → Config → Config
  | [], c => c
  | .var _ _ _ :: more, c => initGlobals w more c
  | .const x _ e _ :: more, c =>
    let r := e.eval w [] c.memory c.history
    initGlobals w more ⟨c.memory.setGlobal x r.1, r.2⟩

/-- Local constants take their values, in order.  A value sees the names declared before it. -/
def Decl.initLocals (w : World) : List String → List Decl → Config → Config
  | _, [], c => c
  | scope, .var x _ _ :: more, c => initLocals w (scope ++ [x]) more c
  | scope, .const x _ e _ :: more, c =>
    let r := e.eval w scope c.memory c.history
    initLocals w (scope ++ [x]) more ⟨c.memory.setLocal x r.1, r.2⟩

/-- Parameters take the values of arguments, in order. -/
def Param.bindAll : List Param → List Value → Memory → Memory
  | [], _, m => m
  | p :: more, args, m => bindAll more args.tail (m.setLocal p.name (args.headD .nothing))

/-- What is run as one piece: a function, or the main part behind the global constants. -/
structure Body where
  constants : List Decl
  params : List Param
  decls : List Decl
  block : Block
  result : Option Expr

/-- A function as a body. -/
def Func.asBody (f : Func) : Body := ⟨[], f.params, f.decls, f.body, f.returnValue⟩

/-- The main part as a body. -/
def Program.mainBody (p : Program) : Body := ⟨p.decls, [], p.main.decls, p.main.body, none⟩

/-- The bodies of a program in order. -/
def Program.bodies (p : Program) : List Body := p.funcs.map Func.asBody ++ [p.mainBody]

namespace Body

/-- The names that a body declares. -/
def scope (b : Body) : List String := b.params.map (·.name) ++ b.decls.map (·.name)

/-- The configuration in which the statements of a body begin. -/
def start (w : World) (b : Body) (args : List Value) (c : Config) : Config :=
  let c' := Decl.initGlobals w b.constants c
  Decl.initLocals w (b.params.map (·.name)) b.decls ⟨Param.bindAll b.params args c'.memory, c'.history⟩

/-- The end of a body: the returned value is computed, if there is one. -/
def finish (w : World) (b : Body) (c : Config) : Config × Option Value :=
  match b.result with
  | none => (c, none)
  | some e =>
    let r := e.eval w b.scope c.memory c.history
    (⟨c.memory, r.2⟩, some r.1)

/-- A run of a body from its beginning to its end, with the value that it returns, if any. -/
def Runs (w : World) (b : Body) (args : List Value) (c c' : Config) (returned : Option Value) : Prop :=
  ∃ c₁, Stmt.Exec w b.scope b.block.nodes (b.start w args c) c₁ ∧ b.finish w c₁ = (c', returned)

end Body

end ThreeAddress
