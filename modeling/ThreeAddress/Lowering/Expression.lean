import ThreeAddress.Code.Instruction
import ThreeAddress.Code.Name
import ThreeAddress.Pass

/-!
# Lowering expressions and conditions

An expression is the chain of its operands and operators from left to right; parentheses do not
interrupt the chain.  Its operators are applied from the left.  A condition is the chain of its atomic
conditions; each of them is stored in a flag, and the flags are combined from the right.

* `Generator`, `Emit` — the state of lowering, and a pass over it that records instructions;
* `Chain` — a head and further members, each behind a link;
* `Expr.chain`, `Expr.lower` — the chain of an expression, and its code;
* `Cond.lowerFlags`, `Cond.lower` — the flags of a condition, and its code.
-/

namespace ThreeAddress

/-! ### Passes that emit code -/

/-- The state of lowering: the names to come, and the locals of all bodies so far. -/
structure Generator where
  names : NameSupply
  locals : List LocalName
deriving DecidableEq

/-- The state before any program. -/
def Generator.first : Generator := ⟨.first, []⟩

/-- A pass that emits instructions. -/
abbrev Emit (α : Type) := Pass Generator Instruction α

namespace Emit

/-- Emit an assignment. -/
def assign (dest : String) (value : Rvalue) : Emit Unit := Pass.tell (.assign dest value)

/-- Take something from the name supply. -/
def take {α : Type} (from? : NameSupply → α × NameSupply) : Emit α := do
  let g ← Pass.get
  let (name, names) := from? g.names
  Pass.modify fun g => { g with names := names }
  return name

/-- The atom of a value; anything else than an atom goes into a fresh temporary. -/
def atomOf (value : Rvalue) : Emit String :=
  match value with
  | .atom text => return text
  | value => do
    let temp ← take NameSupply.takeTemp
    assign temp value
    return temp

end Emit

/-! ### Chains -/

/-- A head, and further members each behind a link. -/
structure Chain (ω α : Type) where
  head : α
  tail : List (ω × α)

namespace Chain

variable {ω α : Type}

/-- A chain of one member. -/
def single (a : α) : Chain ω α := ⟨a, []⟩

/-- Two chains joined by a link. -/
def link (left : Chain ω α) (op : ω) (right : Chain ω α) : Chain ω α :=
  ⟨left.head, left.tail ++ (op, right.head) :: right.tail⟩

end Chain

/-! ### Expressions -/

/-- A member of an expression's chain. -/
inductive Operand
  | call (call : Call)
  | fragment (fragment : Fragment)
deriving DecidableEq

/-- The chain of an expression. -/
def Expr.chain : Expr → Chain Operator Operand
  | .arith op left right _ => left.chain.link (.arith op) right.chain
  | .logic op left right _ => left.chain.link (.logic op) right.chain
  | .paren inner _ => inner.chain
  | .call c _ => .single (.call c)
  | .fragment f _ => .single (.fragment f)

/-- A name or numeral in the code of a body. -/
def Atom.lower (t : RenameTable) : Atom → String
  | .name id => t.resolve id
  | .number digits => digits

/-- Pass the arguments of a call in order. -/
def Call.lower (t : RenameTable) (c : Call) : Emit Rvalue := do
  c.args.forM fun a => Pass.tell (.param (a.atom.lower t))
  return .call c.name c.args.length

/-- A fragment as a right-hand side. -/
def Fragment.lower (t : RenameTable) : Fragment → Rvalue
  | .atom false operand => .atom (operand.lower t)
  | .atom true operand => .binary "0" (.arith .minus) (operand.lower t)
  | .not id => .not (t.resolve id)
  | .zero => .atom "0"
  | .bool value => .atom (boolText value)

/-- An operand as a right-hand side. -/
def Operand.lower (t : RenameTable) : Operand → Emit Rvalue
  | .call c => c.lower t
  | .fragment f => return f.lower t

/-- An operand as an atom. -/
def Operand.lowerAtom (t : RenameTable) (o : Operand) : Emit String := do
  Emit.atomOf (← o.lower t)

/-- Apply operators from the left, each result in a fresh temporary. -/
def foldAtoms (left : String) : List (Operator × String) → Emit String
  | [] => return left
  | (op, right) :: more => do
    let result ← Emit.atomOf (.binary left op right)
    foldAtoms result more

/-- The right-hand side that an expression comes to.  A chain of one operand is that operand; in a
longer one all operands become atoms before the first operator is applied. -/
def Expr.lower (t : RenameTable) (e : Expr) : Emit Rvalue := do
  match e.chain with
  | ⟨only, []⟩ => only.lower t
  | ⟨first, more⟩ =>
    let head ← first.lowerAtom t
    let tail ← more.mapM fun (op, o) => do return (op, ← o.lowerAtom t)
    match tail with
    | [(op, right)] => return .binary head op right
    | _ => return .atom (← foldAtoms head tail)

/-- The atom that an expression comes to. -/
def Expr.lowerAtom (t : RenameTable) (e : Expr) : Emit String := do
  Emit.atomOf (← e.lower t)

/-! ### Conditions -/

/-- Store a predicate in a fresh flag. -/
def flagOf (predicate : Rvalue) : Emit String := do
  let flag ← Emit.take NameSupply.takeFlag
  let skip ← Emit.take NameSupply.takeLabel
  Emit.assign flag (.atom "false")
  Pass.tell (.ifz predicate skip)
  Emit.assign flag (.atom "true")
  Pass.tell (.label skip)
  return flag

/-- Combine flags from the right: the combined later ones stand on the left of each connective. -/
def combineFlags (first : String) : List (Connective × String) → Emit String
  | [] => return first
  | (op, second) :: more => do
    let recent ← combineFlags second more
    let flag ← Emit.take NameSupply.takeFlag
    Emit.assign flag (.binary recent (.logic op) first)
    return flag

/-- One flag for the whole chain. -/
def Chain.combine (c : Chain Connective String) : Emit String := combineFlags c.head c.tail

/-- The flags of the atomic conditions.  A negation is atomic: what it negates is a chain of its
own. -/
def Cond.lowerFlags (t : RenameTable) : Cond → Emit (Chain Connective String)
  | .binary op left right _ => do
    let l ← left.lowerFlags t
    let r ← right.lowerFlags t
    return l.link op r
  | .paren inner _ => inner.lowerFlags t
  | .comparison op left right _ => do
    let l ← left.lowerAtom t
    let r ← right.lowerAtom t
    return .single (← flagOf (.binary l (.order op) r))
  | .equality op left right _ => do
    let l ← left.lowerAtom t
    let r ← right.lowerAtom t
    return .single (← flagOf (.binary l (.same op) r))
  | .neg inner _ => do
    let flag ← (← inner.lowerFlags t).combine
    return .single (← flagOf (.binary flag (.same .equal) "false"))
  | .bool value _ => return .single (← flagOf (.atom (boolText value)))

/-- The predicate that a condition comes to. -/
def Cond.lower (t : RenameTable) (c : Cond) : Emit Rvalue := do
  let flag ← (← c.lowerFlags t).combine
  return .binary flag (.same .equal) "true"

end ThreeAddress
