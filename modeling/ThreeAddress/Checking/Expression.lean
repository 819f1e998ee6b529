import ThreeAddress.Checking.Cause
import ThreeAddress.Pass
import ThreeAddress.Symbol.Table

/-!
# Checking expressions and conditions

Checking never stops at a fault.  It walks the tree from left to right and records every fault in the
order of that walk.

* `Check` — a pass over symbol tables that records faults;
* `Expr.check` — the yield of an expression, and the faults in it; only calls change the table, by
  marking the function as used;
* `Cond.check` — the faults in a condition.
-/

namespace ThreeAddress

/-- A pass over symbol tables that records faults. -/
abbrev Check (α : Type) := Pass SymbolTable Fault α

namespace Check

/-- Record a fault. -/
def report (cause : SemanticCause) (span : Span) (hint : String) : Check Unit :=
  Pass.tell (cause.fault span hint)

/-- Record a fault unless a condition holds. -/
def require (ok : Bool) (cause : SemanticCause) (span : Span) (hint : String) : Check Unit :=
  if ok then pure () else report cause span hint

end Check

/-! ### Names in value position -/

/-- The causes for which a name can be refused as a value. -/
structure NameCauses where
  undefined : String → SemanticCause
  function : String → SemanticCause
  unassigned : String → SemanticCause

/-- A name as an operand. -/
def NameCauses.ofOperand : NameCauses :=
  ⟨.undefinedVariable, .functionAsValue, .unassignedVariable⟩

/-- A name as an argument. -/
def NameCauses.ofArgument : NameCauses :=
  ⟨.undefinedArgument, .functionAsArgument, .unassignedArgument⟩

/-- What a name in value position yields.  A variable that was never assigned still has its type. -/
def checkName (causes : NameCauses) (name : String) (span : Span) (hint : String) : Check Yield := do
  match (← Pass.get).lookup? name with
  | none =>
    Check.report (causes.undefined name) span hint
    return .unknown
  | some e =>
    match e.valueType? with
    | none =>
      Check.report (causes.function name) span hint
      return .unknown
    | some type =>
      Check.require (!e.isUntouched) (causes.unassigned name) span hint
      return .value type

/-! ### Calls -/

/-- What an argument yields. -/
def Argument.check (hint : String) (a : Argument) : Check Yield :=
  match a.atom with
  | .number _ => return .value .integer
  | .name id => checkName .ofArgument id a.span hint

/-- Compare the yields of arguments with the types of parameters, both in order. -/
def checkArguments (function hint : String) : Nat → List (Argument × Yield × Ty) → Check Unit
  | _, [] => return
  | position, (a, found, expected) :: more => do
    Check.require (found.resolvesTo expected) (.argumentType position function expected found) a.span hint
    checkArguments function hint (position + 1) more

/-- A call looks its function up among the globals.  The arguments of an unknown function are not
looked at, those of a known one always, and their types only if their number is right. -/
def Call.check (c : Call) : Check Yield := do
  match ((← Pass.get).lookupGlobal? c.name).map Entity.kind with
  | none =>
    Check.report (.undefinedFunction c.name) c.span c.text
    return .unknown
  | some (.value _) =>
    Check.report (.notAFunction c.name) c.span c.text
    return .unknown
  | some (.function returnType params) =>
    let arity := params.length
    let count := c.args.length
    Check.require (arity ≤ count) (.tooFewArguments c.name arity count) c.span c.text
    Check.require (count ≤ arity) (.tooManyArguments c.name arity count) c.span c.text
    Pass.modify (·.setGlobalState c.name .used)
    let yields ← c.args.mapM (Argument.check c.text)
    if count = arity then
      checkArguments c.name c.text 1 (c.args.zip (yields.zip params))
    return .call returnType

/-! ### Expressions -/

/-- The faults of two operands of which an operator expects one type. -/
def checkOperands (cause : Yield → SemanticCause) (expected : Ty) (left right : Yield) (span : Span)
    (hint : String) : Check Unit := do
  Check.require (left.resolvesTo expected) (cause left) span hint
  Check.require (right.resolvesTo expected) (cause right) span hint

/-- What a signed or inverted name yields: nothing known stays unknown, all else is of the type that
the sign stands for. -/
def checkSigned (cause : Yield → SemanticCause) (expected : Ty) (name : String) (span : Span)
    (hint : String) : Check Yield := do
  match ← checkName .ofOperand name span hint with
  | .unknown => return .unknown
  | found =>
    Check.require (found.resolvesTo expected) (cause found) span hint
    return .value expected

/-- What a fragment yields. -/
def Fragment.check (f : Fragment) (span : Span) : Check Yield :=
  match f with
  | .atom _ (.number _) | .zero => return .value .integer
  | .bool _ => return .value .boolean
  | .atom false (.name id) => checkName .ofOperand id span f.text
  | .atom true (.name id) => checkSigned .negatedOperand .integer id span f.text
  | .not id => checkSigned .invertedOperand .boolean id span f.text

/-- What an expression yields. -/
def Expr.check : Expr → Check Yield
  | .arith op left right span => do
    let l ← left.check
    let r ← right.check
    checkOperands (.operands op.text .integer) .integer l r span
      (Expr.arith op left right span).text
    return .value .integer
  | .logic op left right span => do
    let l ← left.check
    let r ← right.check
    checkOperands (.operands op.text .boolean) .boolean l r span
      (Expr.logic op left right span).text
    return .value .boolean
  | .paren inner _ => inner.check
  | .call c _ => c.check
  | .fragment f span => f.check span

/-! ### Conditions -/

/-- Whether two yields may be compared by an equality.  A value and the result of a call never agree,
not even in one type. -/
def Yield.agreesWith (a b : Yield) : Bool := a.isUnknown || b.isUnknown || a == b

/-- The faults of a condition. -/
def Cond.check : Cond → Check Unit
  | .comparison op left right span => do
    let l ← left.check
    let r ← right.check
    checkOperands (.comparedOperands op) .integer l r span
      (Cond.comparison op left right span).text
  | .equality op left right span => do
    let l ← left.check
    let r ← right.check
    Check.require (l.agreesWith r) (.incomparable op l r) span
      (Cond.equality op left right span).text
  | .neg inner _ | .paren inner _ => inner.check
  | .binary _ left right _ => do
    left.check
    right.check
  | .bool _ _ => return

end ThreeAddress
