import ThreeAddress.Program
import ThreeAddress.Reading.Outcome

/-!
# Reading expressions and conditions

Chains of `&&` and `||` join chains of `+` and `-`, which join terms; all chains group to the left.

* `Expr.read` — an expression; `Expr.readSum`, `Expr.readTerm`, `Expr.readFragment` its parts;
* `Call.readFrom`, `Argument.read` — a call whose name has been taken already, and one argument;
* `Cond.read` — a condition: `&&` and `||` between atoms;
* `Cond.readAtom` — a comparison wherever one can be read; else a negation, a group or a truth value.
  So `!x == y` compares the fragment `!x`, and `(a) < b` compares the expression `(a)`.
-/

namespace ThreeAddress

/-! ### Operators among the tokens -/

/-- The arithmetic operator that a token stands for. -/
def ArithOp.ofToken? : Token → Option ArithOp
  | .mark .plus => some .plus
  | .mark .minus => some .minus
  | _ => none

/-- The connective that a token stands for. -/
def Connective.ofToken? : Token → Option Connective
  | .mark .and => some .and
  | .mark .or => some .or
  | _ => none

/-- The comparison or equality that a token stands for. -/
def Relation.ofToken? : Token → Option (Comparison ⊕ Equality)
  | .mark .less => some (.inl .less)
  | .mark .greater => some (.inl .greater)
  | .mark .lessEqual => some (.inl .lessEqual)
  | .mark .greaterEqual => some (.inl .greaterEqual)
  | .mark .equal => some (.inr .equal)
  | .mark .notEqual => some (.inr .notEqual)
  | _ => none

/-- The name or numeral that a token stands for. -/
def Atom.ofToken? : Token → Option Atom
  | .identifier id => some (.name id)
  | .number digits => some (.number digits)
  | _ => none

/-- The fragment that a single token makes up. -/
def Fragment.ofToken? : Token → Option Fragment
  | .identifier id => some (.atom false (.name id))
  | .number digits => some (if digits = "0" then .zero else .atom false (.number digits))
  | .word .true => some (.bool true)
  | .word .false => some (.bool false)
  | _ => none

/-! ### Calls -/

/-- An argument is a single name or numeral. -/
def Argument.read (c : Cursor) : Outcome 1 c Argument :=
  let wanted := if c.rest.isEmpty then "argument" else "identifier or number as argument"
  (c.takeIf Atom.ofToken? .expression wanted).map fun p => ⟨p.1, p.2⟩

/-- The arguments between parentheses of a call; its name, at `start`, has been taken already. -/
def Call.readFrom (name : String) (start : Span) (c : Cursor) : Outcome 1 c Call :=
  (c.expect (.mark .leftParen) "'(' after function name").andThen fun _ c₁ _ =>
  (if c₁.next? = some (.mark .rightParen) then c₁.give []
    else (c₁.commaList Argument.read).weaken).andThen fun args c₂ _ =>
  (c₂.expect (.mark .rightParen) "')' after arguments").andThen fun _ c₃ _ =>
  c₃.give ⟨name, args, c₃.spanFrom start⟩

/-! ### Expressions -/

namespace Expr

/-- Join two expressions by an arithmetic operator. -/
def joinArith (op : ArithOp) (left right : Expr) : Expr :=
  .arith op left right (left.span.merge right.span)

/-- Join two expressions by a connective. -/
def joinLogic (op : Connective) (left right : Expr) : Expr :=
  .logic op left right (left.span.merge right.span)

/-- A fragment: one token, a minus before a name or numeral, or `!` before a name. -/
def readFragment (c : Cursor) : Outcome 1 c Expr :=
  match h : c.rest with
  | [] => c.lacks .expression "expression"
  | l :: rest =>
    let c₁ := Cursor.behind l rest
    have h₁ : c₁.size + 1 ≤ c.size := Cursor.behind_size_le h
    match l.token with
    | .mark .minus =>
      match h₂ : rest with
      | [] => (c₁.fail .signWithoutOperand : Outcome 1 c₁ Expr).since h₁
      | m :: more =>
        match Atom.ofToken? m.token with
        | none => (c₁.fail .signWithoutOperand : Outcome 1 c₁ Expr).since h₁
        | some operand =>
          let c₂ := Cursor.behind m more
          (c₂.give (.fragment (.atom true operand) (c₂.spanFrom l.span))).since (by
            subst h₂
            simp only [c₁, c₂, Cursor.behind, Cursor.size, List.length_cons] at h₁ ⊢
            omega)
    | .mark .not =>
      ((c₁.expectName "identifier after '!'").map fun p =>
        Expr.fragment (.not p.1) (l.span.merge p.2)).since h₁
    | t =>
      match Fragment.ofToken? t with
      | some f => (c₁.give (.fragment f (c₁.spanFrom l.span))).since h₁
      | none => c.lacks .expression "expression"

mutual

/-- An expression: sums joined by `&&` and `||`. -/
def read (c : Cursor) : Outcome 1 c Expr :=
  (readSum c).andThen fun left d h =>
    d.chain Connective.ofToken? joinLogic c.size (fun e _ => readSum e) left (by omega)
termination_by 3 * c.size + 2
decreasing_by all_goals omega

/-- A sum: terms joined by `+` and `-`. -/
def readSum (c : Cursor) : Outcome 1 c Expr :=
  (readTerm c).andThen fun left d h =>
    d.chain ArithOp.ofToken? joinArith c.size (fun e _ => readTerm e) left (by omega)
termination_by 3 * c.size + 1
decreasing_by all_goals omega

/-- A term: an expression in parentheses, a call, or a fragment. -/
def readTerm (c : Cursor) : Outcome 1 c Expr :=
  match c.rest with
  | ⟨.mark .leftParen, _⟩ :: _ =>
    (c.expect (.mark .leftParen) "'('").andThen fun start c₁ _ =>
    (read c₁).andThen fun inner c₂ _ =>
    (c₂.expect (.mark .rightParen) "')' after expression").andThen fun _ c₃ _ =>
    c₃.give (.paren inner (c₃.spanFrom start))
  | ⟨.identifier _, _⟩ :: ⟨.mark .leftParen, _⟩ :: _ =>
    (c.expectName "function name").andThen fun (name, start) c₁ _ =>
    (Call.readFrom name start c₁).map fun call => .call call call.span
  | _ => readFragment c
termination_by 3 * c.size
decreasing_by all_goals omega

end

end Expr

/-! ### Conditions -/

namespace Cond

/-- Join two conditions by a connective. -/
def join (op : Connective) (left right : Cond) : Cond :=
  .binary op left right (left.span.merge right.span)

/-- Two sums and a comparison between them. -/
def readComparison (c : Cursor) : Outcome 1 c Cond :=
  (Expr.readSum c).andThen fun left c₁ _ =>
  (c₁.takeIf Relation.ofToken? .condition "comparison operator").andThen fun (op, _) c₂ _ =>
  (Expr.readSum c₂).map fun right =>
    let span := left.span.merge right.span
    match op with
    | .inl order => .comparison order left right span
    | .inr same => .equality same left right span

mutual

/-- A condition: atoms joined by `&&` and `||`. -/
def read (c : Cursor) : Outcome 1 c Cond :=
  (readAtom c).andThen fun left d h =>
    d.chain Connective.ofToken? join c.size (fun e _ => readAtom e) left (by omega)
termination_by 2 * c.size + 1
decreasing_by all_goals omega

/-- An atom.  A comparison is tried first; if nothing else fits either, its fault is the one
reported, with the cursor back at the start of the atom. -/
def readAtom (c : Cursor) : Outcome 1 c Cond :=
  match readComparison c with
  | .done cond d h => .done cond d h
  | .failed fault _ _ =>
    match h : c.rest with
    | [] => .failed fault c (Nat.le_refl _)
    | l :: rest =>
      have h₁ : (Cursor.behind l rest).size + 1 ≤ c.size := Cursor.behind_size_le h
      match l.token with
      | .mark .not =>
        ((readAtom (.behind l rest)).andThen fun inner c₂ _ =>
          c₂.give (.neg inner (c₂.spanFrom l.span))).since h₁
      | .mark .leftParen =>
        ((read (.behind l rest)).andThen fun inner c₂ _ =>
          (c₂.expect (.mark .rightParen) "')' after condition").andThen fun _ c₃ _ =>
          c₃.give (.paren inner (c₃.spanFrom l.span))).since h₁
      | .word .true => ((Cursor.behind l rest).give (.bool true l.span)).since h₁
      | .word .false => ((Cursor.behind l rest).give (.bool false l.span)).since h₁
      | _ => .failed fault c (Nat.le_refl _)
termination_by 2 * c.size
decreasing_by all_goals omega

end

end Cond

end ThreeAddress
