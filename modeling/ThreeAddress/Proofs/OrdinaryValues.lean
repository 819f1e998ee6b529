import ThreeAddress.Proofs.NestedConditions

/-!
# Where parentheses may be dropped

The code of an expression or a condition does not see parentheses.  It has the ordinary value all the same when the
right side of every operator is a single operand, or when there is one operator only, and that is associative.

* `Expr.ordinary`, `Cond.ordinary` — the value that respects every node of the tree;
* `Expr.Harmless`, `Cond.Harmless` — trees whose parentheses may be dropped;
* `Expr.meaning_eq_ordinary`, `Cond.meaning_eq_ordinary` — the value of the chain is the ordinary one;
* `lower_ordinary` — what the code comes to.
-/

namespace ThreeAddress

variable {V : Type}

/-! ### Ordinary values -/

section Ordinary

variable (I : Interpretation V) (t : RenameTable) (store : String → V)

/-- The ordinary value of an expression: each operator is applied to the values of its two sides. -/
def Expr.ordinary : Expr → List (Observation V) → V × List (Observation V)
  | .arith op left right _, h =>
    let l := left.ordinary h
    let r := right.ordinary l.2
    (I.apply (.arith op) l.1 r.1, r.2)
  | .logic op left right _, h =>
    let l := left.ordinary h
    let r := right.ordinary l.2
    (I.apply (.logic op) l.1 r.1, r.2)
  | .paren inner _, h => inner.ordinary h
  | .call c _, h => Operand.meaning I t store (.call c) h
  | .fragment f _, h => (f.meaning I t store, h)

/-- The ordinary truth of a condition: each connective is applied to the truths of its two sides, and a negation
inverts the truth of what it negates. -/
def Cond.ordinary : Cond → List (Observation V) → Bool × List (Observation V)
  | .comparison op left right _, h =>
    let l := left.ordinary I t store h
    let r := right.ordinary I t store l.2
    let b := I.holds (I.apply (.order op) l.1 r.1)
    (b, r.2 ++ [.test b])
  | .equality op left right _, h =>
    let l := left.ordinary I t store h
    let r := right.ordinary I t store l.2
    let b := I.holds (I.apply (.same op) l.1 r.1)
    (b, r.2 ++ [.test b])
  | .neg inner _, h =>
    let i := inner.ordinary h
    (!i.1, i.2 ++ [.test !i.1])
  | .paren inner _, h => inner.ordinary h
  | .binary op left right _, h =>
    let l := left.ordinary h
    let r := right.ordinary l.2
    (op.apply l.1 r.1, r.2)
  | .bool b _, h => (b, h ++ [.test b])

end Ordinary

/-! ### Harmless trees -/

/-- Whether an operator is associative on integers or truth values. -/
def Operator.isAssociative : Operator → Bool
  | .arith .plus | .logic _ => true
  | .arith .minus | .order _ | .same _ => false

namespace Expr

/-- Whether an expression is an operator with two sides, parentheses aside. -/
def isBinary : Expr → Bool
  | .arith _ _ _ _ | .logic _ _ _ _ => true
  | .paren inner _ => inner.isBinary
  | .call _ _ | .fragment _ _ => false

/-- Whether no operator has an operator on its right side, parentheses aside. -/
def leansLeft : Expr → Bool
  | .arith _ left right _ | .logic _ left right _ => left.leansLeft && right.leansLeft && !right.isBinary
  | .paren inner _ => inner.leansLeft
  | .call _ _ | .fragment _ _ => true

/-- No operator has an operator on its right side, or all operators are the same associative one. -/
def Harmless (e : Expr) : Prop :=
  e.leansLeft = true ∨ ∃ op : Operator, op.isAssociative = true ∧ ∀ p ∈ e.operators, p = op

theorem operators_of_not_isBinary {e : Expr} (h : e.isBinary = false) : e.operators = [] := by
  induction e with
  | arith | logic => cases h
  | paren e s ih => exact ih h
  | call | fragment => rfl

end Expr

namespace Cond

/-- What is negated in a condition, at any depth. -/
def negated : Cond → List Cond
  | .neg inner _ => inner :: inner.negated
  | .paren inner _ => inner.negated
  | .binary _ left right _ => left.negated ++ right.negated
  | .comparison _ _ _ _ | .equality _ _ _ _ | .bool _ _ => []

/-- The groups of connectives that no negation divides. -/
def groups (c : Cond) : List (List Connective) := c.connectives :: c.negated.map connectives

/-- The expressions that are compared in a condition. -/
def compared : Cond → List Expr
  | .comparison _ left right _ | .equality _ left right _ => [left, right]
  | .neg inner _ | .paren inner _ => inner.compared
  | .binary _ left right _ => left.compared ++ right.compared
  | .bool _ _ => []

/-- Each group has one connective only, and the expressions are harmless. -/
structure Harmless (c : Cond) : Prop where
  groups : ∀ group ∈ c.groups, ∃ op, ∀ p ∈ group, p = op
  compared : ∀ e ∈ c.compared, e.Harmless

end Cond

/-! ### Chains and trees -/

section Fold

variable {f : Operator → V → V → V}

/-- What stands behind a chain goes on from its value. -/
theorem leftFold?_append {ops ops' : List Operator} {vs ws : List V} {v : V} (h : leftFold? f ops vs = some v) :
    leftFold? f (ops ++ ops') (vs ++ ws) = leftFold? f ops' (v :: ws) := by
  induction ops generalizing vs with
  | nil =>
    match vs, h with
    | [_], h =>
      cases h
      rfl
  | cons op ops ih =>
    match vs, h with
    | _ :: _ :: _, h => exact ih h

/-- An operator is applied to a value and a single operand. -/
theorem leftFold?_pair (op : Operator) (v : V) {ws : List V} {w : V} (h : leftFold? f [] ws = some w) :
    leftFold? f [op] (v :: ws) = some (f op v w) := by
  match ws, h with
  | [_], h =>
    cases h
    rfl

/-- A chain of one associative operator may stand on the right side of that operator. -/
theorem leftFold?_assoc {op : Operator} (hassoc : ∀ a b c, f op (f op a b) c = f op a (f op b c))
    {ops : List Operator} (hops : ∀ p ∈ ops, p = op) (v : V) {ws : List V} {w : V}
    (h : leftFold? f ops ws = some w) : leftFold? f (op :: ops) (v :: ws) = some (f op v w) := by
  induction ops generalizing ws with
  | nil => exact leftFold?_pair op v h
  | cons p ops ih =>
    obtain ⟨rfl, hops⟩ := List.forall_mem_cons.1 hops
    match ws, h with
    | x :: y :: more, h =>
      have hmore : leftFold? f ops (f p v (f p x y) :: more) = some (f p v w) := ih hops h
      rw [leftFold?, leftFold?, hassoc]
      exact hmore

end Fold

section Chain

variable {I : Interpretation V} {t : RenameTable} {store : String → V} {h : List (Observation V)}

/-- A chain comes to some value, with some more seen. -/
def ComesTo (I : Interpretation V) (t : RenameTable) (store : String → V) (ops : List Operator) (os : List Operand)
    (h : List (Observation V)) (x : V × List (Observation V)) : Prop :=
  leftFold? I.apply ops (meanings I t store os h).1 = some x.1 ∧ (meanings I t store os h).2 = x.2

/-- The chain of an operator between two sides: what stands behind the operator is a single operand, or the operator
is associative and the only one there. -/
theorem ComesTo.link {op : Operator} {ops ops' : List Operator} {os os' : List Operand}
    {x y : V × List (Observation V)} (hx : ComesTo I t store ops os h x) (hy : ComesTo I t store ops' os' x.2 y)
    (hop : ops' = [] ∨ (∀ a b c, I.apply op (I.apply op a b) c = I.apply op a (I.apply op b c)) ∧ ∀ p ∈ ops', p = op) :
    ComesTo I t store (ops ++ op :: ops') (os ++ os') h (I.apply op x.1 y.1, y.2) := by
  have hlast : leftFold? I.apply (op :: ops') (x.1 :: (meanings I t store os' x.2).1) = some (I.apply op x.1 y.1) := by
    rcases hop with rfl | ⟨hassoc, hops⟩
    · exact leftFold?_pair op x.1 hy.1
    · exact leftFold?_assoc hassoc hops x.1 hy.1
  rw [ComesTo, meanings_append, hx.2]
  exact ⟨(leftFold?_append hx.1).trans hlast, hy.2⟩

namespace Expr

/-- Where no operator has an operator on its right side, the chain comes to the ordinary value. -/
theorem comesTo_of_leansLeft {e : Expr} (he : e.leansLeft = true) (h : List (Observation V)) :
    ComesTo I t store e.operators e.operands h (e.ordinary I t store h) := by
  induction e generalizing h with
  | arith op l r s ihl ihr | logic op l r s ihl ihr =>
    simp only [leansLeft, Bool.and_eq_true, Bool.not_eq_true'] at he
    exact (ihl he.1.1 h).link (ihr he.1.2 _) (.inl (operators_of_not_isBinary he.2))
  | paren e s ih => exact ih he h
  | call c s => exact ⟨rfl, rfl⟩
  | fragment f s => exact ⟨rfl, rfl⟩

/-- Where all operators are the same associative one, the chain comes to the ordinary value. -/
theorem comesTo_of_operators {e : Expr} {op : Operator}
    (hassoc : ∀ a b c, I.apply op (I.apply op a b) c = I.apply op a (I.apply op b c))
    (he : ∀ p ∈ e.operators, p = op) (h : List (Observation V)) :
    ComesTo I t store e.operators e.operands h (e.ordinary I t store h) := by
  induction e generalizing h with
  | arith op' l r s ihl ihr | logic op' l r s ihl ihr =>
    obtain ⟨hl, hmore⟩ := List.forall_mem_append.1 he
    obtain ⟨rfl, hr⟩ := List.forall_mem_cons.1 hmore
    exact (ihl hl h).link (ihr hr _) (.inr ⟨hassoc, hr⟩)
  | paren e s ih => exact ih he h
  | call c s => exact ⟨rfl, rfl⟩
  | fragment f s => exact ⟨rfl, rfl⟩

end Expr

end Chain

theorem Connective.apply_assoc (op : Connective) (a b c : Bool) :
    op.apply (op.apply a b) c = op.apply a (op.apply b c) := by
  cases op with
  | and => exact Bool.and_assoc a b c
  | or => exact Bool.or_assoc a b c

/-- Sums and connectives are associative, also where an operand is of another type. -/
theorem Interpretation.exact_assoc (answer : List (Observation Value) → String → List Value → Value) {op : Operator}
    (hop : op.isAssociative = true) (a b c : Value) :
    (Interpretation.exact answer).apply op ((Interpretation.exact answer).apply op a b) c =
      (Interpretation.exact answer).apply op a ((Interpretation.exact answer).apply op b c) := by
  cases op with
  | order | same => cases hop
  | arith op =>
    cases op with
    | minus => cases hop
    | plus =>
      rcases a with x | x | _ <;> rcases b with y | y | _ <;> rcases c with z | z | _
      case integer.integer.integer => exact congrArg Value.integer (Int.add_assoc x y z)
      all_goals rfl
  | logic op =>
    rcases a with x | x | _ <;> rcases b with y | y | _ <;> rcases c with z | z | _
    case boolean.boolean.boolean => exact congrArg Value.boolean (op.apply_assoc x y z)
    all_goals rfl

section Exact

variable {answer : List (Observation Value) → String → List Value → Value} {t : RenameTable}
  {store : String → Value}

/-- The value of the chain of a harmless expression is the ordinary one. -/
theorem Expr.meaning_eq_ordinary {e : Expr} (he : e.Harmless) (h : List (Observation Value)) :
    e.meaning (.exact answer) t store h = e.ordinary (.exact answer) t store h := by
  have hcomes : ComesTo (.exact answer) t store e.operators e.operands h (e.ordinary (.exact answer) t store h) := by
    rcases he with he | ⟨op, hop, he⟩
    · exact e.comesTo_of_leansLeft he h
    · exact e.comesTo_of_operators (Interpretation.exact_assoc answer hop) he h
  rw [Expr.meaning, hcomes.1, hcomes.2]
  rfl

/-- A chain of one connective may stand on the left side of that connective. -/
theorem rightNest?_link {op : Connective} {ops ops' : List Connective} (hops : ∀ p ∈ ops, p = op) {bs bs' : List Bool}
    {b b' : Bool} (h : rightNest? ops bs = some b) (h' : rightNest? ops' bs' = some b') :
    rightNest? (ops ++ op :: ops') (bs ++ bs') = some (op.apply b b') := by
  induction ops generalizing bs b with
  | nil =>
    match bs, h with
    | [_], h =>
      cases h
      exact congrArg (Option.map _) h'
  | cons p ops ih =>
    obtain ⟨rfl, hops⟩ := List.forall_mem_cons.1 hops
    match bs, h with
    | x :: more, h =>
      obtain ⟨y, hy, rfl⟩ := Option.map_eq_some_iff.1 h
      rw [Connective.apply_assoc]
      exact congrArg (Option.map _) (ih hops hy)

namespace Cond

theorem Harmless.neg {c : Cond} {sp : Span} (h : (Cond.neg c sp).Harmless) : c.Harmless :=
  ⟨fun group hg => h.groups group (List.mem_cons_of_mem _ hg), h.compared⟩

theorem Harmless.left {op : Connective} {l r : Cond} {sp : Span} (h : (Cond.binary op l r sp).Harmless) :
    l.Harmless := by
  refine ⟨fun group hg => ?_, fun e he => h.compared e (List.mem_append_left _ he)⟩
  rcases List.mem_cons.1 hg with rfl | hg
  · obtain ⟨op', hop'⟩ := h.groups _ List.mem_cons_self
    exact ⟨op', fun p hp => hop' p (List.mem_append_left _ hp)⟩
  · refine h.groups group (List.mem_cons_of_mem _ ?_)
    rw [negated, List.map_append]
    exact List.mem_append_left _ hg

theorem Harmless.right {op : Connective} {l r : Cond} {sp : Span} (h : (Cond.binary op l r sp).Harmless) :
    r.Harmless := by
  refine ⟨fun group hg => ?_, fun e he => h.compared e (List.mem_append_right _ he)⟩
  rcases List.mem_cons.1 hg with rfl | hg
  · obtain ⟨op', hop'⟩ := h.groups _ List.mem_cons_self
    exact ⟨op', fun p hp => hop' p (List.mem_append_right _ (List.mem_cons_of_mem _ hp))⟩
  · refine h.groups group (List.mem_cons_of_mem _ ?_)
    rw [negated, List.map_append]
    exact List.mem_append_right _ hg

/-- On the left side of a connective, there is no other. -/
theorem Harmless.connective {op : Connective} {l r : Cond} {sp : Span} (h : (Cond.binary op l r sp).Harmless) :
    ∀ p ∈ l.connectives, p = op := by
  obtain ⟨op', hop'⟩ := h.groups _ List.mem_cons_self
  obtain ⟨hl, hmore⟩ := List.forall_mem_append.1 hop'
  rw [(List.forall_mem_cons.1 hmore).1]
  exact hl

/-- Where each group has one connective only, the chain comes to the ordinary truth. -/
theorem rightNest?_ordinary {c : Cond} (hc : c.Harmless) (h : List (Observation Value)) :
    rightNest? c.connectives (c.outcomes (.exact answer) t store h).1 =
        some (c.ordinary (.exact answer) t store h).1 ∧
      (c.outcomes (.exact answer) t store h).2 = (c.ordinary (.exact answer) t store h).2 := by
  induction c generalizing h with
  | comparison op l r sp | equality op l r sp =>
    have hl := hc.compared l List.mem_cons_self
    have hr := hc.compared r (List.mem_cons_of_mem _ List.mem_cons_self)
    rw [outcomes, ordinary, Expr.meaning_eq_ordinary hl, Expr.meaning_eq_ordinary hr]
    exact ⟨rfl, rfl⟩
  | neg c sp ih =>
    obtain ⟨hvalue, htrace⟩ := ih hc.neg h
    rw [outcomes, ordinary, hvalue, htrace]
    exact ⟨rfl, rfl⟩
  | paren c sp ih => exact ih ⟨hc.groups, hc.compared⟩ h
  | binary op l r sp ihl ihr =>
    obtain ⟨hl, hl'⟩ := ihl hc.left h
    obtain ⟨hr, hr'⟩ := ihr hc.right (l.ordinary (.exact answer) t store h).2
    rw [← hl'] at hr hr'
    refine ⟨?_, hr'.trans ?_⟩
    · rw [connectives, outcomes, ordinary, ← hl']
      exact rightNest?_link hc.connective hl hr
    · rw [ordinary, ← hl']
  | bool b sp => exact ⟨rfl, rfl⟩

/-- The truth of the chain of a harmless condition is the ordinary one. -/
theorem meaning_eq_ordinary {c : Cond} (hc : c.Harmless) (h : List (Observation Value)) :
    c.meaning (.exact answer) t store h = c.ordinary (.exact answer) t store h := by
  rw [meaning, (rightNest?_ordinary hc h).1, (rightNest?_ordinary hc h).2]
  rfl

end Cond

end Exact

/-! ### What the code comes to -/

/-- **Harmless trees.**  Over exact integers and truth values, the code of a harmless expression comes to the ordinary
value, and the code of a harmless condition to the ordinary truth, whatever calls answer; and what is seen on the way
is what the tree says. -/
theorem lower_ordinary (t : RenameTable) (g : Generator)
    (answer : List (Observation Value) → String → List Value → Value) (s : Moment Value) :
    (∀ e : Expr, AllPlain e.leaves → e.Harmless →
      (Interpretation.exact answer).Yields g ((e.lower t).run g) s
        (e.ordinary (.exact answer) t s.store s.trace).1 (e.ordinary (.exact answer) t s.store s.trace).2) ∧
      ∀ c : Cond, AllPlain c.leaves → c.Harmless →
        (Interpretation.exact answer).Yields g ((c.lower t).run g) s
          (.boolean (c.ordinary (.exact answer) t s.store s.trace).1)
          (c.ordinary (.exact answer) t s.store s.trace).2 := by
  refine ⟨fun e hp he => ?_, fun c hp hc => ?_⟩
  · rw [← Expr.meaning_eq_ordinary he]
    exact e.lower_yields t g hp _ s
  · rw [← Cond.meaning_eq_ordinary hc]
    exact c.lower_yields t g hp (Interpretation.exact_usual answer) s

/-- The sum `x + (f(x) + 2)`. -/
def nestedSum : Expr :=
  .arith .plus (.fragment (.atom false (.name "x")) .origin)
    (.paren (.arith .plus (.call ⟨"f", [⟨.name "x", .origin⟩], .origin⟩ .origin)
      (.fragment (.atom false (.number "2")) .origin) .origin) .origin) .origin

/-- The condition `!(x < 3 || false)`. -/
def negatedDisjunction : Cond :=
  .neg (.paren (.binary .or
    (.comparison .less (.fragment (.atom false (.name "x")) .origin) (.fragment (.atom false (.number "3")) .origin)
      .origin)
    (.bool false .origin) .origin) .origin) .origin

/-- Both are computed as they are written. -/
theorem lower_ordinary_nestedSum :
    AllPlain nestedSum.leaves ∧ nestedSum.Harmless ∧
      AllPlain negatedDisjunction.leaves ∧ negatedDisjunction.Harmless ∧
      (Interpretation.exact fun _ _ args => args.headD .nothing).Yields .first
        ((nestedSum.lower ⟨2, ["x"]⟩).run .first) ⟨0, fun _ => .integer 10, [], []⟩ (.integer 22)
        [.call "f" [.integer 10]] ∧
      (Interpretation.exact fun _ _ args => args.headD .nothing).Yields .first
        ((negatedDisjunction.lower ⟨2, ["x"]⟩).run .first) ⟨0, fun _ => .integer 10, [], []⟩ (.boolean true)
        [.test false, .test false, .test true] := by
  have hsum : AllPlain nestedSum.leaves := by decide
  have hnot : AllPlain negatedDisjunction.leaves := by decide
  have hsum' : nestedSum.Harmless := .inr ⟨.arith .plus, rfl, by decide⟩
  have hnot' : negatedDisjunction.Harmless := by
    refine ⟨fun group hg => ⟨.or, ?_⟩, fun e he => .inl ?_⟩
    · have hmem : group = [] ∨ group = [.or] := by
        simpa [negatedDisjunction, Cond.groups, Cond.connectives, Cond.negated] using hg
      rcases hmem with rfl | rfl <;> decide
    · revert e
      decide
  obtain ⟨hexpr, hcond⟩ := lower_ordinary ⟨2, ["x"]⟩ .first (fun _ _ args => args.headD .nothing)
    ⟨0, fun _ => .integer 10, [], []⟩
  exact ⟨hsum, hsum', hnot, hnot', hexpr nestedSum hsum hsum', hcond negatedDisjunction hnot hnot'⟩

end ThreeAddress
