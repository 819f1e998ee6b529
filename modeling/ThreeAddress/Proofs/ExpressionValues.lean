import ThreeAddress.Proofs.FlatCode
import ThreeAddress.Proofs.Interpretations

/-!
# The value of an expression

An expression has a value under any interpretation of constants, operators and calls: its operands have theirs in order,
parentheses aside, and its operators are applied to them from the left.

* `leftFold?` — operators applied from the left;
* `Operand.meaning`, `Expr.meaning` — the values of operands and expressions;
* `RenameTable.Sees`, `Expr.meaning_of_sees` — a run with the variables that a body can name gives them the same values;
* `shows_lower`, `Fragment.eval_lower` — the atoms and right-hand sides that names, numerals and fragments become.
-/

namespace ThreeAddress

variable {V : Type}

/-! ### Values -/

/-- Operators applied from the left, each to what the ones before it gave and to the next value.  There is one value
more than there are operators. -/
def leftFold? (f : Operator → V → V → V) : List Operator → List V → Option V
  | [], [v] => some v
  | op :: ops, v :: w :: more => leftFold? f ops (f op v w :: more)
  | _, _ => none

theorem leftFold?_isSome (f : Operator → V → V → V) {ops : List Operator} {vs : List V}
    (h : ops.length + 1 = vs.length) : ∃ v, leftFold? f ops vs = some v := by
  induction ops generalizing vs with
  | nil =>
    obtain ⟨v, rfl⟩ := List.length_eq_one_iff.1 h.symm
    exact ⟨v, rfl⟩
  | cons op ops ih =>
    match vs, h with
    | v :: w :: more, h =>
      have hlength : ops.length + 1 = (f op v w :: more).length := by simpa using h
      exact ih hlength

section Meaning

variable (I : Interpretation V) (t : RenameTable) (store : String → V)

/-- The value of a name or numeral. -/
def Atom.meaning : Atom → V
  | .name x => store (t.resolve x)
  | .number digits => I.constant (numeralValue digits)

/-- The value of a fragment.  A minus sign stands for a difference from zero. -/
def Fragment.meaning : Fragment → V
  | .atom false a => a.meaning I t store
  | .atom true a => I.apply (.arith .minus) (I.constant (.integer 0)) (a.meaning I t store)
  | .not x => I.invert (store (t.resolve x))
  | .zero => I.constant (.integer 0)
  | .bool b => I.constant (.boolean b)

/-- The values of the arguments of a call, in order. -/
def Call.arguments (c : Call) : List V := c.args.map fun a => a.atom.meaning I t store

/-- The value of an operand.  A call is seen. -/
def Operand.meaning : Operand → List (Observation V) → V × List (Observation V)
  | .call c, h => (I.answer h c.name (c.arguments I t store), h ++ [.call c.name (c.arguments I t store)])
  | .fragment f, h => (f.meaning I t store, h)

/-- The values of operands in order. -/
def meanings : List Operand → List (Observation V) → List V × List (Observation V)
  | [], h => ([], h)
  | o :: more, h =>
    let first := o.meaning I t store h
    let rest := meanings more first.2
    (first.1 :: rest.1, rest.2)

/-- The value of an expression: its operators applied from the left to the values of its operands. -/
def Expr.meaning (e : Expr) (h : List (Observation V)) : V × List (Observation V) :=
  let values := meanings I t store e.operands h
  ((leftFold? I.apply e.operators values.1).getD (I.constant .nothing), values.2)

theorem length_meanings (os : List Operand) (h : List (Observation V)) :
    (meanings I t store os h).1.length = os.length := by
  induction os generalizing h with
  | nil => rfl
  | cons o more ih => rw [meanings, List.length_cons, ih, List.length_cons]

theorem meanings_append (os ps : List Operand) (h : List (Observation V)) :
    meanings I t store (os ++ ps) h =
      ((meanings I t store os h).1 ++ (meanings I t store ps (meanings I t store os h).2).1,
        (meanings I t store ps (meanings I t store os h).2).2) := by
  induction os generalizing h with
  | nil => rfl
  | cons o more ih => simp only [List.cons_append, meanings, ih]

/-- The operators and the values of an expression come out even. -/
theorem Expr.leftFold?_meanings (e : Expr) (h : List (Observation V)) :
    leftFold? I.apply e.operators (meanings I t store e.operands h).1 = some (e.meaning I t store h).1 := by
  obtain ⟨v, hv⟩ := leftFold?_isSome I.apply (e.length_operators.trans (length_meanings I t store _ h).symm)
  rw [Expr.meaning, hv, Option.getD_some]

end Meaning

/-! ### Values in a run -/

/-- A run has the values of the variables that a body can name. -/
def RenameTable.Sees (t : RenameTable) (store : String → V) (s : Moment V) : Prop :=
  ∀ x, isIdentifier x = true → isReservedName x = false → s.store (t.resolve x) = store (t.resolve x)

section Run

variable {I : Interpretation V} {code : List Instruction} {t : RenameTable} {store : String → V} {g : Generator}
  {s s' : Moment V}

theorem RenameTable.Sees.mono {n n' : NameSupply} (h : t.Sees store s) (hu : Unchanged n n' s s') : t.Sees store s' :=
  fun x hx hr => (hu.old (n.old_of_unreserved (t.resolve_unreserved hr))).trans (h x hx hr)

theorem shows_constant (n : NameSupply) {text : String} {v : Value} (h : literal? text = some v)
    (hr : isReservedName text = false) : Shows I n s text (I.constant v) :=
  ⟨I.read_literal s h, n.old_of_unreserved hr⟩

theorem shows_zero (n : NameSupply) : Shows I n s "0" (I.constant (.integer 0)) :=
  shows_constant n (v := .integer 0) rfl (by decide)

theorem shows_boolText (n : NameSupply) (b : Bool) : Shows I n s (boolText b) (I.constant (.boolean b)) :=
  shows_constant n (literal?_boolText b) (by cases b <;> decide)

theorem shows_resolve (n : NameSupply) (hs : t.Sees store s) {x : String} (hx : isIdentifier x = true)
    (hr : isReservedName x = false) : Shows I n s (t.resolve x) (store (t.resolve x)) :=
  ⟨(I.read_name s (literal?_resolve t hx)).trans (hs x hx hr), n.old_of_unreserved (t.resolve_unreserved hr)⟩

theorem shows_lower (n : NameSupply) (hs : t.Sees store s) {a : Atom} (ha : a.Plain) :
    Shows I n s (a.lower t) (a.meaning I t store) := by
  cases a with
  | name x => exact shows_resolve n hs ha.1 ha.2
  | number d => exact shows_constant n (literal?_of_isNumeral ha) (isReservedName_of_isNumeral ha)

/-- The value of a fragment is that of its right-hand side. -/
theorem Fragment.eval_lower {f : Fragment} (hp : AllPlain f.leaves) (hs : t.Sees store s) :
    I.eval s (f.lower t) = (f.meaning I t store, s) := by
  have hzero : Shows I .first s "0" (I.constant (.integer 0)) := shows_zero _
  cases f with
  | atom negated a =>
    have ha : Shows I .first s (a.lower t) (a.meaning I t store) := shows_lower _ hs (hp a List.mem_cons_self)
    cases negated with
    | false => rw [lower, Interpretation.eval, ha.read]; rfl
    | true => rw [lower, Interpretation.eval, ha.read, hzero.read]; rfl
  | not x =>
    have hx := hp (.name x) List.mem_cons_self
    rw [lower, Interpretation.eval, (shows_resolve (I := I) .first hs hx.1 hx.2).read]
    rfl
  | zero => rw [lower, Interpretation.eval, hzero.read]; rfl
  | bool b => rw [lower, Interpretation.eval, (shows_boolText (I := I) .first b).read]; rfl

/-- The value of a fragment is that of its variables in a run. -/
theorem Fragment.meaning_of_sees {f : Fragment} (hp : AllPlain f.leaves) (hs : t.Sees store s) :
    f.meaning I t s.store = f.meaning I t store := by
  have hself : t.Sees s.store s := fun _ _ _ => rfl
  exact congrArg Prod.fst ((f.eval_lower (I := I) hp hself).symm.trans (f.eval_lower hp hs))

theorem Operand.meaning_of_sees {o : Operand} (hp : AllPlain o.leaves) (hs : t.Sees store s)
    (h : List (Observation V)) : o.meaning I t s.store h = o.meaning I t store h := by
  cases o with
  | fragment f => exact congrArg (·, h) (f.meaning_of_sees hp hs)
  | call c =>
    have hself : t.Sees s.store s := fun _ _ _ => rfl
    have hargs : c.arguments I t s.store = c.arguments I t store := by
      refine List.map_congr_left fun a ha => ?_
      have hplain : a.atom.Plain := hp a.atom (List.mem_map_of_mem ha)
      rw [← (shows_lower (I := I) .first hself hplain).read, (shows_lower .first hs hplain).read]
    rw [meaning, meaning, hargs]

theorem meanings_of_sees {os : List Operand} (hp : AllPlain (os.flatMap Operand.leaves)) (hs : t.Sees store s)
    (h : List (Observation V)) : meanings I t s.store os h = meanings I t store os h := by
  induction os generalizing h with
  | nil => rfl
  | cons o more ih =>
    rw [List.flatMap_cons] at hp
    rw [meanings, meanings, o.meaning_of_sees hp.left hs, ih hp.right]

theorem Expr.meaning_of_sees {e : Expr} (hp : AllPlain e.leaves) (hs : t.Sees store s) (h : List (Observation V)) :
    e.meaning I t s.store h = e.meaning I t store h := by
  rw [e.leaves_operands] at hp
  rw [meaning, meaning, meanings_of_sees hp hs]

end Run

end ThreeAddress
