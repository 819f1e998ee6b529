import ThreeAddress.Proofs.OperandTiming

/-!
# The code of an expression under an interpretation

The code of an expression computes its operands in order, parentheses aside, and applies its operators from the left,
under any interpretation of constants, operators and calls.  An interpretation is a behaviour whose calls change
nothing, so there it is the same whether plain variables are read late or in turn.

* `Expr.outcome_behaviour` — what an expression comes to is its value;
* `Interpretation.crosses_of_steps` — steps through code that only passes arguments and assigns temporaries;
* `Expr.lower_crosses` — a run through the code of an expression;
* `Expr.lower_computes` — an expression of any shape.
-/

namespace ThreeAddress

open NameSupply (tempName)

variable {V : Type}

/-! ### What operands come to -/

section Outcomes

variable (I : Interpretation V) (t : RenameTable)

theorem Fragment.meaning_behaviour (f : Fragment) (store : String → V) :
    f.meaning I.behaviour.operations t store = f.meaning I t store := by
  cases f with
  | atom negated a => cases negated <;> cases a <;> rfl
  | not | zero | bool => rfl

theorem Operand.turn_behaviour (o : Operand) (σ : Situation V) :
    o.turn I.behaviour t σ =
      ((o.meaning I t σ.store σ.trace).1, ⟨σ.store, (o.meaning I t σ.store σ.trace).2⟩) := by
  cases o with
  | fragment f => exact congrArg (·, σ) (f.meaning_behaviour I t σ.store)
  | call c =>
    have hargs : c.arguments I.behaviour.operations t σ.store = c.arguments I t σ.store :=
      List.map_congr_left fun a _ => by cases a.atom <;> rfl
    have hstore (args : List V) : (I.behaviour.react σ c.name args).2.store = σ.store :=
      funext fun _ => Behaviour.react_store_other σ c.name args List.not_mem_nil
    rw [turn, hargs, meaning, ← hstore (c.arguments I t σ.store)]
    rfl

theorem turns_behaviour (os : List Operand) (σ : Situation V) :
    turns I.behaviour t os σ =
      ((meanings I t σ.store os σ.trace).1, ⟨σ.store, (meanings I t σ.store os σ.trace).2⟩) := by
  induction os generalizing σ with
  | nil => rfl
  | cons o more ih =>
    rw [turns, o.turn_behaviour, ih]
    rfl

/-- Where calls change nothing, an expression comes to its value. -/
theorem Expr.outcome_behaviour (e : Expr) (σ : Situation V) :
    e.outcome .late I.behaviour t σ =
      ((e.meaning I t σ.store σ.trace).1, ⟨σ.store, (e.meaning I t σ.store σ.trace).2⟩) := by
  have hsteady : Steady I.behaviour t e.operands σ := fun _ _ _ _ hx => absurd hx List.not_mem_nil
  rw [outcome, contributions_of_steady .late hsteady, turns_behaviour]
  rfl

end Outcomes

/-! ### Runs -/

section Cross

variable {I : Interpretation V} {code is : List Instruction} {t : RenameTable} {store : String → V} {g : Generator}
  {n n' : NameSupply} {s s' : Moment V}

namespace Interpretation

theorem eval_store (s : Moment V) (value : Rvalue) : (I.eval s value).2.store = s.store := by cases value <;> rfl

theorem eval_next (s : Moment V) (value : Rvalue) : (I.eval s value).2.pc = s.pc := by cases value <;> rfl

/-- Arguments are passed or a temporary is assigned in one step. -/
theorem cross_of_fills {i : Instruction} (h : i.Fills n.temp n'.temp) (hat : code[s.pc]? = some i)
    (hstep : I.step code s = some s') : I.Crosses code n n' 1 s s' := by
  rcases h with ⟨a, rfl⟩ | ⟨k, value, hk, hk', rfl⟩
  · cases hstep.symm.trans (step_param hat)
    exact .single hstep rfl (.of_eq rfl)
  · cases hstep.symm.trans (step_assign hat)
    refine .single hstep (congrArg (· + 1) (eval_next s value)) fun x hx => ?_
    have hne : x ≠ tempName k := by
      rintro rfl
      exact hx (.inl ⟨k, hk, hk', rfl⟩)
    exact (Moment.set_store_other _ _ hne).trans (congrFun (eval_store s value) x)

/-- So is all of some code that does nothing else, step by step. -/
theorem crosses_of_steps (hfills : ∀ i ∈ is, i.Fills n.temp n'.temp) (hat : is <+: code.drop s.pc)
    (hsteps : I.behaviour.steps code is.length s = some s') : I.Crosses code n n' is.length s s' := by
  induction is generalizing s with
  | nil =>
    cases hsteps
    exact ⟨.refl, rfl, .of_eq rfl⟩
  | cons i more ih =>
    obtain ⟨hfirst, hmore⟩ := List.forall_mem_cons.1 hfills
    obtain ⟨s₁, hstep, hrest⟩ := Option.bind_eq_some_iff.1 hsteps
    rw [I.step_behaviour] at hstep
    have hcross := cross_of_fills hfirst (piece_head hat) hstep
    have hbehind := (piece_append (a := [i]) hat).2
    rw [List.length_singleton, ← hcross.pc] at hbehind
    rw [List.length_cons, Nat.add_comm]
    exact hcross.append (ih hmore hbehind hrest)

/-- A run to where a right-hand side is taken. -/
theorem crosses_of_computes {k : Nat} {value : Rvalue} {r : V × Situation V}
    (hfills : ∀ i ∈ is, i.Fills n.temp n'.temp) (hat : is <+: code.drop s.pc)
    (h : I.behaviour.Computes code k is.length value s s' r) :
    I.Crosses code n n' is.length s s' ∧
      I.eval s' value = (r.1, { s' with passed := s.passed, trace := r.2.trace }) := by
  refine ⟨crosses_of_steps hfills hat h.steps, ?_⟩
  have hgives := h.gives
  have hpassed := h.passed
  have htrace := h.shares.trace
  rw [I.eval_behaviour] at hgives hpassed htrace
  rw [← hgives, ← hpassed, ← htrace]
  cases value <;> rfl

end Interpretation

/-- Behind the arguments of an operand, its right-hand side has its value. -/
theorem Operand.params_cross {o : Operand} (hp : AllPlain o.leaves) (hat : o.params t <+: code.drop s.pc) :
    ∃ s', I.Crosses code n n (o.params t).length s s' ∧
      I.eval s' (o.rvalue t) = ((o.meaning I t s.store s.trace).1,
        { s' with passed := s.passed, trace := (o.meaning I t s.store s.trace).2 }) := by
  obtain ⟨s', hcomputes⟩ := o.params_computes (B := I.behaviour) nofun hp s.shares_situation 0 hat
  rw [o.turn_behaviour] at hcomputes
  exact ⟨s', Interpretation.crosses_of_computes (o.fills_params t _ _) hat hcomputes⟩

/-- Wherever the code of an expression stands, a run through it comes to a right-hand side of its value. -/
theorem Expr.lower_crosses {e : Expr} (hp : AllPlain e.leaves) (hs : t.Sees store s)
    (hat : ((e.lower t).run g).record <+: code.drop s.pc) :
    ∃ s', I.Crosses code g.names ((e.lower t).run g).state.names ((e.lower t).run g).record.length s s' ∧
      I.eval s' ((e.lower t).run g).value = ((e.meaning I t store s.trace).1,
        { s' with passed := s.passed, trace := (e.meaning I t store s.trace).2 }) := by
  obtain ⟨s', hcomputes⟩ := e.lower_computes_late (B := I.behaviour) nofun hp s.shares_situation hat
  rw [e.outcome_behaviour] at hcomputes
  rw [← e.meaning_of_sees hp hs]
  exact ⟨s', Interpretation.crosses_of_computes (e.fills_lower t g) hat hcomputes⟩

/-- The next temporary is assigned. -/
theorem assignTemp_cross {value : Rvalue} {v : V} {p : List V} {h : List (Observation V)}
    (hat : [.assign (tempName g.names.temp) value] <+: code.drop s.pc)
    (heval : I.eval s value = (v, { s with passed := p, trace := h })) :
    ∃ s', I.Crosses code g.names (g.skip 1).names 1 s s' ∧
      Shows I (g.skip 1).names s' (tempName g.names.temp) v ∧ s'.passed = p ∧ s'.trace = h :=
  I.assign_cross (piece_head hat) heval (.inl ⟨_, Nat.le_refl _, Nat.lt_succ_self _, rfl⟩)
    (NameSupply.old_temp (Nat.lt_succ_self _)) (literal?_of_isReservedName (isReservedName_tempName _))

end Cross

/-! ### Expressions of any shape -/

theorem Expr.lower_yields (t : RenameTable) (g : Generator) {e : Expr} (hp : AllPlain e.leaves)
    (I : Interpretation V) (s : Moment V) :
    I.Yields g ((e.lower t).run g) s (e.meaning I t s.store s.trace).1 (e.meaning I t s.store s.trace).2 := by
  intro before behind hpc _
  refine e.lower_crosses hp (fun _ _ _ => rfl) ?_
  rw [hpc, List.append_assoc, List.drop_left]
  exact List.prefix_append _ _

/-- **Expressions are chains.**  The code of an expression is its chain: one operand is left as it is; otherwise every
operand that is a call or has a sign goes into a temporary, and more than one operator takes a temporary each.  It only
passes arguments and assigns temporaries that it was given.  Under any interpretation and from any variables, a run
through it comes to its end and to a right-hand side, whose value is that of the operators applied from the left to the
values of the operands; the calls are seen in order, and no other variable changes. -/
theorem Expr.lower_computes (t : RenameTable) (g : Generator) {e : Expr} (hp : AllPlain e.leaves) :
    Flattened t g e ∧
      (∀ i ∈ ((e.lower t).run g).record, i.Fills g.names.temp ((e.lower t).run g).state.names.temp) ∧
      ∀ {V : Type} (I : Interpretation V) (s : Moment V), ∃ v,
        leftFold? I.apply e.operators (meanings I t s.store e.operands s.trace).1 = some v ∧
        I.Yields g ((e.lower t).run g) s v (meanings I t s.store e.operands s.trace).2 :=
  ⟨e.lower_flattened t g, e.fills_lower t g, fun I s =>
    ⟨_, e.leftFold?_meanings I t s.store s.trace, e.lower_yields t g hp I s⟩⟩

/-- The difference `x - (f(y) + -3)`. -/
def nestedDifference : Expr :=
  .arith .minus (.fragment (.atom false (.name "x")) .origin)
    (.paren (.arith .plus (.call ⟨"f", [⟨.name "y", .origin⟩], .origin⟩ .origin)
      (.fragment (.atom true (.number "3")) .origin) .origin) .origin) .origin

/-- It is computed as `(x - f(y)) + -3`. -/
theorem Expr.lower_computes_nestedDifference :
    AllPlain nestedDifference.leaves ∧
      Flattened ⟨2, ["x"]⟩ .first nestedDifference ∧
      (Interpretation.exact fun _ _ args => args.headD .nothing).Yields .first
        ((nestedDifference.lower ⟨2, ["x"]⟩).run .first)
        ⟨0, fun x => .integer (if x = "x.2" then 10 else 4), [], []⟩ (.integer 3) [.call "f" [.integer 4]] := by
  have hp : AllPlain nestedDifference.leaves := by decide
  obtain ⟨hflat, -, hruns⟩ := Expr.lower_computes ⟨2, ["x"]⟩ .first hp
  obtain ⟨v, hv, hyields⟩ := hruns (.exact fun _ _ args => args.headD .nothing)
    ⟨0, fun x => .integer (if x = "x.2" then 10 else 4), [], []⟩
  have hthree : some (Value.integer 3) = some v := Eq.trans rfl hv
  cases hthree
  exact ⟨hp, hflat, hyields⟩

end ThreeAddress
