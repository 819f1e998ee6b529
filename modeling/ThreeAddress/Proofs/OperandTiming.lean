import ThreeAddress.Proofs.Behaviours

/-!
# When operands are read

The operands of an expression have their turns from left to right, and a call may change a global variable that was
an operand before it.  The code of an expression calls in turn, but it leaves an operand that is a plain variable as it
is until all operands have had their turns.  So does the code of a comparison with a left side that is a plain variable.

* `Operand.turn`, `turns` — operands have their turns;
* `Timing`, `Expr.outcome`, `Site.outcome` — what operands come to, when plain variables are read in turn or late;
* `Site.Steady`, `Site.outcome_of_steady` — where calls leave plain variables as they are, that is the same;
* `loads_crosses`, `folds_crosses`, `Expr.lower_computes_late` — the code of an expression reads late;
* `Site.lower`, `Site.lower_computes_late` — so does that of an expression or comparison.
-/

namespace ThreeAddress

open NameSupply (tempName flagName)

variable {V : Type} {globals : List String}

/-! ### Turns -/

section Turns

variable (B : Behaviour V globals) (t : RenameTable)

/-- The value of an operand in its turn, and the situation behind it. -/
def Operand.turn : Operand → Situation V → V × Situation V
  | .call c, σ => B.react σ c.name (c.arguments B.operations t σ.store)
  | .fragment f, σ => (f.meaning B.operations t σ.store, σ)

/-- The values of operands, one after another from left to right. -/
def turns : List Operand → Situation V → List V × Situation V
  | [], σ => ([], σ)
  | o :: more, σ =>
    let first := o.turn B t σ
    let rest := turns more first.2
    (first.1 :: rest.1, rest.2)

theorem turns_append (os ps : List Operand) (σ : Situation V) :
    turns B t (os ++ ps) σ =
      ((turns B t os σ).1 ++ (turns B t ps (turns B t os σ).2).1, (turns B t ps (turns B t os σ).2).2) := by
  induction os generalizing σ with
  | nil => rfl
  | cons o more ih => simp only [List.cons_append, turns, ih]

theorem length_turns (os : List Operand) (σ : Situation V) : (turns B t os σ).1.length = os.length := by
  induction os generalizing σ with
  | nil => rfl
  | cons o more ih => rw [turns, List.length_cons, ih, List.length_cons]

/-- Operands change global variables only. -/
theorem turns_store_other (os : List Operand) (σ : Situation V) {x : String} (hx : x ∉ globals) :
    (turns B t os σ).2.store x = σ.store x := by
  induction os generalizing σ with
  | nil => rfl
  | cons o more ih =>
    refine (ih _).trans ?_
    cases o with
    | call c => exact Behaviour.react_store_other σ c.name _ hx
    | fragment f => rfl

end Turns

/-! ### Outcomes -/

/-- When an operand that is a plain variable is read: in its turn, or late, once all operands have had their turns. -/
inductive Timing
  | inTurn
  | late

/-- What an operand that had some value in its turn stands for, when the variables have come to other values. -/
def Operand.contribution (τ : Timing) (t : RenameTable) (o : Operand) (v : V) (store : String → V) : V :=
  match τ, o with
  | .late, .fragment (.atom false (.name x)) => store (t.resolve x)
  | _, _ => v

/-- What operands that had some values in their turns stand for. -/
def contributions (τ : Timing) (t : RenameTable) (os : List Operand) (vs : List V) (store : String → V) : List V :=
  os.zipWith (fun o v => o.contribution τ t v store) vs

theorem map_contributions (τ : Timing) (t : RenameTable) (os : List Operand) (vs : List V) (store : String → V) :
    (os.zipWith (Operand.contribution τ t) vs).map (· store) = contributions τ t os vs store := List.map_zipWith

section Outcomes

variable (τ : Timing) (B : Behaviour V globals) (t : RenameTable)

/-- The value of an expression, and the situation behind it: its operators are applied from the left to what its
operands stand for. -/
def Expr.outcome (e : Expr) (σ : Situation V) : V × Situation V :=
  let r := turns B t e.operands σ
  ((leftFold? B.apply e.operators (contributions τ t e.operands r.1 r.2.store)).getD (B.constant .nothing), r.2)

/-- What an expression of some value stands for, when the variables have come to other values.  Only an expression
that is one operand can be a plain variable. -/
def Expr.contribution (e : Expr) (v : V) (store : String → V) : V :=
  match e.operands with
  | [o] => o.contribution τ t v store
  | _ => v

variable {t} in
theorem Expr.contribution_single {e : Expr} {o : Operand} (ho : e.operands = [o]) (v : V) :
    e.contribution τ t v = o.contribution τ t v := by
  funext store
  unfold Expr.contribution
  rw [ho]

variable {t} in
theorem Expr.contribution_of_operators {e : Expr} (h : e.operators ≠ []) (v : V) :
    e.contribution τ t v = fun _ => v := by
  funext store
  unfold Expr.contribution
  split
  · rename_i o ho
    have hlength := e.length_operators
    rw [ho] at hlength
    exact absurd (List.length_eq_zero_iff.1 (Nat.succ.inj hlength)) h
  · rfl

/-- Where operands are evaluated: the value of an expression, or a comparison of two. -/
inductive Site
  | value (e : Expr)
  | comparison (op : Operator) (left right : Expr)
deriving DecidableEq

/-- The names and numerals at a site. -/
def Site.leaves : Site → List Atom
  | .value e => e.leaves
  | .comparison _ left right => left.leaves ++ right.leaves

/-- What a site comes to.  In a comparison, the right side follows the left one. -/
def Site.outcome : Site → Situation V → V × Situation V
  | .value e, σ => e.outcome τ B t σ
  | .comparison op left right, σ =>
    let l := left.outcome τ B t σ
    let r := right.outcome τ B t l.2
    (B.apply op (left.contribution τ t l.1 r.2.store) r.1, r.2)

end Outcomes

/-! ### Steady variables -/

section Steady

variable (B : Behaviour V globals) (t : RenameTable)

/-- Behind each operand that is a plain global variable, that variable keeps its value. -/
def Steady (os : List Operand) (σ : Situation V) : Prop :=
  ∀ before x behind, os = before ++ .fragment (.atom false (.name x)) :: behind → t.resolve x ∈ globals →
    (turns B t os σ).2.store (t.resolve x) = (turns B t before σ).2.store (t.resolve x)

/-- At a site, calls leave the plain global variables in front of them as they are.  If the left side of a comparison
is such a variable, the calls of the right side leave it as it is, too. -/
def Site.Steady : Site → Situation V → Prop
  | .value e, σ => ThreeAddress.Steady B t e.operands σ
  | .comparison _ left right, σ =>
    ThreeAddress.Steady B t left.operands σ ∧
      ThreeAddress.Steady B t right.operands (turns B t left.operands σ).2 ∧
      ∀ x, left.operands = [.fragment (.atom false (.name x))] → t.resolve x ∈ globals →
        (turns B t right.operands (turns B t left.operands σ).2).2.store (t.resolve x) = σ.store (t.resolve x)

variable {B t}

/-- A plain variable that keeps its value stands for the value that it had in its turn. -/
theorem Operand.contribution_eq (τ : Timing) (o : Operand) (σ : Situation V) (store : String → V)
    (h : ∀ x, o = .fragment (.atom false (.name x)) → store (t.resolve x) = σ.store (t.resolve x)) :
    o.contribution τ t (o.turn B t σ).1 store = (o.turn B t σ).1 := by
  unfold contribution
  split
  · exact h _ rfl
  · rfl

/-- An operand stands for its value behind its own turn, too. -/
theorem Operand.contribution_turn (τ : Timing) (o : Operand) (σ : Situation V) :
    o.contribution τ t (o.turn B t σ).1 (o.turn B t σ).2.store = (o.turn B t σ).1 := by
  refine o.contribution_eq τ σ _ ?_
  rintro x rfl
  rfl

/-- Where variables keep their values, operands stand for the values that they had in their turns. -/
theorem contributions_of_steady (τ : Timing) {os : List Operand} {σ : Situation V} (h : Steady B t os σ) :
    contributions τ t os (turns B t os σ).1 (turns B t os σ).2.store = (turns B t os σ).1 := by
  -- the induction is on the operands to come; those before have had their turns
  suffices hmore : ∀ before more, os = before ++ more →
      contributions τ t more (turns B t more (turns B t before σ).2).1 (turns B t os σ).2.store =
        (turns B t more (turns B t before σ).2).1 from hmore [] os rfl
  intro before more
  induction more generalizing before with
  | nil => exact fun _ => rfl
  | cons o more ih =>
    intro hos
    have hnext : (o.turn B t (turns B t before σ).2).2 = (turns B t (before ++ [o]) σ).2 := by
      rw [turns_append]
      rfl
    have hrest := ih (before ++ [o]) (by rw [hos, List.append_assoc]; rfl)
    rw [turns, contributions, List.zipWith_cons_cons, ← contributions, hnext, hrest]
    refine congrArg (· :: _) (o.contribution_eq τ _ _ ?_)
    rintro x rfl
    by_cases hx : t.resolve x ∈ globals
    · exact h before x more hos hx
    · rw [turns_store_other B t os σ hx, turns_store_other B t before σ hx]

/-- The value of an expression of one operand is that of the operand in its turn. -/
theorem Expr.outcome_single (τ : Timing) {e : Expr} {o : Operand} (ho : e.operands = [o]) (σ : Situation V) :
    e.outcome τ B t σ = o.turn B t σ := by
  have hlength := e.length_operators
  rw [ho] at hlength
  have hops : e.operators = [] := List.length_eq_zero_iff.1 (by simpa using hlength)
  rw [outcome, ho, hops]
  exact congrArg (·, (o.turn B t σ).2) (o.contribution_turn τ σ)

/-- An expression stands for its value behind itself, too. -/
theorem Expr.contribution_outcome (τ : Timing) (e : Expr) (σ : Situation V) :
    e.contribution τ t (e.outcome τ B t σ).1 (e.outcome τ B t σ).2.store = (e.outcome τ B t σ).1 := by
  unfold contribution
  split
  · rename_i o ho
    rw [outcome_single τ ho, o.contribution_turn]
  · rfl

theorem Expr.outcome_of_steady {e : Expr} {σ : Situation V} (h : Steady B t e.operands σ) :
    e.outcome .late B t σ = e.outcome .inTurn B t σ := by
  simp only [outcome, contributions_of_steady _ h]

/-- **Steady variables.**  Where calls leave the plain global variables in front of them as they are, it is the same
whether plain variables are read late or in turn. -/
theorem Site.outcome_of_steady {x : Site} {σ : Situation V} (h : x.Steady B t σ) :
    x.outcome .late B t σ = x.outcome .inTurn B t σ := by
  cases x with
  | value e => exact Expr.outcome_of_steady h
  | comparison op left right =>
    obtain ⟨hl, hr, hside⟩ := h
    have hleft := Expr.outcome_of_steady hl
    have hright : right.outcome .late B t (left.outcome .inTurn B t σ).2 =
        right.outcome .inTurn B t (left.outcome .inTurn B t σ).2 := Expr.outcome_of_steady hr
    have hkept : left.contribution .late t (left.outcome .inTurn B t σ).1
        (right.outcome .inTurn B t (left.outcome .inTurn B t σ).2).2.store = (left.outcome .inTurn B t σ).1 := by
      unfold Expr.contribution
      split
      · rename_i o ho
        rw [Expr.outcome_single .inTurn ho]
        refine o.contribution_eq .late σ _ ?_
        rintro x rfl
        by_cases hx : t.resolve x ∈ globals
        · have hsame := hside x ho hx
          rw [ho] at hsame
          exact hsame
        · exact turns_store_other B t right.operands _ hx
      · rfl
    have hin : left.contribution .inTurn t (left.outcome .inTurn B t σ).1
        (right.outcome .inTurn B t (left.outcome .inTurn B t σ).2).2.store = (left.outcome .inTurn B t σ).1 := by
      unfold Expr.contribution
      split <;> rfl
    simp only [outcome, hleft, hright, hkept, hin]

end Steady

/-! ### The code of operands -/

section Code

variable {B : Behaviour V globals} {code : List Instruction} {t : RenameTable} {g : Generator} {s : Moment V}
  {σ : Situation V}

/-- Arguments are passed in order. -/
theorem params_steps {as : List Argument} (hp : AllPlain (as.map (·.atom))) (hs : s.Shares σ)
    (hat : (as.map fun a => Instruction.param (a.atom.lower t)) <+: code.drop s.pc) :
    B.steps code as.length s = some { s with
      pc := s.pc + as.length
      passed := s.passed ++ as.map fun a => a.atom.meaning B.operations t σ.store } := by
  induction as generalizing s with
  | nil => simp [Behaviour.steps]
  | cons a more ih =>
    obtain ⟨hfirst, hmore⟩ := List.forall_mem_cons.1 hp
    have ha := (shows_lower (I := B.operations) .first (hs.sees t) hfirst).read
    let s₁ : Moment V := { s.next with passed := s.passed ++ [a.atom.meaning B.operations t σ.store] }
    have hstep : B.step code s = some s₁ := by rw [Behaviour.step_param (piece_head hat), ha]
    have hsteps := Behaviour.steps_add (Behaviour.steps_one hstep)
      (ih (s := s₁) hmore ⟨hs.store, hs.trace⟩ (piece_append (a := [_]) hat).2)
    rw [List.length_cons, Nat.add_comm more.length, hsteps, List.map_cons, ← Nat.add_assoc]
    simp [s₁, Moment.next]

/-- Only a plain variable stands for something else than its value in its turn. -/
theorem Operand.contribution_of_not_isAtom {o : Operand} (ho : o.isAtom = false) (τ : Timing) (v : V) :
    o.contribution τ t v = fun _ => v := by
  unfold contribution
  split
  · cases ho
  · rfl

/-- An operand that is an atom as it stands is read as what it stands for. -/
theorem Operand.promises_atom {o : Operand} (ho : o.isAtom = true) (hp : AllPlain o.leaves) (k j : Nat) (s : Moment V) :
    s.Promises B k (o.atom t j) (o.contribution .late t (o.turn B t σ).1) := by
  intro s' σ' _ hs'
  cases o with
  | call => cases ho
  | fragment f =>
    have heval := congrArg Prod.fst (f.eval_lower (I := B.operations) hp (hs'.sees t))
    cases f with
    | atom negated a =>
      cases negated with
      | true => cases ho
      | false => cases a <;> exact heval
    | not => cases ho
    | zero =>
      show B.operations.read s' "0" = B.operations.constant (.integer 0)
      exact heval
    | bool b => exact heval

theorem Operand.atom_of_not_isAtom {o : Operand} (ho : o.isAtom = false) (k : Nat) : o.atom t k = tempName k := by
  cases o with
  | call => rfl
  | fragment f =>
    cases f with
    | atom negated a =>
      cases negated with
      | true => rfl
      | false => cases ho
    | not => rfl
    | zero | bool => cases ho

/-- Operators are applied from the left to what atoms are read as. -/
theorem folds_crosses {ops : List Operator} {left : String} {as : List String} {first : (String → V) → V}
    {more : List ((String → V) → V)} {v : V} {k : Nat} (hs : s.Shares σ) (hleft : s.Promises B k left first)
    (has : List.Forall₂ (s.Promises B k) as more)
    (hv : leftFold? B.apply ops ((first :: more).map (· σ.store)) = some v)
    (hat : folds k ops (left :: as) <+: code.drop s.pc) :
    ∃ s', B.Crosses code k (folds k ops (left :: as)).length s s' σ ∧
      B.operations.read s' (foldAtom k left ops) = v := by
  induction ops generalizing k s left as first more with
  | nil =>
    cases has with
    | nil =>
      refine ⟨s, .refl k hs, ?_⟩
      rw [foldAtom, hleft s σ (.refl k s) hs]
      exact Option.some.inj hv
    | cons => cases hv
  | cons op ops ih =>
    cases has with
    | nil => cases hv
    | @cons right second as more hright has =>
      have heval : B.eval s (.binary left op right) = (B.apply op (first σ.store) (second σ.store), s) := by
        rw [← hleft s σ (.refl k s) hs, ← hright s σ (.refl k s) hs]
        rfl
      obtain ⟨hfirst, hmore⟩ := piece_append (a := [_]) hat
      obtain ⟨s₁, hcross, hvalue⟩ := (Behaviour.Computes.here k hs heval).assignTemp (Nat.le_refl k) (piece_head hfirst)
      have hleft₁ : s₁.Promises B (k + 1) (tempName k) fun _ => B.apply op (first σ.store) (second σ.store) :=
        .temp (Nat.lt_succ_self k) hvalue
      have has₁ := has.imp fun _ _ h => h.mono hcross (Nat.le_succ k)
      rw [List.length_singleton, ← hcross.pc] at hmore
      obtain ⟨s₂, hcross', hread⟩ := ih hcross.shares hleft₁ has₁ hv hmore
      refine ⟨s₂, ?_, hread⟩
      rw [folds, List.length_cons, Nat.add_comm]
      exact hcross.append hcross' (Nat.le_succ k)

/-- There are as many values of operands as there are operands. -/
theorem Expr.leftFold?_contributions (e : Expr) (σ : Situation V) :
    leftFold? B.apply e.operators
        (contributions .late t e.operands (turns B t e.operands σ).1 (turns B t e.operands σ).2.store) =
      some (e.outcome .late B t σ).1 := by
  have hlength : e.operators.length + 1 =
      (contributions .late t e.operands (turns B t e.operands σ).1 (turns B t e.operands σ).2.store).length := by
    rw [contributions, List.length_zipWith, length_turns, Nat.min_self, e.length_operators]
  obtain ⟨v, hv⟩ := leftFold?_isSome B.apply hlength
  rw [outcome, hv, Option.getD_some]

variable (hg : ∀ x ∈ globals, isReservedName x = false)

include hg

/-- Behind the arguments of an operand, its right-hand side has the value of the operand in its turn. -/
theorem Operand.params_computes {o : Operand} (hp : AllPlain o.leaves) (hs : s.Shares σ) (k : Nat)
    (hat : o.params t <+: code.drop s.pc) :
    ∃ s', B.Computes code k (o.params t).length (o.rvalue t) s s' (o.turn B t σ) := by
  cases o with
  | fragment f =>
    exact ⟨s, .here k hs ((B.eval_fragment s f t).trans (f.eval_lower (I := B.operations) hp (hs.sees t)))⟩
  | call c =>
    let args := c.arguments B.operations t σ.store
    let s₁ : Moment V := { s with pc := s.pc + c.args.length, passed := s.passed ++ args }
    have hsteps : B.steps code c.args.length s = some s₁ := params_steps hp hs hat
    have hargs : args.length = c.args.length := List.length_map _
    have hcount : s₁.passed.length - c.args.length = s.passed.length := by
      rw [← hargs, List.length_append, Nat.add_sub_cancel]
    have hinvoke : B.invoke s₁ c.name c.args.length =
        ((B.react s.situation c.name args).1, { s₁ with
          store := (B.react s.situation c.name args).2.store
          passed := s.passed
          trace := (B.react s.situation c.name args).2.trace }) := by
      rw [Behaviour.invoke, hcount, List.drop_left, List.take_left]
      rfl
    obtain ⟨hanswer, hstore, htrace⟩ := B.react_shares hg hs c.name args
    have hlength : (params t (.call c)).length = c.args.length := List.length_map _
    rw [hlength]
    refine ⟨s₁, hsteps, rfl, ?_, ?_, ?_, ?_⟩ <;> rw [rvalue, Behaviour.eval, hinvoke]
    · exact hanswer
    · exact ⟨hstore, htrace⟩
    · refine fun j _ => Behaviour.react_store_other s.situation c.name args fun hmem => ?_
      have hreserved := hg _ hmem
      rw [isReservedName_tempName] at hreserved
      cases hreserved

/-- Behind its instructions, an operand is an atom that is read as what the operand stands for. -/
theorem Operand.load_crosses {o : Operand} (hp : AllPlain o.leaves) (hs : s.Shares σ) (k : Nat)
    (hat : o.load t k <+: code.drop s.pc) :
    ∃ s', B.Crosses code k (o.load t k).length s s' (o.turn B t σ).2 ∧
      s'.Promises B (k + o.cost) (o.atom t k) (o.contribution .late t (o.turn B t σ).1) := by
  cases ho : o.isAtom with
  | true =>
    have hload : o.load t k = [] ∧ (o.turn B t σ).2 = σ := by
      cases o with
      | call => cases ho
      | fragment f => exact ⟨by rw [load, params, if_pos ho, List.nil_append], rfl⟩
    rw [hload.1, hload.2]
    exact ⟨s, .refl k hs, promises_atom ho hp _ k s⟩
  | false =>
    have hload : o.load t k = o.params t ++ [.assign (tempName k) (o.rvalue t)] := by
      rw [load, if_neg (by simp [ho])]
    rw [hload] at hat ⊢
    obtain ⟨hparams, hassign⟩ := piece_append hat
    obtain ⟨s₁, hcomputes⟩ := o.params_computes hg hp hs k hparams
    obtain ⟨s₂, hcrosses, hvalue⟩ := hcomputes.assignTemp (Nat.le_refl k) (piece_head hassign)
    rw [atom_of_not_isAtom ho, cost, if_neg (by simp [ho]), List.length_append]
    refine ⟨s₂, hcrosses, ?_⟩
    rw [contribution_of_not_isAtom ho]
    exact .temp (Nat.lt_succ_self k) hvalue

/-- Behind their instructions, operands are atoms that are read as what the operands stand for. -/
theorem loads_crosses {os : List Operand} (hp : AllPlain (os.flatMap Operand.leaves)) (hs : s.Shares σ) (k : Nat)
    (hat : loads t k os <+: code.drop s.pc) :
    ∃ s', B.Crosses code k (loads t k os).length s s' (turns B t os σ).2 ∧
      List.Forall₂ (s'.Promises B (k + loadCost os)) (atoms t k os)
        (os.zipWith (Operand.contribution .late t) (turns B t os σ).1) := by
  induction os generalizing k s σ with
  | nil => exact ⟨s, .refl k hs, .nil⟩
  | cons o more ih =>
    rw [List.flatMap_cons] at hp
    obtain ⟨hfirst, hmore⟩ := piece_append hat
    obtain ⟨s₁, hcross, hpromise⟩ := o.load_crosses hg hp.left hs k hfirst
    rw [← hcross.pc] at hmore
    obtain ⟨s₂, hcross', hpromises⟩ := ih hp.right hcross.shares (k + o.cost) hmore
    rw [Nat.add_assoc, ← loadCost_cons] at hpromises
    refine ⟨s₂, ?_, .cons ?_ hpromises⟩
    · rw [loads, List.length_append]
      exact hcross.append hcross' (Nat.le_add_right k _)
    · refine hpromise.mono hcross' ?_
      rw [loadCost_cons, ← Nat.add_assoc]
      exact Nat.le_add_right _ _

/-- **Expressions.**  Where the code of an expression stands, a run comes to the value that the expression has when
plain variables are read late. -/
theorem Expr.lower_computes_late {e : Expr} (hp : AllPlain e.leaves) (hs : s.Shares σ)
    (hat : ((e.lower t).run g).record <+: code.drop s.pc) :
    ∃ s', B.Computes code g.names.temp ((e.lower t).run g).record.length ((e.lower t).run g).value s s'
      (e.outcome .late B t σ) := by
  have hflat := e.lower_flattened t g
  have hvalue := e.leftFold?_contributions (B := B) (t := t) (σ := σ)
  rw [e.leaves_operands] at hp
  rw [← map_contributions] at hvalue
  rcases hops : e.operators with _ | ⟨op, _ | ⟨op', ops⟩⟩
  · obtain ⟨o, ho⟩ := Expr.operands_of_operators_nil hops
    rw [hflat.single o ho] at hat ⊢
    rw [ho, List.flatMap_singleton] at hp
    rw [Expr.outcome_single .late ho]
    exact o.params_computes hg hp hs g.names.temp hat
  · obtain ⟨a, b, hatoms, hrun⟩ := hflat.pair op hops
    rw [hrun] at hat ⊢
    obtain ⟨s', hcross, hpromises⟩ := loads_crosses hg hp hs g.names.temp hat
    rw [hatoms] at hpromises
    obtain ⟨x, _, ha, hmore, hvalues⟩ := List.forall₂_cons_left_iff.1 hpromises
    obtain ⟨y, _, hb, hnil, rfl⟩ := List.forall₂_cons_left_iff.1 hmore
    cases hnil
    rw [hops, hvalues] at hvalue
    have hreads := congrArg₂ (B.apply op) (ha s' _ (.refl _ s') hcross.shares) (hb s' _ (.refl _ s') hcross.shares)
    have heval : B.eval s' (.binary a op b) = ((e.outcome .late B t σ).1, s') := by
      rw [← Option.some.inj hvalue]
      exact congrArg (·, s') hreads
    exact ⟨s', hcross.computes (.here g.names.temp hcross.shares heval) (Nat.le_refl _)⟩
  · have hrun := hflat.longer (by rw [hops]; exact Nat.le_add_left 2 _)
    rw [hrun] at hat ⊢
    obtain ⟨hloads, hfolds⟩ := piece_append hat
    obtain ⟨s₁, hcross, hpromises⟩ := loads_crosses hg hp hs g.names.temp hloads
    rw [← hcross.pc] at hfolds
    obtain ⟨a, as, hatoms⟩ : ∃ a as, atoms t g.names.temp e.operands = a :: as := by
      rw [e.operands_eq]
      exact ⟨_, _, rfl⟩
    rw [hatoms] at hpromises hfolds ⊢
    obtain ⟨x, xs, ha, has, hvalues⟩ := List.forall₂_cons_left_iff.1 hpromises
    rw [hvalues] at hvalue
    obtain ⟨s₂, hcross', hread⟩ := folds_crosses hcross.shares ha has hvalue hfolds
    rw [hops, foldAtom_cons] at hread
    have heval : B.eval s₂ (.atom (tempName (g.names.temp + loadCost e.operands + e.operators.length - 1))) =
        ((e.outcome .late B t σ).1, s₂) := by
      rw [hops, ← hread]
      rfl
    have hboth := hcross.append hcross' (Nat.le_add_right _ _)
    refine ⟨s₂, ?_⟩
    rw [List.length_append]
    exact hboth.computes (.here g.names.temp hboth.shares heval) (Nat.le_refl _)

/-- **Sides of comparisons.**  Behind its instructions, an expression is an atom that is read as what it stands for. -/
theorem Expr.lowerAtom_crosses {e : Expr} (hp : AllPlain e.leaves) (hs : s.Shares σ)
    (hat : ((e.lowerAtom t).run g).record <+: code.drop s.pc) :
    ∃ s', B.Crosses code g.names.temp ((e.lowerAtom t).run g).record.length s s' (e.outcome .late B t σ).2 ∧
      s'.Promises B ((e.lowerAtom t).run g).state.names.temp ((e.lowerAtom t).run g).value
        (e.contribution .late t (e.outcome .late B t σ).1) ∧
      g.names.temp ≤ ((e.lowerAtom t).run g).state.names.temp := by
  have hflat := e.lower_flattened t g
  rcases hops : e.operators with _ | ⟨op, _ | ⟨op', ops⟩⟩
  · obtain ⟨o, ho⟩ := Expr.operands_of_operators_nil hops
    have hrun : (e.lowerAtom t).run g = ⟨o.atom t g.names.temp, g.skip o.cost, o.load t g.names.temp⟩ := by
      rw [← o.run_lowerAtom, lowerAtom, Operand.lowerAtom, Pass.run_bind, Pass.run_bind, hflat.single o ho, o.run_lower]
    have hleaves := e.leaves_operands
    rw [ho, List.flatMap_singleton] at hleaves
    rw [hleaves] at hp
    rw [hrun] at hat ⊢
    rw [Expr.outcome_single .late ho, contribution_single .late ho]
    obtain ⟨s', hcross, hpromise⟩ := o.load_crosses hg hp hs g.names.temp hat
    exact ⟨s', hcross, hpromise, Nat.le_add_right _ _⟩
  · obtain ⟨a, b, -, hlower⟩ := hflat.pair op hops
    let k := g.names.temp + loadCost e.operands
    have hrun : (e.lowerAtom t).run g = ⟨tempName k, (g.skip (loadCost e.operands)).skip 1,
        ((e.lower t).run g).record ++ [.assign (tempName k) ((e.lower t).run g).value]⟩ := by
      rw [lowerAtom, Pass.run_bind, hlower]
      rfl
    rw [hrun] at hat ⊢
    obtain ⟨hcode, hassign⟩ := piece_append hat
    obtain ⟨s₁, hcomputes⟩ := e.lower_computes_late hg hp hs hcode
    obtain ⟨s₂, hcross, hvalue⟩ := hcomputes.assignTemp (Nat.le_add_right _ _) (piece_head hassign)
    rw [contribution_of_operators .late (by rw [hops]; exact List.cons_ne_nil _ _), List.length_append]
    exact ⟨s₂, hcross, .temp (Nat.lt_succ_self k) hvalue, by simp only [Generator.skip_temp]; omega⟩
  · let k := g.names.temp + loadCost e.operands + e.operators.length
    have hlower := hflat.longer (by rw [hops]; exact Nat.le_add_left 2 _)
    have hrun : (e.lowerAtom t).run g = ⟨tempName (k - 1), g.skip (loadCost e.operands + e.operators.length),
        ((e.lower t).run g).record⟩ := by
      rw [lowerAtom, Pass.run_bind, hlower]
      exact congrArg (Passed.mk _ _) (List.append_nil _)
    rw [hrun] at hat ⊢
    obtain ⟨s₁, hcomputes⟩ := e.lower_computes_late (B := B) hg hp hs hat
    have hatom : ((e.lower t).run g).value = .atom (tempName (k - 1)) := congrArg Passed.value hlower
    rw [hatom] at hcomputes
    have hlast : k - 1 < g.names.temp + (loadCost e.operands + e.operators.length) := by
      simp only [k, hops, List.length_cons]
      omega
    have hvalue : s₁.store (tempName (k - 1)) = (e.outcome .late B t σ).1 := by
      rw [← hcomputes.gives]
      exact (Interpretation.read_name s₁ (literal?_of_isReservedName (isReservedName_tempName _))).symm
    rw [contribution_of_operators .late (by rw [hops]; exact List.cons_ne_nil _ _)]
    exact ⟨s₁, hcomputes.crosses, .temp hlast hvalue, Nat.le_add_right _ _⟩

end Code

/-! ### Sites -/

/-- The code of a site, up to the instruction that takes what it comes to.  A comparison has a flag, which is set to
`false` before the comparison is made. -/
def Site.lower (t : RenameTable) : Site → Emit Rvalue
  | .value e => e.lower t
  | .comparison op left right => do
    let l ← left.lowerAtom t
    let r ← right.lowerAtom t
    let flag ← Emit.take NameSupply.takeFlag
    let _ ← Emit.take NameSupply.takeLabel
    Emit.assign flag (.atom "false")
    return .binary l op r

/-- **Sites.**  Where the code of a site stands, a run comes to what the site comes to when plain variables are read
late. -/
theorem Site.lower_computes_late {B : Behaviour V globals} (hg : ∀ x ∈ globals, isReservedName x = false)
    {code : List Instruction} {t : RenameTable} {g : Generator} {s : Moment V} {σ : Situation V} {x : Site}
    (hp : AllPlain x.leaves) (hs : s.Shares σ) (hat : ((x.lower t).run g).record <+: code.drop s.pc) :
    ∃ s', B.Computes code g.names.temp ((x.lower t).run g).record.length ((x.lower t).run g).value s s'
      (x.outcome .late B t σ) := by
  cases x with
  | value e => exact e.lower_computes_late hg hp hs hat
  | comparison op left right =>
    let l := (left.lowerAtom t).run g
    let r := (right.lowerAtom t).run l.state
    let flag := flagName r.state.names.flag
    have hrecord : (((Site.comparison op left right).lower t).run g).record =
        l.record ++ (r.record ++ [.assign flag (.atom "false")]) := rfl
    rw [hrecord] at hat
    obtain ⟨hleft, hmore⟩ := piece_append hat
    obtain ⟨s₁, hcross, hpromise, hle⟩ := left.lowerAtom_crosses (B := B) hg hp.left hs hleft
    rw [← hcross.pc] at hmore
    obtain ⟨hright, hflag⟩ := piece_append hmore
    obtain ⟨s₂, hcross', hpromise', hle'⟩ := right.lowerAtom_crosses (B := B) hg hp.right hcross.shares hright
    rw [← hcross'.pc] at hflag
    -- the flag is set between the sides and the comparison, and neither side reads it
    obtain ⟨s₃, hcross'', -⟩ := (Behaviour.Computes.here r.state.names.temp hcross'.shares rfl).assign
      (isReservedName_flagName _) (fun j _ => NameSupply.tempName_ne_flagName j _) (piece_head hflag)
    have hl := (hpromise.mono hcross' hle').mono hcross'' (Nat.le_refl _) s₃ _ (.refl _ s₃) hcross''.shares
    have hr := hpromise'.mono hcross'' (Nat.le_refl _) s₃ _ (.refl _ s₃) hcross''.shares
    rw [right.contribution_outcome] at hr
    have hcrosses := (hcross.append hcross' hle).append hcross'' (Nat.le_trans hle hle')
    have heval : B.eval s₃ (.binary l.value op r.value) = (((Site.comparison op left right).outcome .late B t σ).1, s₃) :=
      congrArg (·, s₃) (congrArg₂ (B.apply op) hl hr)
    refine ⟨s₃, ?_⟩
    rw [hrecord, List.length_append, List.length_append, List.length_singleton, ← Nat.add_assoc]
    exact hcrosses.computes (.here g.names.temp hcrosses.shares heval) (Nat.le_refl _)

end ThreeAddress
