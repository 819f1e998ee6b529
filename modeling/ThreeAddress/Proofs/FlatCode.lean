import ThreeAddress.Proofs.Supplies

/-!
# The code of an expression

An expression is the chain of its operands and operators, parentheses aside.  Its code is told instruction by
instruction: how each operand becomes an atom, and how the operators are applied to the atoms.

* `Chain.links`, `Chain.members` — what a chain consists of, in order;
* `Expr.operands`, `Expr.operators` — what an expression consists of, in order;
* `Operand.load`, `loads`, `atoms` — operands become atoms;
* `folds` — operators are applied from the left;
* `Flattened`, `Expr.lower_flattened` — the code of an expression, and what it comes to;
* `Expr.fills_lower` — it only passes arguments and assigns temporaries that it was given.
-/

namespace ThreeAddress

open NameSupply (tempName)

/-! ### Operands and operators -/

namespace Chain

variable {ω α : Type}

/-- What links the members of a chain, in order. -/
def links (c : Chain ω α) : List ω := c.tail.map (·.1)

/-- The members of a chain in order. -/
def members (c : Chain ω α) : List α := c.head :: c.tail.map (·.2)

theorem links_link (c d : Chain ω α) (op : ω) : (c.link op d).links = c.links ++ op :: d.links := by
  simp [links, link]

theorem members_link (c d : Chain ω α) (op : ω) : (c.link op d).members = c.members ++ d.members := by
  simp [members, link]

end Chain

/-- The leaves of an operand. -/
def Operand.leaves : Operand → List Atom
  | .call c => c.leaves
  | .fragment f => f.leaves

/-- The leaves of the members of a chain. -/
def chainLeaves (c : Chain Operator Operand) : List Atom :=
  c.head.leaves ++ c.tail.flatMap fun x => x.2.leaves

theorem Expr.leaves_eq (e : Expr) : e.leaves = chainLeaves e.chain := by
  induction e with
  | arith op l r s ihl ihr | logic op l r s ihl ihr =>
    rw [Expr.leaves, ihl, ihr]
    simp [Expr.chain, chainLeaves, Chain.link]
  | paren e s ih => exact ih
  | call c s => exact (List.append_nil _).symm
  | fragment f s => exact (List.append_nil _).symm

namespace Expr

/-- The operands of an expression in order.  Parentheses are not seen. -/
def operands : Expr → List Operand
  | .arith _ left right _ | .logic _ left right _ => left.operands ++ right.operands
  | .paren inner _ => inner.operands
  | .call c _ => [.call c]
  | .fragment f _ => [.fragment f]

/-- The operators of an expression in order. -/
def operators : Expr → List Operator
  | .arith op left right _ => left.operators ++ .arith op :: right.operators
  | .logic op left right _ => left.operators ++ .logic op :: right.operators
  | .paren inner _ => inner.operators
  | .call _ _ | .fragment _ _ => []

theorem operands_eq (e : Expr) : e.operands = e.chain.members := by
  induction e with
  | arith op l r s ihl ihr | logic op l r s ihl ihr => rw [operands, chain, Chain.members_link, ihl, ihr]
  | paren e s ih => exact ih
  | call | fragment => rfl

theorem operators_eq (e : Expr) : e.operators = e.chain.links := by
  induction e with
  | arith op l r s ihl ihr | logic op l r s ihl ihr => rw [operators, chain, Chain.links_link, ihl, ihr]
  | paren e s ih => exact ih
  | call | fragment => rfl

/-- There is one operand more than there are operators. -/
theorem length_operators (e : Expr) : e.operators.length + 1 = e.operands.length := by
  rw [operands_eq, operators_eq, Chain.members, Chain.links, List.length_cons, List.length_map, List.length_map]

theorem operands_of_operators_nil {e : Expr} (h : e.operators = []) : ∃ o, e.operands = [o] :=
  List.length_eq_one_iff.1 (by rw [← e.length_operators, h]; rfl)

theorem leaves_operands (e : Expr) : e.leaves = e.operands.flatMap Operand.leaves := by
  rw [leaves_eq, chainLeaves, operands_eq, Chain.members, List.flatMap_cons, List.flatMap_map]

end Expr

/-! ### Instructions -/

/-- A generator that has given some more temporaries. -/
def Generator.skip (g : Generator) (count : Nat) : Generator :=
  { g with names := { g.names with temp := g.names.temp + count } }

theorem Generator.skip_skip (g : Generator) (j k : Nat) : (g.skip j).skip k = g.skip (j + k) := by
  rw [skip, skip, skip, Nat.add_assoc]

@[simp] theorem Generator.skip_temp (g : Generator) (k : Nat) : (g.skip k).names.temp = g.names.temp + k := rfl

namespace Operand

/-- Whether an operand is an atom as it stands: no call, and without a sign. -/
def isAtom : Operand → Bool
  | .call _ | .fragment (.atom true _) | .fragment (.not _) => false
  | .fragment (.atom false _) | .fragment .zero | .fragment (.bool _) => true

variable (t : RenameTable)

/-- The instructions that pass the arguments of an operand. -/
def params : Operand → List Instruction
  | .call c => c.args.map fun a => .param (a.atom.lower t)
  | .fragment _ => []

/-- An operand as a right-hand side. -/
def rvalue : Operand → Rvalue
  | .call c => .call c.name c.args.length
  | .fragment f => f.lower t

/-- The number of temporaries that hold an operand. -/
def cost (o : Operand) : Nat := if o.isAtom then 0 else 1

/-- An operand as an atom: itself, or the temporary of some number. -/
def atom (k : Nat) (o : Operand) : String := (o.rvalue t).atom?.getD (tempName k)

/-- The instructions behind which an operand is an atom. -/
def load (k : Nat) (o : Operand) : List Instruction :=
  o.params t ++ if o.isAtom then [] else [.assign (tempName k) (o.rvalue t)]

end Operand

/-- The instructions behind which operands are atoms; temporaries are numbered from some number on. -/
def loads (t : RenameTable) : Nat → List Operand → List Instruction
  | _, [] => []
  | k, o :: more => o.load t k ++ loads t (k + o.cost) more

/-- Operands as atoms. -/
def atoms (t : RenameTable) : Nat → List Operand → List String
  | _, [] => []
  | k, o :: more => o.atom t k :: atoms t (k + o.cost) more

/-- The number of temporaries that hold operands: one for each that is no atom as it stands. -/
def loadCost (os : List Operand) : Nat := os.countP (!·.isAtom)

/-- The instructions that apply operators to atoms from the left, each into the next temporary. -/
def folds : Nat → List Operator → List String → List Instruction
  | k, op :: ops, a :: b :: more => .assign (tempName k) (.binary a op b) :: folds (k + 1) ops (tempName k :: more)
  | _, _, _ => []

/-- The atom that operators leave: the last temporary, if there is one. -/
def foldAtom : Nat → String → List Operator → String
  | _, left, [] => left
  | k, _, _ :: ops => foldAtom (k + 1) (tempName k) ops

theorem foldAtom_cons (k : Nat) (left : String) (op : Operator) (ops : List Operator) :
    foldAtom k left (op :: ops) = tempName (k + ops.length) := by
  induction ops generalizing k left op with
  | nil => rfl
  | cons op' ops ih => rw [foldAtom, ih, List.length_cons, Nat.add_right_comm, Nat.add_assoc]

theorem loadCost_cons (o : Operand) (more : List Operand) : loadCost (o :: more) = o.cost + loadCost more := by
  rw [loadCost, List.countP_cons, Operand.cost, Nat.add_comm]
  cases o.isAtom <;> rfl

theorem length_atoms (t : RenameTable) (k : Nat) (os : List Operand) : (atoms t k os).length = os.length := by
  induction os generalizing k with
  | nil => rfl
  | cons o more ih => rw [atoms, List.length_cons, ih, List.length_cons]

theorem length_folds (k : Nat) {ops : List Operator} {as : List String} (h : ops.length + 1 = as.length) :
    (folds k ops as).length = ops.length := by
  induction ops generalizing k as with
  | nil => rfl
  | cons op ops ih =>
    match as, h with
    | a :: b :: more, h => rw [folds, List.length_cons, ih _ (by simpa using h), List.length_cons]

/-- Arguments are passed, and temporaries between two numbers are assigned. -/
def Instruction.Fills (first last : Nat) (i : Instruction) : Prop :=
  (∃ a, i = .param a) ∨ ∃ k r, first ≤ k ∧ k < last ∧ i = .assign (tempName k) r

theorem Instruction.Fills.mono {first first' last last' : Nat} {i : Instruction} (h : i.Fills first last)
    (hfirst : first' ≤ first) (hlast : last ≤ last') : i.Fills first' last' := by
  rcases h with h | ⟨k, r, hk, hk', rfl⟩
  · exact .inl h
  · exact .inr ⟨k, r, Nat.le_trans hfirst hk, Nat.lt_of_lt_of_le hk' hlast, rfl⟩

theorem Operand.fills_params (t : RenameTable) (o : Operand) (first last : Nat) :
    ∀ i ∈ o.params t, i.Fills first last := by
  cases o with
  | fragment => simp [params]
  | call c =>
    intro i hi
    obtain ⟨a, -, rfl⟩ := List.mem_map.1 hi
    exact .inl ⟨_, rfl⟩

theorem fills_loads (t : RenameTable) (k : Nat) (os : List Operand) :
    ∀ i ∈ loads t k os, i.Fills k (k + loadCost os) := by
  induction os generalizing k with
  | nil => simp [loads]
  | cons o more ih =>
    intro i hi
    rw [loadCost_cons]
    rcases List.mem_append.1 hi with hi | hi
    · rcases List.mem_append.1 hi with hi | hi
      · exact o.fills_params t _ _ i hi
      · rw [Operand.cost]
        split at hi
        · cases hi
        · rename_i ho
          rw [if_neg ho, List.mem_singleton.1 hi]
          exact .inr ⟨k, _, Nat.le_refl _, by omega, rfl⟩
    · exact (ih _ i hi).mono (Nat.le_add_right _ _) (by omega)

theorem fills_folds (k : Nat) (ops : List Operator) (as : List String) :
    ∀ i ∈ folds k ops as, i.Fills k (k + ops.length) := by
  induction ops generalizing k as with
  | nil => simp [folds]
  | cons op ops ih =>
    match as with
    | [] | [_] => simp [folds]
    | a :: b :: more =>
      intro i hi
      rw [List.length_cons]
      rcases List.mem_cons.1 hi with rfl | hi
      · exact .inr ⟨k, _, Nat.le_refl _, by omega, rfl⟩
      · exact (ih _ _ i hi).mono (Nat.le_succ _) (by omega)

/-! ### What lowering comes to -/

/-- A member of a chain behind its head: the operator, and the operand as an atom. -/
def lowerMember (t : RenameTable) (x : Operator × Operand) : Emit (Operator × String) := do
  return (x.1, ← x.2.lowerAtom t)

/-- The right-hand side of a chain of atoms with at least one operator. -/
def lowerLinks (head : String) (tail : List (Operator × String)) : Emit Rvalue := do
  match tail with
  | [(op, right)] => return .binary head op right
  | _ => return .atom (← foldAtoms head tail)

section Run

variable (t : RenameTable) (g : Generator)

/-- The arguments of a call are passed one by one. -/
theorem run_params (as : List Argument) :
    (as.forM fun a => (Pass.tell (.param (a.atom.lower t)) : Emit Unit)).run g =
      ⟨(), g, as.map fun a => .param (a.atom.lower t)⟩ := by
  induction as with
  | nil => rfl
  | cons a more ih =>
    rw [List.forM_eq_forM, List.forM_cons, Pass.run_bind, Pass.run_tell, ← List.forM_eq_forM, ih]
    rfl

theorem Operand.run_lower (o : Operand) : (o.lower t).run g = ⟨o.rvalue t, g, o.params t⟩ := by
  cases o with
  | fragment f => rfl
  | call c =>
    rw [lower, Call.lower, Pass.run_bind, run_params]
    exact congrArg (Passed.mk _ _) (List.append_nil _)

theorem Operand.run_lowerAtom (o : Operand) :
    (o.lowerAtom t).run g = ⟨o.atom t g.names.temp, g.skip o.cost, o.load t g.names.temp⟩ := by
  rw [lowerAtom, Pass.run_bind, o.run_lower]
  cases o with
  | call c => rfl
  | fragment f =>
    cases f with
    | atom negated a => cases negated <;> rfl
    | not | zero | bool => rfl

/-- Behind their operators, operands become atoms one by one. -/
theorem run_members (xs : List (Operator × Operand)) :
    (xs.mapM (lowerMember t)).run g = ⟨(xs.map (·.1)).zip (atoms t g.names.temp (xs.map (·.2))),
      g.skip (loadCost (xs.map (·.2))), loads t g.names.temp (xs.map (·.2))⟩ := by
  induction xs generalizing g with
  | nil => rfl
  | cons x more ih =>
    have hfirst : (lowerMember t x).run g =
        ⟨(x.1, x.2.atom t g.names.temp), g.skip x.2.cost, x.2.load t g.names.temp⟩ := by
      rw [lowerMember, Pass.run_bind, x.2.run_lowerAtom]
      simp
    rw [List.mapM_cons, Pass.run_bind, hfirst]
    simp [ih, atoms, loads, loadCost_cons, Generator.skip_skip]

/-- Operators are applied one by one. -/
theorem run_foldAtoms (left : String) {ops : List Operator} {as : List String} (h : ops.length = as.length) :
    (foldAtoms left (ops.zip as)).run g =
      ⟨foldAtom g.names.temp left ops, g.skip ops.length, folds g.names.temp ops (left :: as)⟩ := by
  induction ops generalizing g left as with
  | nil => rfl
  | cons op ops ih =>
    match as, h with
    | a :: more, h =>
      have hlength : ops.length = more.length := by simpa using h
      have hmore := ih (g.skip 1) (tempName g.names.temp) hlength
      have hstep : (Emit.atomOf (.binary left op a)).run g =
          ⟨tempName g.names.temp, g.skip 1, [.assign (tempName g.names.temp) (.binary left op a)]⟩ := rfl
      rw [List.zip_cons_cons, foldAtoms, Pass.run_bind, hstep, hmore, Generator.skip_skip, List.length_cons,
        Nat.add_comm 1]
      rfl

end Run

/-- With an operator at least, all operands are loaded, and then the operators are applied. -/
theorem Expr.run_lower_of_ne (t : RenameTable) (g : Generator) {e : Expr} (h : e.operators ≠ []) : ∃ head tail,
    atoms t g.names.temp e.operands = head :: tail ∧ e.operators.length = tail.length ∧
    (e.lower t).run g =
      let r := (lowerLinks head (e.operators.zip tail)).run (g.skip (loadCost e.operands))
      ⟨r.value, r.state, loads t g.names.temp e.operands ++ r.record⟩ := by
  rw [e.operators_eq] at h ⊢
  rw [e.operands_eq]
  refine ⟨_, _, rfl, ?_, ?_⟩
  · simp [length_atoms, Chain.links]
  · unfold Expr.lower
    split
    · rename_i only hchain
      rw [hchain] at h
      exact (h rfl).elim
    · rename_i first more hne hchain
      have hmembers := run_members t (g.skip first.cost) more
      rw [hchain]
      show (first.lowerAtom t >>= fun head => more.mapM (lowerMember t) >>= lowerLinks head).run g = _
      rw [Pass.run_bind, Pass.run_bind, first.run_lowerAtom]
      dsimp only
      rw [hmembers, Generator.skip_skip]
      simp only [Chain.members, Chain.links, loads, loadCost_cons, Generator.skip_temp, List.append_assoc]

/-- The code of an expression, and what it comes to.  One operand is left as it is.  Of more, those that are no atoms
go into temporaries first; two atoms are then left behind their operator, and the operators of more are applied one by
one. -/
structure Flattened (t : RenameTable) (g : Generator) (e : Expr) : Prop where
  operators : e.operators.length + 1 = e.operands.length
  folded : ∀ k j, (folds k e.operators (atoms t j e.operands)).length = e.operators.length
  single : ∀ o, e.operands = [o] → (e.lower t).run g = ⟨o.rvalue t, g, o.params t⟩
  pair : ∀ op, e.operators = [op] → ∃ a b, atoms t g.names.temp e.operands = [a, b] ∧
    (e.lower t).run g = ⟨.binary a op b, g.skip (loadCost e.operands), loads t g.names.temp e.operands⟩
  longer : 2 ≤ e.operators.length → (e.lower t).run g =
    ⟨.atom (tempName (g.names.temp + loadCost e.operands + e.operators.length - 1)),
      g.skip (loadCost e.operands + e.operators.length),
      loads t g.names.temp e.operands ++
        folds (g.names.temp + loadCost e.operands) e.operators (atoms t g.names.temp e.operands)⟩

theorem Expr.lower_flattened (t : RenameTable) (g : Generator) (e : Expr) : Flattened t g e := by
  have hoperands := e.operands_eq
  have hoperators := e.operators_eq
  have hfolded (k j : Nat) : (folds k e.operators (atoms t j e.operands)).length = e.operators.length :=
    length_folds k (e.length_operators.trans (length_atoms t j _).symm)
  refine ⟨e.length_operators, hfolded, fun o ho => ?_, fun op hop => ?_, fun hlong => ?_⟩
  · rw [hoperands, Chain.members, List.cons.injEq, List.map_eq_nil_iff] at ho
    have hchain : e.chain = ⟨o, []⟩ := by rw [← ho.1, ← ho.2]
    rw [Expr.lower, hchain]
    exact o.run_lower t g
  · obtain ⟨head, tail, hatoms, hlen, hrun⟩ := e.run_lower_of_ne t g (by rw [hop]; exact List.cons_ne_nil _ _)
    rw [hop, List.length_singleton] at hlen
    obtain ⟨b, rfl⟩ := List.length_eq_one_iff.1 hlen.symm
    refine ⟨head, b, hatoms, hrun.trans ?_⟩
    rw [hop]
    exact congrArg (Passed.mk _ _) (List.append_nil _)
  · obtain ⟨head, tail, hatoms, hlen, hrun⟩ := e.run_lower_of_ne t g (List.ne_nil_of_length_pos (by omega))
    have hne : e.operators ≠ [] := List.ne_nil_of_length_pos (by omega)
    have hlinks : lowerLinks head (e.operators.zip tail) =
        (do return .atom (← foldAtoms head (e.operators.zip tail))) := by
      match e.operators, tail, hlen, hlong with
      | p :: q :: ops, a :: b :: more, _, _ => rfl
    obtain ⟨op, ops, hops⟩ := List.exists_cons_of_ne_nil hne
    rw [hrun, hatoms, hlinks]
    dsimp only
    rw [Pass.run_bind, run_foldAtoms _ _ hlen, Generator.skip_skip, hops, foldAtom_cons]
    exact congrArg (Passed.mk _ _) (congrArg _ (List.append_nil _))

/-- The code of an expression passes arguments and assigns temporaries that it was given. -/
theorem Expr.fills_lower (t : RenameTable) (g : Generator) (e : Expr) :
    ∀ i ∈ ((e.lower t).run g).record, i.Fills g.names.temp ((e.lower t).run g).state.names.temp := by
  have hflat := e.lower_flattened t g
  intro i hi
  match hops : e.operators with
  | [] =>
    obtain ⟨o, ho⟩ := Expr.operands_of_operators_nil hops
    rw [hflat.single o ho] at hi
    exact o.fills_params t _ _ i hi
  | [op] =>
    obtain ⟨a, b, -, hrun⟩ := hflat.pair op hops
    rw [hrun] at hi ⊢
    exact fills_loads t _ _ i hi
  | op :: op' :: ops =>
    rw [hflat.longer (by rw [hops]; exact Nat.le_add_left 2 _)] at hi ⊢
    rw [Generator.skip_temp, ← Nat.add_assoc]
    rcases List.mem_append.1 hi with hi | hi
    · exact (fills_loads t _ _ i hi).mono (Nat.le_refl _) (Nat.le_add_right _ _)
    · exact (fills_folds _ _ _ i hi).mono (Nat.le_add_right _ _) (Nat.le_refl _)

theorem Atom.Plain.unreserved {a : Atom} (h : a.Plain) (t : RenameTable) : isReservedName (a.lower t) = false := by
  cases a with
  | name x => exact t.resolve_unreserved h.2
  | number digits => exact isReservedName_of_isNumeral h

theorem Operand.unreserved_rvalue {t : RenameTable} {o : Operand} (hp : AllPlain o.leaves) {a : String}
    (h : o.rvalue t = .atom a) : isReservedName a = false := by
  cases o with
  | call => cases h
  | fragment f =>
    cases f with
    | atom negated x =>
      cases negated with
      | true => cases h
      | false =>
        cases h
        exact (hp x List.mem_cons_self).unreserved t
    | not => cases h
    | zero =>
      cases h
      decide
    | bool b =>
      cases h
      cases b <;> decide

/-- An atom that an expression comes to is not given again. -/
theorem Expr.old_lower {t : RenameTable} {g : Generator} {e : Expr} (hp : AllPlain e.leaves) {a : String}
    (h : ((e.lower t).run g).value = .atom a) : ((e.lower t).run g).state.names.Old a := by
  have hflat := e.lower_flattened t g
  rw [e.leaves_operands] at hp
  match hops : e.operators with
  | [] =>
    obtain ⟨o, ho⟩ := Expr.operands_of_operators_nil hops
    rw [hflat.single o ho] at h ⊢
    rw [ho, List.flatMap_singleton] at hp
    exact NameSupply.old_of_unreserved _ (Operand.unreserved_rvalue hp h)
  | [op] =>
    obtain ⟨x, y, -, hrun⟩ := hflat.pair op hops
    rw [hrun] at h
    cases h
  | op :: op' :: ops =>
    have hlong : 2 ≤ e.operators.length := by rw [hops]; exact Nat.le_add_left 2 _
    rw [hflat.longer hlong] at h ⊢
    cases h
    refine NameSupply.old_temp ?_
    rw [Generator.skip_temp]
    omega

end ThreeAddress
