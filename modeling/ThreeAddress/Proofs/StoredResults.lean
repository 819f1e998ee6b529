import ThreeAddress.Proofs.ControlIntegrity

/-!
# Stored results

Code stores the result of each call that stands in an expression, and no other.  A routine of an accepted
source returns a value, unless its type is void and its return is bare; a result without a value is stored if
an expression calls such a routine.

* `Instruction.stores`, `storedCalls` — the calls whose results code stores;
* `Expr.calls`, `Body.valueCalls`, `Program.valueCalls` — the calls in expressions;
* `Emit.Stores` — a pass stores the results of some calls, in order;
* `Program.stored_code` — the code of a program stores the results of the calls in its expressions;
* `returnBehind?`, `CarriesResults` — the return that ends a routine, and whether stored results have values;
* `compile_storesResults` — what an accepted source stores, and when each stored result has a value.
-/

namespace ThreeAddress

/-! ### Calls with results -/

/-- The call that a right-hand side makes: the routine and the number of its arguments. -/
def Rvalue.calls : Rvalue → List (String × Nat)
  | .call name count => [(name, count)]
  | .atom _ | .binary _ _ _ | .not _ => []

/-- The call whose result an instruction stores. -/
def Instruction.stores : Instruction → List (String × Nat)
  | .assign _ value => value.calls
  | _ => []

/-- The calls whose results code stores, in order. -/
def storedCalls (code : List Instruction) : List (String × Nat) := code.flatMap Instruction.stores

@[simp] theorem storedCalls_nil : storedCalls [] = [] := rfl

@[simp] theorem storedCalls_cons (i : Instruction) (more : List Instruction) :
    storedCalls (i :: more) = i.stores ++ storedCalls more := rfl

@[simp] theorem storedCalls_append (a b : List Instruction) :
    storedCalls (a ++ b) = storedCalls a ++ storedCalls b := List.flatMap_append

theorem mem_storedCalls {code : List Instruction} {f : String} {n : Nat} :
    (f, n) ∈ storedCalls code ↔ ∃ d, .assign d (.call f n) ∈ code := by
  constructor
  · intro h
    obtain ⟨i, hi, hf⟩ := List.mem_flatMap.1 h
    cases i with
    | assign d value =>
      cases value with
      | call name count =>
        cases List.mem_singleton.1 hf
        exact ⟨d, hi⟩
      | _ => cases hf
    | _ => cases hf
  · intro ⟨d, hi⟩
    exact List.mem_flatMap.2 ⟨_, hi, List.mem_singleton_self _⟩

/-! ### Calls in expressions -/

/-- The routine of a call and the number of its arguments. -/
def Call.shape (c : Call) : String × Nat := (c.name, c.args.length)

/-- The calls in an expression. -/
def Expr.calls : Expr → List Call
  | .arith _ left right _ | .logic _ left right _ => left.calls ++ right.calls
  | .paren inner _ => inner.calls
  | .call c _ => [c]
  | .fragment _ _ => []

/-- The call in a member of a chain. -/
def Operand.calls : Operand → List Call
  | .call c => [c]
  | .fragment _ => []

theorem Expr.calls_eq (e : Expr) : e.calls = e.chain.head.calls ++ e.chain.tail.flatMap (·.2.calls) := by
  induction e with
  | arith op l r s ihl ihr | logic op l r s ihl ihr =>
    rw [calls, ihl, ihr]
    simp [Expr.chain, Chain.link]
  | paren e s ih => exact ih
  | call c s => rfl
  | fragment f s => rfl

/-- The calls in the expressions of a body: in the values of constants, in statements, and in what is
returned. -/
def Body.valueCalls (b : Body) : List Call :=
  b.constants.flatMap (Decl.collect Expr.calls) ++ (b.decls.flatMap (Decl.collect Expr.calls) ++
    ((Stmt.exprsOfList b.block.nodes).flatMap Expr.calls ++ b.result.toList.flatMap Expr.calls))

/-- The calls in the expressions of a program. -/
def Program.valueCalls (p : Program) : List Call := p.bodies.flatMap Body.valueCalls

/-! ### Passes that store results -/

/-- A pass stores the results of some calls, but for those that are left for later in its value. -/
def Emit.Stores {α : Type} (p : Emit α) (left : α → List (String × Nat)) (cs : List (String × Nat)) : Prop :=
  ∀ g, storedCalls (p.run g).record ++ left (p.run g).value = cs

/-- Nothing is left for later. -/
abbrev Emit.StoresAll {α : Type} (p : Emit α) (cs : List (String × Nat)) : Prop := Emit.Stores p (fun _ => []) cs

namespace Emit.Stores

variable {α β : Type} {left : α → List (String × Nat)} {left' : β → List (String × Nat)}
  {cs ds : List (String × Nat)} {p : Emit α} {f : α → Emit β}

theorem pure (left : α → List (String × Nat)) (a : α) : Emit.Stores (Pure.pure a) left (left a) := fun _ => rfl

theorem done (a : α) : Emit.StoresAll (Pure.pure a) [] := fun _ => rfl

/-- What the first pass leaves for later has to be stored by the second one. -/
theorem bind (hp : Emit.Stores p left cs) (hf : ∀ a, Emit.Stores (f a) left' (left a ++ ds)) :
    Emit.Stores (p >>= f) left' (cs ++ ds) := by
  intro g
  rw [Pass.run_bind, storedCalls_append, List.append_assoc, hf, ← List.append_assoc, hp]

/-- A last pass, which stores what is left and nothing else. -/
theorem last (hp : Emit.Stores p left cs) (hf : ∀ a, Emit.Stores (f a) left' (left a)) :
    Emit.Stores (p >>= f) left' cs := by
  rw [← List.append_nil cs]
  exact hp.bind fun a => (List.append_nil (left a)).symm ▸ hf a

theorem andThen (hp : Emit.StoresAll p cs) (hf : ∀ a, Emit.Stores (f a) left' ds) :
    Emit.Stores (p >>= f) left' (cs ++ ds) := hp.bind hf

theorem tell (i : Instruction) : Emit.StoresAll (Pass.tell i) i.stores := by
  intro g
  simp

/-- A pass that emits nothing. -/
theorem silent (hp : ∀ g, (p.run g).record = []) : Emit.StoresAll p [] := by
  intro g
  simp [hp g]

/-- A first pass that stores nothing and leaves nothing. -/
theorem behind (hp : Emit.StoresAll p []) (hf : ∀ a, Emit.Stores (f a) left' ds) :
    Emit.Stores (p >>= f) left' ds := hp.andThen hf

theorem forM {f : β → Emit Unit} {calls : β → List (String × Nat)} (hf : ∀ b, Emit.StoresAll (f b) (calls b))
    (bs : List β) : Emit.StoresAll (bs.forM f) (bs.flatMap calls) := by
  induction bs with
  | nil => exact done ()
  | cons b more ih =>
    rw [List.flatMap_cons]
    exact (hf b).andThen fun _ => ih

theorem mapM {f : β → Emit α} {calls : β → List (String × Nat)} (hf : ∀ b, Emit.StoresAll (f b) (calls b))
    (bs : List β) : Emit.StoresAll (bs.mapM f) (bs.flatMap calls) := by
  induction bs with
  | nil =>
    rw [List.mapM_nil]
    exact done []
  | cons b more ih =>
    rw [List.mapM_cons, List.flatMap_cons]
    exact (hf b).andThen fun a => ih.last fun as => done (a :: as)

theorem foldlM {f : α → β → Emit α} {calls : β → List (String × Nat)}
    (hf : ∀ a b, Emit.StoresAll (f a b) (calls b)) (bs : List β) (a : α) :
    Emit.StoresAll (bs.foldlM f a) (bs.flatMap calls) := by
  induction bs generalizing a with
  | nil => exact done a
  | cons b more ih =>
    rw [List.foldlM_cons, List.flatMap_cons]
    exact (hf a b).andThen fun a' => ih a'

end Emit.Stores

open Emit (Stores StoresAll)

/-! ### Expressions and conditions -/

/-- What becomes an atom is stored, if it is the result of a call. -/
theorem Emit.atomOf_stores (r : Rvalue) : StoresAll (Emit.atomOf r) r.calls := by
  unfold Emit.atomOf
  split
  · exact .done _
  · refine (Stores.silent fun _ => rfl).behind fun temp => ?_
    exact (Stores.tell (.assign temp r)).last fun _ => .done temp

section Expressions

variable (t : RenameTable)

/-- The code of a call stores nothing. -/
theorem Call.lower_drops (c : Call) : StoresAll (c.lower t) [] := by
  have hargs := Stores.forM (fun a => Stores.tell (.param (Atom.lower t a.atom))) c.args
  have hnone : (c.args.flatMap fun a => (Instruction.param (a.atom.lower t)).stores) = [] :=
    List.flatMap_eq_nil_iff.2 fun _ _ => rfl
  rw [hnone] at hargs
  exact hargs.behind fun _ => .done (Rvalue.call c.name c.args.length)

/-- Its result is left for later. -/
theorem Call.lower_stores (c : Call) : Stores (c.lower t) Rvalue.calls [c.shape] := by
  intro g
  rw [(List.append_nil _).symm.trans (c.lower_drops t g)]
  rfl

theorem Fragment.calls_lower (f : Fragment) : (f.lower t).calls = [] := by
  cases f with
  | atom negated a => cases negated <;> rfl
  | _ => rfl

theorem Operand.lower_stores (o : Operand) : Stores (o.lower t) Rvalue.calls (o.calls.map Call.shape) := by
  cases o with
  | call c => exact c.lower_stores t
  | fragment f =>
    intro g
    exact f.calls_lower t

theorem Operand.lowerAtom_stores (o : Operand) : StoresAll (o.lowerAtom t) (o.calls.map Call.shape) :=
  (o.lower_stores t).last Emit.atomOf_stores

theorem lowerMember_stores (x : Operator × Operand) :
    StoresAll (lowerMember t x) (x.2.calls.map Call.shape) :=
  (x.2.lowerAtom_stores t).last fun text => .done (x.1, text)

theorem foldAtoms_stores (head : String) (tail : List (Operator × String)) :
    StoresAll (foldAtoms head tail) [] := by
  induction tail generalizing head with
  | nil => exact .done head
  | cons x more ih => exact (Emit.atomOf_stores (.binary head x.1 x.2)).behind fun result => ih result

theorem lowerLinks_stores (head : String) (tail : List (Operator × String)) :
    Stores (lowerLinks head tail) Rvalue.calls [] := by
  unfold lowerLinks
  split
  · exact .pure Rvalue.calls (.binary head _ _)
  · exact (foldAtoms_stores head tail).last fun text => .pure Rvalue.calls (.atom text)

/-- **Expressions.**  The code of an expression stores the results of its calls in order.  What is left for later
is the result of a call that is the whole expression. -/
theorem Expr.lower_stores (e : Expr) : Stores (e.lower t) Rvalue.calls (e.calls.map Call.shape) := by
  rw [e.calls_eq, List.map_append, List.map_flatMap]
  unfold Expr.lower
  split
  · rename_i only hchain
    rw [hchain, List.flatMap_nil, List.append_nil]
    exact only.lower_stores t
  · rename_i first more hne hchain
    rw [hchain]
    refine (first.lowerAtom_stores t).andThen fun head => ?_
    exact (Stores.mapM (lowerMember_stores t) more).last fun tail => lowerLinks_stores head tail

theorem Expr.lowerAtom_stores (e : Expr) : StoresAll (e.lowerAtom t) (e.calls.map Call.shape) :=
  (e.lower_stores t).last Emit.atomOf_stores

/-- A value that is stored at once. -/
theorem Expr.assign_stores (e : Expr) (dest : String) :
    StoresAll (do Emit.assign dest (← e.lower t)) (e.calls.map Call.shape) :=
  (e.lower_stores t).last fun v => .tell (.assign dest v)

theorem flagOf_stores (predicate : Rvalue) :
    StoresAll (do return (Chain.single (← flagOf predicate) : Chain Connective String)) [] := by
  intro g
  rfl

theorem combineFlags_stores (first : String) (more : List (Connective × String)) :
    StoresAll (combineFlags first more) [] := by
  induction more generalizing first with
  | nil => exact .done first
  | cons x more ih =>
    refine (ih x.2).behind fun recent => (Stores.silent fun _ => rfl).behind fun flag => ?_
    exact (Stores.tell (.assign flag (.binary recent (.logic x.1) first))).last fun _ => .done flag

theorem lowerCompared_stores (op : Operator) (l r : Expr) : StoresAll (do
      let a ← l.lowerAtom t
      let b ← r.lowerAtom t
      return (Chain.single (← flagOf (.binary a op b)) : Chain Connective String))
    (([l, r].flatMap Expr.calls).map Call.shape) := by
  rw [List.flatMap_cons, List.flatMap_singleton, List.map_append]
  exact (l.lowerAtom_stores t).andThen fun a => (r.lowerAtom_stores t).last fun b => flagOf_stores (.binary a op b)

/-- **Conditions.**  The code of a condition stores the results of the calls in its expressions. -/
theorem Cond.lowerFlags_stores (c : Cond) :
    StoresAll (c.lowerFlags t) ((c.exprs.flatMap Expr.calls).map Call.shape) := by
  induction c with
  | comparison op l r s => exact lowerCompared_stores t (.order op) l r
  | equality op l r s => exact lowerCompared_stores t (.same op) l r
  | neg c s ih =>
    exact ih.last fun flags => (combineFlags_stores flags.head flags.tail).behind
      fun flag => flagOf_stores (.binary flag (.same .equal) "false")
  | paren c s ih => exact ih
  | binary op l r s ihl ihr =>
    rw [Cond.exprs, List.flatMap_append, List.map_append]
    exact ihl.andThen fun a => ihr.last fun b => .done (a.link op b)
  | bool b s => exact flagOf_stores (.atom (boolText b))

theorem Cond.lower_stores (c : Cond) : StoresAll (c.lower t) ((c.exprs.flatMap Expr.calls).map Call.shape) :=
  (c.lowerFlags_stores t).last fun flags => (combineFlags_stores flags.head flags.tail).behind
    fun flag => .done (Rvalue.binary flag (.same .equal) "true")

/-! ### Statements -/

/-- **Statements.**  The code of a statement stores the results of the calls in its expressions.  The result of a
call that is a statement by itself is not stored. -/
theorem Stmt.lower_stores :
    (∀ s : Stmt, StoresAll (s.lower t) ((s.exprs.flatMap Expr.calls).map Call.shape)) ∧
      ∀ ss, StoresAll (Stmt.lowerAll t ss) (((Stmt.exprsOfList ss).flatMap Expr.calls).map Call.shape) := by
  have quiet {q : Emit Unit} {cs : List (String × Nat)} {i : Instruction} (hi : i.stores = []) (hq : StoresAll q cs) :
      StoresAll (Pass.tell i >>= fun _ => q) cs := (hi ▸ Stores.tell i).behind fun _ => hq
  refine Stmt.parts ?assign ?ite ?loop ?call ?block ?skip ?nil ?cons
  case assign =>
    intro x e a s
    rw [Stmt.lower, Stmt.exprs, List.flatMap_singleton]
    exact e.assign_stores t (t.resolve x)
  case ite =>
    intro c th el s iht ihe
    rw [Stmt.lower, Stmt.exprs, List.flatMap_append, List.flatMap_append, List.map_append, List.map_append,
      Block.exprs, Block.exprs, Block.lower, Block.lower]
    refine (Stores.silent fun _ => rfl).behind fun labels => (c.lower_stores t).andThen fun predicate => ?_
    refine quiet (i := .ifz predicate labels.1) rfl (iht.andThen fun _ => ?_)
    refine quiet (i := .goto labels.2) rfl (quiet (i := .label labels.1) rfl ?_)
    exact ihe.last fun _ => .tell (.label labels.2)
  case loop =>
    intro c b s ih
    rw [Stmt.lower, Stmt.exprs, List.flatMap_append, List.map_append, Block.exprs, Block.lower]
    refine (Stores.silent fun _ => rfl).behind fun labels => quiet (i := .label labels.1) rfl ?_
    refine (c.lower_stores t).andThen fun predicate => quiet (i := .ifz predicate labels.2) rfl ?_
    exact ih.last fun _ => quiet (i := .goto labels.1) rfl (.tell (.label labels.2))
  case call =>
    intro c s
    exact (c.lower_drops t).behind fun _ => .tell (.call c.name c.args.length)
  case block =>
    intro b s ih
    rw [Stmt.lower, Stmt.exprs, Block.exprs, Block.lower]
    exact ih
  case skip => exact fun s => .pure _ ()
  case nil => exact .pure _ ()
  case cons =>
    intro s more ihs ihmore
    rw [Stmt.lowerAll, Stmt.exprsOfList, List.flatMap_append, List.map_append]
    exact ihs.andThen fun _ => ihmore

end Expressions

/-! ### Bodies -/

theorem Decl.lowerGlobal_stores (t : RenameTable) (d : Decl) :
    StoresAll (d.lowerGlobal t) ((d.collect Expr.calls).map Call.shape) := by
  cases d with
  | var x type s => exact .done ()
  | const x type e s => exact e.assign_stores t x

theorem Decl.lowerLocal_stores (t : RenameTable) (d : Decl) :
    StoresAll (d.lowerLocal t) ((d.collect Expr.calls).map Call.shape) := by
  cases d with
  | var x type s => exact .silent fun _ => rfl
  | const x type e s =>
    refine (e.lower_stores t).last fun v => (Stores.silent fun _ => rfl).behind fun t' => ?_
    exact (Stores.tell (.assign (t'.resolve x) v)).last fun _ => .done t'

theorem fetchParams_stores (t : RenameTable) (index : Nat) (ps : List Param) :
    StoresAll (fetchParams t index ps) [] := by
  induction ps generalizing index with
  | nil => exact .done ()
  | cons q more ih => exact (Stores.tell (.getparam (t.resolve q.name) index)).behind fun _ => ih _

/-- A returned result goes through a temporary. -/
theorem lowerReturn_stores (t : RenameTable) (result : Option Expr) :
    StoresAll (lowerReturn t result) ((result.toList.flatMap Expr.calls).map Call.shape) := by
  cases result with
  | none => exact .tell (.ret none)
  | some e =>
    rw [Option.toList_some, List.flatMap_singleton]
    have hreturned : StoresAll (e.lowerReturned t) (e.calls.map Call.shape) := by
      refine (e.lower_stores t).last fun v => ?_
      split
      · exact (Emit.atomOf_stores _).last fun text => .done (Rvalue.atom text)
      · rename_i hcall
        cases v with
        | call name count => exact absurd rfl (hcall name count)
        | _ => exact .done _
    exact hreturned.last fun v => .tell (.ret (some v))

theorem Body.lowerStart_stores (b : Body) : StoresAll b.lowerStart
    ((b.constants.flatMap (Decl.collect Expr.calls) ++ b.decls.flatMap (Decl.collect Expr.calls)).map
      Call.shape) := by
  rw [List.map_append, List.map_flatMap, List.map_flatMap]
  refine (Stores.silent fun _ => rfl).behind fun outer => ?_
  refine (Stores.forM (Decl.lowerGlobal_stores outer) b.constants).andThen fun _ => ?_
  refine (Stores.silent fun g => (Param.run_registers b.params outer g).2.2).behind fun params => ?_
  exact (fetchParams_stores params 1 b.params).behind fun _ => .foldlM Decl.lowerLocal_stores b.decls params

/-- **Bodies.**  The code of a body stores the results of the calls in its expressions. -/
theorem Body.lower_stores (b : Body) {finish : RenameTable → Emit Unit}
    (hf : ∀ t, StoresAll (finish t) ((b.result.toList.flatMap Expr.calls).map Call.shape)) :
    StoresAll (b.lower finish) (b.valueCalls.map Call.shape) := by
  rw [valueCalls, ← List.append_assoc, List.map_append]
  refine b.lowerStart_stores.andThen fun t => ?_
  rw [Block.lower, List.map_append]
  exact ((Stmt.lower_stores t).2 b.block.nodes).andThen fun _ => hf t

theorem Func.lowerAll_stores (fs : List Func) :
    StoresAll (fs.forM Func.lower) (fs.flatMap fun f => f.asBody.valueCalls.map Call.shape) := by
  refine Stores.forM (fun f g => ?_) fs
  rw [f.run_lower]
  exact f.asBody.lower_stores (fun t => lowerReturn_stores t f.returnValue) g

namespace Program

variable {p : Program}

/-- **Stored results.**  The code of a program stores the results of the calls in its expressions, in order. -/
theorem stored_code (p : Program) : storedCalls p.code = p.valueCalls.map Call.shape := by
  have hmain : StoresAll p.lowerMain (p.mainBody.valueCalls.map Call.shape) := by
    intro g
    rw [p.run_lowerMain]
    exact p.mainBody.lower_stores (fun t => .tell (.call exitRoutine 0)) g
  have hall := (Func.lowerAll_stores p.funcs).andThen fun _ => hmain
  rw [valueCalls, bodies, List.flatMap_append, List.flatMap_singleton, List.map_append, List.map_flatMap,
    List.flatMap_map, ← hall .first, List.append_nil]
  rfl

end Program

/-! ### Returns -/

/-- The value of a return, which may be bare. -/
def Instruction.returned? : Instruction → Option (Option Rvalue)
  | .ret value => some value
  | _ => none

/-- The value of the first return behind a label. -/
def returnBehind? (code : List Instruction) (name : String) : Option (Option Rvalue) :=
  (code.dropWhile (· != .label name)).findSome? Instruction.returned?

/-- Every result that code stores is carried by the return of its routine. -/
def CarriesResults (code : List Instruction) : Prop :=
  ∀ d f n, .assign d (.call f n) ∈ code → ∃ v, returnBehind? code f = some (some v)

theorem returnBehind?_eq {before c : List Instruction} {name : String} (hbefore : .label name ∉ before)
    (hc : ∀ v, .ret v ∉ c) (v : Option Rvalue) (behind : List Instruction) :
    returnBehind? (before ++ (.label name :: (c ++ [.ret v])) ++ behind) name = some v := by
  have hdrop : ∀ i ∈ before, (i != .label name) = true := by
    intro i hi
    rw [bne_iff_ne]
    rintro rfl
    exact hbefore hi
  have hnone : c.findSome? Instruction.returned? = none := by
    refine List.findSome?_eq_none_iff.2 fun i hi => ?_
    cases i with
    | ret w => exact absurd hi (hc w)
    | _ => rfl
  rw [returnBehind?, List.append_assoc, List.dropWhile_append_of_pos hdrop, List.cons_append,
    List.dropWhile_cons_of_neg (by simp), List.findSome?_cons_of_isNone rfl, List.append_assoc,
    List.findSome?_append, hnone]
  rfl

/-- A function that returns a value ends with one, and one that returns nothing ends with a bare return. -/
theorem lowerReturn_last (t : RenameTable) (result : Option Expr) (g : Generator) :
    ∃ c v, ((lowerReturn t result).run g).record = c ++ [.ret v] ∧ v.isSome = result.isSome := by
  cases result with
  | none => exact ⟨[], none, rfl, rfl⟩
  | some e => exact ⟨_, some _, rfl, rfl⟩

theorem Func.lowerWithin_ends (f : Func) (g : Generator) :
    ∃ c v, (f.lowerWithin.run g).record = c ++ [.ret v] ∧ (∀ w, .ret w ∉ c) ∧
      v.isSome = f.returnValue.isSome := by
  obtain ⟨c, v, hrecord, hc⟩ := f.lowerWithin_structured g
  let start := f.asBody.lowerStart.run g
  let stmts := (f.asBody.block.lower start.value).run start.state
  obtain ⟨c', v', hlast, hv⟩ := lowerReturn_last start.value f.returnValue stmts.state
  have hrecord' : (f.lowerWithin.run g).record = (start.record ++ (stmts.record ++ c')) ++ [.ret v'] := by
    show start.record ++ (stmts.record ++ ((lowerReturn start.value f.returnValue).run stmts.state).record) = _
    rw [hlast, List.append_assoc, List.append_assoc]
  cases (List.append_inj' (hrecord.symm.trans hrecord') rfl).2
  exact ⟨c, v, hrecord, hc.not_ret, hv⟩

namespace Program

variable {p : Program}

/-- The label of a function does not stand in the code of the functions before it. -/
theorem WellFormed.label_not_before (hw : p.WellFormed) (hs : p.Spelled) {i : Nat} {f : Func}
    (hf : p.funcs[i]? = some f) : .label f.name ∉ Func.codeOf (p.funcs.take i) .first := by
  obtain ⟨⟨behind, hcode⟩, -, -⟩ := code_at_nth hf
  intro hmem
  have honce := hw.nodup_labels hs
  rw [hcode, List.append_assoc, definedLabels_append, List.nodup_append] at honce
  exact honce.2.2 _ (mem_definedLabels hmem) _ (mem_definedLabels List.mem_cons_self) rfl

theorem WellFormed.returnBehind (hw : p.WellFormed) (hs : p.Spelled) {f : Func} (hf : f ∈ p.funcs) :
    ∃ v, returnBehind? p.code f.name = some v ∧ v.isSome = f.returnValue.isSome ∧
      (v = none → f.returnType = .void) := by
  obtain ⟨i, hi⟩ := List.getElem?_of_mem hf
  obtain ⟨⟨behind, hcode⟩, -, -⟩ := code_at_nth hi
  obtain ⟨c, v, hrecord, hc, hv⟩ := f.lowerWithin_ends (Generator.first.behind (p.funcs.take i))
  rw [hrecord] at hcode
  refine ⟨v, hcode ▸ returnBehind?_eq (hw.label_not_before hs hi) hc v behind, hv, ?_⟩
  rintro rfl
  have hnone : f.returnValue = none := by
    rw [← Option.not_isSome_iff_eq_none, ← hv]
    exact Bool.false_ne_true
  have hreturned := (hw.func hi).returned
  rw [Func.ReturnInOrder, hnone] at hreturned
  exact hreturned

/-- Up to its end, the code of an accepted program calls functions of the program. -/
theorem WellFormed.callee_known (hw : p.WellFormed) (hs : p.Spelled) {T : Typing} (hT : T.Declares p)
    {i : Instruction} (h : i ∈ (p.lowerToExit.run .first).record) {f : String} (hf : i.callee? = some f) :
    ∃ g ∈ p.funcs, g.name = f ∧ T.routine? f = some ⟨g.params.map (·.type), g.returnType⟩ := by
  obtain ⟨k, hk⟩ := List.getElem?_of_mem h
  have hlt := (List.getElem?_eq_some_iff.1 hk).1
  have hend : k + 1 < p.code.length := by
    rw [p.code_eq_toExit, List.length_append, List.length_singleton]
    omega
  obtain ⟨b, hwithin⟩ := exists_within (p := p) (a := k) (by omega)
  have hat : p.code[k]? = some i := by
    rw [p.code_eq_toExit]
    exact getElem?_front hk
  obtain ⟨j, -, hj, hlabel⟩ := hw.calls hs hwithin hend hat hf
  have hfunc := List.getElem?_eq_getElem hj
  have hgmem := List.mem_of_getElem? hfunc
  have hname : (p.funcs[j]).name = f := by
    rw [← hlabel, label, hfunc]
  exact ⟨_, hgmem, hname, hname ▸ hT.routines _ hgmem⟩

/-- What an accepted program stores is the result of a function, in a name of that function's type. -/
theorem WellFormed.stored_typed (hw : p.WellFormed) (hs : p.Spelled) {T : Typing} (hT : T.Declares p) {a : Point}
    (hc : T.Checks .first (p.lowerToExit.run .first).record a) {d f : String} {n : Nat}
    (h : .assign d (.call f n) ∈ p.code) :
    ∃ g ∈ p.funcs, g.name = f ∧ g.params.length = n ∧ T.type? d = some g.returnType := by
  have hmem : .assign d (.call f n) ∈ (p.lowerToExit.run .first).record := by
    rw [p.code_eq_toExit] at h
    rcases List.mem_append.1 h with h | h
    · exact h
    · cases List.mem_singleton.1 h
  obtain ⟨g, hg, hname, hroutine⟩ := hw.callee_known hs hT hmem rfl
  obtain ⟨b, c, hstep⟩ := hc.exists_step hmem
  cases hstep with
  | assign hr hx =>
    obtain ⟨s, hknown, rfl, rfl⟩ := hr.call_inv
    cases hroutine.symm.trans hknown
    exact ⟨g, hg, hname, (List.length_map _).symm, hx⟩

/-! ### Results of a program -/

/-- What becomes of the results of the functions of a program in its code. -/
structure StoresResults (p : Program) (T : Typing) (code : List Instruction) : Prop where
  /-- The stored results are those of the calls in expressions, in order. -/
  stored : storedCalls code = p.valueCalls.map Call.shape
  typed : ∀ d f n, .assign d (.call f n) ∈ code →
    ∃ g ∈ p.funcs, g.name = f ∧ g.params.length = n ∧ T.type? d = some g.returnType
  /-- A return is bare where the function returns no value, and then the type of the function is void. -/
  returns : ∀ f ∈ p.funcs, ∃ v, returnBehind? code f.name = some v ∧ v.isSome = f.returnValue.isSome ∧
    (v = none → f.returnType = .void)

/-- No expression of a program calls a function that returns no value. -/
def UsesValues (p : Program) : Prop :=
  ∀ c ∈ p.valueCalls, ∀ f ∈ p.funcs, f.name = c.name → f.returnValue.isSome = true

namespace StoresResults

variable {p : Program} {T : Typing} {code : List Instruction}

/-- A stored result has a value unless the name that it is stored in is of type void. -/
theorem carried (h : p.StoresResults T code) {d f : String} {n : Nat} (hd : .assign d (.call f n) ∈ code)
    (hvoid : T.type? d ≠ some .void) : ∃ v, returnBehind? code f = some (some v) := by
  obtain ⟨g, hg, rfl, -, htype⟩ := h.typed d f n hd
  obtain ⟨v, hv, -, hbare⟩ := h.returns g hg
  cases v with
  | none =>
    rw [htype, hbare rfl] at hvoid
    exact absurd rfl hvoid
  | some v => exact ⟨v, hv⟩

/-- The stored results of an accepted program all have values exactly if its expressions call no function that
returns none. -/
theorem carries_iff (h : p.StoresResults T code) : CarriesResults code ↔ p.UsesValues := by
  constructor
  · intro hcarries c hc f hf hname
    have hstored : (f.name, c.args.length) ∈ storedCalls code := by
      rw [h.stored, hname]
      exact List.mem_map_of_mem (f := Call.shape) hc
    obtain ⟨d, hd⟩ := mem_storedCalls.1 hstored
    obtain ⟨v, hv⟩ := hcarries d f.name _ hd
    obtain ⟨w, hw, hvalue, -⟩ := h.returns f hf
    rw [hv] at hw
    cases hw
    exact hvalue.symm
  · intro huses d f n hd
    obtain ⟨g, hg, rfl, -, -⟩ := h.typed d f n hd
    have hcalled : (g.name, n) ∈ p.valueCalls.map Call.shape := h.stored ▸ mem_storedCalls.2 ⟨d, hd⟩
    obtain ⟨c, hc, hshape⟩ := List.mem_map.1 hcalled
    have hvalue := huses c hc g hg (congrArg Prod.fst hshape).symm
    obtain ⟨v, hv, hsome, -⟩ := h.returns g hg
    rw [hvalue] at hsome
    obtain ⟨w, rfl⟩ := Option.isSome_iff_exists.1 hsome
    exact ⟨w, hv⟩

end StoresResults

end Program

/-! ### Accepted sources -/

/-- **Stored results.**  The code of an accepted source stores the results of the calls in its expressions, each in
a name that has the type of the called function.  A function whose type is not void returns a value, so a stored
result has one unless it is stored as void; and all stored results have values exactly if no expression calls a
function with a bare return. -/
theorem compile_storesResults {source : String} {compiled : Compiled} (h : compile source = .ok compiled) :
    ∃ p T, Program.ofSource source = .ok p ∧ T.Declares p ∧ p.StoresResults T compiled.code ∧
      (∀ d f n, .assign d (.call f n) ∈ compiled.code → T.type? d ≠ some .void →
        ∃ v, returnBehind? compiled.code f = some (some v)) ∧
      (CarriesResults compiled.code ↔ p.UsesValues) := by
  obtain ⟨p, hp, hclean, hcode⟩ := compile_eq_ok h
  have hw := Program.WellFormed.of_clean hclean
  have hs := ofSource_spelled hp
  obtain ⟨T, a, hg, hc, -⟩ := hw.typed hs
  have hT := (Program.typing_declares hw hs).grows hg
  have hresults : p.StoresResults T compiled.code := by
    rw [hcode]
    exact ⟨p.stored_code, fun d f n => hw.stored_typed hs hT hc, fun f => hw.returnBehind hs⟩
  exact ⟨p, T, hp, hT, hresults, fun _ _ _ => hresults.carried, hresults.carries_iff⟩

theorem compile_storesResults_loopingSource : compile loopingSource = .ok ⟨loopingCode, []⟩ ∧
    ∃ p T, Program.ofSource loopingSource = .ok p ∧ T.Declares p ∧ p.StoresResults T loopingCode ∧
      (∀ d f n, .assign d (.call f n) ∈ loopingCode → T.type? d ≠ some .void →
        ∃ v, returnBehind? loopingCode f = some (some v)) ∧
      (CarriesResults loopingCode ↔ p.UsesValues) :=
  ⟨compile_loopingSource, compile_storesResults compile_loopingSource⟩

/-- A source that stores the result of a function which returns nothing. -/
def emptyHandedSource : String := "void f() \x7b return (); \x7d main \x7b var x: void; x = f(); \x7d"

/-- The code of that source. -/
def emptyHandedCode : List Instruction :=
  [.label "f", .ret none, .label "main", .assign "x.2" (.call "f" 0), .call "_exit" 0]

/-- The source is accepted, and a result that its code stores has no value. -/
theorem compile_emptyHandedSource_stores : (compile emptyHandedSource).toOption.map (·.code) = some emptyHandedCode ∧
    ¬CarriesResults emptyHandedCode := by
  refine ⟨by decide +kernel, fun h => ?_⟩
  obtain ⟨v, hv⟩ := h "x.2" "f" 0 (by decide)
  have hbare : returnBehind? emptyHandedCode "f" = some none := by decide
  rw [hbare] at hv
  cases hv

end ThreeAddress
