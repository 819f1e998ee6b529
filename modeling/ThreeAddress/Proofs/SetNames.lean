import ThreeAddress.Proofs.FlatCode
import ThreeAddress.Proofs.Mentions

/-!
# The names that code sets

Beside temporaries and flags, code sets the names of constants, of parameters, and of the targets of assignments, in
the order in which they stand in the source.

* `setNames`, `unreserved` — the names that code sets, and those of them that no counter supplies;
* `setAt_unique` — a name that is set once is set at one place;
* `Emit.Sets` — a pass sets some names, and its laws;
* `Stmt.lower_sets`, `Body.lower_sets` — statements and bodies;
* `Program.sets`, `Program.setNames_code` — programs.
-/

namespace ThreeAddress

/-! ### Names in order -/

/-- The names that code sets, in order. -/
def setNames (code : List Instruction) : List String := code.filterMap Instruction.dest?

/-- Names that no counter supplies. -/
def unreserved (xs : List String) : List String := xs.filter fun x => !isReservedName x

theorem setNames_append (a b : List Instruction) : setNames (a ++ b) = setNames a ++ setNames b :=
  List.filterMap_append

theorem unreserved_append (xs ys : List String) : unreserved (xs ++ ys) = unreserved xs ++ unreserved ys :=
  List.filter_append _ _

theorem unreserved_of_forall {xs : List String} (h : ∀ x ∈ xs, isReservedName x = true) : unreserved xs = [] :=
  List.filter_eq_nil_iff.2 fun x hx => by rw [h x hx]; exact Bool.false_ne_true

theorem unreserved_eq_self {xs : List String} (h : ∀ x ∈ xs, isReservedName x = false) : unreserved xs = xs :=
  List.filter_eq_self.2 fun x hx => by rw [h x hx]; rfl

theorem count_unreserved {x : String} (hx : isReservedName x = false) (xs : List String) :
    (unreserved xs).count x = xs.count x :=
  List.count_filter (by rw [hx]; rfl)

section Places

variable {code : List Instruction} {x : String}

theorem mem_setNames : x ∈ setNames code ↔ ∃ a, SetAt x code a := by
  rw [setNames, List.mem_filterMap]
  constructor
  · rintro ⟨i, hi, hd⟩
    obtain ⟨a, ha⟩ := List.getElem?_of_mem hi
    exact ⟨a, i, ha, hd⟩
  · rintro ⟨a, i, ha, hd⟩
    exact ⟨i, List.mem_of_getElem? ha, hd⟩

/-- A name that is set once is set at one place. -/
theorem setAt_unique (h : (setNames code).count x = 1) : ∃ a, ∀ c, SetAt x code c ↔ c = a := by
  induction code with
  | nil => cases h
  | cons i more ih =>
    rw [setNames, List.filterMap_cons] at h
    by_cases hi : i.dest? = some x
    · -- the first instruction sets the name, so no later one does
      rw [hi, List.count_cons_self, Nat.add_eq_right, List.count_eq_zero] at h
      refine ⟨0, fun c => PlaceWith.cons.trans ⟨?_, fun hc => .inl ⟨hc, hi⟩⟩⟩
      rintro (⟨hc, -⟩ | ⟨c', -, hc'⟩)
      · exact hc
      · exact absurd (mem_setNames.2 ⟨c', hc'⟩) h
    · have hmore : (setNames more).count x = 1 := by
        cases hd : i.dest? with
        | none =>
          rw [hd] at h
          exact h
        | some y =>
          rw [hd] at hi h
          rwa [List.count_cons_of_ne fun hyx => hi (congrArg some hyx)] at h
      obtain ⟨a, ha⟩ := ih hmore
      refine ⟨a + 1, fun c => PlaceWith.cons.trans ⟨?_, fun hc => .inr ⟨a, hc, (ha a).2 rfl⟩⟩⟩
      rintro (⟨-, hx⟩ | ⟨c', rfl, hc'⟩)
      · exact absurd hx hi
      · rw [(ha c').1 hc']

end Places

/-! ### What passes set -/

/-- What a pass sets, temporaries and flags aside. -/
def Emit.Sets {α : Type} (p : Emit α) (xs : List String) : Prop :=
  ∀ g, unreserved (setNames (p.run g).record) = unreserved xs

section Laws

variable {α β : Type} {p : Emit α} {f : α → Emit β} {xs ys : List String}

namespace Emit.Sets

theorem silent (hp : ∀ g, (p.run g).record = []) : Emit.Sets p [] := by
  intro g
  rw [hp g]
  rfl

theorem pure (a : α) : Emit.Sets (Pure.pure a) [] := silent fun _ => rfl

theorem bind (hp : Emit.Sets p xs) (hf : ∀ a, Emit.Sets (f a) ys) : Emit.Sets (p >>= f) (xs ++ ys) := by
  intro g
  rw [Pass.run_bind, setNames_append, unreserved_append, unreserved_append, hp g]
  exact congrArg (unreserved xs ++ ·) (hf _ _)

/-- A first pass that sets nothing. -/
theorem behind (hp : Emit.Sets p []) (hf : ∀ a, Emit.Sets (f a) ys) : Emit.Sets (p >>= f) ys := hp.bind hf

/-- A last pass that sets nothing. -/
theorem last (hp : Emit.Sets p xs) (hf : ∀ a, Emit.Sets (f a) []) : Emit.Sets (p >>= f) xs := by
  rw [← List.append_nil xs]
  exact hp.bind hf

theorem tell (i : Instruction) : Emit.Sets (Pass.tell i) i.dest?.toList := by
  intro g
  cases hd : i.dest? <;> simp [setNames, hd]

/-- A pass that goes on with a name of the supply. -/
theorem fresh {from? : NameSupply → String × NameSupply} {f : String → Emit β}
    (hown : ∀ n, isReservedName (from? n).1 = true) (hf : ∀ x, isReservedName x = true → Emit.Sets (f x) ys) :
    Emit.Sets (Emit.take from? >>= f) ys := fun g => hf _ (hown g.names) _

/-- A name of the supply is set. -/
theorem own {x : String} (hx : isReservedName x = true) (value : Rvalue) : Emit.Sets (Emit.assign x value) [] := by
  intro g
  exact (tell (.assign x value) g).trans (unreserved_of_forall (List.forall_mem_singleton.2 hx))

theorem forM {f : β → Emit Unit} {names : β → List String} (hf : ∀ b, Emit.Sets (f b) (names b)) (bs : List β) :
    Emit.Sets (bs.forM f) (bs.flatMap names) := by
  induction bs with
  | nil => exact pure ()
  | cons b more ih =>
    rw [List.flatMap_cons]
    exact (hf b).bind fun _ => ih

end Emit.Sets

end Laws

open Emit (Sets)

/-! ### Expressions and conditions -/

theorem Emit.atomOf_sets (r : Rvalue) : Sets (Emit.atomOf r) [] := by
  unfold Emit.atomOf
  split
  · exact .pure _
  · exact .fresh (fun n => isReservedName_tempName n.temp) fun temp htemp => (Sets.own htemp r).behind fun _ => .pure _

section Expressions

variable (t : RenameTable)

/-- The code of an expression sets temporaries only. -/
theorem Expr.lower_sets (e : Expr) : Sets (e.lower t) [] := by
  intro g
  refine unreserved_of_forall fun x hx => ?_
  obtain ⟨i, hi, hd⟩ := List.mem_filterMap.1 hx
  rcases e.fills_lower t g i hi with ⟨a, rfl⟩ | ⟨k, r, -, -, rfl⟩
  · cases hd
  · cases hd
    exact isReservedName_tempName k

theorem Expr.lowerAtom_sets (e : Expr) : Sets (e.lowerAtom t) [] := (e.lower_sets t).behind Emit.atomOf_sets

/-- A value is assigned. -/
theorem Expr.assign_sets (e : Expr) (dest : String) : Sets (do Emit.assign dest (← e.lower t)) [dest] :=
  (e.lower_sets t).behind fun v => .tell (.assign dest v)

theorem flagOf_sets (predicate : Rvalue) : Sets (flagOf predicate) [] := by
  refine .fresh (fun n => isReservedName_flagName n.flag) fun flag hflag => ?_
  refine (Sets.silent fun _ => rfl).behind fun skip => (Sets.own hflag _).behind fun _ => ?_
  refine (Sets.tell (.ifz predicate skip)).behind fun _ => (Sets.own hflag _).behind fun _ => ?_
  exact (Sets.tell (.label skip)).behind fun _ => .pure flag

theorem combineFlags_sets (first : String) (more : List (Connective × String)) :
    Sets (combineFlags first more) [] := by
  induction more generalizing first with
  | nil => exact .pure first
  | cons x more ih =>
    refine (ih x.2).behind fun recent => .fresh (fun n => isReservedName_flagName n.flag) fun flag hflag => ?_
    exact (Sets.own hflag _).behind fun _ => .pure flag

theorem lowerCompared_sets (op : Operator) (l r : Expr) : Sets (do
    let a ← l.lowerAtom t
    let b ← r.lowerAtom t
    return (Chain.single (← flagOf (.binary a op b)) : Chain Connective String)) [] :=
  (l.lowerAtom_sets t).behind fun _ => (r.lowerAtom_sets t).behind fun _ => (flagOf_sets _).behind fun _ => .pure _

/-- The code of a condition sets temporaries and flags only. -/
theorem Cond.lowerFlags_sets (c : Cond) : Sets (c.lowerFlags t) [] := by
  induction c with
  | comparison op l r s => exact lowerCompared_sets t (.order op) l r
  | equality op l r s => exact lowerCompared_sets t (.same op) l r
  | neg c s ih =>
    exact ih.behind fun flags => (combineFlags_sets flags.head flags.tail).behind fun _ =>
      (flagOf_sets _).behind fun _ => .pure _
  | paren c s ih => exact ih
  | binary op l r s ihl ihr => exact ihl.behind fun _ => ihr.behind fun _ => .pure _
  | bool b s => exact (flagOf_sets _).behind fun _ => .pure _

theorem Cond.lower_sets (c : Cond) : Sets (c.lower t) [] :=
  (c.lowerFlags_sets t).behind fun flags => (combineFlags_sets flags.head flags.tail).behind fun _ => .pure _

/-! ### Statements -/

/-- **Statements.**  The code of a statement sets the targets of its assignments. -/
theorem Stmt.lower_sets : (∀ s : Stmt, Sets (s.lower t) (s.targets.map t.resolve)) ∧
    ∀ ss, Sets (Stmt.lowerAll t ss) ((Stmt.targetsOfList ss).map t.resolve) := by
  refine Stmt.parts ?assign ?ite ?loop ?call ?block ?skip ?nil ?cons
  case assign => exact fun x e a s => e.assign_sets t (t.resolve x)
  case ite =>
    intro c th el s iht ihe
    rw [Stmt.lower, Stmt.targets, List.map_append, Block.targets, Block.targets, Block.lower, Block.lower]
    refine (Sets.silent fun _ => rfl).behind fun labels => (c.lower_sets t).behind fun predicate => ?_
    refine (Sets.tell (.ifz predicate labels.1)).behind fun _ => iht.bind fun _ => ?_
    exact (Sets.tell (.goto labels.2)).behind fun _ => (Sets.tell (.label labels.1)).behind fun _ =>
      ihe.last fun _ => .tell (.label labels.2)
  case loop =>
    intro c b s ih
    rw [Stmt.lower, Stmt.targets, Block.targets, Block.lower]
    refine (Sets.silent fun _ => rfl).behind fun labels => (Sets.tell (.label labels.1)).behind fun _ => ?_
    refine (c.lower_sets t).behind fun predicate => (Sets.tell (.ifz predicate labels.2)).behind fun _ => ?_
    exact ih.last fun _ => (Sets.tell (.goto labels.1)).behind fun _ => .tell (.label labels.2)
  case call =>
    intro c s
    refine Sets.behind (fun g => ?_) fun _ => .tell (.call c.name c.args.length)
    exact (Expr.call c c.span).lower_sets t g
  case block =>
    intro b s ih
    rw [Stmt.lower, Stmt.targets, Block.lower, Block.targets]
    exact ih
  case skip => exact fun s => .pure ()
  case nil => exact .pure ()
  case cons =>
    intro s more ihs ihmore
    rw [Stmt.lowerAll, Stmt.targetsOfList, List.map_append]
    exact ihs.bind fun _ => ihmore

/-! ### Declarations -/

/-- A global constant is set under its own name. -/
theorem Decl.lowerGlobal_sets (d : Decl) : Sets (d.lowerGlobal t) d.stored := by
  cases d with
  | var x type s => exact .pure ()
  | const x type e s => exact e.assign_sets t x

/-- A name is made local before the rest goes on. -/
theorem Emit.Sets.register {α : Type} {t : RenameTable} {x : String} {f : RenameTable → Emit α} {xs : List String}
    (hf : Sets (f (t.insert x)) xs) : Sets (t.register x >>= f) xs :=
  fun g => hf { g with locals := g.locals ++ [t.localName x] }

theorem Emit.Sets.registerAll {α : Type} (ps : List Param) {t : RenameTable} {f : RenameTable → Emit α}
    {xs : List String} (hf : Sets (f (t.insertAll (ps.map (·.name)))) xs) :
    Sets (ps.foldlM (fun t q => t.register q.name) t >>= f) xs := by
  induction ps generalizing t with
  | nil => exact hf
  | cons q more ih =>
    rw [List.foldlM_cons, bind_assoc]
    exact .register (ih hf)

section Locals

variable {t} {f : RenameTable → Emit Unit} {xs : List String}

/-- A local constant is set under its local name. -/
theorem Decl.lowerLocal_sets (d : Decl) (hf : Sets (f (t.insert d.name)) xs) :
    Sets (d.lowerLocal t >>= f) (d.stored.map (localText · t.ordinal) ++ xs) := by
  cases d with
  | var x type s => exact .register hf
  | const x type e s =>
    simp only [Decl.lowerLocal, bind_assoc, pure_bind]
    refine (e.lower_sets t).behind fun v => .register ?_
    rw [t.resolve_insert]
    exact (Sets.tell (.assign (localText x t.ordinal) v)).bind fun _ => hf

theorem Decl.lowerLocals_sets (ds : List Decl) (hf : Sets (f (t.insertAll (ds.map (·.name)))) xs) :
    Sets (ds.foldlM Decl.lowerLocal t >>= f) ((ds.flatMap Decl.stored).map (localText · t.ordinal) ++ xs) := by
  induction ds generalizing t with
  | nil => exact hf
  | cons d more ih =>
    rw [List.foldlM_cons, bind_assoc, List.flatMap_cons, List.map_append, List.append_assoc]
    have hmore := ih (t := t.insert d.name) hf
    rw [t.ordinal_insert] at hmore
    exact d.lowerLocal_sets hmore

end Locals

theorem fetchParams_sets (index : Nat) (ps : List Param) :
    Sets (fetchParams t index ps) (ps.map fun q => t.resolve q.name) := by
  induction ps generalizing index with
  | nil => exact .pure ()
  | cons q more ih => exact (Sets.tell (.getparam (t.resolve q.name) index)).bind fun _ => ih _

theorem lowerReturn_sets (result : Option Expr) : Sets (lowerReturn t result) [] := by
  cases result with
  | none => exact .tell (.ret none)
  | some e =>
    have hreturned : Sets (e.lowerReturned t) [] := by
      refine (e.lower_sets t).behind fun v => ?_
      split
      · exact (Emit.atomOf_sets _).behind fun _ => .pure _
      · exact .pure _
    exact hreturned.behind fun v => .tell (.ret (some v))

end Expressions

/-! ### Bodies -/

/-- The names that the code of a body sets, temporaries and flags aside. -/
def Body.sets (b : Body) (ordinal : Nat) : List String :=
  b.stored ordinal ++ (Stmt.targetsOfList b.block.nodes).map (b.table ordinal).resolve

/-- **Bodies.**  The code of a body sets what its declarations store into, and the targets of its assignments. -/
theorem Body.lower_sets (b : Body) {finish : RenameTable → Emit Unit} (hf : ∀ t, Sets (finish t) []) (g : Generator) :
    unreserved (setNames ((b.lower finish).run g).record) = unreserved (b.sets g.names.ordinal) := by
  let k := g.names.ordinal
  have hstmts : Sets (b.block.lower (b.table k) >>= fun _ => finish (b.table k))
      ((Stmt.targetsOfList b.block.nodes).map (b.table k).resolve) := by
    rw [Block.lower]
    exact ((Stmt.lower_sets (b.table k)).2 b.block.nodes).last fun _ => hf _
  have hdecls := Decl.lowerLocals_sets (t := b.paramTable k) (f := fun t => b.block.lower t >>= fun _ => finish t)
    b.decls (by rw [← b.table_eq]; exact hstmts)
  have hparams := Emit.Sets.registerAll b.params (t := .empty k)
    (f := fun t => fetchParams t 1 b.params >>= fun _ => b.decls.foldlM Decl.lowerLocal t >>= fun t' =>
      b.block.lower t' >>= fun _ => finish t')
    ((fetchParams_sets (b.paramTable k) 1 b.params).bind fun _ => hdecls)
  have hall := (Sets.forM (Decl.lowerGlobal_sets (.empty k)) b.constants).bind fun _ => hparams
  rw [b.resolve_params, b.ordinal_paramTable] at hall
  simp only [lower, lowerStart, bind_assoc, sets, stored, List.map_append, List.append_assoc]
  exact hall g

/-! ### Programs -/

/-- The names that the code of bodies sets, when the first one has some ordinal. -/
def Body.setsFrom (ordinal : Nat) (bs : List Body) : List String :=
  (bs.zipIdx ordinal).flatMap fun bi => bi.1.sets bi.2

namespace Program

/-- The names that the code of a program sets, temporaries and flags aside. -/
def sets (p : Program) : List String := Body.setsFrom 1 p.bodies

/-- **Programs.**  The code of a program sets what its declarations store into, and the targets of its
assignments. -/
theorem setNames_code (p : Program) : unreserved (setNames p.code) = unreserved p.sets := by
  refine p.code_along (R := fun code xs => unreserved (setNames code) = unreserved xs) (F := Body.sets) rfl
    (fun hc hd => ?_) (fun f g => ?_) fun g => ?_
  · rw [setNames_append, unreserved_append, unreserved_append, hc, hd]
  · exact f.asBody.lower_sets (fun t => lowerReturn_sets t f.returnValue) g
  · exact p.mainBody.lower_sets (fun _ => .tell (.call exitRoutine 0)) g

end Program

end ThreeAddress
