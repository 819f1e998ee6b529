import ThreeAddress.Proofs.Occurrences
import ThreeAddress.Proofs.TypedCode

/-!
# The code of bodies is typed

* `Body.view` — the names of a body as they are declared;
* `Typing.DeclaresBody`, `Typing.Opens` — what types have to know where the code of a body begins;
* `Body.lower_types`, `Func.lower_types` — the code of bodies and functions in order is typed;
* `Chain.Uniform`, `Body.chains_uniform` — every operand chain of a body in order joins one type.
-/

namespace ThreeAddress

/-! ### The names of a body -/

/-- The type that a declaration gives to its name. -/
def Decl.type : Decl → Ty
  | .var _ type _ | .const _ type _ _ => type

theorem Decl.type?_binding (d : Decl) : d.binding.type? = some d.type := by
  cases d <;> rfl

namespace Body

/-- What the names of a body are bound to. -/
def bindings (b : Body) : List (String × Binding) :=
  (b.params.map fun q => (q.name, .param q.type)) ++ b.decls.map fun d => (d.name, d.binding)

/-- The view behind the parameters of a body. -/
def paramView (b : Body) (v : View) : View :=
  v.enter.declareNames (b.params.map fun q => (q.name, .param q.type))

/-- The view at the beginning of the statements of a body. -/
def view (b : Body) (v : View) : View := v.enter.declareNames b.bindings

theorem locals_paramView (b : Body) (v : View) : (b.paramView v).locals.isSome :=
  (View.declareNames_inside (v := v.enter) rfl _).1

end Body

/-- The variables of the body with an ordinal have their declared types. -/
structure Typing.DeclaresBody (T : Typing) (b : Body) (ordinal : Nat) : Prop where
  params : ∀ q ∈ b.params, T.type? (localText q.name ordinal) = some q.type
  decls : ∀ d ∈ b.decls, T.type? (localText d.name ordinal) = some d.type

theorem Typing.DeclaresBody.grows {T T' : Typing} {b : Body} {k : Nat} (h : T.DeclaresBody b k)
    (hg : T.Grows T') : T'.DeclaresBody b k :=
  ⟨fun q hq => hg.type? (h.params q hq), fun d hd => hg.type? (h.decls d hd)⟩

section Bodies

variable {T : Typing} {v w : View} {t : RenameTable} {g : Generator} {a : Point}

/-- Names are declared in a body, each under its name there. -/
theorem Typing.Knows.declareNames (hk : T.Knows v t) (hv : v.locals.isSome) (new : List (String × Binding))
    (hnew : ∀ xb ∈ new, ∀ type, xb.2.type? = some type → T.type? (localText xb.1 t.ordinal) = some type) :
    T.Knows (v.declareNames new) (t.insertAll (new.map Prod.fst)) := by
  induction new generalizing v t with
  | nil => exact hk
  | cons xb new ih =>
    obtain ⟨hx, hnew⟩ := List.forall_mem_cons.1 hnew
    refine ih (hk.declareLocal hv hx) (View.locals_declare_isSome hv _ _) ?_
    rw [t.ordinal_insert]
    exact hnew

/-! ### Declarations and parameters -/

/-- A global declaration whose name has its type. -/
theorem Typing.Knows.declareOuter (hk : T.Knows v t) (hv : v.locals = none) {d : Decl}
    (hd : T.type? d.name = some d.type) :
    T.Knows (v.declare d.name d.binding) t ∧ (v.declare d.name d.binding).locals = none := by
  refine ⟨hk.declareGlobal hv (fun type hb => ?_) (fun _ _ hb => ?_), by rw [View.declare, hv]⟩
  · rw [d.type?_binding] at hb
    rw [hd, hb]
  · cases d <;> cases hb

/-- A local declaration whose name in the code has its type. -/
theorem Typing.Knows.declareInner (hk : T.Knows v t) (hv : v.locals.isSome) {d : Decl}
    (hd : T.type? (localText d.name t.ordinal) = some d.type) :
    T.Knows (v.declare d.name d.binding) (t.insert d.name) := by
  refine hk.declareLocal hv fun type hb => ?_
  rw [d.type?_binding] at hb
  rw [hd, hb]

/-- The names of declarations in the code are the same behind a declaration of the same body. -/
theorem Typing.declared_insert {ds : List Decl}
    (hT : ∀ d ∈ ds, T.type? (localText d.name t.ordinal) = some d.type) (x : String) :
    ∀ d ∈ ds, T.type? (localText d.name (t.insert x).ordinal) = some d.type := by
  rw [t.ordinal_insert]
  exact hT

theorem Decl.lowerGlobals_types (hk : T.Knows v t) (hv : v.locals = none) (ha : a.passed = [])
    {ds : List Decl} (hds : Decl.AllInOrder v ds) (hp : ∀ d ∈ ds, d.Plain)
    (hT : ∀ d ∈ ds, T.type? d.name = some d.type) :
    Emit.TypesAt (ds.forM (Decl.lowerGlobal t)) g T a fun _ _ => True := by
  induction hds generalizing g T with
  | nil => exact .pure trivial
  | @var v x type s more _ ih =>
    obtain ⟨hd, hT⟩ := List.forall_mem_cons.1 hT
    obtain ⟨hk', hv'⟩ := hk.declareOuter hv hd
    exact ih hk' hv' (List.forall_mem_cons.1 hp).2 hT
  | @const v x type e s more he _ ih =>
    obtain ⟨hd, hT⟩ := List.forall_mem_cons.1 hT
    obtain ⟨hplain, hp⟩ := List.forall_mem_cons.1 hp
    obtain ⟨hk', hv'⟩ := hk.declareOuter hv hd
    refine (Expr.lowerInto_types hk ha he hplain.leaves hd).bind fun T₁ hg _ => ?_
    exact ih (hk'.grows hg) hv' hp fun d hd => hg.type? (hT d hd)

/-- A local constant takes its value. -/
theorem Decl.lowerConst_types (hk : T.Knows v t) (ha : a.passed = []) {x : String} {type : Ty} {e : Expr}
    {s : Span} (he : e.HasType v type) (hp : AllPlain e.leaves)
    (hx : T.type? (localText x t.ordinal) = some type) :
    Emit.TypesAt ((Decl.const x type e s).lowerLocal t) g T a fun t' _ => t' = t.insert x := by
  refine (Expr.lower_types hk ha he hp).bind fun T₁ b hg hr => ?_
  obtain ⟨types, rfl, hr⟩ := hr
  rw [← t.resolve_insert x] at hx
  refine .silent rfl rfl ?_
  exact .tellThen (.assign hr (hg.type? hx)) (.pure ⟨a.passing_nil ha, rfl⟩)

theorem Decl.lowerLocals_types (hk : T.Knows v t) (hv : v.locals.isSome) (ha : a.passed = [])
    {ds : List Decl} (hds : Decl.AllInOrder v ds) (hp : ∀ d ∈ ds, d.Plain)
    (hT : ∀ d ∈ ds, T.type? (localText d.name t.ordinal) = some d.type) :
    Emit.TypesAt (ds.foldlM Decl.lowerLocal t) g T a fun t' _ => t' = t.insertAll (ds.map (·.name)) := by
  induction hds generalizing g T t with
  | nil => exact .pure rfl
  | @var v x type s more _ ih =>
    obtain ⟨hd, hT⟩ := List.forall_mem_cons.1 hT
    have hk' := hk.declareInner hv hd
    exact ih (g := (((Decl.var x type s).lowerLocal t).run g).state) hk' (View.locals_declare_isSome hv _ _)
      (List.forall_mem_cons.1 hp).2 (Typing.declared_insert hT x)
  | @const v x type e s more he _ ih =>
    obtain ⟨hd, hT⟩ := List.forall_mem_cons.1 hT
    obtain ⟨hplain, hp⟩ := List.forall_mem_cons.1 hp
    have hk' := hk.declareInner hv hd
    rw [List.foldlM_cons]
    refine (Decl.lowerConst_types hk ha he hplain.leaves hd).bind fun T₁ hg ht => ?_
    rw [ht]
    have hT' := Typing.declared_insert (fun d hd => hg.type? (hT d hd)) x
    exact ih (hk'.grows hg) (View.locals_declare_isSome hv _ _) hp hT'

/-- The parameters of a routine are fetched in order. -/
theorem fetchParams_types {s : Signature} (ha : a.passed = []) (hs : a.routine = some s) {ps : List Param}
    (hps : s.params.drop a.fetched = ps.map (·.type))
    (hT : ∀ p ∈ ps, T.type? (t.resolve p.name) = some p.type) :
    Emit.Types (fetchParams t (a.fetched + 1) ps) g T a fun _ b _ =>
      b = { a with fetched := a.fetched + ps.length } := by
  induction ps generalizing a with
  | nil => exact .pure rfl
  | cons p more ih =>
    have htype : s.params[a.fetched]? = some p.type := by
      rw [← List.head?_drop, hps]
      rfl
    have hrest : s.params.drop (a.fetched + 1) = more.map (·.type) := by
      rw [← List.tail_drop, hps]
      rfl
    obtain ⟨hp, hT⟩ := List.forall_mem_cons.1 hT
    refine .tellThen (.getparam ha hs htype hp) ?_
    refine (ih (a := { a with fetched := a.fetched + 1 }) ha hs hrest hT).mono fun b _ _ hb => ?_
    rw [hb, List.length_cons, Nat.add_comm more.length, ← Nat.add_assoc]

/-! ### Bodies -/

/-- What types know behind the parameters of a body. -/
theorem Typing.DeclaresBody.knowsParams {b : Body} {k : Nat} (hT : T.DeclaresBody b k)
    (hkv : T.Knows v.enter (.empty k)) : T.Knows (b.paramView v) (b.paramTable k) := by
  have h := hkv.declareNames rfl (b.params.map fun q => (q.name, .param q.type)) fun xb hx type hb => ?_
  · rwa [List.map_map] at h
  · obtain ⟨q, hq, rfl⟩ := List.mem_map.1 hx
    cases hb
    exact hT.params q hq

/-- What types know behind the names of a body. -/
theorem Typing.DeclaresBody.knows {b : Body} {k : Nat} (hT : T.DeclaresBody b k)
    (hkv : T.Knows v.enter (.empty k)) : T.Knows (b.view v) (b.table k) := by
  have h := hkv.declareNames rfl b.bindings fun xb hx type hb => ?_
  · rwa [Body.bindings, List.map_append, List.map_map, List.map_map] at h
  · rcases List.mem_append.1 hx with hx | hx
    · obtain ⟨q, hq, rfl⟩ := List.mem_map.1 hx
      cases hb
      exact hT.params q hq
    · obtain ⟨d, hd, rfl⟩ := List.mem_map.1 hx
      rw [d.type?_binding] at hb
      cases hb
      exact hT.decls d hd

/-- A body is in order in a view: the values of the global constants, the declarations, the statements, and the
returned value. -/
structure Body.InOrder (b : Body) (v : View) : Prop where
  constants : Decl.AllInOrder View.empty b.constants
  decls : Decl.AllInOrder (b.paramView v) b.decls
  block : Stmt.AllInOrder (b.view v) b.block.nodes
  result : ∀ e, b.result = some e → ∃ type, e.HasType ((b.view v).after b.block.nodes) type

/-- What types have to know where the code of a body begins. -/
structure Typing.Opens (T : Typing) (b : Body) (v : View) (ordinal : Nat) : Prop where
  nothing : T.Knows View.empty (.empty ordinal)
  enter : T.Knows v.enter (.empty ordinal)
  constants : ∀ d ∈ b.constants, T.type? d.name = some d.type
  body : T.DeclaresBody b ordinal

theorem Typing.Opens.grows {T' : Typing} {b : Body} {k : Nat} (h : T.Opens b v k) (hg : T.Grows T') :
    T'.Opens b v k :=
  ⟨h.nothing.grows hg, h.enter.grows hg, fun d hd => hg.type? (h.constants d hd), h.body.grows hg⟩

/-- The code of a body up to its statements is typed. -/
theorem Body.lowerStart_types {b : Body} {s : Signature} (hb : b.InOrder v) (hp : b.Plain)
    (hT : T.Opens b v g.names.ordinal) (hs : s.params = b.params.map (·.type)) :
    Emit.Types b.lowerStart g T (.entry s) fun t c _ =>
      t = b.table g.names.ordinal ∧ c = ⟨some s, s.params.length, []⟩ := by
  let k := g.names.ordinal
  have hentry : (Point.entry s).passed = [] := rfl
  have hlength : (Point.entry s).fetched + b.params.length = s.params.length := by
    rw [hs, List.length_map]
    exact Nat.zero_add _
  have hopen : openTable.run g = ⟨.empty k, g, []⟩ := rfl
  refine .silent rfl rfl ?_
  rw [hopen]
  refine (Decl.lowerGlobals_types hT.nothing rfl hentry hb.constants hp.constants hT.constants).bind
    fun T₁ hg _ => ?_
  obtain ⟨hvalue, hnames, hnothing⟩ := Param.run_registers b.params (.empty k)
    ((b.constants.forM (Decl.lowerGlobal (.empty k))).run g).state
  rw [← Body.paramTable] at hvalue
  refine .silent hnothing (congrArg NameSupply.temp hnames) ?_
  rw [hvalue]
  have hresolve : ∀ q ∈ b.params, T₁.type? ((b.paramTable k).resolve q.name) = some q.type := by
    intro q hq
    rw [b.resolve_param k hq]
    exact hg.type? (hT.body.params q hq)
  refine (fetchParams_types hentry rfl (s := s) hs hresolve).bind fun T₂ c hg₂ hc => ?_
  rw [hc, hlength]
  have hT₂ := hT.grows (hg.trans hg₂)
  refine (Decl.lowerLocals_types (a := ⟨some s, s.params.length, []⟩) (hT₂.body.knowsParams hT₂.enter)
    (b.locals_paramView v) rfl hb.decls hp.decls fun d hd => ?_).mono fun b' T₃ _ h => ⟨?_, h.1⟩
  · rw [b.ordinal_paramTable]
    exact hT₂.body.decls d hd
  · rw [h.2, Body.table_eq]

/-- The code of a body is typed if the code behind its statements is. -/
theorem Body.lower_types {b : Body} {s : Signature} {finish : RenameTable → Emit Unit}
    {R : Unit → Point → Typing → Prop} (hb : b.InOrder v) (hp : b.Plain) (hT : T.Opens b v g.names.ordinal)
    (hs : s.params = b.params.map (·.type))
    (hf : ∀ T' g', T.Grows T' → Emit.Types (finish (b.table g.names.ordinal)) g' T'
      ⟨some s, s.params.length, []⟩ R) : Emit.Types (b.lower finish) g T (.entry s) R := by
  refine (Body.lowerStart_types hb hp hT hs).bind fun T₁ c hg h => ?_
  rw [h.1, h.2, Block.lower]
  have hT₁ := hT.grows hg
  exact (Stmt.lowerAll_types (hT₁.body.knows hT₁.enter) rfl hb.block hp.block).bind
    fun T₂ hg₂ _ => hf T₂ _ (hg.trans hg₂)

/-! ### Functions and the main part -/

/-- The code of a returned value is typed, and leads to a right-hand side that makes no call. -/
theorem Expr.lowerReturned_types (hk : T.Knows v t) (ha : a.passed = []) {e : Expr} {type : Ty}
    (he : e.HasType v type) (hp : AllPlain e.leaves) :
    Emit.TypesAt (e.lowerReturned t) g T a fun r T' => T'.Has [] r type := by
  refine (Expr.lower_types hk ha he hp).bind fun T₁ b hg hr => ?_
  split
  · rename_i name count hcall
    rw [hcall] at hr
    exact (atomOf_types ha hr).bind fun T₂ c _ hx => .pure ⟨hx.1, .atom hx.2⟩
  · rename_i hne
    obtain ⟨types, rfl, hr⟩ := hr
    generalize ((e.lower t).run g).value = r at hr hne
    -- nothing but a call takes arguments
    have hnil : types = [] := by
      cases hr with
      | call => exact absurd rfl (hne _ _)
      | atom | arith | logic | order | same | not => rfl
    subst hnil
    exact .pure ⟨a.passing_nil ha, hr⟩

/-- The signature of a function. -/
def Func.signature (f : Func) : Signature := ⟨f.params.map (·.type), f.returnType⟩

theorem lowerReturn_types {f : Func} (hk : T.Knows v t) (hf : f.ReturnInOrder v)
    (hp : ∀ e, f.returnValue = some e → AllPlain e.leaves) (ha : a.passed = [])
    (hs : a.routine = some f.signature) (hn : a.fetched = f.signature.params.length) :
    Emit.TypesAt (lowerReturn t f.returnValue) g T a fun _ _ => True := by
  unfold Func.ReturnInOrder at hf
  cases he : f.returnValue with
  | none =>
    rw [he] at hf
    exact .tell (.retNothing ha hs hn hf) trivial
  | some e =>
    rw [he] at hf
    refine (Expr.lowerReturned_types hk ha hf (hp e he)).bind fun T₁ hg hr => ?_
    exact .tell (.ret hs hn (ha.symm ▸ hr)) ⟨a.passing_nil ha, trivial⟩

theorem Func.InOrder.asBody {f : Func} (hf : f.InOrder v) : f.asBody.InOrder v := by
  have hview : f.asBody.view v = f.bodyView v := (f.bodyView_eq v).symm
  refine ⟨.nil, ?_, hview ▸ hf.body, fun e he => ⟨f.returnType, ?_⟩⟩
  · rw [show f.asBody.paramView v = f.paramView v from (f.paramView_eq v).symm]
    exact hf.decls
  · have hreturned := hf.returned
    rw [Func.ReturnInOrder, show f.returnValue = some e from he] at hreturned
    rw [hview]
    exact hreturned

/-- A function in order, whose names have their types. -/
structure Typing.Admits (T : Typing) (f : Func) (v : View) (ordinal : Nat) : Prop where
  inOrder : f.InOrder v
  plain : f.asBody.Plain
  unreserved : isReservedName f.name = false
  opens : T.Opens f.asBody v ordinal
  routine : T.routine? f.name = some f.signature

/-- **Functions.**  The code of a function in order is typed. -/
theorem Func.lower_types {f : Func} (h : T.Admits f v g.names.ordinal) (ha : a.passed = []) :
    Emit.Types f.lower g T a fun _ b _ => b.passed = [] := by
  have hview : f.asBody.view v = f.bodyView v := (f.bodyView_eq v).symm
  rw [f.lower_eq]
  refine .tellThen (.enter h.unreserved ha h.routine) (.bind (Q := fun _ b _ => b.passed = []) ?_
    fun T₁ b _ hb => ?_)
  · refine Body.lower_types (s := f.signature) h.inOrder.asBody h.plain h.opens rfl fun T₁ g₁ hg => ?_
    have hknows := ((h.opens.grows hg).body.knows (h.opens.grows hg).enter).after f.body.nodes
    rw [hview] at hknows
    exact (lowerReturn_types hknows h.inOrder.returned h.plain.result rfl rfl rfl).mono
      fun c _ _ hc => by rw [hc.1]
  · exact fun hs => ⟨T₁, b, .refl T₁, hs, .nil, hb⟩

/-- Functions in order have typed code, one behind the other. -/
theorem Func.lowerAll_types {fs : List Func}
    (hfs : ∀ (i : Nat) (f : Func), fs[i]? = some f → ∃ v, T.Admits f v (g.names.ordinal + i))
    (ha : a.passed = []) : Emit.Types (fs.forM Func.lower) g T a fun _ b _ => b.passed = [] := by
  induction fs generalizing g T a with
  | nil => exact .pure ha
  | cons f more ih =>
    obtain ⟨v, hf⟩ := hfs 0 f rfl
    refine (Func.lower_types hf ha).bind fun T₁ b hg hb => ih (fun i f' hf' => ?_) hb
    obtain ⟨w, hw⟩ := hfs (i + 1) f' hf'
    refine ⟨w, hw.inOrder, hw.plain, hw.unreserved, ?_, hg.routine? ▸ hw.routine⟩
    rw [Func.ordinal_lower, Nat.add_assoc, Nat.add_comm 1 i]
    exact hw.opens.grows hg

/-! ### Chains -/

/-- An operand as a right-hand side, once its arguments have been passed. -/
def Operand.value (t : RenameTable) : Operand → Rvalue
  | .call c => .call c.name c.args.length
  | .fragment f => f.lower t

/-- All operands of a chain have one type in the code, and all of its operators join that type. -/
def Chain.Uniform (T : Typing) (t : RenameTable) (c : Chain Operator Operand) : Prop :=
  ∃ type, (∃ types, T.Has types (c.head.value t) type) ∧
    ∀ x ∈ c.tail, x.1.Joins type ∧ ∃ types, T.Has types (x.2.value t) type

theorem Operand.value_has (hk : T.Knows v t) {o : Operand} {type : Ty} (ho : o.HasType v type)
    (hp : AllPlain o.leaves) : ∃ types, T.Has types (o.value t) type := by
  cases o with
  | call c =>
    obtain ⟨params, hf, hargs⟩ := ho
    refine ⟨params, ?_⟩
    rw [Operand.value, hargs.length_eq]
    exact .call (s := ⟨params, type⟩) (hk.routines hf)
  | fragment f => exact ⟨[], hk.fragment ho hp⟩

theorem Expr.chain_uniform (hk : T.Knows v t) {e : Expr} {type : Ty} (he : e.HasType v type)
    (hp : AllPlain e.leaves) : e.chain.Uniform T t := by
  have hover := he.over
  rw [Expr.leaves_eq] at hp
  refine ⟨type, Operand.value_has hk hover.head hp.left, fun x hx => ?_⟩
  obtain ⟨hop, ho⟩ := hover.tail x hx
  refine ⟨hop, Operand.value_has hk ho fun a ha => hp.right a ?_⟩
  exact List.mem_flatMap.2 ⟨x, hx, ha⟩

theorem Cond.chains_uniform (hk : T.Knows v t) {c : Cond} (hc : c.InOrder v) (hp : AllPlain c.leaves) :
    ∀ e ∈ c.exprs, e.chain.Uniform T t := by
  have htwo {l r : Expr} (hl : l.chain.Uniform T t) (hr : r.chain.Uniform T t) :
      ∀ e ∈ [l, r], e.chain.Uniform T t := by
    rw [List.forall_mem_cons, List.forall_mem_singleton]
    exact ⟨hl, hr⟩
  induction hc with
  | comparison hl hr => exact htwo (Expr.chain_uniform hk hl hp.left) (Expr.chain_uniform hk hr hp.right)
  | @equality _ _ _ _ y hl hr =>
    obtain ⟨type, hof⟩ := hl.hasType
    exact htwo (Expr.chain_uniform hk ⟨y, hl, hof⟩ hp.left) (Expr.chain_uniform hk ⟨y, hr, hof⟩ hp.right)
  | neg _ ih | paren _ ih => exact ih hp
  | binary _ _ ihl ihr => exact List.forall_mem_append.2 ⟨ihl hp.left, ihr hp.right⟩
  | bool => exact fun e he => absurd he List.not_mem_nil

theorem Stmt.chains_uniform (hk : T.Knows v t) {ss : List Stmt} (hss : Stmt.AllInOrder v ss)
    (hp : AllPlain (Stmt.leavesOfList ss)) : ∀ e ∈ Stmt.exprsOfList ss, e.chain.Uniform T t := by
  induction hss with
  | nil => exact fun e he => absurd he List.not_mem_nil
  | @assign v x e _ _ type more he _ _ ih =>
    have hvalue := Expr.chain_uniform hk he fun y hy => hp.left y (List.mem_cons_of_mem _ hy)
    exact List.forall_mem_cons.2 ⟨hvalue, ih (hk.assign x) hp.right⟩
  | @ite v c th el s more hc _ _ _ iht ihe ih =>
    obtain ⟨hpc, hpt, hpe⟩ := hp.left.ite
    rw [Stmt.exprsOfList, Stmt.exprs, Block.exprs, Block.exprs]
    have hcond := Cond.chains_uniform hk hc hpc
    have hthen := iht hk hpt
    have helse := ihe (hk.after th.nodes) hpe
    exact List.forall_mem_append.2 ⟨List.forall_mem_append.2 ⟨hcond, List.forall_mem_append.2 ⟨hthen, helse⟩⟩,
      ih ((hk.after th.nodes).after el.nodes) hp.right⟩
  | @loop v c b s more hc _ _ ihb ih =>
    obtain ⟨hpc, hpb⟩ := hp.left.loop
    rw [Stmt.exprsOfList, Stmt.exprs, Block.exprs]
    have hcond := Cond.chains_uniform hk hc hpc
    exact List.forall_mem_append.2 ⟨List.forall_mem_append.2 ⟨hcond, ihb hk hpb⟩,
      ih (hk.after b.nodes) hp.right⟩
  | call _ _ ih => exact ih hk hp.right
  | @block v b s more _ _ ihb ih =>
    have hpb := hp.left.block
    rw [Stmt.exprsOfList, Stmt.exprs, Block.exprs]
    exact List.forall_mem_append.2 ⟨ihb hk hpb, ih (hk.after b.nodes) hp.right⟩
  | skip _ ih => exact ih hk hp.right

/-- The values of global constants. -/
theorem Decl.globalChains_uniform (hk : T.Knows v t) (hv : v.locals = none) {ds : List Decl}
    (hds : Decl.AllInOrder v ds) (hp : ∀ d ∈ ds, d.Plain)
    (hT : ∀ d ∈ ds, T.type? d.name = some d.type) :
    ∀ e ∈ ds.flatMap (Decl.collect ([·])), e.chain.Uniform T t := by
  induction hds with
  | nil => exact fun e he => absurd he List.not_mem_nil
  | @var v x type s more _ ih =>
    obtain ⟨hd, hT⟩ := List.forall_mem_cons.1 hT
    obtain ⟨hk', hv'⟩ := hk.declareOuter hv hd
    exact ih hk' hv' (List.forall_mem_cons.1 hp).2 hT
  | @const v x type e s more he _ ih =>
    obtain ⟨hd, hT⟩ := List.forall_mem_cons.1 hT
    obtain ⟨hplain, hp⟩ := List.forall_mem_cons.1 hp
    obtain ⟨hk', hv'⟩ := hk.declareOuter hv hd
    exact List.forall_mem_cons.2 ⟨Expr.chain_uniform hk he hplain.leaves, ih hk' hv' hp hT⟩

/-- The values of local constants. -/
theorem Decl.localChains_uniform (hk : T.Knows v t) (hv : v.locals.isSome) {ds : List Decl}
    (hds : Decl.AllInOrder v ds) (hp : ∀ d ∈ ds, d.Plain)
    (hT : ∀ d ∈ ds, T.type? (localText d.name t.ordinal) = some d.type) :
    ∀ x ∈ Decl.along ([·]) t ds, x.2.chain.Uniform T x.1 := by
  induction hds generalizing t with
  | nil => exact fun x hx => absurd hx List.not_mem_nil
  | @var v x type s more _ ih =>
    obtain ⟨hd, hT⟩ := List.forall_mem_cons.1 hT
    have hk' := hk.declareInner hv hd
    exact ih hk' (View.locals_declare_isSome hv _ _) (List.forall_mem_cons.1 hp).2 (Typing.declared_insert hT x)
  | @const v x type e s more he _ ih =>
    obtain ⟨hd, hT⟩ := List.forall_mem_cons.1 hT
    obtain ⟨hplain, hp⟩ := List.forall_mem_cons.1 hp
    have hk' := hk.declareInner hv hd
    have hmore := ih hk' (View.locals_declare_isSome hv _ _) hp (Typing.declared_insert hT x)
    exact List.forall_mem_cons.2 ⟨Expr.chain_uniform hk he hplain.leaves, hmore⟩

/-- The operand chains of a body in order are uniform, each under the table of its place. -/
theorem Body.chains_uniform {b : Body} {k : Nat} (hb : b.InOrder v) (hp : b.Plain) (hT : T.Opens b v k) :
    ∀ x ∈ b.along ([·]) Stmt.exprsOfList k, x.2.chain.Uniform T x.1 := by
  have hknows := hT.body.knows hT.enter
  have hresult : ∀ e ∈ b.result.toList.flatMap ([·]), e.chain.Uniform T (b.table k) := by
    intro e he
    rw [List.flatMap_singleton', Option.mem_toList] at he
    obtain ⟨type, htype⟩ := hb.result e he
    exact Expr.chain_uniform (hknows.after _) htype (hp.result e he)
  rw [Body.along, List.forall_mem_append, List.forall_mem_append, List.forall_mem_map, List.forall_mem_map,
    List.forall_mem_append]
  refine ⟨Decl.globalChains_uniform hT.nothing rfl hb.constants hp.constants hT.constants, ?_,
    Stmt.chains_uniform hknows hb.block hp.block, hresult⟩
  refine Decl.localChains_uniform (hT.body.knowsParams hT.enter) (b.locals_paramView v) hb.decls hp.decls
    fun d hd => ?_
  rw [b.ordinal_paramTable]
  exact hT.body.decls d hd

end Bodies

end ThreeAddress
