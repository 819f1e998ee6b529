import ThreeAddress.Proofs.StatementRuns

/-!
# Running the code of bodies

The code of a body initialises the global constants, if it is the main part, fetches the parameters,
initialises the local constants, and then runs the statements.

* `Body.Plain` — all names of a body are spelled, and none is one of the supply;
* `Body.lowerStart_arrives` — the machine comes to the statements as the body does;
* `Body.lower_simulates` — the machine comes to the end of a body where the body does, and only there.
-/

namespace ThreeAddress

/-! ### Rename tables -/

namespace RenameTable

variable {t : RenameTable} {scope : List String}

theorem covers_empty (k : Nat) : (RenameTable.empty k).Covers [] := fun _ => rfl

theorem contains_insert (t : RenameTable) (x y : String) :
    (t.insert x).contains y = (t.contains y || y == x) := by
  unfold RenameTable.insert
  split
  · rename_i hx
    cases hy : y == x with
    | false => exact (Bool.or_false _).symm
    | true => rw [beq_iff_eq.1 hy, hx, Bool.true_or]
  · rw [contains, contains, List.contains_append, List.contains_cons, List.contains_nil, Bool.or_false]

theorem Covers.insert (h : t.Covers scope) (x : String) : (t.insert x).Covers (scope ++ [x]) := by
  intro y
  rw [contains_insert, h y, List.contains_append, List.contains_cons, List.contains_nil, Bool.or_false]

theorem ordinal_insert (t : RenameTable) (x : String) : (t.insert x).ordinal = t.ordinal := by
  unfold RenameTable.insert
  split <;> rfl

theorem resolve_of_contains {x : String} (h : t.contains x = true) : t.resolve x = localText x t.ordinal := by
  rw [resolve, if_pos h]

theorem Covers.resolve (h : t.Covers scope) {x : String} (hx : x ∈ scope) :
    t.resolve x = localText x t.ordinal := by
  refine resolve_of_contains ((h x).trans ?_)
  rw [List.contains_iff_mem]
  exact hx

theorem resolve_insert (t : RenameTable) (x : String) : (t.insert x).resolve x = localText x t.ordinal := by
  rw [resolve_of_contains (by rw [contains_insert, BEq.rfl, Bool.or_true]), ordinal_insert]

theorem run_register (t : RenameTable) (x : String) (g : Generator) :
    (t.register x).run g = ⟨t.insert x, { g with locals := g.locals ++ [t.localName x] }, []⟩ := rfl

/-- A table with more names. -/
def insertAll (t : RenameTable) (names : List String) : RenameTable := names.foldl insert t

theorem ordinal_insertAll (t : RenameTable) (names : List String) :
    (t.insertAll names).ordinal = t.ordinal := by
  induction names generalizing t with
  | nil => rfl
  | cons x more ih => exact (ih (t.insert x)).trans (t.ordinal_insert x)

theorem contains_insertAll (t : RenameTable) (names : List String) (x : String) :
    (t.insertAll names).contains x = (t.contains x || names.contains x) := by
  induction names generalizing t with
  | nil => exact (Bool.or_false _).symm
  | cons y more ih =>
    rw [insertAll, List.foldl_cons, ← insertAll, ih, contains_insert, List.contains_cons, Bool.or_assoc]

theorem covers_insertAll (k : Nat) (names : List String) : ((RenameTable.empty k).insertAll names).Covers names := by
  intro x
  rw [contains_insertAll]
  exact Bool.false_or _

end RenameTable

section Start

variable {M : Machine} {t : RenameTable} {scope : List String} {g : Generator} {s : State} {c : Config}

/-! ### Constants -/

/-- A declaration whose names are plain. -/
structure Decl.Plain (d : Decl) : Prop where
  name : isIdentifier d.name = true
  leaves : AllPlain d.leaves

theorem Decl.lowerGlobals_arrives {ds : List Decl} {k : Nat} (hp : ∀ d ∈ ds, d.Plain)
    (hat : M.At s.pc ((ds.forM (Decl.lowerGlobal (.empty k))).run g).record) (hs : Matches k c s) :
    M.Arrives k s (s.pc + ((ds.forM (Decl.lowerGlobal (.empty k))).run g).record.length)
      (Decl.initGlobals M.world ds c) := by
  induction ds generalizing g s c with
  | nil => exact ⟨s, .refl s, rfl, hs⟩
  | cons d more ih =>
    obtain ⟨hd, hmore⟩ := List.forall_mem_cons.1 hp
    cases d with
    | var x type sp => exact ih (g := g) hmore hat hs
    | const x type e sp =>
      have hrecord : (((Decl.const x type e sp :: more).forM (Decl.lowerGlobal (.empty k))).run g).record =
          (((e.lower (.empty k)).run g).record ++ [.assign x ((e.lower (.empty k)).run g).value]) ++
            ((more.forM (Decl.lowerGlobal (.empty k))).run ((e.lower (.empty k)).run g).state).record := rfl
      rw [hrecord, Machine.at_append] at hat
      rw [hrecord, List.length_append, ← Nat.add_assoc]
      have harrives := assign_arrives (k := k) hd.leaves (RenameTable.covers_empty k) hs.mirrors hs.idle hat.1
        fun s₁ s' hk hstore => (hs.mirrors.kept hk).setGlobal hd.name _ hstore
      rw [List.length_append]
      refine harrives.trans fun s₁ hpc₁ hs₁ => ?_
      rw [List.length_append, List.length_singleton, ← hpc₁] at hat
      rw [List.length_singleton, ← hpc₁]
      exact ih hmore hat.2 hs₁

/-- One local declaration. -/
theorem Decl.lowerLocal_arrives {d : Decl} (hp : d.Plain) (hc : t.Covers scope)
    (hat : M.At s.pc ((d.lowerLocal t).run g).record) (hs : Matches t.ordinal c s) :
    ((d.lowerLocal t).run g).value = t.insert d.name ∧
      M.Arrives t.ordinal s (s.pc + ((d.lowerLocal t).run g).record.length)
        (Decl.initLocals M.world scope [d] c) := by
  cases d with
  | var x type sp => exact ⟨rfl, s, .refl s, rfl, hs⟩
  | const x type e sp =>
    refine ⟨rfl, ?_⟩
    have hrecord : (((Decl.const x type e sp).lowerLocal t).run g).record =
        ((e.lower t).run g).record ++ [.assign (localText x t.ordinal) ((e.lower t).run g).value] := by
      rw [← t.resolve_insert x]
      rfl
    rw [hrecord] at hat
    rw [hrecord, List.length_append]
    exact assign_arrives hp.leaves hc hs.mirrors hs.idle hat
      fun s₁ s' hk hstore => (hs.mirrors.kept hk).setLocal x _ hstore

theorem Decl.initLocals_cons (w : World) (scope : List String) (d : Decl) (more : List Decl) (c : Config) :
    Decl.initLocals w scope (d :: more) c =
      Decl.initLocals w (scope ++ [d.name]) more (Decl.initLocals w scope [d] c) := by
  cases d <;> rfl

/-- The local declarations of a body. -/
theorem Decl.lowerLocals_arrives {ds : List Decl} (hp : ∀ d ∈ ds, d.Plain) (hc : t.Covers scope)
    (hat : M.At s.pc ((ds.foldlM Decl.lowerLocal t).run g).record) (hs : Matches t.ordinal c s) :
    (((ds.foldlM Decl.lowerLocal t).run g).value.Covers (scope ++ ds.map (·.name)) ∧
      ((ds.foldlM Decl.lowerLocal t).run g).value.ordinal = t.ordinal) ∧
      M.Arrives t.ordinal s (s.pc + ((ds.foldlM Decl.lowerLocal t).run g).record.length)
        (Decl.initLocals M.world scope ds c) := by
  induction ds generalizing t g s c scope with
  | nil =>
    refine ⟨⟨?_, rfl⟩, s, .refl s, rfl, hs⟩
    rw [List.map_nil, List.append_nil]
    exact hc
  | cons d more ih =>
    obtain ⟨hd, hmore⟩ := List.forall_mem_cons.1 hp
    rw [List.foldlM_cons, Pass.run_bind, Machine.at_append] at hat
    obtain ⟨hvalue, s₁, hr₁, hpc₁, hs₁⟩ := Decl.lowerLocal_arrives hd hc hat.1 hs
    rw [hvalue, ← hpc₁] at hat
    have hordinal := t.ordinal_insert d.name
    obtain ⟨⟨hcover, hsame⟩, harrives⟩ := ih hmore (hc.insert d.name) hat.2 (hordinal.symm ▸ hs₁)
    rw [List.foldlM_cons, Pass.run_bind, hvalue, Decl.initLocals_cons, List.length_append, ← Nat.add_assoc,
      ← hpc₁, List.map_cons]
    rw [hordinal] at hsame harrives
    rw [List.append_assoc] at hcover
    exact ⟨⟨hcover, hsame⟩, harrives.of_reaches hr₁⟩

/-! ### Parameters -/

theorem Param.run_registers (ps : List Param) (t : RenameTable) (g : Generator) :
    let r := (ps.foldlM (fun t p => t.register p.name) t : Emit RenameTable).run g
    r.value = t.insertAll (ps.map (·.name)) ∧ r.state.names = g.names ∧ r.record = [] := by
  induction ps generalizing t g with
  | nil => exact ⟨rfl, rfl, rfl⟩
  | cons p more ih =>
    rw [List.foldlM_cons, Pass.run_bind, RenameTable.run_register]
    exact ih (t.insert p.name) { g with locals := g.locals ++ [t.localName p.name] }

/-- Parameters are fetched from the arguments in order. -/
theorem fetchParams_arrives {ps : List Param} {index : Nat} (hin : ∀ p ∈ ps, p.name ∈ scope)
    (hc : t.Covers scope) (hat : M.At s.pc ((fetchParams t (index + 1) ps).run g).record)
    (hs : Matches t.ordinal c s) :
    M.Arrives t.ordinal s (s.pc + ((fetchParams t (index + 1) ps).run g).record.length)
      ⟨Param.bindAll ps (M.args.drop index) c.memory, c.history⟩ := by
  induction ps generalizing index g s c with
  | nil => exact ⟨s, .refl s, rfl, hs⟩
  | cons p more ih =>
    obtain ⟨hp, hmore⟩ := List.forall_mem_cons.1 hin
    have hresolve := hc.resolve hp
    have hrecord : ((fetchParams t (index + 1) (p :: more)).run g).record =
        .getparam (t.resolve p.name) (index + 1) :: ((fetchParams t (index + 2) more).run g).record := rfl
    rw [hrecord] at hat ⊢
    have hstep := Machine.step_getparam hat.1
    have hargs : M.args.getD (index + 1 - 1) .nothing = (M.args.drop index).headD .nothing := by
      rw [Nat.add_sub_cancel, List.getD_eq_getElem?_getD, List.headD_eq_head?_getD, List.head?_drop]
    have htail : M.args.drop (index + 1) = (M.args.drop index).tail := List.tail_drop.symm
    rw [hargs, hresolve] at hstep
    rw [Param.bindAll, ← htail]
    have hnext : Matches t.ordinal ⟨c.memory.setLocal p.name ((M.args.drop index).headD .nothing), c.history⟩
        (s.set (localText p.name t.ordinal) ((M.args.drop index).headD .nothing)).next :=
      ⟨hs.mirrors.setLocal p.name _ rfl, hs.idle.passed, hs.idle.history⟩
    have harrives := ih hmore hat.2 hnext
    rw [State.next_pc, State.set_pc] at harrives
    rw [List.length_cons, Nat.add_comm _ 1, ← Nat.add_assoc]
    exact harrives.of_reaches (.single hstep)

/-! ### Bodies -/

/-- A body whose names are plain. -/
structure Body.Plain (b : Body) : Prop where
  constants : ∀ d ∈ b.constants, d.Plain
  decls : ∀ d ∈ b.decls, d.Plain
  block : AllPlain (Stmt.leavesOfList b.block.nodes)
  result : ∀ e, b.result = some e → AllPlain e.leaves

/-- The machine comes to the statements of a body as the body does. -/
theorem Body.lowerStart_arrives {b : Body} (hp : b.Plain) (hat : M.At s.pc (b.lowerStart.run g).record)
    (hs : Matches g.names.ordinal c s) :
    ((b.lowerStart.run g).value.Covers b.scope ∧
      (b.lowerStart.run g).value.ordinal = g.names.ordinal) ∧
      M.Arrives g.names.ordinal s (s.pc + (b.lowerStart.run g).record.length)
        (b.start M.world M.args c) := by
  let k := g.names.ordinal
  let globals := (b.constants.forM (Decl.lowerGlobal (.empty k))).run g
  let params := (b.params.foldlM (fun t p => t.register p.name) (.empty k) : Emit RenameTable).run
    globals.state
  let fetched := (fetchParams params.value 1 b.params).run params.state
  let locals := (b.decls.foldlM Decl.lowerLocal params.value).run fetched.state
  obtain ⟨hparams, -, hnothing⟩ := Param.run_registers b.params (.empty k) globals.state
  have hcover : params.value.Covers (b.params.map (·.name)) := by
    rw [show params.value = _ from hparams]
    exact RenameTable.covers_insertAll k _
  have hordinal : params.value.ordinal = k := by
    rw [show params.value = _ from hparams]
    exact RenameTable.ordinal_insertAll _ _
  have hrecord : (b.lowerStart.run g).record = globals.record ++ (fetched.record ++ locals.record) := by
    have hall : (b.lowerStart.run g).record =
        globals.record ++ (params.record ++ (fetched.record ++ locals.record)) := rfl
    rw [hall, show params.record = [] from hnothing, List.nil_append]
  have hvalue : (b.lowerStart.run g).value = locals.value := rfl
  rw [hrecord, Machine.at_append, Machine.at_append] at hat
  rw [hrecord, hvalue, List.length_append, List.length_append, ← Nat.add_assoc, ← Nat.add_assoc]
  obtain ⟨s₁, hr₁, hpc₁, hs₁⟩ := Decl.lowerGlobals_arrives (g := g) hp.constants hat.1 hs
  rw [← hpc₁] at hat ⊢
  have hs₁' : Matches params.value.ordinal (Decl.initGlobals M.world b.constants c) s₁ := by
    rw [hordinal]
    exact hs₁
  obtain ⟨s₂, hr₂, hpc₂, hs₂⟩ := fetchParams_arrives (fun p hp => List.mem_map_of_mem hp) hcover hat.2.1 hs₁'
  rw [show s₁.pc + fetched.record.length = s₂.pc from hpc₂.symm] at hat ⊢
  obtain ⟨⟨hcover', hordinal'⟩, harrives⟩ := Decl.lowerLocals_arrives hp.decls hcover hat.2.2 hs₂
  refine ⟨⟨hcover', hordinal'.trans hordinal⟩, ?_⟩
  rw [hordinal] at harrives
  exact (harrives.of_reaches hr₂).of_reaches hr₁

/-- The machine stands at the end of a body: at its return with the returned value, or at the call that
ends the main part. -/
def Machine.Ends (M : Machine) (s : State) (returned : Option Value) : Prop :=
  match M.code[s.pc]? with
  | some (.ret none) => returned = none
  | some (.ret (some value)) => returned = some (M.eval s value).1
  | some (.call name count) => name = exitRoutine ∧ count = 0 ∧ returned = none
  | _ => False

/-- The code of a returned value comes to a right-hand side that makes no call. -/
theorem Expr.lowerReturned_drives {I : Interpretation Value} {code : List Instruction} {store : String → Value}
    {e : Expr} {s : Moment Value} (hp : AllPlain e.leaves) (hs : t.Sees store s) :
    Emit.Drives (e.lowerReturned t) I code g s fun r s' => (I.eval s' r).1 = (e.meaning I t store s.trace).1 ∧
      s'.passed = s.passed ∧ s'.trace = (e.meaning I t store s.trace).2 := by
  have hlower : Emit.Drives (e.lower t) I code g s fun r s' => I.eval s' r =
      ((e.meaning I t store s.trace).1, { s' with passed := s.passed, trace := (e.meaning I t store s.trace).2 }) :=
    fun hat _ => e.lower_crosses hp hs hat
  refine hlower.bind (e.lower_orderly t) (fun r => ?_) fun s₁ _ heval => ?_
  · split
    · exact (Emit.Orderly.atomOf _).bind fun _ => .pure _
    · exact .pure _
  · split
    · rename_i name count hr
      rw [hr] at heval
      exact (atomOf_drives heval nofun).bind (.atomOf _) (fun _ => .pure _) fun s₂ _ ha =>
        .pure ⟨ha.1.read, ha.2⟩
    · rename_i r hne
      -- without a call nothing but the value comes of the right-hand side
      have hsame : (I.eval s₁ ((e.lower t).run g).value).2 = s₁ := by
        cases hr : ((e.lower t).run g).value with
        | call name count => exact absurd hr (hne name count)
        | atom | binary | not => rfl
      rw [heval] at hsame
      refine .pure ⟨congrArg Prod.fst heval, ?_⟩
      rw [← hsame]
      exact ⟨rfl, rfl⟩

theorem Expr.lowerReturned_leads {e : Expr} {m : Memory} {h : List Event} (hu : M.Unambiguous) (hp : AllPlain e.leaves)
    (hc : t.Covers scope) (hm : Mirrors t.ordinal m s) (hi : Idle s h) :
    Emit.Leads (e.lowerReturned t) M g s fun r s' =>
      (M.eval s' r).1 = (e.eval M.world scope m h).1 ∧ Idle s' (e.eval M.world scope m h).2 := by
  obtain ⟨hpassed, rfl⟩ := hi
  rw [← s.callsOf_moment, e.eval_eq hp hm hc]
  have hs : t.Sees s.store s.moment := fun _ _ _ => rfl
  refine .of_crosses fun hat => ?_
  obtain ⟨s', hcross, heval, hpassed', htrace⟩ := e.lowerReturned_drives hp hs hat (hu.definesOnce _ _)
  refine ⟨s', hcross, ?_, hpassed'.trans hpassed, congrArg callsOf htrace⟩
  rw [M.eval_state]
  exact heval

/-- A body runs through the code behind its statements as the given finish says. -/
def Body.EndsBy (M : Machine) (b : Body) (finish : RenameTable → Emit Unit) : Prop :=
  ∀ (t : RenameTable) (g : Generator) (s : State) (c : Config), t.Covers b.scope →
    M.At s.pc ((finish t).run g).record → Matches t.ordinal c s →
    ∃ s', M.Reaches s s' ∧ s'.pc + 1 = s.pc + ((finish t).run g).record.length ∧
      Matches t.ordinal (b.finish M.world c).1 s' ∧ M.Ends s' (b.finish M.world c).2

/-- What the code of a body ends with: its return, or the call that ends the program. -/
inductive Body.Ending (b : Body) : (RenameTable → Emit Unit) → Prop
  | returns : Ending b (lowerReturn · b.result)
  | exits (h : b.result = none) : Ending b fun _ => Pass.tell (.call exitRoutine 0)

theorem Body.Ending.endsBy {b : Body} {last : RenameTable → Emit Unit} (h : b.Ending last) (hu : M.Unambiguous)
    (hp : b.Plain) : b.EndsBy M last := by
  intro t g s c hc hat hs
  unfold Body.finish
  cases h with
  | exits hnone =>
    rw [hnone]
    refine ⟨s, .refl s, rfl, hs, ?_⟩
    rw [Machine.Ends, show M.code[s.pc]? = some (.call exitRoutine 0) from hat.1]
    exact ⟨rfl, rfl, rfl⟩
  | returns =>
    cases he : b.result with
    | none =>
      rw [he] at hat
      refine ⟨s, .refl s, rfl, hs, ?_⟩
      rw [Machine.Ends, show M.code[s.pc]? = some (.ret none) from hat.1]
    | some e =>
      rw [he] at hat
      have hrecord : ((lowerReturn t (some e)).run g).record =
          ((e.lowerReturned t).run g).record ++ [.ret (some ((e.lowerReturned t).run g).value)] := rfl
      rw [hrecord, Machine.at_append] at hat
      obtain ⟨s', hr, hpc, hk, heval, hi⟩ := e.lowerReturned_leads hu (hp.result e he) hc hs.mirrors hs.idle hat.1
      refine ⟨s', hr, ?_, ⟨hs.mirrors.kept hk, hi⟩, ?_⟩
      · rw [hrecord, List.length_append, ← Nat.add_assoc, ← hpc]
        rfl
      · rw [← hpc] at hat
        rw [Machine.Ends, hat.2.1]
        exact congrArg some heval.symm

/-- From a state the machine does what a body does from a configuration: it comes to the end of the code
where the body comes to its end, with the same variables, calls and returned value; and if the body never
ends, neither does the machine. -/
structure Body.RunsAs (b : Body) (M : Machine) (ordinal finish : Nat) (c : Config) (s : State) : Prop where
  ends : ∀ c' returned, b.Runs M.world M.args c c' returned →
    ∃ s', M.Reaches s s' ∧ s'.pc = finish ∧ Matches ordinal c' s' ∧ M.Ends s' returned
  lasts : (¬∃ c' returned, b.Runs M.world M.args c c' returned) → ∀ n, M.Lasts n s

/-- A body runs as its code does, wherever that stands. -/
theorem Body.lower_simulates {b : Body} {finish : RenameTable → Emit Unit} (hu : M.Unambiguous)
    (hp : b.Plain) (hf : b.EndsBy M finish) (hat : M.At s.pc ((b.lower finish).run g).record)
    (hs : Matches g.names.ordinal c s) :
    b.RunsAs M g.names.ordinal (s.pc + ((b.lower finish).run g).record.length - 1) c s := by
  let start := b.lowerStart.run g
  let inner := (Block.lower start.value b.block).run start.state
  let last := (finish start.value).run inner.state
  have hrecord : ((b.lower finish).run g).record = start.record ++ (inner.record ++ last.record) := rfl
  have hinner : inner.record = ((Stmt.lowerAll start.value b.block.nodes).run start.state).record := by
    show ((Block.lower start.value b.block).run start.state).record = _
    rw [Block.lower]
  rw [hrecord, Machine.at_append, Machine.at_append] at hat
  obtain ⟨⟨hcover, hordinal⟩, s₁, hr₁, hpc₁, hs₁⟩ := Body.lowerStart_arrives hp hat.1 hs
  rw [← hpc₁, hinner] at hat
  rw [← hordinal] at hs₁ ⊢
  constructor
  · rintro c' returned ⟨c₁, hrun, hfinish⟩
    obtain ⟨s₂, hr₂, hpc₂, hs₂⟩ := hrun.arrives hu hcover hp.block hat.2.1 hs₁
    rw [← hpc₂] at hat
    obtain ⟨s₃, hr₃, hpc₃, hs₃, hends⟩ := hf _ _ s₂ c₁ hcover hat.2.2 hs₂
    rw [hfinish] at hs₃ hends
    refine ⟨s₃, hr₁.trans (hr₂.trans hr₃), ?_, hs₃, hends⟩
    rw [hpc₂, hpc₁] at hpc₃
    rw [hrecord, hinner, List.length_append, List.length_append, ← Nat.add_assoc, ← Nat.add_assoc, ← hpc₃]
    exact (Nat.add_sub_cancel _ 1).symm
  · intro hno n
    rcases (Stmt.execOrLasts hu hcover n).2 b.block.nodes _ s₁ _ hp.block hat.2.1 hs₁ with ⟨c₁, hrun⟩ | hlasts
    · exact absurd ⟨_, _, c₁, hrun, rfl⟩ hno
    · exact hlasts.of_reaches hr₁

end Start

end ThreeAddress
