import ThreeAddress.Proofs.CompiledRuns
import ThreeAddress.Proofs.TypedBodies

/-!
# The code of accepted sources is typed

* `Typing.Declares` — the variables and functions of a program have their declared types;
* `Program.lowerToExit` — the code of a program up to the call that ends it;
* `Program.lowerToExit_types` — that code is typed if the program is in order;
* `Program.typing` — types for the names of a program, temporaries aside;
* `Program.SparesExit` — no function with parameters has the name of the routine that ends a program;
* `compile_typed` — the code of an accepted source is typed exactly if that name is spared.
-/

namespace ThreeAddress

open NameSupply (tempName flagName)

/-! ### Programs -/

/-- The variables and functions of a program have their declared types, and flags are boolean. -/
structure Typing.Declares (T : Typing) (p : Program) : Prop where
  globals : ∀ d ∈ p.decls, T.type? d.name = some d.type
  bodies : ∀ (i : Nat) (b : Body), p.bodies[i]? = some b → T.DeclaresBody b (i + 1)
  routines : ∀ f ∈ p.funcs, T.routine? f.name = some f.signature
  flags : ∀ k, T.type? (flagName k) = some .boolean

section Programs

variable {T : Typing} {p : Program} {v : View} {g : Generator} {a : Point}

theorem Typing.Declares.grows {T' : Typing} (h : T.Declares p) (hg : T.Grows T') : T'.Declares p :=
  ⟨fun d hd => hg.type? (h.globals d hd), fun i b hb => (h.bodies i b hb).grows hg,
    fun f hf => hg.routine? ▸ h.routines f hf, fun k => hg.type? (h.flags k)⟩

/-- A function whose name has its signature, and what is known behind it. -/
theorem Typing.Knows.ownView {t : RenameTable} (hk : T.Knows v t) (hv : v.locals = none) {f : Func}
    (hf : T.routine? f.name = some f.signature) :
    T.Knows (f.ownView v) t ∧ (f.ownView v).locals = none := by
  refine ⟨hk.declareGlobal hv (fun _ hb => by cases hb) fun result params hb => ?_, by
    rw [Func.ownView, View.declare, hv]⟩
  cases hb
  exact hf

theorem Typing.Knows.viewAfter {t : RenameTable} (hk : T.Knows v t) (hv : v.locals = none) {f : Func}
    (hf : T.routine? f.name = some f.signature) :
    T.Knows (f.viewAfter v) t ∧ (f.viewAfter v).locals = none := by
  obtain ⟨hown, hnone⟩ := hk.ownView hv hf
  refine ⟨hown.congr ?_ (f.bodyView_after_inside _ _).2, rfl⟩
  rw [View.scope, View.scope, hnone]
  rfl

namespace Typing.Declares

theorem knowsNothing (h : T.Declares p) (k : Nat) : T.Knows View.empty (.empty k) :=
  ⟨fun _ => rfl, fun hx => (by cases hx), fun hx => (by cases hx), fun hf => (by cases hf), h.flags⟩

theorem knowsGlobals (h : T.Declares p) (k : Nat) : T.Knows p.globalView (.empty k) := by
  have hds := h.globals
  have hk := h.knowsNothing k
  have hv : View.empty.locals = none := rfl
  unfold Program.globalView View.declareAll
  generalize View.empty = v at hk hv ⊢
  generalize p.decls = ds at hds ⊢
  induction ds generalizing v with
  | nil => exact hk
  | cons d more ih =>
    obtain ⟨hk', hv'⟩ := hk.declareOuter hv (hds d List.mem_cons_self)
    exact ih _ hk' hv' fun d hd => hds d (List.mem_cons_of_mem _ hd)

/-- All that is declared before a function is known. -/
theorem knowsAt (h : T.Declares p) (i k : Nat) :
    T.Knows (p.viewAt i) (.empty k) ∧ (p.viewAt i).locals = none := by
  have hfs : ∀ f ∈ p.funcs.take i, T.routine? f.name = some f.signature :=
    fun f hf => h.routines f (List.mem_of_mem_take hf)
  have hk := h.knowsGlobals k
  have hv := p.globalView_locals.1
  unfold Program.viewAt
  generalize p.globalView = v at hk hv ⊢
  generalize p.funcs.take i = fs at hfs ⊢
  induction fs generalizing v with
  | nil => exact ⟨hk, hv⟩
  | cons f more ih =>
    obtain ⟨hk', hv'⟩ := hk.viewAfter hv (hfs f List.mem_cons_self)
    exact ih _ hk' hv' fun f hf => hfs f (List.mem_cons_of_mem _ hf)

end Typing.Declares

theorem Typing.Knows.enter {t : RenameTable} (hk : T.Knows v t) (hv : v.locals = none) : T.Knows v.enter t :=
  hk.congr (by rw [View.scope, View.scope, hv]; rfl) rfl

/-- Every function of a program in order is admitted. -/
theorem Program.WellFormed.admits (hw : p.WellFormed) (hs : p.Spelled) (hT : T.Declares p) {i : Nat} {f : Func}
    (hf : p.funcs[i]? = some f) : T.Admits f (f.ownView (p.viewAt i)) (i + 1) := by
  have hmem := List.mem_of_getElem? hf
  have hbody := bodies_func hf
  have hroutine := hT.routines f hmem
  obtain ⟨hk, hv⟩ := hT.knowsAt i (i + 1)
  obtain ⟨hown, hnone⟩ := hk.ownView hv hroutine
  exact ⟨hw.func hf, bodies_plain hs hw hbody,
    hw.names.unreserved _ (List.mem_append_right _ (List.mem_map_of_mem hmem)),
    ⟨hT.knowsNothing _, hown.enter hnone, fun d hd => absurd hd List.not_mem_nil, hT.bodies i _ hbody⟩, hroutine⟩

/-- So is the main part. -/
theorem Program.WellFormed.opensMain (hw : p.WellFormed) (hT : T.Declares p) :
    p.mainBody.InOrder p.mainView ∧ T.Opens p.mainBody p.mainView (p.funcs.length + 1) := by
  have hview : p.mainBody.view p.mainView = p.mainView.enter.declareAll p.main.decls := by
    rw [View.declareAll_eq]
    rfl
  obtain ⟨hk, hv⟩ := hT.knowsAt p.funcs.length (p.funcs.length + 1)
  rw [p.viewAt_length] at hk hv
  exact ⟨⟨hw.decls, hw.mainDecls, hview ▸ hw.mainBody, fun e he => by cases he⟩, hT.knowsNothing _, hk.enter hv,
    hT.globals, hT.bodies _ _ p.bodies_length⟩

/-- The operand chains of a program are uniform, each under the table of its place. -/
def Program.ChainsUniform (p : Program) (T : Typing) : Prop :=
  ∀ (i : Nat) (b : Body), p.bodies[i]? = some b →
    ∀ x ∈ b.along ([·]) Stmt.exprsOfList (i + 1), x.2.chain.Uniform T x.1

/-- **Uniform chains.** -/
theorem Program.WellFormed.chainsUniform (hw : p.WellFormed) (hs : p.Spelled) (hT : T.Declares p) :
    p.ChainsUniform T := by
  intro i b hb
  have hplain := bodies_plain hs hw hb
  rcases Program.getElem?_bodies hb with ⟨f, hf, rfl⟩ | ⟨rfl, rfl⟩
  · have h := hw.admits hs hT hf
    exact Body.chains_uniform h.inOrder.asBody hplain h.opens
  · obtain ⟨hbody, hopens⟩ := hw.opensMain hT
    exact Body.chains_uniform hbody hplain hopens

namespace Program

/-- The code of a program up to the call that ends it. -/
def lowerToExit (p : Program) : Emit Unit := do
  p.funcs.forM Func.lower
  Pass.tell (.label "main")
  p.mainBody.lower fun _ => return

theorem code_eq_toExit (p : Program) :
    p.code = (p.lowerToExit.run .first).record ++ [.call exitRoutine 0] := by
  have hmain (g : Generator) : (p.lowerMainWithin.run g).record =
      ((p.mainBody.lower fun _ => return).run g).record ++ [.call exitRoutine 0] := by
    simp [lowerMainWithin, Body.lower]
  rw [p.code_eq, hmain]
  simp [lowerToExit, Func.codeOf, Generator.behind]

/-- **Programs.**  Up to the call that ends it, the code of a program in order is typed with any types that
its declarations allow. -/
theorem lowerToExit_types (hw : p.WellFormed) (hs : p.Spelled) (hT : T.Declares p)
    (hmain : T.routine? "main" = some ⟨[], .void⟩) :
    Emit.Types p.lowerToExit .first T .first fun _ b _ => b.passed = [] := by
  have hfuncs : Emit.Types (p.funcs.forM Func.lower) .first T .first fun _ b _ => b.passed = [] :=
    Func.lowerAll_types (fun i f hf => ⟨_, Nat.add_comm i 1 ▸ hw.admits hs hT hf⟩) rfl
  refine hfuncs.bind fun T₁ b hg hb => .tellThen (.enter (by decide) hb (hg.routine? ▸ hmain)) ?_
  obtain ⟨hbody, hopens⟩ := hw.opensMain (hT.grows hg)
  have hordinal : (Generator.first.behind p.funcs).names.ordinal = p.funcs.length + 1 :=
    (Generator.ordinal_behind _ _).trans (Nat.add_comm _ _)
  rw [← hordinal] at hopens
  exact Body.lower_types (g := Generator.first.behind p.funcs) hbody (bodies_plain hs hw p.bodies_length) hopens
    rfl fun T₂ g₂ _ => .pure rfl

end Program

/-! ### The types of a program -/

/-- The variables of a body with their types. -/
def Body.vars (b : Body) : List (String × Ty) :=
  (b.params.map fun q => (q.name, q.type)) ++ b.decls.map fun d => (d.name, d.type)

theorem Body.map_fst_vars (b : Body) : b.vars.map Prod.fst = b.scope := by
  rw [vars, scope, List.map_append, List.map_map, List.map_map]
  rfl

namespace Program

/-- The variables of a program with their types, under the names that the code has for them. -/
def vars (p : Program) : List (String × Ty) :=
  (p.decls.map fun d => (d.name, d.type)) ++
    p.bodies.zipIdx.flatMap fun bi => bi.1.vars.map fun x => (localText x.1 (bi.2 + 1), x.2)

/-- The types that a program declares: those of its vars, and boolean for flags.  Routines outside of the
program take nothing and give nothing. -/
def typing (p : Program) : Typing where
  type? x :=
    if isReservedName x then if x.toList.head? = some 'c' then some .boolean else none
    else p.vars.lookup x
  routine? f :=
    match p.function? f with
    | some f => some f.signature
    | none => some ⟨[], .void⟩

theorem mem_vars {p : Program} {x : String} {type : Ty} : (x, type) ∈ p.vars ↔
    (∃ d ∈ p.decls, x = d.name ∧ type = d.type) ∨
      ∃ i b y, p.bodies[i]? = some b ∧ (y, type) ∈ b.vars ∧ x = localText y (i + 1) := by
  rw [vars, List.mem_append, List.mem_map, List.mem_flatMap]
  refine or_congr ?_ ?_
  · constructor
    · rintro ⟨d, hd, hx⟩
      cases hx
      exact ⟨d, hd, rfl, rfl⟩
    · rintro ⟨d, hd, rfl, rfl⟩
      exact ⟨d, hd, rfl⟩
  · constructor
    · rintro ⟨⟨b, i⟩, hb, hx⟩
      obtain ⟨⟨y, type'⟩, hy, hx⟩ := List.mem_map.1 hx
      cases hx
      exact ⟨i, b, y, List.mk_mem_zipIdx_iff_getElem?.1 hb, hy, rfl⟩
    · rintro ⟨i, b, y, hb, hy, rfl⟩
      exact ⟨(b, i), List.mk_mem_zipIdx_iff_getElem?.2 hb, List.mem_map.2 ⟨(y, type), hy, rfl⟩⟩

/-- In a list without two entries for one key, the keys tell the values. -/
theorem unique_of_nodup {α β : Type} {l : List (α × β)} (h : (l.map Prod.fst).Nodup) {x : α} {a b : β}
    (ha : (x, a) ∈ l) (hb : (x, b) ∈ l) : a = b :=
  congrArg Prod.snd (List.inj_on_of_nodup_map h ha hb rfl)

theorem lookup_of_unique {β : Type} {l : List (String × β)} {x : String} {b : β} (h : (x, b) ∈ l)
    (hu : ∀ b', (x, b') ∈ l → b' = b) : l.lookup x = some b := by
  cases hl : l.lookup x with
  | none =>
    rw [List.lookup_eq_none_iff] at hl
    exact absurd (hl _ h) (by simp)
  | some b' =>
    obtain ⟨l₁, l₂, rfl, -⟩ := List.lookup_eq_some_iff.1 hl
    rw [hu b' (List.mem_append_right _ List.mem_cons_self)]

variable {p : Program}

/-- The names of every body are proper. -/
theorem WellFormed.bodyNames (hw : p.WellFormed) {i : Nat} {b : Body} (hb : p.bodies[i]? = some b) :
    ProperNames b.scope := by
  rcases List.mem_append.1 (List.mem_of_getElem? hb) with hb | hb
  · obtain ⟨f, hf, rfl⟩ := List.mem_map.1 hb
    obtain ⟨j, hj⟩ := List.getElem?_of_mem hf
    exact (hw.func hj).names
  · rw [List.mem_singleton.1 hb]
    exact hw.mainNames

/-- No variable of a program in order has two types. -/
theorem WellFormed.vars_unique (hw : p.WellFormed) (hs : p.Spelled) {x : String} {type type' : Ty}
    (h : (x, type) ∈ p.vars) (h' : (x, type') ∈ p.vars) : type' = type := by
  have hglobals : ((p.decls.map fun d => (d.name, d.type)).map Prod.fst).Nodup := by
    rw [List.map_map]
    exact (List.nodup_append.1 hw.names.distinct).1
  rcases mem_vars.1 h with ⟨d, hd, rfl, rfl⟩ | ⟨i, b, y, hb, hy, rfl⟩
  · rcases mem_vars.1 h' with ⟨d', hd', hname, rfl⟩ | ⟨i, b, y, -, -, hname⟩
    · exact unique_of_nodup hglobals (x := d.name) (hname ▸ List.mem_map.2 ⟨d', hd', rfl⟩)
        (List.mem_map.2 ⟨d, hd, rfl⟩)
    · exact absurd hname (localText_ne_of_isIdentifier (hs.decls d hd).name _)
  · rcases mem_vars.1 h' with ⟨d', hd', hname, rfl⟩ | ⟨i', b', y', hb', hy', hname⟩
    · exact absurd hname.symm (localText_ne_of_isIdentifier (hs.decls d' hd').name _)
    · obtain ⟨rfl, hi⟩ := localText_inj hname
      cases Nat.succ.inj hi
      cases hb.symm.trans hb'
      have hnames := (hw.bodyNames hb).distinct
      rw [← b.map_fst_vars] at hnames
      exact unique_of_nodup hnames hy' hy

theorem typing_variable (hw : p.WellFormed) (hs : p.Spelled) {x : String} {type : Ty}
    (hx : (x, type) ∈ p.vars) (hr : isReservedName x = false) : p.typing.type? x = some type := by
  rw [typing]
  dsimp only
  rw [hr]
  exact lookup_of_unique hx fun _ h => hw.vars_unique hs hx h

theorem typing_declares (hw : p.WellFormed) (hs : p.Spelled) : p.typing.Declares p := by
  refine ⟨fun d hd => ?_, fun i b hb => ⟨fun q hq => ?_, fun d hd => ?_⟩, fun f hf => ?_, fun k => ?_⟩
  · refine typing_variable hw hs (mem_vars.2 (.inl ⟨d, hd, rfl, rfl⟩)) ?_
    exact hw.names.unreserved _ (List.mem_append_left _ (List.mem_map_of_mem hd))
  · refine typing_variable hw hs (mem_vars.2 (.inr ⟨i, b, _, hb, ?_, rfl⟩)) (isReservedName_localText _ _)
    exact List.mem_append_left _ (List.mem_map.2 ⟨q, hq, rfl⟩)
  · refine typing_variable hw hs (mem_vars.2 (.inr ⟨i, b, _, hb, ?_, rfl⟩)) (isReservedName_localText _ _)
    exact List.mem_append_right _ (List.mem_map.2 ⟨d, hd, rfl⟩)
  · have hnames : (p.funcs.map (·.name)).Nodup := (List.nodup_append.1 hw.names.distinct).2.1
    have hfound : p.function? f.name = some f := by
      cases hfind : p.function? f.name with
      | none => exact absurd BEq.rfl (List.find?_eq_none.1 hfind f hf)
      | some f' =>
        have hname : f'.name = f.name := by
          unfold function? at hfind
          simpa using List.find?_some hfind
        rw [List.inj_on_of_nodup_map hnames (List.mem_of_find?_eq_some hfind) hf hname]
    rw [typing]
    dsimp only
    rw [hfound]
  · rw [typing]
    dsimp only
    rw [isReservedName_flagName, if_pos rfl, NameSupply.flagName_toList]
    rfl

/-- Only what is declared, flags aside, has a declared type. -/
theorem mem_vars_of_typing {x : String} {type : Ty} (h : p.typing.type? x = some type)
    (hr : isReservedName x = false) : (x, type) ∈ p.vars := by
  rw [typing] at h
  dsimp only at h
  rw [hr] at h
  obtain ⟨l₁, l₂, hl, -⟩ := List.lookup_eq_some_iff.1 (show p.vars.lookup x = some type from h)
  rw [hl]
  exact List.mem_append_right _ List.mem_cons_self

/-- Temporaries have no declared types. -/
theorem typing_spares (p : Program) (n : NameSupply) : p.typing.Spares n := by
  intro k _
  rw [typing]
  dsimp only
  rw [isReservedName_tempName, if_pos rfl, NameSupply.tempName_toList]
  rfl

theorem typing_main (hs : p.Spelled) : p.typing.routine? "main" = some ⟨[], .void⟩ := by
  have hnone : p.function? "main" = none := by
    refine List.find?_eq_none.2 fun f hf hname => ?_
    have hid := (hs.funcs f hf).name
    rw [beq_iff_eq.1 hname] at hid
    exact absurd hid (by decide)
  rw [typing]
  dsimp only
  rw [hnone]

/-- **Typed programs.**  Up to the call that ends it, the code of a program in order is typed, and beside
the program's own variables only names of the supply have types. -/
theorem WellFormed.typed (hw : p.WellFormed) (hs : p.Spelled) : ∃ T a, p.typing.Grows T ∧
    T.Checks .first (p.lowerToExit.run .first).record a ∧ a.passed = [] := by
  obtain ⟨T, a, hg, -, hc, ha⟩ :=
    lowerToExit_types hw hs (typing_declares hw hs) (typing_main hs) (p.typing_spares _)
  exact ⟨T, a, hg, hc, ha⟩

end Program

/-! ### The call that ends a program -/

theorem Typing.Has.call_inv {f : String} {n : Nat} {types : List Ty} {type : Ty}
    (h : T.Has types (.call f n) type) :
    ∃ s, T.routine? f = some s ∧ n = s.params.length ∧ type = s.result := by
  cases h with
  | @call f s hs => exact ⟨s, hs, rfl, rfl⟩

/-- A call in typed code passes as many arguments as its routine has parameters. -/
theorem Typing.Checks.call_inv {b : Point} (before : List Instruction) {f : String} {n : Nat}
    (h : T.Checks a (before ++ [.call f n]) b) : ∃ s, T.routine? f = some s ∧ n = s.params.length := by
  obtain ⟨c, -, hc⟩ := h.split
  cases hc with
  | cons hi _ =>
    cases hi with
    | call hr =>
      obtain ⟨s, hs, hn, -⟩ := hr.call_inv
      exact ⟨s, hs, hn⟩

/-- A routine in typed code that fetches a parameter has one. -/
theorem Typing.Checks.getparam_inv {b : Point} (before : List Instruction) {behind : List Instruction}
    {f x : String} {i : Nat}
    (h : T.Checks a (before ++ .label f :: .getparam x i :: behind) b) (hf : isReservedName f = false) :
    ∃ s, T.routine? f = some s ∧ s.params ≠ [] := by
  obtain ⟨c, -, hc⟩ := h.split
  cases hc with
  | cons hi hc =>
    cases hi with
    | label hn => rw [hn] at hf; cases hf
    | @enter _ s _ _ hs =>
      refine ⟨s, hs, fun hnil => ?_⟩
      cases hc with
      | cons hi _ =>
        cases hi with
        | getparam _ hr ht _ =>
          cases hr
          rw [hnil] at ht
          cases ht

/-- No function with parameters has the name of the routine that ends a program. -/
def Program.SparesExit (p : Program) : Prop := ∀ f ∈ p.funcs, f.name = exitRoutine → f.params = []

/-- The code of a function with parameters begins with its label and fetches the first one. -/
theorem Func.record_lower (f : Func) (g : Generator) (hf : f.params ≠ []) :
    ∃ x rest, (f.lower.run g).record = .label f.name :: .getparam x 1 :: rest := by
  let params := (f.params.foldlM (fun t p => t.register p.name) (.empty g.names.ordinal) : Emit RenameTable).run g
  let fetched := (fetchParams params.value 1 f.params).run params.state
  obtain ⟨-, -, hnothing⟩ := Param.run_registers f.params (.empty g.names.ordinal) g
  have hwithin : ∃ locals rest, (f.lowerWithin.run g).record =
      (params.record ++ (fetched.record ++ locals)) ++ rest := ⟨_, _, rfl⟩
  have hfetched : ∃ x rest, fetched.record = .getparam x 1 :: rest := by
    obtain ⟨q, more, hq⟩ := List.exists_cons_of_ne_nil hf
    show ∃ x rest, ((fetchParams params.value 1 f.params).run params.state).record = _
    rw [hq]
    exact ⟨_, _, rfl⟩
  obtain ⟨locals, rest, hrecord⟩ := hwithin
  obtain ⟨x, more, hmore⟩ := hfetched
  refine ⟨x, more ++ locals ++ rest, ?_⟩
  rw [f.run_lower, hrecord, show params.record = [] from hnothing, hmore]
  rfl

/-- Where the code of a function stands. -/
theorem Program.code_at_func {f : Func} (hf : f ∈ p.funcs) :
    ∃ before g behind, p.code = before ++ (f.lower.run g).record ++ behind := by
  obtain ⟨fs, more, hsplit⟩ := List.append_of_mem hf
  have hcode : ∃ behind, p.code = Func.codeOf (fs ++ f :: more) .first ++ behind :=
    ⟨_, hsplit ▸ p.code_eq⟩
  obtain ⟨behind, hcode⟩ := hcode
  refine ⟨Func.codeOf fs .first, Generator.first.behind fs,
    Func.codeOf more (f.lower.run (Generator.first.behind fs)).state ++ behind, ?_⟩
  simp only [hcode, Func.codeOf_append, Func.codeOf_cons, List.append_assoc]

/-- Only where the name of the ending routine is spared can the code of a program be typed at all. -/
theorem Typing.Accepts.sparesExit (h : T.Accepts p.code) : p.SparesExit := by
  intro f hf hname
  obtain ⟨b, hc, -⟩ := h
  by_contra hparams
  obtain ⟨before, g, behind, hcode⟩ := p.code_at_func hf
  obtain ⟨x, rest, hrecord⟩ := f.record_lower g hparams
  rw [hrecord, hname, List.append_assoc] at hcode
  obtain ⟨s, hs, hne⟩ := Typing.Checks.getparam_inv before (hcode ▸ hc) (by decide)
  obtain ⟨s', hs', hlength⟩ := Typing.Checks.call_inv _ (p.code_eq_toExit ▸ hc)
  cases hs.symm.trans hs'
  exact hne (List.length_eq_zero_iff.1 hlength.symm)

end Programs

/-! ### Accepted sources -/

/-- A source whose code cannot be typed: it declares a routine of its own with the name of the one that ends
every program. -/
def exitingSource : String := "void _exit(x: integer) \x7b return (); \x7d main \x7b \x7d"

/-- The code of that source. -/
def exitingCode : List Instruction :=
  [.label "_exit", .getparam "x.1" 1, .ret none, .label "main", .call "_exit" 0]

/-- **Compiled programs are typed.**  For an accepted source there are types for the names in its code: those
that are declared, boolean for flags, and some for temporaries.  With these types every operand chain is uniform
and, if no function with parameters has the name of the routine that ends a program, the code is in order.  If
there is such a function, no types at all make it so. -/
theorem compile_typed {source : String} {compiled : Compiled} (h : compile source = .ok compiled) :
    ∃ p T, Program.ofSource source = .ok p ∧ T.Declares p ∧ p.ChainsUniform T ∧
      (p.SparesExit → T.Accepts compiled.code) ∧ ((∃ T' : Typing, T'.Accepts compiled.code) → p.SparesExit) := by
  obtain ⟨p, hp, hclean, hcode⟩ := compile_eq_ok h
  have hw := Program.WellFormed.of_clean hclean
  have hs := ofSource_spelled hp
  obtain ⟨T, a, hg, hc, ha⟩ := hw.typed hs
  have hT := (Program.typing_declares hw hs).grows hg
  rw [hcode]
  refine ⟨p, T, hp, hT, hw.chainsUniform hs hT, fun hexit => ?_, fun ⟨T', h'⟩ => h'.sparesExit⟩
  -- whether it is a function of the program or not, the ending routine takes nothing
  have hroutine : ∃ result, T.routine? exitRoutine = some ⟨[], result⟩ := by
    rw [hg.routine?, Program.typing]
    dsimp only
    cases hf : p.function? exitRoutine with
    | none => exact ⟨.void, rfl⟩
    | some f =>
      unfold Program.function? at hf
      have hname : f.name = exitRoutine := by simpa using List.find?_some hf
      have hparams := hexit f (List.mem_of_find?_eq_some hf) hname
      refine ⟨f.returnType, ?_⟩
      show some (Signature.mk (f.params.map (·.type)) f.returnType) = _
      rw [hparams]
      rfl
  obtain ⟨result, hroutine⟩ := hroutine
  have hcall : T.Has a.passed (.call exitRoutine 0) result := by
    rw [ha]
    exact .call hroutine
  rw [p.code_eq_toExit]
  exact ⟨a.passing [], hc.append (.single (.call hcall)), rfl⟩

theorem compile_typed_loopingSource : compile loopingSource = .ok ⟨loopingCode, []⟩ ∧
    ∃ p T, Program.ofSource loopingSource = .ok p ∧ T.Declares p ∧ p.ChainsUniform T ∧
      (p.SparesExit → T.Accepts loopingCode) ∧ ((∃ T' : Typing, T'.Accepts loopingCode) → p.SparesExit) :=
  ⟨compile_loopingSource, compile_typed compile_loopingSource⟩

/-- The source with a routine of its own for the end is accepted, and no types make its code in order. -/
theorem compile_exitingSource_untyped : (compile exitingSource).toOption.map (·.code) = some exitingCode ∧
    ¬∃ T : Typing, T.Accepts exitingCode := by
  refine ⟨by decide +kernel, ?_⟩
  rintro ⟨T, b, hc, -⟩
  obtain ⟨s, hs, hne⟩ := Typing.Checks.getparam_inv [] hc (by decide)
  obtain ⟨s', hs', hlength⟩ := Typing.Checks.call_inv
    [.label "_exit", .getparam "x.1" 1, .ret none, .label "main"] hc
  cases hs.symm.trans hs'
  exact hne (List.length_eq_zero_iff.1 hlength.symm)

end ThreeAddress
