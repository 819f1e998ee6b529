import ThreeAddress.Proofs.LocalNames
import ThreeAddress.Proofs.SetNames

/-!
# Constants are set once

Nothing but its declaration sets a constant: an assignment to a constant is not in order, and no other declaration
makes the same name.  The declarations of global constants are lowered with the main part only.

* `Stmt.AllInOrder.targets` — the targets of statements in order are variables and parameters;
* `Body.count_setsFrom` — how often the code of bodies sets a name that only one of them sets;
* `Program.WellFormed.global_once`, `Program.WellFormed.local_once` — global and local constants are set once;
* `Program.WellFormed.constant_before` — a local constant is set in front of the places that read it.
-/

namespace ThreeAddress

/-! ### Targets -/

theorem View.Writable.congr {v w : View} (h : ∀ x, w.find? x = v.find? x) {x : String} {type : Ty}
    (hx : w.Writable x type) : v.Writable x type := by
  cases hx with
  | param hf => exact .param ((h x).symm.trans hf)
  | var hf => exact .var ((h x).symm.trans hf)

/-- A target of statements in order is an identifier, and a variable or a parameter. -/
theorem Stmt.AllInOrder.targets {v : View} {ss : List Stmt} (h : Stmt.AllInOrder v ss)
    (hp : AllPlain (Stmt.leavesOfList ss)) :
    ∀ z ∈ Stmt.targetsOfList ss, isIdentifier z = true ∧ ∃ type, v.Writable z type := by
  -- an assignment leaves all names with their meanings
  have hback {v w : View} (hw : ∀ x, w.find? x = v.find? x) {zs : List String}
      (h : ∀ z ∈ zs, isIdentifier z = true ∧ ∃ type, w.Writable z type) :
      ∀ z ∈ zs, isIdentifier z = true ∧ ∃ type, v.Writable z type :=
    fun z hz => ⟨(h z hz).1, (h z hz).2.imp fun _ h => h.congr hw⟩
  induction h with
  | nil => exact fun z hz => absurd hz List.not_mem_nil
  | @assign v x e a s type more he hx _ ih =>
    have hplain : (Atom.name x).Plain := hp.left _ List.mem_cons_self
    exact List.forall_mem_cons.2 ⟨⟨hplain.1, type, hx⟩, hback (v.find?_assign x) (ih hp.right)⟩
  | @ite v c th el s more hc _ _ _ iht ihe ih =>
    obtain ⟨-, hpt, hpe⟩ := hp.left.ite
    have helse := hback (v.find?_after th.nodes) (ihe hpe)
    have hmore := hback (fun x => (View.find?_after _ el.nodes x).trans (v.find?_after th.nodes x)) (ih hp.right)
    rw [Stmt.targetsOfList, Stmt.targets, Block.targets, Block.targets]
    exact List.forall_mem_append.2 ⟨List.forall_mem_append.2 ⟨iht hpt, helse⟩, hmore⟩
  | @loop v c b s more hc _ _ ihb ih =>
    rw [Stmt.targetsOfList, Stmt.targets, Block.targets]
    exact List.forall_mem_append.2 ⟨ihb hp.left.loop.2, hback (v.find?_after b.nodes) (ih hp.right)⟩
  | call _ _ ih => exact ih hp.right
  | @block v b s more _ _ ihb ih =>
    rw [Stmt.targetsOfList, Stmt.targets, Block.targets]
    exact List.forall_mem_append.2 ⟨ihb hp.left.block, hback (v.find?_after b.nodes) (ih hp.right)⟩
  | skip _ ih => exact ih hp.right

/-- In a view, a name means a constant. -/
def View.Constant (v : View) (x : String) : Prop := ∃ place type, v.find? x = some (place, .const type)

/-- No constant is a target. -/
theorem View.Constant.not_target {v : View} {ss : List Stmt} {x : String} (hx : v.Constant x)
    (h : Stmt.AllInOrder v ss) (hp : AllPlain (Stmt.leavesOfList ss)) : x ∉ Stmt.targetsOfList ss := by
  intro hmem
  obtain ⟨place, type, hconst⟩ := hx
  obtain ⟨-, type', hwrite⟩ := h.targets hp x hmem
  cases hwrite with
  | param hf | var hf =>
    rw [hconst] at hf
    cases hf

/-! ### The constants of a body -/

theorem Decl.stored_eq (ds : List Decl) : ds.flatMap Decl.stored = (ds.filter Decl.isConst).map (·.name) := by
  induction ds with
  | nil => rfl
  | cons d more ih =>
    cases d with
    | var x type s => exact ih
    | const x type e s => exact congrArg (x :: ·) ih

theorem Decl.mem_stored_of_isConst {d : Decl} {ds : List Decl} (hd : d ∈ ds) (hc : d.isConst = true) :
    d.name ∈ ds.flatMap Decl.stored := by
  rw [Decl.stored_eq]
  exact List.mem_map_of_mem (List.mem_filter.2 ⟨hd, hc⟩)

/-- The names of constants are among those of all declarations. -/
theorem Decl.stored_sublist (ds : List Decl) : (ds.flatMap Decl.stored).Sublist (ds.map (·.name)) := by
  rw [Decl.stored_eq]
  exact List.filter_sublist.map _

theorem Decl.binding_of_isConst {d : Decl} (hc : d.isConst = true) : ∃ type, d.binding = .const type := by
  cases d with
  | var => cases hc
  | const x type e s => exact ⟨type, rfl⟩

section Bodies

variable {T : Typing} {v : View} {b : Body} {x : String} {k n : Nat}

/-- A declared name has its binding behind all declarations of its body. -/
theorem Body.lookup_view (hnames : b.scope.Nodup) {d : Decl} (hd : d ∈ b.decls) :
    ((b.view v).scope .inner).lookup d.name = some d.binding := by
  have hscope : (b.view v).scope .inner = b.bindings.reverse := by
    obtain ⟨bs, hbs⟩ := Option.isSome_iff_exists.1 (View.declareNames_inside (v := v.enter) rfl b.bindings).1
    have hhere := v.enter.here_declareNames b.bindings
    rw [View.here, hbs] at hhere
    rw [View.scope, Body.view, hbs]
    exact hhere.trans (List.append_nil _)
  have hkeys : (b.bindings.map Prod.fst).Nodup := by
    rw [bindings, List.map_append, List.map_map, List.map_map]
    exact hnames
  have hmem : (d.name, d.binding) ∈ b.bindings := List.mem_append_right _ (List.mem_map.2 ⟨d, hd, rfl⟩)
  rw [hscope]
  exact Program.lookup_of_unique (List.mem_reverse.2 hmem) fun b' hb' =>
    Program.unique_of_nodup hkeys (List.mem_reverse.1 hb') hmem

/-- A local constant is no target in its body. -/
theorem Body.InOrder.local_not_target (hb : b.InOrder v) (hp : b.Plain) (hnames : b.scope.Nodup) {d : Decl}
    (hd : d ∈ b.decls) (hc : d.isConst = true) :
    localText d.name k ∉ (Stmt.targetsOfList b.block.nodes).map (b.table k).resolve := by
  intro hmem
  obtain ⟨z, hz, hresolve⟩ := List.mem_map.1 hmem
  obtain ⟨type, hbinding⟩ := Decl.binding_of_isConst hc
  have hconst : (b.view v).Constant d.name :=
    ⟨.inner, type, by rw [View.find?_inner (b.lookup_view hnames hd), hbinding]⟩
  by_cases hlocal : (b.table k).contains z = true
  · rw [RenameTable.resolve_of_contains hlocal] at hresolve
    rw [(localText_inj hresolve).1] at hz
    exact hconst.not_target hb.block hp.block hz
  · rw [RenameTable.resolve, if_neg hlocal] at hresolve
    exact localText_ne_of_isIdentifier (hb.block.targets hp.block z hz).1 k hresolve

/-- A global constant is no target in any body. -/
theorem Body.InOrder.global_not_target (hb : b.InOrder v) (hp : b.Plain) (hT : T.Opens b v k)
    (hx : isIdentifier x = true) {type : Ty} (hglobal : v.globals.lookup x = some (.const type)) :
    x ∉ (Stmt.targetsOfList b.block.nodes).map (b.table k).resolve := by
  intro hmem
  obtain ⟨z, hz, hresolve⟩ := List.mem_map.1 hmem
  by_cases hlocal : (b.table k).contains z = true
  · rw [RenameTable.resolve_of_contains hlocal] at hresolve
    exact localText_ne_of_isIdentifier hx _ hresolve.symm
  · rw [RenameTable.resolve, if_neg hlocal] at hresolve
    subst hresolve
    have hnone : ((b.view v).scope .inner).lookup z = none := by
      rw [(hT.body.knows hT.enter).covers] at hlocal
      exact Option.not_isSome_iff_eq_none.1 hlocal
    have hglobals : (b.view v).globals = v.globals := (View.declareNames_inside (v := v.enter) rfl _).2
    refine View.Constant.not_target ⟨.outer, type, ?_⟩ hb.block hp.block hz
    rw [View.find?_outer hnone, hglobals, hglobal]
    rfl

/-- The code of a body sets no local names but its own. -/
theorem Body.InOrder.ordinal_of_mem_sets (hb : b.InOrder v) (hp : b.Plain) (h : localText x n ∈ b.sets k) : n = k := by
  rcases List.mem_append.1 h with h | h
  · rcases List.mem_append.1 h with h | h
    · obtain ⟨d, hd, hname, -⟩ := Decl.mem_stored h
      exact absurd hname (localText_ne_of_isIdentifier (hp.constants d hd).name n)
    · obtain ⟨y, -, heq⟩ := List.mem_map.1 h
      exact (localText_inj heq).2.symm
  · obtain ⟨z, hz, hresolve⟩ := List.mem_map.1 h
    by_cases hlocal : (b.table k).contains z = true
    · rw [RenameTable.resolve_of_contains hlocal, b.ordinal_table] at hresolve
      exact (localText_inj hresolve).2.symm
    · rw [RenameTable.resolve, if_neg hlocal] at hresolve
      exact absurd hresolve (localText_ne_of_isIdentifier (hb.block.targets hp.block z hz).1 n)

/-- The code of a body sets each of its local constants once. -/
theorem Body.InOrder.count_local (hb : b.InOrder v) (hp : b.Plain) (hnames : b.scope.Nodup) {d : Decl}
    (hd : d ∈ b.decls) (hc : d.isConst = true) : (b.sets k).count (localText d.name k) = 1 := by
  have hglobals : localText d.name k ∉ b.constants.flatMap Decl.stored := by
    intro h
    obtain ⟨d', hd', hname, -⟩ := Decl.mem_stored h
    exact localText_ne_of_isIdentifier (hp.constants d' hd').name k hname
  have hlocals : (b.params.map (·.name) ++ b.decls.flatMap Decl.stored).Nodup :=
    hnames.sublist ((List.Sublist.refl _).append (Decl.stored_sublist b.decls))
  have hmem : d.name ∈ b.params.map (·.name) ++ b.decls.flatMap Decl.stored :=
    List.mem_append_right _ (Decl.mem_stored_of_isConst hd hc)
  rw [sets, stored, List.count_append, List.count_append, List.count_eq_zero.2 hglobals,
    List.count_eq_zero.2 (hb.local_not_target hp hnames hd hc), Nat.zero_add, Nat.add_zero]
  exact List.count_eq_one_of_mem (hlocals.map fun _ _ h => (localText_inj h).1) (List.mem_map_of_mem hmem)

end Bodies

/-! ### The constants of a program -/

/-- Among bodies of which only one sets a name, the code sets it as often as that one. -/
theorem Body.count_setsFrom {bs : List Body} {i n : Nat} {b : Body} {x : String} (hb : bs[i]? = some b)
    (honly : ∀ j c, bs[j]? = some c → x ∈ c.sets (n + j) → j = i) :
    (setsFrom n bs).count x = (b.sets (n + i)).count x := by
  induction bs generalizing i n with
  | nil => cases hb
  | cons c more ih =>
    have hlater (j : Nat) (c' : Body) (hc : more[j]? = some c') (hx : x ∈ c'.sets (n + 1 + j)) : j + 1 = i :=
      honly (j + 1) c' hc (by rwa [Nat.add_right_comm, Nat.add_assoc] at hx)
    rw [setsFrom, List.zipIdx_cons, List.flatMap_cons, List.count_append, ← setsFrom]
    cases i with
    | zero =>
      cases hb
      have hnone : x ∉ setsFrom (n + 1) more := by
        intro h
        obtain ⟨⟨c', m⟩, hc, hx⟩ := List.mem_flatMap.1 h
        obtain ⟨hle, hc⟩ := List.mk_mem_zipIdx_iff_le_and_getElem?_sub.1 hc
        exact absurd (hlater _ c' hc (by rwa [Nat.add_sub_of_le hle])) (Nat.succ_ne_zero _)
      rw [List.count_eq_zero.2 hnone]
      rfl
    | succ i =>
      have hfirst : x ∉ c.sets n := fun hx => absurd (honly 0 c rfl hx) (Nat.succ_ne_zero i).symm
      rw [List.count_eq_zero.2 hfirst, Nat.zero_add,
        ih hb fun j c' hc hx => Nat.succ.inj (hlater j c' hc hx), Nat.add_right_comm, Nat.add_assoc]

namespace Program

variable {p : Program}

/-- Where a body begins, global declarations have their bindings. -/
theorem WellFormed.lookup_viewAt (hw : p.WellFormed) {d : Decl} (hd : d ∈ p.decls) (i : Nat) :
    (p.viewAt i).globals.lookup d.name = some d.binding := by
  obtain ⟨hdecls, -, hapart⟩ := List.nodup_append.1 hw.names.distinct
  have hne : ∀ f ∈ p.funcs.take i, f.name ≠ d.name := fun f hf =>
    (hapart d.name (List.mem_map_of_mem hd) f.name (List.mem_map_of_mem (List.mem_of_mem_take hf))).symm
  obtain ⟨hlocals, hhere⟩ := p.globalView_locals
  have hglobal : p.globalView.globals.lookup d.name = some d.binding := by
    rw [View.here, hlocals] at hhere
    rw [show p.globalView.globals = _ from hhere]
    have hmem : (d.name, d.binding) ∈ p.decls.map fun d => (d.name, d.binding) := List.mem_map.2 ⟨d, hd, rfl⟩
    refine lookup_of_unique (List.mem_reverse.2 hmem) fun b' hb' => ?_
    have hkeys : ((p.decls.map fun d => (d.name, d.binding)).map Prod.fst).Nodup := by
      rw [List.map_map]
      exact hdecls
    exact unique_of_nodup hkeys (List.mem_reverse.1 hb') hmem
  unfold Program.viewAt
  generalize p.funcs.take i = fs at hne
  generalize p.globalView = v at hlocals hglobal ⊢
  induction fs generalizing v with
  | nil => exact hglobal
  | cons f more ih =>
    obtain ⟨hf, hmore⟩ := List.forall_mem_cons.1 hne
    obtain ⟨hnone, hafter⟩ := f.here_viewAfter hlocals
    rw [View.here, View.here, hnone, hlocals] at hafter
    refine ih hmore _ hnone ?_
    rw [show (f.viewAfter v).globals = _ from hafter, List.lookup_cons, beq_false_of_ne hf.symm]
    exact hglobal

/-- A body of a program in order is in order in a view where the global declarations have their bindings. -/
theorem WellFormed.seesGlobals (hw : p.WellFormed) (hs : p.Spelled) {i : Nat} {b : Body} (hb : p.bodies[i]? = some b) :
    ∃ v, b.InOrder v ∧ p.typing.Opens b v (i + 1) ∧
      ∀ d ∈ p.decls, v.globals.lookup d.name = some d.binding := by
  have hT := typing_declares hw hs
  rcases getElem?_bodies hb with ⟨f, hf, rfl⟩ | ⟨rfl, rfl⟩
  · have h := hw.admits hs hT hf
    refine ⟨_, h.inOrder.asBody, h.opens, fun d hd => ?_⟩
    have hne : d.name ≠ f.name := (List.nodup_append.1 hw.names.distinct).2.2 d.name (List.mem_map_of_mem hd) f.name
      (List.mem_map_of_mem (List.mem_of_getElem? hf))
    rw [Func.ownView, View.declare, (hw.viewAt i).1, List.lookup_cons, beq_false_of_ne hne]
    exact hw.lookup_viewAt hd i
  · obtain ⟨hbody, hopens⟩ := hw.opensMain hT
    refine ⟨_, hbody, hopens, fun d hd => ?_⟩
    rw [← p.viewAt_length]
    exact hw.lookup_viewAt hd _

/-- A name that one body sets once, and no other body, is set at one place. -/
theorem setAt_of_count {i : Nat} {b : Body} {x : String} (hx : isReservedName x = false) (hb : p.bodies[i]? = some b)
    (honly : ∀ j c, p.bodies[j]? = some c → x ∈ c.sets (j + 1) → j = i) (hone : (b.sets (i + 1)).count x = 1) :
    ∃ a, ∀ c, SetAt x p.code c ↔ c = a := by
  refine setAt_unique ?_
  rw [← count_unreserved hx, p.setNames_code, count_unreserved hx, sets,
    Body.count_setsFrom hb fun j c hc hxc => honly j c hc (by rwa [Nat.add_comm] at hxc), Nat.add_comm, hone]

/-- **Global constants.**  The code of a program in order sets each of its constants at one place. -/
theorem WellFormed.global_once (hw : p.WellFormed) (hs : p.Spelled) {d : Decl} (hd : d ∈ p.decls)
    (hc : d.isConst = true) : ∃ a, ∀ c, SetAt d.name p.code c ↔ c = a := by
  have hname : isIdentifier d.name = true := (hs.decls d hd).name
  obtain ⟨type, hbinding⟩ := Decl.binding_of_isConst hc
  have htarget (j : Nat) (c : Body) (hb : p.bodies[j]? = some c) :
      d.name ∉ (Stmt.targetsOfList c.block.nodes).map (c.table (j + 1)).resolve := by
    obtain ⟨v, hbody, hopens, hglobals⟩ := hw.seesGlobals hs hb
    exact hbody.global_not_target (bodies_plain hs hw hb) hopens hname (hbinding ▸ hglobals d hd)
  have hlocal (k : Nat) (ys : List String) : d.name ∉ ys.map (localText · k) := by
    intro h
    obtain ⟨y, -, heq⟩ := List.mem_map.1 h
    exact localText_ne_of_isIdentifier hname k heq.symm
  refine setAt_of_count (hw.names.unreserved _ (List.mem_append_left _ (List.mem_map_of_mem hd))) p.bodies_length
    (fun j c hb hx => ?_) ?_
  · rcases getElem?_bodies hb with ⟨f, -, rfl⟩ | ⟨rfl, -⟩
    · rcases List.mem_append.1 hx with hx | hx
      · exact absurd hx (hlocal _ _)
      · exact absurd hx (htarget j _ hb)
    · rfl
  · have hnodup : (p.decls.flatMap Decl.stored).Nodup :=
      (List.nodup_append.1 hw.names.distinct).1.sublist (Decl.stored_sublist p.decls)
    rw [Body.sets, Body.stored, List.count_append, List.count_append, List.count_eq_zero.2 (hlocal _ _),
      List.count_eq_zero.2 (htarget _ _ p.bodies_length), Nat.add_zero]
    exact List.count_eq_one_of_mem hnodup (Decl.mem_stored_of_isConst hd hc)

/-- **Local constants.**  The code of a program in order sets each local constant at one place, in the body that
declares it. -/
theorem WellFormed.local_once (hw : p.WellFormed) (hs : p.Spelled) {i : Nat} {b : Body} (hb : p.bodies[i]? = some b)
    {d : Decl} (hd : d ∈ b.decls) (hc : d.isConst = true) :
    ∃ a, p.Within i a ∧ ∀ c, SetAt (localText d.name (i + 1)) p.code c ↔ c = a := by
  obtain ⟨v, hbody, -⟩ := hw.seesGlobals hs hb
  obtain ⟨a, ha⟩ := setAt_of_count (isReservedName_localText d.name (i + 1)) hb (fun j c hcj hx => by
      obtain ⟨w, hother, -⟩ := hw.seesGlobals hs hcj
      exact (Nat.succ.inj (hother.ordinal_of_mem_sets (bodies_plain hs hw hcj) hx)).symm)
    (hbody.count_local (bodies_plain hs hw hb) (hw.bodyNames hb).distinct hd hc)
  obtain ⟨ins, hins, hset⟩ := (ha a).2 rfl
  exact ⟨a, hw.local_within hs hins (List.mem_append_left _ ((ins.mem_mentions _).2 (.inl hset))), ha⟩

/-! ### In front of reads -/

end Program

section InFront

variable {d : Decl} {t : RenameTable}

/-- What is not local yet is not written. -/
theorem Decl.not_mem_lower {leaves : List Atom} (hp : AllPlain leaves) (ht : t.contains d.name = false) :
    localText d.name t.ordinal ∉ leaves.map (Atom.lower t) := by
  intro hmem
  obtain ⟨a, ha, hwritten⟩ := List.mem_map.1 hmem
  rw [((hp a ha).eq_of_lower hwritten).2] at ht
  cases ht

/-- The code of a local constant sets it last. -/
theorem Decl.lowerLocal_setsFirst (hp : d.Plain) (hc : d.isConst = true) (ht : t.contains d.name = false)
    (g : Generator) : SetsFirst (localText d.name t.ordinal) False True ((d.lowerLocal t).run g).record := by
  cases d with
  | var => cases hc
  | const x type e s =>
    have hunread := (e.lower_mentions t g).unmentioned (Decl.not_mem_lower hp.leaves ht) (isOwnText_localText x _)
    have hset : SetsFirst (localText x t.ordinal) False True
        [.assign (localText x t.ordinal) ((e.lower t).run g).value] :=
      .single (fun _ => hunread.2) fun _ _ => rfl
    have hrecord : ((Decl.lowerLocal t (.const x type e s)).run g).record =
        ((e.lower t).run g).record ++ [.assign (localText x t.ordinal) ((e.lower t).run g).value] := by
      rw [← t.resolve_insert]
      rfl
    rw [hrecord]
    exact .append (.silent fun _ => hunread.1) hset

/-- The code of another declaration does not mention it. -/
theorem Decl.lowerLocal_unmentioned {c : Decl} (hp : c.Plain) (hne : c.name ≠ d.name)
    (ht : t.contains d.name = false) (g : Generator) :
    localText d.name t.ordinal ∉ mentioned ((c.lowerLocal t).run g).record := by
  refine ((c.lowerLocal_mentions t g).unmentioned ?_ (isOwnText_localText d.name _)).1
  rw [List.mem_append, not_or]
  refine ⟨Decl.not_mem_lower hp.leaves ht, fun hmem => ?_⟩
  obtain ⟨z, hz, heq⟩ := List.mem_map.1 hmem
  cases c with
  | var => cases hz
  | const x type e s =>
    rw [List.mem_singleton.1 hz] at heq
    exact hne (localText_inj heq).1

/-- The code of local declarations sets a constant, in front of the places that read it. -/
theorem Decl.lowerLocals_setsFirst {ds : List Decl} (hp : ∀ d ∈ ds, d.Plain) (hnames : (ds.map (·.name)).Nodup)
    (hd : d ∈ ds) (hc : d.isConst = true) (ht : t.contains d.name = false) (g : Generator) :
    SetsFirst (localText d.name t.ordinal) False True ((ds.foldlM Decl.lowerLocal t).run g).record := by
  induction ds generalizing t g with
  | nil => cases hd
  | cons c more ih =>
    obtain ⟨hpc, hpmore⟩ := List.forall_mem_cons.1 hp
    obtain ⟨hnew, hnames⟩ := List.nodup_cons.1 hnames
    rw [List.foldlM_cons, Pass.run_bind, c.value_lowerLocal]
    by_cases hcd : c = d
    · subst hcd
      exact (Decl.lowerLocal_setsFirst hpc hc ht g).append (.silent fun h => absurd trivial h)
    · have hd := List.mem_of_ne_of_mem (Ne.symm hcd) hd
      have hne : c.name ≠ d.name := fun heq => hnew (List.mem_map.2 ⟨d, hd, heq.symm⟩)
      have ht' : (t.insert c.name).contains d.name = false := by
        rw [t.contains_insert, ht, Bool.false_or, beq_false_of_ne hne.symm]
      have hmore := ih hpmore hnames hd ht' ((c.lowerLocal t).run g).state
      rw [t.ordinal_insert] at hmore
      exact .append (.silent fun _ => Decl.lowerLocal_unmentioned hpc hne ht g) hmore

/-- The code of a body sets each of its constants, in front of the places that read it. -/
theorem Body.constant_setsFirst {b : Body} (hp : b.Plain) (hnames : b.scope.Nodup) (hd : d ∈ b.decls)
    (hc : d.isConst = true) (last : RenameTable → Emit Unit) (g : Generator) :
    SetsFirst (localText d.name g.names.ordinal) False True ((b.lower last).run g).record := by
  rw [scope, List.nodup_append] at hnames
  obtain ⟨-, hdecls, hapart⟩ := hnames
  have hparams : ∀ q ∈ b.params, q.name ≠ d.name := fun q hq =>
    hapart q.name (List.mem_map_of_mem hq) d.name (List.mem_map_of_mem hd)
  have hnone : (b.paramTable g.names.ordinal).contains d.name = false := by
    have hcovers := RenameTable.covers_insertAll g.names.ordinal (b.params.map (·.name))
    rw [paramTable, hcovers, Bool.eq_false_iff, ne_eq, List.contains_iff_mem, List.mem_map]
    rintro ⟨q, hq, hname⟩
    exact hparams q hq hname
  have hlocals := Decl.lowerLocals_setsFirst hp.decls hdecls hd hc hnone (b.lowerParams.run g).state
  rw [b.ordinal_paramTable] at hlocals
  have hstart : SetsFirst (localText d.name g.names.ordinal) False True (b.lowerStart.run g).record := by
    rw [b.lowerStart_eq, Pass.run_bind, b.value_lowerParams]
    exact .append (.silent fun _ => lowerParams_unmentioned hp hparams) hlocals
  exact hstart.append (.silent fun h => absurd trivial h)

end InFront

/-- **Local constants are set first.**  A place that reads a local constant of a program in order stands behind the
place that sets it. -/
theorem Program.WellFormed.constant_before {p : Program} (hw : p.WellFormed) (hs : p.Spelled) {i : Nat} {b : Body}
    (hb : p.bodies[i]? = some b) {d : Decl} (hd : d ∈ b.decls) (hc : d.isConst = true) {a : Nat}
    (ha : ∀ c, SetAt (localText d.name (i + 1)) p.code c ↔ c = a) {c : Nat}
    (hread : ReadAt (localText d.name (i + 1)) p.code c) : a < c := by
  obtain ⟨ins, hins, huse⟩ := id hread
  have hwithin : p.Within i c := hw.local_within hs hins (List.mem_append_left _ ((ins.mem_mentions _).2 (.inr huse)))
  obtain ⟨-, -, -, -, -, -, hordinal, -⟩ := code_at_body hb
  obtain ⟨k, -, hk, hset⟩ := setsBefore hb hwithin hread fun last _ c' hc' => by
    rw [← hordinal] at hc' ⊢
    have hplain := bodies_plain hs hw hb
    exact (Body.constant_setsFirst hplain (hw.bodyNames hb).distinct hd hc last (p.generatorAt i)).reads id c' hc'
  rwa [← (ha k).1 hset]

end ThreeAddress
