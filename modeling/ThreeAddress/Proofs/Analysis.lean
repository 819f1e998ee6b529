import ThreeAddress.Proofs.Deciding
import ThreeAddress.Proofs.Leaves

/-!
# The analysis decides well-formedness

Statements, declarations, functions and whole programs.  Their checks come to no value that matters, so what
is left of a decision is a proposition.

* `Admits` — a check records no fault exactly if a proposition holds, and then shows the view behind it;
* `FreshNames` — names that a scope can take up one after the other;
* `Stmt.checkAll_admits`, `Decl.checkAll_admits`, `Func.check_admits` — the parts of a program;
* `analyze_isClean_iff` — a program has no faults exactly if it is well-formed.
-/

namespace ThreeAddress

variable {α β : Type}

/-- A check over `t` records no fault exactly if `P` holds; `w` is the view behind it. -/
structure Admits (p : Check α) (t : SymbolTable) (w : View) (P : Prop) : Prop where
  clean : (p.run t).record = [] ↔ P
  shows : P → (p.run t).state.Shows w

/-- A check that decides a judgement admits what the judgement holds of. -/
theorem Decides.admits {p : Check α} {t : SymbolTable} {w : View} {J : α → Prop} (h : Decides p t w J) :
    Admits p t w (∃ a, J a) :=
  ⟨h.clean, fun ⟨a, ha⟩ => h.shows a ha⟩

/-- One check after another, where the second depends on the value of the first. -/
theorem Decides.bindAdmits {p : Check α} {t : SymbolTable} {v w : View} {J : α → Prop}
    {f : α → Check β} {Q : α → Prop} (hp : Decides p t v J)
    (hf : ∀ a t', J a → t'.Shows v → Admits (f a) t' w (Q a)) :
    Admits (p >>= f) t w (∃ a, J a ∧ Q a) := by
  have hnext : ∀ a, J a → Admits (f (p.run t).value) (p.run t).state w (Q a) := by
    intro a ha
    have h := hf a (p.run t).state ha (hp.shows a ha)
    rwa [← hp.value a ha] at h ⊢
  refine ⟨?_, fun ⟨a, ha, hq⟩ => (hnext a ha).shows hq⟩
  rw [Pass.run_bind, List.append_eq_nil_iff]
  constructor
  · rintro ⟨hrec, hrec'⟩
    obtain ⟨a, ha⟩ := hp.clean.1 hrec
    exact ⟨a, ha, (hnext a ha).clean.1 hrec'⟩
  · rintro ⟨a, ha, hq⟩
    exact ⟨hp.clean.2 ⟨a, ha⟩, (hnext a ha).clean.2 hq⟩

namespace Admits

variable {p : Check α} {t : SymbolTable} {v w : View} {P Q : Prop}

theorem congr (h : Admits p t w P) (hPQ : P ↔ Q) : Admits p t w Q := by
  rw [← propext hPQ]
  exact h

/-- A value without a check. -/
theorem pure (ht : t.Shows v) (a : α) : Admits (Pure.pure a) t v True :=
  ⟨⟨fun _ => trivial, fun _ => rfl⟩, fun _ => ht⟩

/-- A check that starts with a look at the table. -/
theorem get {f : SymbolTable → Check α} (h : Admits (f t) t w P) : Admits (Pass.get >>= f) t w P :=
  ⟨h.clean, h.shows⟩

/-- A fault admits nothing. -/
theorem refuse {cause : SemanticCause} {span : Span} {hint : String} (hP : ¬P) :
    Admits (Check.report cause span hint) t w P :=
  Decides.report.admits.congr ⟨fun ⟨_, h⟩ => h.elim, fun h => (hP h).elim⟩

/-- A condition that is required. -/
theorem require {ok : Bool} {cause : SemanticCause} {span : Span} {hint : String} (ht : t.Shows v) :
    Admits (Check.require ok cause span hint) t v (ok = true) :=
  (Decides.require ht).admits.congr ⟨fun ⟨_, h⟩ => h, fun h => ⟨(), h⟩⟩

/-- One check after another. -/
theorem bind {f : α → Check β} (hp : Admits p t v P)
    (hf : ∀ a t', P → t'.Shows v → Admits (f a) t' w Q) : Admits (p >>= f) t w (P ∧ Q) := by
  refine ⟨?_, fun ⟨hP, hQ⟩ => (hf _ _ hP (hp.shows hP)).shows hQ⟩
  rw [Pass.run_bind, List.append_eq_nil_iff]
  constructor
  · rintro ⟨hrec, hrec'⟩
    have hP := hp.clean.1 hrec
    exact ⟨hP, (hf _ _ hP (hp.shows hP)).clean.1 hrec'⟩
  · rintro ⟨hP, hQ⟩
    exact ⟨hp.clean.2 hP, (hf _ _ hP (hp.shows hP)).clean.2 hQ⟩

end Admits

/-! ### Assignments -/

variable {t : SymbolTable} {v : View}

/-- The one name that an expression copies or negates may be read. -/
theorem Expr.Yields.readable {e : Expr} {y : Yield} (h : e.Yields v y) {x : String}
    (hx : e.referencedName? = some x) : ∃ type, v.Readable x type := by
  induction h with
  | arith | logic | call => cases hx
  | paren _ ih => exact ih hx
  | fragment hf =>
    cases hf with
    | atom ha =>
      cases ha with
      | name hr =>
        cases hx
        exact ⟨_, hr⟩
      | number => cases hx
    | not hr =>
      cases hx
      exact ⟨_, hr⟩
    | negated | zero | bool => cases hx

theorem markReferenced_decides (ht : t.Shows v) {e : Expr} {y : Yield} (he : e.Yields v y) :
    Decides (markReferenced e) t v fun _ => True := by
  have hpure : Decides (Pure.pure () : Check Unit) t v fun _ => True :=
    (Decides.pure ht ()).congr fun _ => by simp
  unfold markReferenced
  split
  · exact hpure
  · rename_i x hx
    obtain ⟨type, hr⟩ := he.readable hx
    refine Decides.get ?_
    split
    · exact hpure
    · rename_i e' he'
      split
      · exact hpure
      · rename_i hc
        exact Decides.modify (ht.markUsed hr he' (by simp at hc; exact hc.2))

/-- An assignment is in order if the target may be written and has the type of the value. -/
theorem checkAssignment_admits (ht : t.Shows v) {x : String} {e : Expr} {span : Span} :
    Admits (checkAssignment x e span) t (v.assign x) (∃ type, e.HasType v type ∧ v.Writable x type) := by
  refine ((Expr.check_decides ht).bindAdmits (Q := fun y => ∃ type, y.Of type ∧ v.Writable x type)
    fun y t₁ hy ht₁ => ((markReferenced_decides ht₁ hy).bindAdmits
      (Q := fun _ => ∃ type, y.Of type ∧ v.Writable x type) fun _ t₂ _ ht₂ => Admits.get ?_).congr ?_).congr ?_
  · -- what is found under the target decides
    have htarget : ∀ type, v.Writable x type ↔ ∃ e', t₂.lookup? x = some e' ∧
        e'.valueType? = some type ∧ e'.isConstant = false := fun type => ht₂.writable_iff.symm
    cases hx : t₂.lookup? x with
    | none => exact Admits.refuse (by simp [htarget, hx])
    | some e' =>
      dsimp only
      cases htype : e'.valueType? with
      | none => exact Admits.refuse (by simp [htarget, hx, htype])
      | some type =>
        dsimp only
        cases hc : e'.isConstant with
        | true => exact Admits.refuse (by simp [htarget, hx, hc])
        | false =>
          have hw : v.Writable x type := (htarget type).2 ⟨e', hx, htype, hc⟩
          refine ((Admits.require ht₂).bind fun _ _ _ ht₃ =>
            (Decides.modify (ht₃.assign hw)).admits).congr ?_
          rw [Yield.resolvesTo_iff hy.ne_unknown]
          constructor
          · rintro ⟨hof, -⟩
            exact ⟨type, hof, hw⟩
          · rintro ⟨type', hof, hw'⟩
            obtain ⟨e'', he'', htype', -⟩ := (htarget type').1 hw'
            cases he''.symm.trans hx
            cases htype'.symm.trans htype
            exact ⟨hof, (), trivial⟩
  · simp
  · constructor
    · rintro ⟨y, hy, type, hof, hw⟩
      exact ⟨type, ⟨y, hy, hof⟩, hw⟩
    · rintro ⟨type, ⟨y, hy, hof⟩, hw⟩
      exact ⟨y, hy, type, hof, hw⟩

/-! ### Statements -/

theorem View.after_cons (v : View) (s : Stmt) (more : List Stmt) :
    v.after (s :: more) = (s.targets.foldl View.assign v).after more := by
  rw [View.after, View.after, Stmt.targetsOfList, List.foldl_append]

theorem View.foldl_targets (v : View) (b : Block) : b.targets.foldl View.assign v = v.after b.nodes := by
  rw [View.after, Block.targets]

theorem Stmt.allInOrder_cons_iff {s : Stmt} {more : List Stmt} :
    Stmt.AllInOrder v (s :: more) ↔
      Stmt.AllInOrder v [s] ∧ Stmt.AllInOrder (s.targets.foldl View.assign v) more := by
  constructor
  · intro h
    cases h with
    | assign he hx h => exact ⟨.assign he hx .nil, h⟩
    | ite hc ht he h =>
      refine ⟨.ite hc ht he .nil, ?_⟩
      rwa [Stmt.targets, List.foldl_append, View.foldl_targets, View.foldl_targets]
    | loop hc hb h =>
      refine ⟨.loop hc hb .nil, ?_⟩
      rwa [Stmt.targets, View.foldl_targets]
    | call hc h => exact ⟨.call hc .nil, h⟩
    | block hb h =>
      refine ⟨.block hb .nil, ?_⟩
      rwa [Stmt.targets, View.foldl_targets]
    | skip h => exact ⟨.skip .nil, h⟩
  · rintro ⟨hs, h⟩
    cases hs with
    | assign he hx _ => exact .assign he hx h
    | ite hc ht he _ =>
      rw [Stmt.targets, List.foldl_append, View.foldl_targets, View.foldl_targets] at h
      exact .ite hc ht he h
    | loop hc hb _ =>
      rw [Stmt.targets, View.foldl_targets] at h
      exact .loop hc hb h
    | call hc _ => exact .call hc h
    | block hb _ =>
      rw [Stmt.targets, View.foldl_targets] at h
      exact .block hb h
    | skip _ => exact .skip h

theorem Stmt.checks_admit :
    (∀ (s : Stmt) (t : SymbolTable) (v : View), t.Shows v →
      Admits s.check t (s.targets.foldl View.assign v) (Stmt.AllInOrder v [s])) ∧
    (∀ (ss : List Stmt) (t : SymbolTable) (v : View), t.Shows v →
      Admits (Stmt.checkAll ss) t (v.after ss) (Stmt.AllInOrder v ss)) := by
  refine Stmt.parts ?_ ?_ ?_ ?_ ?_ ?_ ?_ ?_
  · intro x e a s t v ht
    rw [Stmt.check, Stmt.targets]
    refine (checkAssignment_admits ht).congr ⟨fun ⟨type, he, hx⟩ => .assign he hx .nil, fun h => ?_⟩
    cases h with
    | assign he hx => exact ⟨_, he, hx⟩
  · intro c th el s iht ihe t v ht
    rw [Stmt.check, Stmt.targets, List.foldl_append, View.foldl_targets, View.foldl_targets, Block.check,
      Block.check]
    refine ((Cond.check_decides ht).admits.bind fun _ t₁ _ ht₁ => (iht t₁ v ht₁).bind fun _ t₂ _ ht₂ =>
      ihe t₂ _ ht₂).congr ?_
    constructor
    · rintro ⟨⟨_, hc⟩, hth, hel⟩
      exact .ite hc hth hel .nil
    · intro h
      cases h with
      | ite hc hth hel => exact ⟨⟨(), hc⟩, hth, hel⟩
  · intro c b s ih t v ht
    rw [Stmt.check, Stmt.targets, View.foldl_targets, Block.check]
    refine ((Cond.check_decides ht).admits.bind fun _ t₁ _ ht₁ => ih t₁ v ht₁).congr ?_
    constructor
    · rintro ⟨⟨_, hc⟩, hb⟩
      exact .loop hc hb .nil
    · intro h
      cases h with
      | loop hc hb => exact ⟨⟨(), hc⟩, hb⟩
  · intro c s t v ht
    rw [Stmt.check, Stmt.targets]
    refine ((Call.check_decides ht).admits.bind fun _ t₁ _ ht₁ => Admits.pure ht₁ ()).congr ?_
    constructor
    · rintro ⟨⟨_, result, hc, -⟩, -⟩
      exact .call hc .nil
    · intro h
      cases h with
      | call hc => exact ⟨⟨_, _, hc, rfl⟩, trivial⟩
  · intro b s ih t v ht
    rw [Stmt.check, Stmt.targets, View.foldl_targets, Block.check]
    refine (ih t v ht).congr ⟨fun hb => .block hb .nil, fun h => ?_⟩
    cases h with
    | block hb => exact hb
  · intro s t v ht
    rw [Stmt.check, Stmt.targets]
    exact (Admits.pure ht ()).congr ⟨fun _ => .skip .nil, fun _ => trivial⟩
  · intro t v ht
    rw [Stmt.checkAll]
    exact (Admits.pure ht ()).congr ⟨fun _ => .nil, fun _ => trivial⟩
  · intro s more ihs ihmore t v ht
    rw [Stmt.checkAll, View.after_cons]
    refine ((ihs t v ht).bind fun _ t₁ _ ht₁ => ihmore t₁ _ ht₁).congr ?_
    exact Stmt.allInOrder_cons_iff.symm

/-- **Statements.** -/
theorem Stmt.checkAll_admits (ht : t.Shows v) (ss : List Stmt) :
    Admits (Stmt.checkAll ss) t (v.after ss) (Stmt.AllInOrder v ss) :=
  Stmt.checks_admit.2 ss t v ht

theorem Block.check_admits (ht : t.Shows v) (b : Block) :
    Admits b.check t (v.after b.nodes) (Stmt.AllInOrder v b.nodes) := by
  rw [Block.check]
  exact Stmt.checkAll_admits ht b.nodes

/-! ### Names of a scope -/

/-- Names that a scope with some bindings can take up one after the other. -/
structure FreshNames (bs : List (String × Binding)) (names : List String) : Prop where
  proper : ProperNames names
  unbound : ∀ x ∈ names, bs.lookup x = none

theorem FreshNames.nil {bs : List (String × Binding)} : FreshNames bs [] :=
  ⟨⟨.nil, fun _ h => absurd h List.not_mem_nil⟩, fun _ h => absurd h List.not_mem_nil⟩

theorem freshNames_nil_iff {names : List String} : FreshNames [] names ↔ ProperNames names :=
  ⟨FreshNames.proper, fun h => ⟨h, fun _ _ => rfl⟩⟩

/-- The first name is bound before the others are taken up. -/
theorem freshNames_cons_iff {bs : List (String × Binding)} {x : String} {names : List String}
    (b : Binding) : FreshNames bs (x :: names) ↔
      (isReservedName x = false ∧ bs.lookup x = none) ∧ FreshNames ((x, b) :: bs) names := by
  have hlookup : ∀ y, ((x, b) :: bs).lookup y = none ↔ y ≠ x ∧ bs.lookup y = none := by
    intro y
    rw [List.lookup_cons]
    cases hy : y == x with
    | true => simp [beq_iff_eq.1 hy]
    | false => simp [beq_eq_false_iff_ne.1 hy]
  constructor
  · rintro ⟨⟨hd, hr⟩, hu⟩
    rw [List.nodup_cons] at hd
    rw [List.forall_mem_cons] at hr hu
    refine ⟨⟨hr.1, hu.1⟩, ⟨hd.2, hr.2⟩, fun y hy => (hlookup y).2 ⟨?_, hu.2 y hy⟩⟩
    rintro rfl
    exact hd.1 hy
  · rintro ⟨⟨hr, hu⟩, ⟨hd, hrs⟩, hus⟩
    refine ⟨⟨List.nodup_cons.2 ⟨fun hx => ((hlookup x).1 (hus x hx)).1 rfl, hd⟩, ?_⟩, ?_⟩
    · rw [List.forall_mem_cons]
      exact ⟨hr, hrs⟩
    · rw [List.forall_mem_cons]
      exact ⟨hu, fun y hy => ((hlookup y).1 (hus y hy)).2⟩

/-- Names are bound in front of the others. -/
theorem freshNames_append_iff (new bs : List (String × Binding)) (names : List String) :
    FreshNames bs (new.map Prod.fst ++ names) ↔
      FreshNames bs (new.map Prod.fst) ∧ FreshNames (new.reverse ++ bs) names := by
  induction new generalizing bs with
  | nil => exact ⟨fun h => ⟨.nil, h⟩, fun h => h.2⟩
  | cons xb new ih =>
    rw [List.map_cons, List.cons_append, freshNames_cons_iff xb.2, freshNames_cons_iff xb.2, ih,
      List.reverse_cons, List.append_assoc]
    exact and_assoc.symm

namespace View

/-- A view with more names in the innermost scope. -/
def declareNames (v : View) (new : List (String × Binding)) : View :=
  new.foldl (fun v xb => v.declare xb.1 xb.2) v

theorem here_declare (v : View) (x : String) (b : Binding) : (v.declare x b).here = (x, b) :: v.here := by
  unfold declare here
  cases h : v.locals with
  | none => simp
  | some bs => rfl

theorem here_declareNames (v : View) (new : List (String × Binding)) :
    (v.declareNames new).here = new.reverse ++ v.here := by
  induction new generalizing v with
  | nil => rfl
  | cons xb new ih =>
    rw [declareNames, List.foldl_cons, ← declareNames, ih, here_declare, List.reverse_cons,
      List.append_assoc]
    rfl

theorem declareAll_eq (v : View) (ds : List Decl) :
    v.declareAll ds = v.declareNames (ds.map fun d => (d.name, d.binding)) := by
  rw [declareAll, declareNames, List.foldl_map]

end View

/-! ### Declarations -/

/-- A name is taken up by the innermost scope. -/
theorem bindEntity_admits (ht : t.Shows v) {define : SymbolTable → Except Entity SymbolTable}
    {cause : Entity → SemanticCause} {span : Span} {since : String} {e : Entity} {b : Binding}
    (hd : define t = t.define e) (hm : e.Means b False) :
    Admits (bindEntity define cause span since) t (v.declare e.name b) (v.here.lookup e.name = none) := by
  refine Admits.get ?_
  rw [hd]
  cases h : t.define e with
  | ok t' =>
    exact (Decides.modify (ht.define h hm)).admits.congr
      ⟨fun _ => ht.define_ok_iff.1 ⟨t', h⟩, fun _ => ⟨(), trivial⟩⟩
  | error existing =>
    refine Admits.refuse fun hfresh => ?_
    obtain ⟨t', ht'⟩ := ht.define_ok_iff.2 hfresh
    rw [h] at ht'
    cases ht'

theorem checkReserved_admits (ht : t.Shows v) {x : String} {span : Span} :
    Admits (checkReserved x span) t v (isReservedName x = false) :=
  (Admits.require ht).congr (by rw [Bool.not_eq_true'])

theorem Decl.allInOrder_cons_iff {d : Decl} {more : List Decl} :
    Decl.AllInOrder v (d :: more) ↔
      Decl.AllInOrder v [d] ∧ Decl.AllInOrder (v.declare d.name d.binding) more := by
  constructor
  · intro h
    cases h with
    | var h => exact ⟨.var .nil, h⟩
    | const he h => exact ⟨.const he .nil, h⟩
  · rintro ⟨hd, h⟩
    cases hd with
    | var _ => exact .var h
    | const he _ => exact .const he h

theorem Decl.check_admits (ht : t.Shows v) (d : Decl) :
    Admits d.check t (v.declare d.name d.binding)
      (Decl.AllInOrder v [d] ∧ isReservedName d.name = false ∧ v.here.lookup d.name = none) := by
  cases d with
  | var x type s =>
    refine ((checkReserved_admits ht).bind fun _ t₁ _ ht₁ => bindEntity_admits
      (e := .unassigned x type s) (b := .var type) ht₁ rfl ⟨rfl, by simp [Entity.unassigned], by
        simp [Entity.unassigned]⟩).congr ?_
    exact ⟨fun h => ⟨.var .nil, h⟩, fun h => h.2⟩
  | const x type e s =>
    refine ((Expr.check_decides ht).bindAdmits (Q := fun y => isReservedName x = false ∧
      v.here.lookup x = none ∧ y.resolvesTo type = true) fun y t₁ hy ht₁ => (checkReserved_admits ht₁).bind
      fun _ t₂ _ ht₂ => (bindEntity_admits (e := .constant x type s) (b := .const type) ht₂ rfl
        ⟨rfl, rfl⟩).bind fun _ t₃ _ ht₃ => Admits.require ht₃).congr ?_
    constructor
    · rintro ⟨y, hy, hr, hfresh, hof⟩
      exact ⟨.const ⟨y, hy, (Yield.resolvesTo_iff hy.ne_unknown).1 hof⟩ .nil, hr, hfresh⟩
    · rintro ⟨hd, hr, hfresh⟩
      cases hd with
      | const he _ =>
        obtain ⟨y, hy, hof⟩ := he
        exact ⟨y, hy, hr, hfresh, (Yield.resolvesTo_iff hy.ne_unknown).2 hof⟩

/-- **Declarations.** -/
theorem Decl.checkAll_admits (ht : t.Shows v) (ds : List Decl) :
    Admits (ds.forM Decl.check) t (v.declareAll ds)
      (Decl.AllInOrder v ds ∧ FreshNames v.here (ds.map (·.name))) := by
  induction ds generalizing t v with
  | nil => exact (Admits.pure ht _).congr ⟨fun _ => ⟨.nil, .nil⟩, fun _ => trivial⟩
  | cons d more ih =>
    refine ((Decl.check_admits ht d).bind fun _ t₁ _ ht₁ => ih ht₁).congr ?_
    rw [View.here_declare, List.map_cons, freshNames_cons_iff d.binding]
    exact and_and_and_comm.trans (and_congr Decl.allInOrder_cons_iff.symm Iff.rfl)

theorem Param.checkAll_admits (ht : t.Shows v) (function : String) (ps : List Param) :
    Admits (ps.forM (Param.check function)) t (v.declareNames (ps.map fun p => (p.name, .param p.type)))
      (FreshNames v.here (ps.map (·.name))) := by
  induction ps generalizing t v with
  | nil => exact (Admits.pure ht _).congr ⟨fun _ => .nil, fun _ => trivial⟩
  | cons p more ih =>
    refine (((checkReserved_admits ht).bind fun _ t₁ _ ht₁ => bindEntity_admits
      (e := .parameter p.name p.type p.span) (b := .param p.type) ht₁ rfl ⟨rfl, by
        simp [Entity.parameter], by simp [Entity.parameter]⟩).bind fun _ t₁ _ ht₁ => ih ht₁).congr ?_
    rw [List.map_cons, freshNames_cons_iff (.param p.type)]
    exact and_congr_right fun _ => by rw [View.here_declare]; rfl

/-! ### Functions -/

namespace View

theorem locals_declare_isSome {v : View} (h : v.locals.isSome) (x : String) (b : Binding) :
    (v.declare x b).locals.isSome := by
  unfold declare
  split
  · rename_i hn
    rw [hn] at h
    cases h
  · rfl

theorem inner_declare {v : View} (h : v.locals.isSome) (x : String) (b : Binding) :
    (v.declare x b).scope .inner = (x, b) :: v.scope .inner := by
  obtain ⟨bs, hbs⟩ := Option.isSome_iff_exists.1 h
  rw [declare, scope, scope, hbs]
  rfl

theorem globals_declare {v : View} (h : v.locals.isSome) (x : String) (b : Binding) :
    (v.declare x b).globals = v.globals := by
  unfold declare
  split
  · rename_i hn
    rw [hn] at h
    cases h
  · rfl

theorem declareNames_inside {v : View} (h : v.locals.isSome) (new : List (String × Binding)) :
    (v.declareNames new).locals.isSome ∧ (v.declareNames new).globals = v.globals := by
  induction new generalizing v with
  | nil => exact ⟨h, rfl⟩
  | cons xb new ih =>
    obtain ⟨hl, hg⟩ := ih (locals_declare_isSome h xb.1 xb.2)
    exact ⟨hl, hg.trans (globals_declare h xb.1 xb.2)⟩

theorem assign_scopes (v : View) (x : String) :
    (v.assign x).locals = v.locals ∧ (v.assign x).globals = v.globals := by
  unfold assign
  split <;> exact ⟨rfl, rfl⟩

theorem after_scopes (v : View) (ss : List Stmt) :
    (v.after ss).locals = v.locals ∧ (v.after ss).globals = v.globals := by
  unfold after
  induction Stmt.targetsOfList ss generalizing v with
  | nil => exact ⟨rfl, rfl⟩
  | cons x more ih =>
    obtain ⟨hl, hg⟩ := ih (v.assign x)
    exact ⟨hl.trans (v.assign_scopes x).1, hg.trans (v.assign_scopes x).2⟩

end View

/-- A check in a scope of its own admits what it admits in the view of that scope. -/
theorem inScope_admits {body : Check Unit} {w : View} {P : Prop} (ht : t.Shows v)
    (hl : v.locals = none) (hw : w.locals.isSome)
    (hb : ∀ t', t'.Shows v.enter → Admits body t' w P) : Admits (inScope body) t w.leave P := by
  obtain ⟨bs, hbs⟩ := Option.isSome_iff_exists.1 hw
  have hopen := (Decides.modify (f := SymbolTable.push) (ht.push hl)).admits
  refine (hopen.bind (Q := P ∧ True) fun _ t₁ _ ht₁ => (hb t₁ ht₁).bind fun _ t₂ _ ht₂ => ?close).congr ?iff
  case close =>
    obtain ⟨s, t₃, hs, ht₃⟩ := ht₂.pop hbs
    refine Admits.get ?_
    rw [hs]
    exact ((Decides.modify ht₃).admits.bind fun _ _ _ ht' => Admits.pure ht' _).congr (by simp)
  case iff => simp

namespace Func

variable (f : Func)

theorem paramView_eq (v : View) :
    f.paramView v = v.enter.declareNames (f.params.map fun p => (p.name, .param p.type)) := by
  rw [paramView, View.declareNames, List.foldl_map]

theorem bodyView_eq (v : View) :
    f.bodyView v = v.enter.declareNames ((f.params.map fun p => (p.name, .param p.type)) ++
      f.decls.map fun d => (d.name, d.binding)) := by
  rw [bodyView, View.declareAll_eq, paramView_eq, View.declareNames, View.declareNames, View.declareNames,
    List.foldl_append]

theorem bodyView_after_inside (v : View) (ss : List Stmt) :
    ((f.bodyView v).after ss).locals.isSome ∧ ((f.bodyView v).after ss).globals = v.globals := by
  rw [((f.bodyView v).after_scopes ss).1, ((f.bodyView v).after_scopes ss).2, bodyView_eq]
  exact View.declareNames_inside (v := v.enter) rfl _

theorem here_viewAfter {v : View} (hl : v.locals = none) :
    (f.viewAfter v).locals = none ∧
      (f.viewAfter v).here = (f.name, .func f.returnType (f.params.map (·.type))) :: v.here := by
  have hown : (f.ownView v).globals =
      (f.name, .func f.returnType (f.params.map (·.type))) :: v.globals := by
    rw [ownView, View.declare, hl]
  refine ⟨rfl, ?_⟩
  rw [View.here, View.here, hl, viewAfter]
  exact (f.bodyView_after_inside (f.ownView v) f.body.nodes).2.trans hown

theorem checkReturn_admits {f : Func} (ht : t.Shows v) :
    Admits f.checkReturn t v (f.ReturnInOrder v) := by
  unfold checkReturn ReturnInOrder
  cases f.returnValue with
  | none => exact (Admits.require ht).congr (by rw [beq_iff_eq])
  | some e =>
    refine ((Expr.check_decides ht).bindAdmits (Q := fun y => y.resolvesTo f.returnType = true)
      fun y _ _ ht₁ => Admits.require ht₁).congr ?_
    constructor
    · rintro ⟨y, hy, hof⟩
      exact ⟨y, hy, (Yield.resolvesTo_iff hy.ne_unknown).1 hof⟩
    · rintro ⟨y, hy, hof⟩
      exact ⟨y, hy, (Yield.resolvesTo_iff hy.ne_unknown).2 hof⟩

theorem register_admits (ht : t.Shows v) (hl : v.locals = none) :
    Admits f.register t (f.ownView v) (isReservedName f.name = false ∧ v.here.lookup f.name = none) := by
  refine (checkReserved_admits ht).bind fun _ t₁ _ ht₁ => bindEntity_admits
    (e := .function f.name f.returnType (f.params.map Param.type) f.span)
    (b := .func f.returnType (f.params.map Param.type)) ht₁ ?_ rfl
  -- outside of bodies the innermost scope is the global one
  have hinner := ht₁.inner_eq_nil hl
  cases t₁ with
  | mk inner globals =>
    cases hinner
    rfl

/-- **Functions.** -/
theorem check_admits (ht : t.Shows v) (hl : v.locals = none) :
    Admits f.check t (f.viewAfter v)
      ((isReservedName f.name = false ∧ v.here.lookup f.name = none) ∧ f.InOrder (f.ownView v)) := by
  have hown : (f.ownView v).locals = none := by rw [ownView, View.declare, hl]
  refine (f.register_admits ht hl).bind fun _ t₁ _ ht₁ => ?_
  have hwithin := (f.bodyView_after_inside (f.ownView v) f.body.nodes).1
  refine inScope_admits ht₁ hown hwithin fun t₂ ht₂ => ?_
  have hparams := Param.checkAll_admits ht₂ f.name f.params
  rw [← paramView_eq] at hparams
  refine (hparams.bind fun _ t₃ _ ht₃ => (Decl.checkAll_admits ht₃ f.decls).bind fun _ t₄ _ ht₄ =>
    (Block.check_admits ht₄ f.body).bind fun _ t₅ _ ht₅ => checkReturn_admits (f := f) ht₅).congr ?_
  -- the names of the scope are fresh where it was opened
  have hnames : ProperNames f.scopeNames ↔ FreshNames (f.ownView v).enter.here (f.params.map (·.name)) ∧
      FreshNames (f.paramView (f.ownView v)).here (f.decls.map (·.name)) := by
    have happend := freshNames_append_iff (f.params.map fun p => (p.name, .param p.type)) []
      (f.decls.map (·.name))
    rw [List.map_map, freshNames_nil_iff] at happend
    rw [paramView_eq, View.here_declareNames]
    exact happend
  rw [← and_assoc]
  constructor
  · rintro ⟨⟨hps, hds, hfresh⟩, hbody, hret⟩
    exact ⟨hnames.2 ⟨hps, hfresh⟩, hds, hbody, hret⟩
  · rintro ⟨hn, hds, hbody, hret⟩
    exact ⟨⟨(hnames.1 hn).1, hds, (hnames.1 hn).2⟩, hbody, hret⟩

/-- Functions in order, whatever their warnings. -/
theorem checkAll_admits (ht : t.Shows v) (hl : v.locals = none) (fs : List Func) :
    Admits (fs.mapM Func.check) t (fs.foldl (fun v f => f.viewAfter v) v)
      (Func.AllInOrder v fs ∧ FreshNames v.here (fs.map (·.name))) := by
  induction fs generalizing t v with
  | nil =>
    rw [List.mapM_nil]
    exact (Admits.pure ht _).congr ⟨fun _ => ⟨.nil, .nil⟩, fun _ => trivial⟩
  | cons f more ih =>
    obtain ⟨hl', hhere⟩ := f.here_viewAfter hl
    rw [List.mapM_cons]
    refine ((f.check_admits ht hl).bind fun _ t₁ _ ht₁ => (ih ht₁ hl').bind fun _ t₂ _ ht₂ =>
      Admits.pure ht₂ _).congr ?_
    rw [hhere, List.map_cons, freshNames_cons_iff]
    constructor
    · rintro ⟨⟨hn, hf⟩, ⟨hfs, hns⟩, -⟩
      exact ⟨.cons hf hfs, hn, hns⟩
    · rintro ⟨hfs, hn, hns⟩
      cases hfs with
      | cons hf hfs => exact ⟨⟨hn, hf⟩, ⟨hfs, hns⟩, trivial⟩

end Func

/-! ### Programs -/

namespace Program

variable (p : Program)

theorem globalView_locals : p.globalView.locals = none ∧
    p.globalView.here = (p.decls.map fun d => (d.name, d.binding)).reverse := by
  have hglobal : ∀ (new : List (String × Binding)) (v : View), v.locals = none →
      (v.declareNames new).locals = none := by
    intro new
    induction new with
    | nil => exact fun _ h => h
    | cons xb new ih =>
      intro v h
      refine ih (v.declare xb.1 xb.2) ?_
      rw [View.declare, h]
  rw [globalView, View.declareAll_eq]
  exact ⟨hglobal _ _ rfl, (View.here_declareNames _ _).trans (List.append_nil _)⟩

theorem mainView_locals : p.mainView.locals = none := by
  rw [mainView]
  have h := p.globalView_locals.1
  generalize p.globalView = v at h ⊢
  induction p.funcs generalizing v with
  | nil => exact h
  | cons f more ih => exact ih _ (f.here_viewAfter h).1

theorem names_iff : ProperNames p.scopeNames ↔ FreshNames View.empty.here (p.decls.map (·.name)) ∧
    FreshNames p.globalView.here (p.funcs.map (·.name)) := by
  have happend := freshNames_append_iff (p.decls.map fun d => (d.name, d.binding)) []
    (p.funcs.map (·.name))
  rw [List.map_map, freshNames_nil_iff, List.append_nil] at happend
  rw [p.globalView_locals.2]
  exact happend

/-- The walk through a program admits what is well-formed. -/
theorem check_admits : Admits p.check .empty
    ((p.mainView.enter.declareAll p.main.decls).after p.main.body.nodes).leave p.WellFormed := by
  have hinside := View.declareNames_inside (v := p.mainView.enter) rfl
    (p.main.decls.map fun d => (d.name, d.binding))
  rw [← View.declareAll_eq] at hinside
  have hmain (t : SymbolTable) (ht : t.Shows p.mainView) := inScope_admits ht p.mainView_locals
    (w := (p.mainView.enter.declareAll p.main.decls).after p.main.body.nodes)
    (by rw [(View.after_scopes _ _).1]; exact hinside.1) fun t' ht' =>
      (Decl.checkAll_admits ht' p.main.decls).bind fun _ _ _ ht'' => Block.check_admits ht'' p.main.body
  refine ((Decl.checkAll_admits .empty p.decls).bind fun _ t₁ _ ht₁ =>
    (Func.checkAll_admits ht₁ p.globalView_locals.1 p.funcs).bind fun _ t₂ _ ht₂ =>
    (hmain t₂ ht₂).bind fun _ t₃ _ ht₃ => Admits.get (Admits.pure ht₃ _)).congr ?_
  constructor
  · rintro ⟨⟨hds, hfresh⟩, ⟨hfs, hffresh⟩, ⟨⟨hmds, hmfresh⟩, hbody⟩, -⟩
    exact ⟨p.names_iff.2 ⟨hfresh, hffresh⟩, hds, hfs, freshNames_nil_iff.1 hmfresh, hmds, hbody⟩
  · rintro ⟨hn, hds, hfs, hmn, hmds, hbody⟩
    obtain ⟨hfresh, hffresh⟩ := p.names_iff.1 hn
    exact ⟨⟨hds, hfresh⟩, ⟨hfs, hffresh⟩, ⟨⟨hmds, freshNames_nil_iff.2 hmn⟩, hbody⟩, trivial⟩

end Program

/-- A program without faults is well-formed. -/
theorem Program.WellFormed.of_clean {p : Program} (h : p.analyze.isClean = true) : p.WellFormed :=
  p.check_admits.clean.1 (List.isEmpty_iff.1 h)

/-- **The analysis decides well-formedness.** -/
theorem analyze_isClean_iff (p : Program) : p.analyze.isClean = true ↔ p.WellFormed :=
  List.isEmpty_iff.trans p.check_admits.clean

end ThreeAddress
