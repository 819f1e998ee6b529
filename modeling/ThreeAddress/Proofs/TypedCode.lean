import ThreeAddress.Proofs.BodyRuns
import ThreeAddress.Proofs.Resolving
import ThreeAddress.Proofs.Typing

/-!
# The code of what is in order is typed

Whatever the view is in which a part of a program is in order, its code can be typed with the types of that
view.  The chain of an expression does not tell what was grouped, but all of its operators join the same type,
and all of its operands have it; so every temporary of the chain has that type, too.

* `Typing.Knows` — types for all that a view binds, under the names that a body has for it;
* `Chain.Over` — the operands of a chain have a type, and its operators join that type;
* `Expr.lower_types`, `Cond.lower_types` — expressions and conditions;
* `Stmt.lowerAll_types` — statements.
-/

namespace ThreeAddress

open NameSupply (tempName flagName labelName)

/-! ### Types for a view -/

/-- The type of the values of what a name is bound to. -/
def Binding.type? : Binding → Option Ty
  | .var type | .const type | .param type => some type
  | .func _ _ => none

/-- All that a view binds is typed under the names that the code of a body has for it. -/
structure Typing.Knows (T : Typing) (v : View) (t : RenameTable) : Prop where
  covers : ∀ x, t.contains x = ((v.scope .inner).lookup x).isSome
  locals : ∀ {x : String} {b : Binding} {type : Ty}, (v.scope .inner).lookup x = some b →
    b.type? = some type → T.type? (localText x t.ordinal) = some type
  globals : ∀ {x : String} {b : Binding} {type : Ty}, v.globals.lookup x = some b →
    b.type? = some type → T.type? x = some type
  routines : ∀ {f : String} {result : Ty} {params : List Ty},
    v.globals.lookup f = some (.func result params) → T.routine? f = some ⟨params, result⟩
  flags : ∀ k, T.type? (flagName k) = some .boolean

namespace Typing.Knows

variable {T T' : Typing} {v w : View} {t : RenameTable}

theorem grows (h : T.Knows v t) (hg : T.Grows T') : T'.Knows v t :=
  ⟨h.covers, fun hx hb => hg.type? (h.locals hx hb), fun hx hb => hg.type? (h.globals hx hb),
    fun hf => hg.routine? ▸ h.routines hf, fun k => hg.type? (h.flags k)⟩

/-- Only the scopes of a view count. -/
theorem congr (h : T.Knows v t) (hl : w.scope .inner = v.scope .inner) (hg : w.globals = v.globals) :
    T.Knows w t := by
  refine ⟨?_, ?_, ?_, ?_, h.flags⟩
  · rw [hl]
    exact h.covers
  · rw [hl]
    exact h.locals
  · rw [hg]
    exact h.globals
  · rw [hg]
    exact h.routines

theorem assign (h : T.Knows v t) (x : String) : T.Knows (v.assign x) t :=
  h.congr (by rw [View.scope, View.scope, (v.assign_scopes x).1]) (v.assign_scopes x).2

theorem after (h : T.Knows v t) (ss : List Stmt) : T.Knows (v.after ss) t :=
  h.congr (by rw [View.scope, View.scope, (v.after_scopes ss).1]) (v.after_scopes ss).2

/-- Outside of bodies, a name is declared that is typed under its own name. -/
theorem declareGlobal (h : T.Knows v t) (hv : v.locals = none) {x : String} {b : Binding}
    (hx : ∀ type, b.type? = some type → T.type? x = some type)
    (hf : ∀ result params, b = .func result params → T.routine? x = some ⟨params, result⟩) :
    T.Knows (v.declare x b) t := by
  have hdeclare : v.declare x b = { v with globals := (x, b) :: v.globals } := by rw [View.declare, hv]
  rw [hdeclare]
  refine ⟨h.covers, h.locals, ?_, ?_, h.flags⟩
  · intro y b' type hy hb'
    rcases lookup_cons_eq_some hy with ⟨rfl, rfl⟩ | hy
    · exact hx type hb'
    · exact h.globals hy hb'
  · intro f result params hy
    rcases lookup_cons_eq_some hy with ⟨rfl, hb⟩ | hy
    · exact hf result params hb.symm
    · exact h.routines hy

/-- Inside of a body, a name is declared that is typed under the name of the local. -/
theorem declareLocal (h : T.Knows v t) (hv : v.locals.isSome) {x : String} {b : Binding}
    (hx : ∀ type, b.type? = some type → T.type? (localText x t.ordinal) = some type) :
    T.Knows (v.declare x b) (t.insert x) := by
  have hinner := View.inner_declare hv x b
  refine ⟨fun y => ?_, ?_, ?_, ?_, h.flags⟩
  · rw [hinner, List.lookup_cons, RenameTable.contains_insert, h.covers y]
    cases y == x with
    | true => exact Bool.or_true _
    | false => exact Bool.or_false _
  · rw [hinner, t.ordinal_insert]
    intro y b' type hy hb'
    rcases lookup_cons_eq_some hy with ⟨rfl, rfl⟩ | hy
    · exact hx type hb'
    · exact h.locals hy hb'
  · rw [View.globals_declare hv]
    exact h.globals
  · rw [View.globals_declare hv]
    exact h.routines

/-- What a name means is typed under the name that the code has for it. -/
theorem resolve (h : T.Knows v t) {x : String} {place : Place} {b : Binding} {type : Ty}
    (hx : v.find? x = some (place, b)) (hb : b.type? = some type) : T.type? (t.resolve x) = some type := by
  unfold RenameTable.resolve
  rw [h.covers x]
  cases hl : (v.scope .inner).lookup x with
  | some b' =>
    rw [View.find?_inner hl] at hx
    cases hx
    exact h.locals hl hb
  | none =>
    rw [View.find?_outer hl] at hx
    obtain ⟨b', hb', hp⟩ := Option.map_eq_some_iff.1 hx
    cases hp
    exact h.globals hb' hb

theorem readable (h : T.Knows v t) {x : String} {type : Ty} (hx : v.Readable x type) :
    T.type? (t.resolve x) = some type := by
  cases hx with
  | const hf | param hf | var hf => exact h.resolve hf rfl

theorem writable (h : T.Knows v t) {x : String} {type : Ty} (hx : v.Writable x type) :
    T.type? (t.resolve x) = some type := by
  cases hx with
  | param hf | var hf => exact h.resolve hf rfl

theorem operand (h : T.Knows v t) {x : String} {type : Ty} (hx : v.Readable x type)
    (hid : isIdentifier x = true) : T.atom? (t.resolve x) = some type :=
  (T.atom?_name (literal?_resolve t hid)).trans (h.readable hx)

theorem atom (h : T.Knows v t) {a : Atom} {type : Ty} (ha : a.HasType v type) (hp : a.Plain) :
    T.atom? (a.lower t) = some type := by
  cases ha with
  | name hx => exact h.operand hx hp.1
  | number => exact T.atom?_isNumeral hp

theorem fragment (h : T.Knows v t) {f : Fragment} {type : Ty} (hf : f.HasType v type)
    (hp : AllPlain f.leaves) : T.Has [] (f.lower t) type := by
  cases hf with
  | atom ha => exact .atom (h.atom ha (hp _ List.mem_cons_self))
  | negated ha =>
    have hzero : T.atom? "0" = some .integer := T.atom?_isNumeral rfl
    exact .arith hzero (h.atom ha (hp _ List.mem_cons_self))
  | not hx => exact .not (h.operand hx (hp _ List.mem_cons_self).1)
  | zero => exact .atom (T.atom?_isNumeral rfl)
  | @bool b => exact .atom (T.atom?_boolText b)

end Typing.Knows

/-! ### Operands -/

/-- A right-hand side has a type, with only the arguments of a call passed by then. -/
def Typing.Gives (a : Point) (type : Ty) (r : Rvalue) (b : Point) (T : Typing) : Prop :=
  ∃ types, b = a.passing types ∧ T.Has types r type

theorem Typing.Gives.of_nil {T : Typing} {a : Point} (ha : a.passed = []) {type : Ty} {r : Rvalue}
    (h : T.Has [] r type) : T.Gives a type r a := ⟨[], (a.passing_nil ha).symm, h⟩

section Lower

variable {T : Typing} {v : View} {t : RenameTable} {g : Generator} {a : Point} {type : Ty}

/-- A value goes into an atom of the same type. -/
theorem atomOf_types (ha : a.passed = []) {b : Point} {r : Rvalue} (hr : T.Gives a type r b) :
    Emit.Types (Emit.atomOf r) g T b fun x c T' => c = a ∧ T'.atom? x = some type := by
  obtain ⟨types, rfl, hr⟩ := hr
  have htemp (r : Rvalue) (hr : T.Has types r type) : Emit.Types (do
      let x ← Emit.take NameSupply.takeTemp
      Emit.assign x r
      return x) g T (a.passing types) fun x c T' => c = a ∧ T'.atom? x = some type := by
    intro hs
    obtain ⟨hg, hs'⟩ := hs.set type
    refine ⟨_, _, hg, hs', .single (.assign (hg.has hr) (T.set_same _ type)), a.passing_nil ha, ?_⟩
    have hname := literal?_of_isReservedName (isReservedName_tempName g.names.temp)
    exact (Typing.atom?_name _ hname).trans (T.set_same _ type)
  cases hr with
  | atom hx => exact .pure ⟨a.passing_nil ha, hx⟩
  | arith hl hr => exact htemp _ (.arith hl hr)
  | logic hl hr => exact htemp _ (.logic hl hr)
  | order hl hr => exact htemp _ (.order hl hr)
  | same hl hr => exact htemp _ (.same hl hr)
  | not hx => exact htemp _ (.not hx)
  | call hs => exact htemp _ (.call hs)

/-- Arguments are passed in order. -/
theorem params_type (hk : T.Knows v t) {as : List Argument} {types : List Ty}
    (has : List.Forall₂ (fun (x : Argument) type => x.atom.HasType v type) as types)
    (hp : AllPlain (as.map (·.atom))) :
    Emit.Types (as.forM fun x => Pass.tell (.param (x.atom.lower t))) g T a fun _ b _ =>
      b = a.passing (a.passed ++ types) := by
  induction has generalizing a g T with
  | nil => exact .pure (by rw [List.append_nil]; rfl)
  | @cons x type as types hx _ ih =>
    refine .tellThen (.param (hk.atom hx (hp _ List.mem_cons_self))) ?_
    refine (ih hk fun y hy => hp y (List.mem_cons_of_mem _ hy)).mono fun c _ _ hc => ?_
    rw [hc]
    show a.passing (a.passed ++ [type] ++ types) = _
    rw [List.append_assoc]
    rfl

theorem Call.lower_types (hk : T.Knows v t) (ha : a.passed = []) {c : Call} (hc : c.Fits v type)
    (hp : AllPlain c.leaves) : Emit.Types (c.lower t) g T a (Typing.Gives a type) := by
  obtain ⟨params, hf, hargs⟩ := hc
  refine (params_type hk hargs hp).bind fun T₁ b hg hb => .pure ⟨params, ?_, ?_⟩
  · rw [hb, ha, List.nil_append]
  · rw [hargs.length_eq]
    exact .call (s := ⟨params, type⟩) (hg.routine? ▸ hk.routines hf)

/-- An operand has a type. -/
def Operand.HasType (v : View) : Operand → Ty → Prop
  | .call c, type => c.Fits v type
  | .fragment f, type => f.HasType v type

theorem Operand.lower_types (hk : T.Knows v t) (ha : a.passed = []) {o : Operand} (ho : o.HasType v type)
    (hp : AllPlain o.leaves) : Emit.Types (o.lower t) g T a (Typing.Gives a type) := by
  cases o with
  | call c => exact Call.lower_types hk ha ho hp
  | fragment f => exact .pure (.of_nil ha (hk.fragment ho hp))

theorem Operand.lowerAtom_types (hk : T.Knows v t) (ha : a.passed = []) {o : Operand}
    (ho : o.HasType v type) (hp : AllPlain o.leaves) :
    Emit.TypesAt (o.lowerAtom t) g T a fun x T' => T'.atom? x = some type :=
  (Operand.lower_types hk ha ho hp).bind fun _ _ _ hr => atomOf_types ha hr

/-! ### Expressions -/

/-- An operator joins operands of a type into a value of that type. -/
inductive Operator.Joins : Operator → Ty → Prop
  | arith (op : ArithOp) : Joins (.arith op) .integer
  | logic (op : Connective) : Joins (.logic op) .boolean

/-- The operands of a chain have a type, and its operators join that type. -/
structure Chain.Over (v : View) (c : Chain Operator Operand) (type : Ty) : Prop where
  head : c.head.HasType v type
  tail : ∀ x ∈ c.tail, x.1.Joins type ∧ x.2.HasType v type

theorem Chain.Over.link {l r : Chain Operator Operand} (hl : l.Over v type) (hr : r.Over v type)
    {op : Operator} (hop : op.Joins type) : (l.link op r).Over v type := by
  refine ⟨hl.head, fun x hx => ?_⟩
  rcases List.mem_append.1 hx with hx | hx
  · exact hl.tail x hx
  · rcases List.mem_cons.1 hx with rfl | hx
    · exact ⟨hop, hr.head⟩
    · exact hr.tail x hx

theorem Chain.Over.single {o : Operand} (ho : o.HasType v type) : (Chain.single o).Over v type :=
  ⟨ho, fun _ hx => absurd hx List.not_mem_nil⟩

theorem Yield.of_value {a b : Ty} (h : (Yield.value a).Of b) : a = b := by
  rcases h with h | h <;> cases h
  rfl

/-- **Chains are uniform.**  Parentheses or not, all operators in the chain of an expression join the type of
the expression, and all operands have it. -/
theorem Expr.HasType.over {e : Expr} (h : e.HasType v type) : e.chain.Over v type := by
  obtain ⟨y, hy, hof⟩ := h
  induction hy generalizing type with
  | @arith op l r s yl yr _ _ tl tr ihl ihr =>
    cases Yield.of_value hof
    exact (ihl tl).link (ihr tr) (.arith op)
  | @logic op l r s yl yr _ _ tl tr ihl ihr =>
    cases Yield.of_value hof
    exact (ihl tl).link (ihr tr) (.logic op)
  | paren _ ih => exact ih hof
  | call hc =>
    rcases hof with hof | hof <;> cases hof
    exact .single hc
  | fragment hf =>
    cases Yield.of_value hof
    exact .single hf

/-- What an operator joins goes into a value of the same type. -/
theorem Operator.Joins.has {op : Operator} (h : op.Joins type) {l r : String}
    (hl : T.atom? l = some type) (hr : T.atom? r = some type) : T.Has [] (.binary l op r) type := by
  cases h with
  | arith op => exact .arith hl hr
  | logic op => exact .logic hl hr

/-- Atoms of a type behind operators that join it. -/
def Typing.Links (T : Typing) (type : Ty) (xs : List (Operator × String)) : Prop :=
  ∀ x ∈ xs, x.1.Joins type ∧ T.atom? x.2 = some type

theorem Typing.Links.grows {T T' : Typing} {xs : List (Operator × String)} (h : T.Links type xs)
    (hg : T.Grows T') : T'.Links type xs := fun x hx => ⟨(h x hx).1, hg.atom? (h x hx).2⟩

/-- The members of a chain behind its head become atoms. -/
theorem members_type (hk : T.Knows v t) (ha : a.passed = []) {xs : List (Operator × Operand)}
    (hxs : ∀ x ∈ xs, x.1.Joins type ∧ x.2.HasType v type)
    (hp : AllPlain (xs.flatMap fun x => x.2.leaves)) :
    Emit.TypesAt (xs.mapM (lowerMember t)) g T a fun as T' => T'.Links type as := by
  induction xs generalizing g T with
  | nil =>
    rw [List.mapM_nil]
    exact .pure fun x hx => absurd hx List.not_mem_nil
  | cons x more ih =>
    rw [List.flatMap_cons] at hp
    rw [List.mapM_cons]
    obtain ⟨hop, ho⟩ := hxs x List.mem_cons_self
    have hfirst : Emit.TypesAt (lowerMember t x) g T a fun y T' =>
        y.1.Joins type ∧ T'.atom? y.2 = some type :=
      (Operand.lowerAtom_types hk ha ho hp.left).bind fun _ _ hy => Emit.TypesAt.pure ⟨hop, hy⟩
    refine hfirst.bind fun T₁ hg₁ hy => ?_
    refine (ih (hk.grows hg₁) (fun y hy => hxs y (List.mem_cons_of_mem _ hy)) hp.right).bind
      fun T₂ hg₂ hys => Emit.TypesAt.pure fun z hz => ?_
    rcases List.mem_cons.1 hz with rfl | hz
    · exact ⟨hy.1, hg₂.atom? hy.2⟩
    · exact hys z hz

/-- Each operator is applied to atoms of the type, and its result is one more of them. -/
theorem foldAtoms_types (ha : a.passed = []) {left : String} {xs : List (Operator × String)}
    (hl : T.atom? left = some type) (hxs : T.Links type xs) :
    Emit.TypesAt (foldAtoms left xs) g T a fun x T' => T'.atom? x = some type := by
  induction xs generalizing g T left with
  | nil => exact .pure hl
  | cons x more ih =>
    obtain ⟨hop, hx⟩ := hxs x List.mem_cons_self
    have hfirst : Emit.TypesAt (Emit.atomOf (.binary left x.1 x.2)) g T a fun x T' =>
        T'.atom? x = some type := atomOf_types ha (.of_nil ha (hop.has hl hx))
    refine hfirst.bind fun T₁ hg hr => ?_
    exact ih hr (Typing.Links.grows (fun y hy => hxs y (List.mem_cons_of_mem _ hy)) hg)

theorem lowerLinks_types (ha : a.passed = []) {head : String} {xs : List (Operator × String)}
    (hl : T.atom? head = some type) (hxs : T.Links type xs) :
    Emit.Types (lowerLinks head xs) g T a (Typing.Gives a type) := by
  unfold lowerLinks
  split
  · rename_i op right
    obtain ⟨hop, hr⟩ := hxs _ List.mem_cons_self
    exact .pure (.of_nil ha (hop.has hl hr))
  · exact (foldAtoms_types ha hl hxs).bind fun T₁ hg hx => .pure (.of_nil ha (.atom hx))

/-- **Expressions.**  The code of an expression is typed, and leads to a right-hand side of its type. -/
theorem Expr.lower_types (hk : T.Knows v t) (ha : a.passed = []) {e : Expr} (he : e.HasType v type)
    (hp : AllPlain e.leaves) : Emit.Types (e.lower t) g T a (Typing.Gives a type) := by
  have hover := he.over
  rw [Expr.leaves_eq] at hp
  unfold Expr.lower
  split
  · rename_i only hchain
    rw [hchain] at hp hover
    exact Operand.lower_types hk ha hover.head hp.left
  · rename_i first more hne hchain
    rw [hchain] at hp hover
    refine (Operand.lowerAtom_types hk ha hover.head hp.left).bind fun T₁ hg₁ hhead => ?_
    refine (members_type (hk.grows hg₁) ha hover.tail hp.right).bind fun T₂ hg₂ htail => ?_
    exact lowerLinks_types ha (hg₂.atom? hhead) htail

theorem Expr.lowerAtom_types (hk : T.Knows v t) (ha : a.passed = []) {e : Expr} (he : e.HasType v type)
    (hp : AllPlain e.leaves) : Emit.TypesAt (e.lowerAtom t) g T a fun x T' => T'.atom? x = some type :=
  (Expr.lower_types hk ha he hp).bind fun _ _ _ hr => atomOf_types ha hr

/-! ### Conditions -/

/-- A flag is boolean. -/
theorem Typing.Knows.flag (hk : T.Knows v t) (k : Nat) : T.atom? (flagName k) = some .boolean :=
  (T.atom?_name (literal?_of_isReservedName (isReservedName_flagName k))).trans (hk.flags k)

theorem flagOf_types (hk : T.Knows v t) (ha : a.passed = []) {predicate : Rvalue}
    (hr : T.Has [] predicate .boolean) :
    Emit.TypesAt (flagOf predicate) g T a fun x T' => T'.atom? x = some .boolean := by
  have hset (b : Bool) : T.Step a (.assign (flagName g.names.flag) (.atom (boolText b))) a :=
    .assign_nil ha (.atom (T.atom?_boolText b)) (hk.flags _)
  refine .silent rfl rfl (.silent rfl rfl (.tellThen (hset false) ?_))
  refine .tellThen (.ifz_nil ha hr) (.tellThen (hset true) ?_)
  exact .tellThen (.label (isReservedName_labelName _) ha) (.pure ⟨rfl, hk.flag _⟩)

/-- All flags of a chain are boolean. -/
structure Typing.Flags (T : Typing) (c : Chain Connective String) : Prop where
  head : T.atom? c.head = some .boolean
  tail : ∀ x ∈ c.tail, T.atom? x.2 = some .boolean

theorem Typing.Flags.single {x : String} (h : T.atom? x = some .boolean) : T.Flags (.single x) :=
  ⟨h, fun _ hy => absurd hy List.not_mem_nil⟩

theorem Typing.Flags.link {l r : Chain Connective String} (hl : T.Flags l) (hr : T.Flags r)
    (op : Connective) : T.Flags (l.link op r) := by
  refine ⟨hl.head, fun x hx => ?_⟩
  rcases List.mem_append.1 hx with hx | hx
  · exact hl.tail x hx
  · rcases List.mem_cons.1 hx with rfl | hx
    · exact hr.head
    · exact hr.tail x hx

theorem Typing.Flags.grows {T T' : Typing} {c : Chain Connective String} (h : T.Flags c)
    (hg : T.Grows T') : T'.Flags c := ⟨hg.atom? h.head, fun x hx => hg.atom? (h.tail x hx)⟩

theorem combineFlags_types (hk : T.Knows v t) (ha : a.passed = []) {first : String}
    {more : List (Connective × String)} (hf : T.Flags ⟨first, more⟩) :
    Emit.TypesAt (combineFlags first more) g T a fun x T' => T'.atom? x = some .boolean := by
  induction more generalizing g T first with
  | nil => exact .pure hf.head
  | cons x more ih =>
    have hmore : T.Flags ⟨x.2, more⟩ :=
      ⟨hf.tail x List.mem_cons_self, fun y hy => hf.tail y (List.mem_cons_of_mem _ hy)⟩
    refine (ih hk hmore).bind fun T₁ hg hrecent => .silent rfl rfl ?_
    have hk₁ := hk.grows hg
    have hjoined : T₁.Has [] (.binary _ (.logic x.1) first) .boolean := .logic hrecent (hg.atom? hf.head)
    exact .tellThen (.assign_nil ha hjoined (hk₁.flags _)) (.pure ⟨rfl, hk₁.flag _⟩)

theorem lowerCompared_types (hk : T.Knows v t) (ha : a.passed = []) (op : Operator) {l r : Expr}
    {type : Ty} (hl : l.HasType v type) (hr : r.HasType v type) (hp : AllPlain (l.leaves ++ r.leaves))
    (hop : ∀ {T : Typing} {x y : String}, T.atom? x = some type → T.atom? y = some type →
      T.Has [] (.binary x op y) .boolean) :
    Emit.TypesAt (lowerCompared t op l r) g T a fun flags T' => T'.Flags flags := by
  refine (Expr.lowerAtom_types hk ha hl hp.left).bind fun T₁ hg₁ hx => ?_
  refine (Expr.lowerAtom_types (hk.grows hg₁) ha hr hp.right).bind fun T₂ hg₂ hy => ?_
  exact (flagOf_types ((hk.grows hg₁).grows hg₂) ha (hop (hg₂.atom? hx) hy)).bind
    fun T₃ hg₃ hflag => Emit.TypesAt.pure (.single hflag)

/-- What an expression yields has a type. -/
theorem Expr.Yields.hasType {e : Expr} {y : Yield} (h : e.Yields v y) : ∃ type, y.Of type := by
  cases y with
  | value type => exact ⟨type, .inl rfl⟩
  | call type => exact ⟨type, .inr rfl⟩
  | unknown => exact absurd rfl h.ne_unknown

theorem Cond.lowerFlags_types (hk : T.Knows v t) (ha : a.passed = []) {c : Cond} (hc : c.InOrder v)
    (hp : AllPlain c.leaves) :
    Emit.TypesAt (c.lowerFlags t) g T a fun flags T' => T'.Flags flags := by
  induction hc generalizing g T with
  | @comparison op l r s hl hr => exact lowerCompared_types hk ha (.order op) hl hr hp .order
  | @equality op l r s y hl hr =>
    obtain ⟨type, hof⟩ := hl.hasType
    exact lowerCompared_types hk ha (.same op) ⟨y, hl, hof⟩ ⟨y, hr, hof⟩ hp .same
  | neg _ ih =>
    refine (ih hk hp).bind fun T₁ hg₁ hflags => ?_
    refine (combineFlags_types (hk.grows hg₁) ha hflags).bind fun T₂ hg₂ hall => ?_
    have hpredicate : T₂.Has [] (.binary _ (.same .equal) "false") .boolean :=
      .same hall (T₂.atom?_boolText false)
    exact (flagOf_types ((hk.grows hg₁).grows hg₂) ha hpredicate).bind
      fun T₃ hg₃ hflag => Emit.TypesAt.pure (.single hflag)
  | paren _ ih => exact ih hk hp
  | @binary op l r s _ _ ihl ihr =>
    refine (ihl hk hp.left).bind fun T₁ hg₁ hl => ?_
    refine (ihr (hk.grows hg₁) hp.right).bind fun T₂ hg₂ hr => Emit.TypesAt.pure ?_
    exact (hl.grows hg₂).link hr op
  | @bool b s =>
    exact (flagOf_types hk ha (.atom (T.atom?_boolText b))).bind
      fun T₁ hg₁ hflag => Emit.TypesAt.pure (.single hflag)

/-- **Conditions.**  The code of a condition is typed, and leads to a predicate. -/
theorem Cond.lower_types (hk : T.Knows v t) (ha : a.passed = []) {c : Cond} (hc : c.InOrder v)
    (hp : AllPlain c.leaves) : Emit.TypesAt (c.lower t) g T a fun r T' => T'.Has [] r .boolean := by
  refine (Cond.lowerFlags_types hk ha hc hp).bind fun T₁ hg₁ hflags => ?_
  refine (combineFlags_types (hk.grows hg₁) ha hflags).bind fun T₂ hg₂ hall => Emit.TypesAt.pure ?_
  exact .same hall (T₂.atom?_boolText true)

/-! ### Statements -/

/-- An expression is computed and stored. -/
theorem Expr.lowerInto_types (hk : T.Knows v t) (ha : a.passed = []) {e : Expr} (he : e.HasType v type)
    (hp : AllPlain e.leaves) {x : String} (hx : T.type? x = some type) :
    Emit.TypesAt (do
      let r ← e.lower t
      Emit.assign x r) g T a fun _ _ => True := by
  refine (Expr.lower_types hk ha he hp).bind fun T₁ b hg hr => ?_
  obtain ⟨types, rfl, hr⟩ := hr
  exact .tell (.assign hr (hg.type? hx)) ⟨a.passing_nil ha, trivial⟩

/-- A call is made as a statement. -/
theorem Call.lowerAlone_types (hk : T.Knows v t) (ha : a.passed = []) {c : Call} (hc : c.Fits v type)
    (hp : AllPlain c.leaves) :
    Emit.TypesAt (do
      let _ ← c.lower t
      Pass.tell (.call c.name c.args.length)) g T a fun _ _ => True := by
  refine (Call.lower_types hk ha hc hp).bind fun T₁ b hg hr => ?_
  obtain ⟨types, rfl, hr⟩ := hr
  exact .tell (.call hr) ⟨a.passing_nil ha, trivial⟩

/-- **Statements.**  The code of statements is typed. -/
theorem Stmt.lowerAll_types (hk : T.Knows v t) (ha : a.passed = []) {ss : List Stmt}
    (hss : Stmt.AllInOrder v ss) (hp : AllPlain (Stmt.leavesOfList ss)) :
    Emit.TypesAt (Stmt.lowerAll t ss) g T a fun _ _ => True := by
  have hmark (k : Nat) (T : Typing) : T.Step a (.label (labelName k)) a :=
    .label (isReservedName_labelName k) ha
  induction hss generalizing g T with
  | nil =>
    rw [Stmt.lowerAll]
    exact .pure trivial
  | @assign v x e _ _ type more he hx _ ih =>
    rw [Stmt.lowerAll, Stmt.lower]
    have hstored := Expr.lowerInto_types (g := g) hk ha he
      (fun y hy => hp.left y (List.mem_cons_of_mem _ hy)) (hk.writable hx)
    exact hstored.bind fun T₁ hg₁ _ => ih ((hk.grows hg₁).assign x) hp.right
  | @ite v c th el s more hc _ _ _ iht ihe ih =>
    obtain ⟨hpc, hpt, hpe⟩ := hp.left.ite
    rw [Stmt.lowerAll, Stmt.lower, Block.lower, Block.lower]
    refine Emit.TypesAt.bind (Q := fun _ _ => True) (.silent rfl rfl ?_) fun T₁ hg₁ _ =>
      ih (((hk.grows hg₁).after th.nodes).after el.nodes) hp.right
    refine (Cond.lower_types hk ha hc hpc).bind fun T₁ hg₁ hpredicate => ?_
    refine .tellThen (.ifz_nil ha hpredicate) ?_
    refine (iht (hk.grows hg₁) hpt).bind fun T₂ hg₂ _ => ?_
    refine .tellThen (.goto ha) (.tellThen (hmark _ _) ?_)
    refine (ihe (((hk.grows hg₁).grows hg₂).after th.nodes) hpe).bind fun T₃ hg₃ _ => ?_
    exact .tell (hmark _ _) ⟨rfl, trivial⟩
  | @loop v c b s more hc _ _ ihb ih =>
    obtain ⟨hpc, hpb⟩ := hp.left.loop
    rw [Stmt.lowerAll, Stmt.lower, Block.lower]
    refine Emit.TypesAt.bind (Q := fun _ _ => True) (.silent rfl rfl (.tellThen (hmark _ _) ?_)) fun T₁ hg₁ _ =>
      ih ((hk.grows hg₁).after b.nodes) hp.right
    refine (Cond.lower_types hk ha hc hpc).bind fun T₁ hg₁ hpredicate => ?_
    refine .tellThen (.ifz_nil ha hpredicate) ?_
    refine (ihb (hk.grows hg₁) hpb).bind fun T₂ hg₂ _ => ?_
    exact .tellThen (.goto ha) (.tell (hmark _ _) ⟨rfl, trivial⟩)
  | @call v c s result more hc _ ih =>
    rw [Stmt.lowerAll, Stmt.lower]
    exact (Call.lowerAlone_types hk ha hc hp.left).bind fun T₁ hg₁ _ => ih (hk.grows hg₁) hp.right
  | @block v b s more _ _ ihb ih =>
    have hpb := hp.left.block
    rw [Stmt.lowerAll, Stmt.lower, Block.lower]
    exact (ihb hk hpb).bind fun T₁ hg₁ _ => ih ((hk.grows hg₁).after b.nodes) hp.right
  | skip _ ih =>
    rw [Stmt.lowerAll, Stmt.lower]
    exact ih hk hp.right

end Lower

end ThreeAddress
