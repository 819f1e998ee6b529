import Mathlib.Data.List.Forall2
import ThreeAddress.Proofs.TableView

/-!
# Checking decides a judgement

A check over a table that shows a view decides a judgement if it records no fault exactly when the judgement
holds of some value; then that value is the one it comes to, and the table behind it shows the view behind
it.  What a check does once it has recorded a fault plays no part.

* `Decides` — the property;
* `Decides.bind`, `Decides.pure`, `Decides.require` and the like — one law for each way of building checks;
* `Call.check_decides`, `Expr.check_decides`, `Cond.check_decides` — calls, expressions and conditions.
-/

namespace ThreeAddress

variable {α β : Type}

/-- A check over `t` decides the judgement `J` on its value; `w` is the view behind it. -/
structure Decides (p : Check α) (t : SymbolTable) (w : View) (J : α → Prop) : Prop where
  clean : (p.run t).record = [] ↔ ∃ a, J a
  value : ∀ a, J a → (p.run t).value = a
  shows : ∀ a, J a → (p.run t).state.Shows w

namespace Decides

variable {p : Check α} {t : SymbolTable} {v w : View} {J : α → Prop}

theorem congr {K : α → Prop} (h : Decides p t w J) (hJ : ∀ a, J a ↔ K a) : Decides p t w K := by
  rw [← show J = K from funext fun a => propext (hJ a)]
  exact h

/-- A value without a check. -/
theorem pure (ht : t.Shows v) (a : α) : Decides (Pure.pure a) t v (· = a) :=
  ⟨⟨fun _ => ⟨a, rfl⟩, fun _ => rfl⟩, fun _ h => h.symm, fun _ _ => ht⟩

/-- A check that starts with a look at the table. -/
theorem get {f : SymbolTable → Check α} (h : Decides (f t) t w J) : Decides (Pass.get >>= f) t w J :=
  ⟨h.clean, h.value, h.shows⟩

/-- A change of the table. -/
theorem modify {f : SymbolTable → SymbolTable} (ht : (f t).Shows w) :
    Decides (Pass.modify f) t w fun _ => True :=
  ⟨⟨fun _ => ⟨(), trivial⟩, fun _ => rfl⟩, fun _ _ => rfl, fun _ _ => ht⟩

/-- A fault is never in order. -/
theorem report {cause : SemanticCause} {span : Span} {hint : String} :
    Decides (Check.report cause span hint) t w fun _ => False :=
  ⟨⟨fun h => by simp [Check.report] at h, fun ⟨_, h⟩ => h.elim⟩, fun _ h => h.elim, fun _ h => h.elim⟩

/-- A condition that is required. -/
theorem require {ok : Bool} {cause : SemanticCause} {span : Span} {hint : String} (ht : t.Shows v) :
    Decides (Check.require ok cause span hint) t v fun _ => ok = true := by
  unfold Check.require
  split
  · rename_i h
    exact (pure ht ()).congr fun _ => by simp [h]
  · rename_i h
    exact report.congr fun _ => by simp [h]

/-- One check after another: the second matters only where the first is in order. -/
theorem bind {f : α → Check β} {K : α → β → Prop} (hp : Decides p t v J)
    (hf : ∀ a t', J a → t'.Shows v → Decides (f a) t' w (K a)) :
    Decides (p >>= f) t w fun b => ∃ a, J a ∧ K a b := by
  have hnext : ∀ a, J a → Decides (f (p.run t).value) (p.run t).state w (K a) := by
    intro a ha
    have h := hf a (p.run t).state ha (hp.shows a ha)
    rwa [← hp.value a ha] at h ⊢
  refine ⟨?_, ?_, ?_⟩
  · rw [Pass.run_bind, List.append_eq_nil_iff]
    constructor
    · rintro ⟨hrec, hrec'⟩
      obtain ⟨a, ha⟩ := hp.clean.1 hrec
      obtain ⟨b, hb⟩ := (hnext a ha).clean.1 hrec'
      exact ⟨b, a, ha, hb⟩
    · rintro ⟨b, a, ha, hb⟩
      exact ⟨hp.clean.2 ⟨a, ha⟩, (hnext a ha).clean.2 ⟨b, hb⟩⟩
  · rintro b ⟨a, ha, hb⟩
    exact (hnext a ha).value b hb
  · rintro b ⟨a, ha, hb⟩
    exact (hnext a ha).shows b hb

/-- A fault, whatever is done behind it. -/
theorem refuse {cause : SemanticCause} {span : Span} {hint : String} {f : Unit → Check α} :
    Decides (Check.report cause span hint >>= f) t w fun _ => False :=
  ((report (w := w)).bind (w := w) (K := fun _ _ => False) fun _ _ h _ => h.elim).congr fun _ =>
    ⟨fun ⟨_, h, _⟩ => h, fun h => h.elim⟩

end Decides

/-! ### Names and calls -/

variable {t : SymbolTable} {v : View}

/-- Of what is known, the check of a type is exact. -/
theorem Yield.resolvesTo_iff {y : Yield} {type : Ty} (hy : y ≠ .unknown) :
    y.resolvesTo type = true ↔ y.Of type := by
  cases y with
  | value t' => simp [Yield.resolvesTo, Yield.Of]
  | call t' => simp [Yield.resolvesTo, Yield.Of]
  | unknown => exact absurd rfl hy

theorem checkName_decides (ht : t.Shows v) {causes : NameCauses} {x : String} {span : Span}
    {hint : String} : Decides (checkName causes x span hint) t v
      fun y => ∃ type, v.Readable x type ∧ y = .value type := by
  refine Decides.get ?_
  cases hx : t.lookup? x with
  | none =>
    refine Decides.refuse.congr fun y => ⟨fun h => h.elim, fun ⟨type, hr, _⟩ => ?_⟩
    obtain ⟨e, he, -⟩ := ht.readable_iff.2 hr
    rw [hx] at he
    cases he
  | some e =>
    dsimp only
    cases htype : e.valueType? with
    | none =>
      refine Decides.refuse.congr fun y => ⟨fun h => h.elim, fun ⟨type, hr, _⟩ => ?_⟩
      obtain ⟨e', he', htype', -⟩ := ht.readable_iff.2 hr
      cases he'.symm.trans hx
      rw [htype] at htype'
      cases htype'
    | some type =>
      refine ((Decides.require ht).bind fun _ _ _ ht' => Decides.pure ht' _).congr fun y => ?_
      constructor
      · rintro ⟨_, hu, rfl⟩
        exact ⟨type, ht.readable_iff.1 ⟨e, hx, htype, by simpa using hu⟩, rfl⟩
      · rintro ⟨type', hr, rfl⟩
        obtain ⟨e', he', htype', hu⟩ := ht.readable_iff.2 hr
        cases he'.symm.trans hx
        cases htype'.symm.trans htype
        exact ⟨(), by simpa using hu, rfl⟩

theorem Argument.check_decides (ht : t.Shows v) {hint : String} {a : Argument} :
    Decides (a.check hint) t v fun y => ∃ type, a.atom.HasType v type ∧ y = .value type := by
  unfold Argument.check
  split
  · rename_i d hd
    refine (Decides.pure ht _).congr fun y => ?_
    rw [hd]
    exact ⟨fun h => ⟨_, .number, h⟩, fun ⟨_, h, hy⟩ => by cases h; exact hy⟩
  · rename_i x hx
    refine (checkName_decides ht).congr fun y => ?_
    rw [hx]
    exact ⟨fun ⟨type, h, hy⟩ => ⟨type, .name h, hy⟩,
      fun ⟨type, h, hy⟩ => by cases h with | name h => exact ⟨type, h, hy⟩⟩

/-- Arguments in order: each yields a value of some type. -/
theorem checkAll_decides {hint : String} {as : List Argument} (ht : t.Shows v) :
    Decides (as.mapM (Argument.check hint)) t v fun ys =>
      List.Forall₂ (fun (a : Argument) y => ∃ type, a.atom.HasType v type ∧ y = .value type) as ys := by
  induction as generalizing t with
  | nil =>
    rw [List.mapM_nil]
    exact (Decides.pure ht _).congr fun ys => by simp
  | cons a more ih =>
    rw [List.mapM_cons]
    refine ((Argument.check_decides ht).bind fun y _ _ ht' => (ih ht').bind fun ys _ _ ht'' =>
      Decides.pure ht'' _).congr fun ys => ?_
    constructor
    · rintro ⟨y, hy, ys', hys, rfl⟩
      exact .cons hy hys
    · rintro (_ | ⟨hy, hys⟩)
      exact ⟨_, hy, _, hys, rfl⟩

/-- The types of arguments are compared with those of the parameters in order. -/
theorem checkArguments_decides {function hint : String} {position : Nat}
    {items : List (Argument × Yield × Ty)} (ht : t.Shows v)
    (hy : ∀ i ∈ items, ∃ type, i.2.1 = .value type) :
    Decides (checkArguments function hint position items) t v fun _ =>
      ∀ i ∈ items, i.2.1 = .value i.2.2 := by
  induction items generalizing t position with
  | nil => exact (Decides.pure ht ()).congr fun _ => by simp
  | cons i more ih =>
    obtain ⟨a, found, expected⟩ := i
    obtain ⟨type, rfl : found = .value type⟩ := hy _ List.mem_cons_self
    refine ((Decides.require ht).bind fun _ _ _ ht' =>
      ih ht' fun j hj => hy j (List.mem_cons_of_mem _ hj)).congr fun _ => ?_
    simp [Yield.resolvesTo]

theorem View.Readable.unique {x : String} {type type' : Ty} (h : v.Readable x type)
    (h' : v.Readable x type') : type = type' := by
  cases h <;> cases h' <;> simp_all

theorem Atom.HasType.unique {a : Atom} {type type' : Ty} (h : a.HasType v type)
    (h' : a.HasType v type') : type = type' := by
  cases h with
  | number => cases h'; rfl
  | name h =>
    cases h' with
    | name h' => exact h.unique h'

/-- Arguments that yield values fit the parameters if each value is of the type of its parameter. -/
theorem forall_zip_iff {as : List Argument} {ys : List Yield} {params : List Ty}
    (hys : List.Forall₂ (fun (a : Argument) y => ∃ type, a.atom.HasType v type ∧ y = .value type) as ys)
    (hlen : as.length = params.length) :
    (∀ i ∈ as.zip (ys.zip params), i.2.1 = Yield.value i.2.2) ↔
      List.Forall₂ (fun (a : Argument) type => a.atom.HasType v type) as params := by
  induction hys generalizing params with
  | nil =>
    cases params with
    | nil => simp
    | cons => simp at hlen
  | cons hy hys ih =>
    obtain ⟨type, ha, rfl⟩ := hy
    cases params with
    | nil => simp at hlen
    | cons p ps =>
      rw [List.zip_cons_cons, List.zip_cons_cons, List.forall_mem_cons, List.forall₂_cons,
        ih (by simpa using hlen), Yield.value.injEq]
      refine and_congr_left fun _ => ⟨?_, ha.unique⟩
      rintro rfl
      exact ha

theorem exists_value_of_mem {as : List Argument} {ys : List Yield}
    (hys : List.Forall₂ (fun (a : Argument) y => ∃ type, a.atom.HasType v type ∧ y = .value type) as ys)
    {y : Yield} (hy : y ∈ ys) : ∃ type, y = .value type := by
  induction hys with
  | nil => simp at hy
  | cons h _ ih =>
    rcases List.mem_cons.1 hy with rfl | hy
    · obtain ⟨type, -, rfl⟩ := h
      exact ⟨type, rfl⟩
    · exact ih hy

/-- Arguments of the types of parameters yield values of these types. -/
theorem forall_values {as : List Argument} {params : List Ty}
    (h : List.Forall₂ (fun (a : Argument) type => a.atom.HasType v type) as params) :
    List.Forall₂ (fun (a : Argument) y => ∃ type, a.atom.HasType v type ∧ y = .value type) as
      (params.map Yield.value) := by
  rw [List.forall₂_map_right_iff]
  exact h.imp fun _ type ha => ⟨type, ha, rfl⟩

theorem Call.check_decides (ht : t.Shows v) {c : Call} :
    Decides c.check t v fun y => ∃ result, c.Fits v result ∧ y = .call result := by
  refine Decides.get ?_
  cases hk : (t.lookupGlobal? c.name).map Entity.kind with
  | none =>
    refine Decides.refuse.congr fun y => ⟨fun h => h.elim, fun ⟨result, ⟨params, hf, _⟩, _⟩ => ?_⟩
    rw [← ht.function_iff, hk] at hf
    cases hf
  | some kind =>
    cases kind with
    | value =>
      refine Decides.refuse.congr fun y => ⟨fun h => h.elim, fun ⟨result, ⟨params, hf, _⟩, _⟩ => ?_⟩
      rw [← ht.function_iff, hk] at hf
      cases hf
    | function result params =>
      have hf := ht.function_iff.1 hk
      refine ((Decides.require ht).bind fun _ t₁ hle ht₁ => (Decides.require ht₁).bind fun _ t₂ hge ht₂ =>
        (Decides.modify (ht₂.setGlobalState hf .used)).bind fun _ t₃ _ ht₃ =>
        (checkAll_decides ht₃).bind (K := fun ys y => c.args.length = params.length ∧
            (∀ i ∈ c.args.zip (ys.zip params), i.2.1 = Yield.value i.2.2) ∧ y = Yield.call result)
          fun ys t₄ hys ht₄ => ?_).congr fun y => ?_
      · have hcount : c.args.length = params.length := by
          simp only [decide_eq_true_eq] at hle hge
          omega
        simp only [if_pos hcount]
        refine ((checkArguments_decides ht₄ ?_).bind fun _ _ _ ht₅ => Decides.pure ht₅ _).congr ?_
        · intro i hi
          exact exists_value_of_mem hys (List.of_mem_zip (List.of_mem_zip hi).2).1
        · simp [hcount]
      · constructor
        · rintro ⟨-, -, -, -, -, -, ys, hys, hcount, hall, rfl⟩
          exact ⟨result, ⟨params, hf, (forall_zip_iff hys hcount).1 hall⟩, rfl⟩
        · rintro ⟨result', ⟨params', hf', hargs⟩, rfl⟩
          cases hf'.symm.trans hf
          have hcount := hargs.length_eq
          refine ⟨(), by simp [hcount], (), by simp [hcount], (), trivial, _, forall_values hargs, hcount,
            (forall_zip_iff (forall_values hargs) hcount).2 hargs, rfl⟩

/-! ### Expressions and conditions -/

theorem checkOperands_decides (ht : t.Shows v) {cause : Yield → SemanticCause} {expected : Ty}
    {l r : Yield} {span : Span} {hint : String} (hl : l ≠ .unknown) (hr : r ≠ .unknown) :
    Decides (checkOperands cause expected l r span hint) t v fun _ => l.Of expected ∧ r.Of expected := by
  refine ((Decides.require ht).bind fun _ _ _ ht' => Decides.require ht').congr fun _ => ?_
  rw [← Yield.resolvesTo_iff hl, ← Yield.resolvesTo_iff hr]
  simp

theorem checkSigned_decides (ht : t.Shows v) {cause : Yield → SemanticCause} {expected : Ty}
    {x : String} {span : Span} {hint : String} :
    Decides (checkSigned cause expected x span hint) t v
      fun y => v.Readable x expected ∧ y = .value expected := by
  refine ((checkName_decides ht).bind (K := fun found y =>
    found = Yield.value expected ∧ y = Yield.value expected) fun found t' hfound ht' => ?_).congr fun y => ?_
  · obtain ⟨type, -, rfl⟩ := hfound
    refine ((Decides.require ht').bind fun _ _ _ ht'' => Decides.pure ht'' _).congr fun y => ?_
    simp [Yield.resolvesTo]
  · constructor
    · rintro ⟨found, ⟨type, hr, hy⟩, rfl, rfl⟩
      cases hy
      exact ⟨hr, rfl⟩
    · rintro ⟨hr, rfl⟩
      exact ⟨_, ⟨_, hr, rfl⟩, rfl, rfl⟩

theorem Fragment.check_decides (ht : t.Shows v) {f : Fragment} {span : Span} :
    Decides (f.check span) t v fun y => ∃ type, f.HasType v type ∧ y = .value type := by
  cases f with
  | atom negated a =>
    cases a with
    | number d =>
      refine (Decides.pure ht _).congr fun y => ?_
      constructor
      · intro h
        cases negated with
        | false => exact ⟨_, .atom .number, h⟩
        | true => exact ⟨_, .negated .number, h⟩
      · rintro ⟨type, h, rfl⟩
        cases h with
        | atom h => cases h; rfl
        | negated => rfl
    | name x =>
      cases negated with
      | false =>
        refine (checkName_decides ht).congr fun y => ?_
        constructor
        · rintro ⟨type, h, rfl⟩
          exact ⟨type, .atom (.name h), rfl⟩
        · rintro ⟨type, h, rfl⟩
          cases h with
          | atom h => cases h with | name h => exact ⟨type, h, rfl⟩
      | true =>
        refine (checkSigned_decides ht).congr fun y => ?_
        constructor
        · rintro ⟨h, rfl⟩
          exact ⟨_, .negated (.name h), rfl⟩
        · rintro ⟨type, h, rfl⟩
          cases h with
          | negated h => cases h with | name h => exact ⟨h, rfl⟩
  | not x =>
    refine (checkSigned_decides ht).congr fun y => ?_
    constructor
    · rintro ⟨h, rfl⟩
      exact ⟨_, .not h, rfl⟩
    · rintro ⟨type, h, rfl⟩
      cases h with
      | not h => exact ⟨h, rfl⟩
  | zero =>
    refine (Decides.pure ht _).congr fun y => ⟨fun h => ⟨_, .zero, h⟩, ?_⟩
    rintro ⟨type, h, rfl⟩
    cases h
    rfl
  | bool b =>
    refine (Decides.pure ht _).congr fun y => ⟨fun h => ⟨_, .bool, h⟩, ?_⟩
    rintro ⟨type, h, rfl⟩
    cases h
    rfl

theorem Expr.Yields.ne_unknown {e : Expr} {y : Yield} (h : e.Yields v y) : y ≠ .unknown := by
  induction h with
  | arith | logic | call | fragment => simp
  | paren _ ih => exact ih

/-- **Expressions.**  Checking an expression decides what it yields. -/
theorem Expr.check_decides (ht : t.Shows v) {e : Expr} : Decides e.check t v (e.Yields v) := by
  induction e generalizing t with
  | arith op l r s ihl ihr =>
    refine ((ihl ht).bind fun yl _ hyl ht₁ => (ihr ht₁).bind fun yr _ hyr ht₂ =>
      (checkOperands_decides ht₂ hyl.ne_unknown hyr.ne_unknown).bind fun _ _ _ ht₃ =>
        Decides.pure ht₃ _).congr fun y => ?_
    constructor
    · rintro ⟨yl, hl, yr, hr, -, ⟨tl, tr⟩, rfl⟩
      exact .arith hl hr tl tr
    · intro h
      cases h with
      | arith hl hr tl tr => exact ⟨_, hl, _, hr, (), ⟨tl, tr⟩, rfl⟩
  | logic op l r s ihl ihr =>
    refine ((ihl ht).bind fun yl _ hyl ht₁ => (ihr ht₁).bind fun yr _ hyr ht₂ =>
      (checkOperands_decides ht₂ hyl.ne_unknown hyr.ne_unknown).bind fun _ _ _ ht₃ =>
        Decides.pure ht₃ _).congr fun y => ?_
    constructor
    · rintro ⟨yl, hl, yr, hr, -, ⟨tl, tr⟩, rfl⟩
      exact .logic hl hr tl tr
    · intro h
      cases h with
      | logic hl hr tl tr => exact ⟨_, hl, _, hr, (), ⟨tl, tr⟩, rfl⟩
  | paren e s ih =>
    refine (ih ht).congr fun y => ⟨.paren, fun h => ?_⟩
    cases h with
    | paren h => exact h
  | call c s =>
    refine (Call.check_decides ht).congr fun y => ?_
    constructor
    · rintro ⟨result, h, rfl⟩
      exact .call h
    · intro h
      cases h with
      | call h => exact ⟨_, h, rfl⟩
  | fragment f s =>
    refine (Fragment.check_decides ht).congr fun y => ?_
    constructor
    · rintro ⟨type, h, rfl⟩
      exact .fragment h
    · intro h
      cases h with
      | fragment h => exact ⟨_, h, rfl⟩

theorem Yield.agreesWith_iff {a b : Yield} (ha : a ≠ .unknown) (hb : b ≠ .unknown) :
    a.agreesWith b = true ↔ a = b := by
  cases a <;> cases b <;> simp_all [Yield.agreesWith, Yield.isUnknown]

/-- **Conditions.** -/
theorem Cond.check_decides (ht : t.Shows v) {c : Cond} :
    Decides c.check t v fun _ => c.InOrder v := by
  induction c generalizing t with
  | comparison op l r s =>
    refine ((Expr.check_decides ht).bind fun yl _ hyl ht₁ => (Expr.check_decides ht₁).bind
      fun yr _ hyr ht₂ => checkOperands_decides ht₂ hyl.ne_unknown hyr.ne_unknown).congr fun _ => ?_
    constructor
    · rintro ⟨yl, hl, yr, hr, tl, tr⟩
      exact .comparison ⟨yl, hl, tl⟩ ⟨yr, hr, tr⟩
    · intro h
      cases h with
      | comparison hl hr =>
        obtain ⟨yl, hl, tl⟩ := hl
        obtain ⟨yr, hr, tr⟩ := hr
        exact ⟨yl, hl, yr, hr, tl, tr⟩
  | equality op l r s =>
    refine ((Expr.check_decides ht).bind fun yl _ hyl ht₁ => (Expr.check_decides ht₁).bind
      fun yr _ hyr ht₂ => (Decides.require ht₂).congr fun _ =>
        Yield.agreesWith_iff hyl.ne_unknown hyr.ne_unknown).congr fun _ => ?_
    constructor
    · rintro ⟨yl, hl, yr, hr, rfl⟩
      exact .equality hl hr
    · intro h
      cases h with
      | equality hl hr => exact ⟨_, hl, _, hr, rfl⟩
  | neg c s ih =>
    refine (ih ht).congr fun _ => ⟨.neg, fun h => ?_⟩
    cases h with
    | neg h => exact h
  | paren c s ih =>
    refine (ih ht).congr fun _ => ⟨.paren, fun h => ?_⟩
    cases h with
    | paren h => exact h
  | binary op l r s ihl ihr =>
    refine ((ihl ht).bind fun _ _ _ ht₁ => ihr ht₁).congr fun _ => ?_
    constructor
    · rintro ⟨-, hl, hr⟩
      exact .binary hl hr
    · intro h
      cases h with
      | binary hl hr => exact ⟨(), hl, hr⟩
  | bool b s => exact (Decides.pure ht ()).congr fun _ => ⟨fun _ => .bool, fun _ => rfl⟩

end ThreeAddress
