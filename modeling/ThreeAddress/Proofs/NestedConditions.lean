import ThreeAddress.Proofs.FlatExpressions

/-!
# The chain that a condition is

The code of a condition tests its atomic conditions in order, every one of them, and combines their truths from the
right, under any interpretation that is the usual one on truth values.  A negation is atomic: what it negates is a
condition of its own.

* `Cond.connectives`, `Cond.outcomes` — the connectives of a condition, and the truths of its atomic conditions;
* `rightNest?`, `Cond.meaning` — truths combined from the right;
* `Interpretation.Usual` — what is supposed of truth values;
* `Emit.Drives` — the code that a pass emits takes a run to its end;
* `Cond.lower_decides` — a condition of any shape.
-/

namespace ThreeAddress

open NameSupply (tempName flagName labelName)

variable {V : Type}

/-! ### Connectives and truths -/

/-- Truths combined from the right: `b₁ op₁ (b₂ op₂ (… bₙ))`.  There is one truth more than there are connectives. -/
def rightNest? : List Connective → List Bool → Option Bool
  | [], [b] => some b
  | op :: ops, b :: more => (rightNest? ops more).map (op.apply b)
  | _, _ => none

theorem rightNest?_isSome {ops : List Connective} {bs : List Bool} (h : ops.length + 1 = bs.length) :
    ∃ b, rightNest? ops bs = some b := by
  induction ops generalizing bs with
  | nil =>
    obtain ⟨b, rfl⟩ := List.length_eq_one_iff.1 h.symm
    exact ⟨b, rfl⟩
  | cons op ops ih =>
    match bs, h with
    | b :: more, h =>
      have hlength : ops.length + 1 = more.length := by simpa using h
      obtain ⟨b', hb'⟩ := ih hlength
      exact ⟨op.apply b b', by rw [rightNest?, hb']; rfl⟩

namespace Cond

/-- The connectives of a condition in order, down to its atomic conditions.  Parentheses are not seen. -/
def connectives : Cond → List Connective
  | .binary op left right _ => left.connectives ++ op :: right.connectives
  | .paren inner _ => inner.connectives
  | .comparison _ _ _ _ | .equality _ _ _ _ | .neg _ _ | .bool _ _ => []

variable (I : Interpretation V) (t : RenameTable) (store : String → V)

/-- The truths of the atomic conditions in order.  Each of them is tested once, behind the calls in its operands; a
negation is tested behind the tests in what it negates. -/
def outcomes : Cond → List (Observation V) → List Bool × List (Observation V)
  | .comparison op left right _, h =>
    let l := left.meaning I t store h
    let r := right.meaning I t store l.2
    let b := I.holds (I.apply (.order op) l.1 r.1)
    ([b], r.2 ++ [.test b])
  | .equality op left right _, h =>
    let l := left.meaning I t store h
    let r := right.meaning I t store l.2
    let b := I.holds (I.apply (.same op) l.1 r.1)
    ([b], r.2 ++ [.test b])
  | .neg inner _, h =>
    let i := inner.outcomes h
    let b := !(rightNest? inner.connectives i.1).getD false
    ([b], i.2 ++ [.test b])
  | .paren inner _, h => inner.outcomes h
  | .binary _ left right _, h =>
    let l := left.outcomes h
    let r := right.outcomes l.2
    (l.1 ++ r.1, r.2)
  | .bool b _, h => ([b], h ++ [.test b])

/-- The truth of a condition: the truths of its atomic conditions, combined from the right. -/
def meaning (c : Cond) (h : List (Observation V)) : Bool × List (Observation V) :=
  ((rightNest? c.connectives (c.outcomes I t store h).1).getD false, (c.outcomes I t store h).2)

/-- There is one truth more than there are connectives. -/
theorem length_outcomes (c : Cond) (h : List (Observation V)) :
    c.connectives.length + 1 = (c.outcomes I t store h).1.length := by
  induction c generalizing h with
  | comparison | equality | neg | bool => rfl
  | paren c s ih => exact ih h
  | binary op l r s ihl ihr =>
    rw [connectives, outcomes, List.length_append, List.length_append, List.length_cons, ← ihl, ← ihr]
    omega

theorem rightNest?_outcomes (c : Cond) (h : List (Observation V)) :
    rightNest? c.connectives (c.outcomes I t store h).1 = some (c.meaning I t store h).1 := by
  obtain ⟨b, hb⟩ := rightNest?_isSome (c.length_outcomes I t store h)
  rw [meaning, hb, Option.getD_some]

end Cond

/-! ### Truth values -/

/-- Truth values are what they usually are: tests tell them apart, and the connectives and equality are the usual ones
on them. -/
structure Interpretation.Usual (I : Interpretation V) : Prop where
  holds : ∀ b, I.holds (I.constant (.boolean b)) = b
  logic : ∀ op a b, I.apply (.logic op) (I.constant (.boolean a)) (I.constant (.boolean b)) =
    I.constant (.boolean (op.apply a b))
  equal : ∀ a b, I.apply (.same .equal) (I.constant (.boolean a)) (I.constant (.boolean b)) =
    I.constant (.boolean (a == b))

theorem Interpretation.exact_usual (answer : List (Observation Value) → String → List Value → Value) :
    (Interpretation.exact answer).Usual where
  holds := Value.holds_boolean
  logic _ _ _ := rfl
  equal a b := by cases a <;> cases b <;> rfl

/-! ### Runs through emitted code -/

/-- The code that a pass emits, wherever it stands with its labels nowhere else, takes a run to its end, and then `Q`
holds of the value of the pass and of where the run stands. -/
def Emit.Drives {α : Type} (p : Emit α) (I : Interpretation V) (code : List Instruction) (g : Generator) (s : Moment V)
    (Q : α → Moment V → Prop) : Prop :=
  (p.run g).record <+: code.drop s.pc → DefinesOnce code g.names (p.run g).state.names →
    ∃ s', I.Crosses code g.names (p.run g).state.names (p.run g).record.length s s' ∧ Q (p.run g).value s'

namespace Emit.Drives

variable {α β : Type} {I : Interpretation V} {code : List Instruction} {g : Generator} {s : Moment V} {p : Emit α}
  {Q : α → Moment V → Prop}

/-- Nothing is emitted. -/
theorem pure {a : α} (h : Q a s) : Emit.Drives (Pure.pure a) I code g s Q := fun _ _ => ⟨s, .refl _ s, h⟩

/-- One pass after another. -/
theorem bind {f : α → Emit β} {R : β → Moment V → Prop} (hp : Emit.Drives p I code g s Q) (ho : Emit.Orderly p)
    (hof : ∀ a, Emit.Orderly (f a))
    (hf : ∀ s', Unchanged g.names (p.run g).state.names s s' → Q (p.run g).value s' →
      Emit.Drives (f (p.run g).value) I code (p.run g).state s' R) : Emit.Drives (p >>= f) I code g s R := by
  intro hat honce
  rw [Pass.run_bind] at hat honce ⊢
  have hgrows := (ho g).grows
  have hgrows' := (hof (p.run g).value (p.run g).state).grows
  obtain ⟨hfirst, hmore⟩ := piece_append hat
  obtain ⟨s₁, hcross, hq⟩ := hp hfirst (honce.mono (.refl _) hgrows')
  rw [← hcross.pc] at hmore
  obtain ⟨s₂, hcross', hr⟩ := hf s₁ hcross.unchanged hq hmore (honce.mono hgrows (.refl _))
  refine ⟨s₂, ?_, hr⟩
  rw [List.length_append]
  exact hcross.trans hcross' hgrows hgrows'

end Emit.Drives

section Lower

variable {I : Interpretation V} {code : List Instruction} {t : RenameTable} {store : String → V} {g : Generator}
  {s : Moment V}

/-- A value goes into an atom. -/
theorem atomOf_drives {r : Rvalue} {v : V} {p : List V} {h : List (Observation V)}
    (heval : I.eval s r = (v, { s with passed := p, trace := h })) (hold : ∀ a, r = .atom a → g.names.Old a) :
    Emit.Drives (Emit.atomOf r) I code g s fun a s' =>
      Shows I ((Emit.atomOf r).run g).state.names s' a v ∧ s'.passed = p ∧ s'.trace = h := by
  cases r with
  | atom a =>
    obtain ⟨hread, hs⟩ := Prod.mk.inj heval
    have hpassed := congrArg Moment.passed hs
    have htrace := congrArg Moment.trace hs
    exact Emit.Drives.pure ⟨⟨hread, hold a rfl⟩, hpassed, htrace⟩
  | binary | call | not => exact fun hat _ => assignTemp_cross hat heval

/-- The atom of an expression has its value. -/
theorem Expr.lowerAtom_drives {e : Expr} (hp : AllPlain e.leaves) (hs : t.Sees store s) :
    Emit.Drives (e.lowerAtom t) I code g s fun a s' =>
      Shows I ((e.lowerAtom t).run g).state.names s' a (e.meaning I t store s.trace).1 ∧
        s'.passed = s.passed ∧ s'.trace = (e.meaning I t store s.trace).2 := by
  have hlower : Emit.Drives (e.lower t) I code g s fun r s' => I.eval s' r =
      ((e.meaning I t store s.trace).1, { s' with passed := s.passed, trace := (e.meaning I t store s.trace).2 }) :=
    fun hat _ => e.lower_crosses hp hs hat
  exact hlower.bind (e.lower_orderly t) (fun _ => .atomOf _) fun s' _ heval =>
    atomOf_drives heval fun a ha => e.old_lower hp ha

/-- A flag tells whether a predicate holds, whose value does not depend on new names. -/
theorem flagOf_drives {predicate : Rvalue} {v : V}
    (hv : ∀ (n' : NameSupply) (s' : Moment V), Unchanged g.names n' s s' → I.eval s' predicate = (v, s')) :
    Emit.Drives (flagOf predicate) I code g s fun flag s' =>
      Shows I ((flagOf predicate).run g).state.names s' flag (I.constant (.boolean (I.holds v))) ∧
        s'.passed = s.passed ∧ s'.trace = s.trace ++ [.test (I.holds v)] := by
  let flag := flagName g.names.flag
  let skip := labelName g.names.label
  let g' : Generator := ((flagOf predicate).run g).state
  have hgives : g.names.Gives g'.names flag := .inr ⟨_, Nat.le_refl _, Nat.lt_succ_self _, rfl⟩
  have hold : g'.names.Old flag := NameSupply.old_flag (Nat.lt_succ_self _)
  have hname : literal? flag = none := literal?_of_isReservedName (isReservedName_flagName _)
  have hassign (b : Bool) {s₁ : Moment V} (hat : code[s₁.pc]? = some (.assign flag (.atom (boolText b)))) :
      ∃ s₂, I.Crosses code g.names g'.names 1 s₁ s₂ ∧ Shows I g'.names s₂ flag (I.constant (.boolean b)) ∧
        s₂.passed = s₁.passed ∧ s₂.trace = s₁.trace := by
    refine I.assign_cross hat ?_ hgives hold hname
    rw [Interpretation.eval, I.read_literal _ (literal?_boolText b)]
  intro hat honce
  have hat : [.assign flag (.atom (boolText false)), .ifz predicate skip, .assign flag (.atom (boolText true)),
    .label skip] <+: code.drop s.pc := hat
  have hifz := (piece_append (a := [_]) hat).2
  have htrue := (piece_append (a := [_, _]) hat).2
  have hlabel := (piece_append (a := [_, _, _]) hat).2
  obtain ⟨s₁, hcross₁, hshows₁, hpassed₁, htrace₁⟩ := hassign false (piece_head hat)
  have heval := hv _ s₁ hcross₁.unchanged
  rw [List.length_singleton, ← hcross₁.pc] at hifz
  cases hholds : I.holds v with
  | true =>
    let s₂ : Moment V := (s₁.tested true).next
    have hstep₂ : I.step code s₁ = some s₂ := by
      rw [I.step_ifz_true (piece_head hifz) (by rw [heval]; exact hholds), heval]
    have hpc₂ : s₂.pc = s.pc + 2 := congrArg (· + 1) hcross₁.pc
    have hat₂ : code[s₂.pc]? = some (.assign flag (.atom (boolText true))) := by
      rw [hpc₂]
      exact piece_head htrue
    obtain ⟨s₃, hcross₃, hshows₃, hpassed₃, htrace₃⟩ := hassign true hat₂
    have hpc₃ : s₃.pc = s.pc + 3 := by rw [hcross₃.pc, hpc₂]
    have hstep₄ : I.step code s₃ = some s₃.next := I.step_label (by rw [hpc₃]; exact piece_head hlabel)
    have hcross := ((hcross₁.append (.single hstep₂ rfl (.of_eq rfl))).append hcross₃).append
      (.single hstep₄ rfl (.of_eq rfl))
    refine ⟨s₃.next, hcross, ⟨hshows₃.read, hold⟩, hpassed₃.trans hpassed₁, ?_⟩
    rw [← htrace₁]
    exact htrace₃
  | false =>
    let s₂ : Moment V := { s₁.tested false with pc := s.pc + 3 }
    have hjump := honce.jump_eq (Nat.le_refl _) (Nat.lt_succ_self _) (piece_head hlabel) (s₁.tested false)
    have hstep₂ : I.step code s₁ = some s₂ := by
      rw [I.step_ifz_false (piece_head hifz) (by rw [heval]; exact hholds), heval]
      exact hjump
    have hcross₂ : I.Crosses code g.names g'.names 2 s₁ s₂ :=
      ⟨.single hstep₂ (Nat.le_refl _) (by omega), by rw [hcross₁.pc], .of_eq rfl⟩
    have hstep₃ : I.step code s₂ = some s₂.next := I.step_label (piece_head hlabel)
    have hcross := (hcross₁.append hcross₂).append (.single hstep₃ rfl (.of_eq rfl))
    refine ⟨s₂.next, hcross, ⟨hshows₁.read, hold⟩, hpassed₁, ?_⟩
    rw [← htrace₁]
    rfl

/-! #### Flags -/

/-- Flags show truths in order, and stand between connectives. -/
structure FlagsShow (I : Interpretation V) (n : NameSupply) (s : Moment V) (flags : Chain Connective String)
    (ops : List Connective) (bs : List Bool) : Prop where
  connectives : flags.links = ops
  shows : List.Forall₂ (fun a b => Shows I n s a (I.constant (.boolean b))) flags.members bs

namespace FlagsShow

variable {n n' : NameSupply} {s' : Moment V} {flags flags' : Chain Connective String} {ops ops' : List Connective}
  {bs bs' : List Bool}

theorem single {a : String} {b : Bool} (h : Shows I n s a (I.constant (.boolean b))) :
    FlagsShow I n s (.single a) [] [b] := ⟨rfl, .cons h .nil⟩

theorem mono (h : FlagsShow I n s flags ops bs) (hu : Unchanged n n' s s') (hn : n.Le n') :
    FlagsShow I n' s' flags ops bs := ⟨h.connectives, h.shows.imp fun _ _ hx => hx.mono hu hn⟩

theorem link (h : FlagsShow I n s flags ops bs) (op : Connective) (h' : FlagsShow I n s flags' ops' bs') :
    FlagsShow I n s (flags.link op flags') (ops ++ op :: ops') (bs ++ bs') := by
  refine ⟨?_, ?_⟩
  · rw [Chain.links_link, h.connectives, h'.connectives]
  · rw [Chain.members_link]
    exact List.rel_append h.shows h'.shows

end FlagsShow

/-- Flags are combined from the right; the later ones stand on the left of each connective. -/
theorem combineFlags_drives (hI : I.Usual) {first : String} {flags : List (Connective × String)} {bs : List Bool}
    {b : Bool} (hshows : FlagsShow I g.names s ⟨first, flags⟩ (flags.map (·.1)) bs)
    (hb : rightNest? (flags.map (·.1)) bs = some b) :
    Emit.Drives (combineFlags first flags) I code g s fun flag s' =>
      Shows I ((combineFlags first flags).run g).state.names s' flag (I.constant (.boolean b)) ∧
        s'.passed = s.passed ∧ s'.trace = s.trace := by
  induction flags generalizing first bs b with
  | nil =>
    match bs, hshows.shows, hb with
    | _, .cons h .nil, hb =>
      cases hb
      exact Emit.Drives.pure ⟨h, rfl, rfl⟩
  | cons x more ih =>
    match bs, hshows.shows, hb with
    | _, .cons (b := b₁) hfirst hmore, hb =>
      obtain ⟨b₂, hb₂, rfl⟩ := Option.map_eq_some_iff.1 hb
      refine (ih ⟨rfl, hmore⟩ hb₂).bind (combineFlags_orderly _ _) ?_ fun s' hu hrecent => ?_
      · exact fun _ => Emit.Orderly.takeFlag.bind fun _ => (Emit.Orderly.tell rfl).bind fun _ => .pure _
      · obtain ⟨hrecent, hpassed, htrace⟩ := hrecent
        have hfirst' := hfirst.mono hu (combineFlags_orderly x.2 more g).grows
        have heval : I.eval s' (.binary ((combineFlags x.2 more).run g).value (.logic x.1) first) =
            (I.constant (.boolean (x.1.apply b₁ b₂)), { s' with passed := s.passed, trace := s.trace }) := by
          rw [Interpretation.eval, hrecent.read, hfirst'.read, hI.logic, Connective.apply_comm, ← hpassed, ← htrace]
        exact fun hat _ => I.assign_cross (piece_head hat) heval
          (.inr ⟨_, Nat.le_refl _, Nat.lt_succ_self _, rfl⟩) (NameSupply.old_flag (Nat.lt_succ_self _))
          (literal?_of_isReservedName (isReservedName_flagName _))

/-- The flag of a comparison or an equality. -/
def lowerCompared (t : RenameTable) (op : Operator) (left right : Expr) : Emit (Chain Connective String) := do
  let l ← left.lowerAtom t
  let r ← right.lowerAtom t
  return .single (← flagOf (.binary l op r))

/-- The flag of a comparison or an equality tells whether it holds. -/
theorem lowerCompared_drives (op : Operator) {l r : Expr} (hp : AllPlain (l.leaves ++ r.leaves))
    (hs : t.Sees store s) :
    let x := l.meaning I t store s.trace
    let y := r.meaning I t store x.2
    let b := I.holds (I.apply op x.1 y.1)
    Emit.Drives (lowerCompared t op l r) I code g s fun flags s' =>
      FlagsShow I ((lowerCompared t op l r).run g).state.names s' flags [] [b] ∧
        s'.passed = s.passed ∧ s'.trace = y.2 ++ [.test b] := by
  intro x y b
  refine (l.lowerAtom_drives hp.left hs).bind (l.lowerAtom_orderly t) ?_ fun s₁ hu₁ hl => ?_
  · exact fun _ => (r.lowerAtom_orderly t).bind fun _ => (flagOf_orderly _).bind fun _ => .pure _
  · obtain ⟨hl, hpassed₁, htrace₁⟩ := hl
    refine (r.lowerAtom_drives hp.right (hs.mono hu₁)).bind (r.lowerAtom_orderly t) ?_ fun s₂ hu₂ hr => ?_
    · exact fun _ => (flagOf_orderly _).bind fun _ => .pure _
    · obtain ⟨hr, hpassed₂, htrace₂⟩ := hr
      rw [htrace₁] at hr htrace₂
      have hl' := hl.mono hu₂ (r.lowerAtom_orderly t ((l.lowerAtom t).run g).state).grows
      refine (flagOf_drives (hl'.eval_binary op hr)).bind (flagOf_orderly _) (fun _ => .pure _) fun s₃ _ hflag => ?_
      obtain ⟨hflag, hpassed₃, htrace₃⟩ := hflag
      refine .pure ⟨.single hflag, hpassed₃.trans (hpassed₂.trans hpassed₁), ?_⟩
      rw [htrace₃, htrace₂]

/-- The flags of the atomic conditions show their truths. -/
theorem Cond.lowerFlags_drives {c : Cond} (hI : I.Usual) (hp : AllPlain c.leaves) (hs : t.Sees store s) :
    Emit.Drives (c.lowerFlags t) I code g s fun flags s' =>
      FlagsShow I ((c.lowerFlags t).run g).state.names s' flags c.connectives (c.outcomes I t store s.trace).1 ∧
        s'.passed = s.passed ∧ s'.trace = (c.outcomes I t store s.trace).2 := by
  induction c generalizing g s with
  | comparison op l r sp => exact lowerCompared_drives (.order op) hp hs
  | equality op l r sp => exact lowerCompared_drives (.same op) hp hs
  | neg c sp ih =>
    refine (ih hp hs).bind (c.lowerFlags_orderly t) ?_ fun s₁ hu₁ hflags => ?_
    · exact fun _ => (combineFlags_orderly _ _).bind fun _ => (flagOf_orderly _).bind fun _ => .pure _
    · obtain ⟨hflags, hpassed₁, htrace₁⟩ := hflags
      have hvalue := c.rightNest?_outcomes I t store s.trace
      rw [← hflags.connectives] at hvalue
      refine (combineFlags_drives hI ⟨rfl, hflags.shows⟩ hvalue).bind (combineFlags_orderly _ _) ?_
        fun s₂ _ hall => ?_
      · exact fun _ => (flagOf_orderly _).bind fun _ => .pure _
      · obtain ⟨hall, hpassed₂, htrace₂⟩ := hall
        refine (flagOf_drives (hall.eval_binary (.same .equal) (shows_boolText _ false))).bind (flagOf_orderly _)
          (fun _ => .pure _) fun s₃ _ hflag => ?_
        obtain ⟨hflag, hpassed₃, htrace₃⟩ := hflag
        have hinverse (b : Bool) : (b == false) = !b := by cases b <;> rfl
        rw [hI.equal, hI.holds, hinverse] at hflag htrace₃
        refine .pure ⟨.single hflag, hpassed₃.trans (hpassed₂.trans hpassed₁), ?_⟩
        rw [htrace₃, htrace₂, htrace₁]
        rfl
  | paren c sp ih => exact ih hp hs
  | binary op l r sp ihl ihr =>
    refine (ihl hp.left hs).bind (l.lowerFlags_orderly t) ?_ fun s₁ hu₁ hl => ?_
    · exact fun _ => (r.lowerFlags_orderly t).bind fun _ => .pure _
    · obtain ⟨hl, hpassed₁, htrace₁⟩ := hl
      refine (ihr hp.right (hs.mono hu₁)).bind (r.lowerFlags_orderly t) (fun _ => .pure _) fun s₂ hu₂ hr => ?_
      obtain ⟨hr, hpassed₂, htrace₂⟩ := hr
      rw [htrace₁] at hr htrace₂
      have hgrows := (r.lowerFlags_orderly t ((l.lowerFlags t).run g).state).grows
      exact .pure ⟨(hl.mono hu₂ hgrows).link op hr, hpassed₂.trans hpassed₁, htrace₂⟩
  | bool b sp =>
    have heval (n' : NameSupply) (s' : Moment V) (_ : Unchanged g.names n' s s') :
        I.eval s' (.atom (boolText b)) = (I.constant (.boolean b), s') := by
      rw [Interpretation.eval, I.read_literal s' (literal?_boolText b)]
    refine (flagOf_drives heval).bind (flagOf_orderly _) (fun _ => .pure _) fun s' _ hflag => ?_
    obtain ⟨hflag, hpassed, htrace⟩ := hflag
    rw [hI.holds] at hflag htrace
    exact .pure ⟨.single hflag, hpassed, htrace⟩

/-- The predicate of a condition has its truth. -/
theorem Cond.lower_drives {c : Cond} (hI : I.Usual) (hp : AllPlain c.leaves) (hs : t.Sees store s) :
    Emit.Drives (c.lower t) I code g s fun predicate s' =>
      I.eval s' predicate = (I.constant (.boolean (c.meaning I t store s.trace).1),
        { s' with passed := s.passed, trace := (c.meaning I t store s.trace).2 }) := by
  refine (c.lowerFlags_drives hI hp hs).bind (c.lowerFlags_orderly t) ?_ fun s₁ _ hflags => ?_
  · exact fun _ => (combineFlags_orderly _ _).bind fun _ => .pure _
  · obtain ⟨hflags, hpassed₁, htrace₁⟩ := hflags
    have hvalue := c.rightNest?_outcomes I t store s.trace
    rw [← hflags.connectives] at hvalue
    refine (combineFlags_drives hI ⟨rfl, hflags.shows⟩ hvalue).bind (combineFlags_orderly _ _) (fun _ => .pure _)
      fun s₂ _ hall => ?_
    obtain ⟨hall, hpassed₂, htrace₂⟩ := hall
    refine .pure ((hall.eval_binary (.same .equal) (shows_boolText _ true) .first s₂ (.of_eq rfl)).trans ?_)
    rw [hI.equal, beq_true, ← hpassed₁, ← hpassed₂, Cond.meaning, ← htrace₁, ← htrace₂]

end Lower

/-! ### What is introduced -/

/-- An instruction that passes an argument, or assigns a name, tests, or stands as a label between two supplies. -/
def Instruction.Introduced (n n' : NameSupply) : Instruction → Prop
  | .param _ => True
  | .assign dest _ => n.Gives n' dest
  | .ifz _ target | .label target => ∃ k, n.label ≤ k ∧ k < n'.label ∧ target = labelName k
  | .goto _ | .call _ _ | .getparam _ _ | .ret _ => False

theorem Instruction.Introduced.mono {n n' n₁ n₂ : NameSupply} {i : Instruction} (h : i.Introduced n₁ n₂)
    (hn : n.Le n₁) (hn' : n₂.Le n') : i.Introduced n n' := by
  cases i with
  | param => trivial
  | assign => exact NameSupply.Gives.mono h hn hn'
  | ifz | label =>
    obtain ⟨k, hk, hk', rfl⟩ := h
    exact ⟨k, Nat.le_trans hn.label hk, Nat.lt_of_lt_of_le hk' hn'.label, rfl⟩
  | goto | call | getparam | ret => exact h

/-- A pass whose code uses only names and labels that it takes. -/
structure Emit.Introduces {α : Type} (p : Emit α) : Prop where
  grows : ∀ g : Generator, g.names.Le (p.run g).state.names
  introduced : ∀ g : Generator, ∀ i ∈ (p.run g).record, i.Introduced g.names (p.run g).state.names

namespace Emit.Introduces

variable {α β : Type} {p : Emit α}

theorem pure (a : α) : Emit.Introduces (Pure.pure a : Emit α) where
  grows _ := .refl _
  introduced _ _ hi := absurd hi List.not_mem_nil

theorem bind {f : α → Emit β} (hp : Emit.Introduces p) (hf : ∀ a, Emit.Introduces (f a)) :
    Emit.Introduces (p >>= f) where
  grows g := (hp.grows g).trans ((hf _).grows _)
  introduced g i hi := by
    rcases List.mem_append.1 hi with hi | hi
    · exact (hp.introduced g i hi).mono (.refl _) ((hf _).grows _)
    · exact ((hf _).introduced _ i hi).mono (hp.grows g) (.refl _)

theorem flagOf (predicate : Rvalue) : Emit.Introduces (flagOf predicate) where
  grows g := (flagOf_orderly predicate g).grows
  introduced g i hi := by
    have hflag : g.names.Gives ((ThreeAddress.flagOf predicate).run g).state.names (flagName g.names.flag) :=
      .inr ⟨_, Nat.le_refl _, Nat.lt_succ_self _, rfl⟩
    have hlabel : ∃ k, g.names.label ≤ k ∧ k < ((ThreeAddress.flagOf predicate).run g).state.names.label ∧
        labelName g.names.label = labelName k := ⟨_, Nat.le_refl _, Nat.lt_succ_self _, rfl⟩
    have hmem : i = .assign (flagName g.names.flag) (.atom "false") ∨ i = .ifz predicate (labelName g.names.label) ∨
        i = .assign (flagName g.names.flag) (.atom "true") ∨ i = .label (labelName g.names.label) := by
      simpa [ThreeAddress.flagOf, NameSupply.takeFlag, NameSupply.takeLabel] using hi
    rcases hmem with rfl | rfl | rfl | rfl
    · exact hflag
    · exact hlabel
    · exact hflag
    · exact hlabel

theorem combineFlags (first : String) (more : List (Connective × String)) :
    Emit.Introduces (combineFlags first more) := by
  induction more generalizing first with
  | nil => exact pure first
  | cons x more ih =>
    refine (ih x.2).bind fun recent => ⟨fun g => ⟨Nat.le_refl _, Nat.le_refl _, Nat.le_succ _, rfl⟩, ?_⟩
    intro g i hi
    cases List.mem_singleton.1 hi
    exact .inr ⟨_, Nat.le_refl _, Nat.lt_succ_self _, rfl⟩

theorem atomOf (r : Rvalue) : Emit.Introduces (Emit.atomOf r) where
  grows g := (Emit.Orderly.atomOf r g).grows
  introduced g i hi := by
    cases r with
    | atom a => exact absurd hi List.not_mem_nil
    | binary | call | not =>
      cases List.mem_singleton.1 hi
      exact .inl ⟨_, Nat.le_refl _, Nat.lt_succ_self _, rfl⟩

theorem lowerAtom (t : RenameTable) (e : Expr) : Emit.Introduces (e.lowerAtom t) := by
  refine Emit.Introduces.bind ⟨fun g => (e.lower_orderly t g).grows, fun g i hi => ?_⟩ fun r => .atomOf r
  rcases e.fills_lower t g i hi with ⟨a, rfl⟩ | ⟨k, r, hk, hk', rfl⟩
  · trivial
  · exact .inl ⟨k, hk, hk', rfl⟩

theorem lowerCompared (t : RenameTable) (op : Operator) (l r : Expr) : Emit.Introduces (lowerCompared t op l r) :=
  (lowerAtom t l).bind fun _ => (lowerAtom t r).bind fun _ => (flagOf _).bind fun _ => .pure _

theorem lowerFlags (t : RenameTable) (c : Cond) : Emit.Introduces (c.lowerFlags t) := by
  induction c with
  | comparison op l r s => exact lowerCompared t (.order op) l r
  | equality op l r s => exact lowerCompared t (.same op) l r
  | neg c s ih => exact ih.bind fun _ => (combineFlags _ _).bind fun _ => (flagOf _).bind fun _ => .pure _
  | paren c s ih => exact ih
  | binary op l r s ihl ihr => exact ihl.bind fun _ => ihr.bind fun _ => .pure _
  | bool b s => exact (flagOf _).bind fun _ => .pure _

theorem lower (t : RenameTable) (c : Cond) : Emit.Introduces (c.lower t) :=
  (lowerFlags t c).bind fun _ => (combineFlags _ _).bind fun _ => .pure _

end Emit.Introduces

/-! ### Conditions of any shape -/

/-- Labels that a piece takes, and that stand nowhere else, stand at one place each. -/
theorem OrderlyFrom.definesOnce {α : Type} {g : Generator} {r : Passed Generator Instruction α}
    (h : OrderlyFrom g r) {before behind : List Instruction}
    (hfree : ∀ l ∈ definedLabels r.record, l ∉ definedLabels before ∧ l ∉ definedLabels behind) :
    DefinesOnce (before ++ r.record ++ behind) g.names r.state.names := by
  have hnodup : (definedLabels r.record).Nodup := by
    rw [h.labels.nodup_iff]
    exact List.Nodup.map (fun _ _ => NameSupply.labelName_inj) List.nodup_range'
  intro k hk hk' i j hi hj
  have hmem : labelName k ∈ definedLabels r.record :=
    h.labels.mem_iff.2 (List.mem_map.2 ⟨k, List.mem_range'_1.2 ⟨hk, by omega⟩, rfl⟩)
  -- the label stands in the piece, and nowhere before or behind it
  have hplace : ∀ {i : Nat}, (before ++ r.record ++ behind)[i]? = some (.label (labelName k)) →
      before.length ≤ i ∧ r.record[i - before.length]? = some (.label (labelName k)) := by
    intro i hi
    rw [List.append_assoc, List.getElem?_append] at hi
    split at hi
    · exact absurd (mem_definedLabels (List.mem_of_getElem? hi)) (hfree _ hmem).1
    · rename_i hbefore
      rw [List.getElem?_append] at hi
      split at hi
      · exact ⟨by omega, hi⟩
      · exact absurd (mem_definedLabels (List.mem_of_getElem? hi)) (hfree _ hmem).2
  obtain ⟨hle, hi⟩ := hplace hi
  obtain ⟨hle', hj⟩ := hplace hj
  have := place_unique hnodup hi rfl hj rfl
  omega

theorem Cond.lower_yields (t : RenameTable) (g : Generator) {c : Cond} (hp : AllPlain c.leaves) {I : Interpretation V}
    (hI : I.Usual) (s : Moment V) :
    I.Yields g ((c.lower t).run g) s (I.constant (.boolean (c.meaning I t s.store s.trace).1))
      (c.meaning I t s.store s.trace).2 := by
  intro before behind hpc hfree
  refine c.lower_drives hI hp (fun _ _ _ => rfl) ?_ ((c.lower_orderly t g).definesOnce hfree)
  rw [hpc, List.append_assoc, List.drop_left]
  exact List.prefix_append _ _

/-- **Conditions are chains.**  The code of a condition takes names and labels that stand nowhere else, and defines
each label once.  Under any interpretation that is the usual one on truth values, and from any variables, a run through
it never leaves it before its end.  Then its predicate holds exactly if the truths of the atomic conditions, combined
from the right, come to true; every atomic condition was tested once, in order, and no other variable has changed. -/
theorem Cond.lower_decides (t : RenameTable) (g : Generator) {c : Cond} (hp : AllPlain c.leaves) :
    (∀ i ∈ ((c.lower t).run g).record, i.Introduced g.names ((c.lower t).run g).state.names) ∧
      (definedLabels ((c.lower t).run g).record).Perm (g.names.labelsTo ((c.lower t).run g).state.names) ∧
      ∀ {V : Type} (I : Interpretation V), I.Usual → ∀ s : Moment V, ∃ b,
        rightNest? c.connectives (c.outcomes I t s.store s.trace).1 = some b ∧
        I.holds (I.constant (.boolean b)) = b ∧
        I.Yields g ((c.lower t).run g) s (I.constant (.boolean b)) (c.outcomes I t s.store s.trace).2 :=
  ⟨(Emit.Introduces.lower t c).introduced g, (c.lower_orderly t g).labels, fun I hI s =>
    ⟨_, c.rightNest?_outcomes I t s.store s.trace, hI.holds _, c.lower_yields t g hp hI s⟩⟩

/-- The condition `(true || x < 3) && !(f(x) == 10)`. -/
def nestedConjunction : Cond :=
  .binary .and
    (.paren (.binary .or (.bool true .origin)
      (.comparison .less (.fragment (.atom false (.name "x")) .origin) (.fragment (.atom false (.number "3")) .origin)
        .origin) .origin) .origin)
    (.neg (.equality .equal (.call ⟨"f", [⟨.name "x", .origin⟩], .origin⟩ .origin)
      (.fragment (.atom false (.number "10")) .origin) .origin) .origin) .origin

/-- It is computed as `true || (x < 3 && !(f(x) == 10))`, with the call made behind the first two tests. -/
theorem Cond.lower_decides_nestedConjunction :
    AllPlain nestedConjunction.leaves ∧
      (Interpretation.exact fun _ _ args => args.headD .nothing).Usual ∧
      (Interpretation.exact fun _ _ args => args.headD .nothing).Yields .first
        ((nestedConjunction.lower ⟨2, ["x"]⟩).run .first) ⟨0, fun _ => .integer 10, [], []⟩ (.boolean true)
        [.test true, .test false, .call "f" [.integer 10], .test true, .test false] := by
  have hp : AllPlain nestedConjunction.leaves := by decide
  have husual := Interpretation.exact_usual fun _ _ args => args.headD .nothing
  obtain ⟨-, -, hruns⟩ := Cond.lower_decides ⟨2, ["x"]⟩ .first hp
  obtain ⟨b, hb, -, hyields⟩ := hruns _ husual ⟨0, fun _ => .integer 10, [], []⟩
  have htrue : some true = some b := Eq.trans rfl hb
  cases htrue
  exact ⟨hp, husual, hyields⟩

end ThreeAddress
