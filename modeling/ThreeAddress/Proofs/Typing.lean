import ThreeAddress.Proofs.Machine
import ThreeAddress.Proofs.Supplies

/-!
# Types in three-address code

Code is typed if its variables have types, and its routines signatures, under which it can be checked line by
line.  The check keeps the routine that it is in, the parameters which that one has fetched, and the arguments
that have been passed for the next call.

* `Typing`, `Signature` — types for variables, and signatures for routines;
* `Typing.Has` — a right-hand side has a type;
* `Point`, `Typing.Step`, `Typing.Checks` — the check of an instruction, and of code;
* `Typing.Accepts` — the check of a whole program;
* `Typing.Grows` — more temporaries get types; what has been checked stays in order;
* `Emit.Types`, `Emit.TypesAt` — the code that a pass emits can be checked once its temporaries have types.
-/

namespace ThreeAddress

open NameSupply (tempName flagName)

/-! ### Typings -/

/-- What a routine takes and what it gives. -/
structure Signature where
  params : List Ty
  result : Ty
deriving DecidableEq

/-- Types for the variables of code, and signatures for its routines. -/
structure Typing where
  type? : String → Option Ty
  routine? : String → Option Signature

/-- The type of a value. -/
def Value.type : Value → Ty
  | .integer _ => .integer
  | .boolean _ => .boolean
  | .nothing => .void

namespace Typing

/-- The type of an atom: that of its value, unless it is a name. -/
def atom? (T : Typing) (text : String) : Option Ty :=
  match literal? text with
  | some v => some v.type
  | none => T.type? text

theorem atom?_literal (T : Typing) {text : String} {v : Value} (h : literal? text = some v) :
    T.atom? text = some v.type := by
  rw [atom?, h]

theorem atom?_name (T : Typing) {x : String} (h : literal? x = none) : T.atom? x = T.type? x := by
  rw [atom?, h]

theorem atom?_isNumeral (T : Typing) {digits : String} (h : isNumeral digits = true) :
    T.atom? digits = some .integer := T.atom?_literal (literal?_of_isNumeral h)

theorem atom?_boolText (T : Typing) (b : Bool) : T.atom? (boolText b) = some .boolean :=
  T.atom?_literal (literal?_boolText b)

/-- A right-hand side has a type behind the arguments that have been passed.  A call takes them all, and
nothing else takes any. -/
inductive Has (T : Typing) : List Ty → Rvalue → Ty → Prop
  | atom {a : String} {type : Ty} (h : T.atom? a = some type) : Has T [] (.atom a) type
  | arith {op : ArithOp} {l r : String} (hl : T.atom? l = some .integer) (hr : T.atom? r = some .integer) :
      Has T [] (.binary l (.arith op) r) .integer
  | logic {op : Connective} {l r : String} (hl : T.atom? l = some .boolean)
      (hr : T.atom? r = some .boolean) : Has T [] (.binary l (.logic op) r) .boolean
  | order {op : Comparison} {l r : String} (hl : T.atom? l = some .integer)
      (hr : T.atom? r = some .integer) : Has T [] (.binary l (.order op) r) .boolean
  | same {op : Equality} {l r : String} {type : Ty} (hl : T.atom? l = some type)
      (hr : T.atom? r = some type) : Has T [] (.binary l (.same op) r) .boolean
  | not {a : String} (h : T.atom? a = some .boolean) : Has T [] (.not a) .boolean
  | call {f : String} {s : Signature} (h : T.routine? f = some s) :
      Has T s.params (.call f s.params.length) s.result

end Typing

/-! ### Checking code -/

/-- Where a check stands: in a routine, behind the parameters that it has fetched and the arguments that have
been passed for the next call. -/
structure Point where
  routine : Option Signature
  fetched : Nat
  passed : List Ty

/-- The beginning of code. -/
def Point.first : Point := ⟨none, 0, []⟩

/-- The beginning of a routine. -/
def Point.entry (s : Signature) : Point := ⟨some s, 0, []⟩

/-- The same place with other arguments passed. -/
def Point.passing (a : Point) (types : List Ty) : Point := { a with passed := types }

theorem Point.passing_nil {a : Point} (h : a.passed = []) : a.passing [] = a := by
  rw [passing, ← h]

namespace Typing

/-- An instruction is in order.  A label that is not reserved begins a routine.  The parameters of a routine
are fetched in order, and all of them before it returns. -/
inductive Step (T : Typing) : Point → Instruction → Point → Prop
  | label {a : Point} {name : String} (hn : isReservedName name = true) (ha : a.passed = []) :
      Step T a (.label name) a
  | enter {a : Point} {name : String} {s : Signature} (hn : isReservedName name = false)
      (ha : a.passed = []) (hs : T.routine? name = some s) : Step T a (.label name) (.entry s)
  | assign {a : Point} {x : String} {r : Rvalue} {type : Ty} (hr : T.Has a.passed r type)
      (hx : T.type? x = some type) : Step T a (.assign x r) (a.passing [])
  | ifz {a : Point} {r : Rvalue} {target : String} (hr : T.Has a.passed r .boolean) :
      Step T a (.ifz r target) (a.passing [])
  | goto {a : Point} {target : String} (ha : a.passed = []) : Step T a (.goto target) a
  | param {a : Point} {x : String} {type : Ty} (hx : T.atom? x = some type) :
      Step T a (.param x) (a.passing (a.passed ++ [type]))
  | call {a : Point} {f : String} {n : Nat} {type : Ty} (hr : T.Has a.passed (.call f n) type) :
      Step T a (.call f n) (a.passing [])
  | getparam {a : Point} {x : String} {s : Signature} {type : Ty} (ha : a.passed = [])
      (hs : a.routine = some s) (ht : s.params[a.fetched]? = some type) (hx : T.type? x = some type) :
      Step T a (.getparam x (a.fetched + 1)) { a with fetched := a.fetched + 1 }
  | retNothing {a : Point} {s : Signature} (ha : a.passed = []) (hs : a.routine = some s)
      (hn : a.fetched = s.params.length) (hv : s.result = .void) : Step T a (.ret none) a
  | ret {a : Point} {s : Signature} {r : Rvalue} (hs : a.routine = some s)
      (hn : a.fetched = s.params.length) (hr : T.Has a.passed r s.result) :
      Step T a (.ret (some r)) (a.passing [])

/-- Code is in order from one point to another. -/
inductive Checks (T : Typing) : Point → List Instruction → Point → Prop
  | nil {a : Point} : Checks T a [] a
  | cons {a b c : Point} {i : Instruction} {more : List Instruction} (hi : T.Step a i b)
      (h : Checks T b more c) : Checks T a (i :: more) c

/-- A program is in order, and no argument has been passed in vain. -/
def Accepts (T : Typing) (code : List Instruction) : Prop :=
  ∃ a, T.Checks .first code a ∧ a.passed = []

variable {T : Typing}

theorem Step.assign_nil {a : Point} (ha : a.passed = []) {x : String} {r : Rvalue} {type : Ty}
    (hr : T.Has [] r type) (hx : T.type? x = some type) : T.Step a (.assign x r) a := by
  have h := Step.assign (ha.symm ▸ hr) hx
  rwa [a.passing_nil ha] at h

theorem Step.ifz_nil {a : Point} (ha : a.passed = []) {r : Rvalue} {target : String}
    (hr : T.Has [] r .boolean) : T.Step a (.ifz r target) a := by
  have h : T.Step a (.ifz r target) (a.passing []) := .ifz (ha.symm ▸ hr)
  rwa [a.passing_nil ha] at h

theorem Checks.append {a b c : Point} {before behind : List Instruction} (h : T.Checks a before b)
    (h' : T.Checks b behind c) : T.Checks a (before ++ behind) c := by
  induction h with
  | nil => exact h'
  | cons hi _ ih => exact .cons hi (ih h')

theorem Checks.split {a c : Point} {before behind : List Instruction} (h : T.Checks a (before ++ behind) c) :
    ∃ b, T.Checks a before b ∧ T.Checks b behind c := by
  induction before generalizing a with
  | nil => exact ⟨a, .nil, h⟩
  | cons i more ih =>
    cases h with
    | cons hi h =>
      obtain ⟨b, hmore, hbehind⟩ := ih h
      exact ⟨b, .cons hi hmore, hbehind⟩

theorem Checks.single {a b : Point} {i : Instruction} (h : T.Step a i b) : T.Checks a [i] b := .cons h .nil

/-! ### More types -/

/-- Some more temporaries have types. -/
structure Grows (T T' : Typing) : Prop where
  type? : ∀ {x : String} {type : Ty}, T.type? x = some type → T'.type? x = some type
  new : ∀ {x : String} {type : Ty}, T'.type? x = some type → T.type? x = some type ∨ ∃ k, x = tempName k
  routine? : T'.routine? = T.routine?

namespace Grows

variable {T₁ T₂ : Typing}

theorem refl (T : Typing) : T.Grows T := ⟨id, .inl, rfl⟩

theorem trans (h : T.Grows T₁) (h' : T₁.Grows T₂) : T.Grows T₂ := by
  refine ⟨fun hx => h'.type? (h.type? hx), fun hx => ?_, h'.routine?.trans h.routine?⟩
  rcases h'.new hx with hx | hx
  · exact h.new hx
  · exact .inr hx

theorem atom? (h : T.Grows T₁) {text : String} {type : Ty} (ht : T.atom? text = some type) :
    T₁.atom? text = some type := by
  unfold Typing.atom? at ht ⊢
  split
  · rename_i v hv
    rw [hv] at ht
    exact ht
  · rename_i hv
    rw [hv] at ht
    exact h.type? ht

theorem has (h : T.Grows T₁) {types : List Ty} {r : Rvalue} {type : Ty} (hr : T.Has types r type) :
    T₁.Has types r type := by
  cases hr with
  | atom ha => exact .atom (h.atom? ha)
  | arith hl hr => exact .arith (h.atom? hl) (h.atom? hr)
  | logic hl hr => exact .logic (h.atom? hl) (h.atom? hr)
  | order hl hr => exact .order (h.atom? hl) (h.atom? hr)
  | same hl hr => exact .same (h.atom? hl) (h.atom? hr)
  | not ha => exact .not (h.atom? ha)
  | call hs => exact .call (h.routine? ▸ hs)

theorem step (h : T.Grows T₁) {a b : Point} {i : Instruction} (hi : T.Step a i b) : T₁.Step a i b := by
  cases hi with
  | label hn ha => exact .label hn ha
  | enter hn ha hs => exact .enter hn ha (h.routine? ▸ hs)
  | assign hr hx => exact .assign (h.has hr) (h.type? hx)
  | ifz hr => exact .ifz (h.has hr)
  | goto ha => exact .goto ha
  | param hx => exact .param (h.atom? hx)
  | call hr => exact .call (h.has hr)
  | getparam ha hs ht hx => exact .getparam ha hs ht (h.type? hx)
  | retNothing ha hs hn hv => exact .retNothing ha hs hn hv
  | ret hs hn hr => exact .ret hs hn (h.has hr)

/-- **Checked code stays in order.** -/
theorem checks (h : T.Grows T₁) {a b : Point} {code : List Instruction} (hc : T.Checks a code b) :
    T₁.Checks a code b := by
  induction hc with
  | nil => exact .nil
  | cons hi _ ih => exact .cons (h.step hi) ih

end Grows

/-- No temporary that the supply is still to give has a type. -/
def Spares (T : Typing) (n : NameSupply) : Prop := ∀ k, n.temp ≤ k → T.type? (tempName k) = none

/-- A name gets a type. -/
def set (T : Typing) (x : String) (type : Ty) : Typing :=
  { T with type? := fun y => if y = x then some type else T.type? y }

theorem set_same (T : Typing) (x : String) (type : Ty) : (T.set x type).type? x = some type := if_pos rfl

/-- The next temporary gets a type. -/
theorem Spares.set {n : NameSupply} (h : T.Spares n) (type : Ty) :
    T.Grows (T.set n.takeTemp.1 type) ∧ (T.set n.takeTemp.1 type).Spares n.takeTemp.2 := by
  refine ⟨⟨fun {x t} hx => ?_, fun {x t} hx => ?_, rfl⟩, fun k hk => ?_⟩
  · have hne : x ≠ n.takeTemp.1 := by
      rintro rfl
      rw [show n.takeTemp.1 = tempName n.temp from rfl, h n.temp (Nat.le_refl _)] at hx
      cases hx
    exact (if_neg hne).trans hx
  · by_cases hne : x = n.takeTemp.1
    · exact .inr ⟨_, hne⟩
    · exact .inl ((if_neg hne).symm.trans hx)
  · have hne : tempName k ≠ n.takeTemp.1 := by
      intro hk'
      have hlt : n.temp + 1 ≤ k := hk
      have heq : k = n.temp := NameSupply.tempName_inj hk'
      omega
    exact (if_neg hne).trans (h k (Nat.le_of_succ_le hk))

end Typing

/-! ### Code that can be typed -/

/-- The code that a pass emits is in order from a point on, once its temporaries have types; and then `Q` holds
of the value of the pass, the point that the check comes to, and the types. -/
def Emit.Types {α : Type} (p : Emit α) (g : Generator) (T : Typing) (a : Point)
    (Q : α → Point → Typing → Prop) : Prop :=
  T.Spares g.names → ∃ T' b, T.Grows T' ∧ T'.Spares (p.run g).state.names ∧
    T'.Checks a (p.run g).record b ∧ Q (p.run g).value b T'

namespace Emit.Types

variable {α β : Type} {p : Emit α} {g : Generator} {T : Typing} {a : Point}
  {Q Q' : α → Point → Typing → Prop}

theorem mono (h : Emit.Types p g T a Q)
    (hQ : ∀ b T', T.Grows T' → Q (p.run g).value b T' → Q' (p.run g).value b T') :
    Emit.Types p g T a Q' := by
  intro hs
  obtain ⟨T', b, hg, hs', hc, hq⟩ := h hs
  exact ⟨T', b, hg, hs', hc, hQ b T' hg hq⟩

/-- Nothing is emitted. -/
theorem pure {x : α} (h : Q x a T) : Emit.Types (Pure.pure x) g T a Q :=
  fun hs => ⟨T, a, .refl T, hs, .nil, h⟩

/-- One instruction. -/
theorem tell {i : Instruction} {b : Point} {R : Unit → Point → Typing → Prop} (hi : T.Step a i b)
    (h : R () b T) : Emit.Types (Pass.tell i) g T a R :=
  fun hs => ⟨T, b, .refl T, hs, .single hi, h⟩

/-- One pass after another. -/
theorem bind {f : α → Emit β} {R : β → Point → Typing → Prop} (hp : Emit.Types p g T a Q)
    (hf : ∀ T₁ b, T.Grows T₁ → Q (p.run g).value b T₁ →
      Emit.Types (f (p.run g).value) (p.run g).state T₁ b R) : Emit.Types (p >>= f) g T a R := by
  intro hs
  obtain ⟨T₁, b, hg₁, hs₁, hc₁, hq₁⟩ := hp hs
  obtain ⟨T₂, c, hg₂, hs₂, hc₂, hq₂⟩ := hf T₁ b hg₁ hq₁ hs₁
  exact ⟨T₂, c, hg₁.trans hg₂, hs₂, (hg₂.checks hc₁).append hc₂, hq₂⟩

/-- One instruction, and then more code. -/
theorem tellThen {i : Instruction} {b : Point} {f : Unit → Emit β} {R : β → Point → Typing → Prop}
    (hi : T.Step a i b) (hf : Emit.Types (f ()) g T b R) : Emit.Types (Pass.tell i >>= f) g T a R := by
  intro hs
  obtain ⟨T', c, hg, hs', hc, hr⟩ := hf hs
  exact ⟨T', c, hg, hs', .cons (hg.step hi) hc, hr⟩

/-- A pass that emits nothing and takes no temporary. -/
theorem silent {f : α → Emit β} {R : β → Point → Typing → Prop} (hr : (p.run g).record = [])
    (hn : (p.run g).state.names.temp = g.names.temp)
    (hf : Emit.Types (f (p.run g).value) (p.run g).state T a R) : Emit.Types (p >>= f) g T a R := by
  intro hs
  obtain ⟨T', b, hg, hs', hc, hq⟩ := hf fun k hk => hs k (hn ▸ hk)
  refine ⟨T', b, hg, hs', ?_, hq⟩
  rw [Pass.run_bind, hr]
  exact hc

end Emit.Types

/-- The code that a pass emits is in order, and the check comes back to the point where it began. -/
def Emit.TypesAt {α : Type} (p : Emit α) (g : Generator) (T : Typing) (a : Point) (Q : α → Typing → Prop) :
    Prop :=
  Emit.Types p g T a fun x b T' => b = a ∧ Q x T'

namespace Emit.TypesAt

variable {α β : Type} {p : Emit α} {g : Generator} {T : Typing} {a : Point} {Q : α → Typing → Prop}

/-- Nothing is emitted. -/
theorem pure {x : α} (h : Q x T) : Emit.TypesAt (Pure.pure x) g T a Q := Emit.Types.pure ⟨rfl, h⟩

/-- One instruction. -/
theorem tell {i : Instruction} {R : Unit → Typing → Prop} (hi : T.Step a i a) (h : R () T) :
    Emit.TypesAt (Pass.tell i) g T a R := Emit.Types.tell hi ⟨rfl, h⟩

/-- One pass after another. -/
theorem bind {f : α → Emit β} {R : β → Point → Typing → Prop} (hp : Emit.TypesAt p g T a Q)
    (hf : ∀ T₁, T.Grows T₁ → Q (p.run g).value T₁ →
      Emit.Types (f (p.run g).value) (p.run g).state T₁ a R) : Emit.Types (p >>= f) g T a R := by
  refine Emit.Types.bind hp fun T₁ b hg h => ?_
  rw [h.1]
  exact hf T₁ hg h.2

end Emit.TypesAt

end ThreeAddress
