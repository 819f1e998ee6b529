import ThreeAddress.Code.Instruction
import ThreeAddress.Proofs.Spelling

/-!
# Running three-address code

A machine that runs the code of a program.  Calls are opaque: what a call answers depends on the calls made
before, on the function that is called, and on the values of its arguments; it changes no variable.

* `Value`, `Event`, `World` — values, calls that were made, and what a run depends on beside its code;
* `Machine`, `State`, `Machine.step` — the code that runs, where a run stands, and one step of it;
* `Machine.Reaches` — one state comes of another by some steps;
* `Machine.Lasts` — a run does not end within a number of steps;
* `Machine.At` — instructions stand in the code from some place on.
-/

namespace ThreeAddress

/-! ### Values -/

/-- What a variable can hold. -/
inductive Value
  | integer (n : Int)
  | boolean (b : Bool)
  | nothing
deriving DecidableEq

/-- Whether a value counts as true: only `false` does not. -/
def Value.holds (v : Value) : Bool := v ≠ .boolean false

theorem Value.holds_boolean (b : Bool) : (Value.boolean b).holds = b := by
  cases b <;> rfl

/-- The inverse of a truth value. -/
def Value.invert : Value → Value
  | .boolean b => .boolean (!b)
  | _ => .nothing

/-- A call that was made. -/
structure Event where
  callee : String
  args : List Value
deriving DecidableEq

/-- What a run depends on beside its code: how sums and differences come out, and what calls answer. -/
structure World where
  arith : ArithOp → Int → Int → Int
  answer : List Event → String → List Value → Value

/-- A connective of two truth values. -/
def Connective.apply : Connective → Bool → Bool → Bool
  | .and, a, b => a && b
  | .or, a, b => a || b

theorem Connective.apply_comm (op : Connective) (a b : Bool) : op.apply a b = op.apply b a := by
  cases op with
  | and => exact Bool.and_comm a b
  | or => exact Bool.or_comm a b

/-- A comparison of two integers. -/
def Comparison.apply : Comparison → Int → Int → Bool
  | .less, a, b => a < b
  | .greater, a, b => a > b
  | .lessEqual, a, b => a ≤ b
  | .greaterEqual, a, b => a ≥ b

/-- A binary operator.  Operands of the wrong type give nothing. -/
def World.apply (w : World) : Operator → Value → Value → Value
  | .arith op, .integer a, .integer b => .integer (w.arith op a b)
  | .logic op, .boolean a, .boolean b => .boolean (op.apply a b)
  | .order op, .integer a, .integer b => .boolean (op.apply a b)
  | .same .equal, a, b => .boolean (a = b)
  | .same .notEqual, a, b => .boolean (a ≠ b)
  | _, _, _ => .nothing

/-- The value of a numeral. -/
def numeralValue (digits : String) : Value := .integer (Nat.ofDigitChars 10 digits.toList 0)

/-- The value of a text that is no name. -/
def literal? (text : String) : Option Value :=
  if isNumeral text then some (numeralValue text)
  else if text = boolText true then some (.boolean true)
  else if text = boolText false then some (.boolean false)
  else none

theorem literal?_of_isNumeral {text : String} (h : isNumeral text = true) :
    literal? text = some (numeralValue text) := by
  rw [literal?, if_pos h]

theorem literal?_boolText (b : Bool) : literal? (boolText b) = some (.boolean b) := by
  cases b <;> rfl

theorem literal?_eq_none {text : String} (hn : isNumeral text = false) (hb : ∀ b, text ≠ boolText b) :
    literal? text = none := by
  rw [literal?, if_neg (by simp [hn]), if_neg (hb true), if_neg (hb false)]

theorem literal?_of_isIdentifier {x : String} (h : isIdentifier x = true) : literal? x = none :=
  literal?_eq_none (isNumeral_of_isIdentifier h) (ne_boolText_of_isIdentifier h)

theorem literal?_of_isReservedName {x : String} (h : isReservedName x = true) : literal? x = none := by
  refine literal?_eq_none ?_ ?_
  · rw [Bool.eq_false_iff]
    intro hn
    rw [isReservedName_of_isNumeral hn] at h
    cases h
  · rintro b rfl
    cases b <;> exact absurd h (by decide)

theorem literal?_localText (x : String) (k : Nat) : literal? (localText x k) = none := by
  have hdot := dot_mem_localText x k
  refine literal?_eq_none ?_ ?_
  · rw [Bool.eq_false_iff]
    intro hn
    simp only [isNumeral, Bool.and_eq_true, List.all_eq_true] at hn
    exact absurd (hn.2 _ hdot) (by decide)
  · intro b hb
    rw [hb] at hdot
    cases b <;> exact absurd hdot (by decide)

theorem literal?_resolve (t : RenameTable) {x : String} (hx : isIdentifier x = true) :
    literal? (t.resolve x) = none := by
  unfold RenameTable.resolve
  split
  · exact literal?_localText x _
  · exact literal?_of_isIdentifier hx

/-! ### The machine -/

/-- The code of a program in a world, run with some arguments. -/
structure Machine where
  world : World
  code : List Instruction
  args : List Value

/-- Where a run stands: the instruction to come, the variables, the arguments passed for the next call, and
the calls made so far. -/
structure State where
  pc : Nat
  store : String → Value
  passed : List Value
  history : List Event

namespace State

/-- The value of an atom. -/
def read (s : State) (text : String) : Value := (literal? text).getD (s.store text)

/-- A variable is assigned. -/
def set (s : State) (x : String) (v : Value) : State :=
  { s with store := fun y => if y = x then v else s.store y }

/-- Go on to some place. -/
def goto (s : State) (pc : Nat) : State := { s with pc := pc }

/-- Go on to the next instruction. -/
def next (s : State) : State := s.goto (s.pc + 1)

@[simp] theorem set_pc (s : State) (x : String) (v : Value) : (s.set x v).pc = s.pc := rfl

@[simp] theorem next_pc (s : State) : s.next.pc = s.pc + 1 := rfl

end State

namespace Machine

/-- A call takes the arguments that were passed last. -/
def call (M : Machine) (s : State) (name : String) (count : Nat) : Value × State :=
  let args := s.passed.drop (s.passed.length - count)
  (M.world.answer s.history name args,
    { s with
      passed := s.passed.take (s.passed.length - count)
      history := s.history ++ [⟨name, args⟩] })

/-- The value of a right-hand side, and the state behind it. -/
def eval (M : Machine) (s : State) : Rvalue → Value × State
  | .atom text => (s.read text, s)
  | .binary left op right => (M.world.apply op (s.read left) (s.read right), s)
  | .call name count => M.call s name count
  | .not operand => ((s.read operand).invert, s)

/-- Go on at a label. -/
def jump (M : Machine) (s : State) (label : String) : Option State :=
  if .label label ∈ M.code then some (s.goto (M.code.idxOf (.label label))) else none

/-- One step.  A run ends at a return and behind the code. -/
def step (M : Machine) (s : State) : Option State :=
  match M.code[s.pc]? with
  | none | some (.ret _) => none
  | some (.label _) => some s.next
  | some (.assign dest value) => some (((M.eval s value).2.set dest (M.eval s value).1).next)
  | some (.ifz cond target) =>
    if (M.eval s cond).1.holds then some (M.eval s cond).2.next else M.jump (M.eval s cond).2 target
  | some (.goto target) => M.jump s target
  | some (.param value) => some { s.next with passed := s.passed ++ [s.read value] }
  | some (.call name count) => some (M.call s name count).2.next
  | some (.getparam dest index) => some (s.set dest (M.args.getD (index - 1) .nothing)).next

/-- Some steps. -/
def steps (M : Machine) : Nat → State → Option State
  | 0, s => some s
  | n + 1, s => (M.step s).bind (M.steps n)

/-! ### Runs -/

/-- A state comes of another by some steps. -/
def Reaches (M : Machine) (s s' : State) : Prop := ∃ n, M.steps n s = some s'

/-- A run does not end within some steps. -/
def Lasts (M : Machine) (n : Nat) (s : State) : Prop := (M.steps n s).isSome = true

variable {M : Machine} {s s₁ s₂ s₃ : State}

section Step

variable {dest target name : String} {value cond : Rvalue} {count index : Nat}

theorem step_label (h : M.code[s.pc]? = some (.label name)) : M.step s = some s.next := by
  rw [step, h]

theorem step_assign (h : M.code[s.pc]? = some (.assign dest value)) :
    M.step s = some (((M.eval s value).2.set dest (M.eval s value).1).next) := by
  rw [step, h]

theorem step_ifz_true (h : M.code[s.pc]? = some (.ifz cond target))
    (hc : (M.eval s cond).1.holds = true) : M.step s = some (M.eval s cond).2.next := by
  rw [step, h]
  exact if_pos hc

theorem step_ifz_false (h : M.code[s.pc]? = some (.ifz cond target))
    (hc : (M.eval s cond).1.holds = false) : M.step s = M.jump (M.eval s cond).2 target := by
  rw [step, h]
  exact if_neg (by simp [hc])

theorem step_goto (h : M.code[s.pc]? = some (.goto target)) : M.step s = M.jump s target := by
  rw [step, h]

theorem step_param (h : M.code[s.pc]? = some (.param name)) :
    M.step s = some { s.next with passed := s.passed ++ [s.read name] } := by
  rw [step, h]

theorem step_call (h : M.code[s.pc]? = some (.call name count)) :
    M.step s = some (M.call s name count).2.next := by
  rw [step, h]

theorem step_getparam (h : M.code[s.pc]? = some (.getparam dest index)) :
    M.step s = some (s.set dest (M.args.getD (index - 1) .nothing)).next := by
  rw [step, h]

/-- Every label is defined at most once. -/
def Unambiguous (M : Machine) : Prop :=
  ∀ (l : String) (i j : Nat), M.code[i]? = some (.label l) → M.code[j]? = some (.label l) → i = j

theorem jump_eq (hu : M.Unambiguous) {pc : Nat} (h : M.code[pc]? = some (.label target)) :
    M.jump s target = some (s.goto pc) := by
  have hmem : Instruction.label target ∈ M.code := List.mem_of_getElem? h
  have hidx : M.code[M.code.idxOf (.label target)]? = some (.label target) := by
    rw [List.getElem?_eq_getElem (List.idxOf_lt_length_of_mem hmem), List.getElem_idxOf]
  rw [jump, if_pos hmem, hu target _ _ hidx h]

end Step

theorem steps_add (m n : Nat) (s : State) : M.steps (m + n) s = (M.steps m s).bind (M.steps n) := by
  induction m generalizing s with
  | zero => rw [Nat.zero_add, steps, Option.bind_some]
  | succ m ih =>
    rw [Nat.add_right_comm, steps, steps, Option.bind_assoc]
    exact congrArg _ (funext ih)

namespace Reaches

theorem refl (s : State) : M.Reaches s s := ⟨0, rfl⟩

theorem trans (h₁ : M.Reaches s₁ s₂) (h₂ : M.Reaches s₂ s₃) : M.Reaches s₁ s₃ := by
  obtain ⟨m, hm⟩ := h₁
  obtain ⟨n, hn⟩ := h₂
  exact ⟨m + n, by rw [steps_add, hm, Option.bind_some, hn]⟩

theorem head (h : M.step s₁ = some s₂) (h' : M.Reaches s₂ s₃) : M.Reaches s₁ s₃ := by
  obtain ⟨n, hn⟩ := h'
  exact ⟨n + 1, by rw [steps, h, Option.bind_some, hn]⟩

theorem single (h : M.step s₁ = some s₂) : M.Reaches s₁ s₂ := head h (refl s₂)

theorem tail (h : M.Reaches s₁ s₂) (h' : M.step s₂ = some s₃) : M.Reaches s₁ s₃ := h.trans (single h')

end Reaches

namespace Lasts

theorem zero (s : State) : M.Lasts 0 s := rfl

theorem mono {m n : Nat} (h : M.Lasts n s) (hmn : m ≤ n) : M.Lasts m s := by
  obtain ⟨k, rfl⟩ := Nat.exists_eq_add_of_le hmn
  rw [Lasts, steps_add] at h
  cases hm : M.steps m s with
  | none =>
    rw [hm] at h
    cases h
  | some s' => rw [Lasts, hm, Option.isSome_some]

/-- A run that lasts behind a state lasts before it. -/
theorem of_reaches {n : Nat} (h : M.Reaches s s₁) (hl : M.Lasts n s₁) : M.Lasts n s := by
  obtain ⟨m, hm⟩ := h
  have hsum : M.Lasts (m + n) s := by
    rw [Lasts, steps_add, hm, Option.bind_some]
    exact hl
  exact hsum.mono (Nat.le_add_left n m)

/-- A step more is gained by every step. -/
theorem of_step {n : Nat} (h : M.step s = some s₁) (hl : M.Lasts n s₁) : M.Lasts (n + 1) s := by
  rw [Lasts, steps, h, Option.bind_some]
  exact hl

end Lasts

/-- Instructions stand in the code from some place on. -/
def At (M : Machine) : Nat → List Instruction → Prop
  | _, [] => True
  | pc, i :: more => M.code[pc]? = some i ∧ M.At (pc + 1) more

theorem at_append {pc : Nat} {before behind : List Instruction} :
    M.At pc (before ++ behind) ↔ M.At pc before ∧ M.At (pc + before.length) behind := by
  induction before generalizing pc with
  | nil => simp [At]
  | cons i more ih =>
    rw [List.cons_append, At, At, ih, List.length_cons, and_assoc, Nat.add_assoc, Nat.add_comm 1]

theorem at_middle {before middle behind : List Instruction} (h : M.code = before ++ middle ++ behind) :
    M.At before.length middle := by
  induction middle generalizing before with
  | nil => trivial
  | cons i more ih =>
    refine ⟨by simp [h], ?_⟩
    have hmore : M.At (before ++ [i]).length more := ih (by simp [h])
    rwa [List.length_append] at hmore


end Machine

end ThreeAddress
