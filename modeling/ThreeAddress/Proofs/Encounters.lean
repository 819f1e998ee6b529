import Mathlib.Data.List.Induction
import ThreeAddress.Proofs.TableSteps

/-!
# What a walk meets

Checking walks through a program once.  What it meets is told here without a table: bodies that are entered and left,
names that are bound, read and passed, and assignments.  What a name means at some point of the walk follows from what
was met before, and so does whether an assignment has touched what it means.

* `Encounter`, `Program.encounters` — what is met, and all of it in the order of the walk;
* `Bindings`, `bindingsAfter`, `meant?` — where the names in view were bound, and what a name means;
* `Untouched`, `Unassigned` — no assignment has had a binding as its target, or copied it;
* `Encounter.complaint` — what there is to say about a variable that is read unassigned;
* `bindingsAfter_concat`, `untouched_concat` — what one encounter more changes.
-/

namespace ThreeAddress

/-! ### Encounters -/

/-- What is met on a walk through a program.  An argument comes with the function that it is passed to, and an
assignment with the one name on its right-hand side, if there is just one. -/
inductive Encounter
  | opens
  | closes
  | binds (role : Role) (name : String)
  | reads (name : String) (span : Span) (hint : String)
  | passes (callee name : String) (span : Span) (hint : String)
  | assigns (target : String) (copied : Option String)
deriving DecidableEq

/-- An argument that is a name. -/
def Argument.encounters (callee hint : String) (a : Argument) : List Encounter :=
  match a.atom with
  | .name x => [.passes callee x a.span hint]
  | .number _ => []

/-- The names that are passed in a call. -/
def Call.encounters (c : Call) : List Encounter := c.args.flatMap (Argument.encounters c.name c.text)

/-- The name in a fragment. -/
def Fragment.encounters (f : Fragment) (span : Span) : List Encounter :=
  match f with
  | .atom _ (.name x) | .not x => [.reads x span f.text]
  | .atom _ (.number _) | .zero | .bool _ => []

/-- The names in an expression. -/
def Expr.encounters : Expr → List Encounter
  | .arith _ left right _ | .logic _ left right _ => left.encounters ++ right.encounters
  | .paren inner _ => inner.encounters
  | .call c _ => c.encounters
  | .fragment f span => f.encounters span

/-- The names in a condition. -/
def Cond.encounters : Cond → List Encounter
  | .comparison _ left right _ | .equality _ left right _ => left.encounters ++ right.encounters
  | .neg inner _ | .paren inner _ => inner.encounters
  | .binary _ left right _ => left.encounters ++ right.encounters
  | .bool _ _ => []

mutual

/-- What is met in a statement.  The value of an assignment comes before the assignment itself. -/
def Stmt.encounters : Stmt → List Encounter
  | .assign target value _ _ => value.encounters ++ [.assigns target value.referencedName?]
  | .ite cond thenBlock elseBlock _ =>
    cond.encounters ++ (Block.encounters thenBlock ++ Block.encounters elseBlock)
  | .loop cond body _ => cond.encounters ++ Block.encounters body
  | .call c _ => c.encounters
  | .block inner _ => Block.encounters inner
  | .skip _ => []

/-- What is met in a block. -/
def Block.encounters : Block → List Encounter
  | ⟨stmts, _⟩ => Stmt.encountersOfList stmts

/-- What is met in statements in order. -/
def Stmt.encountersOfList : List Stmt → List Encounter
  | [] => []
  | s :: more => s.encounters ++ Stmt.encountersOfList more

end

/-- What is met in a declaration.  The value of a constant comes before its name. -/
def Decl.encounters : Decl → List Encounter
  | .var name _ _ => [.binds .var name]
  | .const name _ value _ => value.encounters ++ [.binds .const name]

/-- What is met in a function.  Its name is bound before its body is entered. -/
def Func.encounters (f : Func) : List Encounter :=
  [.binds .func f.name] ++ ([.opens] ++ (f.params.map (.binds .param ·.name) ++ (f.decls.flatMap Decl.encounters ++
    (Block.encounters f.body ++ f.returnValue.toList.flatMap Expr.encounters))) ++ [.closes])

/-- What is met in a program. -/
def Program.encounters (p : Program) : List Encounter :=
  p.decls.flatMap Decl.encounters ++ (p.funcs.flatMap Func.encounters ++
    ([.opens] ++ (p.main.decls.flatMap Decl.encounters ++ Block.encounters p.main.body) ++ [.closes]))

/-! ### What names mean -/

/-- A name is bound at a place of the walk, unless its scope has bound it before: the first binding counts. -/
def bindFirst (scope : List (String × Nat)) (x : String) (place : Nat) : List (String × Nat) :=
  if (scope.lookup x).isSome then scope else (x, place) :: scope

/-- The names in view, each with the place of the walk where it was bound: those of the body at hand, if there is one,
and the global ones. -/
structure Bindings where
  locals : Option (List (String × Nat))
  globals : List (String × Nat)

/-- A name is bound in the body at hand, or else globally.  Functions are global wherever they are bound. -/
def Bindings.bind (b : Bindings) (place : Nat) (role : Role) (x : String) : Bindings :=
  if role = .func then { b with globals := bindFirst b.globals x place }
  else
    match b.locals with
    | some scope => { b with locals := some (bindFirst scope x place) }
    | none => { b with globals := bindFirst b.globals x place }

/-- What an encounter at some place does to the names in view. -/
def Bindings.meet (b : Bindings) (place : Nat) : Encounter → Bindings
  | .opens => { b with locals := some [] }
  | .closes => { b with locals := none }
  | .binds role x => b.bind place role x
  | .reads _ _ _ | .passes _ _ _ _ | .assigns _ _ => b

/-- The names in view behind some encounters. -/
def bindingsAfter (past : List Encounter) : Bindings :=
  past.zipIdx.foldl (fun b e => b.meet e.2 e.1) ⟨none, []⟩

/-- The place where a name was bound: in the body at hand, or else globally. -/
def Bindings.find? (b : Bindings) (x : String) : Option Nat :=
  match (b.locals.getD []).lookup x with
  | some place => some place
  | none => b.globals.lookup x

/-- The place where what a name means behind some encounters was bound. -/
def meant? (past : List Encounter) (x : String) : Option Nat := (bindingsAfter past).find? x

/-- A function of a name is in view. -/
def MeansFunction (past : List Encounter) (f : String) : Prop :=
  ∃ place ∈ (bindingsAfter past).globals.lookup f, past[place]? = some (.binds .func f)

/-! ### Variables without a value -/

/-- An encounter touches a binding: it is an assignment to what was bound there, or one that copies it. -/
def Encounter.Touches (past : List Encounter) (place : Nat) : Encounter → Prop
  | .assigns target copied => meant? past target = some place ∨ copied.bind (meant? past) = some place
  | _ => False

/-- No encounter has touched a binding. -/
def Untouched (past : List Encounter) (place : Nat) : Prop :=
  ∀ k < past.length, ∀ e ∈ past[k]?, ¬e.Touches (past.take k) place

/-- A name means a variable that no assignment has touched. -/
def Unassigned (past : List Encounter) (x : String) : Prop :=
  ∃ place ∈ meant? past x, past[place]? = some (.binds .var x) ∧ Untouched past place

/-- A name is read, or passed to a function that is in view, while it means a variable that no assignment has
touched. -/
def Encounter.ReadsUnassigned (past : List Encounter) : Encounter → Prop
  | .reads x _ _ => Unassigned past x
  | .passes f x _ _ => MeansFunction past f ∧ Unassigned past x
  | _ => False

/-- What there is to say about a name that is read unassigned. -/
def Encounter.fault? : Encounter → Option Fault
  | .reads x span hint => some ((SemanticCause.unassignedVariable x).fault span hint)
  | .passes _ x span hint => some ((SemanticCause.unassignedArgument x).fault span hint)
  | _ => none

instance (past : List Encounter) (f : String) : Decidable (MeansFunction past f) :=
  inferInstanceAs (Decidable (∃ place ∈ (bindingsAfter past).globals.lookup f, past[place]? = some (.binds .func f)))

instance (past : List Encounter) (place : Nat) : DecidablePred (Encounter.Touches past place)
  | .assigns target copied =>
    inferInstanceAs (Decidable (meant? past target = some place ∨ copied.bind (meant? past) = some place))
  | .opens | .closes | .binds _ _ | .reads _ _ _ | .passes _ _ _ _ => inferInstanceAs (Decidable False)

instance (past : List Encounter) (place : Nat) : Decidable (Untouched past place) :=
  inferInstanceAs (Decidable (∀ k < past.length, ∀ e ∈ past[k]?, ¬e.Touches (past.take k) place))

instance (past : List Encounter) (x : String) : Decidable (Unassigned past x) :=
  inferInstanceAs (Decidable (∃ place ∈ meant? past x, past[place]? = some (.binds .var x) ∧ Untouched past place))

instance (past : List Encounter) : DecidablePred (Encounter.ReadsUnassigned past)
  | .reads x _ _ => inferInstanceAs (Decidable (Unassigned past x))
  | .passes f x _ _ => inferInstanceAs (Decidable (MeansFunction past f ∧ Unassigned past x))
  | .opens | .closes | .binds _ _ | .assigns _ _ => inferInstanceAs (Decidable False)

/-- One fault, if an encounter behind some others reads a variable that is unassigned. -/
def Encounter.complaint (past : List Encounter) (e : Encounter) : List Fault :=
  if e.ReadsUnassigned past then e.fault?.toList else []

/-- What there is to say about encounters behind some others, in order. -/
def complaints : List Encounter → List Encounter → List Fault
  | _, [] => []
  | past, e :: more => e.complaint past ++ complaints (past ++ [e]) more

theorem complaints_append (past es fs : List Encounter) :
    complaints past (es ++ fs) = complaints past es ++ complaints (past ++ es) fs := by
  induction es generalizing past with
  | nil => rw [List.append_nil]; rfl
  | cons e more ih =>
    rw [List.cons_append, complaints, complaints, ih, List.append_assoc, List.append_assoc, List.singleton_append]

/-- Each encounter is judged by those in front of it. -/
theorem complaints_eq (past es : List Encounter) :
    complaints past es = (es.zipIdx past.length).flatMap fun e => e.1.complaint ((past ++ es).take e.2) := by
  induction es generalizing past with
  | nil => rfl
  | cons e more ih =>
    rw [complaints, ih, List.zipIdx_cons, List.flatMap_cons, List.take_left, List.length_append, List.length_singleton,
      List.append_assoc, List.singleton_append]

/-! ### One encounter more -/

theorem bindingsAfter_concat (past : List Encounter) (e : Encounter) :
    bindingsAfter (past ++ [e]) = (bindingsAfter past).meet past.length e := by
  rw [bindingsAfter, List.zipIdx_append, List.foldl_append, Nat.zero_add]
  rfl

theorem lookup_bindFirst (scope : List (String × Nat)) (x y : String) (place : Nat) :
    (bindFirst scope x place).lookup y =
      if y = x ∧ scope.lookup x = none then some place else scope.lookup y := by
  unfold bindFirst
  split
  · rename_i hbound
    rw [if_neg fun h => by rw [h.2] at hbound; cases hbound]
  · rename_i hfree
    rw [Option.not_isSome_iff_eq_none] at hfree
    rw [List.lookup_cons]
    by_cases hxy : y = x
    · rw [if_pos ⟨hxy, hfree⟩, beq_iff_eq.2 hxy]
    · rw [if_neg fun h => hxy h.1, show (y == x) = false from by simpa using hxy]

/-- All names of a scope were bound before some place. -/
def BoundBefore (n : Nat) (scope : List (String × Nat)) : Prop := ∀ x place, scope.lookup x = some place → place < n

theorem BoundBefore.bindFirst {n : Nat} {scope : List (String × Nat)} (h : BoundBefore n scope) (x : String) :
    BoundBefore (n + 1) (bindFirst scope x n) := by
  intro y place hy
  rw [lookup_bindFirst] at hy
  split at hy
  · cases hy
    exact Nat.lt_succ_self n
  · exact Nat.lt_succ_of_lt (h y place hy)

theorem BoundBefore.succ {n : Nat} {scope : List (String × Nat)} (h : BoundBefore n scope) : BoundBefore (n + 1) scope :=
  fun x place hx => Nat.lt_succ_of_lt (h x place hx)

/-- Everything in view was bound on the way. -/
theorem bindingsAfter_before (past : List Encounter) :
    BoundBefore past.length ((bindingsAfter past).locals.getD []) ∧ BoundBefore past.length (bindingsAfter past).globals := by
  have hnil (n : Nat) : BoundBefore n [] := fun x place hx => by cases hx
  induction past using List.reverseRecOn with
  | nil => exact ⟨hnil _, hnil _⟩
  | append_singleton past e ih =>
    obtain ⟨hlocals, hglobals⟩ := ih
    rw [bindingsAfter_concat, List.length_append, List.length_singleton]
    cases e with
    | opens | closes => exact ⟨hnil _, hglobals.succ⟩
    | reads | passes | assigns => exact ⟨hlocals.succ, hglobals.succ⟩
    | binds role x =>
      rw [Bindings.meet, Bindings.bind]
      split
      · exact ⟨hlocals.succ, hglobals.bindFirst x⟩
      · split
        · rename_i scope hscope
          rw [hscope] at hlocals
          exact ⟨hlocals.bindFirst x, hglobals.succ⟩
        · exact ⟨hlocals.succ, hglobals.bindFirst x⟩

theorem meant?_lt {past : List Encounter} {x : String} {place : Nat} (h : meant? past x = some place) :
    place < past.length := by
  obtain ⟨hlocals, hglobals⟩ := bindingsAfter_before past
  unfold meant? Bindings.find? at h
  split at h
  · rename_i found hfound
    cases h
    exact hlocals x place hfound
  · exact hglobals x place h

/-- Nothing touches a binding before it is made. -/
theorem untouched_here (past : List Encounter) : Untouched past past.length := by
  intro k hk e he htouches
  have hearlier {y : String} (h : meant? (past.take k) y = some past.length) : False := by
    have hlt := meant?_lt h
    rw [List.length_take] at hlt
    omega
  cases e with
  | assigns target copied =>
    rcases htouches with htarget | hcopied
    · exact hearlier htarget
    · obtain ⟨y, -, hy⟩ := Option.bind_eq_some_iff.1 hcopied
      exact hearlier hy
  | _ => exact htouches

theorem untouched_concat (past : List Encounter) (e : Encounter) (place : Nat) :
    Untouched (past ++ [e]) place ↔ Untouched past place ∧ ¬e.Touches past place := by
  have hbefore {k : Nat} (hk : k < past.length) :
      (past ++ [e])[k]? = past[k]? ∧ (past ++ [e]).take k = past.take k :=
    ⟨List.getElem?_append_left hk, List.take_append_of_le_length (Nat.le_of_lt hk)⟩
  constructor
  · intro h
    refine ⟨fun k hk e' he' => ?_, ?_⟩
    · have hlater := h k (by rw [List.length_append]; omega) e'
      rw [(hbefore hk).1, (hbefore hk).2] at hlater
      exact hlater he'
    · have hlast := h past.length (by simp) e
      rw [List.getElem?_concat_length, List.take_left] at hlast
      exact hlast rfl
  · rintro ⟨h, he⟩ k hk e' he'
    rw [List.length_append, List.length_singleton] at hk
    by_cases hlt : k < past.length
    · rw [(hbefore hlt).1] at he'
      rw [(hbefore hlt).2]
      exact h k hlt e' he'
    · obtain rfl : k = past.length := by omega
      rw [List.getElem?_concat_length] at he'
      cases he'
      rwa [List.take_left]

end ThreeAddress
