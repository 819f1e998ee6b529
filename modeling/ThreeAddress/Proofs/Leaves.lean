import ThreeAddress.Proofs.Spelling
import ThreeAddress.Reading.Program

/-!
# The leaves of a tree

All names and numerals that a tree uses, in the order of the walk, and their form.

* `Expr.leaves`, `Cond.leaves`, `Stmt.leaves`, `Decl.leaves` — the atoms in operand or argument position,
  and the targets of assignments;
* `Stmt.parts` — the induction over statements and sequences of statements at once;
* `Program.Spelled` — every leaf and every declared name has the form of its kind;
* `AllPlain` — every leaf has the form of its kind, and is no name that code makes up.
-/

namespace ThreeAddress

/-! ### Leaves -/

/-- The name or numeral in a fragment. -/
def Fragment.leaves : Fragment → List Atom
  | .atom _ operand => [operand]
  | .not id => [.name id]
  | .zero | .bool _ => []

/-- The arguments of a call. -/
def Call.leaves (c : Call) : List Atom := c.args.map (·.atom)

/-- The operands and arguments in an expression. -/
def Expr.leaves : Expr → List Atom
  | .arith _ left right _ | .logic _ left right _ => left.leaves ++ right.leaves
  | .paren inner _ => inner.leaves
  | .call c _ => c.leaves
  | .fragment f _ => f.leaves

/-- The operands and arguments in a condition. -/
def Cond.leaves : Cond → List Atom
  | .comparison _ left right _ | .equality _ left right _ => left.leaves ++ right.leaves
  | .neg inner _ | .paren inner _ => inner.leaves
  | .binary _ left right _ => left.leaves ++ right.leaves
  | .bool _ _ => []

mutual

/-- The operands, arguments and targets in a statement. -/
def Stmt.leaves : Stmt → List Atom
  | .assign target value _ _ => .name target :: value.leaves
  | .ite cond thenBlock elseBlock _ =>
    cond.leaves ++ (Block.leaves thenBlock ++ Block.leaves elseBlock)
  | .loop cond body _ => cond.leaves ++ Block.leaves body
  | .call c _ => c.leaves
  | .block inner _ => Block.leaves inner
  | .skip _ => []

/-- The operands, arguments and targets in a block. -/
def Block.leaves : Block → List Atom
  | ⟨stmts, _⟩ => Stmt.leavesOfList stmts

/-- The operands, arguments and targets in statements in order. -/
def Stmt.leavesOfList : List Stmt → List Atom
  | [] => []
  | s :: more => s.leaves ++ Stmt.leavesOfList more

end

/-- The operands and arguments in the value of a constant. -/
def Decl.leaves : Decl → List Atom
  | .var _ _ _ => []
  | .const _ _ value _ => value.leaves

/-! ### Induction over statements -/

/-- **Induction over statements.**  A property of statements and one of sequences hold everywhere if each
kind of statement has the first, given the second for its blocks, and both build up the sequences. -/
theorem Stmt.parts {P : Stmt → Prop} {Q : List Stmt → Prop}
    (assign : ∀ target value a s, P (.assign target value a s))
    (ite : ∀ cond t e s, Q t.nodes → Q e.nodes → P (.ite cond t e s))
    (loop : ∀ cond body s, Q body.nodes → P (.loop cond body s))
    (call : ∀ c s, P (.call c s))
    (block : ∀ b s, Q b.nodes → P (.block b s))
    (skip : ∀ s, P (.skip s))
    (nil : Q [])
    (cons : ∀ s more, P s → Q more → Q (s :: more)) :
    (∀ s, P s) ∧ ∀ ss, Q ss := by
  have hs : ∀ s, P s := fun s =>
    @Stmt.rec P (fun b => Q b.nodes) Q assign ite loop call block skip (fun _ _ h => h) nil cons s
  refine ⟨hs, fun ss => ?_⟩
  induction ss with
  | nil => exact nil
  | cons s more ih => exact cons s more (hs s) ih

/-! ### Spelled trees -/

/-- Every leaf has the form of its kind. -/
def AllSpelled (leaves : List Atom) : Prop := ∀ a ∈ leaves, a.Spelled

/-- A declared name is an identifier, and the leaves of the value are spelled. -/
structure Decl.Spelled (d : Decl) : Prop where
  name : isIdentifier d.name = true
  leaves : AllSpelled d.leaves

/-- All names of a function are spelled. -/
structure Func.Spelled (f : Func) : Prop where
  name : isIdentifier f.name = true
  params : ∀ p ∈ f.params, isIdentifier p.name = true
  decls : ∀ d ∈ f.decls, d.Spelled
  body : AllSpelled (Stmt.leavesOfList f.body.nodes)
  returned : ∀ e, f.returnValue = some e → AllSpelled e.leaves

/-- All names of a program are spelled. -/
structure Program.Spelled (p : Program) : Prop where
  decls : ∀ d ∈ p.decls, d.Spelled
  funcs : ∀ f ∈ p.funcs, f.Spelled
  mainDecls : ∀ d ∈ p.main.decls, d.Spelled
  mainBody : AllSpelled (Stmt.leavesOfList p.main.body.nodes)

/-! ### Plain leaves -/

/-- A leaf that is spelled, and is no name of the supply. -/
def Atom.Plain : Atom → Prop
  | .name x => isIdentifier x = true ∧ isReservedName x = false
  | .number digits => isNumeral digits = true

instance : DecidablePred Atom.Plain
  | .name x => inferInstanceAs (Decidable (isIdentifier x = true ∧ isReservedName x = false))
  | .number digits => inferInstanceAs (Decidable (isNumeral digits = true))

/-- All leaves are plain. -/
def AllPlain (leaves : List Atom) : Prop := ∀ a ∈ leaves, a.Plain

instance (leaves : List Atom) : Decidable (AllPlain leaves) := inferInstanceAs (Decidable (∀ a ∈ leaves, a.Plain))

theorem AllPlain.left {as bs : List Atom} (h : AllPlain (as ++ bs)) : AllPlain as :=
  fun a ha => h a (List.mem_append_left _ ha)

theorem AllPlain.right {as bs : List Atom} (h : AllPlain (as ++ bs)) : AllPlain bs :=
  fun a ha => h a (List.mem_append_right _ ha)

theorem AllPlain.ite {c : Cond} {th el : Block} {s : Span} (h : AllPlain (Stmt.ite c th el s).leaves) :
    AllPlain c.leaves ∧ AllPlain (Stmt.leavesOfList th.nodes) ∧ AllPlain (Stmt.leavesOfList el.nodes) := by
  rw [Stmt.leaves, Block.leaves, Block.leaves] at h
  exact ⟨h.left, h.right.left, h.right.right⟩

theorem AllPlain.loop {c : Cond} {b : Block} {s : Span} (h : AllPlain (Stmt.loop c b s).leaves) :
    AllPlain c.leaves ∧ AllPlain (Stmt.leavesOfList b.nodes) := by
  rw [Stmt.leaves, Block.leaves] at h
  exact ⟨h.left, h.right⟩

theorem AllPlain.block {b : Block} {s : Span} (h : AllPlain (Stmt.block b s).leaves) :
    AllPlain (Stmt.leavesOfList b.nodes) := by
  rw [Stmt.leaves, Block.leaves] at h
  exact h

end ThreeAddress
