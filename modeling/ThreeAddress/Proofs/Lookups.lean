import ThreeAddress.Proofs.Inspections
import ThreeAddress.Proofs.Mentions
import ThreeAddress.Proofs.TableView

/-!
# Names under two passes

Checking knows local names by the scope of the body at hand, lowering by the rename table of that body.  Each
leaf of a body is considered at two moments: when checking looks it up, and when it is lowered.

* `Lookup` — a leaf with the tables in which it is looked up, and the rename table under which it is lowered;
* `Expr.lookups`, `Stmt.lookups`, `Body.lookups`, `Program.lookups` — the leaves of a tree on both walks, each
  walk in its own state;
* `Check.KeepsLocals` — a check that defines no local name;
* `Lookup.Matches` — the local names of both passes are the same at such a leaf;
* `Program.lookups_match` — so they are everywhere.
-/

namespace ThreeAddress

/-! ### Leaves on both walks -/

/-- A leaf: the tables in which checking looks it up, and the rename table under which it is lowered. -/
structure Lookup where
  leaf : Atom
  tables : List SymbolTable
  renames : RenameTable

/-- A leaf as it is written in the code. -/
def Lookup.written (l : Lookup) : String := l.leaf.lower l.renames

/-- A leaf that is looked up again later. -/
def Lookup.again (s : SymbolTable) (l : Lookup) : Lookup := { l with tables := l.tables ++ [s] }

section Walks

variable (t : RenameTable)

/-- A leaf at which checking comes by.  Numerals are not looked up. -/
def Atom.lookup (s : SymbolTable) : Atom → Lookup
  | .name x => ⟨.name x, [s], t⟩
  | .number digits => ⟨.number digits, [], t⟩

/-- The arguments of a call.  Those of an unknown function are not looked up, and those of a known one behind
the mark that it is used. -/
def Call.lookups (c : Call) (s : SymbolTable) : List Lookup :=
  match (s.lookupGlobal? c.name).map Entity.kind with
  | some (.function _ _) => c.leaves.map (Atom.lookup t (s.setGlobalState c.name .used))
  | _ => c.leaves.map (⟨·, [], t⟩)

/-- The operands and arguments in an expression. -/
def Expr.lookups : Expr → SymbolTable → List Lookup
  | .arith _ left right _, s | .logic _ left right _, s =>
    left.lookups s ++ right.lookups (left.check.run s).state
  | .paren inner _, s => inner.lookups s
  | .call c _, s => c.lookups t s
  | .fragment f _, s => f.leaves.map (Atom.lookup t s)

/-- The operands and arguments in a condition. -/
def Cond.lookups : Cond → SymbolTable → List Lookup
  | .comparison _ left right _, s | .equality _ left right _, s =>
    left.lookups t s ++ right.lookups t (left.check.run s).state
  | .neg inner _, s | .paren inner _, s => inner.lookups s
  | .binary _ left right _, s => left.lookups s ++ right.lookups (left.check.run s).state
  | .bool _ _, _ => []

/-- An assignment.  A copied name is looked up a second time, when it is marked as used, and then the target is
looked up. -/
def assignmentLookups (target : String) (value : Expr) (s : SymbolTable) : List Lookup :=
  let found := (value.check.run s).state
  let operands := value.lookups t s
  (if value.referencedName?.isSome then operands.map (·.again found) else operands) ++
    [⟨.name target, [((markReferenced value).run found).state], t⟩]

mutual

/-- The operands, arguments and targets in a statement. -/
def Stmt.lookups : Stmt → SymbolTable → List Lookup
  | .assign target value _ _, s => assignmentLookups t target value s
  | .ite cond thenBlock elseBlock _, s =>
    let decided := (cond.check.run s).state
    cond.lookups t s ++
      (Block.lookups thenBlock decided ++ Block.lookups elseBlock ((Block.check thenBlock).run decided).state)
  | .loop cond body _, s => cond.lookups t s ++ Block.lookups body (cond.check.run s).state
  | .call c _, s => c.lookups t s
  | .block inner _, s => Block.lookups inner s
  | .skip _, _ => []

/-- The operands, arguments and targets in a block. -/
def Block.lookups : Block → SymbolTable → List Lookup
  | ⟨stmts, _⟩, s => Stmt.lookupsOfList stmts s

/-- The operands, arguments and targets in statements in order. -/
def Stmt.lookupsOfList : List Stmt → SymbolTable → List Lookup
  | [], _ => []
  | first :: more, s => first.lookups s ++ Stmt.lookupsOfList more (first.check.run s).state

end

/-- The operands and arguments in the value of a constant. -/
def Decl.lookups : Decl → SymbolTable → List Lookup
  | .var _ _ _, _ => []
  | .const _ _ value _, s => value.lookups t s

/-- The operands and arguments in global declarations.  They are checked before any function, and lowered as
the main part begins. -/
def Decl.globalLookups : List Decl → SymbolTable → List Lookup
  | [], _ => []
  | d :: more, s => d.lookups t s ++ Decl.globalLookups more (d.check.run s).state

end Walks

/-- The operands and arguments in local declarations. -/
def Decl.localLookups : List Decl → SymbolTable → RenameTable → Generator → List Lookup
  | [], _, _, _ => []
  | d :: more, s, t, g =>
    let lowered := (d.lowerLocal t).run g
    d.lookups t s ++ Decl.localLookups more (d.check.run s).state lowered.value lowered.state

/-- The leaves of a body, its global constants aside, from the table and the generator before it. -/
def Body.lookups (function : String) (b : Body) (s : SymbolTable) (g : Generator) : List Lookup :=
  let opened := ((b.params.forM (Param.check function)).run s.push).state
  let declared := ((b.decls.forM Decl.check).run opened).state
  let finished := ((Block.check b.block).run declared).state
  let params := b.lowerParams.run g
  let t := (b.lowerStart.run g).value
  Decl.localLookups b.decls opened params.value params.state ++
    (Block.lookups t b.block declared ++ b.result.toList.flatMap (·.lookups t finished))

/-- The leaves of functions, function by function. -/
def Func.lookupsOf : List Func → SymbolTable → Generator → List (List Lookup)
  | [], _, _ => []
  | f :: more, s, g =>
    f.asBody.lookups f.name (f.register.run s).state g ::
      Func.lookupsOf more (f.check.run s).state (f.lower.run g).state

/-- The leaves of a program, body by body, when both passes start afresh.  The global constants are lowered in
the main part. -/
def Program.lookups (p : Program) : List (List Lookup) :=
  let declared := ((p.decls.forM Decl.check).run .empty).state
  let checked := ((p.funcs.mapM Func.check).run declared).state
  let g := Generator.first.behind p.funcs
  Func.lookupsOf p.funcs declared .first ++
    [Decl.globalLookups (openTable.run g).value p.decls .empty ++ p.mainBody.lookups "main" checked g]

/-! ### Checks that define no local name -/

/-- The names of a scope in the order of their definition. -/
def Scope.names (s : Scope) : List String := s.entities.map Entity.name

theorem Scope.contains_iff (s : Scope) (x : String) : s.contains x = s.names.contains x := by
  rw [contains, names, List.contains_eq_any_beq, List.any_map]
  refine congrArg (s.entities.any ·) (funext fun e => ?_)
  exact Bool.beq_comm

theorem Scope.names_setState (s : Scope) (x : String) (state : EntityState) : (s.setState x state).names = s.names := by
  rw [names, setState, List.map_map]
  refine List.map_congr_left fun e _ => ?_
  show (if e.name = x then e.withState state else e).name = e.name
  split <;> rfl

/-- Defining puts a name behind the others. -/
theorem Scope.names_define {s s' : Scope} {e : Entity} (h : s.define e = .ok s') :
    s.names.contains e.name = false ∧ s'.names = s.names ++ [e.name] := by
  have hnone := Scope.define_eq_ok_iff.1 ⟨s', h⟩
  refine ⟨?_, ?_⟩
  · rw [← s.contains_iff, s.contains_eq, hnone]
    rfl
  · rw [define, hnone] at h
    cases h
    exact List.map_append

namespace SymbolTable

/-- The names in the scopes inside the global one, innermost first. -/
def localNames (s : SymbolTable) : List (List String) := s.inner.map Scope.names

theorem localNames_setStateIn (x : String) (state : EntityState) {scopes scopes' : List Scope}
    (h : setStateIn x state scopes = some scopes') : scopes'.map Scope.names = scopes.map Scope.names := by
  induction scopes generalizing scopes' with
  | nil => cases h
  | cons s outer ih =>
    rw [setStateIn] at h
    split at h
    · cases h
      rw [List.map_cons, List.map_cons, s.names_setState]
    · obtain ⟨outer', houter, rfl⟩ := Option.map_eq_some_iff.1 h
      rw [List.map_cons, List.map_cons, ih houter]

theorem localNames_setState (s : SymbolTable) (x : String) (state : EntityState) :
    (s.setState x state).localNames = s.localNames := by
  unfold setState
  split
  · rename_i inner h
    exact localNames_setStateIn x state h
  · rfl

end SymbolTable

/-- A check after which the local names are those before. -/
def Check.KeepsLocals {α : Type} (p : Check α) : Prop := ∀ s, (p.run s).state.localNames = s.localNames

namespace Check.KeepsLocals

variable {α β : Type} {p : Check α} {f : α → Check β}

theorem pure (a : α) : Check.KeepsLocals (Pure.pure a) := fun _ => rfl

/-- A check that only looks. -/
theorem looks (h : Check.Looks p) : Check.KeepsLocals p := fun s => congrArg SymbolTable.localNames (h s)

theorem bind (hp : Check.KeepsLocals p) (hf : ∀ a, Check.KeepsLocals (f a)) : Check.KeepsLocals (p >>= f) :=
  fun s => (hf (p.run s).value (p.run s).state).trans (hp s)

theorem get {f : SymbolTable → Check β} (hf : ∀ s, Check.KeepsLocals (f s)) :
    Check.KeepsLocals (Pass.get >>= f) := fun s => hf s s

theorem modify {f : SymbolTable → SymbolTable} (hf : ∀ s, (f s).localNames = s.localNames) :
    Check.KeepsLocals (Pass.modify f) := hf

end Check.KeepsLocals

open Check (KeepsLocals Looks)

theorem Call.check_keepsLocals (c : Call) : KeepsLocals c.check := by
  refine .get fun s => ?_
  split
  · exact .looks ((Looks.report _ _ _).bind fun _ => .pure _)
  · exact .looks ((Looks.report _ _ _).bind fun _ => .pure _)
  · refine (KeepsLocals.looks (.require _ _ _ _)).bind fun _ => (KeepsLocals.looks (.require _ _ _ _)).bind fun _ => ?_
    refine (KeepsLocals.modify (f := (·.setGlobalState c.name .used)) fun _ => rfl).bind fun _ => .looks ?_
    refine (Looks.mapM (Argument.check_looks c.text) c.args).bind fun yields => ?_
    split
    · exact (checkArguments_looks _ _ _ _).bind fun _ => .pure _
    · exact .pure _

theorem Expr.check_keepsLocals (e : Expr) : KeepsLocals e.check := by
  induction e with
  | arith op l r s ihl ihr | logic op l r s ihl ihr =>
    exact ihl.bind fun _ => ihr.bind fun _ => .looks ((checkOperands_looks _ _ _ _ _ _).bind fun _ => .pure _)
  | paren e s ih => exact ih
  | call c s => exact c.check_keepsLocals
  | fragment f s => exact .looks (f.check_looks s)

theorem Cond.check_keepsLocals (c : Cond) : KeepsLocals c.check := by
  induction c with
  | comparison op l r s =>
    exact l.check_keepsLocals.bind fun _ => r.check_keepsLocals.bind fun _ => .looks (checkOperands_looks _ _ _ _ _ _)
  | equality op l r s =>
    exact l.check_keepsLocals.bind fun _ => r.check_keepsLocals.bind fun _ => .looks (.require _ _ _ _)
  | neg c s ih | paren c s ih => exact ih
  | binary op l r s ihl ihr => exact ihl.bind fun _ => ihr
  | bool b s => exact .pure ()

theorem markReferenced_keepsLocals (e : Expr) : KeepsLocals (markReferenced e) := by
  unfold markReferenced
  split
  · exact .pure ()
  · refine .get fun s => ?_
    split
    · exact .pure ()
    · split
      · exact .pure ()
      · exact .modify fun s => s.localNames_setState _ _

theorem checkAssignment_keepsLocals (target : String) (value : Expr) (span : Span) :
    KeepsLocals (checkAssignment target value span) := by
  refine value.check_keepsLocals.bind fun found => (markReferenced_keepsLocals value).bind fun _ => .get fun s => ?_
  split
  · exact .looks (.report _ _ _)
  · split
    · exact .looks (.report _ _ _)
    · split
      · exact .looks (.report _ _ _)
      · exact (KeepsLocals.looks (.require _ _ _ _)).bind fun _ => .modify fun s => s.localNames_setState _ _

theorem Stmt.check_keepsLocals : (∀ s : Stmt, KeepsLocals s.check) ∧ ∀ ss, KeepsLocals (Stmt.checkAll ss) := by
  refine Stmt.parts ?assign ?ite ?loop ?call ?block ?skip ?nil ?cons
  case assign => exact fun x e a s => checkAssignment_keepsLocals x e a
  case ite =>
    intro c th el s iht ihe
    rw [Stmt.check, Block.check, Block.check]
    exact c.check_keepsLocals.bind fun _ => iht.bind fun _ => ihe
  case loop =>
    intro c b s ih
    rw [Stmt.check, Block.check]
    exact c.check_keepsLocals.bind fun _ => ih
  case call => exact fun c s => c.check_keepsLocals.bind fun _ => .pure ()
  case block =>
    intro b s ih
    rw [Stmt.check, Block.check]
    exact ih
  case skip => exact fun s => .pure ()
  case nil => exact .pure ()
  case cons =>
    intro s more ihs ihmore
    rw [Stmt.checkAll]
    exact ihs.bind fun _ => ihmore

/-! ### Leaves under a table -/

/-- A leaf that is lowered under some rename table, and looked up where the local names are some. -/
structure Lookup.Under (t : RenameTable) (names : List (List String)) (l : Lookup) : Prop where
  renames : l.renames = t
  tables : ∀ s ∈ l.tables, s.localNames = names

section Under

variable {t : RenameTable} {s : SymbolTable} {names : List (List String)}

theorem Atom.lookup_under (hs : s.localNames = names) (a : Atom) : (a.lookup t s).Under t names := by
  cases a with
  | name x => exact ⟨rfl, fun s' hs' => List.mem_singleton.1 hs' ▸ hs⟩
  | number digits => exact ⟨rfl, fun s' hs' => absurd hs' List.not_mem_nil⟩

theorem leaves_under (hs : s.localNames = names) (leaves : List Atom) :
    ∀ l ∈ leaves.map (Atom.lookup t s), l.Under t names := by
  intro l hl
  obtain ⟨a, -, rfl⟩ := List.mem_map.1 hl
  exact a.lookup_under hs

theorem Call.lookups_under (hs : s.localNames = names) (c : Call) : ∀ l ∈ c.lookups t s, l.Under t names := by
  unfold Call.lookups
  split
  · exact leaves_under (s := s.setGlobalState c.name .used) hs c.leaves
  · intro l hl
    obtain ⟨a, -, rfl⟩ := List.mem_map.1 hl
    exact ⟨rfl, fun s' hs' => absurd hs' List.not_mem_nil⟩

theorem Expr.lookups_under (hs : s.localNames = names) (e : Expr) : ∀ l ∈ e.lookups t s, l.Under t names := by
  induction e generalizing s with
  | arith op l r sp ihl ihr | logic op l r sp ihl ihr =>
    exact List.forall_mem_append.2 ⟨ihl hs, ihr ((l.check_keepsLocals s).trans hs)⟩
  | paren e sp ih => exact ih hs
  | call c sp => exact c.lookups_under hs
  | fragment f sp => exact leaves_under hs f.leaves

theorem Cond.lookups_under (hs : s.localNames = names) (c : Cond) : ∀ l ∈ c.lookups t s, l.Under t names := by
  induction c generalizing s with
  | comparison op l r sp | equality op l r sp =>
    exact List.forall_mem_append.2 ⟨l.lookups_under hs, r.lookups_under ((l.check_keepsLocals s).trans hs)⟩
  | neg c sp ih | paren c sp ih => exact ih hs
  | binary op l r sp ihl ihr =>
    exact List.forall_mem_append.2 ⟨ihl hs, ihr ((l.check_keepsLocals s).trans hs)⟩
  | bool b sp => exact fun l hl => absurd hl List.not_mem_nil

theorem Lookup.Under.again {l : Lookup} (h : l.Under t names) (hs : s.localNames = names) :
    (l.again s).Under t names := by
  refine ⟨h.renames, fun s' hs' => ?_⟩
  rcases List.mem_append.1 hs' with hs' | hs'
  · exact h.tables s' hs'
  · rw [List.mem_singleton.1 hs']
    exact hs

theorem assignmentLookups_under (hs : s.localNames = names) (target : String) (value : Expr) :
    ∀ l ∈ assignmentLookups t target value s, l.Under t names := by
  have hfound := (value.check_keepsLocals s).trans hs
  have hmarked := (markReferenced_keepsLocals value _).trans hfound
  refine List.forall_mem_append.2 ⟨?_, fun l hl => ?_⟩
  · split
    · intro l hl
      obtain ⟨l', hl', rfl⟩ := List.mem_map.1 hl
      exact (value.lookups_under hs l' hl').again hfound
    · exact value.lookups_under hs
  · rw [List.mem_singleton.1 hl]
    exact ⟨rfl, fun s' hs' => List.mem_singleton.1 hs' ▸ hmarked⟩

theorem Stmt.lookups_under :
    (∀ (st : Stmt) {s : SymbolTable}, s.localNames = names → ∀ l ∈ st.lookups t s, l.Under t names) ∧
      ∀ ss {s : SymbolTable}, s.localNames = names → ∀ l ∈ Stmt.lookupsOfList t ss s, l.Under t names := by
  refine Stmt.parts ?assign ?ite ?loop ?call ?block ?skip ?nil ?cons
  case assign => exact fun x e a sp s hs => assignmentLookups_under hs x e
  case ite =>
    intro c th el sp iht ihe s hs
    rw [Stmt.lookups, Block.lookups, Block.lookups]
    have hdecided := (c.check_keepsLocals s).trans hs
    have hthen : ((Block.check th).run (c.check.run s).state).state.localNames = names := by
      rw [Block.check]
      exact (Stmt.check_keepsLocals.2 th.nodes _).trans hdecided
    exact List.forall_mem_append.2 ⟨c.lookups_under hs, List.forall_mem_append.2 ⟨iht hdecided, ihe hthen⟩⟩
  case loop =>
    intro c b sp ih s hs
    rw [Stmt.lookups, Block.lookups]
    exact List.forall_mem_append.2 ⟨c.lookups_under hs, ih ((c.check_keepsLocals s).trans hs)⟩
  case call => exact fun c sp s hs => c.lookups_under hs
  case block =>
    intro b sp ih s hs
    rw [Stmt.lookups, Block.lookups]
    exact ih hs
  case skip => exact fun sp s hs l hl => absurd hl List.not_mem_nil
  case nil => exact fun hs l hl => absurd hl List.not_mem_nil
  case cons =>
    intro st more ihs ihmore s hs
    rw [Stmt.lookupsOfList]
    exact List.forall_mem_append.2 ⟨ihs hs, ihmore ((Stmt.check_keepsLocals.1 st s).trans hs)⟩

/-! ### No leaf is left out -/

theorem Atom.leaf_lookup (a : Atom) : (a.lookup t s).leaf = a := by
  cases a <;> rfl

theorem map_leaf_lookup (leaves : List Atom) : (leaves.map (Atom.lookup t s)).map (·.leaf) = leaves := by
  rw [List.map_map]
  exact (List.map_congr_left fun a _ => a.leaf_lookup).trans leaves.map_id

theorem Call.leaves_lookups (c : Call) (s : SymbolTable) : (c.lookups t s).map (·.leaf) = c.leaves := by
  unfold Call.lookups
  split
  · exact map_leaf_lookup c.leaves
  · rw [List.map_map]
    exact c.leaves.map_id

theorem Expr.leaves_lookups (e : Expr) (s : SymbolTable) : (e.lookups t s).map (·.leaf) = e.leaves := by
  induction e generalizing s with
  | arith op l r sp ihl ihr | logic op l r sp ihl ihr => rw [lookups, leaves, List.map_append, ihl, ihr]
  | paren e sp ih => exact ih s
  | call c sp => exact c.leaves_lookups s
  | fragment f sp => exact map_leaf_lookup f.leaves

theorem Cond.leaves_lookups (c : Cond) (s : SymbolTable) : (c.lookups t s).map (·.leaf) = c.leaves := by
  induction c generalizing s with
  | comparison op l r sp | equality op l r sp =>
    rw [lookups, leaves, List.map_append, l.leaves_lookups, r.leaves_lookups]
  | neg c sp ih | paren c sp ih => exact ih s
  | binary op l r sp ihl ihr => rw [lookups, leaves, List.map_append, ihl, ihr]
  | bool b sp => rfl

theorem leaves_assignmentLookups (target : String) (value : Expr) (s : SymbolTable) :
    ((assignmentLookups t target value s).map (·.leaf)).Perm (.name target :: value.leaves) := by
  have hvalue (found : SymbolTable) : (if value.referencedName?.isSome then
      (value.lookups t s).map (·.again found) else value.lookups t s).map (·.leaf) = value.leaves := by
    rw [← value.leaves_lookups s]
    split
    · rw [List.map_map]
      rfl
    · rfl
  rw [assignmentLookups, List.map_append, hvalue]
  exact List.perm_append_singleton _ _

/-- A target is looked up behind the assigned value.  Otherwise the walk is from left to right. -/
theorem Stmt.leaves_lookups :
    (∀ (st : Stmt) (s : SymbolTable), ((st.lookups t s).map (·.leaf)).Perm st.leaves) ∧
      ∀ ss (s : SymbolTable), ((Stmt.lookupsOfList t ss s).map (·.leaf)).Perm (Stmt.leavesOfList ss) := by
  refine Stmt.parts ?assign ?ite ?loop ?call ?block ?skip ?nil ?cons
  case assign => exact fun x e a sp s => leaves_assignmentLookups x e s
  case ite =>
    intro c th el sp iht ihe s
    rw [Stmt.lookups, Stmt.leaves, Block.lookups, Block.lookups, Block.leaves, Block.leaves, List.map_append,
      List.map_append, c.leaves_lookups]
    exact ((iht _).append (ihe _)).append_left _
  case loop =>
    intro c b sp ih s
    rw [Stmt.lookups, Stmt.leaves, Block.lookups, Block.leaves, List.map_append, c.leaves_lookups]
    exact (ih _).append_left _
  case call => exact fun c sp s => .of_eq (c.leaves_lookups s)
  case block =>
    intro b sp ih s
    rw [Stmt.lookups, Stmt.leaves, Block.lookups, Block.leaves]
    exact ih s
  case skip => exact fun sp s => .nil
  case nil => exact fun s => .nil
  case cons =>
    intro st more ihs ihmore s
    rw [Stmt.lookupsOfList, Stmt.leavesOfList, List.map_append]
    exact (ihs s).append (ihmore _)

end Under

/-! ### Declarations -/

namespace SymbolTable

/-- The local names of a table are those of a rename table: in a body there is one scope with the same names in
the same order, and outside of all bodies there is none. -/
def HasLocals (s : SymbolTable) (t : RenameTable) : Prop :=
  s.localNames = [t.names] ∨ s.localNames = [] ∧ t.names = []

end SymbolTable

/-- Where a body is open, binding a name in its scope is what registering it does. -/
theorem bindEntity_localNames {t : RenameTable} {e : Entity} {cause : Entity → SemanticCause} {span : Span}
    {since : String} {s : SymbolTable} (hs : s.localNames = [t.names]) :
    ((bindEntity (·.define e) cause span since).run s).state.localNames = [(t.insert e.name).names] := by
  obtain ⟨inner, globals⟩ := s
  obtain ⟨scope, hscope, hnames⟩ : ∃ scope, inner = [scope] ∧ scope.names = t.names := by
    simpa [SymbolTable.localNames, List.map_eq_singleton_iff] using hs
  subst hscope
  have hcontains : t.contains e.name = scope.names.contains e.name := by
    rw [hnames]
    rfl
  cases hd : scope.define e with
  | error existing =>
    -- the name is taken: neither pass adds it again
    have htaken : t.contains e.name = true := by
      rw [hcontains, ← scope.contains_iff, scope.contains_eq, Option.isSome_iff_ne_none]
      intro hnone
      obtain ⟨scope', hdefined⟩ := Scope.define_eq_ok_iff.2 hnone
      rw [hd] at hdefined
      cases hdefined
    have hstate : ((bindEntity (·.define e) cause span since).run ⟨[scope], globals⟩).state = ⟨[scope], globals⟩ := by
      simp only [bindEntity, Pass.run_bind, Pass.run_get, SymbolTable.define, hd, Except.map]
      rfl
    rw [hstate, RenameTable.insert, if_pos htaken, ← hnames]
    rfl
  | ok scope' =>
    obtain ⟨hfree, happend⟩ := Scope.names_define hd
    have hstate : ((bindEntity (·.define e) cause span since).run ⟨[scope], globals⟩).state = ⟨[scope'], globals⟩ := by
      simp only [bindEntity, Pass.run_bind, Pass.run_get, SymbolTable.define, hd, Except.map]
      rfl
    rw [hstate, RenameTable.insert, if_neg (by rw [hcontains, hfree]; exact Bool.false_ne_true), ← hnames,
      ← happend]
    rfl

/-- Outside of all bodies, binding a name makes nothing local. -/
theorem bindEntity_global {e : Entity} {cause : Entity → SemanticCause} {span : Span} {since : String}
    {s : SymbolTable} (hs : s.localNames = []) :
    ((bindEntity (·.define e) cause span since).run s).state.localNames = [] := by
  obtain ⟨inner, globals⟩ := s
  have hinner : inner = [] := List.map_eq_nil_iff.1 hs
  subst hinner
  cases hd : globals.define e with
  | error existing =>
    simp only [bindEntity, Pass.run_bind, Pass.run_get, SymbolTable.define, hd, Except.map]
    rfl
  | ok globals' =>
    simp only [bindEntity, Pass.run_bind, Pass.run_get, SymbolTable.define, hd, Except.map]
    rfl

theorem checkReserved_keepsLocals (x : String) (span : Span) : KeepsLocals (checkReserved x span) :=
  .looks (checkReserved_looks x span)

/-- A declaration is local in both passes behind its value, or in none. -/
theorem Decl.check_localNames {t : RenameTable} {s : SymbolTable} (d : Decl) (hs : s.localNames = [t.names]) :
    (d.check.run s).state.localNames = [(t.insert d.name).names] := by
  cases d with
  | var x type span => exact bindEntity_localNames ((checkReserved_keepsLocals x span s).trans hs)
  | const x type value span =>
    have hvalue := (value.check_keepsLocals s).trans hs
    refine (KeepsLocals.looks (.require _ _ _ _) _).trans ?_
    exact bindEntity_localNames ((checkReserved_keepsLocals x span _).trans hvalue)

theorem Decl.check_global {s : SymbolTable} (d : Decl) (hs : s.localNames = []) :
    (d.check.run s).state.localNames = [] := by
  cases d with
  | var x type span => exact bindEntity_global ((checkReserved_keepsLocals x span s).trans hs)
  | const x type value span =>
    have hvalue := (value.check_keepsLocals s).trans hs
    refine (KeepsLocals.looks (.require _ _ _ _) _).trans ?_
    exact bindEntity_global ((checkReserved_keepsLocals x span _).trans hvalue)

theorem Decl.checkAll_global {ds : List Decl} {s : SymbolTable} (hs : s.localNames = []) :
    ((ds.forM Decl.check).run s).state.localNames = [] := by
  induction ds generalizing s with
  | nil => exact hs
  | cons d more ih => exact ih (d.check_global hs)

theorem Decl.checkAll_localNames {ds : List Decl} {t : RenameTable} {s : SymbolTable}
    (hs : s.localNames = [t.names]) :
    ((ds.forM Decl.check).run s).state.localNames = [(t.insertAll (ds.map (·.name))).names] := by
  induction ds generalizing t s with
  | nil => exact hs
  | cons d more ih => exact ih (d.check_localNames hs)

theorem Param.checkAll_localNames {function : String} {ps : List Param} {t : RenameTable} {s : SymbolTable}
    (hs : s.localNames = [t.names]) :
    ((ps.forM (Param.check function)).run s).state.localNames = [(t.insertAll (ps.map (·.name))).names] := by
  induction ps generalizing t s with
  | nil => exact hs
  | cons q more ih => exact ih (bindEntity_localNames ((checkReserved_keepsLocals q.name q.span s).trans hs))

/-! ### Bodies -/

/-- At a leaf, the local names of both passes are the same, and the code is that of the body with some
ordinal. -/
structure Lookup.Matches (ordinal : Nat) (l : Lookup) : Prop where
  ordinal : l.renames.ordinal = ordinal
  tables : ∀ s ∈ l.tables, s.HasLocals l.renames

theorem Lookup.Under.matches {t : RenameTable} {names : List (List String)} {l : Lookup} (h : l.Under t names)
    (hnames : names = [t.names] ∨ names = [] ∧ t.names = []) : l.Matches t.ordinal := by
  refine ⟨congrArg RenameTable.ordinal h.renames, fun s hs => ?_⟩
  rw [SymbolTable.HasLocals, h.renames, h.tables s hs]
  exact hnames

theorem Decl.lookups_under {t : RenameTable} {s : SymbolTable} {names : List (List String)}
    (hs : s.localNames = names) (d : Decl) : ∀ l ∈ d.lookups t s, l.Under t names := by
  cases d with
  | var x type span => exact fun l hl => absurd hl List.not_mem_nil
  | const x type value span => exact value.lookups_under hs

theorem Decl.globalLookups_match {t : RenameTable} (ht : t.names = []) {ds : List Decl} {s : SymbolTable}
    (hs : s.localNames = []) : ∀ l ∈ Decl.globalLookups t ds s, l.Matches t.ordinal := by
  induction ds generalizing s with
  | nil => exact fun l hl => absurd hl List.not_mem_nil
  | cons d more ih =>
    refine List.forall_mem_append.2 ⟨fun l hl => ?_, ih (d.check_global hs)⟩
    exact (d.lookups_under hs l hl).matches (.inr ⟨rfl, ht⟩)

theorem Decl.localLookups_match {ds : List Decl} {t : RenameTable} {s : SymbolTable} {g : Generator}
    (hs : s.localNames = [t.names]) : ∀ l ∈ Decl.localLookups ds s t g, l.Matches t.ordinal := by
  induction ds generalizing s t g with
  | nil => exact fun l hl => absurd hl List.not_mem_nil
  | cons d more ih =>
    have hvalue := d.value_lowerLocal t g
    have hmore : ((d.check.run s).state).localNames = [((d.lowerLocal t).run g).value.names] := by
      rw [hvalue]
      exact d.check_localNames hs
    refine List.forall_mem_append.2 ⟨fun l hl => (d.lookups_under hs l hl).matches (.inl rfl), ?_⟩
    rw [← t.ordinal_insert d.name, ← hvalue]
    exact ih hmore

/-- The local names of a checked body, behind its parameters and behind its declarations. -/
theorem Body.checked_localNames (function : String) (b : Body) (k : Nat) {s : SymbolTable}
    (hs : s.localNames = []) :
    let opened := ((b.params.forM (Param.check function)).run s.push).state
    opened.localNames = [(b.paramTable k).names] ∧
      ((b.decls.forM Decl.check).run opened).state.localNames = [(b.table k).names] := by
  have hpush : s.push.localNames = [(RenameTable.empty k).names] := by
    show Scope.empty.names :: s.localNames = _
    rw [hs]
    rfl
  have hopened : ((b.params.forM (Param.check function)).run s.push).state.localNames =
      [(b.paramTable k).names] := Param.checkAll_localNames hpush
  refine ⟨hopened, ?_⟩
  rw [b.table_eq]
  exact Decl.checkAll_localNames hopened

/-- **Bodies.**  If no scope is open before a body, both passes have the same local names at each of its
leaves. -/
theorem Body.lookups_match (function : String) (b : Body) {s : SymbolTable} (g : Generator)
    (hs : s.localNames = []) : ∀ l ∈ b.lookups function s g, l.Matches g.names.ordinal := by
  obtain ⟨hopened, hdeclared⟩ := b.checked_localNames function g.names.ordinal hs
  have hparams : (b.lowerParams.run g).value.ordinal = g.names.ordinal := by
    rw [b.value_lowerParams, b.ordinal_paramTable]
  have htable : (b.lowerStart.run g).value.ordinal = g.names.ordinal := by
    rw [b.value_lowerStart, b.ordinal_table]
  rw [← b.value_lowerParams] at hopened
  rw [← b.value_lowerStart] at hdeclared
  refine List.forall_mem_append.2 ⟨?_, List.forall_mem_append.2 ⟨?_, ?_⟩⟩
  · rw [← hparams]
    exact Decl.localLookups_match hopened
  · intro l hl
    rw [← htable]
    rw [Block.lookups] at hl
    exact (Stmt.lookups_under.2 b.block.nodes hdeclared l hl).matches (.inl rfl)
  · intro l hl
    obtain ⟨e, -, hl⟩ := List.mem_flatMap.1 hl
    rw [← htable]
    rw [Block.check] at hl
    exact (e.lookups_under ((Stmt.check_keepsLocals.2 b.block.nodes _).trans hdeclared) l hl).matches (.inl rfl)

/-! ### Programs -/

/-- A body leaves no scope behind. -/
theorem inScope_localNames {body : Check Unit} {s : SymbolTable} {names : List String}
    (hbody : (body.run s.push).state.localNames = [names]) : ((inScope body).run s).state.localNames = [] := by
  obtain ⟨scope, hscope, -⟩ := List.map_eq_singleton_iff.1 hbody
  have hpop : (body.run s.push).state.pop? = some (scope, { (body.run s.push).state with inner := [] }) := by
    rw [SymbolTable.pop?, hscope]
  have hrun : ((inScope body).run s).state = { (body.run s.push).state with inner := [] } := by
    simp only [inScope, Pass.run_bind, Pass.run_modify, Pass.run_get, hpop]
    rfl
  rw [hrun]
  rfl

namespace Func

theorem checkReturn_keepsLocals (f : Func) : KeepsLocals f.checkReturn := by
  unfold checkReturn
  split
  · rename_i value hvalue
    exact value.check_keepsLocals.bind fun _ => .looks (.require _ _ _ _)
  · exact .looks (.require _ _ _ _)

theorem register_keepsLocals (f : Func) : KeepsLocals f.register := by
  refine (checkReserved_keepsLocals f.name f.span).bind fun _ => ?_
  intro s
  cases hd : s.globals.define (.function f.name f.returnType (f.params.map (·.type)) f.span) with
  | error existing | ok globals =>
    simp only [bindEntity, Pass.run_bind, Pass.run_get, SymbolTable.defineGlobal, hd, Except.map]
    rfl

theorem check_localNames (f : Func) {s : SymbolTable} (hs : s.localNames = []) :
    (f.check.run s).state.localNames = [] := by
  have hregistered := (f.register_keepsLocals s).trans hs
  obtain ⟨-, hdeclared⟩ := f.asBody.checked_localNames f.name 1 hregistered
  have hbody : KeepsLocals (do Block.check f.body; f.checkReturn) := by
    rw [Block.check]
    exact (Stmt.check_keepsLocals.2 f.body.nodes).bind fun _ => f.checkReturn_keepsLocals
  let within : Check Unit := do
    f.params.forM (Param.check f.name)
    f.decls.forM Decl.check
    Block.check f.body
    f.checkReturn
  have hinside : (within.run (f.register.run s).state.push).state.localNames = [(f.asBody.table 1).names] :=
    (hbody _).trans hdeclared
  show ((inScope within).run (f.register.run s).state).state.localNames = []
  exact inScope_localNames hinside

theorem checkAll_localNames {fs : List Func} {s : SymbolTable} (hs : s.localNames = []) :
    ((fs.mapM Func.check).run s).state.localNames = [] := by
  induction fs generalizing s with
  | nil => exact hs
  | cons f more ih =>
    rw [List.mapM_cons]
    exact ih (f.check_localNames hs)

theorem lookupsOf_match {fs : List Func} {s : SymbolTable} {g : Generator} (hs : s.localNames = []) {i : Nat}
    {ls : List Lookup} (hls : (Func.lookupsOf fs s g)[i]? = some ls) :
    ∀ l ∈ ls, l.Matches (g.names.ordinal + i) := by
  induction fs generalizing s g i with
  | nil => cases hls
  | cons f more ih =>
    cases i with
    | zero =>
      cases hls
      exact f.asBody.lookups_match f.name g ((f.register_keepsLocals s).trans hs)
    | succ i =>
      have hmore := ih (f.check_localNames hs) hls
      rw [f.ordinal_lower] at hmore
      rwa [Nat.add_comm i 1, ← Nat.add_assoc]

theorem length_lookupsOf (fs : List Func) (s : SymbolTable) (g : Generator) :
    (Func.lookupsOf fs s g).length = fs.length := by
  induction fs generalizing s g with
  | nil => rfl
  | cons f more ih => exact congrArg Nat.succ (ih _ _)

end Func

/-- **Programs.**  Where both passes start afresh, they have the same local names at each leaf. -/
theorem Program.lookups_match (p : Program) {i : Nat} {ls : List Lookup} (hls : p.lookups[i]? = some ls) :
    ∀ l ∈ ls, l.Matches (i + 1) := by
  have hdeclared : ((p.decls.forM Decl.check).run .empty).state.localNames = [] := Decl.checkAll_global rfl
  have hordinal : (Generator.first.behind p.funcs).names.ordinal = 1 + p.funcs.length :=
    Generator.ordinal_behind _ _
  rw [Nat.add_comm i 1]
  rw [lookups, List.getElem?_append, Func.length_lookupsOf] at hls
  split at hls
  · exact Func.lookupsOf_match hdeclared hls
  · rename_i hi
    rw [List.getElem?_singleton] at hls
    split at hls
    · rename_i hlast
      cases hls
      rw [show 1 + i = 1 + p.funcs.length by omega, ← hordinal]
      refine List.forall_mem_append.2 ⟨Decl.globalLookups_match rfl rfl, ?_⟩
      exact p.mainBody.lookups_match "main" _ (Func.checkAll_localNames hdeclared)
    · cases hls

end ThreeAddress
