import ThreeAddress.Lowering.Workspace
import ThreeAddress.Proofs.LocalNames

/-!
# A workspace lowers as the passes do

The passes that lower a program hand on a rename table; a workspace finds names through the innermost of its tables
of places.  As long as the one shows what the other holds, both write every name alike, so they emit the same code,
take the same names and make the same locals.  A body is closed as often as it is opened, and a program leaves the
buffer empty.

* `PlaceTable.Shows` — a table of places for the names of a rename table;
* `Work.Follows` — a step in a workspace does what a pass does, and its laws;
* `Expr.generate_follows`, `Cond.generate_follows`, `Stmt.generate_follows` — the parts of a body;
* `Func.run_generate`, `Program.run_generate` — functions and programs.
-/

namespace ThreeAddress

/-! ### Tables of places -/

/-- The places in a table are those of the names in a rename table, and the locals there are written as the rename
table says. -/
structure PlaceTable.Shows (pt : PlaceTable) (locals : List LocalName) (t : RenameTable) : Prop where
  ordinal : pt.ordinal = t.ordinal
  names : (pt.places.map Prod.fst).Perm t.names
  distinct : t.names.Nodup
  found : ∀ (x : String) (i : Nat), pt.find? x = some i → ∃ l, locals[i]? = some l ∧ l.text = localText x t.ordinal

theorem PlaceTable.find?_insert (pt : PlaceTable) (x y : String) (i : Nat) :
    (pt.insert x i).find? y = if y = x then some i else pt.find? y := by
  have hothers : y ≠ x → (pt.places.filter (·.1 != x)).lookup y = pt.places.lookup y := by
    intro hne
    induction pt.places with
    | nil => rfl
    | cons p more ih =>
      rw [List.filter_cons, List.lookup_cons, ← ih]
      split
      · rw [List.lookup_cons]
      · rename_i hp
        have hx : (y == p.1) = false := by simpa [show p.1 = x by simpa using hp] using hne
        rw [hx]
  rw [find?, insert, List.lookup_cons]
  by_cases h : y = x
  · rw [if_pos h, h, BEq.rfl]
  · rw [if_neg h, beq_eq_false_iff_ne.2 h]
    exact hothers h

/-- The names of a rename table that has got one more: that name, and the others. -/
theorem RenameTable.names_insert (t : RenameTable) (h : t.names.Nodup) (x : String) :
    (t.insert x).names.Perm (x :: t.names.filter (· != x)) := by
  rw [← h.erase_eq_filter]
  unfold RenameTable.insert
  by_cases hx : t.contains x = true
  · rw [if_pos hx]
    exact List.perm_cons_erase (List.contains_iff_mem.1 hx)
  · have hnew : x ∉ t.names := fun hmem => hx (List.contains_iff_mem.2 hmem)
    rw [if_neg hx, List.erase_of_not_mem hnew]
    exact List.perm_append_singleton x t.names

namespace PlaceTable.Shows

variable {pt : PlaceTable} {locals : List LocalName} {t : RenameTable}

theorem empty (k : Nat) : (PlaceTable.empty k).Shows locals (.empty k) :=
  ⟨rfl, .nil, .nil, fun _ _ h => by cases h⟩

theorem size (h : pt.Shows locals t) : pt.size = t.size := by
  rw [PlaceTable.size, RenameTable.size, ← h.names.length_eq, List.length_map]

theorem mem_names (h : pt.Shows locals t) {x : String} : x ∈ pt.places.map Prod.fst ↔ t.contains x = true := by
  rw [h.names.mem_iff, RenameTable.contains, List.contains_iff_mem]

/-- Exactly the names of the rename table have places. -/
theorem find?_eq_none (h : pt.Shows locals t) {x : String} : pt.find? x = none ↔ t.contains x = false := by
  rw [← Bool.not_eq_true, ← h.mem_names, PlaceTable.find?, List.lookup_eq_none_iff, List.mem_map]
  simp only [bne_iff_ne]
  constructor
  · rintro hnone ⟨p, hp, rfl⟩
    exact hnone p hp rfl
  · rintro hnone p hp rfl
    exact hnone ⟨p, hp, rfl⟩

theorem localName (h : pt.Shows locals t) (x : String) : (⟨x, pt.ordinal, pt.size⟩ : LocalName) = t.localName x := by
  rw [RenameTable.localName, h.ordinal, h.size]

/-- A name gets the place of the local that is made last. -/
theorem insert (h : pt.Shows locals t) (x : String) :
    (pt.insert x locals.length).Shows (locals ++ [t.localName x]) (t.insert x) where
  ordinal := h.ordinal.trans (t.ordinal_insert x).symm
  names := by
    have hkeys : (pt.insert x locals.length).places.map Prod.fst =
        x :: (pt.places.map Prod.fst).filter (· != x) := by
      rw [PlaceTable.insert, List.map_cons, List.filter_map]
      rfl
    rw [hkeys]
    exact ((h.names.filter _).cons x).trans (t.names_insert h.distinct x).symm
  distinct := by
    have hnot : x ∉ t.names.filter (· != x) := fun hmem => by simpa using (List.mem_filter.1 hmem).2
    rw [(t.names_insert h.distinct x).nodup_iff]
    exact List.nodup_cons.2 ⟨hnot, h.distinct.filter _⟩
  found := by
    intro y i hy
    rw [PlaceTable.find?_insert] at hy
    rw [t.ordinal_insert]
    by_cases hyx : y = x
    · rw [if_pos hyx] at hy
      cases hy
      exact ⟨t.localName x, by simp, by rw [hyx]; rfl⟩
    · rw [if_neg hyx] at hy
      obtain ⟨l, hl, htext⟩ := h.found y i hy
      have hlt := (List.getElem?_eq_some_iff.1 hl).1
      exact ⟨l, by rw [List.getElem?_append_left hlt, hl], htext⟩

/-- The innermost table writes names as the rename table does. -/
theorem resolve (h : pt.Shows locals t) (x : String) (buffer : List Instruction) (names : NameSupply)
    (outer : List PlaceTable) : Workspace.resolve ⟨buffer, ⟨names, locals⟩, pt :: outer⟩ x = t.resolve x := by
  have hfind : Workspace.find? ⟨buffer, ⟨names, locals⟩, pt :: outer⟩ x = (pt.find? x).bind (locals[·]?) := rfl
  rw [Workspace.resolve, hfind]
  cases hx : pt.find? x with
  | none =>
    rw [RenameTable.resolve, h.find?_eq_none.1 hx]
    rfl
  | some i =>
    obtain ⟨l, hl, htext⟩ := h.found x i hx
    have hin : t.contains x = true := by
      rw [← Bool.not_eq_false, ← h.find?_eq_none, hx]
      exact Option.some_ne_none i
    rw [Option.bind_some, hl, t.resolve_of_contains hin]
    exact htext

end PlaceTable.Shows

/-! ### Steps that follow passes -/

variable {α β γ δ : Type}

/-- From a table that shows the names of `t`, a step does what a pass does: it adds the same code to the buffer and
comes to the same state.  What it yields, and the names that its table shows then, are told by what the pass
yields. -/
def Work.Follows (t : RenameTable) (yields : α → β) (shown : α → RenameTable) (m : Work β) (p : Emit α) : Prop :=
  ∀ buffer g pt outer, PlaceTable.Shows pt g.locals t →
    ∃ pt', m ⟨buffer, g, pt :: outer⟩ =
        (yields (p.run g).value, ⟨buffer ++ (p.run g).record, (p.run g).state, pt' :: outer⟩) ∧
      PlaceTable.Shows pt' (p.run g).state.locals (shown (p.run g).value)

/-- A step that yields the same, and makes no local. -/
abbrev Work.Same (t : RenameTable) (m : Work α) (p : Emit α) : Prop := Work.Follows t id (fun _ => t) m p

namespace Work.Follows

variable {t : RenameTable} {yields : α → β} {shown : α → RenameTable} {yields' : γ → δ} {shown' : γ → RenameTable}

/-- A table that has been extended is told along with what is yielded. -/
theorem told (a : α) (ha : shown a = t) : Work.Follows t yields shown (Pure.pure (yields a)) (Pure.pure a) := by
  intro buffer g pt outer h
  refine ⟨pt, ?_, ?_⟩
  · rw [Pass.run_pure, List.append_nil]
    rfl
  · rw [Pass.run_pure, ha]
    exact h

theorem pure (a : α) : Work.Follows t yields (fun _ => t) (Pure.pure (yields a)) (Pure.pure a) :=
  told a rfl

theorem bind {m : Work β} {p : Emit α} {m' : β → Work δ} {p' : α → Emit γ} (h : Work.Follows t yields shown m p)
    (h' : ∀ a, Work.Follows (shown a) yields' shown' (m' (yields a)) (p' a)) :
    Work.Follows t yields' shown' (m >>= m') (p >>= p') := by
  intro buffer g pt outer hshows
  obtain ⟨pt₁, hrun, hshows₁⟩ := h buffer g pt outer hshows
  obtain ⟨pt₂, hrun', hshows₂⟩ := h' (p.run g).value (buffer ++ (p.run g).record) _ pt₁ outer hshows₁
  refine ⟨pt₂, ?_, hshows₂⟩
  rw [Pass.run_bind, ← List.append_assoc, ← hrun']
  show (m _ >>= fun r => m' r.1 r.2) = _
  rw [hrun]
  rfl

theorem map {m : Work β} {p : Emit α} (h : Work.Follows t yields shown m p) (f : β → δ) :
    Work.Follows t (fun a => f (yields a)) shown (m >>= fun b => Pure.pure (f b)) p := by
  intro buffer g pt outer hshows
  obtain ⟨pt', hrun, hshows'⟩ := h buffer g pt outer hshows
  refine ⟨pt', ?_, hshows'⟩
  show (m _ >>= fun r => (Pure.pure (f r.1) : Work δ) r.2) = _
  rw [hrun]
  rfl

/-- A name is found in the table before the rest goes on. -/
theorem resolve (x : String) {m' : String → Work β} {p : Emit α}
    (h : Work.Follows t yields shown (m' (t.resolve x)) p) :
    Work.Follows t yields shown (Work.resolve x >>= m') p := by
  intro buffer g pt outer hshows
  obtain ⟨pt', hrun, hshows'⟩ := h buffer g pt outer hshows
  refine ⟨pt', ?_, hshows'⟩
  rw [← hrun, ← hshows.resolve x buffer g.names outer]
  rfl

/-- Emitting code that makes no local. -/
theorem perform {p : Emit α} (hp : ∀ g, (p.run g).state.locals = g.locals) : Work.Same t (Work.perform p) p := by
  intro buffer g pt outer h
  refine ⟨pt, rfl, ?_⟩
  rw [hp g]
  exact h

theorem emit (i : Instruction) : Work.Same t (Work.emit i) (Pass.tell i) := perform fun _ => rfl

theorem take (from? : NameSupply → α × NameSupply) : Work.Same t (Work.perform (Emit.take from?)) (Emit.take from?) :=
  perform fun _ => rfl

/-- A name is made local before the rest goes on. -/
theorem register (x : String) {m' : String → Work δ} {p' : RenameTable → Emit γ}
    (h : Work.Follows (t.insert x) yields' shown' (m' ((t.insert x).resolve x)) (p' (t.insert x))) :
    Work.Follows t yields' shown' (Work.register x >>= m') (t.register x >>= p') := by
  intro buffer g pt outer hshows
  obtain ⟨pt', hrun, hshows'⟩ := h buffer { g with locals := g.locals ++ [t.localName x] } _ outer (hshows.insert x)
  refine ⟨pt', ?_, hshows'⟩
  rw [t.resolve_insert] at hrun
  have hmade := hshows.localName x
  rw [Pass.run_bind, t.run_register, List.nil_append, ← hrun, ← hmade, ← hshows.ordinal]
  rfl

/-- The table is told behind the last step. -/
theorem close {m : Work Unit} {p : Emit Unit} (h : Work.Same t m p) (a : α) (ha : shown a = t) :
    Work.Follows t (fun _ => ()) shown m (p >>= fun _ => Pure.pure a) := by
  intro buffer g pt outer hshows
  obtain ⟨pt', hrun, hshows'⟩ := h buffer g pt outer hshows
  refine ⟨pt', ?_, ?_⟩
  · rw [Pass.run_bind, Pass.run_pure, List.append_nil]
    exact hrun
  · rw [Pass.run_bind, Pass.run_pure, ha]
    exact hshows'

theorem forM {as : List γ} {m : γ → Work Unit} {p : γ → Emit Unit} (h : ∀ a, Work.Same t (m a) (p a)) :
    Work.Same t (as.forM m) (as.forM p) := by
  induction as with
  | nil => exact pure ()
  | cons a more ih => exact (h a).bind fun _ => ih

theorem mapM {as : List γ} {m : γ → Work α} {p : γ → Emit α} (h : ∀ a, Work.Same t (m a) (p a)) :
    Work.Same t (as.mapM m) (as.mapM p) := by
  induction as with
  | nil =>
    rw [List.mapM_nil, List.mapM_nil]
    exact pure []
  | cons a more ih =>
    rw [List.mapM_cons, List.mapM_cons]
    exact (h a).bind fun b => ih.bind fun bs => pure (b :: bs)

end Work.Follows

/-- A step that does what a pass does, whatever its table shows in the end. -/
def Work.Ends (t : RenameTable) (m : Work Unit) (p : Emit Unit) : Prop :=
  ∀ buffer g pt outer, PlaceTable.Shows pt g.locals t →
    ∃ pt', m ⟨buffer, g, pt :: outer⟩ = ((), ⟨buffer ++ (p.run g).record, (p.run g).state, pt' :: outer⟩)

theorem Work.Follows.ends {t : RenameTable} {m : Work Unit} {p : Emit Unit} (h : Work.Same t m p) :
    Work.Ends t m p := by
  intro buffer g pt outer hshows
  obtain ⟨pt', hrun, -⟩ := h buffer g pt outer hshows
  exact ⟨pt', hrun⟩

theorem Work.Follows.thenEnds {t : RenameTable} {yields : α → β} {shown : α → RenameTable} {m : Work β} {p : Emit α}
    {m' : β → Work Unit} {p' : α → Emit Unit} (h : Work.Follows t yields shown m p)
    (h' : ∀ g, Work.Ends (shown (p.run g).value) (m' (yields (p.run g).value)) (p' (p.run g).value)) :
    Work.Ends t (m >>= m') (p >>= p') := by
  intro buffer g pt outer hshows
  obtain ⟨pt₁, hrun, hshows₁⟩ := h buffer g pt outer hshows
  obtain ⟨pt₂, hrun'⟩ := h' g (buffer ++ (p.run g).record) _ pt₁ outer hshows₁
  refine ⟨pt₂, ?_⟩
  rw [Pass.run_bind, ← List.append_assoc, ← hrun']
  show (m _ >>= fun r => m' r.1 r.2) = _
  rw [hrun]
  rfl

open Work (Follows Same)

/-! ### Expressions and conditions -/

section Parts

variable (t : RenameTable)

theorem Atom.generate_follows (a : Atom) {m' : String → Work β} {p : Emit α} {yields : α → β}
    {shown : α → RenameTable} (h : Follows t yields shown (m' (a.lower t)) p) :
    Follows t yields shown (a.generate >>= m') p := by
  cases a with
  | name x => exact .resolve x h
  | number digits => exact h

theorem Call.generate_follows (c : Call) : Same t c.generate (c.lower t) :=
  (Follows.forM fun a => a.atom.generate_follows t (.emit _)).bind fun _ => .pure _

theorem Fragment.generate_follows (f : Fragment) : Same t f.generate (pure (f.lower t)) := by
  cases f with
  | atom negated operand =>
    cases negated with
    | false => exact operand.generate_follows t (.pure _)
    | true => exact operand.generate_follows t (.pure _)
  | not x => exact .resolve x (.pure _)
  | zero => exact .pure _
  | bool b => exact .pure _

theorem Operand.generate_follows (o : Operand) : Same t o.generate (o.lower t) := by
  cases o with
  | call c => exact c.generate_follows t
  | fragment f => exact f.generate_follows t

theorem atomOf_follows (r : Rvalue) : Same t (Work.perform (Emit.atomOf r)) (Emit.atomOf r) :=
  .perform fun g => (Emit.atomOf_registers r g).locals.trans (List.append_nil _)

theorem Operand.generateAtom_follows (o : Operand) : Same t o.generateAtom (o.lowerAtom t) :=
  (o.generate_follows t).bind fun r => atomOf_follows t r

theorem Expr.generate_follows (e : Expr) : Same t e.generate (e.lower t) := by
  unfold Expr.generate Expr.lower
  generalize e.chain = c
  obtain ⟨first, more⟩ := c
  cases more with
  | nil => exact first.generate_follows t
  | cons x more =>
    have hmember (y : Operator × Operand) : Same t (do return (y.1, ← y.2.generateAtom))
        (do return (y.1, ← y.2.lowerAtom t)) := (y.2.generateAtom_follows t).bind fun _ => .pure _
    refine (first.generateAtom_follows t).bind fun head => (Follows.mapM hmember).bind fun tail => ?_
    have hfold (links : List (Operator × String)) : Same t
        (do return Rvalue.atom (← Work.perform (foldAtoms head links)))
        (do return Rvalue.atom (← foldAtoms head links)) := by
      refine (Follows.perform fun g => ?_).bind fun _ => .pure _
      exact (foldAtoms_registers head links g).locals.trans (List.append_nil _)
    cases tail with
    | nil => exact hfold []
    | cons link links =>
      cases links with
      | nil => exact .pure _
      | cons next links => exact hfold (link :: next :: links)

theorem Expr.generateAtom_follows (e : Expr) : Same t e.generateAtom (e.lowerAtom t) :=
  (e.generate_follows t).bind fun r => atomOf_follows t r

theorem flagOf_follows (predicate : Rvalue) : Same t (Work.perform (flagOf predicate)) (flagOf predicate) :=
  .perform fun _ => rfl

theorem combine_follows (c : Chain Connective String) : Same t (Work.perform c.combine) c.combine :=
  .perform fun g => (combineFlags_registers c.head c.tail g).locals.trans (List.append_nil _)

theorem Cond.generateFlags_follows (c : Cond) : Same t c.generateFlags (c.lowerFlags t) := by
  induction c with
  | comparison op l r s =>
    exact (l.generateAtom_follows t).bind fun _ => (r.generateAtom_follows t).bind fun _ =>
      (flagOf_follows t _).bind fun _ => .pure _
  | equality op l r s =>
    exact (l.generateAtom_follows t).bind fun _ => (r.generateAtom_follows t).bind fun _ =>
      (flagOf_follows t _).bind fun _ => .pure _
  | neg c s ih =>
    exact ih.bind fun flags => (combine_follows t flags).bind fun _ => (flagOf_follows t _).bind fun _ => .pure _
  | paren c s ih => exact ih
  | binary op l r s ihl ihr => exact ihl.bind fun _ => ihr.bind fun _ => .pure _
  | bool b s => exact (flagOf_follows t _).bind fun _ => .pure _

theorem Cond.generate_follows (c : Cond) : Same t c.generate (c.lower t) :=
  (c.generateFlags_follows t).bind fun flags => (combine_follows t flags).bind fun _ => .pure _

/-! ### Statements -/

theorem Stmt.generate_follows : (∀ s : Stmt, Same t s.generate (s.lower t)) ∧
    ∀ ss, Same t (Stmt.generateAll ss) (Stmt.lowerAll t ss) := by
  refine Stmt.parts ?_ ?_ ?_ ?_ ?_ ?_ ?_ ?_
  · intro x e a s
    rw [Stmt.generate, Stmt.lower]
    exact (e.generate_follows t).bind fun v => .resolve x (.emit _)
  · intro c th el s iht ihe
    rw [Stmt.generate, Stmt.lower, Block.generate, Block.generate, Block.lower, Block.lower]
    refine (Follows.take _).bind fun labels => (c.generate_follows t).bind fun predicate => ?_
    refine (Follows.emit _).bind fun _ => iht.bind fun _ => (Follows.emit _).bind fun _ => ?_
    exact (Follows.emit _).bind fun _ => ihe.bind fun _ => .emit _
  · intro c b s ih
    rw [Stmt.generate, Stmt.lower, Block.generate, Block.lower]
    refine (Follows.take _).bind fun labels => (Follows.emit _).bind fun _ => ?_
    refine (c.generate_follows t).bind fun predicate => (Follows.emit _).bind fun _ => ?_
    exact ih.bind fun _ => (Follows.emit _).bind fun _ => .emit _
  · intro c s
    rw [Stmt.generate, Stmt.lower]
    exact (c.generate_follows t).bind fun _ => .emit _
  · intro b s ih
    rw [Stmt.generate, Stmt.lower, Block.generate, Block.lower]
    exact ih
  · intro s
    rw [Stmt.generate, Stmt.lower]
    exact .pure _
  · rw [Stmt.generateAll, Stmt.lowerAll]
    exact .pure _
  · intro s more ihs ihmore
    rw [Stmt.generateAll, Stmt.lowerAll]
    exact ihs.bind fun _ => ihmore

theorem Block.generate_follows (b : Block) : Same t (Block.generate b) (b.lower t) := by
  rw [Block.generate, Block.lower]
  exact (Stmt.generate_follows t).2 b.nodes

/-! ### Bodies -/

theorem Decl.generateGlobal_follows (d : Decl) : Same t d.generateGlobal (d.lowerGlobal t) := by
  cases d with
  | var x type s => exact .pure _
  | const x type e s => exact (e.generate_follows t).bind fun v => .emit _

theorem generateReturn_follows (result : Option Expr) : Same t (generateReturn result) (lowerReturn t result) := by
  cases result with
  | none => exact .emit _
  | some e =>
    refine Follows.bind ((e.generate_follows t).bind fun v => ?_) fun v => .emit _
    cases v with
    | call name count => exact (atomOf_follows t _).bind fun _ => .pure _
    | atom text => exact .pure _
    | binary l op r => exact .pure _
    | not x => exact .pure _

/-- A local declaration changes the table as it changes the rename table. -/
theorem Decl.generateLocal_follows (d : Decl) : Follows t (fun _ => ()) id d.generateLocal (d.lowerLocal t) := by
  cases d with
  | var x type s => exact Follows.register x (.told (t.insert x) rfl)
  | const x type e s =>
    exact (e.generate_follows t).bind fun v => .register x (.close (.emit _) (t.insert x) rfl)

end Parts

theorem Decl.generateLocals_follows (ds : List Decl) (t : RenameTable) :
    Follows t (fun _ => ()) id (ds.forM Decl.generateLocal) (ds.foldlM Decl.lowerLocal t) := by
  induction ds generalizing t with
  | nil => exact .told t rfl
  | cons d more ih => exact (d.generateLocal_follows t).bind fun t' => ih t'

/-! ### Parameters -/

/-- A parameter that has been made local is written with the ordinal of its body, whatever else is made local. -/
theorem Param.registerAll_follows (ps : List Param) (t : RenameTable) :
    Follows t (fun _ => ps.map fun p => localText p.name t.ordinal) id (ps.mapM fun p => Work.register p.name)
      (ps.foldlM (fun t p => t.register p.name) t) := by
  induction ps generalizing t with
  | nil => exact .told t rfl
  | cons p more ih =>
    rw [List.mapM_cons, List.foldlM_cons]
    refine .register p.name ?_
    have hmore := ih (t.insert p.name)
    rw [t.ordinal_insert] at hmore
    rw [t.resolve_insert]
    exact hmore.map (localText p.name t.ordinal :: ·)

theorem generateFetches_follows {t params : RenameTable} {k : Nat} (ps : List Param)
    (hp : ∀ q ∈ ps, params.resolve q.name = localText q.name k) (index : Nat) :
    Same t (generateFetches index (ps.map fun p => localText p.name k)) (fetchParams params index ps) := by
  induction ps generalizing index with
  | nil => exact .pure ()
  | cons p more ih =>
    obtain ⟨hfirst, hmore⟩ := List.forall_mem_cons.1 hp
    rw [List.map_cons, generateFetches, fetchParams, hfirst]
    exact (Follows.emit _).bind fun _ => ih hmore (index + 1)

/-! ### Bodies and programs -/

namespace Body

/-- The code of a body in a workspace where it has been opened. -/
def generate (b : Body) (finish : Work Unit) : Work Unit := do
  b.constants.forM Decl.generateGlobal
  let dests ← b.params.mapM fun p => Work.register p.name
  generateFetches 1 dests
  b.decls.forM Decl.generateLocal
  Block.generate b.block
  finish

/-- The code of a body whose table is at hand. -/
def lowerFrom (b : Body) (last : RenameTable → Emit Unit) (outer : RenameTable) : Emit Unit := do
  b.constants.forM (Decl.lowerGlobal outer)
  let params ← b.params.foldlM (fun t p => t.register p.name) outer
  fetchParams params 1 b.params
  let t ← b.decls.foldlM Decl.lowerLocal params
  Block.lower t b.block
  last t

theorem lower_eq_lowerFrom (b : Body) (last : RenameTable → Emit Unit) :
    b.lower last = openTable >>= b.lowerFrom last := by
  simp only [lower, lowerStart, bind_assoc]
  rfl

/-- A body in a workspace does what its pass does. -/
theorem generate_ends (b : Body) {finish : Work Unit} {last : RenameTable → Emit Unit}
    (hf : ∀ t, Same t finish (last t)) (k : Nat) :
    Work.Ends (.empty k) (b.generate finish) (b.lowerFrom last (.empty k)) := by
  refine (Follows.forM fun d => d.generateGlobal_follows _).thenEnds fun _ => ?_
  refine (Param.registerAll_follows b.params (.empty k)).thenEnds fun g => ?_
  have hvalue : ((b.params.foldlM (fun t p => t.register p.name) (.empty k) : Emit RenameTable).run g).value =
      b.paramTable k := (Param.run_registers b.params (.empty k) g).1
  rw [hvalue]
  refine (generateFetches_follows b.params (fun q => b.resolve_param k) 1).thenEnds fun _ => ?_
  refine (Decl.generateLocals_follows b.decls _).thenEnds fun _ => ?_
  exact (b.block.generate_follows _).thenEnds fun _ => (hf _).ends

/-- An opened body in a workspace. -/
theorem run_generate (b : Body) {finish : Work Unit} {last : RenameTable → Emit Unit}
    (hf : ∀ t, Same t finish (last t)) (buffer : List Instruction) (g : Generator) (outer : List PlaceTable) :
    ∃ pt, b.generate finish ⟨buffer, g, .empty g.names.ordinal :: outer⟩ =
      ((), ⟨buffer ++ ((b.lower last).run g).record, ((b.lower last).run g).state, pt :: outer⟩) := by
  rw [b.lower_eq_lowerFrom]
  exact b.generate_ends hf g.names.ordinal buffer g _ outer (.empty _)

end Body

/-- **Functions.**  A function in a workspace closes the body that it opens. -/
theorem Func.run_generate (f : Func) (w : Workspace) :
    f.generate w =
      ((), ⟨w.buffer ++ (f.lower.run w.generator).record, (f.lower.run w.generator).state, w.tables⟩) := by
  obtain ⟨buffer, g, tables⟩ := w
  obtain ⟨pt, hbody⟩ := f.asBody.run_generate (fun t => generateReturn_follows t f.returnValue)
    (buffer ++ [.label f.name]) g tables
  have hsteps : f.generate ⟨buffer, g, tables⟩ = (do Work.closeBody; Work.nextOrdinal : Work Unit)
      (f.asBody.generate (generateReturn f.returnValue)
        ⟨buffer ++ [.label f.name], g, .empty g.names.ordinal :: tables⟩).2 := rfl
  rw [hsteps, hbody, f.run_lower]
  show ((), Workspace.mk (buffer ++ [.label f.name] ++ (f.lowerWithin.run g).record ++ []) _ tables) = _
  rw [List.append_nil, List.append_assoc]
  rfl

namespace Program

theorem run_generateMain (p : Program) (w : Workspace) :
    p.generateMain w =
      ((), ⟨w.buffer ++ (p.lowerMain.run w.generator).record, (p.lowerMain.run w.generator).state, w.tables⟩) := by
  obtain ⟨buffer, g, tables⟩ := w
  obtain ⟨pt, hbody⟩ := p.mainBody.run_generate (fun t => .emit (.call exitRoutine 0)) (buffer ++ [.label "main"]) g
    tables
  have hsteps : p.generateMain ⟨buffer, g, tables⟩ = Work.closeBody (p.mainBody.generate
      (Work.emit (.call exitRoutine 0)) ⟨buffer ++ [.label "main"], g, .empty g.names.ordinal :: tables⟩).2 := rfl
  rw [hsteps, hbody, p.run_lowerMain]
  show ((), Workspace.mk (buffer ++ [.label "main"] ++ (p.lowerMainWithin.run g).record) _ tables) = _
  rw [List.append_assoc]
  rfl

theorem run_generateFuncs (fs : List Func) (w : Workspace) :
    (fs.forM Func.generate : Work Unit) w =
      ((), ⟨w.buffer ++ Func.codeOf fs w.generator, w.generator.behind fs, w.tables⟩) := by
  induction fs generalizing w with
  | nil =>
    show ((), w) = ((), Workspace.mk (w.buffer ++ []) w.generator w.tables)
    rw [List.append_nil]
  | cons f more ih =>
    show (f.generate w >>= fun r => (more.forM Func.generate : Work Unit) r.2) = _
    rw [f.run_generate w]
    refine (ih _).trans ?_
    rw [Func.codeOf_cons, Generator.behind_cons, List.append_assoc]

/-- **Programs.**  In a workspace a program has the code that its pass emits, behind what is left in the buffer; the
buffer is empty then, and the tables are those before. -/
theorem run_generate (p : Program) (w : Workspace) :
    p.generate.run w =
      (w.buffer ++ (p.lower.run w.generator).record, ⟨[], (p.lower.run w.generator).state, w.tables⟩) := by
  show ((p.funcs.forM Func.generate : Work Unit) w >>= fun r => p.generateMain r.2 >>= fun r => Work.takeCode r.2) = _
  rw [run_generateFuncs]
  show (p.generateMain _ >>= fun r => Work.takeCode r.2) = _
  rw [run_generateMain]
  show (_ ++ _ ++ _, _) = _
  rw [List.append_assoc]
  rfl

end Program

end ThreeAddress
