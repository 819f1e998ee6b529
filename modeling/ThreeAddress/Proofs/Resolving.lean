import ThreeAddress.Proofs.Analysis
import ThreeAddress.Proofs.StatementRuns

/-!
# Names of well-formed programs

Every name that a well-formed program uses is bound where it is used, and no bound name is reserved.

* `View.Binds` — all names among some leaves are bound in a view;
* `View.Reads` — all names among some leaves may be read in a view;
* `Expr.Yields.reads`, `Cond.InOrder.reads`, `Stmt.AllInOrder.binds` — the leaves of what is in order;
* `View.Unreserved` — no name bound in a view is reserved;
* `Program.viewAt`, `Program.WellFormed.func` — the view in which each function is in order.
-/

namespace ThreeAddress

/-! ### Leaves are bound -/

/-- All names among some leaves are bound. -/
def View.Binds (v : View) (leaves : List Atom) : Prop :=
  ∀ x, Atom.name x ∈ leaves → ∃ place b, v.find? x = some (place, b)

namespace View.Binds

variable {v w : View} {as bs : List Atom}

theorem nil : v.Binds [] := fun _ h => absurd h List.not_mem_nil

theorem append (ha : v.Binds as) (hb : v.Binds bs) : v.Binds (as ++ bs) := by
  intro x hx
  rcases List.mem_append.1 hx with hx | hx
  · exact ha x hx
  · exact hb x hx

theorem congr (h : v.Binds as) (hvw : ∀ x, w.find? x = v.find? x) : w.Binds as := by
  intro x hx
  rw [hvw x]
  exact h x hx

end View.Binds

section Binds

variable {v : View}

theorem View.Readable.bound {x : String} {type : Ty} (h : v.Readable x type) :
    ∃ place b, v.find? x = some (place, b) := by
  cases h with
  | const hf | param hf | var hf => exact ⟨_, _, hf⟩

theorem View.Writable.bound {x : String} {type : Ty} (h : v.Writable x type) :
    ∃ place b, v.find? x = some (place, b) := by
  cases h with
  | param hf | var hf => exact ⟨_, _, hf⟩

/-- All names among some leaves may be read. -/
def View.Reads (v : View) (leaves : List Atom) : Prop := ∀ x, Atom.name x ∈ leaves → ∃ type, v.Readable x type

namespace View.Reads

variable {as bs : List Atom}

theorem nil : v.Reads [] := fun _ h => absurd h List.not_mem_nil

theorem append (ha : v.Reads as) (hb : v.Reads bs) : v.Reads (as ++ bs) := by
  intro x hx
  rcases List.mem_append.1 hx with hx | hx
  · exact ha x hx
  · exact hb x hx

theorem binds (h : v.Reads as) : v.Binds as := by
  intro x hx
  obtain ⟨type, hr⟩ := h x hx
  exact hr.bound

end View.Reads

theorem Atom.HasType.reads {a : Atom} {type : Ty} (h : a.HasType v type) : v.Reads [a] := by
  intro x hx
  cases List.mem_singleton.1 hx
  cases h with
  | name hr => exact ⟨type, hr⟩

theorem Fragment.HasType.reads {f : Fragment} {type : Ty} (h : f.HasType v type) : v.Reads f.leaves := by
  cases h with
  | atom ha | negated ha => exact ha.reads
  | not hr => exact Atom.HasType.reads (.name hr)
  | zero | bool => exact .nil

theorem Call.Fits.reads {c : Call} {result : Ty} (h : c.Fits v result) : v.Reads c.leaves := by
  obtain ⟨params, -, hargs⟩ := h
  intro x hx
  obtain ⟨a, ha, hax⟩ := List.mem_map.1 hx
  obtain ⟨type, htype⟩ : ∃ type, a.atom.HasType v type := by
    clear hx
    generalize c.args = args at hargs ha
    induction hargs with
    | nil => cases ha
    | cons hfirst _ ih =>
      rcases List.mem_cons.1 ha with rfl | ha
      · exact ⟨_, hfirst⟩
      · exact ih ha
  exact htype.reads x (by rw [hax]; exact List.mem_cons_self)

theorem Expr.Yields.reads {e : Expr} {y : Yield} (h : e.Yields v y) : v.Reads e.leaves := by
  induction h with
  | arith _ _ _ _ ihl ihr | logic _ _ _ _ ihl ihr => exact ihl.append ihr
  | paren _ ih => exact ih
  | call hc => exact hc.reads
  | fragment hf => exact hf.reads

theorem Expr.HasType.reads {e : Expr} {type : Ty} (h : e.HasType v type) : v.Reads e.leaves := by
  obtain ⟨y, hy, -⟩ := h
  exact hy.reads

theorem Cond.InOrder.reads {c : Cond} (h : c.InOrder v) : v.Reads c.leaves := by
  induction h with
  | comparison hl hr => exact hl.reads.append hr.reads
  | equality hl hr => exact hl.reads.append hr.reads
  | neg _ ih | paren _ ih => exact ih
  | binary _ _ ihl ihr => exact ihl.append ihr
  | bool => exact .nil

theorem View.find?_assign (v : View) (x y : String) : (v.assign x).find? y = v.find? y := by
  unfold View.assign
  split <;> rfl

theorem View.find?_after (v : View) (ss : List Stmt) (y : String) : (v.after ss).find? y = v.find? y := by
  unfold View.after
  induction Stmt.targetsOfList ss generalizing v with
  | nil => rfl
  | cons x more ih => exact (ih (v.assign x)).trans (v.find?_assign x y)

theorem Stmt.AllInOrder.binds {ss : List Stmt} (h : Stmt.AllInOrder v ss) :
    v.Binds (Stmt.leavesOfList ss) := by
  induction h with
  | nil => exact .nil
  | @assign v x e _ _ _ _ he hx _ ih =>
    have htarget : v.Binds [.name x] := by
      intro y hy
      cases List.mem_singleton.1 hy
      exact hx.bound
    exact (htarget.append he.reads.binds).append (ih.congr fun y => (v.find?_assign x y).symm)
  | @ite v _ t e _ _ hc _ _ _ iht ihe ih =>
    rw [Stmt.leavesOfList, Stmt.leaves, Block.leaves, Block.leaves]
    have hfirst (y : String) : v.find? y = (v.after t.nodes).find? y := (v.find?_after _ y).symm
    have hsecond (y : String) : v.find? y = ((v.after t.nodes).after e.nodes).find? y :=
      (hfirst y).trans (View.find?_after _ _ y).symm
    exact (hc.reads.binds.append (iht.append (ihe.congr hfirst))).append (ih.congr hsecond)
  | @loop v _ b _ _ hc _ _ ihb ih =>
    rw [Stmt.leavesOfList, Stmt.leaves, Block.leaves]
    exact (hc.reads.binds.append ihb).append (ih.congr fun y => (v.find?_after b.nodes y).symm)
  | call hc _ ih => exact hc.reads.binds.append ih
  | @block v b _ _ _ _ ihb ih =>
    rw [Stmt.leavesOfList, Stmt.leaves, Block.leaves]
    exact ihb.append (ih.congr fun y => (v.find?_after b.nodes y).symm)
  | skip _ ih => exact View.Binds.nil.append ih

end Binds

/-! ### Bound names are not reserved -/

/-- No name bound in a view is reserved. -/
def View.Unreserved (v : View) : Prop :=
  ∀ place x, (v.scope place).lookup x ≠ none → isReservedName x = false

namespace View.Unreserved

variable {v : View}

theorem of_find (h : v.Unreserved) {x : String} {place : Place} {b : Binding}
    (hx : v.find? x = some (place, b)) : isReservedName x = false :=
  h place x (by rw [View.lookup_of_find? hx]; simp)

theorem empty : View.empty.Unreserved := by
  rintro (_ | _) x hx <;> exact absurd rfl hx

theorem declare (h : v.Unreserved) {x : String} (hx : isReservedName x = false) (b : Binding) :
    (v.declare x b).Unreserved := by
  have hcons {bs : List (String × Binding)} {y : String} (hbs : bs.lookup y ≠ none → isReservedName y = false)
      (hy : ((x, b) :: bs).lookup y ≠ none) : isReservedName y = false := by
    rw [List.lookup_cons] at hy
    split at hy
    · rename_i heq
      rw [beq_iff_eq.1 heq]
      exact hx
    · exact hbs hy
  unfold View.declare
  cases hl : v.locals with
  | none =>
    rintro (_ | _) y hy
    · exact hcons (h .outer y) hy
    · exact h .inner y (by rw [View.scope, hl]; exact hy)
  | some bs =>
    rintro (_ | _) y hy
    · exact h .outer y hy
    · exact hcons (fun hbs => h .inner y (by rw [View.scope, hl]; exact hbs)) hy

theorem declareNames (h : v.Unreserved) {new : List (String × Binding)}
    (hnew : ∀ x ∈ new.map Prod.fst, isReservedName x = false) : (v.declareNames new).Unreserved := by
  induction new generalizing v with
  | nil => exact h
  | cons xb new ih =>
    obtain ⟨hx, hnew⟩ := List.forall_mem_cons.1 hnew
    exact ih (h.declare hx xb.2) hnew

theorem after (h : v.Unreserved) (ss : List Stmt) : (v.after ss).Unreserved := by
  intro place x hx
  obtain ⟨hl, hg⟩ := v.after_scopes ss
  refine h place x ?_
  cases place with
  | outer => rwa [View.scope, hg] at hx
  | inner => rwa [View.scope, hl] at hx

theorem enter (h : v.Unreserved) : v.enter.Unreserved := by
  rintro (_ | _) x hx
  · exact h .outer x hx
  · exact absurd rfl hx

theorem leave (h : v.Unreserved) : v.leave.Unreserved := by
  rintro (_ | _) x hx
  · exact h .outer x hx
  · exact absurd rfl hx

/-- Leaves that are spelled and bound are plain. -/
theorem allPlain (h : v.Unreserved) {leaves : List Atom} (hb : v.Binds leaves) (hs : AllSpelled leaves) :
    AllPlain leaves := by
  intro a ha
  cases a with
  | name x =>
    obtain ⟨place, b, hx⟩ := hb x ha
    exact ⟨hs _ ha, h.of_find hx⟩
  | number d => exact hs _ ha

/-- Declarations in order have plain names. -/
theorem plainDecls (h : v.Unreserved) {ds : List Decl} (hds : Decl.AllInOrder v ds)
    (hnames : ∀ x ∈ ds.map (·.name), isReservedName x = false) (hs : ∀ d ∈ ds, d.Spelled) :
    ∀ d ∈ ds, isIdentifier d.name = true ∧ AllPlain d.leaves := by
  induction hds with
  | nil => exact fun d hd => absurd hd List.not_mem_nil
  | @var v x type sp more _ ih =>
    obtain ⟨hx, hnames⟩ := List.forall_mem_cons.1 hnames
    obtain ⟨hd, hs⟩ := List.forall_mem_cons.1 hs
    have hfirst : isIdentifier x = true ∧ AllPlain [] := ⟨hd.name, fun a ha => absurd ha List.not_mem_nil⟩
    exact List.forall_mem_cons.2 ⟨hfirst, ih (h.declare hx _) hnames hs⟩
  | @const v x type e sp more he _ ih =>
    obtain ⟨hx, hnames⟩ := List.forall_mem_cons.1 hnames
    obtain ⟨hd, hs⟩ := List.forall_mem_cons.1 hs
    have hfirst : isIdentifier x = true ∧ AllPlain e.leaves := ⟨hd.name, h.allPlain he.reads.binds hd.leaves⟩
    exact List.forall_mem_cons.2 ⟨hfirst, ih (h.declare hx _) hnames hs⟩

end View.Unreserved

/-! ### Functions and the main part -/

/-- The view before a function. -/
def Program.viewAt (p : Program) (i : Nat) : View :=
  (p.funcs.take i).foldl (fun v f => f.viewAfter v) p.globalView

theorem Func.AllInOrder.at {v : View} {fs : List Func} (h : Func.AllInOrder v fs) {i : Nat} {f : Func}
    (hf : fs[i]? = some f) : f.InOrder (f.ownView ((fs.take i).foldl (fun v f => f.viewAfter v) v)) := by
  induction h generalizing i with
  | nil => cases hf
  | cons hfirst _ ih =>
    cases i with
    | zero =>
      cases hf
      exact hfirst
    | succ i => exact ih hf

namespace Program

variable {p : Program}

theorem WellFormed.func (h : p.WellFormed) {i : Nat} {f : Func} (hf : p.funcs[i]? = some f) :
    f.InOrder (f.ownView (p.viewAt i)) := h.funcs.at hf

theorem viewAt_length (p : Program) : p.viewAt p.funcs.length = p.mainView := by
  rw [viewAt, List.take_length, mainView]

/-- Before every function, no local name is in view, and no name in view is reserved. -/
theorem WellFormed.viewAt (h : p.WellFormed) (i : Nat) :
    (p.viewAt i).locals = none ∧ (p.viewAt i).Unreserved := by
  have hnames := h.names.unreserved
  rw [scopeNames] at hnames
  have hglobal : p.globalView.Unreserved := by
    rw [globalView, View.declareAll_eq]
    refine View.Unreserved.empty.declareNames fun x hx => hnames x (List.mem_append_left _ ?_)
    rwa [List.map_map] at hx
  have hfuncs : ∀ f ∈ p.funcs.take i, isReservedName f.name = false ∧ ProperNames f.scopeNames := by
    intro f hf
    have hmem := List.mem_of_mem_take hf
    obtain ⟨j, hj⟩ := List.getElem?_of_mem hmem
    exact ⟨hnames _ (List.mem_append_right _ (List.mem_map_of_mem hmem)), (h.func hj).names⟩
  have hlocals := p.globalView_locals.1
  unfold Program.viewAt
  generalize p.globalView = v at hglobal hlocals ⊢
  generalize p.funcs.take i = fs at hfuncs ⊢
  induction fs generalizing v with
  | nil => exact ⟨hlocals, hglobal⟩
  | cons f more ih =>
    obtain ⟨⟨hname, hproper⟩, hmore⟩ := List.forall_mem_cons.1 hfuncs
    refine ih (f.viewAfter v) ?_ (f.here_viewAfter hlocals).1 hmore
    refine View.Unreserved.leave (View.Unreserved.after ?_ _)
    rw [f.bodyView_eq]
    refine (View.Unreserved.enter (hglobal.declare hname _)).declareNames fun x hx => hproper.unreserved x ?_
    rw [List.map_append, List.map_map, List.map_map] at hx
    exact hx

end Program

end ThreeAddress
