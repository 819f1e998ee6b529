import ThreeAddress.Proofs.Lookups
import ThreeAddress.Proofs.TypedPrograms

/-!
# Both passes resolve names alike

* `SymbolTable.local?` — what a name means in the scope of the body at hand;
* `Lookup.Agrees` — checking finds a name among the locals exactly if lowering does;
* `Program.places_lookups` — the leaves on both walks are those of the bodies, each under the table of its place;
* `Program.WellFormed.mem_of_mentioned` — an identifier in the code of a program in order is a global variable
  or constant;
* `lookups_agree` — both passes resolve the names of every program alike, and no name of an accepted source
  stays unresolved.
-/

namespace ThreeAddress

/-! ### Places -/

/-- The place of a leaf: the names that are local there, and the leaf itself. -/
def Lookup.place (l : Lookup) : RenameTable × Atom := (l.renames, l.leaf)

theorem Lookup.map_place {t : RenameTable} {names : List (List String)} {ls : List Lookup}
    (h : ∀ l ∈ ls, l.Under t names) : ls.map Lookup.place = (ls.map (·.leaf)).map (t, ·) := by
  rw [List.map_map]
  refine List.map_congr_left fun l hl => ?_
  rw [Lookup.place, (h l hl).renames]
  rfl

section Places

variable {t : RenameTable} {s : SymbolTable}

theorem Expr.places_lookups (e : Expr) : (e.lookups t s).map Lookup.place = e.leaves.map (t, ·) := by
  rw [Lookup.map_place (e.lookups_under rfl), e.leaves_lookups]

theorem Stmt.places_lookups (ss : List Stmt) :
    ((Stmt.lookupsOfList t ss s).map Lookup.place).Perm ((Stmt.leavesOfList ss).map (t, ·)) := by
  rw [Lookup.map_place (Stmt.lookups_under.2 ss rfl)]
  exact (Stmt.leaves_lookups.2 ss s).map _

theorem Decl.places_lookups (d : Decl) :
    (d.lookups t s).map Lookup.place = (d.collect Expr.leaves).map (t, ·) := by
  cases d with
  | var x type span => rfl
  | const x type value span => exact value.places_lookups

theorem Decl.places_globalLookups (ds : List Decl) :
    (Decl.globalLookups t ds s).map Lookup.place = (ds.flatMap (Decl.collect Expr.leaves)).map (t, ·) := by
  induction ds generalizing s with
  | nil => rfl
  | cons d more ih =>
    rw [Decl.globalLookups, List.flatMap_cons, List.map_append, List.map_append, d.places_lookups, ih]

theorem Decl.places_localLookups (ds : List Decl) (g : Generator) :
    (Decl.localLookups ds s t g).map Lookup.place = Decl.along Expr.leaves t ds := by
  induction ds generalizing s t g with
  | nil => rfl
  | cons d more ih => rw [Decl.localLookups, Decl.along, List.map_append, d.places_lookups, ih, d.value_lowerLocal]

/-- With its global constants, the leaves of a body on both walks are all that there are. -/
theorem Body.places_lookups (function : String) (b : Body) (g : Generator) :
    ((b.constants.flatMap (Decl.collect Expr.leaves)).map (RenameTable.empty g.names.ordinal, ·) ++
      (b.lookups function s g).map Lookup.place).Perm (b.leavesAlong g.names.ordinal) := by
  let k := g.names.ordinal
  have hresult (s' : SymbolTable) : (b.result.toList.flatMap fun e => e.lookups (b.table k) s').map Lookup.place =
      (b.result.toList.flatMap Expr.leaves).map (b.table k, ·) := by
    rw [List.map_flatMap, List.map_flatMap]
    exact List.flatMap_congr fun e _ => e.places_lookups
  rw [leavesAlong, along, lookups, List.map_append, List.map_append, Decl.places_localLookups, b.value_lowerParams,
    b.value_lowerStart, Block.lookups, hresult, List.map_append]
  exact ((Stmt.places_lookups b.block.nodes).append_right _).append_left _ |>.append_left _

/-- The leaves of bodies, when the first one has some ordinal. -/
def Body.leavesFrom (ordinal : Nat) (bs : List Body) : List (RenameTable × Atom) :=
  (bs.zipIdx ordinal).flatMap fun bi => bi.1.leavesAlong bi.2

theorem Func.places_lookupsOf (fs : List Func) (g : Generator) :
    ((Func.lookupsOf fs s g).flatten.map Lookup.place).Perm
      (Body.leavesFrom g.names.ordinal (fs.map Func.asBody)) := by
  induction fs generalizing s g with
  | nil => exact .nil
  | cons f more ih =>
    have hmore := ih (s := (f.check.run s).state) (f.lower.run g).state
    rw [f.ordinal_lower] at hmore
    rw [Func.lookupsOf, List.flatten_cons, List.map_append, List.map_cons, Body.leavesFrom, List.zipIdx_cons,
      List.flatMap_cons]
    exact (f.asBody.places_lookups f.name g).append hmore

end Places

theorem Program.length_lookups (p : Program) : p.lookups.length = p.bodies.length := by
  rw [lookups, bodies, List.length_append, List.length_append, Func.length_lookupsOf, List.length_map]
  rfl

/-- The leaves of a program on both walks are those of its bodies. -/
theorem Program.places_lookups (p : Program) :
    (p.lookups.flatten.map Lookup.place).Perm (Body.leavesFrom 1 p.bodies) := by
  let g := Generator.first.behind p.funcs
  have hordinal : g.names.ordinal = 1 + p.funcs.length := Generator.ordinal_behind _ _
  have hbodies : Body.leavesFrom 1 p.bodies =
      Body.leavesFrom 1 (p.funcs.map Func.asBody) ++ p.mainBody.leavesAlong (1 + p.funcs.length) := by
    rw [Body.leavesFrom, bodies, List.zipIdx_append, List.flatMap_append, List.length_map, Body.leavesFrom]
    simp
  rw [hbodies, ← hordinal, lookups, List.flatten_append, List.map_append, List.flatten_singleton, List.map_append,
    Decl.places_globalLookups]
  exact (Func.places_lookupsOf p.funcs .first).append (p.mainBody.places_lookups "main" g)

/-! ### Agreement -/

/-- What a name means in the scope of the body at hand.  Outside of all bodies there is no such scope. -/
def SymbolTable.local? (s : SymbolTable) (x : String) : Option Entity := s.inner.head?.bind (·.lookup? x)

/-- Checking finds a name among the locals of the body at hand exactly if lowering does.  Lowering then writes
it with the ordinal of the body, and otherwise as it stands. -/
structure Lookup.Agrees (ordinal : Nat) (l : Lookup) (x : String) : Prop where
  found : ∀ s ∈ l.tables, ((s.local? x).isSome = true ↔ l.renames.contains x = true)
  meaning : ∀ s ∈ l.tables, s.lookup? x = (s.local? x).or (s.lookupGlobal? x)
  resolved : l.renames.contains x = true → l.written = localText x ordinal
  verbatim : l.renames.contains x = false → l.written = x

theorem SymbolTable.HasLocals.isSome_local {s : SymbolTable} {t : RenameTable} (h : s.HasLocals t) (x : String) :
    (s.local? x).isSome = t.contains x := by
  obtain ⟨inner, globals⟩ := s
  cases h with
  | inl hbody =>
    obtain ⟨scope, hinner, hnames⟩ := List.map_eq_singleton_iff.1 hbody
    dsimp only at hinner
    rw [hinner]
    show (scope.lookup? x).isSome = t.names.contains x
    rw [← scope.contains_eq, scope.contains_iff, hnames]
  | inr hnone =>
    obtain ⟨hinner, hnames⟩ := hnone
    have hinner : inner = [] := List.map_eq_nil_iff.1 hinner
    rw [hinner, RenameTable.contains, hnames]
    rfl

theorem SymbolTable.HasLocals.lookup {s : SymbolTable} {t : RenameTable} (h : s.HasLocals t) (x : String) :
    s.lookup? x = (s.local? x).or (s.lookupGlobal? x) := by
  obtain ⟨inner, globals⟩ := s
  cases h with
  | inl hbody =>
    obtain ⟨scope, hinner, -⟩ := List.map_eq_singleton_iff.1 hbody
    dsimp only at hinner
    rw [hinner]
    unfold SymbolTable.lookup? SymbolTable.local?
    cases hscope : scope.lookup? x <;> simp [hscope, SymbolTable.lookupGlobal?]
  | inr hnone =>
    have hinner : inner = [] := List.map_eq_nil_iff.1 hnone.1
    rw [hinner]
    rfl

/-- **Agreement.**  Where the local names of both passes are the same, they resolve a name alike. -/
theorem Lookup.Matches.agrees {k : Nat} {l : Lookup} (h : l.Matches k) {x : String} (hx : l.leaf = .name x) :
    l.Agrees k x := by
  have hwritten : l.written = l.renames.resolve x := by
    rw [Lookup.written, hx]
    rfl
  refine ⟨fun s hs => ?_, fun s hs => (h.tables s hs).lookup x, fun hlocal => ?_, fun hlocal => ?_⟩
  · rw [(h.tables s hs).isSome_local x]
  · rw [hwritten, RenameTable.resolve_of_contains hlocal, h.ordinal]
  · rw [hwritten, RenameTable.resolve, hlocal]
    rfl

/-! ### Names in typed code -/

section Typed

variable {T : Typing}

theorem Typing.atom?_of_type? {x : String} {type : Ty} (h : T.type? x = some type) :
    ∃ type', T.atom? x = some type' := by
  cases hx : literal? x with
  | some v => exact ⟨v.type, T.atom?_literal hx⟩
  | none => exact ⟨type, (T.atom?_name hx).trans h⟩

theorem Typing.Has.operands {types : List Ty} {r : Rvalue} {type : Ty} (h : T.Has types r type) :
    ∀ x ∈ r.operands, ∃ type', T.atom? x = some type' := by
  intro x hx
  cases h with
  | atom ha | not ha =>
    rw [List.mem_singleton.1 hx]
    exact ⟨_, ha⟩
  | arith hl hr | logic hl hr | order hl hr | same hl hr =>
    rcases List.mem_pair.1 hx with rfl | rfl
    · exact ⟨_, hl⟩
    · exact ⟨_, hr⟩
  | call hf => cases hx

theorem Typing.Step.mentions {a b : Point} {i : Instruction} (h : T.Step a i b) :
    ∀ x ∈ i.mentions, ∃ type, T.atom? x = some type := by
  intro x hx
  cases h with
  | label | enter | goto | call | retNothing => cases hx
  | assign hr hdest =>
    rcases List.mem_cons.1 hx with rfl | hx
    · exact Typing.atom?_of_type? hdest
    · exact hr.operands x hx
  | ifz hr => exact hr.operands x hx
  | param hatom =>
    rw [List.mem_singleton.1 hx]
    exact ⟨_, hatom⟩
  | getparam _ _ _ hdest =>
    rw [List.mem_singleton.1 hx]
    exact Typing.atom?_of_type? hdest
  | ret _ _ hr => exact hr.operands x hx

theorem Typing.Checks.mentions {a b : Point} {code : List Instruction} (h : T.Checks a code b) :
    ∀ x ∈ mentioned code, ∃ type, T.atom? x = some type := by
  induction h with
  | nil => exact fun x hx => absurd hx List.not_mem_nil
  | cons hi _ ih => exact List.forall_mem_append.2 ⟨hi.mentions, ih⟩

end Typed

/-! ### Programs in order -/

theorem Decl.along_plain {ds : List Decl} (hds : ∀ d ∈ ds, d.Plain) (t : RenameTable) :
    ∀ x ∈ Decl.along Expr.leaves t ds, x.2.Plain := by
  induction ds generalizing t with
  | nil => exact fun x hx => absurd hx List.not_mem_nil
  | cons d more ih =>
    obtain ⟨hd, hmore⟩ := List.forall_mem_cons.1 hds
    rw [Decl.along, d.collect_leaves, List.forall_mem_append, List.forall_mem_map]
    exact ⟨hd.leaves, ih hmore _⟩

theorem Body.Plain.leavesAlong {b : Body} (hb : b.Plain) (k : Nat) : ∀ x ∈ b.leavesAlong k, x.2.Plain := by
  rw [Body.leavesAlong, Body.along, List.forall_mem_append, List.forall_mem_append, List.forall_mem_map,
    List.forall_mem_map, List.forall_mem_append]
  refine ⟨fun a ha => ?_, Decl.along_plain hb.decls _, hb.block, fun a ha => ?_⟩
  · obtain ⟨d, hd, ha⟩ := List.mem_flatMap.1 ha
    rw [d.collect_leaves] at ha
    exact (hb.constants d hd).leaves a ha
  · obtain ⟨e, he, ha⟩ := List.mem_flatMap.1 ha
    exact hb.result e (Option.mem_toList.1 he) a ha

namespace Program

variable {p : Program}

/-- What the code of a program in order mentions, names of the supply aside, is a literal or a variable. -/
theorem WellFormed.var_of_mentioned (hw : p.WellFormed) (hs : p.Spelled) {x : String} (hx : x ∈ mentioned p.code)
    (hr : isReservedName x = false) : (∃ v, literal? x = some v) ∨ ∃ type, (x, type) ∈ p.vars := by
  obtain ⟨T, a, hg, hc, -⟩ := hw.typed hs
  rw [p.code_eq_toExit, mentioned_append] at hx
  obtain ⟨type, htype⟩ := hc.mentions x (by simpa [Instruction.mentions] using hx)
  cases hlit : literal? x with
  | some v => exact .inl ⟨v, rfl⟩
  | none =>
    rw [T.atom?_name hlit] at htype
    rcases hg.new htype with htype | ⟨k, rfl⟩
    · exact .inr ⟨type, mem_vars_of_typing htype hr⟩
    · rw [isReservedName_tempName] at hr
      cases hr

/-- **Verbatim names.**  An identifier in the code of a program in order that is no name of the supply is a
global variable or constant. -/
theorem WellFormed.mem_of_mentioned (hw : p.WellFormed) (hs : p.Spelled) {x : String} (hx : x ∈ mentioned p.code)
    (hid : isIdentifier x = true) (hr : isReservedName x = false) : x ∈ p.decls.map (·.name) := by
  rcases hw.var_of_mentioned hs hx hr with ⟨v, hv⟩ | ⟨type, hvar⟩
  · rw [literal?_of_isIdentifier hid] at hv
    cases hv
  · rcases mem_vars.1 hvar with ⟨d, hd, rfl, -⟩ | ⟨i, b, y, -, -, rfl⟩
    · exact List.mem_map_of_mem hd
    · rw [isIdentifier_localText] at hid
      cases hid

/-- The leaves of a program in order are plain. -/
theorem WellFormed.plain (hw : p.WellFormed) (hs : p.Spelled) : ∀ l ∈ p.lookups.flatten, l.leaf.Plain := by
  intro l hl
  have hplace : l.place ∈ Body.leavesFrom 1 p.bodies := p.places_lookups.subset (List.mem_map_of_mem hl)
  obtain ⟨⟨b, k⟩, hb, hplace⟩ := List.mem_flatMap.1 hplace
  obtain ⟨i, hi⟩ := List.getElem?_of_mem (List.fst_mem_of_mem_zipIdx hb)
  exact (bodies_plain hs hw hi).leavesAlong k l.place hplace

/-- The names that the declarations of a program store into. -/
def stored (p : Program) : List String := (p.bodies.zipIdx 1).flatMap fun bi => bi.1.stored bi.2

/-- The code of a program mentions each leaf as it is written where both walks come by. -/
theorem mentioned_lookups (p : Program) : ∃ own, (∀ x ∈ own, isOwnText x = true) ∧
    (mentioned p.code).Perm (p.lookups.flatten.map Lookup.written ++ p.stored ++ own) := by
  obtain ⟨own, hown, hperm⟩ := p.mentioned_code
  refine ⟨own, hown, hperm.trans (List.Perm.append_right own ?_)⟩
  have hsplit : p.texts.Perm ((Body.leavesFrom 1 p.bodies).map writtenLeaf ++ p.stored) := by
    rw [Body.leavesFrom, List.map_flatMap]
    exact (List.flatMap_append_perm (p.bodies.zipIdx 1) _ _).symm
  have hwritten : p.lookups.flatten.map Lookup.written = (p.lookups.flatten.map Lookup.place).map writtenLeaf := by
    rw [List.map_map]
    rfl
  rw [hwritten]
  exact hsplit.trans ((p.places_lookups.map writtenLeaf).symm.append_right _)

end Program

/-! ### Every program -/

/-- A source in which global names are used where a local one of the same name is about to be declared. -/
def shadowingSource : String :=
  "const n: integer = 1; integer f(a: integer) \x7b const n: integer = n + a; return (n); \x7d " ++
    "main \x7b var k: integer; k = f(n); \x7d"

/-- The code of that source. -/
def shadowingCode : List Instruction :=
  [.label "f", .getparam "a.1" 1, .assign "n.1" (.binary "n" (.arith .plus) "a.1"), .ret (some (.atom "n.1")),
    .label "main", .assign "n" (.atom "1"), .param "n", .assign "k.2" (.call "f" 1), .call "_exit" 0]

/-- **Both passes resolve names alike.**  At every leaf of a program, checking and lowering have the same local
names, so that a name is found among the locals by both or by none, and is written accordingly; and what the
code mentions is just that, beside the names that declarations store into and its own ones.  If the source is
accepted, a name that is written as it stands is a global variable or constant. -/
theorem lookups_agree (p : Program) :
    p.lookups.length = p.bodies.length ∧
    (∀ (i : Nat) (ls : List Lookup), p.lookups[i]? = some ls →
      ∀ l ∈ ls, ∀ x, l.leaf = .name x → l.Agrees (i + 1) x) ∧
    (∃ own, (∀ x ∈ own, isOwnText x = true) ∧
      (mentioned p.code).Perm (p.lookups.flatten.map Lookup.written ++ p.stored ++ own)) ∧
    ∀ source compiled, Program.ofSource source = .ok p → compile source = .ok compiled →
      (∀ l ∈ p.lookups.flatten, ∀ x, l.leaf = .name x → l.written = x → x ∈ p.decls.map (·.name)) ∧
        ∀ x ∈ mentioned compiled.code, isIdentifier x = true → isReservedName x = false →
          x ∈ p.decls.map (·.name) := by
  refine ⟨p.length_lookups, fun i ls hls l hl x hx => (p.lookups_match hls l hl).agrees hx, p.mentioned_lookups, ?_⟩
  intro source compiled hp hcompile
  obtain ⟨p', hp', hclean, hcode⟩ := compile_eq_ok hcompile
  cases hp.symm.trans hp'
  have hw := Program.WellFormed.of_clean hclean
  have hs := ofSource_spelled hp
  refine ⟨fun l hl x hx hwritten => ?_, fun x hx hid hr => hw.mem_of_mentioned hs (hcode ▸ hx) hid hr⟩
  have hplain := hw.plain hs l hl
  rw [hx] at hplain
  obtain ⟨own, -, hperm⟩ := p.mentioned_lookups
  refine hw.mem_of_mentioned hs (hperm.symm.subset ?_) hplain.1 hplain.2
  exact List.mem_append_left _ (List.mem_append_left _ (List.mem_map.2 ⟨l, hl, hwritten⟩))

theorem lookups_agree_shadowingSource : compile shadowingSource = .ok ⟨shadowingCode, []⟩ ∧
    ∃ p, Program.ofSource shadowingSource = .ok p ∧
      (∀ l ∈ p.lookups.flatten, ∀ x, l.leaf = .name x → l.written = x → x ∈ p.decls.map (·.name)) ∧
        ∀ x ∈ mentioned shadowingCode, isIdentifier x = true → isReservedName x = false →
          x ∈ p.decls.map (·.name) := by
  have hcompile : compile shadowingSource = .ok ⟨shadowingCode, []⟩ :=
    Except.eq_ok_of_toOption (by decide +kernel)
  obtain ⟨p, hp, -, -⟩ := compile_eq_ok hcompile
  exact ⟨hcompile, p, hp, (lookups_agree p).2.2.2 shadowingSource _ hp hcompile⟩

end ThreeAddress
