import ThreeAddress.Proofs.CallsInTurn
import ThreeAddress.Proofs.SetOnce

/-!
# Constants are set in time

The main part begins with the values of the global constants, in the order of their declarations.  Where they are
checked, no function is in view and no variable has been assigned, so their code makes no call and reads nothing but
constants that have been set.  Control passes through that code before anything else.

* `Expr.Yields.calls_eq_nil` — where no function is in view, nothing is called;
* `Decl.lowerGlobals_setsFirst`, `Decl.lowerGlobals_assigns` — the code of global constants;
* `Passes`, `Route` — where control may pass, into called routines and back, too;
* `Route.straight` — a route passes straight code in order;
* `Program.SetsConstants` — what becomes of the constants of a program in its code;
* `compile_setsConstants` — the constants of an accepted source.
-/

namespace ThreeAddress

open NameSupply (tempName)

/-! ### No calls -/

/-- Where no function is in view, an expression in order calls nothing. -/
theorem Expr.Yields.calls_eq_nil {v : View} (hv : v.Declares []) {e : Expr} {y : Yield} (h : e.Yields v y) :
    e.calls = [] := by
  induction h with
  | arith _ _ _ _ ihl ihr | logic _ _ _ _ ihl ihr => rw [Expr.calls, ihl, ihr, List.append_nil]
  | paren _ ih => exact ih
  | call h =>
    obtain ⟨params, hlookup, -⟩ := h
    exact absurd (hv _ _ _ hlookup) List.not_mem_nil
  | fragment => rfl

/-- So do the values of global constants. -/
theorem Decl.AllInOrder.calls_eq_nil {v : View} {ds : List Decl} (h : Decl.AllInOrder v ds) (hl : v.locals = none)
    (hv : v.Declares []) : ds.flatMap (Decl.collect Expr.calls) = [] := by
  have hnone (v : View) (hl : v.locals = none) (x : String) (b : Binding) : (v.declare x b).locals = none := by
    rw [View.declare, hl]
  induction h with
  | nil => rfl
  | @var v x type s more _ ih => exact ih (hnone v hl _ _) (hv.declare hl fun _ _ hb => by cases hb)
  | @const v x type e s more he _ ih =>
    obtain ⟨y, hy, -⟩ := he
    rw [List.flatMap_cons, Decl.collect, hy.calls_eq_nil hv]
    exact ih (hnone v hl _ _) (hv.declare hl fun _ _ hb => by cases hb)

/-- Code that makes no calls and leaves no arguments passes none. -/
theorem CallsInTurn.callFree {args left : List String} {code : List Instruction} {calls : List PassedCall}
    (h : CallsInTurn args code calls left) (hcalls : calls = []) (hleft : left = []) :
    args = [] ∧ ∀ i ∈ code, i.isCallFree = true := by
  induction h with
  | nil => exact ⟨hleft, fun i hi => absurd hi List.not_mem_nil⟩
  | param _ ih => exact absurd (ih hcalls hleft).1 (List.append_ne_nil_of_right_ne_nil _ (List.cons_ne_nil _ _))
  | call => cases hcalls
  | other hi _ ih => exact ⟨rfl, List.forall_mem_cons.2 ⟨hi, (ih hcalls hleft).2⟩⟩

/-! ### The code of global constants -/

theorem View.find?_declare {v : View} (hv : v.locals = none) (x y : String) (b : Binding) :
    (v.declare x b).find? y = if y = x then some (.outer, b) else v.find? y := by
  have hinner (w : View) (hw : w.locals = none) : (w.scope .inner).lookup y = none := by
    rw [View.scope, hw]
    rfl
  rw [View.declare, hv, View.find?_outer (hinner _ rfl), View.find?_outer (hinner v hv), List.lookup_cons]
  by_cases hxy : y = x
  · rw [if_pos hxy, beq_iff_eq.2 hxy]
    rfl
  · rw [if_neg hxy, beq_false_of_ne hxy]

/-- In front of the code, less may hold. -/
theorem SetsFirst.weaken {y : String} {P P' Q : Prop} {code : List Instruction} (h : SetsFirst y P' Q code)
    (hp : P' → P) : SetsFirst y P Q code :=
  ⟨fun hP => h.reads fun hP' => hP (hp hP'), fun hP => h.sets fun hP' => hP (hp hP')⟩

section GlobalConstants

variable {v : View} {ds : List Decl} {y : String} {k : Nat}

/-- A name may be read as a value of some type. -/
def View.MayRead (v : View) (x : String) : Prop := ∃ type, v.Readable x type

/-- Where nothing has been assigned, a variable that is declared may not be read yet. -/
theorem View.MayRead.of_declare_var (hv : v.locals = none) (hu : v.assigned = []) {x : String} {type : Ty}
    (h : (v.declare x (.var type)).MayRead y) : v.MayRead y := by
  obtain ⟨type', h⟩ := h
  have hnew : (v.declare x (.var type)).assigned = [] := (v.assigned_declare x _).trans hu
  by_cases hxy : y = x
  · have hfind := (View.find?_declare hv x y (.var type)).trans (if_pos hxy)
    cases h with
    | const hf | param hf =>
      rw [hfind] at hf
      cases hf
    | var _ ha =>
      rw [hnew] at ha
      cases ha
  · have hfind := (View.find?_declare hv x y (.var type)).trans (if_neg hxy)
    cases h with
    | const hf => exact ⟨type', .const (hfind ▸ hf)⟩
    | param hf => exact ⟨type', .param (hfind ▸ hf)⟩
    | var _ ha =>
      rw [hnew] at ha
      cases ha

/-- A constant that is declared may be read, and nothing else may be read for that. -/
theorem View.MayRead.of_declare_const (hv : v.locals = none) (hu : v.assigned = []) {x : String} {type : Ty}
    (h : (v.declare x (.const type)).MayRead y) : y = x ∨ v.MayRead y := by
  by_cases hxy : y = x
  · exact .inl hxy
  · obtain ⟨type', h⟩ := h
    have hfind := (View.find?_declare hv x y (.const type)).trans (if_neg hxy)
    cases h with
    | const hf => exact .inr ⟨type', .const (hfind ▸ hf)⟩
    | param hf => exact .inr ⟨type', .param (hfind ▸ hf)⟩
    | var _ ha =>
      rw [v.assigned_declare, hu] at ha
      cases ha

/-- Where no name is local, only what may be read is written in a value. -/
theorem Expr.not_mem_lower {e : Expr} (hp : AllPlain e.leaves) (hr : v.Reads e.leaves) (hy : literal? y = none)
    (hu : ¬v.MayRead y) : y ∉ e.leaves.map (Atom.lower (.empty k)) := by
  intro hmem
  obtain ⟨a, ha, hwritten⟩ := List.mem_map.1 hmem
  cases a with
  | number digits =>
    have hdigits : literal? digits = some _ := literal?_of_isNumeral (hp _ ha)
    rw [show digits = y from hwritten, hy] at hdigits
    cases hdigits
  | name z =>
    obtain rfl : z = y := hwritten
    exact hu (hr z ha)

/-- **Global constants.**  Their code sets a constant in front of the places that read it. -/
theorem Decl.lowerGlobals_setsFirst (h : Decl.AllInOrder v ds) (hp : ∀ d ∈ ds, d.Plain) (hv : v.locals = none)
    (hu : v.assigned = []) (hy : literal? y = none) (hr : isReservedName y = false) (g : Generator) :
    SetsFirst y (v.MayRead y) ((v.declareAll ds).MayRead y) ((ds.forM (Decl.lowerGlobal (.empty k))).run g).record := by
  have hnone (v : View) (hl : v.locals = none) (x : String) (b : Binding) : (v.declare x b).locals = none := by
    rw [View.declare, hl]
  induction h generalizing g with
  | nil => exact .silent fun _ => List.not_mem_nil
  | @var v x type s more _ ih =>
    have hmore := ih (List.forall_mem_cons.1 hp).2 (hnone v hv _ _) ((v.assigned_declare _ _).trans hu) g
    exact hmore.weaken fun h => h.of_declare_var hv hu
  | @const v x type e s more he _ ih =>
    obtain ⟨hplain, hp⟩ := List.forall_mem_cons.1 hp
    have hunread (hno : ¬v.MayRead y) := ((e.lower_mentions (.empty k)) g).unmentioned
      (Expr.not_mem_lower hplain.leaves he.reads hy hno) (isOwnText_eq_false hy hr)
    have hset : SetsFirst y (v.MayRead y) ((v.declare x (.const type)).MayRead y)
        [.assign x ((e.lower (.empty k)).run g).value] :=
      .single (fun hno => (hunread hno).2) fun hno h => by
        rw [(h.of_declare_const hv hu).resolve_right hno]
        rfl
    exact .append (.append (.silent fun hno => (hunread hno).1) hset)
      (ih hp (hnone v hv _ _) ((v.assigned_declare _ _).trans hu) _)

/-- The instructions of global constants assign the constants and temporaries, unless they pass arguments. -/
theorem Decl.lowerGlobals_assigns (ds : List Decl) (t : RenameTable) (g : Generator) :
    ∀ i ∈ ((ds.forM (Decl.lowerGlobal t)).run g).record, (∃ a, i = .param a) ∨
      ∃ x r, i = .assign x r ∧ (x ∈ ds.flatMap Decl.stored ∨ ∃ m, x = tempName m) := by
  induction ds generalizing g with
  | nil => exact fun i hi => absurd hi List.not_mem_nil
  | cons d more ih =>
    refine List.forall_mem_append.2 ⟨fun i hi => ?_, fun i hi => ?_⟩
    · cases d with
      | var => cases hi
      | const x type e s =>
        rcases List.mem_append.1 hi with hi | hi
        · rcases e.fills_lower t g i hi with h | ⟨m, r, -, -, rfl⟩
          · exact .inl h
          · exact .inr ⟨_, r, rfl, .inr ⟨m, rfl⟩⟩
        · exact .inr ⟨x, _, List.mem_singleton.1 hi, .inl List.mem_cons_self⟩
    · rcases ih _ i hi with h | ⟨x, r, hi, hx⟩
      · exact .inl h
      · exact .inr ⟨x, r, hi, hx.imp_left (List.mem_append_right _)⟩

end GlobalConstants

/-! ### Routes -/

/-- Where control may pass to: on in its body, to a routine that is called, and from the end of a routine to anywhere. -/
inductive Passes (code : List Instruction) : Nat → Nat → Prop
  | flow {a b : Nat} (h : Flow code a b) : Passes code a b
  | call {a b : Nat} {i : Instruction} {f : String} (hi : code[a]? = some i) (hf : i.callee? = some f)
      (hb : code[b]? = some (.label f)) : Passes code a b
  | ret {a b : Nat} {v : Option Rvalue} (hi : code[a]? = some (.ret v)) : Passes code a b

/-- A route from one place to another, through called routines, too, with the places that it leaves, in order. -/
inductive Route (code : List Instruction) : Nat → List Nat → Nat → Prop
  | here (a : Nat) : Route code a [] a
  | step {a b c : Nat} {left : List Nat} (h : Passes code a b) (hr : Route code b left c) : Route code a (a :: left) c

/-- An instruction behind which control can only go on. -/
structure Instruction.Straight (i : Instruction) : Prop where
  target : i.target? = none
  callee : i.callee? = none
  ret : ∀ v, i ≠ .ret v

theorem Instruction.straight_assign {x : String} {r : Rvalue} (hr : ∀ f n, r ≠ .call f n) :
    (Instruction.assign x r).Straight where
  target := rfl
  callee := by
    cases r with
    | call f n => exact absurd rfl (hr f n)
    | _ => rfl
  ret _ h := by cases h

theorem Passes.next {code : List Instruction} {a b : Nat} {i : Instruction} (h : Passes code a b)
    (hi : code[a]? = some i) (hs : i.Straight) : b = a + 1 := by
  cases h with
  | flow h =>
    cases h with
    | next => rfl
    | jump hj =>
      obtain ⟨j, l, hj, ht, -⟩ := hj
      cases hi.symm.trans hj
      rw [hs.target] at ht
      cases ht
  | call hj hf =>
    cases hi.symm.trans hj
    rw [hs.callee] at hf
    cases hf
  | ret hj =>
    cases hi.symm.trans hj
    exact absurd rfl (hs.ret _)

/-- **Straight code.**  A route into straight code passes its places in order; it ends there, or passes all of them. -/
theorem Route.straight {code : List Instruction} {lo b n : Nat} {left : List Nat} (h : Route code lo left b)
    (hs : ∀ k, k < n → ∃ i, code[lo + k]? = some i ∧ i.Straight) :
    lo ≤ b ∧ left <+: List.range' lo n ∨ List.range' lo n <+: left := by
  induction h generalizing n with
  | here a => exact .inl ⟨Nat.le_refl a, List.nil_prefix⟩
  | @step a b c left hp _ ih =>
    cases n with
    | zero => exact .inr List.nil_prefix
    | succ n =>
      obtain ⟨i, hi, hstraight⟩ := hs 0 (Nat.succ_pos n)
      obtain rfl := hp.next hi hstraight
      rw [List.range'_succ]
      have hmore := ih (n := n) fun k hk => by
        obtain ⟨j, hj, hj'⟩ := hs (k + 1) (Nat.succ_lt_succ hk)
        exact ⟨j, by rwa [Nat.add_right_comm, Nat.add_assoc], hj'⟩
      rcases hmore with ⟨hle, hmore⟩ | hmore
      · exact .inl ⟨by omega, List.prefix_cons_inj a |>.2 hmore⟩
      · exact .inr (List.prefix_cons_inj a |>.2 hmore)

/-- The same for a piece of code. -/
theorem Route.straight_piece {code before mid behind : List Instruction} {b : Nat} {left : List Nat}
    (h : Route code before.length left b) (hcode : code = before ++ (mid ++ behind)) (hs : ∀ i ∈ mid, i.Straight) :
    before.length ≤ b ∧ left <+: List.range' before.length mid.length ∨
      List.range' before.length mid.length <+: left := by
  refine h.straight fun k hk => ⟨mid[k], ?_, hs _ (List.getElem_mem hk)⟩
  rw [hcode, List.getElem?_append_right (Nat.le_add_right _ _), Nat.add_sub_cancel_left,
    List.getElem?_append_left hk, List.getElem?_eq_getElem hk]

/-! ### The constants of a program -/

namespace Program

/-- Code that gives the global constants of a program their values: it sets them in the order of their declarations,
and beside them only temporaries; it calls nothing and passes nothing; and what it reads is a literal, a generated
name, or a constant that has been set above. -/
structure Opening (p : Program) (init : List Instruction) : Prop where
  order : unreserved (setNames init) = p.constants.map (·.name)
  assigns : ∀ i ∈ init, ∃ x r, i = .assign x r ∧ (∀ f n, r ≠ .call f n) ∧
    (x ∈ p.constants.map (·.name) ∨ ∃ m, x = tempName m)
  reads : ∀ y j, ReadAt y init j → (∃ v, literal? y = some v) ∨ isReservedName y = true ∨
    y ∈ p.constants.map (·.name) ∧ ∃ k, k < j ∧ SetAt y init k

/-- What becomes of the constants of a program in its code. -/
structure SetsConstants (p : Program) (code : List Instruction) : Prop where
  /-- A global constant is set at one place of the whole code. -/
  globals : ∀ d ∈ p.constants, ∃ a, ∀ c, SetAt d.name code c ↔ c = a
  /-- The global constants have their values before control comes to any function. -/
  opening : ∃ front init rest, code = front ++ .label "main" :: (init ++ rest) ∧
    front.length = p.start p.funcs.length ∧ p.Opening init ∧
    ∀ left a, Route code front.length left a → a < front.length → List.range' front.length (init.length + 1) <+: left
  /-- A local constant is set at one place, in its body, and in front of the places that read it. -/
  locals : ∀ i b d, p.bodies[i]? = some b → d ∈ b.decls → d.isConst = true →
    ∃ a, p.Within i a ∧ (∀ c, SetAt (localText d.name (i + 1)) code c ↔ c = a) ∧
      ∀ c, ReadAt (localText d.name (i + 1)) code c → a < c

variable {p : Program}

theorem WellFormed.opening (hw : p.WellFormed) (hs : p.Spelled) (k : Nat) (g : Generator) :
    p.Opening ((p.decls.forM (Decl.lowerGlobal (.empty k))).run g).record := by
  have hstored : p.decls.flatMap Decl.stored = p.constants.map (·.name) := Decl.stored_eq p.decls
  have hplain := (bodies_plain hs hw p.bodies_length).constants
  have horder : unreserved (setNames ((p.decls.forM (Decl.lowerGlobal (.empty k))).run g).record) =
      p.constants.map (·.name) := by
    rw [← hstored, Emit.Sets.forM (Decl.lowerGlobal_sets (.empty k)) p.decls g]
    refine unreserved_eq_self fun x hx => hw.names.unreserved x (List.mem_append_left _ ?_)
    exact (Decl.stored_sublist p.decls).subset hx
  refine ⟨horder, fun i hi => ?_, fun y j hj => ?_⟩
  · -- no function is in view, so no argument is passed and nothing is called
    have hcalls : p.decls.flatMap (fun d => (d.collect Expr.calls).map (Call.passed (.empty k))) = [] := by
      rw [← List.map_flatMap, hw.decls.calls_eq_nil rfl fun _ _ _ hf => by cases hf]
      rfl
    have hfree := ((Emit.CallsAll.forM (Decl.lowerGlobal_calls (.empty k)) p.decls g).callFree hcalls rfl).2 i hi
    rcases Decl.lowerGlobals_assigns p.decls (.empty k) g i hi with ⟨a, rfl⟩ | ⟨x, r, rfl, hx⟩
    · cases hfree
    · refine ⟨x, r, rfl, ?_, hstored ▸ hx⟩
      rintro f n rfl
      cases hfree
  · cases hr : isReservedName y with
    | true => exact .inr (.inl rfl)
    | false =>
      cases hy : literal? y with
      | some v => exact .inl ⟨v, rfl⟩
      | none =>
        have hnone : ¬View.empty.MayRead y := fun ⟨_, h⟩ => by
          cases h with
          | const hf | param hf | var hf => cases hf
        have hfirst := Decl.lowerGlobals_setsFirst (k := k) hw.decls hplain rfl rfl hy hr g
        obtain ⟨m, hm, hset⟩ := hfirst.reads hnone j hj
        refine .inr (.inr ⟨?_, m, hm, hset⟩)
        rw [← horder]
        exact List.mem_filter.2 ⟨mem_setNames.2 ⟨m, hset⟩, by rw [hr]; rfl⟩

/-- The code of a program has that of its global constants behind the label of the main part. -/
theorem code_eq_opening (p : Program) : ∃ rest, p.code = Func.codeOf p.funcs .first ++ .label "main" ::
    (((p.decls.forM (Decl.lowerGlobal (.empty (Generator.first.behind p.funcs).names.ordinal))).run
      (Generator.first.behind p.funcs)).record ++ rest) := by
  have hmain (g : Generator) : ∃ rest, (p.lowerMainWithin.run g).record =
      ((p.decls.forM (Decl.lowerGlobal (.empty g.names.ordinal))).run g).record ++ rest := by
    let start := p.mainBody.lowerStart.run g
    obtain ⟨more, hmore⟩ : ∃ more, start.record =
        ((p.decls.forM (Decl.lowerGlobal (.empty g.names.ordinal))).run g).record ++ more := ⟨_, rfl⟩
    obtain ⟨rest, hrest⟩ : ∃ rest, (p.lowerMainWithin.run g).record = start.record ++ rest := ⟨_, rfl⟩
    exact ⟨more ++ rest, by rw [hrest, hmore, List.append_assoc]⟩
  obtain ⟨rest, hrest⟩ := hmain (Generator.first.behind p.funcs)
  exact ⟨rest, by rw [p.code_eq, hrest]⟩

/-- **Constants.**  The code of a program in order sets its constants once and in time. -/
theorem WellFormed.setsConstants (hw : p.WellFormed) (hs : p.Spelled) : p.SetsConstants p.code where
  globals d hd := by
    obtain ⟨hd, hc⟩ := List.mem_filter.1 hd
    exact hw.global_once hs hd hc
  opening := by
    obtain ⟨rest, hcode⟩ := p.code_eq_opening
    have hpiece := hcode.trans (congrArg _ (List.cons_append (a := Instruction.label "main")).symm)
    have hopening := hw.opening hs (Generator.first.behind p.funcs).names.ordinal (Generator.first.behind p.funcs)
    refine ⟨_, _, rest, hcode, p.start_main.symm, hopening, fun left a hroute ha => ?_⟩
    refine (hroute.straight_piece hpiece ?_).resolve_left fun h => Nat.not_le_of_lt ha h.1
    refine List.forall_mem_cons.2 ⟨⟨rfl, rfl, fun _ h => by cases h⟩, fun i hi => ?_⟩
    obtain ⟨x, r, rfl, hr, -⟩ := hopening.assigns i hi
    exact Instruction.straight_assign hr
  locals i b d hb hd hc := by
    obtain ⟨a, hwithin, ha⟩ := hw.local_once hs hb hd hc
    exact ⟨a, hwithin, ha, fun c => hw.constant_before hs hb hd hc ha⟩

end Program

/-! ### Accepted sources -/

/-- **Constants are set once and in time.**  In the code of an accepted source, each global constant is set at one
place, and each local one at one place of its body, in front of the places that read it.  The main part begins with
the values of the global constants, in order and without a call: they read nothing but constants set above, and no
route comes to a function unless it has passed all of them. -/
theorem compile_setsConstants {source : String} {compiled : Compiled} (h : compile source = .ok compiled) :
    ∃ p, Program.ofSource source = .ok p ∧ p.SetsConstants compiled.code := by
  obtain ⟨p, hp, hclean, hcode⟩ := compile_eq_ok h
  refine ⟨p, hp, ?_⟩
  rw [hcode]
  exact (Program.WellFormed.of_clean hclean).setsConstants (ofSource_spelled hp)

/-- A source whose constants have values made of others. -/
def layeredSource : String :=
  "const a: integer = 2; var v: integer; const b: integer = a + a + 1; " ++
  "integer f(x: integer) \x7b const c: integer = x + b; return (c); \x7d " ++
  "main \x7b const d: integer = f(a); v = d; \x7d"

/-- The code of that source. -/
def layeredCode : List Instruction :=
  [.label "f", .getparam "x.1" 1, .assign "c.1" (.binary "x.1" (.arith .plus) "b"), .ret (some (.atom "c.1")),
    .label "main", .assign "a" (.atom "2"), .assign "t1" (.binary "a" (.arith .plus) "a"),
    .assign "t2" (.binary "t1" (.arith .plus) "1"), .assign "b" (.atom "t2"), .param "a",
    .assign "d.2" (.call "f" 1), .assign "v" (.atom "d.2"), .call "_exit" 0]

theorem compile_setsConstants_layeredSource : compile layeredSource = .ok ⟨layeredCode, []⟩ ∧
    ∃ p, Program.ofSource layeredSource = .ok p ∧ p.SetsConstants layeredCode := by
  have hcompile : compile layeredSource = .ok ⟨layeredCode, []⟩ := Except.eq_ok_of_toOption (by decide +kernel)
  exact ⟨hcompile, compile_setsConstants hcompile⟩

end ThreeAddress
