import Mathlib.Data.List.Nodup
import ThreeAddress.Proofs.Leaves
import ThreeAddress.Proofs.Meaning
import ThreeAddress.Proofs.WellFormed

/-!
# What lowering takes from the name supply

Lowering never gives a number back, and it defines every label that it takes, each once.

* `NameSupply.Le`, `NameSupply.Old` — a supply that comes after another, and names that it does not give any more;
* `definedLabels` — the labels that code defines, in order;
* `Emit.Orderly` — the labels that a pass defines are the ones that it takes;
* `Stmt.lower_orderly`, `Body.lower_orderly` — statements and bodies, be it a function or the main part;
* `Program.labels_code` — the labels of a program.
-/

namespace ThreeAddress

open NameSupply (tempName flagName labelName)

/-! ### Supplies and labels -/

/-- A supply that comes after another in one body. -/
structure NameSupply.Le (a b : NameSupply) : Prop where
  label : a.label ≤ b.label
  temp : a.temp ≤ b.temp
  flag : a.flag ≤ b.flag
  ordinal : b.ordinal = a.ordinal

theorem NameSupply.Le.refl (a : NameSupply) : a.Le a :=
  ⟨Nat.le_refl _, Nat.le_refl _, Nat.le_refl _, rfl⟩

theorem NameSupply.Le.trans {a b c : NameSupply} (h : a.Le b) (h' : b.Le c) : a.Le c :=
  ⟨Nat.le_trans h.label h'.label, Nat.le_trans h.temp h'.temp, Nat.le_trans h.flag h'.flag,
    h'.ordinal.trans h.ordinal⟩

/-- A name that the supply does not give any more. -/
def NameSupply.Old (n : NameSupply) (x : String) : Prop :=
  ∀ k, (n.temp ≤ k → x ≠ tempName k) ∧ (n.flag ≤ k → x ≠ flagName k)

theorem NameSupply.Old.mono {n n' : NameSupply} {x : String} (h : n.Old x) (hn : n.Le n') : n'.Old x :=
  fun k => ⟨fun hk => (h k).1 (Nat.le_trans hn.temp hk), fun hk => (h k).2 (Nat.le_trans hn.flag hk)⟩

theorem NameSupply.old_of_unreserved (n : NameSupply) {x : String} (h : isReservedName x = false) :
    n.Old x := by
  refine fun k => ⟨fun _ hx => ?_, fun _ hx => ?_⟩
  · rw [hx, isReservedName_tempName] at h
    cases h
  · rw [hx, isReservedName_flagName] at h
    cases h

theorem NameSupply.old_temp {n : NameSupply} {k : Nat} (h : k < n.temp) : n.Old (tempName k) := by
  refine fun j => ⟨fun hj hk => ?_, fun _ hk => tempName_ne_flagName k j hk⟩
  have := tempName_inj hk
  omega

theorem NameSupply.old_flag {n : NameSupply} {k : Nat} (h : k < n.flag) : n.Old (flagName k) := by
  refine fun j => ⟨fun _ hk => tempName_ne_flagName j k hk.symm, fun hj hk => ?_⟩
  have := flagName_inj hk
  omega

/-- The labels with numbers from one supply up to another. -/
def NameSupply.labelsTo (a b : NameSupply) : List String :=
  (List.range' a.label (b.label - a.label)).map labelName

theorem NameSupply.labelsTo_append {a b c : NameSupply} (h : a.label ≤ b.label) (h' : b.label ≤ c.label) :
    a.labelsTo b ++ b.labelsTo c = a.labelsTo c := by
  have hb : b.label = a.label + (b.label - a.label) := by omega
  have hc : b.label - a.label + (c.label - b.label) = c.label - a.label := by omega
  rw [labelsTo, labelsTo, labelsTo, ← List.map_append, ← hc, ← List.range'_append_1, ← hb]

/-- The labels that code defines, in order. -/
def definedLabels (code : List Instruction) : List String :=
  code.filterMap fun
    | .label name => some name
    | _ => none

@[simp] theorem definedLabels_append (a b : List Instruction) :
    definedLabels (a ++ b) = definedLabels a ++ definedLabels b := List.filterMap_append

theorem mem_definedLabels {code : List Instruction} {l : String} (h : .label l ∈ code) : l ∈ definedLabels code :=
  List.mem_filterMap.2 ⟨_, h, rfl⟩

theorem definedLabels_label (name : String) : definedLabels [.label name] = [name] := rfl

theorem definedLabels_other {i : Instruction} (hi : i.isLabel = false) : definedLabels [i] = [] := by
  cases i with
  | label => cases hi
  | _ => rfl

@[simp] theorem Emit.run_take {α : Type} (from? : NameSupply → α × NameSupply) (g : Generator) :
    (Emit.take from?).run g = ⟨(from? g.names).1, { g with names := (from? g.names).2 }, []⟩ := rfl

@[simp] theorem Emit.run_assign (dest : String) (value : Rvalue) (g : Generator) :
    (Emit.assign dest value).run g = ⟨(), g, [.assign dest value]⟩ := rfl

/-- What a pass comes to is orderly: the labels that it defines are the ones that it takes. -/
structure OrderlyFrom {α : Type} (g : Generator) (r : Passed Generator Instruction α) : Prop where
  grows : g.names.Le r.state.names
  labels : (definedLabels r.record).Perm (g.names.labelsTo r.state.names)

/-- A pass whose labels are the ones that it takes. -/
def Emit.Orderly {α : Type} (p : Emit α) : Prop := ∀ g, OrderlyFrom g (p.run g)

namespace Emit.Orderly

variable {α β : Type}

theorem pure (a : α) : Emit.Orderly (Pure.pure a) :=
  fun g => ⟨.refl _, by simp [NameSupply.labelsTo, definedLabels]⟩

theorem bind {p : Emit α} {f : α → Emit β} (hp : Emit.Orderly p) (hf : ∀ a, Emit.Orderly (f a)) :
    Emit.Orderly (p >>= f) := by
  intro g
  have h₁ := hp g
  have h₂ := hf (p.run g).value (p.run g).state
  refine ⟨h₁.grows.trans h₂.grows, ?_⟩
  rw [Pass.run_bind, definedLabels_append, ← NameSupply.labelsTo_append h₁.grows.label h₂.grows.label]
  exact h₁.labels.append h₂.labels

/-- An instruction that is no label. -/
theorem tell {i : Instruction} (hi : i.isLabel = false) : Emit.Orderly (Pass.tell i) := by
  refine fun g => ⟨.refl _, ?_⟩
  rw [Pass.run_tell, definedLabels_other hi]
  simp [NameSupply.labelsTo]

/-- A change that takes no name. -/
theorem modify {f : Generator → Generator} (hf : ∀ g, (f g).names = g.names) :
    Emit.Orderly (Pass.modify f) := by
  intro g
  rw [Pass.run_modify]
  exact ⟨by rw [hf]; exact .refl _, by simp [NameSupply.labelsTo, definedLabels, hf]⟩

theorem get {f : Generator → Emit α} (hf : ∀ g, Emit.Orderly (f g)) : Emit.Orderly (Pass.get >>= f) :=
  fun g => hf g g

theorem takeTemp : Emit.Orderly (Emit.take NameSupply.takeTemp) := by
  intro g
  rw [Emit.run_take]
  exact ⟨⟨Nat.le_refl _, Nat.le_succ _, Nat.le_refl _, rfl⟩, by simp [NameSupply.labelsTo, definedLabels,
    NameSupply.takeTemp]⟩

theorem takeFlag : Emit.Orderly (Emit.take NameSupply.takeFlag) := by
  intro g
  rw [Emit.run_take]
  exact ⟨⟨Nat.le_refl _, Nat.le_refl _, Nat.le_succ _, rfl⟩, by simp [NameSupply.labelsTo, definedLabels,
    NameSupply.takeFlag]⟩

theorem atomOf (r : Rvalue) : Emit.Orderly (Emit.atomOf r) := by
  unfold Emit.atomOf
  split
  · exact pure _
  · exact takeTemp.bind fun _ => (tell rfl).bind fun _ => pure _

theorem forM {f : β → Emit Unit} (hf : ∀ b, Emit.Orderly (f b)) (bs : List β) :
    Emit.Orderly (bs.forM f) := by
  induction bs with
  | nil => exact pure _
  | cons b more ih => exact (hf b).bind fun _ => ih

theorem mapM {f : β → Emit α} (hf : ∀ b, Emit.Orderly (f b)) (bs : List β) :
    Emit.Orderly (bs.mapM f) := by
  induction bs with
  | nil =>
    rw [List.mapM_nil]
    exact pure _
  | cons b more ih =>
    rw [List.mapM_cons]
    exact (hf b).bind fun _ => ih.bind fun _ => pure _

theorem foldlM {f : α → β → Emit α} (hf : ∀ a b, Emit.Orderly (f a b)) (bs : List β) (a : α) :
    Emit.Orderly (bs.foldlM f a) := by
  induction bs generalizing a with
  | nil => exact pure _
  | cons b more ih => exact (hf a b).bind fun a' => ih a'

/-- Two labels are taken first, and defined around the other ones. -/
theorem around {f : String × String → Emit α} {q : Emit β} (hq : Emit.Orderly q)
    (hs : ∀ labels g, ((f labels).run g).state = (q.run g).state)
    (hl : ∀ labels g, (definedLabels ((f labels).run g).record).Perm
      (labels.1 :: labels.2 :: definedLabels (q.run g).record)) :
    Emit.Orderly (Emit.take NameSupply.takeLabels >>= f) := by
  intro g
  let g₁ : Generator := { g with names := g.names.takeLabels.2 }
  have htwo : g.names.Le g₁.names := ⟨Nat.le_add_right _ 2, Nat.le_refl _, Nat.le_refl _, rfl⟩
  have hrest := hq g₁
  rw [Pass.run_bind, Emit.run_take, List.nil_append]
  refine ⟨?_, ?_⟩
  · rw [hs]
    exact htwo.trans hrest.grows
  · rw [hs, ← NameSupply.labelsTo_append htwo.label hrest.grows.label]
    have hnew : g.names.labelsTo g₁.names = [labelName g.names.label, labelName (g.names.label + 1)] := by
      simp [NameSupply.labelsTo, g₁, NameSupply.takeLabels, List.range']
    rw [hnew]
    exact (hl _ _).trans (.append_left [_, _] hrest.labels)

end Emit.Orderly

open Emit (Orderly)

/-! ### Expressions and conditions -/

theorem Operand.lower_orderly (t : RenameTable) (o : Operand) : Orderly (o.lower t) := by
  cases o with
  | call c => exact (Orderly.forM (fun _ => .tell rfl) _).bind fun _ => .pure _
  | fragment f => exact .pure _

theorem Operand.lowerAtom_orderly (t : RenameTable) (o : Operand) : Orderly (o.lowerAtom t) :=
  (o.lower_orderly t).bind fun _ => .atomOf _

theorem foldAtoms_orderly (left : String) (more : List (Operator × String)) :
    Orderly (foldAtoms left more) := by
  induction more generalizing left with
  | nil => exact .pure _
  | cons x more ih => exact (Orderly.atomOf _).bind fun result => ih result

theorem Expr.lower_orderly (t : RenameTable) (e : Expr) : Orderly (e.lower t) := by
  unfold Expr.lower
  split
  · exact Operand.lower_orderly t _
  · refine (Operand.lowerAtom_orderly t _).bind fun head => (Orderly.mapM (fun x => ?_) _).bind fun tail => ?_
    · exact (x.2.lowerAtom_orderly t).bind fun _ => .pure _
    · split
      · exact .pure _
      · exact (foldAtoms_orderly _ _).bind fun _ => .pure _

theorem Expr.lowerAtom_orderly (t : RenameTable) (e : Expr) : Orderly (e.lowerAtom t) :=
  (e.lower_orderly t).bind fun _ => .atomOf _

theorem flagOf_orderly (predicate : Rvalue) : Orderly (flagOf predicate) := by
  intro g
  refine ⟨⟨Nat.le_succ _, Nat.le_refl _, Nat.le_succ _, rfl⟩, ?_⟩
  simp [flagOf, NameSupply.takeFlag, NameSupply.takeLabel, definedLabels, NameSupply.labelsTo]

theorem combineFlags_orderly (first : String) (more : List (Connective × String)) :
    Orderly (combineFlags first more) := by
  induction more generalizing first with
  | nil => exact .pure _
  | cons x more ih =>
    exact (ih x.2).bind fun _ => Orderly.takeFlag.bind fun _ => (Orderly.tell rfl).bind fun _ => .pure _

theorem Cond.lowerFlags_orderly (t : RenameTable) (c : Cond) : Orderly (c.lowerFlags t) := by
  induction c with
  | comparison op l r s =>
    exact (l.lowerAtom_orderly t).bind fun _ => (r.lowerAtom_orderly t).bind fun _ =>
      (flagOf_orderly _).bind fun _ => .pure _
  | equality op l r s =>
    exact (l.lowerAtom_orderly t).bind fun _ => (r.lowerAtom_orderly t).bind fun _ =>
      (flagOf_orderly _).bind fun _ => .pure _
  | neg c s ih =>
    exact ih.bind fun _ => (combineFlags_orderly _ _).bind fun _ => (flagOf_orderly _).bind fun _ => .pure _
  | paren c s ih => exact ih
  | binary op l r s ihl ihr => exact ihl.bind fun _ => ihr.bind fun _ => .pure _
  | bool b s => exact (flagOf_orderly _).bind fun _ => .pure _

theorem Cond.lower_orderly (t : RenameTable) (c : Cond) : Orderly (c.lower t) :=
  (c.lowerFlags_orderly t).bind fun _ => (combineFlags_orderly _ _).bind fun _ => .pure _

/-! ### Statements -/

theorem Stmt.lower_orderly (t : RenameTable) :
    (∀ s : Stmt, Orderly (s.lower t)) ∧ ∀ ss, Orderly (Stmt.lowerAll t ss) := by
  refine Stmt.parts ?_ ?_ ?_ ?_ ?_ ?_ ?_ ?_
  · intro x e a s
    rw [Stmt.lower]
    exact (e.lower_orderly t).bind fun _ => .tell rfl
  · intro c th el s iht ihe
    rw [Stmt.lower, Block.lower, Block.lower]
    have hparts := (c.lower_orderly t).bind fun _ => iht.bind fun _ => ihe
    refine Orderly.around hparts (fun _ _ => rfl) fun labels g => ?_
    simp only [Pass.run_bind, Pass.run_tell, definedLabels_append, definedLabels_label,
      definedLabels_other (i := .ifz _ _) rfl, definedLabels_other (i := .goto _) rfl]
    rw [List.perm_iff_count]
    intro x
    simp only [List.count_append, List.count_cons, List.count_nil]
    omega
  · intro c b s ih
    rw [Stmt.lower, Block.lower]
    have hparts := (c.lower_orderly t).bind fun _ => ih
    refine Orderly.around hparts (fun _ _ => rfl) fun labels g => ?_
    simp only [Pass.run_bind, Pass.run_tell, definedLabels_append, definedLabels_label,
      definedLabels_other (i := .ifz _ _) rfl, definedLabels_other (i := .goto _) rfl]
    rw [List.perm_iff_count]
    intro x
    simp only [List.count_append, List.count_cons, List.count_nil]
    omega
  · intro c s
    rw [Stmt.lower]
    exact (Operand.lower_orderly t (.call c)).bind fun _ => .tell rfl
  · intro b s ih
    rw [Stmt.lower, Block.lower]
    exact ih
  · intro s
    rw [Stmt.lower]
    exact .pure _
  · rw [Stmt.lowerAll]
    exact .pure _
  · intro s more ihs ihmore
    rw [Stmt.lowerAll]
    exact ihs.bind fun _ => ihmore

theorem Block.lower_orderly (t : RenameTable) (b : Block) : Orderly (b.lower t) := by
  rw [Block.lower]
  exact (Stmt.lower_orderly t).2 b.nodes

/-! ### Bodies and programs -/

theorem RenameTable.register_orderly (t : RenameTable) (name : String) : Orderly (t.register name) := by
  unfold RenameTable.register
  refine Orderly.bind (Orderly.modify ?_) fun _ => .pure _
  intro g
  rfl

theorem openTable_orderly : Orderly openTable := Orderly.get fun _ => .pure _

theorem Decl.lowerLocal_orderly (t : RenameTable) (d : Decl) : Orderly (d.lowerLocal t) := by
  cases d with
  | var x type s => exact t.register_orderly x
  | const x type e s =>
    exact (e.lower_orderly t).bind fun _ => (t.register_orderly x).bind fun _ =>
      (Orderly.tell rfl).bind fun _ => .pure _

theorem Decl.lowerGlobal_orderly (t : RenameTable) (d : Decl) : Orderly (d.lowerGlobal t) := by
  cases d with
  | var x type s => exact .pure _
  | const x type e s => exact (e.lower_orderly t).bind fun _ => .tell rfl

theorem fetchParams_orderly (t : RenameTable) (index : Nat) (ps : List Param) :
    Orderly (fetchParams t index ps) := by
  induction ps generalizing index with
  | nil => exact .pure _
  | cons p more ih => exact (Orderly.tell rfl).bind fun _ => ih _

theorem Expr.lowerReturned_orderly (t : RenameTable) (e : Expr) : Orderly (e.lowerReturned t) := by
  refine (e.lower_orderly t).bind fun v => ?_
  split
  · exact (Orderly.atomOf _).bind fun _ => .pure _
  · exact .pure _

/-- A return. -/
def lowerReturn (t : RenameTable) : Option Expr → Emit Unit
  | none => Pass.tell (.ret none)
  | some value => do
    let v ← value.lowerReturned t
    Pass.tell (.ret (some v))

theorem lowerReturn_orderly (t : RenameTable) (result : Option Expr) : Orderly (lowerReturn t result) := by
  cases result with
  | none => exact .tell rfl
  | some e => exact (e.lowerReturned_orderly t).bind fun _ => .tell rfl

namespace Body

/-- The code of a body up to its statements, and its rename table. -/
def lowerStart (b : Body) : Emit RenameTable := do
  let outer ← openTable
  b.constants.forM (Decl.lowerGlobal outer)
  let params ← b.params.foldlM (fun t p => t.register p.name) outer
  fetchParams params 1 b.params
  b.decls.foldlM Decl.lowerLocal params

/-- The code of a body behind its label. -/
def lower (b : Body) (finish : RenameTable → Emit Unit) : Emit Unit := do
  let t ← b.lowerStart
  Block.lower t b.block
  finish t

theorem lowerStart_orderly (b : Body) : Orderly b.lowerStart := by
  refine openTable_orderly.bind fun _ => ?_
  refine (Orderly.forM (Decl.lowerGlobal_orderly _) _).bind fun _ => ?_
  refine (Orderly.foldlM (fun t p => t.register_orderly p.name) _ _).bind fun params => ?_
  exact (fetchParams_orderly _ _ _).bind fun _ => .foldlM Decl.lowerLocal_orderly _ _

theorem lower_orderly (b : Body) {finish : RenameTable → Emit Unit} (hf : ∀ t, Orderly (finish t)) :
    Orderly (b.lower finish) :=
  b.lowerStart_orderly.bind fun t => (b.block.lower_orderly t).bind fun _ => hf t

end Body

/-- A function is lowered as its label and its body; then the next ordinal is due. -/
theorem Func.lower_eq (f : Func) : f.lower = (do
    Pass.tell (.label f.name)
    f.asBody.lower (lowerReturn · f.returnValue)
    Pass.modify fun g => { g with names := g.names.nextOrdinal }) := by
  unfold Func.lower Body.lower Body.lowerStart
  cases hr : f.returnValue <;> simp [Func.asBody, lowerReturn, hr]

/-- The main part is lowered as its label and its body. -/
theorem Program.lowerMain_eq (p : Program) : p.lowerMain = (do
    Pass.tell (.label "main")
    p.mainBody.lower fun _ => Pass.tell (.call exitRoutine 0)) := by
  unfold Program.lowerMain Body.lower Body.lowerStart
  simp [Program.mainBody, fetchParams]

/-- The code of a function behind its label. -/
def Func.lowerWithin (f : Func) : Emit Unit := f.asBody.lower (lowerReturn · f.returnValue)

/-- The code of the main part behind its label. -/
def Program.lowerMainWithin (p : Program) : Emit Unit :=
  p.mainBody.lower fun _ => Pass.tell (.call exitRoutine 0)

theorem Func.lowerWithin_orderly (f : Func) : Orderly f.lowerWithin :=
  f.asBody.lower_orderly fun t => lowerReturn_orderly t _

theorem Program.lowerMainWithin_orderly (p : Program) : Orderly p.lowerMainWithin :=
  p.mainBody.lower_orderly fun _ => .tell rfl

theorem Func.run_lower (f : Func) (g : Generator) :
    f.lower.run g = ⟨(), { (f.lowerWithin.run g).state with
      names := (f.lowerWithin.run g).state.names.nextOrdinal }, .label f.name :: (f.lowerWithin.run g).record⟩ := by
  rw [lower_eq, lowerWithin]
  simp

theorem Program.run_lowerMain (p : Program) (g : Generator) :
    p.lowerMain.run g = ⟨(), (p.lowerMainWithin.run g).state,
      .label "main" :: (p.lowerMainWithin.run g).record⟩ := by
  rw [lowerMain_eq, lowerMainWithin]
  simp

/-! ### Programs -/

/-- The generator behind some functions. -/
def Generator.behind (g : Generator) (fs : List Func) : Generator := ((fs.forM Func.lower).run g).state

/-- The code of some functions. -/
def Func.codeOf (fs : List Func) (g : Generator) : List Instruction := ((fs.forM Func.lower).run g).record

theorem Func.codeOf_append (fs more : List Func) (g : Generator) :
    Func.codeOf (fs ++ more) g = Func.codeOf fs g ++ Func.codeOf more (g.behind fs) := by
  unfold codeOf Generator.behind
  rw [List.forM_eq_forM, List.forM_append]
  rfl

theorem Generator.behind_cons (g : Generator) (f : Func) (more : List Func) :
    g.behind (f :: more) = (f.lower.run g).state.behind more := rfl

theorem Func.codeOf_cons (f : Func) (more : List Func) (g : Generator) :
    Func.codeOf (f :: more) g = (f.lower.run g).record ++ Func.codeOf more (f.lower.run g).state := rfl

/-- The next ordinal is due behind a function. -/
theorem Func.ordinal_lower (f : Func) (g : Generator) :
    (f.lower.run g).state.names.ordinal = g.names.ordinal + 1 := by
  have hwithin : (f.lowerWithin.run g).state.names.ordinal = g.names.ordinal :=
    (f.lowerWithin_orderly g).grows.ordinal
  rw [f.run_lower, ← hwithin]
  rfl

/-- The ordinal of a body counts the functions before it. -/
theorem Generator.ordinal_behind (g : Generator) (fs : List Func) :
    (g.behind fs).names.ordinal = g.names.ordinal + fs.length := by
  induction fs generalizing g with
  | nil => rfl
  | cons f more ih =>
    rw [behind_cons, ih, f.ordinal_lower, List.length_cons]
    omega

/-- The code of a program is that of its functions and then that of its main part. -/
theorem Program.code_eq (p : Program) : p.code = Func.codeOf p.funcs .first ++
    .label "main" :: (p.lowerMainWithin.run (Generator.first.behind p.funcs)).record := by
  have hcode : p.code = Func.codeOf p.funcs .first ++
      (p.lowerMain.run (Generator.first.behind p.funcs)).record := rfl
  rw [hcode, p.run_lowerMain]

/-- A program leaves what its main part leaves behind the functions. -/
theorem Program.state_lower (p : Program) (g : Generator) :
    (p.lower.run g).state = (p.lowerMainWithin.run (g.behind p.funcs)).state := by
  have hstate : (p.lower.run g).state = (p.lowerMain.run (g.behind p.funcs)).state := rfl
  rw [hstate, p.run_lowerMain]

/-- The ordinal that a program leaves counts its functions. -/
theorem Program.ordinal_lower (p : Program) (g : Generator) :
    (p.lower.run g).state.names.ordinal = g.names.ordinal + p.funcs.length := by
  rw [p.state_lower, (p.lowerMainWithin_orderly _).grows.ordinal, g.ordinal_behind]

/-- A function defines its own name and the labels that it takes. -/
theorem Func.labels_lower (f : Func) (g : Generator) :
    g.names.label ≤ (f.lower.run g).state.names.label ∧
      (definedLabels (f.lower.run g).record).Perm
        (f.name :: g.names.labelsTo (f.lower.run g).state.names) := by
  have hwithin := f.lowerWithin_orderly g
  rw [run_lower]
  exact ⟨hwithin.grows.label, hwithin.labels.cons f.name⟩

theorem Func.labels_codeOf (fs : List Func) (g : Generator) :
    g.names.label ≤ (g.behind fs).names.label ∧
      (definedLabels (Func.codeOf fs g)).Perm
        (fs.map (·.name) ++ g.names.labelsTo (g.behind fs).names) := by
  induction fs generalizing g with
  | nil => exact ⟨Nat.le_refl _, by simp [definedLabels, NameSupply.labelsTo, codeOf, Generator.behind]⟩
  | cons f more ih =>
    obtain ⟨hgrows, hlabels⟩ := f.labels_lower g
    obtain ⟨hgrows', hlabels'⟩ := ih (f.lower.run g).state
    refine ⟨Nat.le_trans hgrows hgrows', ?_⟩
    rw [codeOf_cons, definedLabels_append, Generator.behind_cons,
      ← NameSupply.labelsTo_append hgrows hgrows', List.map_cons, List.cons_append]
    refine (hlabels.append hlabels').trans ?_
    rw [List.cons_append, ← List.append_assoc, ← List.append_assoc]
    exact (List.perm_append_comm.append_right _).cons _

/-- The labels of a program are the names of the functions, `main`, and the labels up to those of the supply that it
leaves. -/
theorem Program.labels_taken (p : Program) : 1 ≤ (p.lower.run .first).state.names.label ∧
    (definedLabels p.code).Perm (p.funcs.map (·.name) ++
      "main" :: NameSupply.first.labelsTo (p.lower.run .first).state.names) := by
  obtain ⟨hgrows, hlabels⟩ := Func.labels_codeOf p.funcs .first
  have hmain := p.lowerMainWithin_orderly (Generator.first.behind p.funcs)
  rw [p.state_lower]
  refine ⟨Nat.le_trans hgrows hmain.grows.label, ?_⟩
  rw [p.code_eq, definedLabels_append]
  refine (hlabels.append (hmain.labels.cons "main")).trans ?_
  rw [List.append_assoc]
  refine List.Perm.append_left _ (List.perm_middle.trans (List.Perm.cons _ ?_))
  rw [NameSupply.labelsTo_append hgrows hmain.grows.label]
  rfl

/-- **Labels of a program.**  Its code defines the names of the functions, `main`, and the labels that were
taken, each once. -/
theorem Program.labels_code (p : Program) : ∃ n, (definedLabels p.code).Perm
    (p.funcs.map (·.name) ++ "main" :: (List.range' 1 n).map labelName) :=
  ⟨_, p.labels_taken.2⟩

/-- The code of a program whose functions have proper names defines no label twice. -/
theorem Program.nodup_labels {p : Program} (hnames : ProperNames (p.funcs.map (·.name)))
    (hmain : ∀ f ∈ p.funcs, f.name ≠ "main") : (definedLabels p.code).Nodup := by
  obtain ⟨n, hn⟩ := p.labels_code
  rw [hn.nodup_iff, List.nodup_append, List.nodup_cons]
  have hlabel : ∀ x ∈ (List.range' 1 n).map labelName, isReservedName x = true := by
    intro x hx
    obtain ⟨k, -, rfl⟩ := List.mem_map.1 hx
    exact isReservedName_labelName k
  have hfunc : ∀ x ∈ p.funcs.map (·.name), x ≠ "main" := by
    intro x hx
    obtain ⟨f, hf, rfl⟩ := List.mem_map.1 hx
    exact hmain f hf
  refine ⟨hnames.distinct, ⟨fun h => ?_, ?_⟩, ?_⟩
  · exact absurd (hlabel _ h) (by decide)
  · exact List.Nodup.map (fun _ _ => NameSupply.labelName_inj) List.nodup_range'
  · rintro x hx y hy rfl
    rcases List.mem_cons.1 hy with rfl | hy
    · exact hfunc _ hx rfl
    · have hreserved := hlabel x hy
      rw [hnames.unreserved x hx] at hreserved
      cases hreserved

/-- In a list whose selected values differ, a value is selected at one place. -/
theorem place_unique {α β : Type} {f : α → Option β} {l : List α} (h : (l.filterMap f).Nodup) {i j : Nat}
    {x y : α} {b : β} (hi : l[i]? = some x) (hx : f x = some b) (hj : l[j]? = some y) (hy : f y = some b) :
    i = j := by
  induction l generalizing i j with
  | nil => simp at hi
  | cons z more ih =>
    have hmem : ∀ {k : Nat} {w : α}, more[k]? = some w → f w = some b → b ∈ more.filterMap f :=
      fun hk hw => List.mem_filterMap.2 ⟨_, List.mem_of_getElem? hk, hw⟩
    have hmore : (more.filterMap f).Nodup := by
      rw [List.filterMap_cons] at h
      split at h
      · exact h
      · exact (List.nodup_cons.1 h).2
    have hfirst : ∀ {k : Nat} {w : α}, f z = some b → more[k]? = some w → f w = some b → False := by
      intro k w hz hk hw
      rw [List.filterMap_cons_some hz] at h
      exact (List.nodup_cons.1 h).1 (hmem hk hw)
    cases i with
    | zero =>
      cases j with
      | zero => rfl
      | succ j =>
        cases hi
        exact (hfirst hx hj hy).elim
    | succ i =>
      cases j with
      | zero =>
        cases hj
        exact (hfirst hy hi hx).elim
      | succ j => rw [ih hmore hi hj]

/-- Code that defines no label twice can be run without ambiguity. -/
theorem unambiguous_of_nodup {M : Machine} (h : (definedLabels M.code).Nodup) : M.Unambiguous :=
  fun _ _ _ hi hj => place_unique h hi rfl hj rfl

end ThreeAddress
