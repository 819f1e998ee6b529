import ThreeAddress.Proofs.TypedPrograms

/-!
# What code calls

Code that can be typed calls only routines which the types know.  A body that is in order in a view can be typed
when no routines are known but the functions of that view, and so it calls only those.

* `Instruction.callee?` — the routine that an instruction calls;
* `Typing.Checks.knows_callee` — typed code calls known routines;
* `View.Declares`, `Program.viewAt_declares` — the functions that a body has in view are those before it;
* `Typing.knowing` — the types that know only some of the routines;
* `Func.callees`, `Program.callees_main` — what the code of each body calls.
-/

namespace ThreeAddress

/-! ### Callees -/

/-- The routine that a right-hand side calls. -/
def Rvalue.callee? : Rvalue → Option String
  | .call name _ => some name
  | _ => none

/-- The routine that an instruction calls. -/
def Instruction.callee? : Instruction → Option String
  | .call name _ => some name
  | .assign _ value | .ifz value _ | .ret (some value) => value.callee?
  | _ => none

namespace Typing

variable {T : Typing}

theorem Has.knows_callee {types : List Ty} {r : Rvalue} {type : Ty} (h : T.Has types r type) {f : String}
    (hf : r.callee? = some f) : ∃ s, T.routine? f = some s := by
  cases h with
  | call hs =>
    cases hf
    exact ⟨_, hs⟩
  | _ => cases hf

theorem Step.knows_callee {a b : Point} {i : Instruction} (h : T.Step a i b) {f : String}
    (hf : i.callee? = some f) : ∃ s, T.routine? f = some s := by
  cases h with
  | assign hr _ | ifz hr | ret _ _ hr => exact hr.knows_callee hf
  | call hr => exact hr.knows_callee (r := .call _ _) hf
  | _ => cases hf

/-- Each instruction of typed code is in order. -/
theorem Checks.exists_step {a b : Point} {code : List Instruction} (h : T.Checks a code b) {i : Instruction}
    (hi : i ∈ code) : ∃ c d, T.Step c i d := by
  induction h with
  | nil => cases hi
  | cons hstep _ ih =>
    rcases List.mem_cons.1 hi with rfl | hi
    · exact ⟨_, _, hstep⟩
    · exact ih hi

/-- Typed code calls only routines that the types know. -/
theorem Checks.knows_callee {a b : Point} {code : List Instruction} (h : T.Checks a code b) {i : Instruction}
    (hi : i ∈ code) {f : String} (hf : i.callee? = some f) : ∃ s, T.routine? f = some s := by
  obtain ⟨c, d, hstep⟩ := h.exists_step hi
  exact hstep.knows_callee hf

/-! ### Types that know fewer routines -/

/-- The same types, when only some of the routines are known. -/
def knowing (T : Typing) (names : List String) : Typing :=
  { T with routine? := fun f => if f ∈ names then T.routine? f else none }

theorem mem_of_knowing {names : List String} {f : String} {s : Signature}
    (h : (T.knowing names).routine? f = some s) : f ∈ names := by
  by_contra hf
  have hnone : (T.knowing names).routine? f = none := if_neg hf
  rw [hnone] at h
  cases h

end Typing

/-- The functions in a view are among some names. -/
def View.Declares (v : View) (names : List String) : Prop :=
  ∀ f result params, v.globals.lookup f = some (.func result params) → f ∈ names

namespace Typing

variable {T : Typing} {v : View} {names : List String}

theorem Knows.knowing {t : RenameTable} (h : T.Knows v t) (hv : v.Declares names) :
    (T.knowing names).Knows v t :=
  ⟨h.covers, h.locals, h.globals, fun hf => (if_pos (hv _ _ _ hf)).trans (h.routines hf), h.flags⟩

theorem Opens.knowing {b : Body} {k : Nat} (h : T.Opens b v k) (hv : v.Declares names) :
    (T.knowing names).Opens b v k :=
  ⟨h.nothing.knowing fun _ _ _ hf => (by cases hf), h.enter.knowing hv, h.constants, h.body.params, h.body.decls⟩

theorem Admits.knowing {f : Func} {k : Nat} (h : T.Admits f v k) (hv : v.Declares names) (hf : f.name ∈ names) :
    (T.knowing names).Admits f v k :=
  ⟨h.inOrder, h.plain, h.unreserved, h.opens.knowing hv, (if_pos hf).trans h.routine⟩

end Typing

/-! ### Functions in view -/

namespace View.Declares

variable {v : View} {names : List String}

theorem declare (h : v.Declares names) (hv : v.locals = none) {x : String} {b : Binding}
    (hb : ∀ result params, b = .func result params → x ∈ names) : (v.declare x b).Declares names := by
  rw [View.declare, hv]
  intro f result params hf
  rcases lookup_cons_eq_some hf with ⟨rfl, rfl⟩ | hf
  · exact hb _ _ rfl
  · exact h f result params hf

theorem ownView (h : v.Declares names) (hv : v.locals = none) {f : Func} (hf : f.name ∈ names) :
    (f.ownView v).Declares names := h.declare hv fun _ _ _ => hf

end View.Declares

namespace Program

variable (p : Program)

theorem globalView_declares : p.globalView.Declares [] := by
  have hv : View.empty.locals = none := rfl
  have hnone : View.empty.Declares [] := fun _ _ _ hf => by cases hf
  unfold globalView View.declareAll
  generalize View.empty = v at hv hnone
  induction p.decls generalizing v with
  | nil => exact hnone
  | cons d more ih =>
    have hlocals : (v.declare d.name d.binding).locals = none := by rw [View.declare, hv]
    refine ih _ hlocals (hnone.declare hv fun _ _ hb => ?_)
    cases d <;> cases hb

/-- Before a function, no functions are in view but the earlier ones. -/
theorem viewAt_declares (i : Nat) : (p.viewAt i).Declares ((p.funcs.take i).map (·.name)) := by
  have hv := p.globalView_locals.1
  have hnone : p.globalView.Declares ((p.funcs.take i).map (·.name)) :=
    fun f result params hf => absurd (p.globalView_declares f result params hf) List.not_mem_nil
  have hmem : ∀ f ∈ p.funcs.take i, f.name ∈ (p.funcs.take i).map (·.name) := fun f hf => List.mem_map_of_mem hf
  unfold viewAt
  generalize (p.funcs.take i).map (·.name) = names at hnone hmem ⊢
  generalize p.globalView = v at hv hnone ⊢
  generalize p.funcs.take i = fs at hmem ⊢
  induction fs generalizing v with
  | nil => exact hnone
  | cons f more ih =>
    obtain ⟨hf, hmore⟩ := List.forall_mem_cons.1 hmem
    refine ih (f.viewAfter v) rfl ?_ hmore
    have hglobals : (f.viewAfter v).globals = (f.ownView v).globals := (f.bodyView_after_inside _ _).2
    intro g result params hg
    rw [hglobals] at hg
    exact hnone.ownView hv hf g result params hg

variable {p} {i : Nat} {f : Func} {g : Generator} {ins : Instruction} {callee : String}

/-- The code of a function calls itself and earlier functions only. -/
theorem WellFormed.callees_func (hw : p.WellFormed) (hs : p.Spelled) (hf : p.funcs[i]? = some f)
    (hg : g.names.ordinal = i + 1) (hins : ins ∈ (f.lower.run g).record) (hc : ins.callee? = some callee) :
    callee ∈ (p.funcs.take (i + 1)).map (·.name) := by
  have hmem : f.name ∈ (p.funcs.take (i + 1)).map (·.name) := by
    rw [List.take_add_one, hf]
    simp
  have hview : (p.viewAt i).Declares ((p.funcs.take (i + 1)).map (·.name)) := by
    intro h result params hh
    have hearlier := p.viewAt_declares i h result params hh
    rw [List.take_add_one, List.map_append]
    exact List.mem_append_left _ hearlier
  have hadmits := (hw.admits hs (typing_declares hw hs) hf).knowing (hview.ownView (hw.viewAt i).1 hmem) hmem
  have htypes := Func.lower_types (g := g) (a := .first) (by rw [hg]; exact hadmits) rfl
  obtain ⟨T, b, hgrows, -, hchecks, -⟩ := htypes (p.typing_spares _)
  obtain ⟨s, hknown⟩ := hchecks.knows_callee hins hc
  rw [hgrows.routine?] at hknown
  exact Typing.mem_of_knowing hknown

/-- The code of the main part calls functions only, up to the call that ends the program. -/
theorem WellFormed.callees_main (hw : p.WellFormed) (hs : p.Spelled)
    (hg : g.names.ordinal = p.funcs.length + 1) {c : List Instruction} {last : Instruction}
    (hrecord : (p.lowerMainWithin.run g).record = c ++ [last]) (hins : ins ∈ c) (hc : ins.callee? = some callee) :
    callee ∈ p.funcs.map (·.name) := by
  obtain ⟨hbody, hopens⟩ := hw.opensMain (typing_declares hw hs)
  have hview : p.mainView.Declares (p.funcs.map (·.name)) := by
    have h := p.viewAt_declares p.funcs.length
    rwa [p.viewAt_length, List.take_length] at h
  have hopens := hopens.knowing hview
  rw [← hg] at hopens
  have hsame : ((p.mainBody.lower fun _ => return).run g).record = c := by
    have hmain : (p.lowerMainWithin.run g).record =
        ((p.mainBody.lower fun _ => return).run g).record ++ [.call exitRoutine 0] := by
      simp [lowerMainWithin, Body.lower]
    exact (List.append_inj' (hmain.symm.trans hrecord) rfl).1
  have htypes : Emit.Types (p.mainBody.lower fun _ => return) g (p.typing.knowing (p.funcs.map (·.name)))
      (.entry ⟨[], .void⟩) fun _ _ _ => True :=
    Body.lower_types hbody (bodies_plain hs hw p.bodies_length) hopens rfl fun T' g' _ => .pure trivial
  obtain ⟨T, b, hgrows, -, hchecks, -⟩ := htypes (p.typing_spares _)
  rw [hsame] at hchecks
  obtain ⟨s, hknown⟩ := hchecks.knows_callee hins hc
  rw [hgrows.routine?] at hknown
  exact Typing.mem_of_knowing hknown

end Program

end ThreeAddress
