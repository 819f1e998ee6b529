import ThreeAddress.Proofs.Leaves

/-!
# Reading keeps the spelling

A routine that reads from spelled tokens delivers a spelled tree and leaves spelled tokens.

* `Outcome.Spells` — a delivery has a property, and the tokens still to come are spelled;
* `Outcome.Spells.andThen` and the like — one law for each way of putting routines together;
* `Expr.read_spells`, `Cond.read_spells`, `Stmt.read_spells`, `Func.read_spells` — the routines;
* `ofSource_spelled` — the program of a source is spelled.
-/

namespace ThreeAddress

variable {α β ω : Type} {k j : Nat} {c d : Cursor} {P : α → Prop} {Q : β → Prop}

/-- All tokens still to come are spelled. -/
def Cursor.Spelled (c : Cursor) : Prop := ∀ l ∈ c.rest, l.token.Spelled

theorem Cursor.Spelled.behind {l : Lexeme} {rest : List Lexeme} (hc : c.Spelled)
    (h : c.rest = l :: rest) : (Cursor.behind l rest).Spelled := by
  intro m hm
  exact hc m (by rw [h]; exact List.mem_cons_of_mem l hm)

theorem Cursor.Spelled.token {l : Lexeme} {rest : List Lexeme} (hc : c.Spelled)
    (h : c.rest = l :: rest) : l.token.Spelled := hc l (by rw [h]; exact List.mem_cons_self)

/-- What is delivered has a property, and what is left is spelled. -/
def Outcome.Spells (P : α → Prop) : Outcome k c α → Prop
  | .done a d _ => P a ∧ d.Spelled
  | .failed _ _ _ => True

/-! ### Putting routines together -/

namespace Outcome.Spells

theorem since {o : Outcome j d α} (h : d.size + k ≤ c.size) (ho : o.Spells P) :
    (o.since h).Spells P := by
  cases o with
  | done a e _ => exact ho
  | failed => trivial

theorem weaken {o : Outcome k c α} (ho : o.Spells P) : o.weaken.Spells P := by
  cases o with
  | done a e _ => exact ho
  | failed => trivial

theorem map {o : Outcome k c α} {f : α → β} (ho : o.Spells P) (hf : ∀ a, P a → Q (f a)) :
    (o.map f).Spells Q := by
  cases o with
  | done a e _ => exact ⟨hf a ho.1, ho.2⟩
  | failed => trivial

theorem andThen {o : Outcome k c α} {f : α → (d : Cursor) → d.size + k ≤ c.size → Outcome j d β}
    (ho : o.Spells P) (hf : ∀ a d h, P a → d.Spelled → (f a d h).Spells Q) :
    (o.andThen f).Spells Q := by
  cases o with
  | done a e h => exact (hf a e h ho.1 ho.2).since h
  | failed => trivial

end Outcome.Spells

namespace Cursor

theorem give_spells {a : α} (hc : c.Spelled) (ha : P a) : (c.give a).Spells P := ⟨ha, hc⟩

theorem takeIf_spells {pick : Token → Option α} {sort : Wanted} {wanted : String} (hc : c.Spelled)
    (hp : ∀ t a, t.Spelled → pick t = some a → P a) :
    (c.takeIf pick sort wanted).Spells fun p => P p.1 := by
  unfold takeIf
  split
  · trivial
  · rename_i l rest h
    split
    · rename_i a ha
      exact ⟨hp l.token a (hc.token h) ha, hc.behind h⟩
    · trivial

theorem expect_spells {t : Token} {wanted : String} (hc : c.Spelled) :
    (c.expect t wanted).Spells fun _ => True :=
  (takeIf_spells (P := fun _ => True) hc fun _ _ _ _ => trivial).map fun _ _ => trivial

theorem expectName_spells {wanted : String} (hc : c.Spelled) :
    (c.expectName wanted).Spells fun p => isIdentifier p.1 = true := by
  refine takeIf_spells (P := fun a => isIdentifier a = true) hc ?_
  intro t a ht ha
  cases t <;> simp only [Token.name?, Option.some.injEq, reduceCtorEq] at ha
  subst ha
  exact ht

theorem chain_spells {operator? : Token → Option ω} {join : ω → α → α → α} {n : Nat}
    {operand : (d : Cursor) → d.size < n → Outcome 1 d α}
    (hj : ∀ op a b, P a → P b → P (join op a b))
    (ho : ∀ d h, d.Spelled → (operand d h).Spells P) {left : α} {c : Cursor} {hn : c.size ≤ n}
    (hl : P left) (hc : c.Spelled) : (c.chain operator? join n operand left hn).Spells P := by
  induction hs : c.size using Nat.strongRecOn generalizing c left with
  | ind m ih =>
    rw [chain]
    split
    · exact give_spells hc hl
    · rename_i l rest h
      have hsize := behind_size h
      split
      · exact give_spells hc hl
      · rename_i op _
        refine Outcome.Spells.since _ ((ho _ (by omega) (hc.behind h)).andThen ?_)
        intro right e he hr hes
        exact ih e.size (by omega) (hj op _ _ hl hr) hes rfl

theorem many_spells {starts : Token → Bool} {n : Nat}
    {item : (d : Cursor) → d.size ≤ n → Outcome 1 d α}
    (hi : ∀ d h, d.Spelled → (item d h).Spells P) {c : Cursor} {hn : c.size ≤ n} (hc : c.Spelled) :
    (c.many starts n item hn).Spells fun as => ∀ a ∈ as, P a := by
  induction hs : c.size using Nat.strongRecOn generalizing c with
  | ind m ih =>
    rw [many]
    split
    · refine ((hi c hn hc).andThen ?_).weaken
      intro a d hd ha hds
      refine (ih d.size (by omega) hds rfl).map ?_
      intro as has b hb
      rcases List.mem_cons.1 hb with rfl | hb
      · exact ha
      · exact has b hb
    · exact give_spells hc (by simp)

theorem commaList_spells {item : (d : Cursor) → Outcome 1 d α}
    (hi : ∀ d, d.Spelled → (item d).Spells P) {c : Cursor} (hc : c.Spelled) :
    (c.commaList item).Spells fun as => ∀ a ∈ as, P a := by
  induction hs : c.size using Nat.strongRecOn generalizing c with
  | ind m ih =>
    rw [commaList]
    refine (hi c hc).andThen ?_
    intro a d hd ha hds
    split
    · exact give_spells hds (by simpa using ha)
    · rename_i l rest h
      have hsize := behind_size h
      split
      · refine Outcome.Spells.since _ ((ih (behind l rest).size (by omega) (hds.behind h) rfl).map ?_)
        intro as has b hb
        rcases List.mem_cons.1 hb with rfl | hb
        · exact ha
        · exact has b hb
      · exact give_spells hds (by simpa using ha)

end Cursor

/-! ### Expressions -/

theorem AllSpelled.append {as bs : List Atom} (ha : AllSpelled as) (hb : AllSpelled bs) :
    AllSpelled (as ++ bs) := by
  intro a h
  rcases List.mem_append.1 h with h | h
  · exact ha a h
  · exact hb a h

theorem AllSpelled.nil : AllSpelled [] := fun _ h => absurd h List.not_mem_nil

theorem AllSpelled.cons {a : Atom} {as : List Atom} (ha : a.Spelled) (has : AllSpelled as) :
    AllSpelled (a :: as) := by
  intro b hb
  rcases List.mem_cons.1 hb with rfl | hb
  · exact ha
  · exact has b hb

theorem Atom.ofToken_spelled {t : Token} {a : Atom} (ht : t.Spelled) (h : Atom.ofToken? t = some a) :
    a.Spelled := by
  cases t <;> simp only [Atom.ofToken?, Option.some.injEq, reduceCtorEq] at h
  all_goals subst h; exact ht

theorem Fragment.ofToken_spelled {t : Token} {f : Fragment} (ht : t.Spelled)
    (h : Fragment.ofToken? t = some f) : AllSpelled f.leaves := by
  cases t with
  | identifier id =>
    simp only [Fragment.ofToken?, Option.some.injEq] at h
    subst h
    exact .cons ht .nil
  | number digits =>
    simp only [Fragment.ofToken?, Option.some.injEq] at h
    split at h <;> subst h
    · exact .nil
    · exact .cons ht .nil
  | word w =>
    cases w <;> simp only [Fragment.ofToken?, Option.some.injEq, reduceCtorEq] at h
    all_goals subst h; exact .nil
  | mark m => simp [Fragment.ofToken?] at h
  | blockComment => simp [Fragment.ofToken?] at h

theorem Argument.read_spells (hc : c.Spelled) : (Argument.read c).Spells fun a => a.atom.Spelled :=
  (Cursor.takeIf_spells (P := Atom.Spelled) hc fun _ _ => Atom.ofToken_spelled).map
    fun _ ha => ha

theorem Call.readFrom_spells {name : String} {start : Span} (hc : c.Spelled) :
    (Call.readFrom name start c).Spells fun call => AllSpelled call.leaves := by
  refine (Cursor.expect_spells hc).andThen fun _ c₁ _ _ h₁ => ?_
  have hargs : (if c₁.next? = some (.mark .rightParen) then c₁.give []
      else (c₁.commaList Argument.read).weaken).Spells fun as => ∀ a ∈ as, a.atom.Spelled := by
    split
    · exact Cursor.give_spells h₁ (by simp)
    · exact (Cursor.commaList_spells (fun _ => Argument.read_spells) h₁).weaken
  refine hargs.andThen fun args c₂ _ ha h₂ => ?_
  refine (Cursor.expect_spells h₂).andThen fun _ c₃ _ _ h₃ => ?_
  refine Cursor.give_spells h₃ fun b hb => ?_
  obtain ⟨a, has, rfl⟩ := List.mem_map.1 hb
  exact ha a has

namespace Expr

/-- The property that reading expressions keeps. -/
abbrev Spelled (e : Expr) : Prop := AllSpelled e.leaves

theorem readFragment_spells (hc : c.Spelled) : (readFragment c).Spells Expr.Spelled := by
  unfold readFragment
  split
  · trivial
  · rename_i l rest h
    have h₁ := hc.behind h
    dsimp only
    split
    · split
      · trivial
      · split
        · trivial
        · rename_i m _ _ hm _ operand ho
          have hm : m.token.Spelled := hc m (by rw [hm]; simp)
          refine Outcome.Spells.since _ (Cursor.give_spells (h₁.behind rfl) ?_)
          exact AllSpelled.cons (Atom.ofToken_spelled hm ho) .nil
    · refine Outcome.Spells.since _ ((Cursor.expectName_spells h₁).map fun p hp => ?_)
      exact AllSpelled.cons hp .nil
    · split
      · rename_i f hf
        refine Outcome.Spells.since _ (Cursor.give_spells h₁ ?_)
        exact Fragment.ofToken_spelled (hc.token h) hf
      · trivial

theorem readTerm_spells (hr : ∀ d : Cursor, d.size < c.size → d.Spelled → (read d).Spells Expr.Spelled)
    (hc : c.Spelled) : (readTerm c).Spells Expr.Spelled := by
  rw [readTerm]
  split
  · refine (Cursor.expect_spells hc).andThen fun start c₁ hs _ h₁ => ?_
    refine (hr c₁ (by omega) h₁).andThen fun inner c₂ _ hi h₂ => ?_
    exact (Cursor.expect_spells h₂).andThen fun _ c₃ _ _ h₃ => Cursor.give_spells h₃ hi
  · refine (Cursor.expectName_spells hc).andThen fun p c₁ _ _ h₁ => ?_
    exact (Call.readFrom_spells h₁).map fun _ hcall => hcall
  · exact readFragment_spells hc

theorem readSum_spells_of (ht : ∀ d : Cursor, d.size ≤ c.size → d.Spelled → (readTerm d).Spells Expr.Spelled)
    (hc : c.Spelled) : (readSum c).Spells Expr.Spelled := by
  rw [readSum]
  refine (ht c (Nat.le_refl _) hc).andThen fun left d _ hl hd => ?_
  exact Cursor.chain_spells (fun _ _ _ => AllSpelled.append)
    (fun e he => ht e (Nat.le_of_lt he)) hl hd

/-- Expressions, sums and terms, by induction on the number of tokens that are left. -/
theorem reads_spell (hc : c.Spelled) :
    (read c).Spells Expr.Spelled ∧ (readSum c).Spells Expr.Spelled := by
  induction hs : c.size using Nat.strongRecOn generalizing c with
  | ind n ih =>
    have hterm : ∀ d : Cursor, d.size ≤ c.size → d.Spelled → (readTerm d).Spells Expr.Spelled :=
      fun d hd => readTerm_spells fun e he hes => (ih e.size (by omega) hes rfl).1
    have hsum : ∀ d : Cursor, d.size ≤ c.size → d.Spelled → (readSum d).Spells Expr.Spelled :=
      fun d hd => readSum_spells_of fun e he => hterm e (Nat.le_trans he hd)
    refine ⟨?_, hsum c (Nat.le_refl _) hc⟩
    rw [read]
    refine (hsum c (Nat.le_refl _) hc).andThen fun left d _ hl hd => ?_
    exact Cursor.chain_spells (fun _ _ _ => AllSpelled.append)
      (fun e he => hsum e (Nat.le_of_lt he)) hl hd

theorem read_spells (hc : c.Spelled) : (read c).Spells Expr.Spelled := (reads_spell hc).1

theorem readSum_spells (hc : c.Spelled) : (readSum c).Spells Expr.Spelled := (reads_spell hc).2

end Expr

/-! ### Conditions -/

namespace Cond

/-- The property that reading conditions keeps. -/
abbrev Spelled (e : Cond) : Prop := AllSpelled e.leaves

theorem readComparison_spells (hc : c.Spelled) : (readComparison c).Spells Cond.Spelled := by
  refine (Expr.readSum_spells hc).andThen fun left c₁ _ hl h₁ => ?_
  refine (Cursor.takeIf_spells (P := fun _ => True) h₁ fun _ _ _ _ => trivial).andThen
    fun op c₂ _ _ h₂ => ?_
  refine (Expr.readSum_spells h₂).map fun right hr => ?_
  dsimp only
  split
  · exact AllSpelled.append hl hr
  · exact AllSpelled.append hl hr

theorem readAtom_spells (hr : ∀ d : Cursor, d.size < c.size → d.Spelled →
      (read d).Spells Cond.Spelled ∧ (readAtom d).Spells Cond.Spelled)
    (hc : c.Spelled) : (readAtom c).Spells Cond.Spelled := by
  have hcmp := readComparison_spells hc
  rw [readAtom]
  split
  · rename_i cond d h hd
    rw [hd] at hcmp
    exact hcmp
  · split
    · trivial
    · rename_i l rest h
      have hs := Cursor.behind_size h
      have h₁ := hc.behind h
      dsimp only
      split
      · refine Outcome.Spells.since _ ((hr _ (by omega) h₁).2.andThen fun inner c₂ _ hi h₂ => ?_)
        exact Cursor.give_spells h₂ hi
      · refine Outcome.Spells.since _ ((hr _ (by omega) h₁).1.andThen fun inner c₂ _ hi h₂ => ?_)
        exact (Cursor.expect_spells h₂).andThen fun _ c₃ _ _ h₃ => Cursor.give_spells h₃ hi
      · exact Outcome.Spells.since _ (Cursor.give_spells h₁ AllSpelled.nil)
      · exact Outcome.Spells.since _ (Cursor.give_spells h₁ AllSpelled.nil)
      · trivial

/-- Conditions and their atoms, by induction on the number of tokens that are left. -/
theorem reads_spell (hc : c.Spelled) :
    (read c).Spells Cond.Spelled ∧ (readAtom c).Spells Cond.Spelled := by
  induction hs : c.size using Nat.strongRecOn generalizing c with
  | ind n ih =>
    have hatom : ∀ d : Cursor, d.size ≤ c.size → d.Spelled → (readAtom d).Spells Cond.Spelled :=
      fun d hd => readAtom_spells fun e he hes => ih e.size (by omega) hes rfl
    refine ⟨?_, hatom c (Nat.le_refl _) hc⟩
    rw [read]
    refine (hatom c (Nat.le_refl _) hc).andThen fun left d _ hl hd => ?_
    exact Cursor.chain_spells (fun _ _ _ => AllSpelled.append)
      (fun e he => hatom e (Nat.le_of_lt he)) hl hd

theorem read_spells (hc : c.Spelled) : (read c).Spells Cond.Spelled := (reads_spell hc).1

end Cond

/-! ### Declarations and statements -/

theorem Ty.read_spells (hc : c.Spelled) : (Ty.read c).Spells fun _ => True :=
  (Cursor.takeIf_spells (P := fun _ => True) hc fun _ _ _ _ => trivial).map fun _ _ => trivial

theorem Decl.readVar_spells (hc : c.Spelled) : (Decl.readVar c).Spells Decl.Spelled := by
  refine (Cursor.expect_spells hc).andThen fun _ c₁ _ _ h₁ => ?_
  refine (Cursor.expectName_spells h₁).andThen fun p c₂ _ hp h₂ => ?_
  refine (Cursor.expect_spells h₂).andThen fun _ c₃ _ _ h₃ => ?_
  refine (Ty.read_spells h₃).andThen fun _ c₄ _ _ h₄ => ?_
  refine (Cursor.expect_spells h₄).andThen fun _ c₅ _ _ h₅ => ?_
  exact Cursor.give_spells h₅ ⟨hp, AllSpelled.nil⟩

theorem Decl.readConst_spells (hc : c.Spelled) : (Decl.readConst c).Spells Decl.Spelled := by
  refine (Cursor.expect_spells hc).andThen fun _ c₁ _ _ h₁ => ?_
  refine (Cursor.expectName_spells h₁).andThen fun p c₂ _ hp h₂ => ?_
  refine (Cursor.expect_spells h₂).andThen fun _ c₃ _ _ h₃ => ?_
  refine (Ty.read_spells h₃).andThen fun _ c₄ _ _ h₄ => ?_
  refine (Cursor.expect_spells h₄).andThen fun _ c₅ _ _ h₅ => ?_
  refine (Expr.read_spells h₅).andThen fun _ c₆ _ hv h₆ => ?_
  refine (Cursor.expect_spells h₆).andThen fun _ c₇ _ _ h₇ => ?_
  exact Cursor.give_spells h₇ ⟨hp, hv⟩

theorem Decl.readAll_spells (hc : c.Spelled) :
    (Decl.readAll c).Spells fun ds => ∀ d ∈ ds, d.Spelled := by
  refine Cursor.many_spells (fun d _ hd => ?_) hc
  unfold Decl.read
  split
  · exact Decl.readConst_spells hd
  · exact Decl.readVar_spells hd

namespace Stmt

/-- The property that reading statements keeps. -/
abbrev Spelled (s : Stmt) : Prop := AllSpelled s.leaves

/-- The same of a block. -/
abbrev BlockSpelled (b : Block) : Prop := AllSpelled (Stmt.leavesOfList b.nodes)

theorem leavesOfList_spelled {ss : List Stmt} (h : ∀ s ∈ ss, s.Spelled) :
    AllSpelled (Stmt.leavesOfList ss) := by
  induction ss with
  | nil => exact AllSpelled.nil
  | cons s more ih =>
    exact AllSpelled.append (h s List.mem_cons_self) (ih fun t ht => h t (List.mem_cons_of_mem s ht))

theorem block_leaves_spelled {b : Block} (h : BlockSpelled b) : AllSpelled (Block.leaves b) := by
  cases b
  exact h

theorem readNamed_spells (hc : c.Spelled) : (readNamed c).Spells Stmt.Spelled := by
  refine (Cursor.expectName_spells hc).andThen fun p c₁ _ hp h₁ => ?_
  dsimp only
  split
  · refine Outcome.Spells.weaken ((Cursor.expect_spells h₁).andThen fun _ c₂ _ _ h₂ => ?_)
    refine (Expr.read_spells h₂).andThen fun value c₃ _ hv h₃ => ?_
    refine (Cursor.expect_spells h₃).andThen fun _ c₄ _ _ h₄ => Cursor.give_spells h₄ ?_
    exact AllSpelled.cons hp hv
  · refine Outcome.Spells.weaken ((Call.readFrom_spells h₁).andThen fun call c₂ _ hcall h₂ => ?_)
    exact (Cursor.expect_spells h₂).andThen fun _ c₃ _ _ h₃ => Cursor.give_spells h₃ hcall
  · trivial

theorem readSkip_spells (hc : c.Spelled) : (readSkip c).Spells Stmt.Spelled := by
  refine (Cursor.expect_spells hc).andThen fun _ c₁ _ _ h₁ => ?_
  exact (Cursor.expect_spells h₁).andThen fun _ c₂ _ _ h₂ => Cursor.give_spells h₂ AllSpelled.nil

theorem readAll_spells_of (hr : ∀ d : Cursor, d.size ≤ c.size → d.Spelled → (Stmt.read d).Spells Stmt.Spelled)
    (hc : c.Spelled) : (Stmt.readAll c).Spells fun ss => AllSpelled (Stmt.leavesOfList ss) := by
  rw [Stmt.readAll]
  have h : (c.many Stmt.goesOn c.size (fun d _ => Stmt.read d) (Nat.le_refl _)).Spells
      fun ss => ∀ s ∈ ss, s.Spelled := Cursor.many_spells hr hc
  revert h
  cases c.many Stmt.goesOn c.size (fun d _ => Stmt.read d) (Nat.le_refl _) with
  | done ss d _ => exact fun h => ⟨leavesOfList_spelled h.1, h.2⟩
  | failed => exact fun _ => trivial

theorem readBlock_spells (hr : ∀ d : Cursor, d.size < c.size → d.Spelled → (Stmt.read d).Spells Stmt.Spelled)
    (hc : c.Spelled) : (Block.read c).Spells BlockSpelled := by
  rw [Block.read]
  refine (Cursor.expect_spells hc).andThen fun _ c₁ hs _ h₁ => ?_
  refine (readAll_spells_of (fun d hd => hr d (by omega)) h₁).andThen fun ss c₂ _ hss h₂ => ?_
  split
  · trivial
  · refine Outcome.Spells.weaken ((Cursor.expect_spells h₂).andThen fun _ c₃ _ _ h₃ => ?_)
    exact Cursor.give_spells h₃ hss

/-- One statement, by induction on the number of tokens that are left. -/
theorem read_spells (hc : c.Spelled) : (Stmt.read c).Spells Stmt.Spelled := by
  induction hs : c.size using Nat.strongRecOn generalizing c with
  | ind n ih =>
    have hblock : ∀ d : Cursor, d.size ≤ c.size → d.Spelled → (Block.read d).Spells BlockSpelled :=
      fun d hd => readBlock_spells fun e he hes => ih e.size (by omega) hes rfl
    rw [Stmt.read]
    split
    · rw [Stmt.readIte]
      refine (Cursor.expect_spells hc).andThen fun _ c₁ _ _ h₁ => ?_
      refine (Cond.read_spells h₁).andThen fun cond c₂ _ hcond h₂ => ?_
      refine (hblock c₂ (by omega) h₂).andThen fun t c₃ _ ht h₃ => ?_
      refine (Cursor.expect_spells h₃).andThen fun _ c₄ _ _ h₄ => ?_
      refine (hblock c₄ (by omega) h₄).map fun e he => ?_
      exact AllSpelled.append hcond
        (AllSpelled.append (block_leaves_spelled ht) (block_leaves_spelled he))
    · rw [Stmt.readLoop]
      refine (Cursor.expect_spells hc).andThen fun _ c₁ _ _ h₁ => ?_
      refine (Cond.read_spells h₁).andThen fun cond c₂ _ hcond h₂ => ?_
      refine (hblock c₂ (by omega) h₂).map fun b hb => ?_
      exact AllSpelled.append hcond (block_leaves_spelled hb)
    · exact readSkip_spells hc
    · exact (hblock c (Nat.le_refl _) hc).map fun b hb => block_leaves_spelled hb
    · exact readNamed_spells hc
    · trivial
    · trivial
    · trivial

theorem readAll_spells (hc : c.Spelled) :
    (Stmt.readAll c).Spells fun ss => AllSpelled (Stmt.leavesOfList ss) :=
  readAll_spells_of (fun _ _ => read_spells) hc

end Stmt

/-! ### Functions and programs -/

theorem Param.read_spells (hc : c.Spelled) :
    (Param.read c).Spells fun p => isIdentifier p.name = true := by
  refine (Cursor.expectName_spells hc).andThen fun p c₁ _ hp h₁ => ?_
  refine (Cursor.expect_spells h₁).andThen fun _ c₂ _ _ h₂ => ?_
  exact (Ty.read_spells h₂).andThen fun _ c₃ _ _ h₃ => Cursor.give_spells h₃ hp

theorem Param.readAll_spells (hc : c.Spelled) :
    (Param.readAll c).Spells fun ps => ∀ p ∈ ps, isIdentifier p.name = true := by
  unfold Param.readAll
  split
  · exact Cursor.give_spells hc (by simp)
  · exact (Cursor.commaList_spells (fun _ => Param.read_spells) hc).weaken

theorem Expr.readReturned_spells (hc : c.Spelled) :
    (Expr.readReturned c).Spells fun v => ∀ e, v = some e → e.Spelled := by
  unfold Expr.readReturned
  split
  · exact Cursor.give_spells hc (by simp)
  · refine ((Expr.read_spells hc).map fun e he => ?_).weaken
    rintro _ ⟨⟩
    exact he

theorem Func.read_spells (hc : c.Spelled) : (Func.read c).Spells Func.Spelled := by
  refine (Ty.read_spells hc).andThen fun _ c₁ _ _ h₁ => ?_
  refine (Cursor.expectName_spells h₁).andThen fun p c₂ _ hname h₂ => ?_
  refine (Cursor.expect_spells h₂).andThen fun _ c₃ _ _ h₃ => ?_
  refine (Param.readAll_spells h₃).andThen fun params c₄ _ hparams h₄ => ?_
  refine (Cursor.expect_spells h₄).andThen fun _ c₅ _ _ h₅ => ?_
  refine (Cursor.expect_spells h₅).andThen fun _ c₆ _ _ h₆ => ?_
  refine (Decl.readAll_spells h₆).andThen fun decls c₇ _ hdecls h₇ => ?_
  refine (Stmt.readAll_spells h₇).andThen fun stmts c₈ _ hstmts h₈ => ?_
  refine (Cursor.expect_spells h₈).andThen fun _ c₉ _ _ h₉ => ?_
  refine (Cursor.expect_spells h₉).andThen fun _ c₁₀ _ _ h₁₀ => ?_
  refine (Expr.readReturned_spells h₁₀).andThen fun value c₁₁ _ hvalue h₁₁ => ?_
  refine (Cursor.expect_spells h₁₁).andThen fun _ c₁₂ _ _ h₁₂ => ?_
  refine (Cursor.expect_spells h₁₂).andThen fun _ c₁₃ _ _ h₁₃ => ?_
  refine (Cursor.expect_spells h₁₃).andThen fun _ c₁₄ _ _ h₁₄ => ?_
  exact Cursor.give_spells h₁₄ ⟨hname, hparams, hdecls, hstmts, hvalue⟩

theorem Main.read_spells (hc : c.Spelled) :
    (Main.read c).Spells fun m =>
      (∀ d ∈ m.decls, d.Spelled) ∧ AllSpelled (Stmt.leavesOfList m.body.nodes) := by
  unfold Main.read
  split
  · trivial
  · refine (Cursor.expect_spells hc).andThen fun _ c₁ _ _ h₁ => ?_
    refine (Cursor.expect_spells h₁).andThen fun _ c₂ _ _ h₂ => ?_
    refine (Decl.readAll_spells h₂).andThen fun decls c₃ _ hdecls h₃ => ?_
    refine (Stmt.readAll_spells h₃).andThen fun stmts c₄ _ hstmts h₄ => ?_
    split
    · trivial
    · refine Outcome.Spells.weaken ((Cursor.expect_spells h₄).andThen fun _ c₅ _ _ h₅ => ?_)
      exact Cursor.give_spells h₅ ⟨hdecls, hstmts⟩

theorem Program.read_spells (hc : c.Spelled) : (Program.read c).Spells Program.Spelled := by
  refine (Decl.readAll_spells hc).andThen fun decls c₁ _ hdecls h₁ => ?_
  refine (Cursor.many_spells (fun _ _ => Func.read_spells) h₁).andThen fun funcs c₂ _ hfuncs h₂ => ?_
  refine (Main.read_spells h₂).weaken.andThen fun main c₃ _ hmain h₃ => ?_
  split
  · trivial
  · exact Cursor.give_spells h₃ ⟨hdecls, hfuncs, hmain.1, hmain.2⟩

/-- **Programs are spelled.**  All names and numerals of a program that a source spells have their form. -/
theorem ofSource_spelled {source : String} {p : Program} (h : Program.ofSource source = .ok p) :
    p.Spelled := by
  unfold Program.ofSource at h
  cases hl : tokenize source with
  | error fault => rw [hl] at h; cases h
  | ok ls =>
    rw [hl] at h
    replace h : (Program.read (.ofLexemes ls)).result = .ok p := h
    have hr := Program.read_spells (c := .ofLexemes ls) (tokenize_spelled hl)
    cases ho : Program.read (.ofLexemes ls) with
    | done q d _ =>
      rw [ho] at h hr
      cases h
      exact hr.1
    | failed f d _ => rw [ho] at h; cases h

end ThreeAddress
