import ThreeAddress.Proofs.WrittenText

/-!
# Writing and reading again

What a routine reads from the tokens of a source can be written and read again.  The text of the tree scans
to the very tokens that the routine has taken.  The same routine, put before these tokens alone, takes all of
them and builds the same tree up to its spans: it reads a derivable phrase to its end, what it builds is a
parse tree of its tokens, and there is only one.

* `ReadBack`, `ReadsBack` — a tree that was read comes back, and every tree that a routine reads does;
* `readBack` — from what a routine takes, what it leaves, and what tells its trees apart;
* `Decl.readVar_isVar`, `Expr.readFragment_isFragment`, `Cond.readComparison_compares` — the trees that a
  routine for one kind of node builds;
* `readsBack_of_tokenize` — the routines for expressions, conditions, declarations, parameters and plain
  statements.
-/

namespace ThreeAddress

variable {α : Type} {k : Nat} {c d : Cursor} {ts w : List Token}

/-! ### Trees that come back -/

/-- The value that a routine has built between two places can be written and read again: its text scans to
the tokens taken, and from these tokens alone the routine builds the same value up to spans and leaves
nothing. -/
def ReadBack (routine : (c : Cursor) → Outcome k c α) (text : α → String) (bare : α → α) (c d : Cursor)
    (a : α) : Prop :=
  ∃ w, c.tokens = w ++ d.tokens ∧ (∃ ls, tokenize (text a) = .ok ls ∧ ls.map (·.token) = w) ∧
    ∀ c' : Cursor, c'.tokens = w → ∃ a' d' h', routine c' = .done a' d' h' ∧ d'.rest = [] ∧ bare a' = bare a

/-- Whatever a routine builds from a place on can be written and read again. -/
def ReadsBack (routine : (c : Cursor) → Outcome k c α) (text : α → String) (bare : α → α) (c : Cursor) : Prop :=
  ∀ a d h, routine c = .done a d h → ReadBack routine text bare c d a

/-- A value comes back if the routine reads its tokens to the end, its tokens tell it, and its text is written
with them. -/
theorem readBack {routine : (c : Cursor) → Outcome k c α} {text : α → String} {bare : α → α}
    {tokens : α → List Token} {P : α → Prop} {a : α} {hd : d.size + k ≤ c.size}
    (htake : ∀ c, (routine c).Consumes fun a w => P a ∧ w = tokens a) (h : routine c = .done a d hd)
    (hleave : P a → ∀ c' : Cursor, c'.tokens = tokens a → (routine c').Leaves [])
    (hunique : P a → ∀ a', P a' → tokens a = tokens a' → bare a = bare a')
    (hwrite : (∀ t ∈ tokens a, t.Written) → Writes NoWordPart (text a) (tokens a))
    (hc : ∀ t ∈ c.tokens, t.Written) : ReadBack routine text bare c d a := by
  have htaken := htake c
  rw [h] at htaken
  obtain ⟨w, hw, hP, rfl⟩ := htaken
  have hwritten : ∀ t ∈ tokens a, t.Written := fun t ht => hc t (by rw [hw]; exact List.mem_append_left _ ht)
  refine ⟨tokens a, hw, (hwrite hwritten).tokenize, fun c' hc' => ?_⟩
  obtain ⟨d', ⟨a', hd', hdone⟩, hnone⟩ := hleave hP c' hc'
  have hagain := htake c'
  rw [hdone] at hagain
  obtain ⟨w', hw', hP', rfl⟩ := hagain
  rw [hnone, List.append_nil, hc'] at hw'
  exact ⟨a', d', hd', hdone, List.map_eq_nil_iff.1 hnone, (hunique hP a' hP' hw').symm⟩

/-- Two things known of what a routine takes are known together. -/
theorem Outcome.Consumes.and {o : Outcome k c α} {R Q : α → List Token → Prop} (hR : o.Consumes R)
    (hQ : o.Consumes Q) : o.Consumes fun a w => R a w ∧ Q a w := by
  cases o with
  | failed => trivial
  | done a d hd =>
    obtain ⟨w, hw, hr⟩ := hR
    obtain ⟨w', hw', hq⟩ := hQ
    obtain rfl := List.append_cancel_right (hw.symm.trans hw')
    exact ⟨w, hw, hr, hq⟩

/-! ### Routines for one kind of node -/

/-- A variable is declared. -/
def Decl.IsVar : Decl → Prop
  | .var _ _ _ => True
  | .const _ _ _ _ => False

theorem Decl.readVar_isVar : (readVar c).Consumes fun d w => (d.Parses ∧ d.IsVar) ∧ w = d.tokens := by
  have hkind : (readVar c).Consumes fun d _ => d.IsVar := by
    refine Cursor.expect_consumes.andThen fun _ _ _ _ _ => ?_
    refine Cursor.expectName_consumes.andThen fun _ _ _ _ _ => ?_
    refine Cursor.expect_consumes.andThen fun _ _ _ _ _ => ?_
    refine Ty.read_consumes.andThen fun _ _ _ _ _ => ?_
    exact Cursor.expect_consumes.andThen fun _ _ _ _ _ => Cursor.give_consumes trivial
  exact (readVar_parses.and hkind).imp fun d w h => ⟨⟨h.1.1, h.2⟩, h.1.2⟩

theorem Decl.readConst_isConst : (readConst c).Consumes fun d w => (d.Parses ∧ ¬ d.IsVar) ∧ w = d.tokens := by
  have hkind : (readConst c).Consumes fun d _ => ¬ d.IsVar := by
    refine Cursor.expect_consumes.andThen fun _ _ _ _ _ => ?_
    refine Cursor.expectName_consumes.andThen fun _ _ _ _ _ => ?_
    refine Cursor.expect_consumes.andThen fun _ _ _ _ _ => ?_
    refine Ty.read_consumes.andThen fun _ _ _ _ _ => ?_
    refine Cursor.expect_consumes.andThen fun _ _ _ _ _ => ?_
    refine Expr.read_parses.andThen fun _ _ _ _ _ => ?_
    exact Cursor.expect_consumes.andThen fun _ _ _ _ _ => Cursor.give_consumes id
  exact (readConst_parses.and hkind).imp fun d w h => ⟨⟨h.1.1, h.2⟩, h.1.2⟩

namespace Expr

/-- An expression that is a fragment. -/
def IsFragment : Expr → Prop
  | .fragment _ _ => True
  | _ => False

theorem readFragment_isFragment :
    (readFragment c).Consumes fun e w => (e.Parses .term ∧ e.IsFragment) ∧ w = e.tokens := by
  have hkind : (readFragment c).Consumes fun e _ => e.IsFragment := by
    unfold readFragment
    split
    · trivial
    · rename_i l rest h
      have h₁ := Cursor.tokens_of_rest h
      dsimp only
      split
      · split
        · trivial
        · split
          · trivial
          · rename_i m _ more _ _ operand _
            exact ⟨[l.token, m.token], by rw [h₁]; rfl, trivial⟩
      · refine Outcome.Consumes.since (u := [l.token]) _ h₁ ?_
        exact Cursor.expectName_consumes.map fun _ _ _ => trivial
      · split
        · exact Outcome.Consumes.since (u := [l.token]) _ h₁ (Cursor.give_consumes trivial)
        · trivial
  exact (readFragment_consumes.and hkind).imp fun e w h => ⟨⟨h.1.1, h.2⟩, h.1.2⟩

end Expr

theorem Cond.readComparison_compares :
    (readComparison c).Consumes fun e w => (e.Parses .catom ∧ e.Compares) ∧ w = e.tokens := by
  have hkind : (readComparison c).Consumes fun e _ => e.Compares := by
    refine Expr.readSum_parses.andThen fun left c₁ _ u hl => ?_
    refine Cursor.takeIf_consumes.andThen fun p c₂ _ v hv => ?_
    refine Expr.readSum_parses.map fun right w hr => ?_
    cases p.1 <;> exact trivial
  exact (readComparison_parses.and hkind).imp fun e w h => ⟨⟨h.1.1, h.2⟩, h.1.2⟩

/-! ### Every routine -/

theorem Expr.read_readsBack (hc : ∀ t ∈ c.tokens, t.Written) :
    ReadsBack Expr.read Expr.text Expr.withoutSpans c := fun _ _ _ h =>
  readBack (fun _ => read_parses) h
    (fun hp _ hc' => read_leaves hp.derives .nil (by rw [hc', List.append_nil]))
    (fun hp _ hp' => hp.unique hp') writes hc

theorem Expr.readSum_readsBack (hc : ∀ t ∈ c.tokens, t.Written) :
    ReadsBack Expr.readSum Expr.text Expr.withoutSpans c := fun _ _ _ h =>
  readBack (fun _ => readSum_parses) h
    (fun hp _ hc' => readSum_leaves hp.derives .nil (by rw [hc', List.append_nil]))
    (fun hp _ hp' => hp.unique hp') writes hc

theorem Expr.readTerm_leaves {e : Expr} (h : e.Parses .term) (hc : c.tokens = e.tokens) :
    (readTerm c).Leaves [] :=
  readTerm_reads (fun m _ => (reads_all m).2) e.tokens [] c h.derives (Nat.le_refl _) .nil
    (by rw [hc, List.append_nil])

theorem Expr.readTerm_readsBack (hc : ∀ t ∈ c.tokens, t.Written) :
    ReadsBack Expr.readTerm Expr.text Expr.withoutSpans c := fun _ _ _ h =>
  readBack (fun _ => readTerm_parses) h (fun hp _ => readTerm_leaves hp)
    (fun hp _ hp' => hp.unique hp') writes hc

theorem Expr.readFragment_readsBack (hc : ∀ t ∈ c.tokens, t.Written) :
    ReadsBack Expr.readFragment Expr.text Expr.withoutSpans c := by
  intro e d hd h
  refine readBack (fun _ => readFragment_isFragment) h (fun hp c' hc' => ?_)
    (fun hp _ hp' => hp.1.unique hp'.1) writes hc
  obtain ⟨-, hkind⟩ := hp
  cases e with
  | fragment f s => exact readFragment_leaves f.derives_tokens (by rw [hc', List.append_nil]; rfl)
  | _ => exact hkind.elim

theorem Cond.read_readsBack (hc : ∀ t ∈ c.tokens, t.Written) :
    ReadsBack Cond.read Cond.text Cond.withoutSpans c := fun _ _ _ h =>
  readBack (fun _ => read_parses) h
    (fun hp _ hc' => read_leaves hp.derives .nil (by rw [hc', List.append_nil]))
    (fun hp _ hp' => hp.unique hp') writes hc

theorem Cond.readAtom_leaves {e : Cond} (h : e.Parses .catom) (hc : c.tokens = e.tokens) :
    (readAtom c).Leaves [] :=
  (reads_all e.tokens.length).1 e.tokens [] c h.derives (Nat.le_refl _) .nil (by rw [hc, List.append_nil])

theorem Cond.readAtom_readsBack (hc : ∀ t ∈ c.tokens, t.Written) :
    ReadsBack Cond.readAtom Cond.text Cond.withoutSpans c := fun _ _ _ h =>
  readBack (fun _ => reads_consume.2) h (fun hp _ => readAtom_leaves hp)
    (fun hp _ hp' => hp.unique hp') writes hc

theorem Cond.readComparison_readsBack (hc : ∀ t ∈ c.tokens, t.Written) :
    ReadsBack Cond.readComparison Cond.text Cond.withoutSpans c := fun _ _ _ h =>
  readBack (fun _ => readComparison_compares) h (fun hp _ => hp.1.readComparison_leaves hp.2)
    (fun hp _ hp' => hp.1.unique hp'.1) writes hc

theorem Decl.readVar_readsBack (hc : ∀ t ∈ c.tokens, t.Written) :
    ReadsBack Decl.readVar Decl.text Decl.withoutSpans c := by
  intro e d hd h
  refine readBack (fun _ => readVar_isVar) h (fun hp c' hc' => ?_)
    (fun hp _ hp' => hp.1.unique hp'.1) (fun hw => (writes hw).weaken) hc
  cases e with
  | var name type s => exact readVar_leaves (derives_typedTokens name type) hc'
  | const => exact hp.2.elim

theorem Decl.readConst_readsBack (hc : ∀ t ∈ c.tokens, t.Written) :
    ReadsBack Decl.readConst Decl.text Decl.withoutSpans c := by
  intro e d hd h
  refine readBack (fun _ => readConst_isConst) h (fun hp c' hc' => ?_)
    (fun hp _ hp' => hp.1.unique hp'.1) (fun hw => (writes hw).weaken) hc
  cases e with
  | var => exact absurd trivial hp.2
  | const name type value s =>
    exact readConst_leaves (derives_typedTokens name type) (Expr.Parses.derives hp.1) (by simp [hc', tokens])

theorem Param.read_readsBack (hc : ∀ t ∈ c.tokens, t.Written) :
    ReadsBack Param.read Param.text Param.withoutSpans c := fun p _ _ h =>
  readBack (P := fun _ => True) (fun _ => read_consumes.imp fun _ _ hw => ⟨trivial, hw⟩) h
    (fun _ _ hc' => read_leaves (derives_typedTokens p.name p.type) (by rw [hc', List.append_nil]))
    (fun _ _ _ => withoutSpans_of_tokens) writes hc

/-- A statement without blocks comes back. -/
theorem Stmt.read_readBack {s : Stmt} {hd : d.size + 1 ≤ c.size} (hc : ∀ t ∈ c.tokens, t.Written)
    (h : Stmt.read c = .done s d hd) (hs : s.IsSimple) :
    ReadBack Stmt.read Stmt.text Stmt.withoutSpans c d s :=
  readBack (fun _ => read_parses) h
    (fun hp c' hc' => read_reads s.tokens.length s.tokens [] c' hp.derives (Nat.le_refl _) .nil
      (by rw [hc', List.append_nil]))
    (fun hp _ hp' => hp.unique hp' hs) (fun hw => (writes hs hw).weaken) hc

/-- **What is read can be written and read again.**  At every place in the tokens of a source, whatever one of
the routines for expressions, conditions, declarations, parameters and statements without blocks builds has a
text that scans to the tokens taken, and from these tokens alone the routine builds the same tree again, up to
spans, and leaves nothing. -/
theorem readsBack_of_tokenize {source : String} {ls : List Lexeme} (h : tokenize source = .ok ls)
    (hc : c.rest <:+ ls) :
    ReadsBack Expr.read Expr.text Expr.withoutSpans c ∧
      ReadsBack Expr.readSum Expr.text Expr.withoutSpans c ∧
      ReadsBack Expr.readTerm Expr.text Expr.withoutSpans c ∧
      ReadsBack Expr.readFragment Expr.text Expr.withoutSpans c ∧
      ReadsBack Cond.read Cond.text Cond.withoutSpans c ∧
      ReadsBack Cond.readAtom Cond.text Cond.withoutSpans c ∧
      ReadsBack Cond.readComparison Cond.text Cond.withoutSpans c ∧
      ReadsBack Decl.readVar Decl.text Decl.withoutSpans c ∧
      ReadsBack Decl.readConst Decl.text Decl.withoutSpans c ∧
      ReadsBack Param.read Param.text Param.withoutSpans c ∧
      ∀ s d hd, Stmt.read c = .done s d hd → s.IsSimple →
        ReadBack Stmt.read Stmt.text Stmt.withoutSpans c d s := by
  have hw : ∀ t ∈ c.tokens, t.Written := by
    intro t ht
    obtain ⟨l, hl, rfl⟩ := List.mem_map.1 ht
    exact tokenize_written h l (hc.subset hl)
  exact ⟨Expr.read_readsBack hw, Expr.readSum_readsBack hw, Expr.readTerm_readsBack hw,
    Expr.readFragment_readsBack hw, Cond.read_readsBack hw, Cond.readAtom_readsBack hw,
    Cond.readComparison_readsBack hw, Decl.readVar_readsBack hw, Decl.readConst_readsBack hw,
    Param.read_readsBack hw, fun _ _ _ => Stmt.read_readBack hw⟩

/-- A condition whose first atom starts with a `!` that belongs to a fragment. -/
def conditionSource : String := "!a == -1 && !(f(b,2) < 0 || true)"

theorem readsBack_conditionSource :
    ∃ ls, tokenize conditionSource = .ok ls ∧ (Cond.read (.ofLexemes ls)).result.isOk = true ∧
      ReadsBack Cond.read Cond.text Cond.withoutSpans (.ofLexemes ls) := by
  have hread : (tokenize conditionSource).toOption.any
      (fun ls => (Cond.read (.ofLexemes ls)).result.isOk) = true := by decide +kernel
  cases h : tokenize conditionSource with
  | error fault =>
    rw [h] at hread
    cases hread
  | ok ls =>
    rw [h] at hread
    exact ⟨ls, rfl, hread, (readsBack_of_tokenize h (List.suffix_refl ls)).2.2.2.2.1⟩

end ThreeAddress
