import ThreeAddress.Proofs.Outlines
import ThreeAddress.Proofs.ReadTrees

/-!
# What is read stands where its spans say

A routine that delivers a tree leaves the cursor behind the tokens it took, and the outline of the tree fits them.

* `Cursor.Moves` — the tokens taken between two positions, the span of the last one remembered;
* `Outline.Fits`, `Outline.AllFit` — outlines over tokens, once these stand one behind the other;
* `Outcome.Takes` — the tokens taken and the value delivered are related, and one law for each way of putting routines
  together;
* `Expr.read_takes`, `Cond.read_takes` — expressions and conditions.

A span is put together from those of children, from the token taken last, or from an inner block; that each way comes
to the same is where the order of the tokens is needed (`Span.Exact.merge`, `Span.Exact.merge_last`).
-/

namespace ThreeAddress

variable {α β ω : Type} {k j : Nat} {c d e : Cursor} {u v w ls : List Lexeme}

/-! ### Positions and what lies between them -/

/-- Some tokens are taken from a position on, which leads to another one. -/
def Cursor.Moves (c : Cursor) (ls : List Lexeme) (d : Cursor) : Prop :=
  c.rest = ls ++ d.rest ∧ d.previous = (ls.getLast?.map (·.span)).or c.previous

namespace Cursor.Moves

theorem stay : c.Moves [] c := ⟨rfl, rfl⟩

theorem step {l : Lexeme} {rest : List Lexeme} (h : c.rest = l :: rest) : c.Moves [l] (.behind l rest) := ⟨h, rfl⟩

theorem trans (h : c.Moves u d) (h' : d.Moves v e) : c.Moves (u ++ v) e := by
  refine ⟨by rw [h.1, h'.1, List.append_assoc], ?_⟩
  rw [h'.2, h.2, List.getLast?_append]
  cases v.getLast? <;> simp

/-- The position remembers the span of the token taken last. -/
theorem previousSpan {l : Lexeme} (h : c.Moves u d) (hl : u.getLast? = some l) : d.previousSpan = l.span := by
  have hd : d.previous = some l.span := by simp [h.2, hl]
  simp [Cursor.previousSpan, hd]

end Cursor.Moves

/-! ### Outlines that fit -/

namespace Outline

/-- An outline is over some tokens if these stand one behind the other. -/
def Fits (o : Outline) (ls : List Lexeme) : Prop := InOrder ls → o.Over ls

/-- The same of several outlines. -/
def AllFit (os : List Outline) (ls : List Lexeme) : Prop := InOrder ls → AllOver os ls

variable {o : Outline} {os ps parts : List Outline} {l : Lexeme} {t : Token} {s s' : Span}

theorem AllFit.nil : AllFit [] [] := fun _ => allOver_nil.2 rfl

theorem AllFit.token (hl : l.token = t) (h : AllFit os ls) : AllFit (.token t :: os) ([l] ++ ls) := by
  intro hls
  rw [AllOver]
  refine ⟨[l], ls, rfl, ?_, h hls.right⟩
  rw [Over]
  exact ⟨l, rfl, hl⟩

theorem AllFit.node (ho : o.Fits u) (h : AllFit os v) : AllFit (o :: os) (u ++ v) := by
  intro hls
  rw [AllOver]
  exact ⟨u, v, rfl, ho hls.left, h hls.right⟩

theorem AllFit.append (h : AllFit os u) (h' : AllFit ps v) : AllFit (os ++ ps) (u ++ v) :=
  fun hls => allOver_append.2 ⟨u, v, rfl, h hls.left, h' hls.right⟩

theorem AllFit.single (ho : o.Fits u) : AllFit [o] u := by simpa using AllFit.node ho .nil

/-- Of a node, the span fits and what it is made of does. -/
theorem Fits.intro (hs : InOrder ls → s.Exact ls) (h : AllFit parts ls) : Fits (.node s parts) ls := by
  intro hls
  rw [Over]
  exact ⟨hs hls, h hls⟩

/-- A node around a single other one, of the same span. -/
theorem Fits.around (ho : o.Fits ls) (hs : o.span? = some s) : Fits (.node s [o]) ls :=
  .intro (fun hls => (ho hls).exact hs) (.single ho)

/-- A node that is closed where the cursor has come to. -/
theorem Fits.closed (hm : c.Moves ([l] ++ ls) d) (h : AllFit parts ([l] ++ ls)) :
    Fits (.node (d.spanFrom l.span) parts) ([l] ++ ls) := by
  refine .intro (fun hls => ?_) h
  have hlast := List.getLast?_eq_some_getLast (List.cons_ne_nil l ls)
  rw [Cursor.spanFrom, hm.previousSpan hlast]
  exact .merge_last hls hlast

/-- A node that reaches up to the end of its last part. -/
theorem Fits.upTo (ho : o.Fits v) (hs : o.span? = some s) (h : AllFit parts ([l] ++ (u ++ v))) :
    Fits (.node (l.span.merge s) parts) ([l] ++ (u ++ v)) :=
  .intro (fun hls => (Span.Exact.single l).merge ((ho hls.right.right).exact hs) hls) h

/-- Two nodes that are joined by an operator. -/
theorem Fits.joined {o' : Outline} (ho : o.Fits u) (hs : o.span? = some s) (hl : l.token = t)
    (ho' : o'.Fits v) (hs' : o'.span? = some s') :
    Fits (.node (s.merge s') [o, .token t, o']) (u ++ l :: v) :=
  .intro (fun hls => ((ho hls.left).exact hs).merge (m := [l])
    ((ho' (InOrder.right (u := [l]) hls.right)).exact hs') hls) (.node ho (.token hl (.single ho')))

end Outline

open Outline (AllFit)

/-! ### Routines -/

/-- A delivery has taken tokens that its value is related to. -/
def Outcome.Takes (R : α → List Lexeme → Prop) : Outcome k c α → Prop
  | .done a d _ => ∃ ls, c.Moves ls d ∧ R a ls
  | .failed _ _ _ => True

variable {R S : α → List Lexeme → Prop} {Q : β → List Lexeme → Prop}

namespace Outcome.Takes

theorem since {o : Outcome j d α} (h : d.size + k ≤ c.size) (hm : c.Moves u d)
    (ho : o.Takes fun a w => R a (u ++ w)) : (o.since h).Takes R := by
  cases o with
  | done a e _ =>
    obtain ⟨w, hw, hr⟩ := ho
    exact ⟨u ++ w, hm.trans hw, hr⟩
  | failed => trivial

theorem weaken {o : Outcome k c α} (ho : o.Takes R) : o.weaken.Takes R := by
  cases o with
  | done a e _ => exact ho
  | failed => trivial

theorem map {o : Outcome k c α} {f : α → β} (ho : o.Takes R) (hf : ∀ a w, R a w → Q (f a) w) :
    (o.map f).Takes Q := by
  cases o with
  | done a e _ =>
    obtain ⟨w, hw, hr⟩ := ho
    exact ⟨w, hw, hf a w hr⟩
  | failed => trivial

theorem imp {o : Outcome k c α} (ho : o.Takes R) (h : ∀ a w, R a w → S a w) : o.Takes S := by
  cases o with
  | done a e _ =>
    obtain ⟨w, hw, hr⟩ := ho
    exact ⟨w, hw, h a w hr⟩
  | failed => trivial

theorem andThen {o : Outcome k c α} {f : α → (d : Cursor) → d.size + k ≤ c.size → Outcome j d β}
    (ho : o.Takes R)
    (hf : ∀ a d h w, c.Moves w d → R a w → (f a d h).Takes fun b v => Q b (w ++ v)) :
    (o.andThen f).Takes Q := by
  cases o with
  | done a e h =>
    obtain ⟨w, hw, hr⟩ := ho
    exact (hf a e h w hw hr).since h hw
  | failed => trivial

end Outcome.Takes

namespace Cursor

theorem give_takes {a : α} (ha : R a []) : (c.give a).Takes R := ⟨[], .stay, ha⟩

theorem takeIf_takes {pick : Token → Option α} {sort : Wanted} {wanted : String} :
    (c.takeIf pick sort wanted).Takes fun p w => ∃ l, w = [l] ∧ pick l.token = some p.1 ∧ p.2 = l.span := by
  unfold takeIf
  split
  · trivial
  · rename_i l rest h
    split
    · rename_i a ha
      exact ⟨[l], .step h, l, rfl, ha, rfl⟩
    · trivial

theorem expect_takes {t : Token} {wanted : String} :
    (c.expect t wanted).Takes fun s w => ∃ l, w = [l] ∧ l.token = t ∧ s = l.span := by
  refine takeIf_takes.map ?_
  rintro p w ⟨l, rfl, hl, hs⟩
  refine ⟨l, rfl, ?_, hs⟩
  by_cases h : l.token = t
  · exact h
  · rw [if_neg h] at hl
    cases hl

theorem expectName_takes {wanted : String} :
    (c.expectName wanted).Takes fun p w => ∃ l, w = [l] ∧ l.token = .identifier p.1 ∧ p.2 = l.span := by
  refine takeIf_takes.imp ?_
  rintro p w ⟨l, rfl, hl, hs⟩
  refine ⟨l, rfl, ?_, hs⟩
  cases ht : l.token <;> simp only [ht, Token.name?, Option.some.injEq, reduceCtorEq] at hl
  rw [hl]

/-- A chain: what has been joined so far grows by one operator and one operand at a time. -/
theorem chain_takes {operator? : Token → Option ω} {join : ω → α → α → α} {n : Nat}
    {operand : (d : Cursor) → d.size < n → Outcome 1 d α}
    (hj : ∀ (l : Lexeme) op a b u v, operator? l.token = some op → R a u → R b v → R (join op a b) (u ++ l :: v))
    (ho : ∀ d h, (operand d h).Takes R) {left : α} {u : List Lexeme} {c : Cursor} {hn : c.size ≤ n}
    (hl : R left u) :
    (c.chain operator? join n operand left hn).Takes fun a w => R a (u ++ w) := by
  induction hs : c.size using Nat.strongRecOn generalizing c left u with
  | ind m ih =>
    rw [chain]
    split
    · exact give_takes (by simpa using hl)
    · rename_i l rest h
      have hsize := behind_size h
      split
      · exact give_takes (by simpa using hl)
      · rename_i op hop
        refine Outcome.Takes.since (u := [l]) _ (.step h) ?_
        refine (ho _ (by omega)).andThen ?_
        intro right e he w _ hr
        refine (ih e.size (by omega) (hj l op left right u w hop hl hr) rfl).imp ?_
        intro a v hv
        simpa using hv

theorem many_takes {starts : Token → Bool} {n : Nat} {outline : α → Outline}
    {item : (d : Cursor) → d.size ≤ n → Outcome 1 d α}
    (hi : ∀ d h, (item d h).Takes fun a w => (outline a).Fits w) {c : Cursor} {hn : c.size ≤ n} :
    (c.many starts n item hn).Takes fun as w => AllFit (as.map outline) w := by
  induction hs : c.size using Nat.strongRecOn generalizing c with
  | ind m ih =>
    rw [many]
    split
    · refine ((hi c hn).andThen ?_).weaken
      intro a d hd w _ ha
      exact (ih d.size (by omega) rfl).map fun as v has => .node ha has
    · exact give_takes .nil

theorem commaList_takes {item : (d : Cursor) → Outcome 1 d α} {outline : α → Outline}
    (hi : ∀ d, (item d).Takes fun a w => (outline a).Fits w) {c : Cursor} :
    (c.commaList item).Takes fun as w => as ≠ [] ∧ AllFit (Outline.commas (as.map outline)) w := by
  induction hs : c.size using Nat.strongRecOn generalizing c with
  | ind m ih =>
    rw [commaList]
    refine (hi c).andThen ?_
    intro a d hd w _ ha
    have hone : AllFit (Outline.commas ([a].map outline)) (w ++ []) := .node ha .nil
    split
    · exact give_takes ⟨by simp, hone⟩
    · rename_i l rest h
      have hsize := behind_size h
      split
      · rename_i hl
        refine Outcome.Takes.since (u := [l]) _ (.step h) ?_
        refine (ih (behind l rest).size (by omega) rfl).map ?_
        rintro as v ⟨hne, has⟩
        cases as with
        | nil => exact absurd rfl hne
        | cons b more => exact ⟨by simp, .node ha (.token hl has)⟩
      · exact give_takes ⟨by simp, hone⟩

end Cursor

/-! ### Calls -/

theorem Argument.read_takes : (Argument.read c).Takes fun a w => a.outline.Fits w := by
  refine Cursor.takeIf_takes.map ?_
  rintro p w ⟨l, rfl, hl, hs⟩
  rw [Argument.outline, hs]
  exact .intro (fun _ => .single l) (.token (Atom.token_of_ofToken? hl).symm .nil)

/-- The call reaches from its name, which has been taken already. -/
theorem Call.readFrom_takes {name : String} {l : Lexeme} (hl : l.token = .identifier name) (hm : c.Moves [l] d) :
    (Call.readFrom name l.span d).Takes fun a w => a.outline.Fits ([l] ++ w) := by
  refine Cursor.expect_takes.andThen ?_
  rintro _ c₁ _ _ h₁ ⟨l₁, rfl, hl₁, -⟩
  have hargs : (if c₁.next? = some (.mark .rightParen) then c₁.give []
      else (c₁.commaList Argument.read).weaken).Takes
        fun as w => AllFit (Outline.commas (as.map Argument.outline)) w := by
    by_cases h : c₁.next? = some (.mark .rightParen)
    · rw [if_pos h]
      exact Cursor.give_takes .nil
    · rw [if_neg h]
      exact ((Cursor.commaList_takes fun _ => Argument.read_takes).imp fun _ _ h => h.2).weaken
  refine hargs.andThen fun args c₂ _ w₂ h₂ hw => ?_
  refine Cursor.expect_takes.andThen ?_
  rintro _ c₃ _ _ h₃ ⟨l₃, rfl, hl₃, -⟩
  refine Cursor.give_takes ?_
  exact .closed (hm.trans (h₁.trans (h₂.trans h₃)))
    (.token hl (.token hl₁ (.append hw (.token hl₃ .nil))))

/-! ### Expressions -/

namespace Expr

/-- The outline of an expression fits. -/
def FitsAs (e : Expr) (w : List Lexeme) : Prop := e.outline.Fits w

theorem joinArith_fits {l : Lexeme} {op : ArithOp} {a b : Expr} (hop : ArithOp.ofToken? l.token = some op)
    (ha : a.FitsAs u) (hb : b.FitsAs v) : (joinArith op a b).FitsAs (u ++ l :: v) := by
  rw [FitsAs, joinArith, outline]
  exact .joined ha a.outline_span? (ArithOp.mark_of_ofToken? hop) hb b.outline_span?

theorem joinLogic_fits {l : Lexeme} {op : Connective} {a b : Expr} (hop : Connective.ofToken? l.token = some op)
    (ha : a.FitsAs u) (hb : b.FitsAs v) : (joinLogic op a b).FitsAs (u ++ l :: v) := by
  rw [FitsAs, joinLogic, outline]
  exact .joined ha a.outline_span? (Connective.mark_of_ofToken? hop) hb b.outline_span?

theorem readFragment_takes : (readFragment c).Takes FitsAs := by
  unfold readFragment
  split
  · trivial
  · rename_i l rest h
    have h₁ := Cursor.Moves.step h
    dsimp only
    split
    · rename_i hl
      split
      · trivial
      · split
        · trivial
        · rename_i m _ more _ _ operand ho
          refine Outcome.Takes.since (u := [l] ++ [m]) _ (h₁.trans (.step rfl)) (Cursor.give_takes ?_)
          rw [FitsAs, outline]
          exact .closed (h₁.trans (.step rfl)) (.token hl (.token (Atom.token_of_ofToken? ho).symm .nil))
    · rename_i hl
      refine Outcome.Takes.since (u := [l]) _ h₁ ?_
      refine Cursor.expectName_takes.map ?_
      rintro p w ⟨m, rfl, hm, hs⟩
      rw [FitsAs, outline, hs]
      exact .intro (fun hls => .merge_last hls rfl) (.token hl (.token hm .nil))
    · split
      · rename_i f hf
        refine Outcome.Takes.since (u := [l]) _ h₁ (Cursor.give_takes ?_)
        rw [FitsAs, outline, (Fragment.tokens_of_ofToken? hf).2]
        exact .closed h₁ (.token rfl .nil)
      · trivial

theorem readTerm_takes (hr : ∀ d : Cursor, d.size < c.size → (read d).Takes FitsAs) :
    (readTerm c).Takes FitsAs := by
  rw [readTerm]
  split
  · refine Cursor.expect_takes.andThen ?_
    rintro _ c₁ hs _ h₁ ⟨l₁, rfl, hl₁, rfl⟩
    refine (hr c₁ (by omega)).andThen fun inner c₂ _ w₂ h₂ hw => ?_
    refine Cursor.expect_takes.andThen ?_
    rintro _ c₃ _ _ h₃ ⟨l₃, rfl, hl₃, -⟩
    refine Cursor.give_takes ?_
    rw [FitsAs, outline]
    exact .closed (h₁.trans (h₂.trans h₃)) (.token hl₁ (.node hw (.token hl₃ .nil)))
  · refine Cursor.expectName_takes.andThen ?_
    rintro ⟨name, _⟩ c₁ _ _ h₁ ⟨l₁, rfl, hl₁, rfl⟩
    refine (Call.readFrom_takes hl₁ h₁).map fun call w hw => ?_
    rw [FitsAs, outline]
    exact .around hw rfl
  · exact readFragment_takes

theorem readSum_takes_of (ht : ∀ d : Cursor, d.size ≤ c.size → (readTerm d).Takes FitsAs) :
    (readSum c).Takes FitsAs := by
  rw [readSum]
  refine (ht c (Nat.le_refl _)).andThen fun left d _ u _ hl => ?_
  exact Cursor.chain_takes (fun l op a b u v hop => joinArith_fits hop) (fun e he => ht e (Nat.le_of_lt he)) hl

/-- Expressions and sums, by induction on the number of tokens that are left. -/
theorem reads_take : (read c).Takes FitsAs ∧ (readSum c).Takes FitsAs := by
  induction hs : c.size using Nat.strongRecOn generalizing c with
  | ind n ih =>
    have hterm : ∀ d : Cursor, d.size ≤ c.size → (readTerm d).Takes FitsAs :=
      fun d hd => readTerm_takes fun e he => (ih e.size (by omega) rfl).1
    have hsum : ∀ d : Cursor, d.size ≤ c.size → (readSum d).Takes FitsAs :=
      fun d hd => readSum_takes_of fun e he => hterm e (Nat.le_trans he hd)
    refine ⟨?_, hsum c (Nat.le_refl _)⟩
    rw [read]
    refine (hsum c (Nat.le_refl _)).andThen fun left d _ u _ hl => ?_
    exact Cursor.chain_takes (fun l op a b u v hop => joinLogic_fits hop)
      (fun e he => hsum e (Nat.le_of_lt he)) hl

theorem read_takes : (read c).Takes FitsAs := reads_take.1

theorem readSum_takes : (readSum c).Takes FitsAs := reads_take.2

end Expr

/-! ### Conditions -/

namespace Cond

/-- The outline of a condition fits. -/
def FitsAs (e : Cond) (w : List Lexeme) : Prop := e.outline.Fits w

theorem join_fits {l : Lexeme} {op : Connective} {a b : Cond} (hop : Connective.ofToken? l.token = some op)
    (ha : a.FitsAs u) (hb : b.FitsAs v) : (join op a b).FitsAs (u ++ l :: v) := by
  rw [FitsAs, join, outline]
  exact .joined ha a.outline_span? (Connective.mark_of_ofToken? hop) hb b.outline_span?

theorem readComparison_takes : (readComparison c).Takes FitsAs := by
  refine Expr.readSum_takes.andThen fun left c₁ _ u h₁ hu => ?_
  refine Cursor.takeIf_takes.andThen ?_
  rintro ⟨op, _⟩ c₂ _ _ h₂ ⟨l, rfl, hl, -⟩
  refine Expr.readSum_takes.map fun right w hw => ?_
  have hmark := Relation.mark_of_ofToken? hl
  cases op with
  | inl order =>
    rw [FitsAs, outline]
    exact .joined hu left.outline_span? hmark hw right.outline_span?
  | inr same =>
    rw [FitsAs, outline]
    exact .joined hu left.outline_span? hmark hw right.outline_span?

theorem readAtom_takes
    (hr : ∀ d : Cursor, d.size < c.size → (read d).Takes FitsAs ∧ (readAtom d).Takes FitsAs) :
    (readAtom c).Takes FitsAs := by
  have hcmp := readComparison_takes (c := c)
  rw [readAtom]
  split
  · rename_i cond d h hd
    rw [hd] at hcmp
    exact hcmp
  · split
    · trivial
    · rename_i l rest h
      have hs := Cursor.behind_size h
      have h₁ := Cursor.Moves.step h
      dsimp only
      split
      · rename_i hl
        refine Outcome.Takes.since (u := [l]) _ h₁ ?_
        refine (hr _ (by omega)).2.andThen fun inner c₂ _ w h₂ hw => ?_
        refine Cursor.give_takes ?_
        rw [FitsAs, outline, List.append_nil]
        exact .closed (h₁.trans h₂) (.token hl (.single hw))
      · rename_i hl
        refine Outcome.Takes.since (u := [l]) _ h₁ ?_
        refine (hr _ (by omega)).1.andThen fun inner c₂ _ w h₂ hw => ?_
        refine Cursor.expect_takes.andThen ?_
        rintro _ c₃ _ _ h₃ ⟨l₃, rfl, hl₃, -⟩
        refine Cursor.give_takes ?_
        rw [FitsAs, outline]
        exact .closed (h₁.trans (h₂.trans h₃)) (.token hl (.node hw (.token hl₃ .nil)))
      · rename_i hl
        refine Outcome.Takes.since (u := [l]) _ h₁ (Cursor.give_takes ?_)
        rw [FitsAs, outline]
        exact .intro (fun _ => .single l) (.token hl .nil)
      · rename_i hl
        refine Outcome.Takes.since (u := [l]) _ h₁ (Cursor.give_takes ?_)
        rw [FitsAs, outline]
        exact .intro (fun _ => .single l) (.token hl .nil)
      · trivial

/-- Conditions and their atoms, by induction on the number of tokens that are left. -/
theorem reads_take : (read c).Takes FitsAs ∧ (readAtom c).Takes FitsAs := by
  induction hs : c.size using Nat.strongRecOn generalizing c with
  | ind n ih =>
    have hatom : ∀ d : Cursor, d.size ≤ c.size → (readAtom d).Takes FitsAs :=
      fun d hd => readAtom_takes fun e he => ih e.size (by omega) rfl
    refine ⟨?_, hatom c (Nat.le_refl _)⟩
    rw [read]
    refine (hatom c (Nat.le_refl _)).andThen fun left d _ u _ hl => ?_
    exact Cursor.chain_takes (fun l op a b u v hop => join_fits hop)
      (fun e he => hatom e (Nat.le_of_lt he)) hl

theorem read_takes : (read c).Takes FitsAs := reads_take.1

end Cond

end ThreeAddress
