import ThreeAddress.Proofs.AlikeTrees
import ThreeAddress.Reading.Program

/-!
# Reading carries spans along

A routine that reads never looks at a span.  Started before the same tokens with other spans, it delivers a tree
that differs in its spans only, or it fails for the same cause; and the spans correspond wherever those of the
tokens do, as long as merging keeps the correspondence.

* `Merging` — a relation of spans that merging keeps;
* `Cursor.Alike`, `Outcome.Alike` — positions and outcomes that differ in their spans;
* `Outcome.Alike.andThen` and the like — one law for each way of putting routines together;
* `Expr.read_alike`, `Cond.read_alike`, `Stmt.read_alike`, `Func.read_alike` — the routines;
* `Program.ofLexemes_alike` — programs.
-/

namespace ThreeAddress

variable {R : Span → Span → Prop} {α β ω : Type} {k j : Nat} {c c' d d' : Cursor} {V : α → α → Prop}
  {W : β → β → Prop}

/-- A relation of spans that merging keeps. -/
def Merging (R : Span → Span → Prop) : Prop :=
  ∀ ⦃a a' b b' : Span⦄, R a a' → R b b' → R (a.merge b) (a'.merge b')

/-! ### Positions and outcomes -/

/-- Lexemes of the same token. -/
structure Lexeme.Alike (R : Span → Span → Prop) (l l' : Lexeme) : Prop where
  token : l.token = l'.token
  span : R l.span l'.span

/-- Positions before the same tokens. -/
structure Cursor.Alike (R : Span → Span → Prop) (c c' : Cursor) : Prop where
  rest : List.Forall₂ (Lexeme.Alike R) c.rest c'.rest
  previous : R c.previousSpan c'.previousSpan

/-- Faults of the same cause. -/
inductive SyntaxCause.Alike (R : Span → Span → Prop) : Fault → Fault → Prop
  | fault (cause : SyntaxCause) {s s' : Span} (h : R s s') :
      Alike R ⟨cause.code, cause.message, s, none⟩ ⟨cause.code, cause.message, s', none⟩

/-- Deliveries of corresponding values, or failures for the same cause. -/
inductive Outcome.Alike (R : Span → Span → Prop) (V : α → α → Prop) {k : Nat} {c c' : Cursor} :
    Outcome k c α → Outcome k c' α → Prop
  | done {a a' : α} {d d' : Cursor} {h : d.size + k ≤ c.size} {h' : d'.size + k ≤ c'.size} (ha : V a a')
      (hd : d.Alike R d') : Alike R V (.done a d h) (.done a' d' h')
  | failed {f f' : Fault} {d d' : Cursor} {h : d.size ≤ c.size} {h' : d'.size ≤ c'.size}
      (hf : SyntaxCause.Alike R f f') : Alike R V (.failed f d h) (.failed f' d' h')

namespace Cursor.Alike

theorem size (h : c.Alike R c') : c.size = c'.size := h.rest.length_eq

theorem next (h : c.Alike R c') : c.next? = c'.next? := by
  obtain ⟨prev, rest⟩ := c
  obtain ⟨prev', rest'⟩ := c'
  cases h.rest with
  | nil => rfl
  | cons hl _ => exact congrArg some hl.token

theorem isEmpty (h : c.Alike R c') : c.rest.isEmpty = c'.rest.isEmpty := by
  obtain ⟨prev, rest⟩ := c
  obtain ⟨prev', rest'⟩ := c'
  cases h.rest <;> rfl

theorem here (h : c.Alike R c') : R c.here c'.here := by
  have hprevious := h.previous
  obtain ⟨prev, rest⟩ := c
  obtain ⟨prev', rest'⟩ := c'
  cases h.rest with
  | nil => exact hprevious
  | cons hl _ => exact hl.span

theorem spanFrom (h : c.Alike R c') (hm : Merging R) {s s' : Span} (hs : R s s') :
    R (c.spanFrom s) (c'.spanFrom s') := hm hs h.previous

theorem behind {l l' : Lexeme} {rest rest' : List Lexeme} (hl : l.Alike R l')
    (hrest : List.Forall₂ (Lexeme.Alike R) rest rest') : (Cursor.behind l rest).Alike R (.behind l' rest') :=
  ⟨hrest, hl.span⟩

end Cursor.Alike

/-! ### Putting routines together -/

namespace Outcome.Alike

theorem since {o : Outcome j d α} {o' : Outcome j d' α} (ho : o.Alike R V o') (h : d.size + k ≤ c.size)
    (h' : d'.size + k ≤ c'.size) : (o.since h).Alike R V (o'.since h') := by
  cases ho with
  | done ha hd => exact .done ha hd
  | failed hf => exact .failed hf

theorem weaken {o : Outcome k c α} {o' : Outcome k c' α} (ho : o.Alike R V o') :
    o.weaken.Alike R V o'.weaken := by
  cases ho with
  | done ha hd => exact .done ha hd
  | failed hf => exact .failed hf

theorem map {o : Outcome k c α} {o' : Outcome k c' α} {f f' : α → β} (ho : o.Alike R V o')
    (hf : ∀ a a', V a a' → W (f a) (f' a')) : (o.map f).Alike R W (o'.map f') := by
  cases ho with
  | done ha hd => exact .done (hf _ _ ha) hd
  | failed hf => exact .failed hf

theorem imp {X : α → α → Prop} {o : Outcome k c α} {o' : Outcome k c' α} (ho : o.Alike R V o')
    (h : ∀ a a', V a a' → X a a') : o.Alike R X o' := by
  cases ho with
  | done ha hd => exact .done (h _ _ ha) hd
  | failed hf => exact .failed hf

theorem andThen {o : Outcome k c α} {o' : Outcome k c' α}
    {f : α → (d : Cursor) → d.size + k ≤ c.size → Outcome j d β}
    {f' : α → (d : Cursor) → d.size + k ≤ c'.size → Outcome j d β} (ho : o.Alike R V o')
    (hf : ∀ a a' d d' h h', V a a' → d.Alike R d' → (f a d h).Alike R W (f' a' d' h')) :
    (o.andThen f).Alike R W (o'.andThen f') := by
  cases ho with
  | @done a a' e e' h h' ha hd => exact (hf a a' e e' h h' ha hd).since h h'
  | failed hf => exact .failed hf

end Outcome.Alike

namespace Cursor

theorem give_alike {a a' : α} (hc : c.Alike R c') (ha : V a a') : (c.give a).Alike R V (c'.give a') := .done ha hc

theorem fail_alike {cause : SyntaxCause} (hc : c.Alike R c') :
    (c.fail cause : Outcome k c α).Alike R V (c'.fail cause : Outcome k c' α) := .failed (.fault cause hc.here)

theorem lacks_alike {sort : Wanted} {wanted : String} (hc : c.Alike R c') :
    (c.lacks sort wanted : Outcome k c α).Alike R V (c'.lacks sort wanted : Outcome k c' α) := by
  rw [lacks, lacks, hc.next]
  exact fail_alike hc

theorem takeIf_alike {pick : Token → Option α} {sort : Wanted} {wanted : String} (hc : c.Alike R c') :
    (c.takeIf pick sort wanted).Alike R (fun p p' => p.1 = p'.1 ∧ R p.2 p'.2) (c'.takeIf pick sort wanted) := by
  have hlacks : (c.lacks sort wanted : Outcome 1 c (α × Span)).Alike R (fun p p' => p.1 = p'.1 ∧ R p.2 p'.2)
      (c'.lacks sort wanted : Outcome 1 c' (α × Span)) := lacks_alike hc
  obtain ⟨prev, rest⟩ := c
  obtain ⟨prev', rest'⟩ := c'
  unfold takeIf
  cases hc.rest with
  | nil => exact hlacks
  | cons hl hrest =>
    dsimp only
    rw [hl.token]
    split
    · exact .done ⟨rfl, hl.span⟩ (.behind hl hrest)
    · exact hlacks

theorem expect_alike {t : Token} {wanted : String} (hc : c.Alike R c') :
    (c.expect t wanted).Alike R R (c'.expect t wanted) :=
  (takeIf_alike hc).map fun _ _ hp => hp.2

theorem expectName_alike {wanted : String} (hc : c.Alike R c') :
    (c.expectName wanted).Alike R (fun p p' => p.1 = p'.1 ∧ R p.2 p'.2) (c'.expectName wanted) :=
  takeIf_alike hc

theorem chain_alike {operator? : Token → Option ω} {join : ω → α → α → α} {n n' : Nat}
    {operand : (d : Cursor) → d.size < n → Outcome 1 d α}
    {operand' : (d : Cursor) → d.size < n' → Outcome 1 d α}
    (hj : ∀ op a a' b b', V a a' → V b b' → V (join op a b) (join op a' b'))
    (ho : ∀ d d' h h', d.Alike R d' → (operand d h).Alike R V (operand' d' h')) {left left' : α} {c c' : Cursor}
    {hn : c.size ≤ n} {hn' : c'.size ≤ n'} (hl : V left left') (hc : c.Alike R c') :
    (c.chain operator? join n operand left hn).Alike R V (c'.chain operator? join n' operand' left' hn') := by
  induction hs : c.size using Nat.strongRecOn generalizing c c' left left' with
  | ind m ih =>
    obtain ⟨prev, rest⟩ := c
    obtain ⟨prev', rest'⟩ := c'
    rw [chain, chain]
    cases hc.rest with
    | nil => exact give_alike hc hl
    | @cons l l' more more' hlex hrest =>
      dsimp only
      rw [hlex.token]
      split
      · exact give_alike hc hl
      · apply Outcome.Alike.since
        apply (ho _ _ _ _ (.behind hlex hrest)).andThen
        intro right right' e e' he he' hr hes
        refine ih e.size ?_ (hj _ _ _ _ _ hl hr) hes rfl
        have hsize : (behind l more).size + 1 = m := hs
        omega

theorem many_alike {starts : Token → Bool} {n n' : Nat} {item : (d : Cursor) → d.size ≤ n → Outcome 1 d α}
    {item' : (d : Cursor) → d.size ≤ n' → Outcome 1 d α}
    (hi : ∀ d d' h h', d.Alike R d' → (item d h).Alike R V (item' d' h')) {c c' : Cursor} {hn : c.size ≤ n}
    {hn' : c'.size ≤ n'} (hc : c.Alike R c') :
    (c.many starts n item hn).Alike R (List.Forall₂ V) (c'.many starts n' item' hn') := by
  induction hs : c.size using Nat.strongRecOn generalizing c c' with
  | ind m ih =>
    rw [many, many, hc.next]
    split
    · apply Outcome.Alike.weaken
      apply (hi c c' hn hn' hc).andThen
      intro a a' d d' hd hd' ha hds
      exact (ih d.size (by omega) hds rfl).map fun as as' has => .cons ha has
    · exact give_alike hc .nil

theorem commaList_alike {item : (d : Cursor) → Outcome 1 d α}
    (hi : ∀ d d', d.Alike R d' → (item d).Alike R V (item d')) {c c' : Cursor} (hc : c.Alike R c') :
    (c.commaList item).Alike R (List.Forall₂ V) (c'.commaList item) := by
  induction hs : c.size using Nat.strongRecOn generalizing c c' with
  | ind m ih =>
    rw [commaList, commaList]
    apply (hi c c' hc).andThen
    intro a a' d d' hd hd' ha hds
    obtain ⟨prev, rest⟩ := d
    obtain ⟨prev', rest'⟩ := d'
    cases hds.rest with
    | nil => exact give_alike hds (.cons ha .nil)
    | @cons l l' more more' hlex hrest =>
      dsimp only
      rw [hlex.token]
      split
      · apply Outcome.Alike.since
        have hsize : (behind l more).size + 1 + 1 ≤ c.size := hd
        exact (ih (behind l more).size (by omega) (.behind hlex hrest) rfl).map fun as as' has => .cons ha has
      · exact give_alike hds (.cons ha .nil)

end Cursor

open Cursor

/-! ### Expressions -/

section Routines

theorem Argument.read_alike (hc : c.Alike R c') :
    (Argument.read c).Alike R (Argument.Alike R) (Argument.read c') := by
  unfold Argument.read
  rw [hc.isEmpty]
  exact (takeIf_alike hc).map fun p p' hp => ⟨hp.1, hp.2⟩

variable (hm : Merging R)

include hm

theorem Call.readFrom_alike {name : String} {start start' : Span} (hs : R start start') (hc : c.Alike R c') :
    (Call.readFrom name start c).Alike R (Call.Alike R) (Call.readFrom name start' c') := by
  apply (expect_alike hc).andThen
  intro _ _ c₁ c₁' _ _ _ h₁
  have hargs : (if c₁.next? = some (.mark .rightParen) then c₁.give []
      else (c₁.commaList Argument.read).weaken).Alike R (List.Forall₂ (Argument.Alike R))
      (if c₁'.next? = some (.mark .rightParen) then c₁'.give []
        else (c₁'.commaList Argument.read).weaken) := by
    rw [h₁.next]
    split
    · exact give_alike h₁ .nil
    · exact (commaList_alike (fun _ _ => Argument.read_alike) h₁).weaken
  apply hargs.andThen
  intro args args' c₂ c₂' _ _ ha h₂
  apply (expect_alike h₂).andThen
  intro _ _ c₃ c₃' _ _ _ h₃
  exact give_alike h₃ ⟨rfl, ha, h₃.spanFrom hm hs⟩

namespace Expr

theorem joinArith_alike {op : ArithOp} {l l' r r' : Expr} (hl : l.Alike R l') (hr : r.Alike R r') :
    (joinArith op l r).Alike R (joinArith op l' r') := .arith hl hr (hm hl.span hr.span)

theorem joinLogic_alike {op : Connective} {l l' r r' : Expr} (hl : l.Alike R l') (hr : r.Alike R r') :
    (joinLogic op l r).Alike R (joinLogic op l' r') := .logic hl hr (hm hl.span hr.span)

theorem readFragment_alike (hc : c.Alike R c') : (readFragment c).Alike R (Expr.Alike R) (readFragment c') := by
  have hlacks : (c.lacks .expression "expression" : Outcome 1 c Expr).Alike R (Expr.Alike R)
      (c'.lacks .expression "expression" : Outcome 1 c' Expr) := lacks_alike hc
  obtain ⟨prev, rest⟩ := c
  obtain ⟨prev', rest'⟩ := c'
  unfold readFragment
  cases hc.rest with
  | nil => exact hlacks
  | @cons l l' more more' hl hrest =>
    have h₁ : (Cursor.behind l more).Alike R (.behind l' more') := .behind hl hrest
    dsimp only
    rw [hl.token]
    split
    · cases hrest with
      | nil => exact (fail_alike h₁).since _ _
      | @cons n n' after after' hn hafter =>
        dsimp only
        rw [hn.token]
        split
        · exact (fail_alike h₁).since _ _
        · have h₂ : (Cursor.behind n after).Alike R (.behind n' after') := .behind hn hafter
          exact (give_alike h₂ (.fragment (h₂.spanFrom hm hl.span))).since _ _
    · apply Outcome.Alike.since
      apply (expectName_alike h₁).map
      intro p p' hp
      rw [hp.1]
      exact .fragment (hm hl.span hp.2)
    · split
      · exact (give_alike h₁ (.fragment (h₁.spanFrom hm hl.span))).since _ _
      · exact hlacks

theorem readTerm_alike (hr : ∀ d d' : Cursor, d.size < c.size → d.Alike R d' →
      (read d).Alike R (Expr.Alike R) (read d')) (hc : c.Alike R c') :
    (readTerm c).Alike R (Expr.Alike R) (readTerm c') := by
  have hfragment := readFragment_alike hm hc
  obtain ⟨prev, rest⟩ := c
  obtain ⟨prev', rest'⟩ := c'
  rw [readTerm, readTerm]
  cases hc.rest with
  | nil => exact hfragment
  | @cons l l' more more' hl hrest =>
    obtain ⟨t, s⟩ := l
    obtain ⟨t', s'⟩ := l'
    obtain rfl : t = t' := hl.token
    cases t with
    | mark m =>
      cases m with
      | leftParen =>
        apply (expect_alike hc).andThen
        intro start start' c₁ c₁' hs _ hstart h₁
        apply (hr c₁ c₁' (by omega) h₁).andThen
        intro inner inner' c₂ c₂' _ _ hinner h₂
        apply (expect_alike h₂).andThen
        intro _ _ c₃ c₃' _ _ _ h₃
        exact give_alike h₃ (.paren hinner (h₃.spanFrom hm hstart))
      | _ => exact hfragment
    | identifier x =>
      cases hrest with
      | nil => exact hfragment
      | @cons n n' after after' hn hafter =>
        obtain ⟨u, v⟩ := n
        obtain ⟨u', v'⟩ := n'
        obtain rfl : u = u' := hn.token
        cases u with
        | mark m =>
          cases m with
          | leftParen =>
            apply (expectName_alike hc).andThen
            rintro ⟨name, start⟩ ⟨name', start'⟩ c₁ c₁' _ _ ⟨hname, hstart⟩ h₁
            obtain rfl : name = name' := hname
            exact (Call.readFrom_alike hm hstart h₁).map fun call call' hcall => .call hcall hcall.span
          | _ => exact hfragment
        | _ => exact hfragment
    | _ => exact hfragment

theorem readSum_alike_of (ht : ∀ d d' : Cursor, d.size ≤ c.size → d.Alike R d' →
      (readTerm d).Alike R (Expr.Alike R) (readTerm d')) (hc : c.Alike R c') :
    (readSum c).Alike R (Expr.Alike R) (readSum c') := by
  rw [readSum, readSum]
  apply (ht c c' (Nat.le_refl _) hc).andThen
  intro left left' d d' _ _ hl hd
  exact chain_alike (fun _ _ _ _ _ => joinArith_alike hm) (fun e e' he _ => ht e e' (Nat.le_of_lt he)) hl hd

/-- Expressions and sums, by induction on the number of tokens that are left. -/
theorem reads_alike (hc : c.Alike R c') :
    (read c).Alike R (Expr.Alike R) (read c') ∧ (readSum c).Alike R (Expr.Alike R) (readSum c') := by
  induction hs : c.size using Nat.strongRecOn generalizing c c' with
  | ind n ih =>
    have hterm (d d' : Cursor) (hd : d.size ≤ c.size) : d.Alike R d' →
        (readTerm d).Alike R (Expr.Alike R) (readTerm d') :=
      readTerm_alike hm fun e e' he hes => (ih e.size (by omega) hes rfl).1
    have hsum (d d' : Cursor) (hd : d.size ≤ c.size) : d.Alike R d' →
        (readSum d).Alike R (Expr.Alike R) (readSum d') :=
      readSum_alike_of hm fun e e' he => hterm e e' (Nat.le_trans he hd)
    refine ⟨?_, hsum c c' (Nat.le_refl _) hc⟩
    rw [read, read]
    apply (hsum c c' (Nat.le_refl _) hc).andThen
    intro left left' d d' _ _ hl hd
    exact chain_alike (fun _ _ _ _ _ => joinLogic_alike hm) (fun e e' he _ => hsum e e' (Nat.le_of_lt he)) hl hd

theorem read_alike (hc : c.Alike R c') : (read c).Alike R (Expr.Alike R) (read c') := (reads_alike hm hc).1

theorem readSum_alike (hc : c.Alike R c') : (readSum c).Alike R (Expr.Alike R) (readSum c') :=
  (reads_alike hm hc).2

end Expr

/-! ### Conditions -/

namespace Cond

theorem join_alike {op : Connective} {l l' r r' : Cond} (hl : l.Alike R l') (hr : r.Alike R r') :
    (join op l r).Alike R (join op l' r') := .binary hl hr (hm hl.span hr.span)

theorem readComparison_alike (hc : c.Alike R c') :
    (readComparison c).Alike R (Cond.Alike R) (readComparison c') := by
  apply (Expr.readSum_alike hm hc).andThen
  intro left left' c₁ c₁' _ _ hl h₁
  apply (takeIf_alike h₁).andThen
  rintro ⟨op, s⟩ ⟨op', s'⟩ c₂ c₂' _ _ ⟨hop, -⟩ h₂
  obtain rfl : op = op' := hop
  apply (Expr.readSum_alike hm h₂).map
  intro right right' hr
  cases op with
  | inl order => exact .comparison hl hr (hm hl.span hr.span)
  | inr same => exact .equality hl hr (hm hl.span hr.span)

theorem readAtom_alike (hr : ∀ d d' : Cursor, d.size < c.size → d.Alike R d' →
      (read d).Alike R (Cond.Alike R) (read d') ∧ (readAtom d).Alike R (Cond.Alike R) (readAtom d'))
    (hc : c.Alike R c') : (readAtom c).Alike R (Cond.Alike R) (readAtom c') := by
  have hcompared := readComparison_alike hm hc
  rw [readAtom, readAtom]
  generalize readComparison c = o at hcompared
  generalize readComparison c' = o' at hcompared
  cases hcompared with
  | done ha hd => exact .done ha hd
  | failed hf =>
    obtain ⟨prev, rest⟩ := c
    obtain ⟨prev', rest'⟩ := c'
    cases hc.rest with
    | nil => exact .failed hf
    | @cons l l' more more' hl hrest =>
      have h₁ : (Cursor.behind l more).Alike R (.behind l' more') := .behind hl hrest
      obtain ⟨hread, hatom⟩ := hr _ _ (Nat.lt_succ_self _) h₁
      dsimp only
      rw [hl.token]
      split
      · apply Outcome.Alike.since
        apply hatom.andThen
        intro inner inner' c₂ c₂' _ _ hinner h₂
        exact give_alike h₂ (.neg hinner (h₂.spanFrom hm hl.span))
      · apply Outcome.Alike.since
        apply hread.andThen
        intro inner inner' c₂ c₂' _ _ hinner h₂
        apply (expect_alike h₂).andThen
        intro _ _ c₃ c₃' _ _ _ h₃
        exact give_alike h₃ (.paren hinner (h₃.spanFrom hm hl.span))
      · exact (give_alike h₁ (.bool hl.span)).since _ _
      · exact (give_alike h₁ (.bool hl.span)).since _ _
      · exact .failed hf

/-- Conditions and their atoms, by induction on the number of tokens that are left. -/
theorem reads_alike (hc : c.Alike R c') :
    (read c).Alike R (Cond.Alike R) (read c') ∧ (readAtom c).Alike R (Cond.Alike R) (readAtom c') := by
  induction hs : c.size using Nat.strongRecOn generalizing c c' with
  | ind n ih =>
    have hatom (d d' : Cursor) (hd : d.size ≤ c.size) : d.Alike R d' →
        (readAtom d).Alike R (Cond.Alike R) (readAtom d') :=
      readAtom_alike hm fun e e' he hes => ih e.size (by omega) hes rfl
    refine ⟨?_, hatom c c' (Nat.le_refl _) hc⟩
    rw [read, read]
    apply (hatom c c' (Nat.le_refl _) hc).andThen
    intro left left' d d' _ _ hl hd
    exact chain_alike (fun _ _ _ _ _ => join_alike hm) (fun e e' he _ => hatom e e' (Nat.le_of_lt he)) hl hd

theorem read_alike (hc : c.Alike R c') : (read c).Alike R (Cond.Alike R) (read c') := (reads_alike hm hc).1

end Cond

/-! ### Declarations and statements -/

omit hm in
theorem Ty.read_alike (hc : c.Alike R c') : (Ty.read c).Alike R (· = ·) (Ty.read c') :=
  (takeIf_alike hc).map fun _ _ hp => hp.1

namespace Decl

theorem readVar_alike (hc : c.Alike R c') : (readVar c).Alike R (Decl.Alike R) (readVar c') := by
  apply (expect_alike hc).andThen
  intro start start' c₁ c₁' _ _ hs h₁
  apply (expectName_alike h₁).andThen
  rintro ⟨name, _⟩ ⟨name', _⟩ c₂ c₂' _ _ ⟨hname, -⟩ h₂
  obtain rfl : name = name' := hname
  apply (expect_alike h₂).andThen
  intro _ _ c₃ c₃' _ _ _ h₃
  apply (Ty.read_alike h₃).andThen
  rintro type _ c₄ c₄' _ _ rfl h₄
  apply (expect_alike h₄).andThen
  intro _ _ c₅ c₅' _ _ _ h₅
  exact give_alike h₅ (.var (h₅.spanFrom hm hs))

theorem readConst_alike (hc : c.Alike R c') : (readConst c).Alike R (Decl.Alike R) (readConst c') := by
  apply (expect_alike hc).andThen
  intro start start' c₁ c₁' _ _ hs h₁
  apply (expectName_alike h₁).andThen
  rintro ⟨name, _⟩ ⟨name', _⟩ c₂ c₂' _ _ ⟨hname, -⟩ h₂
  obtain rfl : name = name' := hname
  apply (expect_alike h₂).andThen
  intro _ _ c₃ c₃' _ _ _ h₃
  apply (Ty.read_alike h₃).andThen
  rintro type _ c₄ c₄' _ _ rfl h₄
  apply (expect_alike h₄).andThen
  intro _ _ c₅ c₅' _ _ _ h₅
  apply (Expr.read_alike hm h₅).andThen
  intro value value' c₆ c₆' _ _ hv h₆
  apply (expect_alike h₆).andThen
  intro _ _ c₇ c₇' _ _ _ h₇
  exact give_alike h₇ (.const hv (h₇.spanFrom hm hs))

theorem readAll_alike (hc : c.Alike R c') :
    (readAll c).Alike R (List.Forall₂ (Decl.Alike R)) (readAll c') := by
  have hone (d d' : Cursor) (hd : d.Alike R d') : (Decl.read d).Alike R (Decl.Alike R) (Decl.read d') := by
    unfold Decl.read
    rw [hd.next]
    split
    · exact readConst_alike hm hd
    · exact readVar_alike hm hd
  exact many_alike (fun d d' _ _ => hone d d') hc

end Decl

namespace Stmt

theorem readNamed_alike (hc : c.Alike R c') : (readNamed c).Alike R (Stmt.Alike R) (readNamed c') := by
  apply (expectName_alike hc).andThen
  rintro ⟨name, start⟩ ⟨name', start'⟩ c₁ c₁' _ _ ⟨hname, hs⟩ h₁
  obtain rfl : name = name' := hname
  dsimp only
  rw [h₁.next]
  split
  · apply Outcome.Alike.weaken
    apply (expect_alike h₁).andThen
    intro _ _ c₂ c₂' _ _ _ h₂
    apply (Expr.read_alike hm h₂).andThen
    intro value value' c₃ c₃' _ _ hv h₃
    apply (expect_alike h₃).andThen
    intro _ _ c₄ c₄' _ _ _ h₄
    have hspan := h₄.spanFrom hm hs
    exact give_alike h₄ (.assign hv hspan hspan .nil)
  · apply Outcome.Alike.weaken
    apply (Call.readFrom_alike hm hs h₁).andThen
    intro call call' c₂ c₂' _ _ hcall h₂
    apply (expect_alike h₂).andThen
    intro _ _ c₃ c₃' _ _ _ h₃
    exact give_alike h₃ (.call hcall (h₃.spanFrom hm hs) .nil)
  · exact fail_alike h₁

theorem readSkip_alike (hc : c.Alike R c') : (readSkip c).Alike R (Stmt.Alike R) (readSkip c') := by
  apply (expect_alike hc).andThen
  intro start start' c₁ c₁' _ _ hs h₁
  apply (expect_alike h₁).andThen
  intro _ _ c₂ c₂' _ _ _ h₂
  exact give_alike h₂ (.skip (h₂.spanFrom hm hs) .nil)

omit hm in
theorem readAll_alike_of (hr : ∀ d d' : Cursor, d.size ≤ c.size → d.Alike R d' →
      (Stmt.read d).Alike R (Stmt.Alike R) (Stmt.read d')) (hc : c.Alike R c') :
    (Stmt.readAll c).Alike R (Stmt.AllAlike R) (Stmt.readAll c') := by
  rw [Stmt.readAll, Stmt.readAll]
  have h : (c.many Stmt.goesOn c.size (fun d _ => Stmt.read d) c.size_le_size).Alike R
      (List.Forall₂ (Stmt.Alike R)) (c'.many Stmt.goesOn c'.size (fun d _ => Stmt.read d) c'.size_le_size) :=
    many_alike (fun d d' hd _ => hr d d' hd) hc
  exact h.imp fun _ _ => Stmt.AllAlike.of_forall₂

theorem readBlock_alike (hr : ∀ d d' : Cursor, d.size < c.size → d.Alike R d' →
      (Stmt.read d).Alike R (Stmt.Alike R) (Stmt.read d')) (hc : c.Alike R c') :
    (Block.read c).Alike R (Block.Alike R) (Block.read c') := by
  rw [Block.read, Block.read]
  apply (expect_alike hc).andThen
  intro start start' c₁ c₁' h _ hs h₁
  apply (readAll_alike_of (fun d d' hd => hr d d' (by omega)) h₁).andThen
  intro ss ss' c₂ c₂' _ _ hss h₂
  rw [h₂.next]
  split
  · exact fail_alike h₂
  · apply Outcome.Alike.weaken
    apply (expect_alike h₂).andThen
    intro _ _ c₃ c₃' _ _ _ h₃
    exact give_alike h₃ ⟨hss, h₃.spanFrom hm hs⟩

/-- One statement, by induction on the number of tokens that are left. -/
theorem read_alike (hc : c.Alike R c') : (Stmt.read c).Alike R (Stmt.Alike R) (Stmt.read c') := by
  induction hs : c.size using Nat.strongRecOn generalizing c c' with
  | ind n ih =>
    have hblock (d d' : Cursor) (hd : d.size ≤ c.size) : d.Alike R d' →
        (Block.read d).Alike R (Block.Alike R) (Block.read d') :=
      readBlock_alike hm fun e e' he hes => ih e.size (by omega) hes rfl
    rw [Stmt.read, Stmt.read, hc.next]
    split
    · rw [Stmt.readIte, Stmt.readIte]
      apply (expect_alike hc).andThen
      intro start start' c₁ c₁' _ _ hstart h₁
      apply (Cond.read_alike hm h₁).andThen
      intro cond cond' c₂ c₂' _ _ hcond h₂
      apply (hblock c₂ c₂' (by omega) h₂).andThen
      intro t t' c₃ c₃' _ _ ht h₃
      apply (expect_alike h₃).andThen
      intro _ _ c₄ c₄' _ _ _ h₄
      apply (hblock c₄ c₄' (by omega) h₄).map
      intro e e' he
      exact .ite hcond ht.nodes he.nodes (hm hstart he.span) .nil
    · rw [Stmt.readLoop, Stmt.readLoop]
      apply (expect_alike hc).andThen
      intro start start' c₁ c₁' _ _ hstart h₁
      apply (Cond.read_alike hm h₁).andThen
      intro cond cond' c₂ c₂' _ _ hcond h₂
      apply (hblock c₂ c₂' (by omega) h₂).map
      intro b b' hb
      exact .loop hcond hb.nodes (hm hstart hb.span) .nil
    · exact readSkip_alike hm hc
    · exact (hblock c c' (Nat.le_refl _) hc).map fun b b' hb => .block hb.nodes hb.span .nil
    · exact readNamed_alike hm hc
    · exact fail_alike hc
    · exact fail_alike hc
    · exact lacks_alike hc

theorem readAll_alike (hc : c.Alike R c') :
    (Stmt.readAll c).Alike R (Stmt.AllAlike R) (Stmt.readAll c') :=
  readAll_alike_of (fun _ _ _ => read_alike hm) hc

end Stmt

/-! ### Functions and programs -/

theorem Param.read_alike (hc : c.Alike R c') : (Param.read c).Alike R (Param.Alike R) (Param.read c') := by
  apply (expectName_alike hc).andThen
  rintro ⟨name, start⟩ ⟨name', start'⟩ c₁ c₁' _ _ ⟨hname, hs⟩ h₁
  apply (expect_alike h₁).andThen
  intro _ _ c₂ c₂' _ _ _ h₂
  apply (Ty.read_alike h₂).andThen
  intro type type' c₃ c₃' _ _ htype h₃
  exact give_alike h₃ ⟨hname, htype, h₃.spanFrom hm hs⟩

theorem Param.readAll_alike (hc : c.Alike R c') :
    (Param.readAll c).Alike R (List.Forall₂ (Param.Alike R)) (Param.readAll c') := by
  unfold Param.readAll
  rw [hc.next]
  split
  · exact give_alike hc .nil
  · exact (commaList_alike (fun _ _ => Param.read_alike hm) hc).weaken

theorem Expr.readReturned_alike (hc : c.Alike R c') :
    (Expr.readReturned c).Alike R (Option.Rel (Expr.Alike R)) (Expr.readReturned c') := by
  unfold Expr.readReturned
  rw [hc.next]
  split
  · exact give_alike hc .none
  · exact ((Expr.read_alike hm hc).map fun e e' he => .some he).weaken

theorem Func.read_alike (hc : c.Alike R c') : (Func.read c).Alike R (Func.Alike R) (Func.read c') := by
  have hstart := hc.here
  apply (Ty.read_alike hc).andThen
  intro type type' c₁ c₁' _ _ htype h₁
  apply (expectName_alike h₁).andThen
  rintro ⟨name, _⟩ ⟨name', _⟩ c₂ c₂' _ _ ⟨hname, -⟩ h₂
  apply (expect_alike h₂).andThen
  intro _ _ c₃ c₃' _ _ _ h₃
  apply (Param.readAll_alike hm h₃).andThen
  intro params params' c₄ c₄' _ _ hparams h₄
  apply (expect_alike h₄).andThen
  intro _ _ c₅ c₅' _ _ _ h₅
  apply (expect_alike h₅).andThen
  intro _ _ c₆ c₆' _ _ _ h₆
  apply (Decl.readAll_alike hm h₆).andThen
  intro decls decls' c₇ c₇' _ _ hdecls h₇
  apply (Stmt.readAll_alike hm h₇).andThen
  intro stmts stmts' c₈ c₈' _ _ hstmts h₈
  apply (expect_alike h₈).andThen
  intro _ _ c₉ c₉' _ _ _ h₉
  apply (expect_alike h₉).andThen
  intro _ _ c₁₀ c₁₀' _ _ _ h₁₀
  apply (Expr.readReturned_alike hm h₁₀).andThen
  intro value value' c₁₁ c₁₁' _ _ hvalue h₁₁
  apply (expect_alike h₁₁).andThen
  intro _ _ c₁₂ c₁₂' _ _ _ h₁₂
  apply (expect_alike h₁₂).andThen
  intro _ _ c₁₃ c₁₃' _ _ _ h₁₃
  apply (expect_alike h₁₃).andThen
  intro _ _ c₁₄ c₁₄' _ _ _ h₁₄
  exact give_alike h₁₄ ⟨hname, hparams, hdecls, hstmts, htype, hvalue, h₁₄.spanFrom hm hstart⟩

theorem Main.read_alike (hc : c.Alike R c') : (Main.read c).Alike R (Main.Alike R) (Main.read c') := by
  unfold Main.read
  rw [hc.next]
  split
  · exact fail_alike hc
  · apply (expect_alike hc).andThen
    intro _ _ c₁ c₁' _ _ _ h₁
    apply (expect_alike h₁).andThen
    intro _ _ c₂ c₂' _ _ _ h₂
    apply (Decl.readAll_alike hm h₂).andThen
    intro decls decls' c₃ c₃' _ _ hdecls h₃
    apply (Stmt.readAll_alike hm h₃).andThen
    intro stmts stmts' c₄ c₄' _ _ hstmts h₄
    rw [h₄.next]
    split
    · exact fail_alike h₄
    · apply Outcome.Alike.weaken
      apply (expect_alike h₄).andThen
      intro _ _ c₅ c₅' _ _ _ h₅
      exact give_alike h₅ ⟨hdecls, hstmts⟩

theorem Program.read_alike (hc : c.Alike R c') :
    (Program.read c).Alike R (Program.Alike R) (Program.read c') := by
  apply (Decl.readAll_alike hm hc).andThen
  intro decls decls' c₁ c₁' _ _ hdecls h₁
  apply (many_alike (fun d d' _ _ => Func.read_alike hm) h₁).andThen
  intro funcs funcs' c₂ c₂' _ _ hfuncs h₂
  apply (Main.read_alike hm h₂).weaken.andThen
  intro main main' c₃ c₃' _ _ hmain h₃
  rw [h₃.next]
  split
  · exact fail_alike h₃
  · exact give_alike h₃ ⟨hdecls, hfuncs, hmain⟩

/-- **Programs.**  The same tokens give the same program up to its spans, or a fault of the same cause. -/
theorem Program.ofLexemes_alike {ls ls' : List Lexeme} (h : (Cursor.ofLexemes ls).Alike R (.ofLexemes ls')) :
    Except.Rel (SyntaxCause.Alike R) (Program.Alike R) (Program.ofLexemes ls) (Program.ofLexemes ls') := by
  have hread := Program.read_alike hm h
  unfold Program.ofLexemes
  generalize Program.read (.ofLexemes ls) = o at hread
  generalize Program.read (.ofLexemes ls') = o' at hread
  cases hread with
  | done hp _ => exact .ok hp
  | failed hf => exact .error hf

end Routines

end ThreeAddress
