import ThreeAddress.Proofs.ControlFlow

/-!
# Structured code

The code of a body is put together from straight pieces, skips, choices and loops.

* `Stmt.loops` — the `while` statements inside statements, in the order of the walk;
* `Structured` — how code is put together, and which loops it is the code of;
* `Structured.jumpTargets` — as many jumps lead to a label as it is defined: one;
* `Region`, `Region.skip`, `Region.choice`, `Region.loop` — pieces of code that jumps stay in, put together;
* `Structured.region` — jumps stay inside, and only the jumps that close loops go backward;
* `Structured.sealedOff` — nothing jumps inside from elsewhere.
-/

namespace ThreeAddress

/-! ### Loops of the source -/

mutual

/-- The loops in a statement, each before the ones in its body. -/
def Stmt.loops : Stmt → List Stmt
  | .ite _ thenBlock elseBlock _ => Block.loops thenBlock ++ Block.loops elseBlock
  | .loop cond body s => .loop cond body s :: Block.loops body
  | .block inner _ => Block.loops inner
  | .assign _ _ _ _ | .call _ _ | .skip _ => []

/-- The loops in a block. -/
def Block.loops : Block → List Stmt
  | ⟨stmts, _⟩ => Stmt.loopsOfList stmts

/-- The loops in statements in order. -/
def Stmt.loopsOfList : List Stmt → List Stmt
  | [] => []
  | s :: more => s.loops ++ Stmt.loopsOfList more

end

/-! ### Structured code -/

/-- Neither a label, nor a jump, nor a return. -/
def Instruction.isPlain : Instruction → Bool
  | .label _ | .ifz _ _ | .goto _ | .ret _ => false
  | _ => true

/-- Code that is put together from straight pieces, skips, choices and loops, with the loops of the source that
it is the code of. -/
inductive Structured : List Stmt → List Instruction → Prop
  | nil : Structured [] []
  | plain {i : Instruction} (hi : i.isPlain = true) : Structured [] [i]
  | append {ls ms : List Stmt} {c d : List Instruction} (hc : Structured ls c) (hd : Structured ms d) :
      Structured (ls ++ ms) (c ++ d)
  | skip {ls : List Stmt} {c : List Instruction} {r : Rvalue} {l : String} (hc : Structured ls c) :
      Structured ls (.ifz r l :: (c ++ [.label l]))
  | choice {ls ms : List Stmt} {c d : List Instruction} {r : Rvalue} {l m : String}
      (hc : Structured ls c) (hd : Structured ms d) :
      Structured (ls ++ ms) (.ifz r l :: (c ++ .goto m :: .label l :: (d ++ [.label m])))
  | loop {ls ms : List Stmt} {c d : List Instruction} {r : Rvalue} {l m : String} {s : Stmt}
      {t : RenameTable} {g : Generator} (hc : Structured ls c) (hd : Structured ms d)
      (hs : ((s.lower t).run g).record =
        .label l :: (c ++ .ifz r m :: (d ++ [.goto l, .label m]))) :
      Structured (s :: (ls ++ ms)) (.label l :: (c ++ .ifz r m :: (d ++ [.goto l, .label m])))

namespace Structured

variable {ls : List Stmt} {c : List Instruction}

/-- **One jump for each label.**  The labels that structured code jumps to are the ones that it defines. -/
theorem jumpTargets (h : Structured ls c) : (jumpTargets c).Perm (definedLabels c) := by
  induction h with
  | nil => exact .nil
  | @plain i hi => cases i <;> first | exact .nil | cases hi
  | append _ _ ihc ihd =>
    rw [jumpTargets_append, definedLabels_append]
    exact ihc.append ihd
  | skip _ ih =>
    rw [List.perm_iff_count] at ih ⊢
    intro x
    have hc := ih x
    simp only [ThreeAddress.jumpTargets, definedLabels, Instruction.target?, List.filterMap_cons, List.filterMap_append,
      List.filterMap_nil, List.count_append, List.count_cons, List.count_nil] at hc ⊢
    omega
  | choice _ _ ihc ihd | loop _ _ _ ihc ihd =>
    rw [List.perm_iff_count] at ihc ihd ⊢
    intro x
    have hc := ihc x
    have hd := ihd x
    simp only [ThreeAddress.jumpTargets, definedLabels, Instruction.target?, List.filterMap_cons, List.filterMap_append,
      List.filterMap_nil, List.count_append, List.count_cons, List.count_nil] at hc hd ⊢
    omega

/-- Structured code holds no return. -/
theorem not_ret (h : Structured ls c) (v : Option Rvalue) : Instruction.ret v ∉ c := by
  induction h with
  | nil => simp
  | plain hi =>
    simp only [List.mem_singleton]
    rintro rfl
    cases hi
  | append _ _ ihc ihd => simp [ihc, ihd]
  | skip _ ih => simp [ih]
  | choice _ _ ihc ihd => simp [ihc, ihd]
  | loop _ _ _ ihc ihd => simp [ihc, ihd]

end Structured

/-! ### Where jumps lead -/

/-- The instruction at a place jumps, if at all, to a place between two ones, and forward unless it closes one
of some loops. -/
def JumpsWithin (code : List Instruction) (lo hi : Nat) (spans : List (Nat × Nat)) (a : Nat) : Prop :=
  ∀ i l, code[a]? = some i → i.target? = some l →
    ∃ b, Jump code a b ∧ lo ≤ b ∧ b < hi ∧ (a < b ∨ (b, a) ∈ spans)

/-- The code of a loop stands in the code, from its first label up to the jump back and the last label. -/
def LoopSpan (code : List Instruction) (s : Stmt) (span : Nat × Nat) : Prop :=
  ∃ t g before behind, code = before ++ ((s.lower t).run g).record ++ behind ∧
    span.1 = before.length ∧ span.2 + 2 = before.length + ((s.lower t).run g).record.length

/-- A piece of code that jumps stay in, with the places where its loops begin and jump back. -/
structure Region (code : List Instruction) (lo hi : Nat) (spans : List (Nat × Nat)) : Prop where
  within : ∀ a, lo ≤ a → a < hi → JumpsWithin code lo hi spans a
  back : ∀ b a, (b, a) ∈ spans → lo ≤ b ∧ b < a ∧ a < hi ∧
    ∃ l, code[b]? = some (.label l) ∧ code[a]? = some (.goto l)
  distinct : (spans.map Prod.snd).Nodup

section Regions

variable {code : List Instruction} {lo hi lo' hi' mid a : Nat} {spans spans' : List (Nat × Nat)}

theorem JumpsWithin.mono (h : JumpsWithin code lo hi spans a) (hlo : lo' ≤ lo) (hhi : hi ≤ hi')
    (hs : ∀ s ∈ spans, s ∈ spans') : JumpsWithin code lo' hi' spans' a := by
  intro i l hi hl
  obtain ⟨b, hj, hb, hb', hd⟩ := h i l hi hl
  exact ⟨b, hj, by omega, by omega, hd.imp_right (hs _)⟩

theorem JumpsWithin.quiet {i : Instruction} (hi : code[a]? = some i) (ht : i.target? = none) :
    JumpsWithin code lo hi' spans a := by
  intro j l hj hl
  rw [hi] at hj
  cases hj
  rw [ht] at hl
  cases hl

theorem JumpsWithin.to {i : Instruction} {l : String} {b : Nat} (hi : code[a]? = some i)
    (ht : i.target? = some l) (hb : code[b]? = some (.label l)) (hlo : lo ≤ b) (hhi : b < hi')
    (hd : a < b ∨ (b, a) ∈ spans) : JumpsWithin code lo hi' spans a := by
  intro j l' hj hl
  rw [hi] at hj
  cases hj
  rw [ht] at hl
  cases hl
  exact ⟨b, ⟨i, l, hi, ht, hb⟩, hlo, hhi, hd⟩

/-- The instructions from one place up to another jump, if at all, as a piece of code lets them. -/
def StretchWithin (code : List Instruction) (lo hi : Nat) (spans : List (Nat × Nat)) (first last : Nat) : Prop :=
  ∀ a, first ≤ a → a < last → JumpsWithin code lo hi spans a

theorem JumpsWithin.stretch (h : JumpsWithin code lo hi spans a) : StretchWithin code lo hi spans a (a + 1) := by
  intro b hb hb'
  obtain rfl : b = a := by omega
  exact h

theorem StretchWithin.append {first last : Nat} (h : StretchWithin code lo hi spans first mid)
    (h' : StretchWithin code lo hi spans mid last) : StretchWithin code lo hi spans first last := by
  intro a ha ha'
  by_cases hmid : a < mid
  · exact h a ha hmid
  · exact h' a (Nat.le_of_not_lt hmid) ha'

/-- Some loops begin and jump back between two places. -/
def LoopsWithin (code : List Instruction) (lo hi : Nat) (spans : List (Nat × Nat)) : Prop :=
  ∀ b a, (b, a) ∈ spans → lo ≤ b ∧ b < a ∧ a < hi ∧ ∃ l, code[b]? = some (.label l) ∧ code[a]? = some (.goto l)

theorem LoopsWithin.append (h : LoopsWithin code lo hi spans) (h' : LoopsWithin code lo hi spans') :
    LoopsWithin code lo hi (spans ++ spans') :=
  fun b a hba => (List.mem_append.1 hba).elim (h b a) (h' b a)

namespace Region

/-- A piece jumps as any piece around it lets it. -/
theorem stretch (h : Region code lo hi spans) (hlo : lo' ≤ lo) (hhi : hi ≤ hi') (hs : ∀ s ∈ spans, s ∈ spans') :
    StretchWithin code lo' hi' spans' lo hi :=
  fun a ha ha' => (h.within a ha ha').mono hlo hhi hs

/-- The loops of a piece are in any piece around it. -/
theorem loops (h : Region code lo hi spans) (hlo : lo' ≤ lo) (hhi : hi ≤ hi') : LoopsWithin code lo' hi' spans := by
  intro b a hba
  obtain ⟨hb, hlt, ha, hlabel⟩ := h.back b a hba
  exact ⟨Nat.le_trans hlo hb, hlt, Nat.lt_of_lt_of_le ha hhi, hlabel⟩

/-- The loops of two pieces, one behind the other, jump back from different places. -/
theorem distinct_append (h : Region code lo mid spans) (h' : Region code lo' hi' spans')
    (hm : mid ≤ lo') : ((spans ++ spans').map Prod.snd).Nodup := by
  rw [List.map_append, List.nodup_append]
  refine ⟨h.distinct, h'.distinct, ?_⟩
  rintro x hx y hy rfl
  obtain ⟨⟨b, a⟩, hs, rfl⟩ := List.mem_map.1 hx
  obtain ⟨⟨b', a'⟩, hs', heq⟩ := List.mem_map.1 hy
  have h₁ := h.back b a hs
  have h₂ := h'.back b' a' hs'
  dsimp only at heq
  omega

/-! #### One piece for each way to put code together -/

theorem nil (lo : Nat) : Region code lo lo [] where
  within _ ha ha' := absurd ha' (Nat.not_lt.2 ha)
  back _ _ hba := absurd hba List.not_mem_nil
  distinct := List.nodup_nil

theorem plain {i : Instruction} (hi : code[lo]? = some i) (ht : i.target? = none) : Region code lo (lo + 1) [] where
  within := (JumpsWithin.quiet hi ht).stretch
  back _ _ hba := absurd hba List.not_mem_nil
  distinct := List.nodup_nil

theorem append (h : Region code lo mid spans) (h' : Region code mid hi spans') (hlo : lo ≤ mid) (hhi : mid ≤ hi) :
    Region code lo hi (spans ++ spans') where
  within := (h.stretch (Nat.le_refl _) hhi fun _ => List.mem_append_left _).append
    (h'.stretch hlo (Nat.le_refl _) fun _ => List.mem_append_right _)
  back := (h.loops (Nat.le_refl _) hhi).append (h'.loops hlo (Nat.le_refl _))
  distinct := h.distinct_append h' (Nat.le_refl _)

/-- A jump over a piece to the label behind it. -/
theorem skip {r : Rvalue} {l : String} (h : Region code (lo + 1) hi spans) (hle : lo < hi)
    (hfirst : code[lo]? = some (.ifz r l)) (hend : code[hi]? = some (.label l)) :
    Region code lo (hi + 1) spans where
  within := (JumpsWithin.to hfirst rfl hend (by omega) (by omega) (.inl hle)).stretch.append
    ((h.stretch (by omega) (by omega) fun _ => id).append (JumpsWithin.quiet hend rfl).stretch)
  back := h.loops (by omega) (by omega)
  distinct := h.distinct

/-- A jump over the first piece and the jump behind it, which leads over the second piece. -/
theorem choice {r : Rvalue} {l m : String} (h : Region code (lo + 1) mid spans)
    (h' : Region code (mid + 2) hi spans') (hlo : lo < mid) (hhi : mid + 2 ≤ hi)
    (hfirst : code[lo]? = some (.ifz r l)) (hgoto : code[mid]? = some (.goto m))
    (helse : code[mid + 1]? = some (.label l)) (hend : code[hi]? = some (.label m)) :
    Region code lo (hi + 1) (spans ++ spans') where
  within := by
    have hleft : StretchWithin code lo (hi + 1) (spans ++ spans') (lo + 1) mid :=
      h.stretch (by omega) (by omega) fun _ => List.mem_append_left spans'
    have hright : StretchWithin code lo (hi + 1) (spans ++ spans') (mid + 2) hi :=
      h'.stretch (by omega) (by omega) fun _ => List.mem_append_right spans
    have hover : JumpsWithin code lo (hi + 1) (spans ++ spans') lo :=
      .to hfirst rfl helse (by omega) (by omega) (.inl (by omega))
    have hout : JumpsWithin code lo (hi + 1) (spans ++ spans') mid :=
      .to hgoto rfl hend (by omega) (by omega) (.inl (by omega))
    have hlabels : StretchWithin code lo (hi + 1) (spans ++ spans') mid (mid + 2) :=
      hout.stretch.append (JumpsWithin.quiet helse rfl).stretch
    exact hover.stretch.append (hleft.append (hlabels.append (hright.append (JumpsWithin.quiet hend rfl).stretch)))
  back := (h.loops (by omega) (by omega)).append (h'.loops (by omega) (by omega))
  distinct := h.distinct_append h' (by omega)

/-- A label and a piece, a jump over the second piece, and behind that piece the jump back to the label. -/
theorem loop {r : Rvalue} {l m : String} (h : Region code (lo + 1) mid spans)
    (h' : Region code (mid + 1) hi spans') (hlo : lo < mid) (hhi : mid < hi)
    (hfirst : code[lo]? = some (.label l)) (hifz : code[mid]? = some (.ifz r m))
    (hgoto : code[hi]? = some (.goto l)) (hend : code[hi + 1]? = some (.label m)) :
    Region code lo (hi + 2) ((lo, hi) :: (spans ++ spans')) where
  within := by
    have hleft : StretchWithin code lo (hi + 2) ((lo, hi) :: (spans ++ spans')) (lo + 1) mid :=
      h.stretch (by omega) (by omega) fun s hs => List.mem_cons_of_mem _ (List.mem_append_left spans' hs)
    have hright : StretchWithin code lo (hi + 2) ((lo, hi) :: (spans ++ spans')) (mid + 1) hi :=
      h'.stretch (by omega) (by omega) fun s hs => List.mem_cons_of_mem _ (List.mem_append_right spans hs)
    have hout : JumpsWithin code lo (hi + 2) ((lo, hi) :: (spans ++ spans')) mid :=
      .to hifz rfl hend (by omega) (by omega) (.inl (by omega))
    have hback : JumpsWithin code lo (hi + 2) ((lo, hi) :: (spans ++ spans')) hi :=
      .to hgoto rfl hfirst (by omega) (by omega) (.inr List.mem_cons_self)
    have hlabels : StretchWithin code lo (hi + 2) ((lo, hi) :: (spans ++ spans')) hi (hi + 2) :=
      hback.stretch.append (JumpsWithin.quiet hend rfl).stretch
    exact (JumpsWithin.quiet hfirst rfl).stretch.append
      (hleft.append (hout.stretch.append (hright.append hlabels)))
  back := by
    intro b a hba
    rcases List.mem_cons.1 hba with hba | hba
    · cases hba
      exact ⟨by omega, by omega, by omega, l, hfirst, hgoto⟩
    · exact (h.loops (by omega) (by omega)).append (h'.loops (by omega) (by omega)) b a hba
  distinct := by
    have hinner : LoopsWithin code (lo + 1) hi (spans ++ spans') :=
      (h.loops (Nat.le_refl _) (by omega)).append (h'.loops (by omega) (Nat.le_refl _))
    rw [List.map_cons, List.nodup_cons]
    refine ⟨fun hmem => ?_, h.distinct_append h' (Nat.le_succ mid)⟩
    obtain ⟨⟨b, a⟩, hba, rfl⟩ := List.mem_map.1 hmem
    exact absurd (hinner b a hba).2.2.1 (Nat.lt_irrefl a)

end Region

end Regions

/-- What stands behind a prefix. -/
theorem getElem?_behind {code before behind : List Instruction} {i : Instruction} {n : Nat}
    (h : code = before ++ i :: behind) (hn : before.length = n) : code[n]? = some i := by
  simp [h, ← hn]

/-- What stands in the middle of code. -/
theorem mem_middle {code before middle behind : List Instruction} (hcode : code = before ++ middle ++ behind)
    {a : Nat} {i : Instruction} (hi : code[a]? = some i) (ha : before.length ≤ a)
    (ha' : a < before.length + middle.length) : i ∈ middle := by
  rw [hcode, List.append_assoc, List.getElem?_append_right ha, List.getElem?_append_left (by omega)] at hi
  exact List.mem_of_getElem? hi

namespace Structured

variable {ls : List Stmt} {c : List Instruction}

/-- **Nothing jumps into structured code**, where each label has one jump: the labels in it have theirs there. -/
theorem sealedOff (h : Structured ls c) {code before behind : List Instruction} (hcode : code = before ++ c ++ behind)
    (hu : (ThreeAddress.jumpTargets code).Nodup) : SealedOff code before.length (before.length + c.length) := by
  rintro a b ⟨i, l, hi, ht, hl⟩ hlo hhi
  have hlabel : l ∈ definedLabels c := mem_definedLabels (mem_middle hcode hl hlo hhi)
  obtain ⟨j, hj, htarget⟩ := List.mem_filterMap.1 (h.jumpTargets.mem_iff.2 hlabel)
  obtain ⟨e, he⟩ := List.getElem?_of_mem hj
  have hlt := (List.getElem?_eq_some_iff.1 he).1
  have hjump : code[before.length + e]? = some j := by
    rw [hcode, List.append_assoc, List.getElem?_append_right (Nat.le_add_right _ _), Nat.add_sub_cancel_left]
    exact getElem?_front he
  rw [place_unique hu hi ht hjump htarget]
  omega

/-- **Jumps of structured code.** -/
theorem region (h : Structured ls c) {code before behind : List Instruction} {lo hi : Nat}
    (hcode : code = before ++ c ++ behind) (hlo : before.length = lo) (hhi : lo + c.length = hi) :
    ∃ spans, Region code lo hi spans ∧ List.Forall₂ (LoopSpan code) ls spans := by
  induction h generalizing before behind lo hi with
  | nil =>
    subst hhi
    exact ⟨[], .nil lo, .nil⟩
  | @plain i hi =>
    subst hhi
    have hat : code[lo]? = some i := getElem?_behind (show code = before ++ i :: behind by simpa using hcode) hlo
    exact ⟨[], .plain hat (by cases i <;> first | rfl | cases hi), .nil⟩
  | @append ls ms c d _ _ ihc ihd =>
    rw [List.length_append] at hhi
    obtain ⟨spans, hr, hs⟩ := ihc (show code = before ++ c ++ (d ++ behind) by simpa using hcode) hlo rfl
    obtain ⟨spans', hr', hs'⟩ := ihd (show code = (before ++ c) ++ d ++ behind by simpa using hcode)
      (by simp [hlo]) (show lo + c.length + d.length = hi by omega)
    exact ⟨spans ++ spans', hr.append hr' (by omega) (by omega), List.rel_append hs hs'⟩
  | @skip ls c r l _ ih =>
    simp only [List.length_cons, List.length_append, List.length_nil] at hhi
    obtain rfl : hi = lo + 1 + c.length + 1 := by omega
    obtain ⟨spans, hr, hs⟩ := ih (show code = (before ++ [.ifz r l]) ++ c ++ .label l :: behind by simpa using hcode)
      (show _ = lo + 1 by simp [hlo]) rfl
    have hfirst := getElem?_behind
      (show code = before ++ .ifz r l :: (c ++ .label l :: behind) by simpa using hcode) hlo
    have hend := getElem?_behind
      (show code = (before ++ .ifz r l :: c) ++ .label l :: behind by simpa using hcode)
      (show _ = lo + 1 + c.length by simp [hlo]; omega)
    exact ⟨spans, hr.skip (by omega) hfirst hend, hs⟩
  | @choice ls ms c d r l m _ _ ihc ihd =>
    simp only [List.length_cons, List.length_append, List.length_nil] at hhi
    obtain rfl : hi = lo + 1 + c.length + 2 + d.length + 1 := by omega
    obtain ⟨spans, hr, hs⟩ := ihc (show code = (before ++ [.ifz r l]) ++ c ++
      .goto m :: .label l :: (d ++ .label m :: behind) by simpa using hcode) (show _ = lo + 1 by simp [hlo]) rfl
    obtain ⟨spans', hr', hs'⟩ := ihd (show code = (before ++ .ifz r l :: (c ++ [.goto m, .label l])) ++ d ++
      .label m :: behind by simpa using hcode) (show _ = lo + 1 + c.length + 2 by simp [hlo]; omega) rfl
    have hfirst := getElem?_behind (show code = before ++ .ifz r l ::
      (c ++ .goto m :: .label l :: (d ++ .label m :: behind)) by simpa using hcode) hlo
    have hgoto := getElem?_behind (show code = (before ++ .ifz r l :: c) ++ .goto m ::
      .label l :: (d ++ .label m :: behind) by simpa using hcode) (show _ = lo + 1 + c.length by simp [hlo]; omega)
    have helse := getElem?_behind (show code = (before ++ .ifz r l :: (c ++ [.goto m])) ++ .label l ::
      (d ++ .label m :: behind) by simpa using hcode) (show _ = lo + 1 + c.length + 1 by simp [hlo]; omega)
    have hend := getElem?_behind (show code = (before ++ .ifz r l :: (c ++ .goto m :: .label l :: d)) ++
      .label m :: behind by simpa using hcode) (show _ = lo + 1 + c.length + 2 + d.length by simp [hlo]; omega)
    exact ⟨spans ++ spans', hr.choice hr' (by omega) (by omega) hfirst hgoto helse hend, List.rel_append hs hs'⟩
  | @loop ls ms c d r l m s t g _ _ hs ihc ihd =>
    simp only [List.length_cons, List.length_append, List.length_nil] at hhi
    obtain rfl : hi = lo + 1 + c.length + 1 + d.length + 2 := by omega
    have hspan : LoopSpan code s (lo, lo + 1 + c.length + 1 + d.length) := by
      refine ⟨t, g, before, behind, by rw [hs]; exact hcode, hlo.symm, ?_⟩
      simp only [hs, hlo, List.length_cons, List.length_append, List.length_nil]
      exact hhi.symm
    obtain ⟨spans, hr, hl⟩ := ihc (show code = (before ++ [.label l]) ++ c ++
      .ifz r m :: (d ++ .goto l :: .label m :: behind) by simpa using hcode) (show _ = lo + 1 by simp [hlo]) rfl
    obtain ⟨spans', hr', hl'⟩ := ihd (show code = (before ++ .label l :: (c ++ [.ifz r m])) ++ d ++
      .goto l :: .label m :: behind by simpa using hcode) (show _ = lo + 1 + c.length + 1 by simp [hlo]; omega) rfl
    have hfirst := getElem?_behind (show code = before ++ .label l ::
      (c ++ .ifz r m :: (d ++ .goto l :: .label m :: behind)) by simpa using hcode) hlo
    have hifz := getElem?_behind (show code = (before ++ .label l :: c) ++ .ifz r m ::
      (d ++ .goto l :: .label m :: behind) by simpa using hcode) (show _ = lo + 1 + c.length by simp [hlo]; omega)
    have hgoto := getElem?_behind (show code = (before ++ .label l :: (c ++ .ifz r m :: d)) ++ .goto l ::
      .label m :: behind by simpa using hcode) (show _ = lo + 1 + c.length + 1 + d.length by simp [hlo]; omega)
    have hend := getElem?_behind (show code = (before ++ .label l :: (c ++ .ifz r m :: (d ++ [.goto l]))) ++
      .label m :: behind by simpa using hcode) (show _ = lo + 1 + c.length + 1 + d.length + 1 by simp [hlo]; omega)
    exact ⟨_, hr.loop hr' (by omega) (by omega) hfirst hifz hgoto hend, .cons hspan (List.rel_append hl hl')⟩

end Structured

end ThreeAddress
