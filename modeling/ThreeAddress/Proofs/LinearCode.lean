import Mathlib.Algebra.Order.Group.Multiset
import Mathlib.Data.Multiset.UnionInter
import ThreeAddress.Proofs.Mentions
import ThreeAddress.Proofs.StructuredCode

/-!
# Linear code

Code is linear if it takes its temporaries and flags from the supply in order, and reads each of them once.

* `ownNames` — the names of the supply among some texts;
* `Stock` — how many names have been given, and which of them have not been read yet;
* `Stock.Takes` — what one piece of code does to a stock: an instruction, or the four that store a predicate;
* `Linear` — linear code;
* `Linear.life` — a name that linear code takes and reads is set, carried along straight code, and read once.
-/

namespace ThreeAddress

open NameSupply (tempName flagName labelName)

/-! ### Names of the supply -/

/-- The names of the supply among some texts. -/
def ownNames (xs : List String) : Multiset String := ↑(xs.filter (isReservedName ·))

theorem mem_ownNames {xs : List String} {x : String} : x ∈ ownNames xs ↔ x ∈ xs ∧ isReservedName x = true := by
  rw [ownNames, Multiset.mem_coe, List.mem_filter]

theorem ownNames_append (xs ys : List String) : ownNames (xs ++ ys) = ownNames xs + ownNames ys := by
  rw [ownNames, List.filter_append, ← Multiset.coe_add]
  rfl

theorem ownNames_cons (x : String) (xs : List String) : ownNames (x :: xs) = ownNames [x] + ownNames xs :=
  ownNames_append [x] xs

theorem ownNames_own {x : String} (h : isReservedName x = true) : ownNames [x] = {x} := by
  rw [ownNames, List.filter_cons_of_pos h]
  rfl

theorem ownNames_other {x : String} (h : isReservedName x = false) : ownNames [x] = 0 := by
  rw [ownNames, List.filter_cons_of_neg (by rw [h]; exact Bool.false_ne_true)]
  rfl

/-! ### Stocks -/

/-- The numbers of the next temporary and the next flag, and the names that wait for their reading. -/
structure Stock where
  temp : Nat
  flag : Nat
  pending : Multiset String

namespace Stock

/-- A temporary or a flag that has been given. -/
def Gave (a : Stock) (x : String) : Prop :=
  (∃ k, k < a.temp ∧ x = tempName k) ∨ ∃ k, k < a.flag ∧ x = flagName k

theorem Gave.reserved {a : Stock} {x : String} (h : a.Gave x) : isReservedName x = true := by
  rcases h with ⟨k, -, rfl⟩ | ⟨k, -, rfl⟩
  · exact isReservedName_tempName k
  · exact isReservedName_flagName k

theorem gave_temp {a : Stock} {k : Nat} : a.Gave (tempName k) ↔ k < a.temp := by
  constructor
  · rintro (⟨j, hj, h⟩ | ⟨j, -, h⟩)
    · rw [NameSupply.tempName_inj h]
      exact hj
    · exact absurd h (NameSupply.tempName_ne_flagName k j)
  · intro h
    exact .inl ⟨k, h, rfl⟩

theorem gave_flag {a : Stock} {k : Nat} : a.Gave (flagName k) ↔ k < a.flag := by
  constructor
  · rintro (⟨j, -, h⟩ | ⟨j, hj, h⟩)
    · exact absurd h.symm (NameSupply.tempName_ne_flagName j k)
    · rw [NameSupply.flagName_inj h]
      exact hj
  · intro h
    exact .inr ⟨k, h, rfl⟩

theorem not_gave_temp (n k : Nat) (pending : Multiset String) : ¬(Stock.mk n k pending).Gave (tempName n) :=
  fun h => Nat.lt_irrefl n (gave_temp.1 h)

theorem not_gave_flag (n k : Nat) (pending : Multiset String) : ¬(Stock.mk n k pending).Gave (flagName k) :=
  fun h => Nat.lt_irrefl k (gave_flag.1 h)

/-- Behind the next temporary, only that one is new. -/
theorem new_temp {n k : Nat} {p q : Multiset String} {x : String} (hg : (Stock.mk (n + 1) k q).Gave x)
    (hn : ¬(Stock.mk n k p).Gave x) : x = tempName n := by
  rcases hg with ⟨j, hj, rfl⟩ | ⟨j, hj, rfl⟩
  · have hnot : ¬j < n := fun h => hn (.inl ⟨j, h, rfl⟩)
    have hlt : j < n + 1 := hj
    rw [show j = n by omega]
  · exact absurd (.inr ⟨j, hj, rfl⟩) hn

/-- Behind the next flag, only that one is new. -/
theorem new_flag {n k : Nat} {p q : Multiset String} {x : String} (hg : (Stock.mk n (k + 1) q).Gave x)
    (hn : ¬(Stock.mk n k p).Gave x) : x = flagName k := by
  rcases hg with ⟨j, hj, rfl⟩ | ⟨j, hj, rfl⟩
  · exact absurd (.inl ⟨j, hj, rfl⟩) hn
  · have hnot : ¬j < k := fun h => hn (.inr ⟨j, h, rfl⟩)
    have hlt : j < k + 1 := hj
    rw [show j = k by omega]

/-- What waits has been given, and waits for one reading. -/
structure Sound (a : Stock) : Prop where
  once : a.pending.Nodup
  gave : ∀ x ∈ a.pending, a.Gave x

theorem sound_zero (n k : Nat) : (Stock.mk n k 0).Sound :=
  ⟨Multiset.nodup_zero, fun x hx => absurd hx (Multiset.notMem_zero x)⟩

/-- What a piece of code does to a stock.  Nothing waits behind a label, a jump or a return, and only flags wait
while a predicate is stored. -/
inductive Takes : Stock → List Instruction → Stock → Prop
  | plain {n k : Nat} {i : Instruction} {rest : Multiset String} (hi : i.isPlain = true)
      (hd : ∀ x, i.dest? = some x → isReservedName x = false) :
      Takes ⟨n, k, ownNames i.uses + rest⟩ [i] ⟨n, k, rest⟩
  | temp {n k : Nat} {r : Rvalue} {rest : Multiset String} :
      Takes ⟨n, k, ownNames r.operands + rest⟩ [.assign (tempName n) r] ⟨n + 1, k, {tempName n} + rest⟩
  | join {n k : Nat} {x y : String} {op : Connective} {rest : Multiset String} :
      Takes ⟨n, k, ownNames [x, y] + rest⟩ [.assign (flagName k) (.binary x (.logic op) y)]
        ⟨n, k + 1, {flagName k} + rest⟩
  | atom {n k m : Nat} {r : Rvalue} {rest : Multiset String} (hr : ∀ x ∈ rest, ∃ j, x = flagName j) :
      Takes ⟨n, k, ownNames r.operands + rest⟩
        [.assign (flagName k) (.atom "false"), .ifz r (labelName m), .assign (flagName k) (.atom "true"),
          .label (labelName m)]
        ⟨n, k + 1, {flagName k} + rest⟩
  | turn {n k : Nat} {i : Instruction} (hi : i.isPlain = false) : Takes ⟨n, k, ownNames i.uses⟩ [i] ⟨n, k, 0⟩

end Stock

/-- Linear code, with the stocks before and behind it. -/
inductive Linear : Stock → List Instruction → Stock → Prop
  | nil {a : Stock} : Linear a [] a
  | cons {a b c : Stock} {piece more : List Instruction} (h : a.Takes piece b) (hm : Linear b more c) :
      Linear a (piece ++ more) c

theorem Linear.append {a b c : Stock} {code more : List Instruction} (h : Linear a code b)
    (h' : Linear b more c) : Linear a (code ++ more) c := by
  induction h with
  | nil => exact h'
  | @cons _ _ _ piece rest hp _ ih =>
    rw [List.append_assoc]
    exact .cons hp (ih h')

theorem Linear.single {a b : Stock} {piece : List Instruction} (h : a.Takes piece b) : Linear a piece b := by
  have hall := Linear.cons h .nil
  rwa [List.append_nil] at hall

/-! ### Pieces of a life -/

/-- Code in which a name is neither mentioned nor lost: control cannot come into it but at its beginning, and
a temporary sees neither label nor jump. -/
structure Carries (x : String) (code : List Instruction) : Prop where
  structured : Structured [] code
  numbered : ∀ l ∈ definedLabels code, isReservedName l = true
  plain : (∃ k, x = tempName k) → ∀ i ∈ code, i.isPlain = true
  silent : x ∉ mentioned code

/-- Code that sets a name: one instruction, or the four that store a predicate. -/
inductive Sets (x : String) : List Instruction → Prop
  | once {r : Rvalue} (hx : x ∉ r.operands)
      (hj : (∃ k, x = flagName k) → ∃ a op b, r = .binary a (.logic op) b) : Sets x [.assign x r]
  | twice {r : Rvalue} {m : Nat} (hx : x ∉ r.operands) (hf : ∃ k, x = flagName k) :
      Sets x [.assign x (.atom "false"), .ifz r (labelName m), .assign x (.atom "true"), .label (labelName m)]

/-- Code that carries a name to the one instruction that reads it. -/
def ReadsOnce (x : String) (code : List Instruction) : Prop :=
  ∃ before i behind, code = before ++ i :: behind ∧ Carries x before ∧ x ∈ i.uses ∧ i.dest? ≠ some x ∧
    x ∉ mentioned behind

/-- Code that sets a name and then reads it once. -/
def Lives (x : String) (code : List Instruction) : Prop :=
  ∃ before piece behind, code = before ++ (piece ++ behind) ∧ x ∉ mentioned before ∧ Sets x piece ∧
    ReadsOnce x behind

namespace Carries

variable {x : String} {code more : List Instruction}

theorem nil : Carries x [] := ⟨.nil, by simp [definedLabels], by simp, by simp⟩

theorem append (h : Carries x code) (h' : Carries x more) : Carries x (code ++ more) := by
  refine ⟨h.structured.append h'.structured, ?_, ?_, ?_⟩
  · intro l hl
    rw [definedLabels_append] at hl
    rcases List.mem_append.1 hl with hl | hl
    · exact h.numbered l hl
    · exact h'.numbered l hl
  · intro ht i hi
    rcases List.mem_append.1 hi with hi | hi
    · exact h.plain ht i hi
    · exact h'.plain ht i hi
  · rw [mentioned_append]
    intro hx
    rcases List.mem_append.1 hx with hx | hx
    · exact h.silent hx
    · exact h'.silent hx

theorem single {i : Instruction} (hi : i.isPlain = true) (hx : x ∉ i.mentions) : Carries x [i] := by
  refine ⟨.plain hi, ?_, ?_, by simpa using hx⟩
  · rw [definedLabels_other (by cases i <;> first | rfl | cases hi)]
    simp
  · intro _ j hj
    rw [List.mem_singleton.1 hj]
    exact hi

end Carries

theorem ReadsOnce.behind {x : String} {code more : List Instruction} (hc : Carries x code)
    (h : ReadsOnce x more) : ReadsOnce x (code ++ more) := by
  obtain ⟨before, i, behind, rfl, hb, hi, hd, hx⟩ := h
  exact ⟨code ++ before, i, behind, (List.append_assoc _ _ _).symm, hc.append hb, hi, hd, hx⟩

theorem ReadsOnce.before {x : String} {code more : List Instruction} (h : ReadsOnce x code)
    (hx : x ∉ mentioned more) : ReadsOnce x (code ++ more) := by
  obtain ⟨before, i, behind, rfl, hb, hi, hd, hbehind⟩ := h
  refine ⟨before, i, behind ++ more, by simp, hb, hi, hd, ?_⟩
  rw [mentioned_append, List.mem_append]
  intro h
  rcases h with h | h
  · exact hbehind h
  · exact hx h

/-! ### What one piece does -/

theorem Stock.Gave.mono {a b : Stock} {x : String} (h : a.Gave x) (ht : a.temp ≤ b.temp) (hf : a.flag ≤ b.flag) :
    b.Gave x := by
  rcases h with ⟨k, hk, rfl⟩ | ⟨k, hk, rfl⟩
  · exact .inl ⟨k, by omega, rfl⟩
  · exact .inr ⟨k, by omega, rfl⟩

/-- What a predicate and the name of its flag have in the instructions that store it. -/
theorem mem_mentioned_atom {x flag skip : String} {r : Rvalue} (hx : isReservedName x = true) :
    x ∈ mentioned [.assign flag (.atom "false"), .ifz r skip, .assign flag (.atom "true"), .label skip] ↔
      x = flag ∨ x ∈ r.operands := by
  have hfalse : x ≠ "false" := by
    rintro rfl
    exact absurd hx (by decide)
  have htrue : x ≠ "true" := by
    rintro rfl
    exact absurd hx (by decide)
  simp [Instruction.mentions, Rvalue.operands, hfalse, htrue]
  tauto

theorem mem_mentioned_assign {x dest : String} {r : Rvalue} :
    x ∈ mentioned [.assign dest r] ↔ x = dest ∨ x ∈ r.operands := by
  simp [Instruction.mentions]

theorem mem_mentioned_single {x : String} {i : Instruction} :
    x ∈ mentioned [i] ↔ i.dest? = some x ∨ x ∈ i.uses := by
  rw [mentioned_cons, mentioned_nil, List.append_nil, i.mem_mentions]

/-- What turns control stores nothing. -/
theorem Instruction.dest?_of_not_plain {i : Instruction} (hi : i.isPlain = false) : i.dest? = none := by
  cases i <;> first | rfl | cases hi

namespace Stock.Takes

variable {a b : Stock} {piece : List Instruction} {x : String}

/-- No number is given twice. -/
theorem grows (h : a.Takes piece b) : a.temp ≤ b.temp ∧ a.flag ≤ b.flag := by
  cases h with
  | plain | turn => exact ⟨Nat.le_refl _, Nat.le_refl _⟩
  | temp => exact ⟨Nat.le_succ _, Nat.le_refl _⟩
  | join | atom => exact ⟨Nat.le_refl _, Nat.le_succ _⟩

theorem gave (h : a.Takes piece b) (hx : a.Gave x) : b.Gave x := hx.mono h.grows.1 h.grows.2

/-- The names of the supply in a piece are those that wait in front of it and the one that it takes. -/
theorem mentions (h : a.Takes piece b) (hx : x ∈ mentioned piece) (hr : isReservedName x = true) :
    x ∈ a.pending ∨ x ∈ b.pending ∧ ¬a.Gave x := by
  cases h with
  | @plain n k i rest hi hd =>
    rcases mem_mentioned_single.1 hx with hx | hx
    · rw [hd x hx] at hr
      cases hr
    · exact .inl (Multiset.mem_add.2 (.inl (mem_ownNames.2 ⟨hx, hr⟩)))
  | @temp n k r rest =>
    rcases mem_mentioned_assign.1 hx with rfl | hx
    · exact .inr ⟨Multiset.mem_add.2 (.inl (Multiset.mem_singleton_self _)), not_gave_temp n k _⟩
    · exact .inl (Multiset.mem_add.2 (.inl (mem_ownNames.2 ⟨hx, hr⟩)))
  | @join n k y z op rest =>
    rcases mem_mentioned_assign.1 hx with rfl | hx
    · exact .inr ⟨Multiset.mem_add.2 (.inl (Multiset.mem_singleton_self _)), not_gave_flag n k _⟩
    · exact .inl (Multiset.mem_add.2 (.inl (mem_ownNames.2 ⟨hx, hr⟩)))
  | @atom n k m r rest _ =>
    rcases (mem_mentioned_atom hr).1 hx with rfl | hx
    · exact .inr ⟨Multiset.mem_add.2 (.inl (Multiset.mem_singleton_self _)), not_gave_flag n k _⟩
    · exact .inl (Multiset.mem_add.2 (.inl (mem_ownNames.2 ⟨hx, hr⟩)))
  | @turn n k i hi =>
    rcases mem_mentioned_single.1 hx with hx | hx
    · rw [Instruction.dest?_of_not_plain hi] at hx
      cases hx
    · exact .inl (mem_ownNames.2 ⟨hx, hr⟩)

/-- What waits behind a piece has waited before, or has been taken by it. -/
theorem pending (h : a.Takes piece b) (hx : x ∈ b.pending) : x ∈ a.pending ∨ ¬a.Gave x ∧ b.Gave x := by
  cases h with
  | plain _ _ => exact .inl (Multiset.mem_add.2 (.inr hx))
  | temp =>
    rcases Multiset.mem_add.1 hx with hx | hx
    · rw [Multiset.mem_singleton.1 hx]
      exact .inr ⟨not_gave_temp _ _ _, gave_temp.2 (Nat.lt_succ_self _)⟩
    · exact .inl (Multiset.mem_add.2 (.inr hx))
  | join | atom =>
    rcases Multiset.mem_add.1 hx with hx | hx
    · rw [Multiset.mem_singleton.1 hx]
      exact .inr ⟨not_gave_flag _ _ _, gave_flag.2 (Nat.lt_succ_self _)⟩
    · exact .inl (Multiset.mem_add.2 (.inr hx))
  | turn _ => cases Multiset.notMem_zero _ hx

theorem sound (h : a.Takes piece b) (ha : a.Sound) : b.Sound := by
  refine ⟨?_, fun x hx => ?_⟩
  · have honce := ha.once
    have hnew : ∀ x, ¬a.Gave x → x ∉ a.pending := fun x hx hp => hx (ha.gave x hp)
    cases h with
    | plain _ _ => exact (Multiset.nodup_add.1 honce).2.1
    | temp =>
      have hfresh := hnew _ (not_gave_temp _ _ _)
      refine Multiset.nodup_add.2 ⟨Multiset.nodup_singleton _, (Multiset.nodup_add.1 honce).2.1, ?_⟩
      rw [Multiset.singleton_disjoint]
      exact fun h => hfresh (Multiset.mem_add.2 (.inr h))
    | join | atom =>
      have hfresh := hnew _ (not_gave_flag _ _ _)
      refine Multiset.nodup_add.2 ⟨Multiset.nodup_singleton _, (Multiset.nodup_add.1 honce).2.1, ?_⟩
      rw [Multiset.singleton_disjoint]
      exact fun h => hfresh (Multiset.mem_add.2 (.inr h))
    | turn _ => exact Multiset.nodup_zero
  · rcases h.pending hx with hx | hx
    · exact h.gave (ha.gave x hx)
    · exact hx.2

/-- A straight instruction reads a name that waits, or carries it along. -/
theorem single_carries_or_reads {i : Instruction} {rest : Multiset String} (hi : i.isPlain = true)
    (hd : i.dest? ≠ some x) (hr : isReservedName x = true) (hn : (ownNames i.uses + rest).Nodup)
    (hx : x ∈ ownNames i.uses + rest) : Carries x [i] ∧ x ∈ rest ∨ ReadsOnce x [i] ∧ x ∉ rest := by
  by_cases hu : x ∈ i.uses
  · have hown : x ∈ ownNames i.uses := mem_ownNames.2 ⟨hu, hr⟩
    right
    refine ⟨⟨[], i, [], rfl, .nil, hu, hd, List.not_mem_nil⟩, ?_⟩
    exact Multiset.disjoint_left.1 (Multiset.nodup_add.1 hn).2.2 hown
  · have hown : x ∉ ownNames i.uses := fun h => hu (mem_ownNames.1 h).1
    left
    refine ⟨.single hi fun h => ?_, (Multiset.mem_add.1 hx).resolve_left hown⟩
    rcases (i.mem_mentions x).1 h with h | h
    · exact hd h
    · exact hu h

/-- The four instructions that store a predicate read a flag that waits, or carry it along. -/
theorem atom_carries_or_reads {k m : Nat} {r : Rvalue} {rest : Multiset String}
    (hf : ∀ x ∈ rest, ∃ j, x = flagName j) (hd : x ≠ flagName k) (hr : isReservedName x = true)
    (hn : (ownNames r.operands + rest).Nodup) (hx : x ∈ ownNames r.operands + rest) :
    let piece := [.assign (flagName k) (.atom "false"), .ifz r (labelName m), .assign (flagName k) (.atom "true"),
      .label (labelName m)]
    Carries x piece ∧ x ∈ rest ∨ ReadsOnce x piece ∧ x ∉ rest := by
  intro piece
  have hset (b : Bool) : x ∉ (Instruction.assign (flagName k) (.atom (boolText b))).mentions := by
    rw [Instruction.mem_mentions]
    rintro (h | h)
    · exact hd (Option.some.inj h).symm
    · rw [List.mem_singleton.1 h] at hr
      exact absurd hr (by cases b <;> decide)
  by_cases hu : x ∈ r.operands
  · right
    refine ⟨⟨[.assign (flagName k) (.atom "false")], .ifz r (labelName m), _, rfl, .single rfl (hset false), hu, ?_,
      ?_⟩, ?_⟩
    · exact fun h => by cases h
    · rw [mentioned_cons, List.mem_append]
      rintro (h | h)
      · exact hset true h
      · exact absurd h List.not_mem_nil
    · exact Multiset.disjoint_left.1 (Multiset.nodup_add.1 hn).2.2 (mem_ownNames.2 ⟨hu, hr⟩)
  · have hrest : x ∈ rest := (Multiset.mem_add.1 hx).resolve_left fun h => hu (mem_ownNames.1 h).1
    left
    refine ⟨⟨?_, ?_, ?_, ?_⟩, hrest⟩
    · exact .append (.plain (i := .assign _ _) rfl) (.skip (.plain (i := .assign _ _) rfl))
    · intro l hl
      rw [List.mem_singleton.1 (show l ∈ [labelName m] from hl)]
      exact isReservedName_labelName m
    · rintro ⟨j, rfl⟩
      obtain ⟨j', hj'⟩ := hf _ hrest
      exact absurd hj' (NameSupply.tempName_ne_flagName j j')
    · rw [mem_mentioned_atom hr]
      rintro (h | h)
      · exact hd h
      · exact hu h

/-- A name that waits is read once by a piece, or carried along. -/
theorem carries_or_reads (h : a.Takes piece b) (ha : a.Sound) (hx : x ∈ a.pending) :
    Carries x piece ∧ x ∈ b.pending ∨ ReadsOnce x piece ∧ x ∉ b.pending := by
  have hgave := ha.gave x hx
  have hr := hgave.reserved
  have hn := ha.once
  have hother {rest : Multiset String} {y : String} (hy : x ≠ y) : x ∈ {y} + rest ↔ x ∈ rest := by
    rw [Multiset.mem_add, Multiset.mem_singleton]
    exact ⟨fun h => h.resolve_left hy, .inr⟩
  cases h with
  | @plain n k i rest hi hd =>
    refine single_carries_or_reads hi (fun h => ?_) hr hn hx
    rw [hd x h] at hr
    cases hr
  | @temp n k r rest =>
    have hne : x ≠ tempName n := by
      rintro rfl
      exact not_gave_temp n k _ hgave
    rw [hother hne]
    exact single_carries_or_reads rfl (fun h => hne (Option.some.inj h).symm) hr hn hx
  | @join n k y z op rest =>
    have hne : x ≠ flagName k := by
      rintro rfl
      exact not_gave_flag n k _ hgave
    rw [hother hne]
    exact single_carries_or_reads rfl (fun h => hne (Option.some.inj h).symm) hr hn hx
  | @atom n k m r rest hf =>
    have hne : x ≠ flagName k := by
      rintro rfl
      exact not_gave_flag n k _ hgave
    rw [hother hne]
    exact atom_carries_or_reads hf hne hr hn hx
  | @turn n k i hi =>
    right
    refine ⟨⟨[], i, [], rfl, .nil, (mem_ownNames.1 hx).1, ?_, List.not_mem_nil⟩, Multiset.notMem_zero x⟩
    rw [Instruction.dest?_of_not_plain hi]
    exact fun h => by cases h

/-- A name that a piece takes is set by it, and waits behind it. -/
theorem sets (h : a.Takes piece b) (ha : a.Sound) (hn : ¬a.Gave x) (hg : b.Gave x) :
    Sets x piece ∧ x ∈ b.pending := by
  have hr := hg.reserved
  have hnot : ∀ us rest, a.pending = ownNames us + rest → x ∉ us := by
    intro us rest hp hx
    refine hn (ha.gave x ?_)
    rw [hp]
    exact Multiset.mem_add.2 (.inl (mem_ownNames.2 ⟨hx, hr⟩))
  cases h with
  | plain | turn => exact absurd hg hn
  | @temp n k r rest =>
    obtain rfl := new_temp hg hn
    refine ⟨.once (hnot _ _ rfl) fun hf => ?_, Multiset.mem_add.2 (.inl (Multiset.mem_singleton_self _))⟩
    obtain ⟨j, hj⟩ := hf
    exact absurd hj (NameSupply.tempName_ne_flagName n j)
  | @join n k y z op rest =>
    obtain rfl := new_flag hg hn
    exact ⟨.once (hnot _ _ rfl) fun _ => ⟨y, op, z, rfl⟩, Multiset.mem_add.2 (.inl (Multiset.mem_singleton_self _))⟩
  | @atom n k m r rest _ =>
    obtain rfl := new_flag hg hn
    exact ⟨.twice (hnot _ _ rfl) ⟨k, rfl⟩, Multiset.mem_add.2 (.inl (Multiset.mem_singleton_self _))⟩

end Stock.Takes

/-! ### Lives -/

namespace Linear

variable {a b : Stock} {code : List Instruction} {x : String}

theorem grows (h : Linear a code b) : a.temp ≤ b.temp ∧ a.flag ≤ b.flag := by
  induction h with
  | nil => exact ⟨Nat.le_refl _, Nat.le_refl _⟩
  | cons hp _ ih => exact ⟨Nat.le_trans hp.grows.1 ih.1, Nat.le_trans hp.grows.2 ih.2⟩

/-- A name that is given and does not wait is not mentioned any more. -/
theorem silent (h : Linear a code b) (hg : a.Gave x) (hx : x ∉ a.pending) : x ∉ mentioned code := by
  induction h with
  | nil => exact List.not_mem_nil
  | @cons a b c piece more hp _ ih =>
    rw [mentioned_append, List.mem_append]
    rintro (h | h)
    · rcases hp.mentions h hg.reserved with h | h
      · exact hx h
      · exact h.2 hg
    · refine ih (hp.gave hg) (fun h' => ?_) h
      rcases hp.pending h' with h' | h'
      · exact hx h'
      · exact h'.1 hg

/-- Every name of the supply that is mentioned has been given. -/
theorem gave_of_mentioned (h : Linear a code b) (ha : a.Sound) (hx : x ∈ mentioned code)
    (hr : isReservedName x = true) : b.Gave x := by
  induction h with
  | nil => cases hx
  | @cons a b c piece more hp hm ih =>
    rw [mentioned_append, List.mem_append] at hx
    rcases hx with hx | hx
    · have hb : b.Gave x := by
        rcases hp.mentions hx hr with h | h
        · exact hp.gave (ha.gave x h)
        · exact (hp.sound ha).gave x h.1
      exact hb.mono hm.grows.1 hm.grows.2
    · exact ih (hp.sound ha) hx

/-- A name that waits before the code and not behind it is read once. -/
theorem reads (h : Linear a code b) (ha : a.Sound) (hx : x ∈ a.pending) (hx' : x ∉ b.pending) :
    ReadsOnce x code := by
  induction h with
  | nil => exact absurd hx hx'
  | @cons a b c piece more hp hm ih =>
    rcases hp.carries_or_reads ha hx with ⟨hc, hb⟩ | ⟨hr, hb⟩
    · exact (ih (hp.sound ha) hb hx').behind hc
    · exact hr.before (hm.silent (hp.gave (ha.gave x hx)) hb)

/-- **Lives.**  A name that linear code takes, and that does not wait behind it, is set and then read once. -/
theorem life (h : Linear a code b) (ha : a.Sound) (hn : ¬a.Gave x) (hg : b.Gave x) (hx : x ∉ b.pending) :
    Lives x code := by
  induction h with
  | nil => exact absurd hg hn
  | @cons a b c piece more hp hm ih =>
    by_cases hb : b.Gave x
    · obtain ⟨hset, hwait⟩ := hp.sets ha hn hb
      exact ⟨[], piece, more, rfl, List.not_mem_nil, hset, hm.reads (hp.sound ha) hwait hx⟩
    · obtain ⟨before, set, behind, rfl, hsilent, hset, hread⟩ := ih (hp.sound ha) hb hg hx
      refine ⟨piece ++ before, set, behind, (List.append_assoc _ _ _).symm, ?_, hset, hread⟩
      rw [mentioned_append, List.mem_append]
      rintro (h | h)
      · rcases hp.mentions h hg.reserved with h | h
        · exact hn (ha.gave x h)
        · exact hb ((hp.sound ha).gave x h.1)
      · exact hsilent h

end Linear

end ThreeAddress
