import ThreeAddress.Proofs.ReusedGenerator

/-!
# Names that are asked for in turn

A supply is asked for labels, one or two at a time, for temporaries and for flags, and is moved on to further bodies
in between.  Whatever the order, it gives the numbered names between its counters, each of them once.

* `NameSupply.Request`, `NameSupply.answer`, `NameSupply.answerAll` — what a supply is asked for, and what it gives;
* `NameSupply.Issues` — the names between two supplies, each once: a row of one kind, or one such stretch behind
  another;
* `NameSupply.answer_issues`, `NameSupply.answerAll_issues` — what is given on one request, and on many in turn;
* `isReservedName_iff_letter_digits` — reserved names by their characters;
* `suppliedNames_fresh` — the names of a new supply are fresh and reserved, and no local is reserved.
-/

namespace ThreeAddress

open NameSupply (labelName tempName flagName)

namespace NameSupply

/-! ### Requests -/

/-- What a supply is asked for: one label or two, a temporary, a flag, or to go on to the ordinal of the next body. -/
inductive Request
  | label
  | labels
  | temp
  | flag
  | nextOrdinal
deriving DecidableEq

/-- The names given on a request, and the supply behind it. -/
def answer (s : NameSupply) : Request → List String × NameSupply
  | .label => ([s.takeLabel.1], s.takeLabel.2)
  | .labels => ([s.takeLabels.1.1, s.takeLabels.1.2], s.takeLabels.2)
  | .temp => ([s.takeTemp.1], s.takeTemp.2)
  | .flag => ([s.takeFlag.1], s.takeFlag.2)
  | .nextOrdinal => ([], s.nextOrdinal)

/-- The names given on each of some requests in turn, and the supply behind them. -/
def answerAll (s : NameSupply) : List Request → List (List String) × NameSupply
  | [] => ([], s)
  | r :: more => ((s.answer r).1 :: ((s.answer r).2.answerAll more).1, ((s.answer r).2.answerAll more).2)

/-- The form of the names given on a request.  Of two labels, the second has the next number. -/
def Request.Suits : Request → List String → Prop
  | .label, names => ∃ n, names = [labelName n]
  | .labels, names => ∃ n, names = [labelName n, labelName (n + 1)]
  | .temp, names => ∃ n, names = [tempName n]
  | .flag, names => ∃ n, names = [flagName n]
  | .nextOrdinal, names => names = []

theorem answer_suits (s : NameSupply) (r : Request) : r.Suits (s.answer r).1 := by
  cases r with
  | label => exact ⟨s.label, rfl⟩
  | labels => exact ⟨s.label, rfl⟩
  | temp => exact ⟨s.temp, rfl⟩
  | flag => exact ⟨s.flag, rfl⟩
  | nextOrdinal => rfl

theorem answerAll_suits (s : NameSupply) (requests : List Request) :
    List.Forall₂ Request.Suits requests (s.answerAll requests).1 := by
  induction requests generalizing s with
  | nil => exact .nil
  | cons r more ih => exact .cons (s.answer_suits r) (ih _)

/-! ### Names between two supplies -/

/-- Names that a supply gives on the way to another one: those with numbers in between, each once. -/
structure Issues (s : NameSupply) (names : List String) (s' : NameSupply) : Prop where
  grows : ∀ kind, s.next kind ≤ s'.next kind
  once : names.Nodup
  between : ∀ x, x ∈ names ↔ ∃ kind n, s.next kind ≤ n ∧ n < s'.next kind ∧ x = NameKind.name kind n

namespace Issues

variable {s s₁ s₂ : NameSupply} {xs ys : List String}

/-- Some names of one kind, with all the next numbers. -/
theorem row (kind : NameKind) (count : Nat)
    (hnext : ∀ other, s₁.next other = if other = kind then s.next other + count else s.next other) :
    s.Issues ((List.range' (s.next kind) count).map kind.name) s₁ := by
  have hinj : Function.Injective kind.name := fun _ _ h => (NameKind.name_inj h).2
  refine ⟨fun other => ?_, List.Nodup.map hinj List.nodup_range', fun x => ?_⟩
  · rw [hnext]
    split
    · exact Nat.le_add_right _ _
    · exact Nat.le_refl _
  · rw [List.mem_map]
    constructor
    · rintro ⟨n, hn, rfl⟩
      have hn := List.mem_range'_1.1 hn
      exact ⟨kind, n, hn.1, by rw [hnext, if_pos rfl]; exact hn.2, rfl⟩
    · rintro ⟨other, n, hlo, hhi, rfl⟩
      rw [hnext] at hhi
      split at hhi
      · rename_i hother
        subst hother
        exact ⟨n, List.mem_range'_1.2 ⟨hlo, hhi⟩, rfl⟩
      · exact absurd hhi (Nat.not_lt.2 hlo)

theorem nil (s : NameSupply) : s.Issues [] s := row .label 0 fun other => by cases other <;> rfl

/-- What is given first has smaller numbers than what is given behind it. -/
theorem append (h : s.Issues xs s₁) (h' : s₁.Issues ys s₂) : s.Issues (xs ++ ys) s₂ := by
  refine ⟨fun kind => Nat.le_trans (h.grows kind) (h'.grows kind), h.once.append h'.once ?_, fun x => ?_⟩
  · intro x hx hy
    obtain ⟨kind, n, -, hbelow, rfl⟩ := (h.between x).1 hx
    obtain ⟨other, m, habove, -, heq⟩ := (h'.between _).1 hy
    obtain ⟨rfl, rfl⟩ := NameKind.name_inj heq
    exact absurd hbelow (Nat.not_lt.2 habove)
  · rw [List.mem_append, h.between, h'.between]
    constructor
    · rintro (⟨kind, n, hlo, hhi, rfl⟩ | ⟨kind, n, hlo, hhi, rfl⟩)
      · exact ⟨kind, n, hlo, Nat.lt_of_lt_of_le hhi (h'.grows kind), rfl⟩
      · exact ⟨kind, n, Nat.le_trans (h.grows kind) hlo, hhi, rfl⟩
    · rintro ⟨kind, n, hlo, hhi, rfl⟩
      rcases Nat.lt_or_ge n (s₁.next kind) with hn | hn
      · exact .inl ⟨kind, n, hlo, hn, rfl⟩
      · exact .inr ⟨kind, n, hn, hhi, rfl⟩

/-- A name with a number is reserved. -/
theorem reserved (h : s.Issues xs s₁) {x : String} (hx : x ∈ xs) : isReservedName x = true := by
  obtain ⟨kind, n, -, -, rfl⟩ := (h.between x).1 hx
  exact kind.isReservedName_name n

end Issues

/-! ### Answers -/

/-- On one request, a supply gives a row of names of one kind: none, one or two. -/
theorem answer_issues (s : NameSupply) (r : Request) : s.Issues (s.answer r).1 (s.answer r).2 := by
  cases r with
  | label => exact .row .label 1 fun other => by cases other <;> rfl
  | labels => exact .row .label 2 fun other => by cases other <;> rfl
  | temp => exact .row .temp 1 fun other => by cases other <;> rfl
  | flag => exact .row .flag 1 fun other => by cases other <;> rfl
  | nextOrdinal => exact .row .label 0 fun other => by cases other <;> rfl

/-- **Names in turn.**  On requests in turn, a supply gives the names with numbers between its counters before and
behind them, each of them once. -/
theorem answerAll_issues (s : NameSupply) (requests : List Request) :
    s.Issues (s.answerAll requests).1.flatten (s.answerAll requests).2 := by
  induction requests generalizing s with
  | nil => exact .nil s
  | cons r more ih => exact (s.answer_issues r).append (ih _)

example : (first.answerAll [.label, .labels, .temp, .nextOrdinal, .label, .flag]).1 =
    [["L1"], ["L2", "L3"], ["t1"], [], ["L4"], ["c1"]] := by decide

end NameSupply

/-! ### Reserved names -/

/-- A reserved name is one of three letters before decimal digits. -/
theorem isReservedName_iff_letter_digits (x : String) :
    isReservedName x = true ↔ ∃ letter digits, (letter = 't' ∨ letter = 'c' ∨ letter = 'L') ∧ digits ≠ [] ∧
      (∀ d ∈ digits, '0' ≤ d ∧ d ≤ '9') ∧ x = String.ofList (letter :: digits) := by
  have hdigit (d : Char) : d.isDigit = true ↔ '0' ≤ d ∧ d ≤ '9' := by
    rw [Char.isDigit, Bool.and_eq_true, decide_eq_true_iff, decide_eq_true_iff]
    rfl
  have hchars (cs : List Char) : x.toList = cs ↔ x = String.ofList cs := by
    rw [← String.toList_inj, String.toList_ofList]
  simp only [isReservedName_iff, hdigit, hchars]
  constructor
  · rintro ⟨letter, digits, hx, hletter, hne, hdigits⟩
    exact ⟨letter, digits, hletter, hne, hdigits, hx⟩
  · rintro ⟨letter, digits, hletter, hne, hdigits, hx⟩
    exact ⟨letter, digits, hx, hletter, hne, hdigits⟩

/-- **Fresh names.**  Whatever a new supply is asked for in turn, each request gets names of its kind, two labels at
once have numbers one behind the other, no name is given twice, and each is reserved.  The reserved names are the
letters `t`, `c` and `L` before one or more decimal digits, so no local is reserved as it is written in code. -/
theorem suppliedNames_fresh :
    (∀ requests, List.Forall₂ NameSupply.Request.Suits requests (NameSupply.first.answerAll requests).1 ∧
      (NameSupply.first.answerAll requests).1.flatten.Nodup ∧
      ∀ x ∈ (NameSupply.first.answerAll requests).1.flatten, isReservedName x = true) ∧
    (∀ x, isReservedName x = true ↔
      ∃ letter digits, (letter = 't' ∨ letter = 'c' ∨ letter = 'L') ∧ digits ≠ [] ∧
        (∀ d ∈ digits, '0' ≤ d ∧ d ≤ '9') ∧ x = String.ofList (letter :: digits)) ∧
    ∀ l : LocalName, isReservedName l.text = false := by
  refine ⟨fun requests => ?_, isReservedName_iff_letter_digits, fun l => isReservedName_localText l.name l.ordinal⟩
  have hissues := NameSupply.first.answerAll_issues requests
  exact ⟨NameSupply.first.answerAll_suits requests, hissues.once, fun _ => hissues.reserved⟩

end ThreeAddress
