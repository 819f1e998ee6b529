import Mathlib.Data.List.Basic
import ThreeAddress.Proofs.PositionalReading

/-!
# Positions and cursors

A routine over positions and one over cursors come to the same if they are put together in the same way out of steps
that do.

* `Cursor.ofPosition`, `Cursor.StandsAt` — the cursor of a position;
* `Landing.Matches` — the same value or fault, the cursor standing at the position;
* `Landing.Matches.andThen`, `Landing.Matches.map`, `Landing.Matches.since` — one law for each way of putting routines
  together;
* `Positional.chain_matches`, `Positional.many_matches`, `Positional.commaList_matches` — repetitions, whose budget has
  to exceed the number of lexemes to come.

Nothing is said of landings without a value or a fault: they match no outcome.
-/

namespace ThreeAddress

variable {α β ω : Type} {k j n p : Nat} {ls : List Lexeme} {c : Cursor}

/-! ### The cursor of a position -/

theorem Cursor.next?_of_rest {l : Lexeme} {rest : List Lexeme} (h : c.rest = l :: rest) : c.next? = some l.token := by
  rw [next?, h]
  rfl

theorem Cursor.rest_of_next? {t : Token} (h : c.next? = some t) : ∃ s rest, c.rest = ⟨t, s⟩ :: rest := by
  obtain ⟨l, hl, rfl⟩ := Option.map_eq_some_iff.1 h
  exact ⟨l.span, List.head?_eq_some_iff.1 hl⟩

theorem Cursor.rest_of_second? {t u : Token} (h : c.next? = some t) (h' : c.second? = some u) :
    ∃ s s' rest, c.rest = ⟨t, s⟩ :: ⟨u, s'⟩ :: rest := by
  obtain ⟨s, rest, hrest⟩ := rest_of_next? h
  rw [second?, hrest, List.tail_cons] at h'
  obtain ⟨l, hl, rfl⟩ := Option.map_eq_some_iff.1 h'
  obtain ⟨more, rfl⟩ := List.head?_eq_some_iff.1 hl
  exact ⟨s, l.span, more, hrest⟩

/-- The cursor of a position in a list. -/
def Cursor.ofPosition (ls : List Lexeme) (p : Nat) : Cursor :=
  ⟨if p = 0 then none else ls[p - 1]?.map (·.span), ls.drop p⟩

/-- The cursor stands at a position, which is one of the list. -/
structure Cursor.StandsAt (c : Cursor) (ls : List Lexeme) (p : Nat) : Prop where
  le : p ≤ ls.length
  eq : c = .ofPosition ls p

namespace Cursor.StandsAt

theorem size (hc : c.StandsAt ls p) : c.size = ls.length - p := by
  rw [hc.eq, Cursor.size, ofPosition, List.length_drop]

theorem head? (hc : c.StandsAt ls p) : c.rest.head? = ls[p]? := by
  rw [hc.eq, ofPosition, List.head?_drop]

theorem second? (hc : c.StandsAt ls p) : c.second? = ls[p + 1]?.map (·.token) := by
  rw [Cursor.second?, hc.eq, ofPosition, List.tail_drop, List.head?_drop]

theorem of_rest {l : Lexeme} {rest : List Lexeme} (hc : c.StandsAt ls p) (h : c.rest = l :: rest) :
    ls[p]? = some l ∧ (Cursor.behind l rest).StandsAt ls (p + 1) := by
  have hl : ls[p]? = some l := by rw [← hc.head?, h, List.head?_cons]
  have hp : p < ls.length := (List.getElem?_eq_some_iff.1 hl).1
  have hrest : rest = ls.drop (p + 1) := by
    rw [← List.tail_drop, ← show c.rest = ls.drop p by rw [hc.eq, ofPosition], h, List.tail_cons]
  refine ⟨hl, hp, ?_⟩
  rw [Cursor.behind, ofPosition, if_neg (Nat.succ_ne_zero p), Nat.add_sub_cancel, hl, hrest]
  rfl

theorem of_rest_nil (hc : c.StandsAt ls p) (h : c.rest = []) : ls[p]? = none := by
  rw [← hc.head?, h, List.head?_nil]

/-- Behind the first lexeme there is one before the position. -/
theorem previous (hc : c.StandsAt ls p) (hp : 0 < p) : ∃ l, ls[p - 1]? = some l ∧ c.previous = some l.span := by
  have hlt : p - 1 < ls.length := by
    have hle := hc.le
    omega
  refine ⟨ls[p - 1], List.getElem?_eq_getElem hlt, ?_⟩
  rw [hc.eq, ofPosition, if_neg (Nat.pos_iff_ne_zero.1 hp), List.getElem?_eq_getElem hlt]
  rfl

end Cursor.StandsAt

/-! ### Landings and outcomes -/

/-- A landing is an outcome: there is the same value or the same fault, and the cursor stands at the position. -/
inductive Landing.Matches (ls : List Lexeme) : Landing α → Outcome k c α → Prop
  | done {a : α} {q : Nat} {d : Cursor} (hd : d.StandsAt ls q) (h : d.size + k ≤ c.size) :
      Matches ls (.done a q) (.done a d h)
  | failed {fault : Fault} {q : Nat} {d : Cursor} (hd : d.StandsAt ls q) (h : d.size ≤ c.size) :
      Matches ls (.failed fault q) (.failed fault d h)

namespace Landing.Matches

variable {m : Positional α} {o : Outcome k c α}

theorem since {d : Cursor} {x : Landing α} {o : Outcome j d α} (h : Matches ls x o) (hd : d.size + k ≤ c.size) :
    Matches ls x (o.since hd : Outcome k c α) := by
  cases h with
  | done hd h => exact .done hd _
  | failed hd h => exact .failed hd _

theorem weaken {x : Landing α} (h : Matches ls x o) : Matches ls x o.weaken := by
  cases h with
  | done hd h => exact .done hd _
  | failed hd h => exact .failed hd _

/-- One routine after another. -/
theorem andThen {g : α → Positional β} {f : α → (d : Cursor) → d.size + k ≤ c.size → Outcome j d β}
    (h : Matches ls (m ls p) o) (hf : ∀ a d q hd, d.StandsAt ls q → Matches ls (g a ls q) (f a d hd)) :
    Matches ls ((m >>= g) ls p) (o.andThen f) := by
  rw [Positional.bind_eq]
  generalize m ls p = x at h
  cases h with
  | done hd h => exact (hf _ _ _ h hd).since h
  | failed hd h => exact .failed hd h

theorem map {f : α → β} (h : Matches ls (m ls p) o) : Matches ls ((m >>= fun a => pure (f a)) ls p) (o.map f) := by
  rw [Positional.bind_eq]
  generalize m ls p = x at h
  cases h with
  | done hd h => exact .done hd h
  | failed hd h => exact .failed hd h

end Landing.Matches

namespace Positional

open Landing (Matches)

/-! ### Steps that only look -/

theorem bind_done {m : Positional α} {f : α → Positional β} {a : α} {q : Nat} (h : m ls p = .done a q) :
    (m >>= f) ls p = f a ls q := by
  rw [bind_eq, h]

theorem bind_failed {m : Positional α} {f : α → Positional β} {fault : Fault} {q : Nat} (h : m ls p = .failed fault q) :
    (m >>= f) ls p = .failed fault q := by
  rw [bind_eq, h]

theorem give_matches (hc : c.StandsAt ls p) (a : α) : Matches ls ((pure a : Positional α) ls p) (c.give a) :=
  .done hc _

theorem peek_eq (hc : c.StandsAt ls p) : peek ls p = .done c.next? p := by
  rw [Cursor.next?, hc.head?]
  rfl

theorem next_bind (hc : c.StandsAt ls p) (f : Option Lexeme → Positional α) :
    (ahead? 0 >>= f) ls p = f c.rest.head? ls p := by
  rw [hc.head?]
  exact bind_done rfl

theorem second_bind (hc : c.StandsAt ls p) (f : Option Token → Positional α) :
    (ahead? 1 >>= fun l => f (l.map (·.token))) ls p = f c.second? ls p := by
  rw [hc.second?]
  exact bind_done rfl

theorem peek_bind (hc : c.StandsAt ls p) (f : Option Token → Positional α) : (peek >>= f) ls p = f c.next? ls p :=
  bind_done (peek_eq hc)

theorem check_eq (hc : c.StandsAt ls p) (t : Token) : check t ls p = .done (decide (c.next? = some t)) p :=
  peek_bind hc _

theorem check_bind (hc : c.StandsAt ls p) (t : Token) (f : Bool → Positional α) :
    (check t >>= f) ls p = f (decide (c.next? = some t)) ls p :=
  bind_done (check_eq hc t)

/-- A choice by the next token. -/
theorem check_matches {t : Token} {m m' : Positional α} {o o' : Outcome k c α} (hc : c.StandsAt ls p)
    (h : c.next? = some t → Matches ls (m ls p) o) (h' : c.next? ≠ some t → Matches ls (m' ls p) o') :
    Matches ls ((check t >>= fun b => if b = true then m else m') ls p) (if c.next? = some t then o else o') := by
  rw [check_bind hc]
  by_cases ht : c.next? = some t
  · rw [if_pos ht, if_pos (decide_eq_true ht)]
    exact h ht
  · rw [if_neg ht, if_neg (by simpa using ht)]
    exact h' ht

/-- The lookup before the position finds a lexeme. -/
theorem previousSpan_eq (hc : c.StandsAt ls p) : previousSpan ls p = .done c.previousSpan p := by
  by_cases hp : 0 < p
  · obtain ⟨l, hl, hprevious⟩ := hc.previous hp
    have hlookup : lexemeAt (p - 1) ls p = .done l p := by rw [lexemeAt, hl]
    show (if 0 < p then lexemeAt (p - 1) >>= fun l => pure l.span else _ : Positional Span) ls p = _
    rw [if_pos hp, bind_done hlookup, Cursor.previousSpan, hprevious]
    rfl
  · obtain rfl : p = 0 := by omega
    rw [hc.eq]
    cases ls with
    | nil => rfl
    | cons l rest => rfl

theorem spanFrom_bind (hc : c.StandsAt ls p) (start : Span) (f : Span → Positional α) :
    (spanFrom start >>= f) ls p = f (c.spanFrom start) ls p := by
  apply bind_done
  rw [spanFrom, bind_done (previousSpan_eq hc)]
  rfl

/-- A value with the span from a start. -/
theorem spanned_matches (hc : c.StandsAt ls p) (start : Span) (f : Span → α) :
    Matches ls ((spanFrom start >>= fun s => pure (f s)) ls p) (c.give (f (c.spanFrom start))) := by
  rw [spanFrom_bind hc]
  exact give_matches hc _

theorem here_eq (hc : c.StandsAt ls p) : here ls p = .done c.here p := by
  have hspan : peekSpan ls p = .done (c.rest.head?.map (·.span)) p := by
    rw [hc.head?]
    rfl
  rw [here, bind_done hspan, Cursor.here]
  cases hrest : c.rest with
  | nil => exact previousSpan_eq hc
  | cons l rest => rfl

theorem fail_eq (hc : c.StandsAt ls p) (cause : SyntaxCause) :
    (fail cause ls p : Landing α) = .failed ⟨cause.code, cause.message, c.here, none⟩ p := by
  rw [fail, bind_done (here_eq hc)]
  rfl

theorem lacks_eq (hc : c.StandsAt ls p) (sort : Wanted) (wanted : String) :
    (lacks sort wanted ls p : Landing α) = fail (.missing sort wanted c.next?) ls p := peek_bind hc _

theorem fail_matches (hc : c.StandsAt ls p) (cause : SyntaxCause) :
    Matches ls (fail cause ls p : Landing α) (c.fail cause : Outcome k c α) := by
  rw [fail_eq hc]
  exact .failed hc _

/-- What would follow a failure does not run. -/
theorem bind_fail_matches {m : Positional β} {f : β → Positional α} {q : Nat} {cause : SyntaxCause}
    (hc : c.StandsAt ls q) (h : m ls p = fail cause ls q) :
    Matches ls ((m >>= f) ls p) (c.fail cause : Outcome k c α) := by
  rw [bind_failed (h.trans (fail_eq hc cause))]
  exact .failed hc _

theorem lacks_matches (hc : c.StandsAt ls p) (sort : Wanted) (wanted : String) :
    Matches ls (lacks sort wanted ls p : Landing α) (c.lacks sort wanted : Outcome k c α) := by
  rw [lacks_eq hc]
  exact fail_matches hc _

/-- Behind the first lexeme there is one to give back. -/
theorem stepBack_bind (f : Unit → Positional α) : (stepBack >>= f) ls (p + 1) = f () ls p := by
  apply bind_done
  rw [stepBack, if_neg (Nat.succ_ne_zero p), Nat.add_sub_cancel]

/-! ### Steps that take a lexeme -/

theorem advance_bind {l : Lexeme} (h : ls[p]? = some l) (f : Option Lexeme → Positional α) :
    (advance >>= f) ls p = f (some l) ls (p + 1) := by
  apply bind_done
  rw [advance, h]

theorem takeIf_matches (hc : c.StandsAt ls p) (pick : Token → Option α) (sort : Wanted) (wanted : String) :
    Matches ls (takeIf pick sort wanted ls p) (c.takeIf pick sort wanted) := by
  rw [takeIf, peek_bind hc, Cursor.takeIf]
  split
  · rename_i hrest
    rw [Cursor.next?, hrest]
    exact lacks_matches hc sort wanted
  · rename_i l rest hrest
    obtain ⟨hl, hd⟩ := hc.of_rest hrest
    have hnext := Cursor.next?_of_rest hrest
    rw [hnext, Option.bind_some]
    cases pick l.token with
    | none => exact lacks_matches hc sort wanted
    | some a =>
      show Matches ls ((advance >>= _) ls p) _
      rw [advance_bind hl]
      exact .done hd _

theorem expect_matches (hc : c.StandsAt ls p) (t : Token) (wanted : String) :
    Matches ls (expect t wanted ls p) (c.expect t wanted) :=
  (takeIf_matches hc _ _ _).map

theorem expectName_matches (hc : c.StandsAt ls p) (wanted : String) :
    Matches ls (expectName wanted ls p) (c.expectName wanted) :=
  takeIf_matches hc _ _ _

/-! ### Repetitions -/

/-- Operators and operands in turn, as far as the operands of the same number or fewer lexemes to come match. -/
theorem chain_matches {operator? : Token → Option ω} {join : ω → α → α → α} {N : Nat} {operand : Positional α}
    {read : (d : Cursor) → d.size < N → Outcome 1 d α}
    (hread : ∀ d q hd, d.StandsAt ls q → Matches ls (operand ls q) (read d hd)) (left : α) (hc : c.StandsAt ls p)
    (hN : c.size ≤ N) (hn : c.size < n) :
    Matches ls (chain operator? join operand n left ls p) (c.chain operator? join N read left hN) := by
  induction n generalizing c p left with
  | zero => omega
  | succ n ih =>
    rw [chain, peek_bind hc, Cursor.chain]
    split
    · rename_i hrest
      rw [Cursor.next?, hrest]
      exact give_matches hc left
    · rename_i l rest hrest
      have hnext := Cursor.next?_of_rest hrest
      obtain ⟨hl, hd⟩ := hc.of_rest hrest
      have hsize := Cursor.behind_size hrest
      rw [hnext, Option.bind_some]
      split
      · rename_i hop
        rw [hop]
        exact give_matches hc left
      · rename_i op hop
        rw [hop]
        show Matches ls ((advance >>= _) ls p) _
        rw [advance_bind hl]
        apply Matches.since
        apply Matches.andThen (hread _ _ _ hd)
        intro right e q he hq
        exact ih _ hq _ (by omega)

theorem many_matches {starts : Token → Bool} {N : Nat} {item : Positional α}
    {read : (d : Cursor) → d.size ≤ N → Outcome 1 d α}
    (hread : ∀ d q hd, d.StandsAt ls q → Matches ls (item ls q) (read d hd)) (hc : c.StandsAt ls p)
    (hN : c.size ≤ N) (hn : c.size < n) :
    Matches ls (many starts item n ls p) (c.many starts N read hN) := by
  induction n generalizing c p with
  | zero => omega
  | succ n ih =>
    rw [many, peek_bind hc, Cursor.many]
    by_cases hstarts : c.next?.any starts = true
    · rw [if_pos hstarts, if_pos hstarts]
      apply Matches.weaken
      apply Matches.andThen (hread c p hN hc)
      intro a d q hd hq
      exact (ih hq _ (by omega)).map
    · rw [if_neg hstarts, if_neg hstarts]
      exact give_matches hc []

theorem commaList_matches {item : Positional α} {read : (d : Cursor) → Outcome 1 d α}
    (hread : ∀ d q, d.StandsAt ls q → Matches ls (item ls q) (read d)) (hc : c.StandsAt ls p) (hn : c.size < n) :
    Matches ls (commaList item n ls p) (c.commaList read) := by
  induction n generalizing c p with
  | zero => omega
  | succ n ih =>
    rw [commaList, Cursor.commaList]
    apply Matches.andThen (hread c p hc)
    intro a d q hd hq
    split
    · rename_i hrest
      have hcheck : matchToken (.mark .comma) ls q = .done false q := by
        rw [matchToken, check_bind hq, Cursor.next?, hrest]
        rfl
      rw [bind_done hcheck]
      exact give_matches hq [a]
    · rename_i l rest hrest
      obtain ⟨hl, he⟩ := hq.of_rest hrest
      have hsize := Cursor.behind_size hrest
      have hnext := Cursor.next?_of_rest hrest
      by_cases hcomma : l.token = .mark .comma
      · have hcheck : matchToken (.mark .comma) ls q = .done true (q + 1) := by
          rw [matchToken, check_bind hq, hnext, hcomma, decide_eq_true rfl, if_pos rfl, advance_bind hl]
          rfl
        rw [bind_done hcheck, if_pos hcomma]
        exact (ih he (by omega)).map.since _
      · have hcheck : matchToken (.mark .comma) ls q = .done false q := by
          rw [matchToken, check_bind hq, hnext, decide_eq_false (by simpa using hcomma)]
          rfl
        rw [bind_done hcheck, if_neg hcomma]
        exact give_matches hq [a]

theorem listed_matches {item : Positional α} {read : (d : Cursor) → Outcome 1 d α}
    (hread : ∀ d q, d.StandsAt ls q → Matches ls (item ls q) (read d)) (hc : c.StandsAt ls p) (hn : c.size < n) :
    Matches ls (listed item n ls p)
      (if c.next? = some (.mark .rightParen) then c.give [] else (c.commaList read).weaken) := by
  rw [listed]
  apply check_matches hc
  · exact fun _ => give_matches hc []
  · exact fun _ => (commaList_matches hread hc hn).weaken

end Positional

end ThreeAddress
