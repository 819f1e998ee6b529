import Mathlib.Data.List.Flatten
import ThreeAddress.Proofs.Grammar

/-!
# Matched parentheses

Parentheses are matched in everything that the expression part of the grammar derives.

* `Closed` — token lists with matched parentheses;
* `Closed.unique` — a closed list before a closing parenthesis is determined by the text;
* `Phrase.Derives.closed_exprs`, `Phrase.Derives.closed_conds` — expressions and conditions are closed.
-/

namespace ThreeAddress

variable {w : List Token}

/-! ### Closed token lists -/

/-- Token lists with matched parentheses. -/
inductive Closed : List Token → Prop
  | nil : Closed []
  | plain {t : Token} {w : List Token} (hl : t ≠ .mark .leftParen) (hr : t ≠ .mark .rightParen) :
      Closed w → Closed (t :: w)
  | group {u w : List Token} :
      Closed u → Closed w → Closed (.mark .leftParen :: (u ++ .mark .rightParen :: w))

namespace Closed

theorem append {u : List Token} (hu : Closed u) (hw : Closed w) : Closed (u ++ w) := by
  induction hu with
  | nil => exact hw
  | plain hl hr _ ih => exact .plain hl hr ih
  | @group u v hu _ _ ih =>
    have h := Closed.group hu ih
    simpa using h

theorem flatten {us : List (List Token)} (h : ∀ u ∈ us, Closed u) : Closed us.flatten := by
  induction us with
  | nil => exact .nil
  | cons u us ih =>
    obtain ⟨hu, hus⟩ := List.forall_mem_cons.1 h
    exact hu.append (ih hus)

/-- The parenthesis that closes a group is determined by the text. -/
theorem unique {u v x y : List Token} (hu : Closed u) (hv : Closed v)
    (h : u ++ .mark .rightParen :: x = v ++ .mark .rightParen :: y) : u = v ∧ x = y := by
  induction hu generalizing v x y with
  | nil =>
    cases hv with
    | nil => simpa using h
    | plain _ hr _ => simp_all
    | group => simp at h
  | plain hl hr _ ih =>
    cases hv with
    | nil => simp_all
    | plain _ _ hv =>
      simp only [List.cons_append, List.cons.injEq] at h
      obtain ⟨rfl, h⟩ := h
      obtain ⟨rfl, rfl⟩ := ih hv h
      exact ⟨rfl, rfl⟩
    | group => simp_all
  | group _ _ ihu ihw =>
    cases hv with
    | nil => simp at h
    | plain hl _ _ => simp_all
    | group hv hw =>
      simp only [List.cons_append, List.append_assoc, List.cons.injEq, true_and] at h
      obtain ⟨rfl, hrest⟩ := ihu hv h
      obtain ⟨rfl, rfl⟩ := ihw hw hrest
      exact ⟨rfl, rfl⟩

/-- A single token that is no parenthesis. -/
theorem single {t : Token} (hl : t ≠ .mark .leftParen) (hr : t ≠ .mark .rightParen) : Closed [t] :=
  .plain hl hr .nil

/-- Tokens in parentheses. -/
theorem parens {u : List Token} (hu : Closed u) :
    Closed (.mark .leftParen :: (u ++ [.mark .rightParen])) := .group hu .nil

end Closed

/-! ### Expressions and conditions -/

namespace Phrase.Derives

variable {r s : Phrase}

/-- A chain of closed parts is closed. -/
theorem closed_separated (hr : ∀ u, r.Derives u → u.length ≤ w.length → Closed u)
    (hs : ∀ u, s.Derives u → Closed u) (h : (separated r s).Derives w) : Closed w := by
  obtain ⟨u, us, hu, hus, rfl⟩ := derives_separated.1 h
  refine (hr u hu (by simp)).append (.flatten ?_)
  intro v hv
  obtain ⟨x, y, hx, hy, rfl⟩ := hus v hv
  have hlen : (x ++ y).length ≤ us.flatten.length := (List.sublist_flatten_of_mem hv).length_le
  refine (hs x hx).append (hr y hy ?_)
  simp only [List.length_append] at hlen ⊢
  omega

theorem closed_operand (h : operand.Derives w) : Closed w := by
  obtain ⟨x, rfl⟩ | ⟨d, rfl⟩ := derives_operand.1 h
  · exact .single (by simp) (by simp)
  · exact .single (by simp) (by simp)

theorem closed_sign (h : sign.Derives w) : Closed w := by
  obtain rfl | rfl := derives_sign.1 h
  · exact .single (by simp) (by simp)
  · exact .single (by simp) (by simp)

theorem closed_connective (h : connective.Derives w) : Closed w := by
  obtain rfl | rfl := derives_connective.1 h
  · exact .single (by simp) (by simp)
  · exact .single (by simp) (by simp)

theorem closed_args (h : (Phrase.sort .args).Derives w) : Closed w := by
  obtain rfl | h := derives_args.1 h
  · exact .nil
  · refine closed_separated (fun u hu _ => closed_operand hu) (fun u hu => ?_) h
    rw [derives_token.1 hu]
    exact .single (by simp) (by simp)

theorem closed_fragment (h : (Phrase.sort .fragment).Derives w) : Closed w := by
  obtain h | ⟨u, hu, rfl⟩ | ⟨x, rfl⟩ | rfl | rfl := derives_fragment.1 h
  · exact closed_operand h
  · exact .plain (by simp) (by simp) (closed_operand hu)
  · exact .plain (by simp) (by simp) (.single (by simp) (by simp))
  · exact .single (by simp) (by simp)
  · exact .single (by simp) (by simp)

theorem closed_term (hexpr : ∀ u, (Phrase.sort .expr).Derives u → u.length < w.length → Closed u)
    (h : (Phrase.sort .term).Derives w) : Closed w := by
  obtain ⟨u, hu, rfl⟩ | h | h := derives_term.1 h
  · refine .parens (hexpr u hu ?_)
    simp only [List.length_cons, List.length_append]
    omega
  · obtain ⟨x, u, hu, rfl⟩ := derives_call.1 h
    exact .plain (by simp) (by simp) (.parens (closed_args hu))
  · exact closed_fragment h

/-- Sums and expressions, by induction on their lengths. -/
theorem closed_exprs : ((Phrase.sort .arith).Derives w → Closed w) ∧
    ((Phrase.sort .expr).Derives w → Closed w) := by
  induction hn : w.length using Nat.strongRecOn generalizing w with
  | ind n ih =>
    have hterm : ∀ u, (Phrase.sort .term).Derives u → u.length ≤ n → Closed u := fun u hu hle =>
      closed_term (fun v hv hlt => (ih v.length (by omega) rfl).2 hv) hu
    have harith : ∀ u, (Phrase.sort .arith).Derives u → u.length ≤ n → Closed u := fun u hu hle =>
      closed_separated (fun v hv hlt => hterm v hv (by omega)) (fun v => closed_sign)
        (derives_sort.1 hu)
    refine ⟨fun h => harith w h (by omega), fun h => ?_⟩
    exact closed_separated (fun v hv hlt => harith v hv (by omega)) (fun v => closed_connective)
      (derives_sort.1 h)

theorem closed_catom (hcond : ∀ u, u.length < w.length →
      ((Phrase.sort .catom).Derives u → Closed u) ∧ ((Phrase.sort .cond).Derives u → Closed u))
    (h : (Phrase.sort .catom).Derives w) : Closed w := by
  obtain ⟨u, m, v, hu, hm, hv, rfl⟩ | ⟨u, hu, rfl⟩ | ⟨u, hu, rfl⟩ | rfl | rfl := derives_catom.1 h
  · refine (closed_exprs.1 hu).append (.plain ?_ ?_ (closed_exprs.1 hv))
    · rintro ⟨⟩
      cases hm
    · rintro ⟨⟩
      cases hm
  · exact .plain (by simp) (by simp) ((hcond u (by simp)).1 hu)
  · refine .parens ((hcond u ?_).2 hu)
    simp only [List.length_cons, List.length_append]
    omega
  · exact .single (by simp) (by simp)
  · exact .single (by simp) (by simp)

/-- Atoms and conditions, by induction on their lengths. -/
theorem closed_conds : ((Phrase.sort .catom).Derives w → Closed w) ∧
    ((Phrase.sort .cond).Derives w → Closed w) := by
  induction hn : w.length using Nat.strongRecOn generalizing w with
  | ind n ih =>
    have hcatom : ∀ u, (Phrase.sort .catom).Derives u → u.length ≤ n → Closed u := fun u hu hle =>
      closed_catom (fun v hlt => ih v.length (by omega) rfl) hu
    refine ⟨fun h => hcatom w h (by omega), fun h => ?_⟩
    exact closed_separated (fun v hv hlt => hcatom v hv (by omega)) (fun v => closed_connective)
      (derives_sort.1 h)

end Phrase.Derives

end ThreeAddress
