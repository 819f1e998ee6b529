import Mathlib.Data.List.Forall2

/-!
# Options, results and lists that correspond

What two computations come to is related member by member: both answers are missing or both are there, both results
are values or both are errors, and the members of two lists stand for each other in order.

* `rel_some_left`, `rel_none_left` and the like — one answer told by the other;
* `Except.map_eq_ok`, `Except.eq_ok_of_toOption` — results that are values;
* `map_eq_of_forall₂`, `forM_eq_of_forall₂`, `foldlM_eq_of_forall₂` — what is done with two lists, member by member.
-/

namespace ThreeAddress

/-! ### Options -/

section Options

variable {α β : Type} {R R' : α → β → Prop} {a : α} {b : β} {o : Option α} {o' : Option β}

theorem rel_none_left (h : Option.Rel R none o') : o' = none := by
  cases h
  rfl

theorem rel_none_right (h : Option.Rel R o none) : o = none := by
  cases h
  rfl

theorem rel_some_left (h : Option.Rel R (some a) o') : ∃ b, o' = some b ∧ R a b := by
  cases h with
  | some hab => exact ⟨_, rfl, hab⟩

theorem rel_some_right (h : Option.Rel R o (some b)) : ∃ a, o = some a ∧ R a b := by
  cases h with
  | some hab => exact ⟨_, rfl, hab⟩

theorem rel_imp (h : Option.Rel R o o') (himp : ∀ a b, o' = some b → R a b → R' a b) : Option.Rel R' o o' := by
  cases h with
  | some hab => exact .some (himp _ _ rfl hab)
  | none => exact .none

end Options

/-! ### Results -/

section Results

variable {ε α β : Type} {x : Except ε α}

theorem Except.map_eq_ok {f : α → β} {b : β} (h : x.map f = .ok b) : ∃ a, x = .ok a ∧ f a = b := by
  cases x with
  | error e => cases h
  | ok a => exact ⟨a, rfl, Except.ok.inj h⟩

theorem Except.exists_map_eq_ok {f : α → β} : (∃ b, x.map f = .ok b) ↔ ∃ a, x = .ok a :=
  ⟨fun ⟨_, h⟩ => let ⟨a, ha, _⟩ := map_eq_ok h; ⟨a, ha⟩, fun ⟨a, ha⟩ => ⟨f a, by rw [ha]; rfl⟩⟩

theorem Except.eq_ok_of_toOption {a : α} (h : x.toOption = some a) : x = .ok a := by
  cases x with
  | error e => cases h
  | ok b => exact congrArg _ (Option.some.inj h)

theorem Except.exists_eq_ok (h : x.toOption.isSome) : ∃ a, x = .ok a := by
  obtain ⟨a, ha⟩ := Option.isSome_iff_exists.1 h
  exact ⟨a, Except.eq_ok_of_toOption ha⟩

end Results

/-! ### Lists -/

section Lists

variable {α β γ : Type} {m : Type → Type} [Monad m] {as : List α} {bs : List β}

theorem forall_mem_of_forall₂ {S : α → β → Prop} {P : α → Prop} (h : List.Forall₂ S as bs)
    (hp : ∀ a b, S a b → P a) : ∀ a ∈ as, P a :=
  ((List.forall₂_and_left as bs).1 (h.imp fun a b hab => ⟨hp a b hab, hab⟩)).1

theorem map_eq_of_forall₂ {f : α → γ} {g : β → γ} (h : List.Forall₂ (fun a b => f a = g b) as bs) :
    as.map f = bs.map g := by
  induction h with
  | nil => rfl
  | cons hab _ ih => rw [List.map_cons, List.map_cons, hab, ih]

/-- Members that correspond do so beside the members of another list. -/
theorem forall₂_zip {P : α → α → Prop} {as as' : List α} (h : List.Forall₂ P as as') (bs : List β) :
    List.Forall₂ (fun x x' => P x.1 x'.1 ∧ x.2 = x'.2) (as.zip bs) (as'.zip bs) := by
  induction h generalizing bs with
  | nil => exact .nil
  | cons ha _ ih =>
    cases bs with
    | nil => exact .nil
    | cons b more => exact .cons ⟨ha, rfl⟩ (ih more)

theorem forM_eq_of_forall₂ {f : α → m Unit} {g : β → m Unit}
    (h : List.Forall₂ (fun a b => f a = g b) as bs) : as.forM f = bs.forM g := by
  induction h with
  | nil => rfl
  | cons hab _ ih =>
    show (f _ >>= fun _ => _) = (g _ >>= fun _ => _)
    rw [hab, ih]

theorem mapM_eq_of_forall₂ [LawfulMonad m] {f : α → m γ} {g : β → m γ}
    (h : List.Forall₂ (fun a b => f a = g b) as bs) : as.mapM f = bs.mapM g := by
  induction h with
  | nil => rw [List.mapM_nil, List.mapM_nil]
  | cons hab _ ih => rw [List.mapM_cons, List.mapM_cons, hab, ih]

theorem foldlM_eq_of_forall₂ {f : γ → α → m γ} {g : γ → β → m γ}
    (h : List.Forall₂ (fun a b => ∀ c, f c a = g c b) as bs) (c : γ) : as.foldlM f c = bs.foldlM g c := by
  induction h generalizing c with
  | nil => rfl
  | cons hab _ ih =>
    rw [List.foldlM_cons, List.foldlM_cons, hab]
    exact congrArg (g c _ >>= ·) (funext ih)

end Lists

end ThreeAddress
