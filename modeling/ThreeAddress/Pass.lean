/-!
# Passes over a tree

A pass threads a state and records items in order.  Checking a program is a pass over symbol tables
that records faults; lowering is one over name supplies that records instructions.

* `Passed` — what a pass comes to: a value, the new state and the record;
* `Pass` — the monad of passes, whose record is appended in order;
* `Pass.tell` — record one item.
-/

namespace ThreeAddress

variable {σ ω α β : Type}

/-- What a pass comes to. -/
structure Passed (σ ω α : Type) where
  value : α
  state : σ
  record : List ω

/-- A computation that threads a state and records items. -/
def Pass (σ ω α : Type) : Type := σ → Passed σ ω α

namespace Pass

/-- Run a pass from a state. -/
def run (p : Pass σ ω α) (s : σ) : Passed σ ω α := p s

instance : Monad (Pass σ ω) where
  pure a := fun s => ⟨a, s, []⟩
  bind p f := fun s =>
    let x := p s
    let y := f x.value x.state
    ⟨y.value, y.state, x.record ++ y.record⟩

/-- Record one item. -/
def tell (item : ω) : Pass σ ω Unit := fun s => ⟨(), s, [item]⟩

/-- The state. -/
def get : Pass σ ω σ := fun s => ⟨s, s, []⟩

/-- Change the state. -/
def modify (f : σ → σ) : Pass σ ω Unit := fun s => ⟨(), f s, []⟩

/-! ### What running does -/

@[simp] theorem run_pure (a : α) (s : σ) : (pure a : Pass σ ω α).run s = ⟨a, s, []⟩ := rfl

@[simp] theorem run_bind (p : Pass σ ω α) (f : α → Pass σ ω β) (s : σ) :
    (p >>= f).run s =
      ⟨((f (p.run s).value).run (p.run s).state).value,
        ((f (p.run s).value).run (p.run s).state).state,
        (p.run s).record ++ ((f (p.run s).value).run (p.run s).state).record⟩ := rfl

@[simp] theorem run_map (f : α → β) (p : Pass σ ω α) (s : σ) :
    (f <$> p).run s = ⟨f (p.run s).value, (p.run s).state, (p.run s).record⟩ :=
  congrArg (Passed.mk _ _) (List.append_nil _)

@[simp] theorem run_tell (item : ω) (s : σ) : (tell item : Pass σ ω Unit).run s = ⟨(), s, [item]⟩ :=
  rfl

@[simp] theorem run_get (s : σ) : (get : Pass σ ω σ).run s = ⟨s, s, []⟩ := rfl

@[simp] theorem run_modify (f : σ → σ) (s : σ) :
    (modify f : Pass σ ω Unit).run s = ⟨(), f s, []⟩ := rfl

instance : LawfulMonad (Pass σ ω) :=
  LawfulMonad.mk' (Pass σ ω)
    (fun p => funext fun s => congrArg (Passed.mk (p s).value (p s).state) (List.append_nil _))
    (fun _ _ => rfl)
    (fun _ _ _ => funext fun _ => congrArg (Passed.mk _ _) (List.append_assoc _ _ _))

end Pass

end ThreeAddress
