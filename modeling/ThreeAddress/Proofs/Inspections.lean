import ThreeAddress.Checking.Program

/-!
# Checks that only look

Most checks look something up and report what is wrong with it.  Only calls, assignments and declarations change
the table.

* `Check.Looks` — a check that leaves every table as it is;
* `checkName_looks`, `Fragment.check_looks`, `checkArguments_looks` — names, fragments, arguments;
* `checkOperands_looks`, `checkReserved_looks` — operands, declared names.
-/

namespace ThreeAddress

variable {α β : Type}

/-- A check that leaves every table as it is. -/
def Check.Looks (p : Check α) : Prop := ∀ s, (p.run s).state = s

namespace Check.Looks

variable {p : Check α}

theorem pure (a : α) : Check.Looks (Pure.pure a) := fun _ => rfl

theorem report (cause : SemanticCause) (span : Span) (hint : String) :
    Check.Looks (Check.report cause span hint) := fun _ => rfl

theorem require (ok : Bool) (cause : SemanticCause) (span : Span) (hint : String) :
    Check.Looks (Check.require ok cause span hint) := by
  unfold Check.require
  split
  · exact pure ()
  · exact report cause span hint

theorem bind {f : α → Check β} (hp : Check.Looks p) (hf : ∀ a, Check.Looks (f a)) : Check.Looks (p >>= f) :=
  fun s => (hf (p.run s).value (p.run s).state).trans (hp s)

theorem get {f : SymbolTable → Check β} (hf : ∀ s, Check.Looks (f s)) : Check.Looks (Pass.get >>= f) :=
  fun s => hf s s

theorem mapM {f : β → Check α} (hf : ∀ b, Check.Looks (f b)) (bs : List β) : Check.Looks (bs.mapM f) := by
  induction bs with
  | nil =>
    rw [List.mapM_nil]
    exact pure []
  | cons b more ih =>
    rw [List.mapM_cons]
    exact (hf b).bind fun _ => ih.bind fun _ => pure _

end Check.Looks

open Check (Looks)

theorem checkName_looks (causes : NameCauses) (x : String) (span : Span) (hint : String) :
    Looks (checkName causes x span hint) := by
  refine .get fun s => ?_
  split
  · exact (Looks.report _ _ _).bind fun _ => .pure _
  · split
    · exact (Looks.report _ _ _).bind fun _ => .pure _
    · exact (Looks.require _ _ _ _).bind fun _ => .pure _

theorem Argument.check_looks (hint : String) (a : Argument) : Looks (a.check hint) := by
  unfold Argument.check
  split
  · exact .pure _
  · exact checkName_looks _ _ _ _

theorem checkArguments_looks (function hint : String) (position : Nat) (as : List (Argument × Yield × Ty)) :
    Looks (checkArguments function hint position as) := by
  induction as generalizing position with
  | nil => exact .pure ()
  | cons x more ih => exact (Looks.require _ _ _ _).bind fun _ => ih _

theorem checkOperands_looks (cause : Yield → SemanticCause) (expected : Ty) (l r : Yield) (span : Span)
    (hint : String) : Looks (checkOperands cause expected l r span hint) :=
  (Looks.require _ _ _ _).bind fun _ => .require _ _ _ _

theorem checkSigned_looks (cause : Yield → SemanticCause) (expected : Ty) (x : String) (span : Span)
    (hint : String) : Looks (checkSigned cause expected x span hint) := by
  refine (checkName_looks _ x span hint).bind fun found => ?_
  split
  · exact .pure _
  · exact (Looks.require _ _ _ _).bind fun _ => .pure _

theorem Fragment.check_looks (f : Fragment) (span : Span) : Looks (f.check span) := by
  unfold Fragment.check
  split
  · exact .pure _
  · exact .pure _
  · exact .pure _
  · exact checkName_looks _ _ _ _
  · exact checkSigned_looks _ _ _ _ _
  · exact checkSigned_looks _ _ _ _ _

theorem checkReserved_looks (x : String) (span : Span) : Looks (checkReserved x span) := .require _ _ _ _

end ThreeAddress
