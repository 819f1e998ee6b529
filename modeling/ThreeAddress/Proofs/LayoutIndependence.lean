import ThreeAddress.Compile
import ThreeAddress.Proofs.AlikeChecking
import ThreeAddress.Proofs.AlikeReading
import ThreeAddress.Proofs.CompiledRuns

/-!
# The layout of a source does not matter

Blanks and comments decide where the tokens of a source stand, and nothing else.  Compiling only carries these
places along, so sources of the same tokens come to the same: the same code and the same remarks, in the same
order, each at its own place.  A hint may name the position of an earlier declaration; these positions differ
too.

* `Refused.Alike`, `Compiled.Alike` — what compiling comes to, at corresponding places;
* `compile_alike` — compiling keeps any correspondence of places that merging keeps;
* `Fault.Agrees`, `Warning.Agrees` — remarks that are the same but for places;
* `compile_agrees_of_tokens` — sources of the same tokens.
-/

namespace ThreeAddress

variable {R : Span → Span → Prop}

/-! ### Results at corresponding places -/

/-- A source refused for one fault of reading, or for what checking finds. -/
inductive Refused.Alike (R : Span → Span → Prop) : Findings → Findings → Prop
  | reading {f f' : Fault} (h : SyntaxCause.Alike R f f') : Alike R (.single f) (.single f')
  | checking {f f' : Findings} (h : f.Alike R f') (hne : f.faults ≠ []) : Alike R f f'

/-- The same code, with the same warnings at corresponding places. -/
structure Compiled.Alike (R : Span → Span → Prop) (c c' : Compiled) : Prop where
  code : c.code = c'.code
  warnings : List.Forall₂ (Warning.Alike R) c.warnings c'.warnings

theorem Findings.Alike.isClean {f f' : Findings} (h : f.Alike R f') : f.isClean = f'.isClean := by
  have hfaults := h.faults
  unfold Findings.isClean
  generalize f.faults = faults at hfaults
  generalize f'.faults = faults' at hfaults
  cases hfaults with
  | nil => rfl
  | cons _ _ => rfl

theorem Findings.faults_ne_nil {f : Findings} (h : f.isClean = false) : f.faults ≠ [] := by
  intro hnil
  rw [Findings.isClean, hnil] at h
  cases h

theorem compile_of_tokenize {source : String} {ls : List Lexeme} (h : tokenize source = .ok ls) :
    compile source =
      match Program.ofLexemes ls with
      | .error fault => .error (.single fault)
      | .ok p => if p.analyze.isClean then .ok ⟨p.code, p.analyze.warnings⟩ else .error p.analyze := by
  rw [compile, Program.ofSource, h]
  rfl

/-- Compiling keeps any correspondence of places that merging keeps. -/
theorem compile_alike {source source' : String} {ls ls' : List Lexeme} (hm : Merging R)
    (h : tokenize source = .ok ls) (h' : tokenize source' = .ok ls')
    (hc : (Cursor.ofLexemes ls).Alike R (.ofLexemes ls')) :
    Except.Rel (Refused.Alike R) (Compiled.Alike R) (compile source) (compile source') := by
  have hread := Program.ofLexemes_alike hm hc
  rw [compile_of_tokenize h, compile_of_tokenize h']
  generalize Program.ofLexemes ls = o at hread
  generalize Program.ofLexemes ls' = o' at hread
  cases hread with
  | error hfault => exact .error (.reading hfault)
  | @ok p p' hp =>
    have hfindings := Program.analyze_alike hp
    dsimp only
    rw [← hfindings.isClean]
    by_cases hclean : p.analyze.isClean = true
    · rw [if_pos hclean, if_pos hclean]
      exact .ok ⟨hp.code, hfindings.warnings⟩
    · rw [if_neg hclean, if_neg hclean]
      exact .error (.checking hfindings (Findings.faults_ne_nil (Bool.eq_false_iff.2 hclean)))

/-! ### The same but for places -/

/-- The same fault, at any place.  Its hint may differ in the position of an earlier declaration. -/
structure Fault.Agrees (f f' : Fault) : Prop where
  code : f.code = f'.code
  message : f.message = f'.message
  hint : Option.Rel HintAlike f.hint f'.hint

/-- The same warning, at any place. -/
structure Warning.Agrees (w w' : Warning) : Prop where
  code : w.code = w'.code
  message : w.message = w'.message

/-- The same faults and the same warnings in the same order. -/
structure Findings.Agree (f f' : Findings) : Prop where
  faults : List.Forall₂ Fault.Agrees f.faults f'.faults
  warnings : List.Forall₂ Warning.Agrees f.warnings f'.warnings

/-- The same code, and the same warnings in the same order. -/
structure Compiled.Agrees (c c' : Compiled) : Prop where
  code : c.code = c'.code
  warnings : List.Forall₂ Warning.Agrees c.warnings c'.warnings

theorem SyntaxCause.Alike.agrees {f f' : Fault} (h : SyntaxCause.Alike R f f') : f.Agrees f' := by
  cases h with
  | fault cause _ => exact ⟨rfl, rfl, .none⟩

theorem SemanticCause.Alike.agrees {f f' : Fault} (h : SemanticCause.Alike R f f') : f.Agrees f' := by
  cases h with
  | fault cause _ hh => exact ⟨rfl, rfl, .some hh⟩

theorem Warning.Alike.agrees {w w' : Warning} (h : w.Alike R w') : w.Agrees w' := ⟨h.code, h.message⟩

theorem Refused.Alike.agree {f f' : Findings} (h : Refused.Alike R f f') : f.Agree f' := by
  cases h with
  | reading h => exact ⟨.cons h.agrees .nil, .nil⟩
  | checking h _ =>
    exact ⟨h.faults.imp fun _ _ => SemanticCause.Alike.agrees, h.warnings.imp fun _ _ => Warning.Alike.agrees⟩

theorem Compiled.Alike.agrees {c c' : Compiled} (h : c.Alike R c') : c.Agrees c' :=
  ⟨h.code, h.warnings.imp fun _ _ => Warning.Alike.agrees⟩

/-! ### Sources of the same tokens -/

/-- Wherever the same tokens stand, their places correspond if any two places do. -/
theorem Cursor.alike_of_tokens {ls ls' : List Lexeme} (h : ls.map (·.token) = ls'.map (·.token)) :
    (Cursor.ofLexemes ls).Alike (fun _ _ => True) (.ofLexemes ls') := by
  have hlexemes : List.Forall₂ (· = ·) (ls.map (·.token)) (ls'.map (·.token)) := by
    rw [List.forall₂_eq_eq_eq]
    exact h
  rw [List.forall₂_map_left_iff, List.forall₂_map_right_iff] at hlexemes
  exact ⟨hlexemes.imp fun _ _ htoken => ⟨htoken, trivial⟩, trivial⟩

/-- **Layout independence.**  Sources of the same tokens are both accepted or both refused.  If accepted, they have
the same code and the same warnings; if refused, the same faults and the same warnings; all in the same order, and
the same but for their places and the positions that hints name. -/
theorem compile_agrees_of_tokens {source source' : String} {ls ls' : List Lexeme} (h : tokenize source = .ok ls)
    (h' : tokenize source' = .ok ls') (htokens : ls.map (·.token) = ls'.map (·.token)) :
    Except.Rel Findings.Agree Compiled.Agrees (compile source) (compile source') := by
  have hmerging : Merging fun _ _ => True := fun _ _ _ _ _ _ => trivial
  have hresults := compile_alike hmerging h h' (Cursor.alike_of_tokens htokens)
  generalize compile source = o at hresults
  generalize compile source' = o' at hresults
  cases hresults with
  | ok hcompiled => exact .ok hcompiled.agrees
  | error hrefused => exact .error hrefused.agree

/-- A source that declares a name twice. -/
def twiceDeclaredSource : String := "main \x7b var x: integer; var x: integer; \x7d"

/-- The same tokens further apart. -/
def commentedSource : String :=
  "main /* twice */ \x7b\n  var x: integer; // first\n  var x: integer; // second\n\x7d\n"

/-- The faults that a source is refused for. -/
def faultsOf (source : String) : List Fault :=
  match compile source with
  | .ok _ => []
  | .error findings => findings.faults

theorem compile_agrees_of_tokens_commentedSource : ∃ ls ls', tokenize twiceDeclaredSource = .ok ls ∧
    tokenize commentedSource = .ok ls' ∧ ls.map (·.token) = ls'.map (·.token) ∧
    Except.Rel Findings.Agree Compiled.Agrees (compile twiceDeclaredSource) (compile commentedSource) ∧
    (faultsOf twiceDeclaredSource).map (·.hint) = [some "Previously declared at position 7"] ∧
    (faultsOf commentedSource).map (·.hint) = [some "Previously declared at position 21"] := by
  have htokens : (tokenize twiceDeclaredSource).toOption.map (·.map (·.token)) =
      (tokenize commentedSource).toOption.map (·.map (·.token)) := by decide +kernel
  obtain ⟨ls, h⟩ : ∃ ls, tokenize twiceDeclaredSource = .ok ls := Except.exists_eq_ok (by decide +kernel)
  obtain ⟨ls', h'⟩ : ∃ ls, tokenize commentedSource = .ok ls := Except.exists_eq_ok (by decide +kernel)
  rw [h, h'] at htokens
  replace htokens := Option.some.inj htokens
  exact ⟨ls, ls', h, h', htokens, compile_agrees_of_tokens h h' htokens, by decide +kernel, by decide +kernel⟩

end ThreeAddress
