import Mathlib.Data.List.Basic
import ThreeAddress.Token

/-!
# The grammar of the language

The concrete syntax as data, and the token lists that are derivable from it.

* `Phrase` — right-hand sides: tokens, nonterminals, sequences, alternatives, options, repetitions;
* `grammar` — the right-hand side of each nonterminal;
* `Phrase.Derives` — a token list is derivable from a right-hand side;
* `Phrase.derives_many`, `Phrase.derives_separated` — repetitions and chains, item by item;
* `Phrase.derives_term`, `Phrase.derives_stmt` and the like — the productions as equivalences.

The grammar is ambiguous: `!x == y` is a comparison of the fragment `!x` and also the negation of a
comparison, and it does not say how chains of operators group.  Derivability is all that is defined here.
-/

namespace ThreeAddress

/-! ### Right-hand sides -/

/-- The nonterminals. -/
inductive Nonterminal
  | program
  | decl
  | func
  | main
  | type
  | stmt
  | expr
  | arith
  | term
  | fragment
  | cond
  | catom
  | args
deriving DecidableEq

/-- What can stand on the right-hand side of a production. -/
inductive Phrase
  | token (t : Token)
  | id
  | num
  | sort (n : Nonterminal)
  | seq (parts : List Phrase)
  | oneOf (choices : List Phrase)
  | opt (part : Phrase)
  | many (part : Phrase)

namespace Phrase

/-- A reserved word. -/
abbrev word (k : Keyword) : Phrase := .token (.word k)

/-- An operator or a punctuation mark. -/
abbrev mark (m : Mark) : Phrase := .token (.mark m)

/-- Phrases with separators of one kind between them. -/
def separated (part separator : Phrase) : Phrase :=
  .seq [part, .many (.seq [separator, part])]

/-- One of two connectives. -/
def connective : Phrase := .oneOf [.mark .and, .mark .or]

/-- One of two arithmetic operators. -/
def sign : Phrase := .oneOf [.mark .plus, .mark .minus]

/-- One of six comparison operators. -/
def relation : Phrase :=
  .oneOf [.mark .less, .mark .greater, .mark .lessEqual, .mark .greaterEqual, .mark .equal,
    .mark .notEqual]

/-- A name or a numeral. -/
def operand : Phrase := .oneOf [.id, .num]

/-- A name with its type. -/
def typedName : Phrase := .seq [.id, .mark .colon, .sort .type]

/-- Statements between braces. -/
def block : Phrase := .seq [.mark .leftBrace, .many (.sort .stmt), .mark .rightBrace]

/-- A call. -/
def call : Phrase := .seq [.id, .mark .leftParen, .sort .args, .mark .rightParen]

end Phrase

open Phrase in
/-- The productions. -/
def grammar : Nonterminal → Phrase
  | .program => .seq [.many (.sort .decl), .many (.sort .func), .sort .main]
  | .decl =>
    .seq [.oneOf [.seq [word .var, typedName],
      .seq [word .const, typedName, mark .assign, .sort .expr]], mark .semicolon]
  | .func =>
    .seq [.sort .type, .id, mark .leftParen, .opt (separated typedName (mark .comma)),
      mark .rightParen, mark .leftBrace, .many (.sort .decl), .many (.sort .stmt), word .ret,
      mark .leftParen, .opt (.sort .expr), mark .rightParen, mark .semicolon, mark .rightBrace]
  | .main =>
    .seq [word .main, mark .leftBrace, .many (.sort .decl), .many (.sort .stmt), mark .rightBrace]
  | .type => .oneOf [word .integer, word .boolean, word .void]
  | .stmt =>
    .oneOf [.seq [.id, mark .assign, .sort .expr, mark .semicolon],
      .seq [call, mark .semicolon],
      block,
      .seq [word .ite, .sort .cond, block, word .otherwise, block],
      .seq [word .loop, .sort .cond, block],
      .seq [word .skip, mark .semicolon]]
  | .expr => separated (.sort .arith) connective
  | .arith => separated (.sort .term) sign
  | .term =>
    .oneOf [.seq [mark .leftParen, .sort .expr, mark .rightParen], call, .sort .fragment]
  | .fragment =>
    .oneOf [.seq [.opt (mark .minus), operand], .seq [mark .not, .id], word .true, word .false]
  | .cond => separated (.sort .catom) connective
  | .catom =>
    .oneOf [.seq [.sort .arith, relation, .sort .arith],
      .seq [mark .not, .sort .catom],
      .seq [mark .leftParen, .sort .cond, mark .rightParen],
      word .true, word .false]
  | .args => .opt (separated operand (mark .comma))

/-! ### Derivability -/

/-- A token list is derivable from a right-hand side. -/
inductive Phrase.Derives : Phrase → List Token → Prop
  | token (t : Token) : Derives (.token t) [t]
  | id (name : String) : Derives .id [.identifier name]
  | num (digits : String) : Derives .num [.number digits]
  | sort {n : Nonterminal} {w : List Token} : Derives (grammar n) w → Derives (.sort n) w
  | seqNil : Derives (.seq []) []
  | seqCons {r : Phrase} {rs : List Phrase} {u v : List Token} :
      Derives r u → Derives (.seq rs) v → Derives (.seq (r :: rs)) (u ++ v)
  | oneOf {r : Phrase} {rs : List Phrase} {w : List Token} :
      r ∈ rs → Derives r w → Derives (.oneOf rs) w
  | optNone {r : Phrase} : Derives (.opt r) []
  | optSome {r : Phrase} {w : List Token} : Derives r w → Derives (.opt r) w
  | manyNil {r : Phrase} : Derives (.many r) []
  | manyCons {r : Phrase} {u v : List Token} :
      Derives r u → Derives (.many r) v → Derives (.many r) (u ++ v)

namespace Phrase

variable {r s : Phrase} {rs : List Phrase} {w : List Token} {n : Nonterminal} {t : Token}

@[simp] theorem derives_token : (Phrase.token t).Derives w ↔ w = [t] := by
  constructor
  · rintro ⟨⟩
    rfl
  · rintro rfl
    exact .token t

@[simp] theorem derives_id : Phrase.id.Derives w ↔ ∃ name, w = [.identifier name] := by
  constructor
  · rintro ⟨⟩
    exact ⟨_, rfl⟩
  · rintro ⟨name, rfl⟩
    exact .id name

@[simp] theorem derives_num : Phrase.num.Derives w ↔ ∃ digits, w = [.number digits] := by
  constructor
  · rintro ⟨⟩
    exact ⟨_, rfl⟩
  · rintro ⟨digits, rfl⟩
    exact .num digits

/-- A nonterminal stands for its right-hand side. -/
theorem derives_sort : (Phrase.sort n).Derives w ↔ (grammar n).Derives w := by
  constructor
  · rintro ⟨⟩
    assumption
  · exact .sort

@[simp] theorem derives_seq_nil : (Phrase.seq []).Derives w ↔ w = [] := by
  constructor
  · rintro ⟨⟩
    rfl
  · rintro rfl
    exact .seqNil

@[simp] theorem derives_seq_cons :
    (Phrase.seq (r :: rs)).Derives w ↔ ∃ u v, r.Derives u ∧ (Phrase.seq rs).Derives v ∧ w = u ++ v := by
  constructor
  · rintro ⟨⟩
    exact ⟨_, _, ‹_›, ‹_›, rfl⟩
  · rintro ⟨u, v, hu, hv, rfl⟩
    exact .seqCons hu hv

@[simp] theorem derives_oneOf : (Phrase.oneOf rs).Derives w ↔ ∃ r ∈ rs, r.Derives w := by
  constructor
  · rintro ⟨⟩
    exact ⟨_, ‹_›, ‹_›⟩
  · rintro ⟨r, hr, hw⟩
    exact .oneOf hr hw

@[simp] theorem derives_opt : (Phrase.opt r).Derives w ↔ w = [] ∨ r.Derives w := by
  constructor
  · rintro ⟨⟩
    · exact .inl rfl
    · exact .inr ‹_›
  · rintro (rfl | h)
    · exact .optNone
    · exact .optSome h

/-- A repetition is a list of items put one behind the other. -/
theorem derives_many :
    (Phrase.many r).Derives w ↔ ∃ us : List (List Token), (∀ u ∈ us, r.Derives u) ∧ w = us.flatten := by
  constructor
  · intro h
    generalize hp : Phrase.many r = p at h
    induction h with
    | manyNil => exact ⟨[], by simp, rfl⟩
    | manyCons hu _ _ ih =>
      cases hp
      obtain ⟨us, hus, rfl⟩ := ih rfl
      exact ⟨_ :: us, List.forall_mem_cons.2 ⟨hu, hus⟩, rfl⟩
    | _ => cases hp
  · rintro ⟨us, hus, rfl⟩
    induction us with
    | nil => exact .manyNil
    | cons u us ih =>
      obtain ⟨hu, hus⟩ := List.forall_mem_cons.1 hus
      exact .manyCons hu (ih hus)

/-- A chain is a first item, and further ones with a separator before each. -/
theorem derives_separated :
    (separated r s).Derives w ↔ ∃ u, ∃ us : List (List Token), r.Derives u ∧
      (∀ v ∈ us, ∃ x y, s.Derives x ∧ r.Derives y ∧ v = x ++ y) ∧ w = u ++ us.flatten := by
  simp only [separated, derives_seq_cons, derives_seq_nil, derives_many]
  constructor
  · rintro ⟨u, _, hu, ⟨_, _, ⟨us, hus, rfl⟩, rfl, rfl⟩, rfl⟩
    refine ⟨u, us, hu, ?_, by rw [List.append_nil]⟩
    intro v hv
    obtain ⟨x, _, hx, ⟨y, _, hy, rfl, rfl⟩, rfl⟩ := hus v hv
    exact ⟨x, y, hx, hy, by rw [List.append_nil]⟩
  · rintro ⟨u, us, hu, hus, rfl⟩
    refine ⟨u, _, hu, ⟨us.flatten, [], ⟨us, ?_, rfl⟩, rfl, rfl⟩, by rw [List.append_nil]⟩
    intro v hv
    obtain ⟨x, y, hx, hy, rfl⟩ := hus v hv
    exact ⟨x, _, hx, ⟨y, [], hy, rfl, rfl⟩, by rw [List.append_nil]⟩

/-- A chain with one link more. -/
theorem Derives.link {x y : List Token} (hw : (separated r s).Derives w) (hx : s.Derives x)
    (hy : r.Derives y) : (separated r s).Derives (w ++ (x ++ y)) := by
  obtain ⟨u, us, hu, hus, rfl⟩ := derives_separated.1 hw
  refine derives_separated.2 ⟨u, us ++ [x ++ y], hu, ?_, by simp⟩
  intro v hv
  rcases List.mem_append.1 hv with hv | hv
  · exact hus v hv
  · rw [List.mem_singleton] at hv
    exact ⟨x, y, hx, hy, hv⟩

/-- A chain without links. -/
theorem Derives.single (hw : r.Derives w) : (separated r s).Derives w :=
  derives_separated.2 ⟨w, [], hw, by simp, by simp⟩

/-! ### What the nonterminals derive -/

theorem derives_connective :
    connective.Derives w ↔ w = [.mark .and] ∨ w = [.mark .or] := by
  simp [connective]

theorem derives_sign : sign.Derives w ↔ w = [.mark .plus] ∨ w = [.mark .minus] := by
  simp [sign]

theorem derives_relation :
    relation.Derives w ↔ ∃ m : Mark, m.isComparison = true ∧ w = [.mark m] := by
  simp only [relation, derives_oneOf, List.mem_cons, List.not_mem_nil, or_false]
  constructor
  · rintro ⟨r, rfl | rfl | rfl | rfl | rfl | rfl, hr⟩
    all_goals exact ⟨_, rfl, derives_token.1 hr⟩
  · rintro ⟨m, hm, rfl⟩
    cases m <;> simp [Mark.isComparison] at hm ⊢

theorem derives_operand :
    operand.Derives w ↔ (∃ x, w = [.identifier x]) ∨ ∃ d, w = [.number d] := by
  simp [operand]

theorem derives_type :
    (Phrase.sort .type).Derives w ↔ ∃ k : Keyword, k.isType = true ∧ w = [.word k] := by
  simp only [derives_sort, grammar, derives_oneOf, List.mem_cons, List.not_mem_nil, or_false]
  constructor
  · rintro ⟨r, rfl | rfl | rfl, hr⟩
    all_goals exact ⟨_, rfl, derives_token.1 hr⟩
  · rintro ⟨k, hk, rfl⟩
    cases k <;> simp [Keyword.isType] at hk ⊢

theorem derives_typedName :
    typedName.Derives w ↔
      ∃ x u, (Phrase.sort .type).Derives u ∧ w = .identifier x :: .mark .colon :: u := by
  simp [typedName]

theorem derives_args :
    (Phrase.sort .args).Derives w ↔ w = [] ∨ (separated operand (mark .comma)).Derives w := by
  rw [derives_sort]
  simp [grammar]

theorem derives_call :
    call.Derives w ↔ ∃ x u, (Phrase.sort .args).Derives u ∧
      w = .identifier x :: .mark .leftParen :: (u ++ [.mark .rightParen]) := by
  simp [call]

theorem derives_fragment :
    (Phrase.sort .fragment).Derives w ↔
      operand.Derives w ∨ (∃ u, operand.Derives u ∧ w = .mark .minus :: u) ∨
      (∃ x, w = [.mark .not, .identifier x]) ∨ w = [.word .true] ∨ w = [.word .false] := by
  simp [derives_sort, grammar, or_assoc]

theorem derives_term :
    (Phrase.sort .term).Derives w ↔
      (∃ u, (Phrase.sort .expr).Derives u ∧ w = .mark .leftParen :: (u ++ [.mark .rightParen])) ∨
      call.Derives w ∨ (Phrase.sort .fragment).Derives w := by
  rw [derives_sort]
  simp [grammar]

theorem derives_catom :
    (Phrase.sort .catom).Derives w ↔
      (∃ u m v, (Phrase.sort .arith).Derives u ∧ m.isComparison = true ∧
        (Phrase.sort .arith).Derives v ∧ w = u ++ .mark m :: v) ∨
      (∃ u, (Phrase.sort .catom).Derives u ∧ w = .mark .not :: u) ∨
      (∃ u, (Phrase.sort .cond).Derives u ∧ w = .mark .leftParen :: (u ++ [.mark .rightParen])) ∨
      w = [.word .true] ∨ w = [.word .false] := by
  rw [derives_sort]
  simp [grammar, derives_relation, and_assoc]

theorem derives_block :
    block.Derives w ↔ ∃ u, (many (.sort .stmt)).Derives u ∧
      w = .mark .leftBrace :: (u ++ [.mark .rightBrace]) := by
  simp [block]

theorem derives_stmt :
    (Phrase.sort .stmt).Derives w ↔
      (∃ x u, (Phrase.sort .expr).Derives u ∧
        w = .identifier x :: .mark .assign :: (u ++ [.mark .semicolon])) ∨
      (∃ u, call.Derives u ∧ w = u ++ [.mark .semicolon]) ∨
      block.Derives w ∨
      (∃ u v z, (Phrase.sort .cond).Derives u ∧ block.Derives v ∧ block.Derives z ∧
        w = .word .ite :: (u ++ (v ++ .word .otherwise :: z))) ∨
      (∃ u v, (Phrase.sort .cond).Derives u ∧ block.Derives v ∧ w = .word .loop :: (u ++ v)) ∨
      w = [.word .skip, .mark .semicolon] := by
  rw [derives_sort]
  simp [grammar, and_assoc]

theorem derives_decl :
    (Phrase.sort .decl).Derives w ↔
      (∃ u, typedName.Derives u ∧ w = .word .var :: (u ++ [.mark .semicolon])) ∨
      ∃ u v, typedName.Derives u ∧ (Phrase.sort .expr).Derives v ∧
        w = .word .const :: (u ++ .mark .assign :: (v ++ [.mark .semicolon])) := by
  rw [derives_sort]
  simp only [grammar, derives_seq_cons, derives_seq_nil, derives_oneOf, derives_token, List.mem_cons,
    List.not_mem_nil, or_false]
  constructor
  · rintro ⟨_, _, ⟨_, rfl | rfl, h⟩, ⟨_, _, rfl, rfl, rfl⟩, rfl⟩
    · simp only [derives_seq_cons, derives_seq_nil, derives_token] at h
      obtain ⟨_, _, rfl, ⟨u, _, hu, rfl, rfl⟩, rfl⟩ := h
      exact .inl ⟨u, hu, by simp⟩
    · simp only [derives_seq_cons, derives_seq_nil, derives_token] at h
      obtain ⟨_, _, rfl, ⟨u, _, hu, ⟨_, _, rfl, ⟨v, _, hv, rfl, rfl⟩, rfl⟩, rfl⟩, rfl⟩ := h
      exact .inr ⟨u, v, hu, hv, by simp⟩
  · rintro (⟨u, hu, rfl⟩ | ⟨u, v, hu, hv, rfl⟩)
    · exact ⟨.word .var :: u, [.mark .semicolon], ⟨_, .inl rfl, by simp [hu]⟩, by simp, by simp⟩
    · exact ⟨.word .const :: (u ++ .mark .assign :: v), [.mark .semicolon],
        ⟨_, .inr rfl, by simpa using ⟨u, v, ⟨hu, hv⟩, rfl⟩⟩, by simp, by simp⟩

theorem derives_func :
    (Phrase.sort .func).Derives w ↔ ∃ t x ps ds ss e, (Phrase.sort .type).Derives t ∧
      (Phrase.opt (separated typedName (mark .comma))).Derives ps ∧
      (Phrase.many (.sort .decl)).Derives ds ∧ (Phrase.many (.sort .stmt)).Derives ss ∧
      (Phrase.opt (.sort .expr)).Derives e ∧
      w = t ++ .identifier x :: .mark .leftParen :: (ps ++ .mark .rightParen :: .mark .leftBrace ::
        (ds ++ (ss ++ .word .ret :: .mark .leftParen ::
          (e ++ [.mark .rightParen, .mark .semicolon, .mark .rightBrace])))) := by
  rw [derives_sort]
  simp only [grammar, derives_seq_cons, derives_seq_nil, derives_token, derives_id]
  constructor
  · rintro ⟨t, _, ht, ⟨_, _, ⟨x, rfl⟩, ⟨_, _, rfl, ⟨ps, _, hps, ⟨_, _, rfl, ⟨_, _, rfl,
      ⟨ds, _, hds, ⟨ss, _, hss, ⟨_, _, rfl, ⟨_, _, rfl, ⟨e, _, he, ⟨_, _, rfl, ⟨_, _, rfl,
      ⟨_, _, rfl, rfl, rfl⟩, rfl⟩, rfl⟩, rfl⟩, rfl⟩, rfl⟩, rfl⟩, rfl⟩, rfl⟩, rfl⟩, rfl⟩, rfl⟩, rfl⟩, rfl⟩
    exact ⟨t, x, ps, ds, ss, e, ht, hps, hds, hss, he, by simp⟩
  · rintro ⟨t, x, ps, ds, ss, e, ht, hps, hds, hss, he, rfl⟩
    exact ⟨t, _, ht, ⟨_, _, ⟨x, rfl⟩, ⟨_, _, rfl, ⟨ps, _, hps, ⟨_, _, rfl, ⟨_, _, rfl,
      ⟨ds, _, hds, ⟨ss, _, hss, ⟨_, _, rfl, ⟨_, _, rfl, ⟨e, _, he, ⟨_, _, rfl, ⟨_, _, rfl,
      ⟨_, _, rfl, rfl, rfl⟩, rfl⟩, rfl⟩, rfl⟩, rfl⟩, rfl⟩, rfl⟩, rfl⟩, rfl⟩, rfl⟩, rfl⟩, rfl⟩, rfl⟩, by simp⟩

theorem derives_main :
    (Phrase.sort .main).Derives w ↔ ∃ ds ss, (Phrase.many (.sort .decl)).Derives ds ∧
      (Phrase.many (.sort .stmt)).Derives ss ∧
      w = .word .main :: .mark .leftBrace :: (ds ++ (ss ++ [.mark .rightBrace])) := by
  rw [derives_sort]
  simp [grammar, and_assoc]

theorem derives_program :
    (Phrase.sort .program).Derives w ↔ ∃ ds fs m, (Phrase.many (.sort .decl)).Derives ds ∧
      (Phrase.many (.sort .func)).Derives fs ∧ (Phrase.sort .main).Derives m ∧ w = ds ++ (fs ++ m) := by
  rw [derives_sort]
  simp [grammar, and_assoc]

end Phrase

end ThreeAddress
