import ThreeAddress.Proofs.ParseTrees
import ThreeAddress.Reading.Program

/-!
# What is read is a parse tree

A routine that delivers a tree has taken exactly the tokens that the tree is written with.

* `Outcome.Consumes R` — the tokens taken and the value delivered are related by `R`;
* `Outcome.Consumes.andThen` and the like — one law for each way of putting routines together;
* `Expr.read_parses`, `Cond.read_parses` — expressions and conditions.

A negation is read only where no comparison can be read, so its condition does not open with a plain name:
otherwise the comparison of the negated name would have been taken (`Cond.readComparison_not`).
-/

namespace ThreeAddress

variable {α β ω : Type} {k j : Nat} {c d : Cursor} {R : α → List Token → Prop}
  {Q : β → List Token → Prop}

/-- The tokens still to come. -/
def Cursor.tokens (c : Cursor) : List Token := c.rest.map (·.token)

@[simp] theorem Cursor.tokens_behind (l : Lexeme) (rest : List Lexeme) :
    (Cursor.behind l rest).tokens = rest.map (·.token) := rfl

theorem Cursor.tokens_of_rest {l : Lexeme} {rest : List Lexeme} (h : c.rest = l :: rest) :
    c.tokens = l.token :: (Cursor.behind l rest).tokens := by
  simp [tokens, h, Cursor.behind]

/-- A delivery of two routines is a delivery of the first and one of the second. -/
theorem Outcome.andThen_eq_done {o : Outcome k c α}
    {f : α → (d : Cursor) → d.size + k ≤ c.size → Outcome j d β} {b : β} {e : Cursor}
    {h : e.size + k ≤ c.size} (hb : o.andThen f = .done b e h) :
    ∃ a d hd he, o = .done a d hd ∧ f a d hd = .done b e he := by
  cases o with
  | failed => cases hb
  | done a d hd =>
    replace hb : (f a d hd).since hd = .done b e h := hb
    cases hf : f a d hd with
    | failed =>
      rw [hf] at hb
      cases hb
    | done b' e' he' =>
      rw [hf] at hb
      cases hb
      exact ⟨a, d, hd, he', rfl, hf⟩

theorem Outcome.since_eq_done {o : Outcome j d α} {a : α} {e : Cursor} {h : d.size + k ≤ c.size}
    {he : e.size + k ≤ c.size} (ha : o.since h = .done a e he) : ∃ h', o = .done a e h' := by
  cases o with
  | failed => cases ha
  | done a' e' he' =>
    cases ha
    exact ⟨he', rfl⟩

theorem Outcome.map_eq_done {o : Outcome k c α} {f : α → β} {b : β} {h : d.size + k ≤ c.size}
    (hb : o.map f = .done b d h) : ∃ a, o = .done a d h ∧ f a = b := by
  cases o with
  | failed => cases hb
  | done a e he =>
    cases hb
    exact ⟨a, rfl, rfl⟩

/-- A delivery has taken tokens that its value is related to. -/
def Outcome.Consumes (R : α → List Token → Prop) : Outcome k c α → Prop
  | .done a d _ => ∃ w, c.tokens = w ++ d.tokens ∧ R a w
  | .failed _ _ _ => True

/-! ### Putting routines together -/

namespace Outcome.Consumes

theorem since {o : Outcome j d α} {u : List Token} (h : d.size + k ≤ c.size)
    (hc : c.tokens = u ++ d.tokens) (ho : o.Consumes fun a w => R a (u ++ w)) :
    (o.since h).Consumes R := by
  cases o with
  | done a e _ =>
    obtain ⟨w, hw, hr⟩ := ho
    exact ⟨u ++ w, by rw [hc, hw, List.append_assoc], hr⟩
  | failed => trivial

theorem weaken {o : Outcome k c α} (ho : o.Consumes R) : o.weaken.Consumes R := by
  cases o with
  | done a e _ => exact ho
  | failed => trivial

theorem map {o : Outcome k c α} {f : α → β} (ho : o.Consumes R) (hf : ∀ a w, R a w → Q (f a) w) :
    (o.map f).Consumes Q := by
  cases o with
  | done a e _ =>
    obtain ⟨w, hw, hr⟩ := ho
    exact ⟨w, hw, hf a w hr⟩
  | failed => trivial

theorem imp {o : Outcome k c α} {R' : α → List Token → Prop} (ho : o.Consumes R)
    (h : ∀ a w, R a w → R' a w) : o.Consumes R' := by
  cases o with
  | done a e _ =>
    obtain ⟨w, hw, hr⟩ := ho
    exact ⟨w, hw, h a w hr⟩
  | failed => trivial

theorem andThen {o : Outcome k c α} {f : α → (d : Cursor) → d.size + k ≤ c.size → Outcome j d β}
    (ho : o.Consumes R)
    (hf : ∀ a d h w, R a w → (f a d h).Consumes fun b v => Q b (w ++ v)) :
    (o.andThen f).Consumes Q := by
  cases o with
  | done a e h =>
    obtain ⟨w, hw, hr⟩ := ho
    exact (hf a e h w hr).since h hw
  | failed => trivial

end Outcome.Consumes

namespace Cursor

theorem give_consumes {a : α} (ha : R a []) : (c.give a).Consumes R := ⟨[], rfl, ha⟩

theorem takeIf_consumes {pick : Token → Option α} {sort : Wanted} {wanted : String} :
    (c.takeIf pick sort wanted).Consumes fun p w => ∃ t, pick t = some p.1 ∧ w = [t] := by
  unfold takeIf
  split
  · trivial
  · rename_i l rest h
    split
    · rename_i a ha
      exact ⟨[l.token], tokens_of_rest h, l.token, ha, rfl⟩
    · trivial

theorem expect_consumes {t : Token} {wanted : String} :
    (c.expect t wanted).Consumes fun _ w => w = [t] := by
  refine takeIf_consumes.map ?_
  rintro p w ⟨u, hu, rfl⟩
  by_cases h : u = t
  · rw [h]
  · rw [if_neg h] at hu
    cases hu

theorem expectName_consumes {wanted : String} :
    (c.expectName wanted).Consumes fun p w => w = [.identifier p.1] := by
  refine takeIf_consumes.imp ?_
  rintro p w ⟨t, ht, rfl⟩
  cases t <;> simp only [Token.name?, Option.some.injEq, reduceCtorEq] at ht
  rw [ht]

/-- A chain: what has been joined so far grows by one operator and one operand at a time. -/
theorem chain_consumes {operator? : Token → Option ω} {join : ω → α → α → α} {n : Nat}
    {operand : (d : Cursor) → d.size < n → Outcome 1 d α} {S : α → List Token → Prop}
    (hj : ∀ t op a b u v, operator? t = some op → S a u → R b v → S (join op a b) (u ++ t :: v))
    (ho : ∀ d h, (operand d h).Consumes R) {left : α} {u : List Token} {c : Cursor} {hn : c.size ≤ n}
    (hl : S left u) :
    (c.chain operator? join n operand left hn).Consumes fun a w => S a (u ++ w) := by
  induction hs : c.size using Nat.strongRecOn generalizing c left u with
  | ind m ih =>
    rw [chain]
    split
    · exact give_consumes (by simpa using hl)
    · rename_i l rest h
      have hsize := behind_size h
      split
      · exact give_consumes (by simpa using hl)
      · rename_i op hop
        refine Outcome.Consumes.since (u := [l.token]) _ (tokens_of_rest h) ?_
        refine (ho _ (by omega)).andThen ?_
        intro right e he w hr
        refine (ih e.size (by omega) (hj l.token op left right u w hop hl hr) rfl).imp ?_
        intro a v hv
        simpa using hv

theorem many_consumes {starts : Token → Bool} {n : Nat}
    {item : (d : Cursor) → d.size ≤ n → Outcome 1 d α} {tokens : α → List Token} {P : α → Prop}
    (hi : ∀ d h, (item d h).Consumes fun a w => P a ∧ w = tokens a) {c : Cursor} {hn : c.size ≤ n} :
    (c.many starts n item hn).Consumes fun as w => (∀ a ∈ as, P a) ∧ w = (as.map tokens).flatten := by
  induction hs : c.size using Nat.strongRecOn generalizing c with
  | ind m ih =>
    rw [many]
    split
    · refine ((hi c hn).andThen ?_).weaken
      rintro a d hd w ⟨ha, rfl⟩
      refine (ih d.size (by omega) rfl).map ?_
      rintro as w ⟨has, rfl⟩
      exact ⟨List.forall_mem_cons.2 ⟨ha, has⟩, rfl⟩
    · exact give_consumes ⟨by simp, rfl⟩

theorem commaList_consumes {item : (d : Cursor) → Outcome 1 d α} {tokens : α → List Token}
    (hi : ∀ d, (item d).Consumes fun a w => w = tokens a) {c : Cursor} :
    (c.commaList item).Consumes fun as w => as ≠ [] ∧ w = commaTokens (as.map tokens) := by
  induction hs : c.size using Nat.strongRecOn generalizing c with
  | ind m ih =>
    rw [commaList]
    refine (hi c).andThen ?_
    rintro a d hd w rfl
    split
    · exact give_consumes ⟨by simp, by simp [commaTokens]⟩
    · rename_i l rest h
      have hsize := behind_size h
      split
      · rename_i hl
        refine Outcome.Consumes.since (u := [l.token]) _ (tokens_of_rest h) ?_
        refine (ih (behind l rest).size (by omega) rfl).map ?_
        rintro as w ⟨hne, rfl⟩
        cases as with
        | nil => exact absurd rfl hne
        | cons b more => exact ⟨by simp, by simp [commaTokens, hl]⟩
      · exact give_consumes ⟨by simp, by simp [commaTokens]⟩

end Cursor

/-! ### Calls -/

theorem Atom.token_of_ofToken? {t : Token} {a : Atom} (h : ofToken? t = some a) : a.token = t := by
  cases t <;> simp only [ofToken?, Option.some.injEq, reduceCtorEq] at h
  all_goals subst h; rfl

theorem Argument.read_consumes :
    (Argument.read c).Consumes fun a w => w = [a.atom.token] := by
  refine Cursor.takeIf_consumes.map ?_
  rintro p w ⟨t, ht, rfl⟩
  rw [Atom.token_of_ofToken? ht]

theorem Call.readFrom_consumes {name : String} {start : Span} :
    (Call.readFrom name start c).Consumes fun a w => a.tokens = .identifier name :: w := by
  refine Cursor.expect_consumes.andThen fun _ c₁ _ u hu => ?_
  have hargs : (if c₁.next? = some (.mark .rightParen) then c₁.give []
      else (c₁.commaList Argument.read).weaken).Consumes
        fun as w => w = commaTokens (as.map fun a => [a.atom.token]) := by
    by_cases h : c₁.next? = some (.mark .rightParen)
    · rw [if_pos h]
      exact Cursor.give_consumes rfl
    · rw [if_neg h]
      exact ((Cursor.commaList_consumes fun _ => Argument.read_consumes).imp fun _ _ h => h.2).weaken
  refine hargs.andThen fun args c₂ _ v hv => ?_
  refine Cursor.expect_consumes.andThen fun _ c₃ _ w hw => ?_
  exact Cursor.give_consumes (by simp [Call.tokens, hu, hv, hw])

/-! ### Expressions -/

theorem Fragment.tokens_of_ofToken? {t : Token} {f : Fragment} (h : ofToken? t = some f) :
    f ≠ .atom false (.number "0") ∧ f.tokens = [t] := by
  unfold ofToken? at h
  split at h
  · cases h
    exact ⟨by simp, rfl⟩
  · rename_i digits
    by_cases h0 : digits = "0"
    · rw [if_pos h0] at h
      cases h
      exact ⟨by simp, by rw [h0]; rfl⟩
    · rw [if_neg h0] at h
      cases h
      exact ⟨by simpa using h0, rfl⟩
  · cases h
    exact ⟨by simp, rfl⟩
  · cases h
    exact ⟨by simp, rfl⟩
  · cases h

theorem ArithOp.mark_of_ofToken? {t : Token} {op : ArithOp} (h : ArithOp.ofToken? t = some op) :
    t = .mark op.mark := by
  unfold ArithOp.ofToken? at h
  split at h <;> cases h <;> rfl

theorem Connective.mark_of_ofToken? {t : Token} {op : Connective}
    (h : Connective.ofToken? t = some op) : t = .mark op.mark := by
  unfold Connective.ofToken? at h
  split at h <;> cases h <;> rfl

namespace Expr

/-- A parse tree together with its yield. -/
def ParsesAs (n : Nonterminal) (e : Expr) (w : List Token) : Prop := e.Parses n ∧ w = e.tokens

theorem readFragment_consumes : (readFragment c).Consumes (ParsesAs .term) := by
  unfold readFragment
  split
  · trivial
  · rename_i l rest h
    have h₁ := Cursor.tokens_of_rest h
    dsimp only
    split
    · rename_i hl
      split
      · trivial
      · split
        · trivial
        · rename_i m _ more _ _ operand ho
          refine ⟨[.mark .minus, m.token], ?_, ?_, ?_⟩
          · rw [h₁, hl]
            rfl
          · exact .fragment (by simp)
          · simp [tokens, Fragment.tokens, Atom.token_of_ofToken? ho]
    · rename_i hl
      refine Outcome.Consumes.since (u := [l.token]) _ h₁ ?_
      refine Cursor.expectName_consumes.map ?_
      rintro p w rfl
      exact ⟨.fragment (by simp), by simp [hl, tokens, Fragment.tokens]⟩
    · split
      · rename_i f hf
        refine Outcome.Consumes.since (u := [l.token]) _ h₁ (Cursor.give_consumes ?_)
        obtain ⟨hne, htokens⟩ := Fragment.tokens_of_ofToken? hf
        exact ⟨.fragment hne, htokens.symm⟩
      · trivial

theorem readTerm_consumes (hr : ∀ d : Cursor, d.size < c.size → (read d).Consumes (ParsesAs .expr)) :
    (readTerm c).Consumes (ParsesAs .term) := by
  rw [readTerm]
  split
  · refine Cursor.expect_consumes.andThen fun start c₁ hs u hu => ?_
    refine (hr c₁ (by omega)).andThen fun inner c₂ _ v hv => ?_
    refine Cursor.expect_consumes.andThen fun _ c₃ _ w hw => ?_
    exact Cursor.give_consumes ⟨.paren hv.1, by simp [hu, hv.2, hw, tokens]⟩
  · refine Cursor.expectName_consumes.andThen fun p c₁ _ u hu => ?_
    refine Call.readFrom_consumes.map fun call v hv => ?_
    exact ⟨.call, by simp [hu, tokens, hv]⟩
  · exact readFragment_consumes

theorem readSum_consumes_of
    (ht : ∀ d : Cursor, d.size ≤ c.size → (readTerm d).Consumes (ParsesAs .term)) :
    (readSum c).Consumes (ParsesAs .arith) := by
  rw [readSum]
  refine (ht c (Nat.le_refl _)).andThen fun left d _ u hl => ?_
  refine Cursor.chain_consumes (S := ParsesAs .arith) ?_ (fun e he => ht e (Nat.le_of_lt he))
    ⟨.term hl.1, hl.2⟩
  rintro t op a b v w hop ⟨ha, rfl⟩ ⟨hb, rfl⟩
  exact ⟨.arith ha hb, by rw [ArithOp.mark_of_ofToken? hop]; rfl⟩

/-- Expressions and sums, by induction on the number of tokens that are left. -/
theorem reads_consume :
    (read c).Consumes (ParsesAs .expr) ∧ (readSum c).Consumes (ParsesAs .arith) := by
  induction hs : c.size using Nat.strongRecOn generalizing c with
  | ind n ih =>
    have hterm : ∀ d : Cursor, d.size ≤ c.size → (readTerm d).Consumes (ParsesAs .term) :=
      fun d hd => readTerm_consumes fun e he => (ih e.size (by omega) rfl).1
    have hsum : ∀ d : Cursor, d.size ≤ c.size → (readSum d).Consumes (ParsesAs .arith) :=
      fun d hd => readSum_consumes_of fun e he => hterm e (Nat.le_trans he hd)
    refine ⟨?_, hsum c (Nat.le_refl _)⟩
    rw [read]
    refine (hsum c (Nat.le_refl _)).andThen fun left d _ u hl => ?_
    refine Cursor.chain_consumes (S := ParsesAs .expr) ?_ (fun e he => hsum e (Nat.le_of_lt he))
      ⟨.sum hl.1, hl.2⟩
    rintro t op a b v w hop ⟨ha, rfl⟩ ⟨hb, rfl⟩
    exact ⟨.logic ha hb, by rw [Connective.mark_of_ofToken? hop]; rfl⟩

theorem read_parses : (read c).Consumes (ParsesAs .expr) := reads_consume.1

theorem readSum_parses : (readSum c).Consumes (ParsesAs .arith) := reads_consume.2

theorem readTerm_parses : (readTerm c).Consumes (ParsesAs .term) :=
  readTerm_consumes fun _ _ => read_parses

/-- A term has no operand on its left. -/
theorem Parses.opening_term {e : Expr} (h : e.Parses .term) : e.opening = e := by
  cases h <;> rfl

end Expr

/-! ### Where a comparison is read -/

/-- The routine delivers and stops at a given place. -/
def Outcome.Ends (o : Outcome k c α) (d : Cursor) : Prop := ∃ a h, o = .done a d h

theorem Outcome.ends_done {a : α} {h : d.size + k ≤ c.size} :
    (Outcome.done a d h : Outcome k c α).Ends d := ⟨a, h, rfl⟩

theorem Outcome.ends_since {o : Outcome j d α} {e : Cursor} {h : d.size + k ≤ c.size} :
    (o.since h).Ends e ↔ o.Ends e := by
  cases o with
  | done a e' he =>
    constructor
    · rintro ⟨_, _, h'⟩
      cases h'
      exact ends_done
    · rintro ⟨_, _, h'⟩
      cases h'
      exact ends_done
  | failed =>
    constructor
    · rintro ⟨_, _, ⟨⟩⟩
    · rintro ⟨_, _, ⟨⟩⟩

theorem Outcome.ends_map {o : Outcome k c α} {f : α → β} : (o.map f).Ends d ↔ o.Ends d := by
  cases o with
  | done a e he =>
    constructor
    · rintro ⟨_, _, h'⟩
      cases h'
      exact ends_done
    · rintro ⟨_, _, h'⟩
      cases h'
      exact ends_done
  | failed =>
    constructor
    · rintro ⟨_, _, ⟨⟩⟩
    · rintro ⟨_, _, ⟨⟩⟩

theorem Outcome.ends_andThen {o : Outcome k c α} {e : Cursor}
    {f : α → (d : Cursor) → d.size + k ≤ c.size → Outcome j d β} :
    (o.andThen f).Ends e ↔ ∃ a d h, o = .done a d h ∧ (f a d h).Ends e := by
  cases o with
  | done a d h =>
    constructor
    · intro he
      exact ⟨a, d, h, rfl, (ends_since (h := h)).1 he⟩
    · rintro ⟨a', d', h', ho, he⟩
      cases ho
      exact (ends_since (h := h)).2 he
  | failed =>
    constructor
    · rintro ⟨_, _, ⟨⟩⟩
    · rintro ⟨_, _, _, ⟨⟩, _⟩

/-- Where a chain stops does not depend on what it starts from. -/
theorem Cursor.chain_ends {operator? : Token → Option ω} {join : ω → α → α → α} {n m : Nat}
    {operand : (d : Cursor) → Outcome 1 d α} {a b : α} {hn : c.size ≤ n} {hm : c.size ≤ m}
    (h : (c.chain operator? join n (fun e _ => operand e) a hn).Ends d) :
    (c.chain operator? join m (fun e _ => operand e) b hm).Ends d := by
  induction hs : c.size using Nat.strongRecOn generalizing c a b with
  | ind k ih =>
    rw [chain] at h ⊢
    split at h
    · obtain ⟨_, _, h⟩ := h
      cases h
      exact Outcome.ends_done
    · rename_i l rest hrest
      have hsize := behind_size hrest
      split at h
      · obtain ⟨_, _, h⟩ := h
        cases h
        exact Outcome.ends_done
      · rw [Outcome.ends_since] at h ⊢
        obtain ⟨right, e, he, ho, h⟩ := Outcome.ends_andThen.1 h
        exact Outcome.ends_andThen.2 ⟨right, e, he, ho, ih e.size (by omega) h rfl⟩

theorem Cursor.takeIf_ends {pick : Token → Option α} {sort : Wanted} {wanted : String} {l : Lexeme}
    {rest : List Lexeme} {a : α} (hc : c.rest = l :: rest) (ha : pick l.token = some a) :
    (c.takeIf pick sort wanted).Ends (.behind l rest) := by
  obtain ⟨previous, _⟩ := c
  cases hc
  simp only [takeIf]
  split
  · exact Outcome.ends_done
  · rename_i h
    rw [ha] at h
    cases h

namespace Expr

/-- A term that opens neither with a parenthesis nor with the name of a call is a fragment. -/
theorem readTerm_eq_readFragment (hparen : c.next? ≠ some (.mark .leftParen))
    (hcall : ∀ x, c.next? = some (.identifier x) → c.second? ≠ some (.mark .leftParen)) :
    readTerm c = readFragment c := by
  rw [readTerm]
  split
  · rename_i h
    exact absurd (by simp [Cursor.next?, h]) hparen
  · rename_i x _ _ _ h
    exact absurd (by simp [Cursor.second?, h]) (hcall x (by simp [Cursor.next?, h]))
  · rfl

/-- A name is a term by itself unless a parenthesis follows. -/
theorem readTerm_name {m : Lexeme} {more : List Lexeme} {x : String} (hc : c.rest = m :: more)
    (hm : m.token = .identifier x) (hnext : (Cursor.behind m more).next? ≠ some (.mark .leftParen)) :
    ∃ h, readTerm c =
      .done (.fragment (.atom false (.name x)) ((Cursor.behind m more).spanFrom m.span))
        (.behind m more) h := by
  rw [readTerm_eq_readFragment (by simp [Cursor.next?, hc, hm])
    (fun _ _ => by simpa [Cursor.second?, Cursor.next?, Cursor.behind, hc] using hnext), readFragment]
  obtain ⟨previous, _⟩ := c
  cases hc
  simp only [hm, Fragment.ofToken?]
  exact ⟨Cursor.behind_size_le rfl, rfl⟩

/-- A name before a parenthesis is the name of a call. -/
theorem readTerm_call {m q : Lexeme} {more : List Lexeme} {x : String} (hc : c.rest = m :: q :: more)
    (hm : m.token = .identifier x) (hq : q.token = .mark .leftParen) :
    (readTerm c).Consumes fun e _ => ∃ call s, e = .call call s := by
  rw [readTerm]
  split
  · rename_i h
    rw [hc] at h
    cases h
    cases hm
  · refine Cursor.expectName_consumes.andThen fun p c₁ _ u hu => ?_
    exact Call.readFrom_consumes.map fun call v hv => ⟨call, call.span, rfl⟩
  · rename_i hne
    obtain ⟨mt, ms⟩ := m
    obtain ⟨qt, qs⟩ := q
    cases hm
    cases hq
    exact absurd hc (hne _ _ _ _)

/-- A `!` and a name make up a term. -/
theorem readTerm_negatedName {l m : Lexeme} {more : List Lexeme} {x : String}
    (hc : c.rest = l :: m :: more) (hl : l.token = .mark .not) (hm : m.token = .identifier x) :
    (readTerm c).Ends (.behind m more) := by
  rw [readTerm_eq_readFragment (by simp [Cursor.next?, hc, hl])
    (by simp [Cursor.next?, hc, hl]), readFragment]
  obtain ⟨previous, _⟩ := c
  cases hc
  simp only [hl]
  rw [Outcome.ends_since, Outcome.ends_map]
  exact Cursor.takeIf_ends (a := x) rfl (by rw [hm]; rfl)

/-- The same tokens with a `!` before them make up a term that stops at the same place. -/
theorem readTerm_not {l : Lexeme} {rest : List Lexeme} {x : String} {s : Span}
    {hd : d.size + 1 ≤ (Cursor.behind l rest).size} (hc : c.rest = l :: rest)
    (hl : l.token = .mark .not)
    (h : readTerm (.behind l rest) = .done (.fragment (.atom false (.name x)) s) d hd) :
    (readTerm c).Ends d := by
  have hparse := readTerm_parses (c := .behind l rest)
  rw [h] at hparse
  obtain ⟨w, hw, -, rfl⟩ := hparse
  cases rest with
  | nil => simp [tokens, Fragment.tokens] at hw
  | cons m more =>
    have hm : m.token = .identifier x := by
      simp [tokens, Fragment.tokens, Atom.token] at hw
      exact hw.1
    by_cases hnext : (Cursor.behind m more).next? = some (.mark .leftParen)
    · cases more with
      | nil => cases hnext
      | cons q more =>
        have hcall := readTerm_call (c := .behind l (m :: q :: more)) rfl hm (by
          simpa [Cursor.next?, Cursor.behind] using hnext)
        rw [h] at hcall
        obtain ⟨_, _, _, _, ⟨⟩⟩ := hcall
    · obtain ⟨_, hterm⟩ := readTerm_name (c := .behind l (m :: more)) rfl hm hnext
      rw [hterm] at h
      cases h
      exact readTerm_negatedName hc hl hm

/-- A sum opens with its first term, and where it stops depends on the place behind that term only. -/
theorem readSum_opening {left : Expr} {hd : d.size + 1 ≤ c.size} (h : readSum c = .done left d hd) :
    ∃ t e he, readTerm c = .done t e he ∧ left.opening = t ∧
      ∀ n left' hn, (e.chain ArithOp.ofToken? joinArith n (fun e _ => readTerm e) left' hn).Ends d := by
  have hends : (readSum c).Ends d := ⟨left, hd, h⟩
  rw [readSum] at hends
  obtain ⟨t, e, he, ht, hchain⟩ := Outcome.ends_andThen.1 hends
  refine ⟨t, e, he, ht, ?_, fun n left' hn => Cursor.chain_ends hchain⟩
  have hterm : (readTerm c).Consumes fun a _ => a.opening = t := by
    have hparse := readTerm_parses (c := c)
    rw [ht] at hparse ⊢
    obtain ⟨w, hw, hp, _⟩ := hparse
    exact ⟨w, hw, hp.opening_term⟩
  have hopening : (readSum c).Consumes fun a _ => a.opening = t := by
    rw [readSum]
    refine hterm.andThen fun first e _ _ hfirst => ?_
    refine Cursor.chain_consumes (S := fun a _ => a.opening = t) ?_ (fun _ _ => readTerm_parses)
      (u := []) hfirst
    intro _ op a b _ _ _ ha _
    exact ha
  rw [h] at hopening
  obtain ⟨_, _, ho⟩ := hopening
  exact ho

theorem readSum_not {l : Lexeme} {rest : List Lexeme} {x : String} {s : Span} {left : Expr}
    {hd : d.size + 1 ≤ (Cursor.behind l rest).size}
    (hc : c.rest = l :: rest) (hl : l.token = .mark .not)
    (h : readSum (.behind l rest) = .done left d hd)
    (ho : left.opening = .fragment (.atom false (.name x)) s) : (readSum c).Ends d := by
  obtain ⟨t, e, he, ht, hopening, hchain⟩ := readSum_opening h
  rw [hopening] at ho
  subst ho
  rw [readSum]
  obtain ⟨t', he', ht'⟩ := readTerm_not hc hl ht
  exact Outcome.ends_andThen.2 ⟨t', e, he', ht', hchain _ _ _⟩

end Expr

/-- **A comparison is preferred.**  If a comparison that opens with a plain name can be read behind a `!`, then
one can be read from the `!` on. -/
theorem Cond.readComparison_not {l : Lexeme} {rest : List Lexeme} {cond : Cond}
    {hd : d.size + 1 ≤ (Cursor.behind l rest).size}
    (hc : c.rest = l :: rest) (hl : l.token = .mark .not)
    (h : readComparison (.behind l rest) = .done cond d hd) (hopens : cond.OpensWithName) :
    (readComparison c).Ends d := by
  obtain ⟨left, c₁, h₁, _, hleft, h⟩ := Outcome.andThen_eq_done h
  obtain ⟨op, c₂, h₂, _, hop, h⟩ := Outcome.andThen_eq_done h
  obtain ⟨right, hright, rfl⟩ := Outcome.map_eq_done h
  have hopening : ∃ x s, left.opening = .fragment (.atom false (.name x)) s := by
    cases hrel : op.1 <;> simpa [hrel, OpensWithName] using hopens
  obtain ⟨x, s, hx⟩ := hopening
  obtain ⟨left', h₁', hleft'⟩ := Expr.readSum_not hc hl hleft hx
  refine Outcome.ends_andThen.2 ⟨left', c₁, h₁', hleft', ?_⟩
  exact Outcome.ends_andThen.2 ⟨op, c₂, h₂, hop, Outcome.ends_map.2 ⟨right, _, hright⟩⟩

/-! ### Conditions -/

theorem Relation.mark_of_ofToken? {t : Token} {op : Comparison ⊕ Equality}
    (h : Relation.ofToken? t = some op) : t = .mark (op.elim Comparison.mark Equality.mark) := by
  unfold Relation.ofToken? at h
  split at h <;> cases h <;> rfl

namespace Cond

/-- A parse tree together with its yield. -/
def ParsesAs (n : Nonterminal) (e : Cond) (w : List Token) : Prop := e.Parses n ∧ w = e.tokens

theorem readComparison_parses : (readComparison c).Consumes (ParsesAs .catom) := by
  refine Expr.readSum_parses.andThen fun left c₁ _ u hl => ?_
  refine Cursor.takeIf_consumes.andThen fun p c₂ _ v hv => ?_
  refine Expr.readSum_parses.map fun right w hr => ?_
  obtain ⟨t, ht, rfl⟩ := hv
  rw [Relation.mark_of_ofToken? ht, hl.2, hr.2]
  cases hop : p.1 with
  | inl order => exact ⟨.comparison hl.1 hr.1, by simp [tokens]⟩
  | inr same => exact ⟨.equality hl.1 hr.1, by simp [tokens]⟩

/-- What opens with a plain name has been read as a comparison. -/
theorem readComparison_of_opensWithName {cond : Cond} {hd : d.size + 1 ≤ c.size}
    (h : readAtom c = .done cond d hd) (hopens : cond.OpensWithName) :
    readComparison c = .done cond d hd := by
  rw [readAtom] at h
  split at h
  · rename_i h'
    rw [h']
    exact h
  · split at h
    · cases h
    · rename_i l rest hc
      dsimp only at h
      split at h
      · obtain ⟨_, h⟩ := Outcome.since_eq_done h
        obtain ⟨_, _, _, _, _, h⟩ := Outcome.andThen_eq_done h
        cases h
        exact hopens.elim
      · obtain ⟨_, h⟩ := Outcome.since_eq_done h
        obtain ⟨_, _, _, _, _, h⟩ := Outcome.andThen_eq_done h
        obtain ⟨_, _, _, _, _, h⟩ := Outcome.andThen_eq_done h
        cases h
        exact hopens.elim
      · cases h
        exact hopens.elim
      · cases h
        exact hopens.elim
      · cases h

theorem readAtom_consumes
    (hr : ∀ d : Cursor, d.size < c.size →
      (read d).Consumes (ParsesAs .cond) ∧ (readAtom d).Consumes (ParsesAs .catom)) :
    (readAtom c).Consumes (ParsesAs .catom) := by
  have hcmp := readComparison_parses (c := c)
  rw [readAtom]
  split
  · rename_i cond d h hd
    rw [hd] at hcmp
    exact hcmp
  · rename_i hfail
    split
    · trivial
    · rename_i l rest h
      have hs := Cursor.behind_size h
      have h₁ := Cursor.tokens_of_rest h
      dsimp only
      split
      · rename_i hl
        refine Outcome.Consumes.since (u := [l.token]) _ h₁ ?_
        cases hinner : readAtom (.behind l rest) with
        | failed => trivial
        | done inner c₂ h₂ =>
          have hi := (hr (.behind l rest) (by omega)).2
          rw [hinner] at hi
          obtain ⟨w, hw, hp, rfl⟩ := hi
          refine ⟨inner.tokens, hw, .neg hp ?_, by simp [hl, tokens]⟩
          intro hopens
          -- a comparison behind the `!` would have been one from the `!` on
          obtain ⟨_, _, hdone⟩ :=
            readComparison_not h hl (readComparison_of_opensWithName hinner hopens) hopens
          rw [hdone] at hfail
          cases hfail
      · rename_i hl
        refine Outcome.Consumes.since (u := [l.token]) _ h₁ ?_
        refine (hr _ (by omega)).1.andThen fun inner c₂ _ v hv => ?_
        refine Cursor.expect_consumes.andThen fun _ c₃ _ w hw => ?_
        exact Cursor.give_consumes ⟨.paren hv.1, by simp [hl, hv.2, hw, tokens]⟩
      · rename_i hl
        refine Outcome.Consumes.since (u := [l.token]) _ h₁ (Cursor.give_consumes ?_)
        exact ⟨.bool, by simp [hl, tokens, truthWord]⟩
      · rename_i hl
        refine Outcome.Consumes.since (u := [l.token]) _ h₁ (Cursor.give_consumes ?_)
        exact ⟨.bool, by simp [hl, tokens, truthWord]⟩
      · trivial

/-- Conditions and their atoms, by induction on the number of tokens that are left. -/
theorem reads_consume :
    (read c).Consumes (ParsesAs .cond) ∧ (readAtom c).Consumes (ParsesAs .catom) := by
  induction hs : c.size using Nat.strongRecOn generalizing c with
  | ind n ih =>
    have hatom : ∀ d : Cursor, d.size ≤ c.size → (readAtom d).Consumes (ParsesAs .catom) :=
      fun d hd => readAtom_consumes fun e he => ih e.size (by omega) rfl
    refine ⟨?_, hatom c (Nat.le_refl _)⟩
    rw [read]
    refine (hatom c (Nat.le_refl _)).andThen fun left d _ u hl => ?_
    refine Cursor.chain_consumes (S := ParsesAs .cond) ?_ (fun e he => hatom e (Nat.le_of_lt he))
      ⟨.atom hl.1, hl.2⟩
    rintro t op a b v w hop ⟨ha, rfl⟩ ⟨hb, rfl⟩
    exact ⟨.binary ha hb, by rw [Connective.mark_of_ofToken? hop]; rfl⟩

theorem read_parses : (read c).Consumes (ParsesAs .cond) := reads_consume.1

end Cond

end ThreeAddress
