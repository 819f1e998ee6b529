import ThreeAddress.Proofs.MatchedParens
import ThreeAddress.Proofs.ReadTrees

/-!
# What is derivable is read

On a derivable phrase, followed by a token that cannot extend it, a routine takes exactly that phrase.

* `Nonterminal.extendedBy`, `Halts` — the tokens that would extend a phrase; none of them comes next;
* `Outcome.Leaves` — a routine delivers and leaves given tokens;
* `Cond.readComparison_opens` — what a comparison that was read begins with; this is why trying it first never
  loses a negation, a group or a truth value;
* `Expr.read_leaves`, `Cond.read_leaves` — expressions and conditions.
-/

namespace ThreeAddress

variable {α β ω : Type} {k j : Nat} {c d : Cursor} {ts us w : List Token} {t : Token}

/-! ### What a phrase ends before -/

/-- The tokens that could continue a phrase of a sort. -/
def Nonterminal.extendedBy (n : Nonterminal) (t : Token) : Bool :=
  match n with
  | .term => t = .mark .leftParen
  | .arith => t = .mark .leftParen || (ArithOp.ofToken? t).isSome
  | .expr => t = .mark .leftParen || (ArithOp.ofToken? t).isSome || (Connective.ofToken? t).isSome
  | .catom => t = .mark .leftParen || (ArithOp.ofToken? t).isSome || t.isComparison
  | .cond =>
    t = .mark .leftParen || (ArithOp.ofToken? t).isSome || t.isComparison ||
      (Connective.ofToken? t).isSome
  | _ => false

/-- The next token, if there is one, does not pass a test. -/
def Halts (test : Token → Bool) (ts : List Token) : Prop := ∀ t ∈ ts.head?, test t = false

theorem halts_cons {test : Token → Bool} : Halts test (t :: ts) ↔ test t = false := by
  simp [Halts]

theorem Halts.imp {test test' : Token → Bool} (h : Halts test ts)
    (himp : ∀ t, test t = false → test' t = false) : Halts test' ts :=
  fun t ht => himp t (h t ht)

/-! ### Delivering and leaving tokens -/

/-- The routine delivers and leaves given tokens. -/
def Outcome.Leaves (o : Outcome k c α) (ts : List Token) : Prop := ∃ d, o.Ends d ∧ d.tokens = ts

namespace Outcome.Leaves

theorem give {a : α} (hc : c.tokens = ts) : (c.give a).Leaves ts := ⟨c, ends_done, hc⟩

theorem since {o : Outcome j d α} {h : d.size + k ≤ c.size} (ho : o.Leaves ts) :
    (o.since h).Leaves ts := by
  obtain ⟨e, he, hts⟩ := ho
  exact ⟨e, ends_since.2 he, hts⟩

theorem map {o : Outcome k c α} {f : α → β} (ho : o.Leaves ts) : (o.map f).Leaves ts := by
  obtain ⟨e, he, hts⟩ := ho
  exact ⟨e, ends_map.2 he, hts⟩

theorem weaken {o : Outcome k c α} (ho : o.Leaves ts) : o.weaken.Leaves ts := by
  obtain ⟨e, ⟨a, h, rfl⟩, hts⟩ := ho
  exact ⟨e, ends_done, hts⟩

theorem andThen {o : Outcome k c α} {f : α → (d : Cursor) → d.size + k ≤ c.size → Outcome j d β}
    (ho : o.Leaves us) (hf : ∀ a d h, d.tokens = us → (f a d h).Leaves ts) :
    (o.andThen f).Leaves ts := by
  obtain ⟨d, ⟨a, h, rfl⟩, hd⟩ := ho
  obtain ⟨e, he, hts⟩ := hf a d h hd
  exact ⟨e, ends_andThen.2 ⟨a, d, h, rfl, he⟩, hts⟩

end Outcome.Leaves

/-- Tokens taken and tokens left make up the tokens that were there. -/
theorem Outcome.Consumes.ends {o : Outcome k c α} {R : α → List Token → Prop} (ho : o.Consumes R)
    (hd : o.Ends d) : ∃ a w, c.tokens = w ++ d.tokens ∧ R a w := by
  obtain ⟨a, h, rfl⟩ := hd
  obtain ⟨w, hw, hr⟩ := ho
  exact ⟨a, w, hw, hr⟩

namespace Cursor

theorem next?_eq_head? (c : Cursor) : c.next? = c.tokens.head? := by
  simp [next?, tokens]

theorem second?_eq_head? (c : Cursor) : c.second? = c.tokens.tail.head? := by
  simp [second?, tokens]

theorem rest_of_tokens (hc : c.tokens = t :: ts) :
    ∃ l rest, c.rest = l :: rest ∧ l.token = t ∧ (Cursor.behind l rest).tokens = ts := by
  unfold tokens at hc
  cases hrest : c.rest with
  | nil => simp [hrest] at hc
  | cons l rest =>
    rw [hrest, List.map_cons, List.cons.injEq] at hc
    exact ⟨l, rest, rfl, hc.1, hc.2⟩

/-- A position in front of a token. -/
theorem eq_of_tokens (hc : c.tokens = t :: ts) :
    ∃ previous l rest, c = ⟨previous, l :: rest⟩ ∧ l.token = t ∧ (behind l rest).tokens = ts := by
  obtain ⟨l, rest, hrest, hl, hts⟩ := rest_of_tokens hc
  exact ⟨c.previous, l, rest, by rw [← hrest], hl, hts⟩

theorem takeIf_leaves {pick : Token → Option α} {sort : Wanted} {wanted : String} {a : α}
    (hc : c.tokens = t :: ts) (ha : pick t = some a) : (c.takeIf pick sort wanted).Leaves ts := by
  obtain ⟨l, rest, hrest, rfl, hts⟩ := rest_of_tokens hc
  exact ⟨behind l rest, takeIf_ends hrest ha, hts⟩

theorem expect_leaves {wanted : String} (hc : c.tokens = t :: ts) : (c.expect t wanted).Leaves ts :=
  (takeIf_leaves hc (if_pos rfl)).map

theorem expectName_leaves {wanted : String} {x : String} (hc : c.tokens = .identifier x :: ts) :
    (c.expectName wanted).Leaves ts := takeIf_leaves hc rfl

/-- A chain takes all its links: each is an operator and an operand, and no operator follows the last. -/
theorem chain_leaves {operator? : Token → Option ω} {join : ω → α → α → α} {n : Nat}
    {operand : (d : Cursor) → d.size < n → Outcome 1 d α} {extending : Token → Bool}
    (hop : ∀ t, (operator? t).isSome = true → extending t = false)
    (hts : Halts (fun t => extending t || (operator? t).isSome) ts)
    {links : List (List Token)}
    (hlinks : ∀ v ∈ links, ∃ t y, v = t :: y ∧ (operator? t).isSome = true ∧
      ∀ d h zs, d.tokens = y ++ zs → Halts extending zs → (operand d h).Leaves zs)
    {left : α} {c : Cursor} {hn : c.size ≤ n} (hc : c.tokens = links.flatten ++ ts) :
    (c.chain operator? join n operand left hn).Leaves ts := by
  induction links generalizing c left with
  | nil =>
    rw [chain]
    split
    · exact .give hc
    · rename_i l rest hrest
      have hl : operator? l.token = none := by
        have hhead := hts l.token (by
          have hts' : ts = c.tokens := hc.symm
          simp [hts', tokens_of_rest hrest])
        simpa using (Bool.or_eq_false_iff.1 hhead).2
      split
      · exact .give hc
      · rename_i h
        rw [hl] at h
        cases h
  | cons v links ih =>
    obtain ⟨⟨t, y, rfl, ht, hoperand⟩, hmore⟩ := List.forall_mem_cons.1 hlinks
    have hrestTokens : c.tokens = t :: (y ++ (links.flatten ++ ts)) := by simpa using hc
    -- behind an operand stands the next operator, or what follows the chain
    have hhalts : Halts extending (links.flatten ++ ts) := by
      cases links with
      | nil => exact hts.imp fun t ht => (Bool.or_eq_false_iff.1 ht).1
      | cons v' links' =>
        obtain ⟨t', y', rfl, ht', -⟩ := hmore v' List.mem_cons_self
        exact halts_cons.2 (hop t' ht')
    obtain ⟨previous, l, rest, rfl, rfl, hbehind⟩ := eq_of_tokens hrestTokens
    have hsize : (behind l rest).size < n := hn
    rw [chain]
    dsimp only
    split
    · rename_i h
      rw [h] at ht
      cases ht
    · refine Outcome.Leaves.since ((hoperand _ hsize _ hbehind hhalts).andThen ?_)
      intro right e he hrest
      exact ih hmore hrest

theorem many_leaves {starts : Token → Bool} {n : Nat}
    {item : (d : Cursor) → d.size ≤ n → Outcome 1 d α} (hts : Halts starts ts)
    {us : List (List Token)}
    (hus : ∀ u ∈ us, ∃ t y, u = t :: y ∧ starts t = true ∧
      ∀ d h zs, d.tokens = u ++ zs → (item d h).Leaves zs)
    {c : Cursor} {hn : c.size ≤ n} (hc : c.tokens = us.flatten ++ ts) :
    (c.many starts n item hn).Leaves ts := by
  induction us generalizing c with
  | nil =>
    rw [many, if_neg]
    · exact .give hc
    · rw [next?_eq_head?, hc]
      cases ts with
      | nil => simp
      | cons t ts => simpa using halts_cons.1 hts
  | cons u us ih =>
    obtain ⟨⟨t, y, hu, ht, hitem⟩, hus⟩ := List.forall_mem_cons.1 hus
    rw [many, if_pos]
    · refine Outcome.Leaves.weaken ((hitem c hn (us.flatten ++ ts) (by simpa using hc)).andThen ?_)
      intro a d hd hrest
      exact (ih hus hrest).map
    · rw [next?_eq_head?, hc, hu]
      simpa using ht

theorem commaList_leaves {item : (d : Cursor) → Outcome 1 d α} {u : List Token}
    {links : List (List Token)} (hts : ts.head? ≠ some (.mark .comma))
    (hu : ∀ d zs, d.tokens = u ++ zs → (item d).Leaves zs)
    (hlinks : ∀ v ∈ links, ∃ y, v = .mark .comma :: y ∧
      ∀ d zs, d.tokens = y ++ zs → (item d).Leaves zs)
    {c : Cursor} (hc : c.tokens = u ++ (links.flatten ++ ts)) : (c.commaList item).Leaves ts := by
  induction links generalizing c u with
  | nil =>
    rw [commaList]
    refine (hu c _ hc).andThen ?_
    intro a d hd hd'
    split
    · exact .give hd'
    · rename_i l rest hrest
      have hl : l.token ≠ .mark .comma := by
        intro hl
        apply hts
        have hts' : ts = d.tokens := hd'.symm
        simp [hts', tokens_of_rest hrest, hl]
      rw [if_neg hl]
      exact .give hd'
  | cons v links ih =>
    obtain ⟨⟨y, rfl, hy⟩, hmore⟩ := List.forall_mem_cons.1 hlinks
    rw [commaList]
    refine (hu c _ hc).andThen ?_
    intro a d hd hd'
    have hcomma : d.tokens = .mark .comma :: (y ++ (links.flatten ++ ts)) := by simpa using hd'
    obtain ⟨previous, l, rest, rfl, hl, hbehind⟩ := eq_of_tokens hcomma
    dsimp only
    rw [if_pos hl]
    exact (ih hy hmore hbehind).map.since

end Cursor

/-- A routine takes the phrases of a sort, up to a given length, when no token that extends them follows. -/
def Nonterminal.Reads (n : Nonterminal) (size : Nat) (routine : (c : Cursor) → Outcome k c α) : Prop :=
  ∀ w ts c, (Phrase.sort n).Derives w → w.length ≤ size → Halts n.extendedBy ts →
    c.tokens = w ++ ts → (routine c).Leaves ts

/-- A chain is read if its items are. -/
theorem Nonterminal.Reads.separated {n : Nonterminal} {link : Phrase} {operator? : Token → Option ω}
    {join : ω → α → α → α} {size : Nat} {operand : (d : Cursor) → Outcome 1 d α}
    (hread : n.Reads size operand)
    (hlink : ∀ x, link.Derives x → ∃ t, x = [t] ∧ (operator? t).isSome = true)
    (hop : ∀ t, (operator? t).isSome = true → n.extendedBy t = false)
    (hw : (Phrase.separated (.sort n) link).Derives w) (hn : w.length ≤ size)
    (hts : Halts (fun t => n.extendedBy t || (operator? t).isSome) ts) (hc : c.tokens = w ++ ts) :
    ((operand c).andThen fun left d h =>
      d.chain operator? join c.size (fun e _ => operand e) left (by omega)).Leaves ts := by
  obtain ⟨u, links, hu, hlinks, rfl⟩ := Phrase.derives_separated.1 hw
  have hnext : Halts n.extendedBy (links.flatten ++ ts) := by
    cases links with
    | nil => exact hts.imp fun t ht => (Bool.or_eq_false_iff.1 ht).1
    | cons v links =>
      obtain ⟨x, y, hx, hy, rfl⟩ := hlinks v List.mem_cons_self
      obtain ⟨t, rfl, ht⟩ := hlink x hx
      exact halts_cons.2 (hop t ht)
  refine (hread u (links.flatten ++ ts) c hu ?_ hnext (by simpa using hc)).andThen ?_
  · simp only [List.length_append] at hn
    omega
  · intro left d hd hrest
    refine Cursor.chain_leaves hop hts ?_ hrest
    intro v hv
    obtain ⟨x, y, hx, hy, rfl⟩ := hlinks v hv
    obtain ⟨t, rfl, ht⟩ := hlink x hx
    refine ⟨t, y, rfl, ht, fun e he zs hzs hhalts => hread y zs e hy ?_ hhalts hzs⟩
    have hlen : ([t] ++ y).length ≤ links.flatten.length :=
      (List.sublist_flatten_of_mem hv).length_le
    simp only [List.length_append] at hlen hn
    omega

/-! ### Calls -/

theorem Atom.ofToken?_of_derives (h : Phrase.operand.Derives w) :
    ∃ t a, w = [t] ∧ Atom.ofToken? t = some a := by
  obtain ⟨x, rfl⟩ | ⟨d, rfl⟩ := Phrase.derives_operand.1 h
  · exact ⟨_, .name x, rfl, rfl⟩
  · exact ⟨_, .number d, rfl, rfl⟩

theorem Argument.read_leaves (h : Phrase.operand.Derives w) (hc : c.tokens = w ++ ts) :
    (Argument.read c).Leaves ts := by
  obtain ⟨t, a, rfl, ha⟩ := Atom.ofToken?_of_derives h
  exact (Cursor.takeIf_leaves hc ha).map

/-- Chains with commas, as the lists that `Cursor.commaList` takes. -/
theorem Phrase.Derives.commaList_leaves {r : Phrase} {item : (d : Cursor) → Outcome 1 d α}
    (hw : (Phrase.separated r (.mark .comma)).Derives w)
    (hr : ∀ u d zs, r.Derives u → d.tokens = u ++ zs → (item d).Leaves zs)
    (hc : c.tokens = w ++ .mark .rightParen :: ts) :
    (c.commaList item).Leaves (.mark .rightParen :: ts) := by
  obtain ⟨u, links, hu, hlinks, rfl⟩ := Phrase.derives_separated.1 hw
  have hc' : c.tokens = u ++ (links.flatten ++ .mark .rightParen :: ts) := by simpa using hc
  refine Cursor.commaList_leaves (by simp) (fun d zs => hr u d zs hu) ?_ hc'
  intro v hv
  obtain ⟨x, y, hx, hy, rfl⟩ := hlinks v hv
  rw [Phrase.derives_token.1 hx]
  exact ⟨y, rfl, fun d zs => hr y d zs hy⟩

theorem Call.readFrom_leaves {name : String} {start : Span} (h : (Phrase.sort .args).Derives w)
    (hc : c.tokens = .mark .leftParen :: (w ++ .mark .rightParen :: ts)) :
    (Call.readFrom name start c).Leaves ts := by
  refine (Cursor.expect_leaves hc).andThen fun _ c₁ _ h₁ => ?_
  have hargs : (if c₁.next? = some (.mark .rightParen) then c₁.give []
      else (c₁.commaList Argument.read).weaken).Leaves (.mark .rightParen :: ts) := by
    obtain rfl | h := Phrase.derives_args.1 h
    · rw [if_pos (by simp [Cursor.next?_eq_head?, h₁])]
      exact .give h₁
    · have hfirst : c₁.next? ≠ some (.mark .rightParen) := by
        obtain ⟨u, links, hu, -, rfl⟩ := Phrase.derives_separated.1 h
        obtain ⟨t, a, rfl, ha⟩ := Atom.ofToken?_of_derives hu
        intro hhead
        have ht : t = .mark .rightParen := by simpa [Cursor.next?_eq_head?, h₁] using hhead
        rw [ht] at ha
        cases ha
      rw [if_neg hfirst]
      exact (h.commaList_leaves (fun u d zs => Argument.read_leaves) h₁).weaken
  refine hargs.andThen fun args c₂ _ h₂ => ?_
  exact (Cursor.expect_leaves h₂).andThen fun _ c₃ _ h₃ => .give h₃

/-! ### Expressions -/

namespace Expr

/-- One token that is a fragment. -/
theorem readFragment_single {f : Fragment} (hf : Fragment.ofToken? t = some f)
    (hc : c.tokens = t :: ts) : (readFragment c).Leaves ts := by
  obtain ⟨previous, l, rest, rfl, rfl, hts⟩ := Cursor.eq_of_tokens hc
  rw [readFragment]
  dsimp only
  split
  · rename_i hl
    rw [hl] at hf
    cases hf
  · rename_i hl
    rw [hl] at hf
    cases hf
  · rw [hf]
    exact Outcome.Leaves.since (.give hts)

/-- A minus and a name or a numeral. -/
theorem readFragment_minus {a : Atom} (ha : Atom.ofToken? t = some a)
    (hc : c.tokens = .mark .minus :: t :: ts) : (readFragment c).Leaves ts := by
  obtain ⟨previous, l, rest, rfl, hl, hts⟩ := Cursor.eq_of_tokens hc
  obtain ⟨_, m, more, hmore, rfl, hmts⟩ := Cursor.eq_of_tokens hts
  cases hmore
  rw [readFragment]
  simp only [hl]
  split
  · rename_i h
    rw [ha] at h
    cases h
  · exact Outcome.Leaves.since (.give hmts)

/-- A `!` and a name. -/
theorem readFragment_not {x : String} (hc : c.tokens = .mark .not :: .identifier x :: ts) :
    (readFragment c).Leaves ts := by
  obtain ⟨previous, l, rest, rfl, hl, hts⟩ := Cursor.eq_of_tokens hc
  rw [readFragment]
  simp only [hl]
  exact (Cursor.expectName_leaves hts).map.since

theorem readFragment_leaves (h : (Phrase.sort .fragment).Derives w) (hc : c.tokens = w ++ ts) :
    (readFragment c).Leaves ts := by
  obtain h | ⟨u, hu, rfl⟩ | ⟨x, rfl⟩ | rfl | rfl := Phrase.derives_fragment.1 h
  · obtain ⟨x, rfl⟩ | ⟨digits, rfl⟩ := Phrase.derives_operand.1 h
    · exact readFragment_single (t := .identifier x) rfl hc
    · exact readFragment_single (t := .number digits) rfl hc
  · obtain ⟨t, a, rfl, ha⟩ := Atom.ofToken?_of_derives hu
    exact readFragment_minus ha hc
  · exact readFragment_not hc
  · exact readFragment_single (f := .bool true) rfl hc
  · exact readFragment_single (f := .bool false) rfl hc

/-- What opens with a fragment that no parenthesis follows is read as that fragment. -/
theorem readTerm_of_fragment (h : (Phrase.sort .fragment).Derives w)
    (hts : Halts Nonterminal.term.extendedBy ts) (hc : c.tokens = w ++ ts) :
    readTerm c = readFragment c := by
  apply readTerm_eq_readFragment
  · rw [Cursor.next?_eq_head?, hc]
    obtain h | ⟨u, hu, rfl⟩ | ⟨x, rfl⟩ | rfl | rfl := Phrase.derives_fragment.1 h
    · obtain ⟨x, rfl⟩ | ⟨digits, rfl⟩ := Phrase.derives_operand.1 h
      · simp
      · simp
    · simp
    · simp
    · simp
    · simp
  · intro x hx hsecond
    rw [Cursor.next?_eq_head?, hc] at hx
    rw [Cursor.second?_eq_head?, hc] at hsecond
    obtain h | ⟨u, hu, rfl⟩ | ⟨y, rfl⟩ | rfl | rfl := Phrase.derives_fragment.1 h
    · obtain ⟨y, rfl⟩ | ⟨digits, rfl⟩ := Phrase.derives_operand.1 h
      · have hparen := hts (.mark .leftParen) (by simpa using hsecond)
        simp [Nonterminal.extendedBy] at hparen
      · simp at hx
    · simp at hx
    · simp at hx
    · simp at hx
    · simp at hx

theorem readTerm_reads {n : Nat} (hr : ∀ m < n, Nonterminal.expr.Reads m read) :
    Nonterminal.term.Reads n readTerm := by
  intro w ts c hw hn hts hc
  obtain ⟨u, hu, rfl⟩ | h | h := Phrase.derives_term.1 hw
  · rw [readTerm]
    split
    · have hlen : u.length < n := by
        simp only [List.length_cons, List.length_append] at hn
        omega
      refine (Cursor.expect_leaves (by simpa using hc)).andThen fun start c₁ _ h₁ => ?_
      refine (hr u.length hlen u (.mark .rightParen :: ts) c₁ hu (Nat.le_refl _) ?_ ?_).andThen
        fun inner c₂ _ h₂ => ?_
      · exact halts_cons.2 rfl
      · exact h₁
      · exact (Cursor.expect_leaves h₂).andThen fun _ c₃ _ h₃ => .give h₃
    · rename_i h
      simp [Cursor.tokens, h] at hc
    · rename_i hparen _
      obtain ⟨⟨_, s⟩, rest, hrest, rfl, -⟩ := Cursor.rest_of_tokens hc
      exact absurd hrest (hparen s rest)
  · obtain ⟨x, u, hu, rfl⟩ := Phrase.derives_call.1 h
    rw [readTerm]
    split
    · rename_i h'
      simp [Cursor.tokens, h'] at hc
    · refine (Cursor.expectName_leaves (by simpa using hc)).andThen fun p c₁ _ h₁ => ?_
      exact (Call.readFrom_leaves hu h₁).map
    · rename_i hcall
      obtain ⟨⟨_, s⟩, rest, hrest, rfl, hbehind⟩ := Cursor.rest_of_tokens hc
      obtain ⟨⟨_, s'⟩, rest', hrest', rfl, -⟩ := Cursor.rest_of_tokens hbehind
      replace hrest' : rest = _ := hrest'
      subst hrest'
      exact absurd hrest (hcall x s s' rest')
  · rw [readTerm_of_fragment h hts hc]
    exact readFragment_leaves h hc

theorem readSum_reads {n : Nat} (ht : Nonterminal.term.Reads n readTerm) :
    Nonterminal.arith.Reads n readSum := by
  intro w ts c hw hn hts hc
  rw [readSum]
  refine ht.separated ?_ ?_ (Phrase.derives_sort.1 hw) hn hts hc
  · intro x hx
    obtain rfl | rfl := Phrase.derives_sign.1 hx
    · exact ⟨_, rfl, rfl⟩
    · exact ⟨_, rfl, rfl⟩
  · rintro t ht
    simp only [Nonterminal.extendedBy, decide_eq_false_iff_not]
    rintro rfl
    cases ht

/-- Expressions and sums, by induction on the length of the phrase. -/
theorem reads_all (n : Nat) :
    Nonterminal.arith.Reads n readSum ∧ Nonterminal.expr.Reads n read := by
  induction n using Nat.strongRecOn with
  | ind n ih =>
    have hsum : Nonterminal.arith.Reads n readSum := readSum_reads (readTerm_reads fun m hm => (ih m hm).2)
    refine ⟨hsum, ?_⟩
    intro w ts c hw hn hts hc
    rw [read]
    refine hsum.separated ?_ ?_ (Phrase.derives_sort.1 hw) hn hts hc
    · intro x hx
      obtain rfl | rfl := Phrase.derives_connective.1 hx
      · exact ⟨_, rfl, rfl⟩
      · exact ⟨_, rfl, rfl⟩
    · intro t ht
      unfold Connective.ofToken? at ht
      split at ht
      · rfl
      · rfl
      · cases ht

/-- **Sums are read.** -/
theorem readSum_leaves (hw : (Phrase.sort .arith).Derives w) (hts : Halts Nonterminal.arith.extendedBy ts)
    (hc : c.tokens = w ++ ts) : (readSum c).Leaves ts :=
  (reads_all w.length).1 w ts c hw (Nat.le_refl _) hts hc

/-- **Expressions are read.** -/
theorem read_leaves (hw : (Phrase.sort .expr).Derives w) (hts : Halts Nonterminal.expr.extendedBy ts)
    (hc : c.tokens = w ++ ts) : (read c).Leaves ts :=
  (reads_all w.length).2 w ts c hw (Nat.le_refl _) hts hc

end Expr

/-! ### Conditions -/

theorem Mark.ofToken?_of_isComparison {m : Mark} (h : m.isComparison = true) :
    ∃ op, Relation.ofToken? (.mark m) = some op := by
  cases m <;> first | exact ⟨_, rfl⟩ | cases h

theorem Relation.isComparison_of_ofToken? {op : Comparison ⊕ Equality}
    (h : Relation.ofToken? t = some op) : t.isComparison = true := by
  unfold Relation.ofToken? at h
  split at h <;> first | rfl | cases h

/-- Before an atom that opens with a plain name, a `!` can be taken as part of a comparison. -/
theorem Phrase.Derives.not_comparison {u zs : List Token} {x : String}
    (hu : (Phrase.sort .catom).Derives u) (h : u ++ ts = .identifier x :: t :: zs)
    (ht : t ≠ .mark .leftParen) :
    ∃ s m v, (Phrase.sort .arith).Derives s ∧ m.isComparison = true ∧
      (Phrase.sort .arith).Derives v ∧ .mark .not :: u = s ++ .mark m :: v := by
  obtain ⟨s, m, v, hs, hm, hv, rfl⟩ | ⟨u, hu, rfl⟩ | ⟨u, hu, rfl⟩ | rfl | rfl :=
    Phrase.derives_catom.1 hu
  · obtain ⟨y, links, hy, hlinks, rfl⟩ := Phrase.derives_separated.1 (Phrase.derives_sort.1 hs)
    have hname : y = [.identifier x] := by
      obtain ⟨z, hz, rfl⟩ | hcall | hfragment := Phrase.derives_term.1 hy
      · cases h
      · obtain ⟨_, _, _, rfl⟩ := Phrase.derives_call.1 hcall
        cases h
        exact absurd rfl ht
      · obtain hop | ⟨z, hz, rfl⟩ | ⟨_, rfl⟩ | rfl | rfl := Phrase.derives_fragment.1 hfragment
        · obtain ⟨_, rfl⟩ | ⟨_, rfl⟩ := Phrase.derives_operand.1 hop
          · simp_all
          · cases h
        · cases h
        · cases h
        · cases h
        · cases h
    subst hname
    have hfirst : (Phrase.sort .term).Derives [.mark .not, .identifier x] :=
      Phrase.derives_term.2 (.inr (.inr (Phrase.derives_fragment.2 (.inr (.inr (.inl ⟨x, rfl⟩))))))
    refine ⟨[.mark .not, .identifier x] ++ links.flatten, m, v, ?_, hm, hv, by simp⟩
    exact .sort (Phrase.derives_separated.2 ⟨_, links, hfirst, hlinks, rfl⟩)
  · cases h
  · cases h
  · cases h
  · cases h

namespace Cond

/-- What a comparison begins with: a term, and behind it a sign or a comparison operator. -/
theorem readComparison_opens (h : (readComparison c).Ends d) :
    ∃ u t rest, (Phrase.sort .term).Derives u ∧ c.tokens = u ++ t :: rest ∧
      ((ArithOp.ofToken? t).isSome = true ∨ t.isComparison = true) := by
  have hparse : (readComparison c).Consumes fun _ w => ∃ u m v, (Phrase.sort .arith).Derives u ∧
      m.isComparison = true ∧ w = u ++ m :: v := by
    refine Expr.readSum_parses.andThen fun left c₁ _ u hl => ?_
    refine Cursor.takeIf_consumes.andThen fun p c₂ _ x hx => ?_
    refine Expr.readSum_parses.map fun right v _ => ?_
    obtain ⟨m, hm, rfl⟩ := hx
    exact ⟨u, m, v, by rw [hl.2]; exact hl.1.derives, Relation.isComparison_of_ofToken? hm, rfl⟩
  obtain ⟨_, w, hw, u, m, v, hu, hm, rfl⟩ := hparse.ends h
  obtain ⟨z, links, hz, hlinks, rfl⟩ := Phrase.derives_separated.1 (Phrase.derives_sort.1 hu)
  cases links with
  | nil => exact ⟨z, m, v ++ d.tokens, hz, by simpa using hw, .inr hm⟩
  | cons v' links =>
    obtain ⟨x, y, hx, -, rfl⟩ := hlinks v' List.mem_cons_self
    obtain rfl | rfl := Phrase.derives_sign.1 hx
    · exact ⟨z, .mark .plus, _, hz, by simpa using hw, .inl rfl⟩
    · exact ⟨z, .mark .minus, _, hz, by simpa using hw, .inl rfl⟩

theorem readComparison_leaves {u v : List Token} {m : Mark} (hu : (Phrase.sort .arith).Derives u)
    (hm : m.isComparison = true) (hv : (Phrase.sort .arith).Derives v)
    (hts : Halts Nonterminal.arith.extendedBy ts) (hc : c.tokens = u ++ .mark m :: (v ++ ts)) :
    (readComparison c).Leaves ts := by
  have hnext : Halts Nonterminal.arith.extendedBy (.mark m :: (v ++ ts)) := by
    rw [halts_cons]
    cases m <;> first | rfl | cases hm
  refine (Expr.readSum_leaves hu hnext hc).andThen fun left c₁ _ h₁ => ?_
  obtain ⟨op, hop⟩ := Mark.ofToken?_of_isComparison hm
  refine (Cursor.takeIf_leaves h₁ hop).andThen fun p c₂ _ h₂ => ?_
  exact (Expr.readSum_leaves hv hts h₂).map

/-- An atom that can be read as a comparison is read as one. -/
theorem readAtom_of_readComparison (h : (readComparison c).Leaves ts) : (readAtom c).Leaves ts := by
  obtain ⟨d, ⟨cond, hd, h⟩, hts⟩ := h
  refine ⟨d, ?_, hts⟩
  rw [readAtom, h]
  exact Outcome.ends_done

/-- Where no comparison can be read, a `!` opens a negation. -/
theorem readAtom_of_not (hfail : ∀ d, ¬ (readComparison c).Ends d) (hc : c.tokens = .mark .not :: us)
    (hinner : ∀ d, d.tokens = us → (readAtom d).Leaves ts) : (readAtom c).Leaves ts := by
  obtain ⟨previous, l, rest, rfl, hl, hbehind⟩ := Cursor.eq_of_tokens hc
  rw [readAtom]
  split
  · rename_i h
    exact absurd ⟨_, _, h⟩ (hfail _)
  · simp only [hl]
    exact Outcome.Leaves.since ((hinner _ hbehind).andThen fun inner c₂ _ h₂ => .give h₂)

/-- Where no comparison can be read, a parenthesis opens a group. -/
theorem readAtom_of_paren (hfail : ∀ d, ¬ (readComparison c).Ends d)
    (hc : c.tokens = .mark .leftParen :: us)
    (hinner : ∀ d, d.tokens = us → (read d).Leaves (.mark .rightParen :: ts)) :
    (readAtom c).Leaves ts := by
  obtain ⟨previous, l, rest, rfl, hl, hbehind⟩ := Cursor.eq_of_tokens hc
  rw [readAtom]
  split
  · rename_i h
    exact absurd ⟨_, _, h⟩ (hfail _)
  · simp only [hl]
    refine Outcome.Leaves.since ((hinner _ hbehind).andThen fun inner c₂ _ h₂ => ?_)
    exact (Cursor.expect_leaves h₂).andThen fun _ c₃ _ h₃ => .give h₃

/-- Where no comparison can be read, a truth value stands by itself. -/
theorem readAtom_of_bool {b : Bool} (hfail : ∀ d, ¬ (readComparison c).Ends d)
    (hc : c.tokens = .word (truthWord b) :: ts) : (readAtom c).Leaves ts := by
  obtain ⟨previous, l, rest, rfl, hl, hbehind⟩ := Cursor.eq_of_tokens hc
  rw [readAtom]
  split
  · rename_i h
    exact absurd ⟨_, _, h⟩ (hfail _)
  · cases b with
    | true =>
      simp only [hl, truthWord]
      exact Outcome.Leaves.since (.give hbehind)
    | false =>
      simp only [hl, truthWord]
      exact Outcome.Leaves.since (.give hbehind)

/-- A token that follows a condition atom neither links terms nor compares sums. -/
theorem not_extends_catom (hts : Halts Nonterminal.catom.extendedBy (t :: ts)) :
    ¬ ((ArithOp.ofToken? t).isSome = true ∨ t.isComparison = true) := by
  have h := halts_cons.1 hts
  simp only [Nonterminal.extendedBy, Bool.or_eq_false_iff] at h
  simp [h]

/-- A truth value before a token that does not extend it is not the start of a comparison. -/
theorem not_readComparison_bool {b : Bool} (hts : Halts Nonterminal.catom.extendedBy ts)
    (hc : c.tokens = .word (truthWord b) :: ts) : ¬ (readComparison c).Ends d := by
  intro h
  obtain ⟨v, t, rest, hv, htokens, ht⟩ := readComparison_opens h
  rw [hc] at htokens
  have hone : v = [.word (truthWord b)] := by
    obtain ⟨z, hz, rfl⟩ | h | h := Phrase.derives_term.1 hv
    · cases htokens
    · obtain ⟨x, u, hu, rfl⟩ := Phrase.derives_call.1 h
      cases htokens
    · obtain h | ⟨u, hu, rfl⟩ | ⟨x, rfl⟩ | rfl | rfl := Phrase.derives_fragment.1 h
      · obtain ⟨x, rfl⟩ | ⟨digits, rfl⟩ := Phrase.derives_operand.1 h
        · cases htokens
        · cases htokens
      · cases htokens
      · cases htokens
      · simp_all
      · simp_all
  rw [hone] at htokens
  obtain rfl : ts = t :: rest := by simpa using htokens
  exact not_extends_catom hts ht

/-- A group before a token that does not extend it is not the start of a comparison. -/
theorem not_readComparison_paren {u : List Token} (hu : Closed u)
    (hts : Halts Nonterminal.catom.extendedBy ts)
    (hc : c.tokens = .mark .leftParen :: (u ++ .mark .rightParen :: ts)) :
    ¬ (readComparison c).Ends d := by
  intro h
  obtain ⟨v, t, rest, hv, htokens, ht⟩ := readComparison_opens h
  rw [hc] at htokens
  have hgroup : ∃ z, (Phrase.sort .expr).Derives z ∧
      v = .mark .leftParen :: (z ++ [.mark .rightParen]) := by
    obtain h | h | h := Phrase.derives_term.1 hv
    · exact h
    · obtain ⟨x, u, hu, rfl⟩ := Phrase.derives_call.1 h
      cases htokens
    · obtain h | ⟨u, hu, rfl⟩ | ⟨x, rfl⟩ | rfl | rfl := Phrase.derives_fragment.1 h
      · obtain ⟨x, rfl⟩ | ⟨digits, rfl⟩ := Phrase.derives_operand.1 h
        · cases htokens
        · cases htokens
      · cases htokens
      · cases htokens
      · cases htokens
      · cases htokens
  obtain ⟨z, hz, rfl⟩ := hgroup
  simp only [List.cons_append, List.cons.injEq, true_and, List.append_assoc, List.nil_append] at htokens
  obtain ⟨-, rfl⟩ := hu.unique (Phrase.Derives.closed_exprs.2 hz) htokens
  exact not_extends_catom hts ht

/-- A `!` opens a comparison only if a name comes next and no parenthesis behind it. -/
theorem not_readComparison_not (hc : c.tokens = .mark .not :: us)
    (hus : ∀ x t ts, us = .identifier x :: t :: ts → t = .mark .leftParen) :
    ¬ (readComparison c).Ends d := by
  intro h
  obtain ⟨v, t, rest, hv, htokens, ht⟩ := readComparison_opens h
  rw [hc] at htokens
  have hnot : ∃ x, v = [.mark .not, .identifier x] := by
    obtain ⟨z, hz, rfl⟩ | h | h := Phrase.derives_term.1 hv
    · cases htokens
    · obtain ⟨x, u, hu, rfl⟩ := Phrase.derives_call.1 h
      cases htokens
    · obtain h | ⟨u, hu, rfl⟩ | h | rfl | rfl := Phrase.derives_fragment.1 h
      · obtain ⟨x, rfl⟩ | ⟨digits, rfl⟩ := Phrase.derives_operand.1 h
        · cases htokens
        · cases htokens
      · cases htokens
      · exact h
      · cases htokens
      · cases htokens
  obtain ⟨x, rfl⟩ := hnot
  obtain rfl := hus x t rest (by simpa using htokens)
  rcases ht with ht | ht
  · cases ht
  · cases ht

/-- Atoms, given the shorter conditions. -/
theorem readAtom_reads {n : Nat}
    (hr : ∀ m < n, Nonterminal.catom.Reads m readAtom ∧ Nonterminal.cond.Reads m read) :
    Nonterminal.catom.Reads n readAtom := by
  intro w ts c hw hn hts hc
  obtain ⟨u, m, v, hu, hm, hv, rfl⟩ | ⟨u, hu, rfl⟩ | ⟨u, hu, rfl⟩ | rfl | rfl :=
    Phrase.derives_catom.1 hw
  · refine readAtom_of_readComparison (readComparison_leaves hu hm hv ?_ (by simpa using hc))
    exact hts.imp fun t ht => (Bool.or_eq_false_iff.1 ht).1
  · have hlen : u.length < n := by
      rw [List.length_cons] at hn
      omega
    have hinner : ∀ d, d.tokens = u ++ ts → (readAtom d).Leaves ts := fun d hd =>
      (hr u.length hlen).1 u ts d hu (Nat.le_refl _) hts hd
    by_cases hname : ∀ x t zs, u ++ ts = .identifier x :: t :: zs → t = .mark .leftParen
    · exact readAtom_of_not (fun d => not_readComparison_not hc hname) hc hinner
    · push Not at hname
      obtain ⟨x, t, zs, htokens, ht⟩ := hname
      obtain ⟨s, m, v, hs, hm, hv, hnot⟩ := hu.not_comparison htokens ht
      refine readAtom_of_readComparison (readComparison_leaves hs hm hv ?_ ?_)
      · exact hts.imp fun t ht => (Bool.or_eq_false_iff.1 ht).1
      · rw [hc, hnot]
        simp
  · have hlen : u.length < n := by
      simp only [List.length_cons, List.length_append] at hn
      omega
    have hc' : c.tokens = .mark .leftParen :: (u ++ .mark .rightParen :: ts) := by simpa using hc
    refine readAtom_of_paren
      (fun d => not_readComparison_paren (Phrase.Derives.closed_conds.2 hu) hts hc') hc' ?_
    intro d hd
    exact (hr u.length hlen).2 u _ d hu (Nat.le_refl _) (halts_cons.2 rfl) hd
  · have hc' : c.tokens = .word (truthWord true) :: ts := hc
    exact readAtom_of_bool (fun d => not_readComparison_bool hts hc') hc'
  · have hc' : c.tokens = .word (truthWord false) :: ts := hc
    exact readAtom_of_bool (fun d => not_readComparison_bool hts hc') hc'

/-- Atoms and conditions, by induction on the length of the phrase. -/
theorem reads_all (n : Nat) :
    Nonterminal.catom.Reads n readAtom ∧ Nonterminal.cond.Reads n read := by
  induction n using Nat.strongRecOn with
  | ind n ih =>
    have hatom : Nonterminal.catom.Reads n readAtom := readAtom_reads ih
    refine ⟨hatom, ?_⟩
    intro w ts c hw hn hts hc
    rw [read]
    refine hatom.separated ?_ ?_ (Phrase.derives_sort.1 hw) hn hts hc
    · intro x hx
      obtain rfl | rfl := Phrase.derives_connective.1 hx
      · exact ⟨_, rfl, rfl⟩
      · exact ⟨_, rfl, rfl⟩
    · intro t ht
      unfold Connective.ofToken? at ht
      split at ht
      · rfl
      · rfl
      · cases ht

/-- **Conditions are read.** -/
theorem read_leaves (hw : (Phrase.sort .cond).Derives w) (hts : Halts Nonterminal.cond.extendedBy ts)
    (hc : c.tokens = w ++ ts) : (read c).Leaves ts :=
  (reads_all w.length).2 w ts c hw (Nat.le_refl _) hts hc

end Cond

end ThreeAddress
