import Mathlib.Data.String.Basic
import ThreeAddress.Proofs.LongestTokens

/-!
# How a source is laid out

A source that scans is a row of tokens with blanks and comments between them, and nothing else.  Here
this is said without the scanner: which pieces may stand between tokens, how tokens and gaps take turns,
and when nothing can stand next.  The scanner agrees with it on every text, so it loses nothing and finds
the only way to cut the text.

* `Skips`, `Gap` — one piece between tokens, and any number of them;
* `Layout` — gaps and tokens in turn, up to a place in the text;
* `Stuck` — nothing can stand at the front of a text;
* `StandIn` — tokens stand in a source where their spans say;
* `munch_fits`, `munch_stuck` — what the scanner cuts off, and where it cannot;
* `scan_eq_of_layout`, `scan_cases` — the scanner follows a layout, and always has one to follow;
* `tokenize_iff_layout` — what scanning a source yields, and where and why it fails.
-/

namespace ThreeAddress

/-! ### What a source is made of -/

/-- One piece between tokens and the text behind it: a blank, a comment up to the end of its line, or a
comment up to the first closing. -/
inductive Skips : List Char → List Char → Prop
  | blank {c : Char} {rest : List Char} (hc : isBlank c = true) : Skips [c] rest
  | line {body rest : List Char} (hbody : '\n' ∉ body) (hend : ∀ c ∈ rest.head?, c = '\n') :
      Skips ('/' :: '/' :: body) rest
  | block {body rest : List Char} (hbody : ¬ ['*', '/'] <:+: body ++ ['*']) :
      Skips ('/' :: '*' :: (body ++ ['*', '/'])) rest

/-- What stands between two tokens, and the text behind it. -/
inductive Gap : List Char → List Char → Prop
  | nil {rest : List Char} : Gap [] rest
  | cons {piece gap rest : List Char} (hp : Skips piece (gap ++ rest)) (h : Gap gap rest) :
      Gap (piece ++ gap) rest

/-- A text that starts at the given offset holds these tokens with gaps around them, and then the rest
follows. -/
inductive Layout : Nat → List Char → List Lexeme → List Char → Prop
  | done {offset : Nat} {gap rest : List Char} (hgap : Gap gap rest) : Layout offset (gap ++ rest) [] rest
  | token {offset : Nat} {gap more rest : List Char} {t : Token} {ls : List Lexeme}
      (hgap : Gap gap (t.text.toList ++ more)) (ht : t.Written) (hlong : t.Longest more)
      (h : Layout (offset + byteLength gap + byteLength t.text.toList) more ls rest) :
      Layout offset (gap ++ (t.text.toList ++ more))
        (⟨t, ⟨offset + byteLength gap, offset + byteLength gap + byteLength t.text.toList⟩⟩ :: ls) rest

/-- Neither a token nor a blank nor a complete comment stands at the front of the text.  The cause says
whether a comment is opened there. -/
structure Stuck (cause : LexicalCause) (rest : List Char) : Prop where
  ne_nil : rest ≠ []
  no_token : ∀ t : Token, t.Written → ¬ t.text.toList <+: rest
  no_skip : ∀ piece behind, Skips piece behind → rest ≠ piece ++ behind
  unterminated : cause = .unterminatedComment ↔ ['/', '*'] <+: rest
  invalid : ∀ c, cause = .invalidCharacter c → rest.head? = some c

/-- The tokens stand in the source where their spans say, one behind the other. -/
structure StandIn (source : String) (ls : List Lexeme) : Prop where
  nonempty : ∀ l ∈ ls, l.span.start < l.span.stop
  in_bounds : ∀ l ∈ ls, l.span.stop ≤ source.utf8ByteSize
  ordered : ls.Pairwise fun l k => l.span.stop ≤ k.span.start
  slices : ∀ l ∈ ls, String.Pos.Raw.extract source ⟨l.span.start⟩ ⟨l.span.stop⟩ = l.token.text
  written : ∀ l ∈ ls, l.token.Written

/-! ### Bytes -/

theorem byteLength_eq_utf8Len (text : List Char) : byteLength text = String.utf8Len text := by
  induction text with
  | nil => rfl
  | cons c cs ih =>
    rw [String.utf8Len_cons, ← ih, Nat.add_comm]
    rfl

theorem byteLength_append (a b : List Char) : byteLength (a ++ b) = byteLength a + byteLength b := by
  simp [byteLength_eq_utf8Len]

theorem byteLength_pos {text : List Char} (h : text ≠ []) : 0 < byteLength text := by
  rw [byteLength_eq_utf8Len, Nat.pos_iff_ne_zero, Ne, String.utf8Len_eq_zero]
  exact h

/-! ### Gaps -/

theorem Gap.append {gap more rest : List Char} (h : Gap gap (more ++ rest)) (hm : Gap more rest) :
    Gap (gap ++ more) rest := by
  generalize hr : more ++ rest = r at h
  induction h with
  | nil => exact hm
  | cons hp _ ih =>
    subst hr
    rw [List.append_assoc]
    exact .cons (by rwa [List.append_assoc]) (ih rfl)

theorem Skips.gap {piece rest : List Char} (h : Skips piece rest) : Gap piece rest := by
  rw [← List.append_nil piece]
  exact .cons h .nil

theorem gap_blanks {cs : List Char} (h : ∀ c ∈ cs, isBlank c = true) (rest : List Char) : Gap cs rest := by
  induction cs with
  | nil => exact .nil
  | cons c cs ih =>
    exact .cons (.blank (h c (List.mem_cons_self ..)))
      (ih fun d hd => h d (List.mem_cons_of_mem _ hd))

theorem head?_dropWhile_not {p : Char → Bool} (cs : List Char) :
    ∀ c ∈ (cs.dropWhile p).head?, p c = false := by
  intro c hc
  have := List.head?_dropWhile_not p cs
  rw [Option.mem_def] at hc
  simpa [hc] using this

theorem not_mem_takeWhile_ne (c : Char) (cs : List Char) : c ∉ cs.takeWhile (· != c) :=
  fun h => absurd (mem_takeWhile h) (by simp)

/-- Whether a closing starts at a character shows in the next one. -/
theorem closing_prefix_iff {c d : Char} {r body rest : List Char} (h : d :: r = body ++ '*' :: rest) :
    ['*', '/'] <+: c :: (body ++ ['*']) ↔ c = '*' ∧ d = '/' := by
  cases body with
  | nil =>
    obtain ⟨rfl, -⟩ := List.cons.inj h
    simp [eq_comm]
  | cons e body =>
    obtain ⟨rfl, -⟩ := List.cons.inj h
    simp [eq_comm]

/-- A block comment goes up to its first closing. -/
theorem closeComment_eq_some_iff {text closed rest : List Char} :
    closeComment text = some (closed, rest) ↔
      ∃ body, closed = body ++ ['*', '/'] ∧ text = closed ++ rest ∧ ¬ ['*', '/'] <:+: body ++ ['*'] := by
  constructor
  · intro h
    suffices ∃ body, closed = body ++ ['*', '/'] ∧ ¬ ['*', '/'] <:+: body ++ ['*'] by
      obtain ⟨body, hc, hb⟩ := this
      exact ⟨body, hc, (closeComment_append h).symm, hb⟩
    fun_induction closeComment text generalizing closed rest with
    | case1 => cases h
    | case2 => cases h
    | case3 c d r hcd =>
      cases h
      exact ⟨[], by simp [hcd], by decide⟩
    | case4 c d r hcd ih =>
      obtain ⟨⟨b, t⟩, hb, he⟩ := Option.map_eq_some_iff.1 h
      cases he
      obtain ⟨body, rfl, hbody⟩ := ih hb
      refine ⟨c :: body, rfl, ?_⟩
      rw [List.cons_append, List.infix_cons_iff, not_or]
      have hdr : d :: r = body ++ '*' :: '/' :: t := by simpa using (closeComment_append hb).symm
      exact ⟨fun hp => hcd ((closing_prefix_iff hdr).1 hp), hbody⟩
  · rintro ⟨body, rfl, rfl, hbody⟩
    induction body with
    | nil => simp [closeComment]
    | cons c body ih =>
      rw [List.cons_append, List.infix_cons_iff, not_or] at hbody
      obtain ⟨d, r, hdr⟩ := List.exists_cons_of_ne_nil (l := body ++ '*' :: '/' :: rest) (by simp)
      have hrest : body ++ ['*', '/'] ++ rest = d :: r := by simpa using hdr
      have hcd : ¬ (c = '*' ∧ d = '/') := fun h => hbody.1 ((closing_prefix_iff hdr.symm).2 h)
      have ih := ih hbody.2
      rw [hrest] at ih
      simp only [List.cons_append, hrest, closeComment, hcd, if_false, ih, Option.map_some]

theorem closeComment_eq_none {text : List Char} (h : closeComment text = none) : ¬ ['*', '/'] <:+: text := by
  fun_induction closeComment text with
  | case1 => decide
  | case2 c => simp [List.infix_cons_iff]
  | case3 => cases h
  | case4 c d r hcd ih =>
    rw [List.infix_cons_iff, not_or]
    refine ⟨?_, ih (by simpa using h)⟩
    rintro ⟨r', hr⟩
    simp only [List.cons_append, List.nil_append, List.cons.injEq] at hr
    exact hcd ⟨hr.1.symm, hr.2.1.symm⟩

/-! ### The first piece -/

/-- A piece is a token that the text behind it does not go on with, or it belongs to a gap. -/
def Munch.Fits (m : Munch) : Prop :=
  match m.token with
  | some t => t.Written ∧ t.text.toList = m.taken ∧ t.Apart m.rest
  | none => Gap m.taken m.rest

theorem munch_fits {c : Char} {cs : List Char} {m : Munch} (h : munch c cs = .ok m) : m.Fits := by
  unfold munch at h
  split at h
  · rename_i hc
    cases h
    refine gap_blanks (fun d hd => ?_) _
    rcases List.mem_cons.1 hd with rfl | hd
    · exact hc
    · exact mem_takeWhile hd
  split at h
  · rename_i hc
    cases h
    have hw : Token.Cut c (cs.takeWhile isWordPart) _ := .word hc fun d hd => mem_takeWhile hd
    refine ⟨hw.written, hw.text, ?_⟩
    rw [Token.Apart, goesOn_ofWord]
    exact head?_dropWhile_not cs
  split at h
  · rename_i hc
    cases h
    have hn : Token.Cut c (cs.takeWhile Char.isDigit) _ := .number hc fun d hd => mem_takeWhile hd
    exact ⟨hn.written, hn.text, head?_dropWhile_not cs⟩
  split at h
  · cases h
    refine Skips.gap (.line (not_mem_takeWhile_ne _ _) fun d hd => ?_)
    simpa using head?_dropWhile_not _ d hd
  · split at h
    · rename_i hc
      cases h
      obtain ⟨body, rfl, -, hbody⟩ := closeComment_eq_some_iff.1 hc
      exact Skips.gap (.block hbody)
    · cases h
  · split at h
    · rename_i hm
      cases h
      obtain ⟨k, hk, htext, hr⟩ := munchMark_apart hm
      simp only [Munch.Fits, hk]
      exact ⟨⟨trivial, by simp⟩, htext, hr⟩
    · cases h

theorem munch_error {c : Char} {cs : List Char} {cause : LexicalCause} (h : munch c cs = .error cause) :
    isBlank c = false ∧ isWordStart c = false ∧ c.isDigit = false ∧
      ((∃ r, c = '/' ∧ cs = '*' :: r ∧ closeComment r = none ∧ cause = .unterminatedComment) ∨
        (c = '/' → ∀ d ∈ cs.head?, d ≠ '/' ∧ d ≠ '*') ∧ munchMark c cs = none ∧
          cause = .invalidCharacter c) := by
  unfold munch at h
  split at h
  · cases h
  rename_i hb
  split at h
  · cases h
  rename_i hw
  split at h
  · cases h
  rename_i hd
  refine ⟨by simpa using hb, by simpa using hw, by simpa using hd, ?_⟩
  split at h
  · cases h
  · split at h
    · cases h
    · rename_i hc
      cases h
      exact .inl ⟨_, rfl, rfl, hc, rfl⟩
  · rename_i hline hblock
    split at h
    · cases h
    · rename_i hm
      cases h
      refine .inr ⟨?_, hm, rfl⟩
      rintro rfl d hd
      obtain ⟨r, rfl⟩ := List.head?_eq_some_iff.1 hd
      exact ⟨fun he => hline r rfl (by rw [he]), fun he => hblock r rfl (by rw [he])⟩

/-! ### Where nothing can stand -/

theorem munchMark_of_prefix {m : Mark} {c : Char} {cs : List Char} (h : m.text.toList <+: c :: cs) :
    munchMark c cs ≠ none := by
  obtain ⟨rest, hr⟩ := h
  by_cases ha : (Token.mark m).Apart rest
  · obtain ⟨c', cs', hs, hm⟩ := munchMark_of_apart ha
    rw [hs, List.cons_append] at hr
    obtain ⟨rfl, rfl⟩ := List.cons.inj hr
    rw [hm]
    exact Option.some_ne_none _
  · simp only [Token.Apart, Token.goesOn, not_forall, Bool.not_eq_false, decide_eq_true_eq] at ha
    obtain ⟨d, hd, hm, rfl⟩ := ha
    obtain ⟨r, rfl⟩ := List.head?_eq_some_iff.1 hd
    rcases hm with rfl | rfl | rfl | rfl <;> cases hr <;> exact Option.some_ne_none _

/-- Where cutting off a piece fails, no token starts. -/
theorem no_token_of_munch_error {c : Char} {cs : List Char} {cause : LexicalCause}
    (h : munch c cs = .error cause) {t : Token} (ht : t.Written) : ¬ t.text.toList <+: c :: cs := by
  obtain ⟨-, hw, hd, hcause⟩ := munch_error h
  intro hp
  obtain ⟨c', cs', hcut⟩ := ht.cut
  have htext := hcut.text
  obtain ⟨rest, hr⟩ := id hp
  rw [htext, List.cons_append] at hr
  obtain ⟨rfl, rfl⟩ := List.cons.inj hr
  cases hcut with
  | word hc => exact absurd hc (by simp [hw])
  | number hc => exact absurd hc (by simp [hd])
  | mark hm =>
    rcases hcause with ⟨r, rfl, -⟩ | ⟨-, hnone, -⟩
    · exact absurd rfl (Mark.head_of_text hm).2.2.2
    · exact munchMark_of_prefix hp hnone

/-- Where cutting off a piece fails, no gap starts. -/
theorem no_skip_of_munch_error {c : Char} {cs : List Char} {cause : LexicalCause}
    (h : munch c cs = .error cause) {piece behind : List Char} (hp : Skips piece behind) :
    c :: cs ≠ piece ++ behind := by
  obtain ⟨hb, -, -, hcause⟩ := munch_error h
  intro he
  cases hp with
  | blank hc =>
    cases he
    exact absurd hc (by simp [hb])
  | line =>
    cases he
    rcases hcause with ⟨r, -, hr, -⟩ | ⟨hc, -⟩
    · exact absurd (List.cons.inj hr).1 (by decide)
    · exact (hc rfl _ rfl).1 rfl
  | @block body _ _ =>
    cases he
    rcases hcause with ⟨r, -, hr, hnone, -⟩ | ⟨hc, -⟩
    · obtain ⟨-, rfl⟩ := List.cons.inj hr
      exact closeComment_eq_none hnone ⟨body, behind, rfl⟩
    · exact (hc rfl _ rfl).2 rfl

/-- Where cutting off a piece fails, nothing can stand. -/
theorem munch_stuck {c : Char} {cs : List Char} {cause : LexicalCause} (h : munch c cs = .error cause) :
    Stuck cause (c :: cs) where
  ne_nil := List.cons_ne_nil c cs
  no_token _ ht := no_token_of_munch_error h ht
  no_skip _ _ hp := no_skip_of_munch_error h hp
  unterminated := by
    obtain ⟨-, -, -, ⟨r, rfl, rfl, -, rfl⟩ | ⟨hc, -, rfl⟩⟩ := munch_error h
    · simp
    · simp only [reduceCtorEq, false_iff]
      rintro ⟨r, hr⟩
      cases hr
      exact (hc rfl _ rfl).2 rfl
  invalid := by
    rintro d rfl
    obtain ⟨-, -, -, ⟨-, -, -, -, he⟩ | ⟨-, -, he⟩⟩ := munch_error h
    · cases he
    · cases he
      rfl

/-! ### Scanning piece by piece -/

theorem scan_of_munch {c : Char} {cs : List Char} {m : Munch} {offset : Nat} (h : munch c cs = .ok m) :
    scan offset (c :: cs) = (scan (offset + byteLength m.taken) m.rest).map fun more =>
      m.token.elim more fun t => ⟨t, ⟨offset, offset + byteLength m.taken⟩⟩ :: more := by
  rw [scan]
  split
  · rename_i hm
    rw [h] at hm
    cases hm
  · rename_i hm
    rw [h] at hm
    cases hm
    dsimp only
    split
    · rename_i hs
      rw [hs]
      rfl
    · rename_i hs
      rw [hs]
      split <;> rename_i ht <;> rw [ht] <;> rfl

theorem scan_of_stuck_munch {c : Char} {cs : List Char} {cause : LexicalCause} {offset : Nat}
    (h : munch c cs = .error cause) : scan offset (c :: cs) = .error (cause.fault offset) := by
  rw [scan]
  split <;> rename_i hm <;> rw [h] at hm <;> cases hm
  rfl

theorem scan_nil {offset : Nat} : scan offset [] = .ok [] := by rw [scan]

/-- A token is scanned first if the text behind it is apart from it. -/
theorem scan_of_apart {t : Token} {rest : List Char} {offset : Nat} (ht : t.Written) (h : t.Apart rest) :
    scan offset (t.text.toList ++ rest) = (scan (offset + byteLength t.text.toList) rest).map
      (⟨t, ⟨offset, offset + byteLength t.text.toList⟩⟩ :: ·) := by
  obtain ⟨c, cs, hcut⟩ := ht.cut
  rw [hcut.text, List.cons_append, scan_of_munch (munch_of_apart hcut h)]
  rfl

theorem munch_blank {c : Char} (cs : List Char) (hc : isBlank c = true) :
    munch c cs = .ok ⟨none, c :: cs.takeWhile isBlank, cs.dropWhile isBlank⟩ := by
  simp [munch, munchRun, hc]

theorem munch_line (cs : List Char) :
    munch '/' ('/' :: cs) =
      .ok ⟨none, '/' :: '/' :: cs.takeWhile (· != '\n'), cs.dropWhile (· != '\n')⟩ := rfl

theorem munch_block {cs closed rest : List Char} (h : closeComment cs = some (closed, rest)) :
    munch '/' ('*' :: cs) = .ok ⟨none, '/' :: '*' :: closed, rest⟩ := by
  have hw : isWordStart '/' = false := by decide
  have hd : '/'.isDigit = false := by decide
  simp [munch, isBlank, hw, hd, h]

/-- Scanning goes on behind a blank, whether the blank ends a run or not. -/
theorem scan_blank {c : Char} {rest : List Char} {offset : Nat} (hc : isBlank c = true) :
    scan offset (c :: rest) = scan (offset + byteLength [c]) rest := by
  have skip {o : Nat} {d : Char} {cs : List Char} (hd : isBlank d = true) :
      scan o (d :: cs) = scan (o + byteLength (d :: cs.takeWhile isBlank)) (cs.dropWhile isBlank) := by
    rw [scan_of_munch (munch_blank cs hd)]
    cases scan (o + byteLength (d :: cs.takeWhile isBlank)) (cs.dropWhile isBlank) <;> rfl
  rw [skip hc]
  cases rest with
  | nil => rfl
  | cons d cs =>
    by_cases hd : isBlank d = true
    · rw [skip hd, List.takeWhile_cons_of_pos hd, List.dropWhile_cons_of_pos hd,
        ← List.singleton_append, byteLength_append, Nat.add_assoc]
    · rw [List.takeWhile_cons_of_neg hd, List.dropWhile_cons_of_neg hd]

/-- Scanning goes on behind a piece of a gap. -/
theorem scan_skips {piece rest : List Char} {offset : Nat} (h : Skips piece rest) :
    scan offset (piece ++ rest) = scan (offset + byteLength piece) rest := by
  have skip {c : Char} {cs : List Char} (hm : munch c (cs ++ rest) = .ok ⟨none, c :: cs, rest⟩) :
      scan offset (c :: cs ++ rest) = scan (offset + byteLength (c :: cs)) rest := by
    rw [List.cons_append, scan_of_munch hm]
    cases scan (offset + byteLength (c :: cs)) rest <;> rfl
  cases h with
  | blank hc => exact scan_blank hc
  | @line body _ hbody hend =>
    have hb : ∀ d ∈ body, (d != '\n') = true := fun d hd => by
      rw [bne_iff_ne]
      rintro rfl
      exact hbody hd
    have hr : ∀ d ∈ rest.head?, (d != '\n') = false := fun d hd => by simp [hend d hd]
    apply skip
    rw [List.cons_append, munch_line, takeWhile_append_of_head hb hr, dropWhile_append_of_head hb hr]
  | block hbody => exact skip (munch_block (closeComment_eq_some_iff.2 ⟨_, rfl, rfl, hbody⟩))

theorem scan_gap {gap rest : List Char} {offset : Nat} (h : Gap gap rest) :
    scan offset (gap ++ rest) = scan (offset + byteLength gap) rest := by
  induction h generalizing offset with
  | nil => rfl
  | cons hp _ ih => rw [List.append_assoc, scan_skips hp, ih, byteLength_append, Nat.add_assoc]

/-- What is stuck tells its cause. -/
theorem Stuck.cause_unique {cause cause' : LexicalCause} {rest : List Char} (h : Stuck cause rest)
    (h' : Stuck cause' rest) : cause = cause' := by
  cases cause with
  | unterminatedComment => exact (h'.unterminated.2 (h.unterminated.1 rfl)).symm
  | invalidCharacter c =>
    cases cause' with
    | unterminatedComment => exact h.unterminated.2 (h'.unterminated.1 rfl)
    | invalidCharacter d =>
      rw [Option.some.inj ((h.invalid c rfl).symm.trans (h'.invalid d rfl))]

/-- Where nothing can stand, scanning fails. -/
theorem Stuck.scan {cause : LexicalCause} {rest : List Char} {offset : Nat} (h : Stuck cause rest) :
    scan offset rest = .error (cause.fault offset) := by
  obtain ⟨c, cs, rfl⟩ := List.exists_cons_of_ne_nil h.ne_nil
  cases hm : munch c cs with
  | error cause' => rw [h.cause_unique (munch_stuck hm), scan_of_stuck_munch hm]
  | ok m =>
    have hfits := munch_fits hm
    have htext := munch_append hm
    unfold Munch.Fits at hfits
    split at hfits
    · exact absurd ⟨m.rest, by rw [hfits.2.1, htext]⟩ (h.no_token _ hfits.1)
    · generalize htaken : m.taken = taken at hfits htext
      cases hfits with
      | nil => exact absurd htaken (munch_ne_nil hm)
      | @cons piece gap _ hp _ =>
        exact absurd (by rw [← htext, List.append_assoc]) (h.no_skip piece (gap ++ m.rest) hp)

/-! ### Layouts -/

/-- The scanner follows a layout as far as it goes. -/
theorem scan_eq_of_layout {offset : Nat} {text rest : List Char} {ls : List Lexeme}
    (h : Layout offset text ls rest) :
    ∃ before, text = before ++ rest ∧
      scan offset text = (scan (offset + byteLength before) rest).map (ls ++ ·) := by
  induction h with
  | @done offset gap rest hgap =>
    refine ⟨gap, rfl, ?_⟩
    rw [scan_gap hgap]
    cases scan (offset + byteLength gap) rest <;> rfl
  | @token offset gap more rest t ls hgap ht hlong h ih =>
    obtain ⟨before, rfl, hs⟩ := ih
    refine ⟨gap ++ (t.text.toList ++ before), by simp only [List.append_assoc], ?_⟩
    rw [scan_gap hgap, scan_of_apart ht ((Token.longest_iff_apart ht).1 hlong), hs, byteLength_append, byteLength_append,
      ← Nat.add_assoc, ← Nat.add_assoc]
    cases scan _ rest <;> rfl

/-- A gap in front of a laid-out text belongs to the layout. -/
theorem Layout.behind_gap {offset : Nat} {gap text rest : List Char} {ls : List Lexeme}
    (hgap : Gap gap text) (h : Layout (offset + byteLength gap) text ls rest) :
    Layout offset (gap ++ text) ls rest := by
  generalize ho : offset + byteLength gap = o at h
  cases h with
  | done hg =>
    rw [← List.append_assoc]
    exact .done (hgap.append hg)
  | @token _ g more _ t _ hg ht hlong h =>
    subst ho
    rw [← List.append_assoc]
    have hb : offset + byteLength gap + byteLength g = offset + byteLength (gap ++ g) := by
      rw [byteLength_append, Nat.add_assoc]
    rw [hb] at h ⊢
    exact .token (hgap.append hg) ht hlong h

/-- A first piece in front of a laid-out text extends the layout. -/
theorem Layout.behind_piece {m : Munch} {offset : Nat} {rest : List Char} {ls : List Lexeme} (hm : m.Fits)
    (h : Layout (offset + byteLength m.taken) m.rest ls rest) :
    Layout offset (m.taken ++ m.rest)
      (m.token.elim ls fun t => ⟨t, ⟨offset, offset + byteLength m.taken⟩⟩ :: ls) rest := by
  unfold Munch.Fits at hm
  split at hm
  · rename_i t ht
    obtain ⟨hw, htext, ha⟩ := hm
    rw [ht, ← htext]
    rw [← htext] at h
    exact .token .nil hw ((Token.longest_iff_apart hw).2 ha) h
  · rename_i ht
    rw [ht]
    exact h.behind_gap hm

/-- Every text is laid out, to its end or to a place where nothing can stand. -/
theorem scan_cases (offset : Nat) (text : List Char) :
    (∃ ls, scan offset text = .ok ls ∧ Layout offset text ls []) ∨
      ∃ ls before rest cause, text = before ++ rest ∧ Layout offset text ls rest ∧ Stuck cause rest ∧
        scan offset text = .error (cause.fault (offset + byteLength before)) := by
  induction hn : text.length using Nat.strongRecOn generalizing offset text with
  | ind n ih =>
    subst hn
    cases text with
    | nil => exact .inl ⟨[], scan_nil, .done .nil⟩
    | cons c cs =>
      cases hm : munch c cs with
      | error cause =>
        exact .inr ⟨[], [], c :: cs, cause, rfl, .done .nil, munch_stuck hm, scan_of_stuck_munch hm⟩
      | ok m =>
        have hfits := munch_fits hm
        rw [scan_of_munch hm, ← munch_append hm]
        rcases ih _ (munch_rest_lt hm) (offset + byteLength m.taken) m.rest rfl with
          ⟨ls, hs, hl⟩ | ⟨ls, before, rest, cause, hr, hl, hstuck, hs⟩
        · exact .inl ⟨_, by rw [hs]; rfl, hl.behind_piece hfits⟩
        · refine .inr ⟨_, m.taken ++ before, rest, cause, by rw [hr, List.append_assoc], hl.behind_piece hfits,
            hstuck, ?_⟩
          rw [hs, byteLength_append, Nat.add_assoc]
          rfl

/-- The tokens of a layout stand behind its start, where their spans say. -/
theorem Layout.places {offset : Nat} {text rest : List Char} {ls : List Lexeme}
    (h : Layout offset text ls rest) :
    ∀ l ∈ ls, l.token.Written ∧ ∃ before after, text = before ++ l.token.text.toList ++ after ∧
      l.span = ⟨offset + byteLength before, offset + byteLength before + byteLength l.token.text.toList⟩ := by
  induction h with
  | done => simp
  | @token offset gap more rest t ls hgap ht hlong h ih =>
    intro l hl
    rcases List.mem_cons.1 hl with rfl | hl
    · exact ⟨ht, gap, more, by rw [List.append_assoc], rfl⟩
    · obtain ⟨hw, before, after, hm, hspan⟩ := ih l hl
      refine ⟨hw, gap ++ t.text.toList ++ before, after, ?_, ?_⟩
      · rw [hm]
        simp only [List.append_assoc]
      · rw [hspan, byteLength_append, byteLength_append]
        simp only [Nat.add_assoc]

/-- The tokens of a layout stand one behind the other. -/
theorem Layout.ordered {offset : Nat} {text rest : List Char} {ls : List Lexeme}
    (h : Layout offset text ls rest) : ls.Pairwise fun l k => l.span.stop ≤ k.span.start := by
  induction h with
  | done => exact .nil
  | token hgap ht hlong h ih =>
    refine .cons (fun k hk => ?_) ih
    obtain ⟨-, before, after, -, hspan⟩ := h.places k hk
    rw [hspan]
    exact Nat.le_add_right _ _

theorem Layout.standIn {source : String} {rest : List Char} {ls : List Lexeme}
    (h : Layout 0 source.toList ls rest) : StandIn source ls := by
  refine ⟨fun l hl => ?_, fun l hl => ?_, h.ordered, fun l hl => ?_, fun l hl => (h.places l hl).1⟩
  all_goals obtain ⟨hw, before, after, hs, hspan⟩ := h.places l hl
  · obtain ⟨c, cs, hcut⟩ := hw.cut
    have hne : l.token.text.toList ≠ [] := by simp [hcut.text]
    rw [hspan]
    exact Nat.lt_add_of_pos_right (byteLength_pos hne)
  · have hlen := congrArg byteLength hs
    rw [byteLength_append, byteLength_append, byteLength_eq_utf8Len source.toList,
      String.utf8Len_toList] at hlen
    rw [hspan]
    dsimp only
    omega
  · have hslice := String.extract_of_valid before l.token.text.toList after
    rw [← hs, String.ofList_toList, String.ofList_toList, ← byteLength_eq_utf8Len,
      ← byteLength_eq_utf8Len] at hslice
    simpa [hspan] using hslice

/-- A source that scans is laid out as its tokens. -/
theorem layout_of_tokenize {source : String} {ls : List Lexeme} (h : tokenize source = .ok ls) :
    Layout 0 source.toList ls [] := by
  rcases scan_cases 0 source.toList with ⟨ls', hs, hl⟩ | ⟨_, _, _, _, -, -, -, hs⟩
  · rw [tokenize, hs] at h
    cases h
    exact hl
  · rw [tokenize, hs] at h
    cases h

/-- A source that does not scan is laid out up to a place where nothing can stand. -/
theorem stuck_of_tokenize {source : String} {fault : Fault} (h : tokenize source = .error fault) :
    ∃ ls before rest cause, source.toList = before ++ rest ∧ Layout 0 source.toList ls rest ∧ Stuck cause rest ∧
      fault = cause.fault (byteLength before) := by
  rcases scan_cases 0 source.toList with ⟨ls, hs, -⟩ | ⟨ls, before, rest, cause, ht, hl, hstuck, hs⟩
  · rw [tokenize, hs] at h
    cases h
  · rw [tokenize, hs, Nat.zero_add] at h
    cases h
    exact ⟨ls, before, rest, cause, ht, hl, hstuck, rfl⟩

/-- The tokens of a source are tokens that a text can hold. -/
theorem tokenize_written {source : String} {ls : List Lexeme} (h : tokenize source = .ok ls) :
    ∀ l ∈ ls, l.token.Written :=
  fun l hl => ((layout_of_tokenize h).places l hl).1

/-- **Scanning loses nothing.**  A source scans exactly when it is tokens with gaps around them, each
token the longest that starts where it does, and then these are the tokens found; they stand in the source
where their spans say.  Scanning fails exactly when a layout comes to a place where nothing can stand, and
then the fault is there; it is an unterminated comment, of two bytes, exactly when a comment is opened
there. -/
theorem tokenize_iff_layout (source : String) :
    (∀ ls, tokenize source = .ok ls ↔ Layout 0 source.toList ls []) ∧
      (∀ ls, tokenize source = .ok ls → StandIn source ls) ∧
      ∀ fault, tokenize source = .error fault ↔
        ∃ ls before rest cause, source.toList = before ++ rest ∧ Layout 0 source.toList ls rest ∧
          Stuck cause rest ∧ fault = cause.fault (byteLength before) ∧
          fault.span.start = byteLength before ∧
          (fault.code = .unterminatedComment ↔ ['/', '*'] <+: rest) ∧
          (fault.code = .unterminatedComment → fault.span.length = 2) := by
  refine ⟨fun ls => ⟨layout_of_tokenize, fun hl => ?_⟩, fun ls h => (layout_of_tokenize h).standIn,
    fun fault => ⟨fun h => ?_, ?_⟩⟩
  · obtain ⟨before, -, hs⟩ := scan_eq_of_layout hl
    rw [tokenize, hs, scan_nil]
    exact congrArg Except.ok (List.append_nil ls)
  · obtain ⟨ls, before, rest, cause, ht, hl, hstuck, rfl⟩ := stuck_of_tokenize h
    refine ⟨ls, before, rest, cause, ht, hl, hstuck, rfl, rfl, ?_, ?_⟩
    · rw [← hstuck.unterminated]
      cases cause <;> simp [LexicalCause.fault, LexicalCause.code]
    · cases cause <;> simp [LexicalCause.fault, LexicalCause.code, LexicalCause.extent, Span.length]
  · rintro ⟨ls, before, rest, cause, ht, hl, hstuck, rfl, -⟩
    obtain ⟨before', ht', hs⟩ := scan_eq_of_layout hl
    obtain rfl := List.append_cancel_right (ht.symm.trans ht')
    rw [tokenize, hs, hstuck.scan, Nat.zero_add]
    rfl

end ThreeAddress
