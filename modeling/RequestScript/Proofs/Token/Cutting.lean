import RequestScript.Proofs.Grammar.Trees
import RequestScript.Proofs.Token.Shift
import RequestScript.Text.Slice

/-!
# Texts cut in two

The tokens of a text that is cut in two are those of its parts, if no word is cut.

* **Appending**: what follows is read with the margin that the first part leaves behind
  (`Margin.afterAll`), and otherwise on its own (`Cursor.tokens_append`). A line feed leaves no
  trace of what was before it (`Cursor.tokens_append_lineFeed`, `tokens_tokenize_append_lineFeed`).
* **Cutting**: before each of its tokens a text can be cut so that this token is the first of the
  second part (`Cursor.exists_cut_before`), and after each so that it is the last of the first part
  (`Cursor.exists_cut_after`). Between two cuts lie the tokens between them, and no others
  (`exists_covers_of_tokens_eq`).
-/

namespace RequestScript

/-! ### Appending -/

namespace Margin

/-- The margin after a character: where it is not skipped, it belongs to a token. -/
def after (m : Margin) (c : Char) : Margin :=
  (m.step? c).getD .body

theorem after_of_step?_eq_some {m m' : Margin} {c : Char} (h : m.step? c = some m') :
    m.after c = m' := by
  rw [after, h, Option.getD_some]

private theorem after_of_step?_eq_none {m : Margin} {c : Char} (h : m.step? c = none) :
    m.after c = .body := by
  rw [after, h, Option.getD_none]

/-- The margin after the characters `cs`. -/
def afterAll (m : Margin) (cs : List Char) : Margin :=
  cs.foldl after m

@[simp]
theorem afterAll_nil (m : Margin) : m.afterAll [] = m := rfl

@[simp]
theorem afterAll_cons (m : Margin) (c : Char) (cs : List Char) :
    m.afterAll (c :: cs) = (m.after c).afterAll cs := rfl

theorem afterAll_append (m : Margin) (as bs : List Char) :
    m.afterAll (as ++ bs) = (m.afterAll as).afterAll bs :=
  List.foldl_append

/-- A word character does not stand alone after a token. -/
private theorem step?_body_eq_none {c : Char} (h : isWordChar c = true) :
    Margin.body.step? c = none :=
  step?_eq_none_iff.mpr ⟨isBlank_of_isWordChar h, by simp, by simp⟩

/-- After a word, the margin is `body`: a token stands before the cursor. -/
theorem afterAll_word {m : Margin} {x : Char} {w : List Char} (hs : m.step? x = none)
    (hw : ∀ c ∈ x :: w, isWordChar c = true) : m.afterAll (x :: w) = .body := by
  have hbody : ∀ us : List Char, (∀ c ∈ us, isWordChar c = true) →
      Margin.body.afterAll us = .body := by
    intro us hus
    induction us with
    | nil => rfl
    | cons u us ih =>
      rw [afterAll_cons, after_of_step?_eq_none (step?_body_eq_none (hus u (by simp)))]
      exact ih fun c hc => hus c (List.mem_cons_of_mem u hc)
  rw [afterAll_cons, after_of_step?_eq_none hs]
  exact hbody w fun c hc => hw c (List.mem_cons_of_mem x hc)

end Margin

private theorem EndsWord.append {as bs : List Char} (ha : EndsWord as) (hb : EndsWord bs) :
    EndsWord (as ++ bs) := by
  cases as with
  | nil => exact hb
  | cons a as => exact ha

private theorem EndsWord.left {as bs : List Char} (h : EndsWord (as ++ bs)) : EndsWord as := by
  cases as with
  | nil => intro x hx; simp at hx
  | cons a as => exact h

theorem endsWord_nil : EndsWord [] := by
  intro x hx
  simp at hx

theorem endsWord_cons {x : Char} (h : isWordChar x = false) (xs : List Char) :
    EndsWord (x :: xs) := by
  intro y hy
  obtain rfl : x = y := by simpa using hy
  exact h

namespace Cursor

/-- **The tokens of a text in two parts**, no word of which lies in both (`EndsWord`): the second
part is read from where the first one ends, with the margin that it leaves behind. -/
theorem tokens_append (c : Cursor) {ys : List Char} (hy : EndsWord ys) :
    (⟨c.rest ++ ys, c.pos, c.margin⟩ : Cursor).stream.tokens =
      c.stream.tokens ++
        (⟨ys, c.pos.afterAll c.rest, c.margin.afterAll c.rest⟩ : Cursor).stream.tokens := by
  induction c using reading_induction with
  | atEnd p m => simp
  | trivia x xs p m m' hs ih =>
    rw [List.cons_append, stream_trivia hs, stream_trivia hs, Position.afterAll_cons,
      Margin.afterAll_cons, Margin.after_of_step?_eq_some hs]
    exact ih
  | illegal x xs p m hs hx ih =>
    rw [List.cons_append, tokens_illegal hs hx, tokens_illegal hs hx, Position.afterAll_cons,
      Margin.afterAll_cons, Margin.after_of_step?_eq_none hs]
    exact congrArg (_ :: ·) ih
  | word x w xs p m hs hw hx ih =>
    rw [List.append_assoc, tokens_word hs hw (hx.append hy), tokens_word hs hw hx,
      Position.afterAll_append, Margin.afterAll_append, Margin.afterAll_word hs hw]
    exact congrArg (_ :: ·) ih

/-- **A line feed separates**: the tokens before it and after it are those of two texts. -/
theorem tokens_append_lineFeed (as bs : List Char) (p : Position) (m : Margin) :
    (⟨as ++ '\n' :: bs, p, m⟩ : Cursor).stream.tokens =
      (⟨as, p, m⟩ : Cursor).stream.tokens ++
        (⟨bs, (p.afterAll as).after '\n', .start⟩ : Cursor).stream.tokens := by
  have hstep : ∀ m : Margin, m.step? '\n' = some .start := fun m => by simp [Margin.step?]
  have hword : isWordChar '\n' = false := by decide
  have happ := tokens_append ⟨as, p, m⟩ (endsWord_cons hword bs)
  rwa [stream_trivia (hstep _)] at happ

end Cursor

/-- The position after a text and a line feed. -/
def Position.afterLine (s : String) : Position where
  offset := byteLength s.toList + 1
  line := s.toList.count '\n' + 1

theorem Position.after_lineFeed (s : String) :
    (afterAll {} s.toList).after '\n' = afterLine s := by
  simp [after, afterLine, offset_afterAll, line_afterAll, show '\n'.utf8Size = 1 from rfl]

private theorem ofString_append_lineFeed (a b : String) :
    Cursor.ofString (a ++ "\n" ++ b) = ⟨a.toList ++ '\n' :: b.toList, {}, .start⟩ := by
  simp [Cursor.ofString]

/-- **The tokens of two texts** with a line feed between them: those of the second are moved by
`Token.shift`. -/
theorem tokens_tokenize_append_lineFeed (a b : String) :
    (tokenize (a ++ "\n" ++ b)).tokens =
      (tokenize a).tokens ++ (tokenize b).tokens.map (Token.shift (.afterLine a)) := by
  have happ := Cursor.tokens_append_lineFeed a.toList b.toList {} .start
  rw [Position.after_lineFeed, Cursor.tokens_start b.toList, String.ofList_toList] at happ
  rw [tokenize, ofString_append_lineFeed]
  exact happ

/-- Two texts end where the second one does. -/
theorem toList_tokenize_append_lineFeed (a b : String) :
    (tokenize (a ++ "\n" ++ b)).toList =
      (tokenize a).tokens ++ (tokenize b).toList.map (Token.shift (.afterLine a)) := by
  have hstop : Position.afterAll {} (a.toList ++ '\n' :: b.toList) =
      (Position.afterLine a).shift (Position.afterAll {} b.toList) := by
    rw [← Position.afterAll_shift, Position.shift_zero, Position.afterAll_append,
      Position.afterAll_cons, Position.after_lineFeed]
  have hlast : (tokenize (a ++ "\n" ++ b)).last = (tokenize b).last.shift (.afterLine a) := by
    rw [TokenStream.last, TokenStream.last, Token.shift_endOfInput, tokenize, tokenize,
      Cursor.stream_stop, Cursor.stream_stop, ofString_append_lineFeed]
    exact congrArg Token.endOfInput hstop
  rw [TokenStream.toList, TokenStream.toList, tokens_tokenize_append_lineFeed, hlast,
    List.map_append, List.append_assoc, List.map_singleton]

namespace Cursor

/-! ### Cutting -/

/-- **A cut before a token** `u`: a text can be cut where one of its tokens starts, and what
follows has that token and all later ones. -/
theorem exists_cut_before {c : Cursor} {ts us : List Token} {u : Token}
    (h : c.stream.tokens = ts ++ u :: us) :
    ∃ before x xs, c.rest = before ++ x :: xs ∧ (c.margin.afterAll before).step? x = none ∧
      u.literal.toList.head? = some x ∧ u.span.start = (c.pos.afterAll before).offset ∧
      (⟨x :: xs, c.pos.afterAll before, c.margin.afterAll before⟩ : Cursor).stream.tokens =
        u :: us := by
  induction c using reading_induction generalizing ts with
  | atEnd p m => simp at h
  | trivia x xs p m m' hs ih =>
    rw [stream_trivia hs] at h
    obtain ⟨before, y, ys, hrest, hcut⟩ := ih h
    refine ⟨x :: before, y, ys, congrArg (x :: ·) hrest, ?_⟩
    rw [Margin.afterAll_cons, Margin.after_of_step?_eq_some hs]
    exact hcut
  | illegal x xs p m hs hx ih =>
    rw [tokens_illegal hs hx] at h
    cases ts with
    | nil =>
      obtain ⟨rfl, rfl⟩ := List.cons.inj h
      exact ⟨[], x, xs, rfl, hs, by simp [Token.ofIllegal], rfl, tokens_illegal hs hx⟩
    | cons t ts =>
      obtain ⟨before, y, ys, hrest, hcut⟩ := ih (List.cons.inj h).2
      refine ⟨x :: before, y, ys, congrArg (x :: ·) hrest, ?_⟩
      rw [Margin.afterAll_cons, Margin.after_of_step?_eq_none hs]
      exact hcut
  | word x w xs p m hs hw hx ih =>
    rw [tokens_word hs hw hx] at h
    cases ts with
    | nil =>
      obtain ⟨rfl, rfl⟩ := List.cons.inj h
      exact ⟨[], x, w ++ xs, rfl, hs, by simp [Token.ofWord], rfl, tokens_word hs hw hx⟩
    | cons t ts =>
      obtain ⟨before, y, ys, hrest, hcut⟩ := ih (List.cons.inj h).2
      refine ⟨x :: w ++ before, y, ys, ?_, ?_⟩
      · rw [List.append_assoc, ← hrest]
      · rw [Position.afterAll_append, Margin.afterAll_append, Margin.afterAll_word hs hw]
        exact hcut

/-- **A cut after a token**: a text can be cut where the last of `ts` ends, and what is before has
these tokens and no others. -/
theorem exists_cut_after {c : Cursor} {ts us : List Token} (h : c.stream.tokens = ts ++ us)
    (hne : ts ≠ []) :
    ∃ part after, c.rest = part ++ after ∧
      (⟨part, c.pos, c.margin⟩ : Cursor).stream.tokens = ts ∧
      (Span.ofTokens ts).stop = (c.pos.afterAll part).offset := by
  induction c using reading_induction generalizing ts with
  | atEnd p m => simp [hne] at h
  | trivia x xs p m m' hs ih =>
    rw [stream_trivia hs] at h
    obtain ⟨part, after, hrest, htokens, hstop⟩ := ih h hne
    exact ⟨x :: part, after, congrArg (x :: ·) hrest, by rw [stream_trivia hs, htokens], hstop⟩
  | illegal x xs p m hs hx ih =>
    obtain ⟨t, ts, rfl⟩ := List.exists_cons_of_ne_nil hne
    rw [tokens_illegal hs hx] at h
    obtain ⟨rfl, htail⟩ := List.cons.inj h
    by_cases hts : ts = []
    · -- the character is the last token, and the cut is right after it
      subst hts
      exact ⟨[x], xs, rfl, by rw [tokens_illegal hs hx, stream_nil], rfl⟩
    · obtain ⟨part, after, hrest, htokens, hstop⟩ := ih htail hts
      refine ⟨x :: part, after, congrArg (x :: ·) hrest, ?_, ?_⟩
      · rw [tokens_illegal hs hx, htokens]
      · exact (Span.stop_ofTokens_append [_] hts).trans hstop
  | word x w xs p m hs hw hx ih =>
    obtain ⟨t, ts, rfl⟩ := List.exists_cons_of_ne_nil hne
    rw [tokens_word hs hw hx] at h
    obtain ⟨rfl, htail⟩ := List.cons.inj h
    by_cases hts : ts = []
    · -- the word is the last token, and the cut is right after it
      subst hts
      have hword := tokens_word (p := p) hs hw endsWord_nil
      rw [List.append_nil, stream_nil] at hword
      exact ⟨x :: w, xs, rfl, hword, (Position.offset_afterAll p (x :: w)).symm⟩
    · obtain ⟨part, after, hrest, htokens, hstop⟩ := ih htail hts
      obtain rfl : xs = part ++ after := hrest
      refine ⟨x :: w ++ part, after, by rw [List.append_assoc], ?_, ?_⟩
      · rw [tokens_word hs hw hx.left, htokens]
      · rw [Position.afterAll_append]
        exact (Span.stop_ofTokens_append [_] hts).trans hstop

end Cursor

/-- **Between two cuts** lie the tokens `us` between them, and no others: the part of the text that
some of its tokens span has, on its own, just these tokens. Only a first token that would open a
comment is lost. -/
theorem exists_covers_of_tokens_eq {source : String} {ts us vs : List Token}
    (h : (tokenize source).tokens = ts ++ us ++ vs) (hne : us ≠ [])
    (hcomment : ∀ u ∈ us.head?, u.literal.toList.head? ≠ some '#') :
    ∃ part p, (Span.ofTokens us).Covers source.toList part ∧
      p.offset = (Span.ofTokens us).start ∧
      us = (tokenize (String.ofList part)).tokens.map (Token.shift p) := by
  obtain ⟨u, us, rfl⟩ := List.exists_cons_of_ne_nil hne
  rw [List.append_assoc, List.cons_append] at h
  obtain ⟨before, x, xs, hsource, hs, hx, hstart, hfrom⟩ := Cursor.exists_cut_before h
  -- the part is read as the beginning of a text, so its first token must not open a comment
  have hsharp : x ≠ '#' := by
    rintro rfl
    exact hcomment u rfl hx
  have hs' : Margin.start.step? x = none :=
    Margin.step?_eq_none_iff.mpr ⟨Margin.isBlank_of_step?_eq_none hs, by simp, fun _ => hsharp⟩
  rw [Cursor.stream_margin hs hs', ← List.cons_append] at hfrom
  obtain ⟨part, after, hrest, hpart, hstop⟩ := Cursor.exists_cut_after hfrom hne
  have hbefore : byteLength before = (Span.ofTokens (u :: us)).start := by
    have hoff := Position.offset_afterAll (Cursor.ofString source).pos before
    rw [← hstart] at hoff
    exact (Nat.zero_add _).symm.trans hoff.symm
  refine ⟨part, _, ⟨before, after, ?_, hbefore, ?_⟩, hstart.symm, ?_⟩
  · have hxs : x :: xs = part ++ after := hrest
    rw [List.append_assoc, ← hxs]
    exact hsource
  · rw [hstop, Position.offset_afterAll, ← hstart, byteLength_append, hbefore]
    rfl
  · rw [← hpart]
    exact Cursor.tokens_start part _

end RequestScript
