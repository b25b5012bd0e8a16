import RequestScript.Proofs.Text.Covering
import RequestScript.Proofs.Token.Reading

/-!
# Where the tokens of a text stand

* Every token, the end of the text too, stands at the position of what is before it, and its text
  is what comes next (`Cursor.exists_place_of_mem`). So it covers its own text
  (`Cursor.covers_of_mem_stream`), and the lines of the tokens never go back
  (`Cursor.pairwise_line_le`).
* The tokens of a text do not overlap, they stand in the order of the text, and between two words
  there is at least one byte (`Cursor.pairwise_apart`): a word goes on as far as it can, so the
  character after it is a blank or illegal.

A list of spans with these properties is **ordered** (`Span.Ordered`): no span is empty, and each
ends before the next begins.
-/

namespace RequestScript

/-! ### Tokens cover their texts -/

/-- A genuine token takes at least one byte. -/
theorem Token.Genuine.start_lt_stop {t : Token} (h : t.Genuine) : t.span.start < t.span.stop := by
  cases h with
  | @word p w hne =>
    obtain ⟨c, w, rfl⟩ := List.exists_cons_of_ne_nil hne
    have := c.utf8Size_pos
    simp only [ofWord, byteLength_cons]
    omega
  | @illegal p c =>
    have := c.utf8Size_pos
    simp only [ofIllegal]
    omega

namespace Cursor

/-- **A token stands at a position of its text**: `line` and `span.start` are those of what was
read before it, and `literal` is what comes next. -/
theorem exists_place_of_mem {c : Cursor} {t : Token} (ht : t ∈ c.stream.toList) :
    ∃ before after, c.rest = before ++ t.literal.toList ++ after ∧
      t.line = (c.pos.afterAll before).line ∧ t.span.start = (c.pos.afterAll before).offset ∧
      t.span.stop = t.span.start + byteLength t.literal.toList := by
  induction c using reading_induction with
  | atEnd p m =>
    rw [stream_nil] at ht
    obtain rfl := List.mem_singleton.mp ht
    exact ⟨[], [], rfl, rfl, rfl, rfl⟩
  | trivia x xs p m m' hs ih =>
    rw [stream_trivia hs] at ht
    obtain ⟨before, after, hrest, hplace⟩ := ih ht
    exact ⟨x :: before, after, congrArg (x :: ·) hrest, hplace⟩
  | illegal x xs p m hs hx ih =>
    rw [stream_illegal hs hx, TokenStream.toList_cons] at ht
    rcases List.mem_cons.mp ht with rfl | ht
    · exact ⟨[], xs, by simp [Token.ofIllegal], rfl, rfl, by simp [Token.ofIllegal]⟩
    · obtain ⟨before, after, hrest, hplace⟩ := ih ht
      exact ⟨x :: before, after, congrArg (x :: ·) hrest, hplace⟩
  | word x w xs p m hs hw hx ih =>
    rw [stream_word hs hw hx, TokenStream.toList_cons] at ht
    rcases List.mem_cons.mp ht with rfl | ht
    · exact ⟨[], xs, by simp [Token.ofWord], rfl, rfl, by simp [Token.ofWord]⟩
    · obtain ⟨before, after, hrest, hplace⟩ := ih ht
      obtain rfl : xs = before ++ t.literal.toList ++ after := hrest
      refine ⟨x :: w ++ before, after, by simp, ?_⟩
      rw [Position.afterAll_append]
      exact hplace

/-- **Every token covers its text** (`Span.Covers`): what was read `before` the cursor, and what
follows it, make up the whole text. -/
theorem covers_of_mem_stream {c : Cursor} {before : List Char} {t : Token}
    (hc : c.pos.offset = byteLength before) (ht : t ∈ c.stream.tokens) :
    t.span.Covers (before ++ c.rest) t.literal.toList := by
  obtain ⟨as, bs, hrest, -, hstart, hstop⟩ :=
    exists_place_of_mem (List.mem_append_left [c.stream.last] ht)
  rw [Position.offset_afterAll, hc] at hstart
  exact ⟨before ++ as, bs, by rw [hrest]; simp, by simp [hstart],
    by simp [hstart, hstop, Nat.add_assoc]⟩

/-! ### Tokens stand one after another -/

/-- No token has its `start` before its cursor. -/
theorem offset_le_start {c : Cursor} {t : Token} (ht : t ∈ c.stream.tokens) :
    c.pos.offset ≤ t.span.start := by
  induction c using reading_induction with
  | atEnd => simp at ht
  | trivia x xs p m m' hs ih =>
    rw [stream_trivia hs] at ht
    have := ih ht
    simp only [Position.after] at this ⊢
    omega
  | illegal x xs p m hs hx ih =>
    rw [stream_illegal hs hx] at ht
    rcases List.mem_cons.mp ht with rfl | ht
    · exact Nat.le_refl _
    · have := ih ht
      simp only [Position.after] at this ⊢
      omega
  | word x w xs p m hs hw hx ih =>
    rw [stream_word hs hw hx] at ht
    rcases List.mem_cons.mp ht with rfl | ht
    · exact Nat.le_refl _
    · have := ih ht
      simp only [Position.offset_afterAll] at this ⊢
      omega

/-- Where a word has ended, no other word begins at once. -/
private theorem offset_lt_start {c : Cursor} {t : Token} (hc : EndsWord c.rest)
    (ht : t ∈ c.stream.tokens) (hk : t.kind ≠ .illegal) : c.pos.offset < t.span.start := by
  obtain ⟨rest, p, m⟩ := c
  cases rest with
  | nil => simp at ht
  | cons x xs =>
    have hpos := x.utf8Size_pos
    have hx : isWordChar x = false := hc x rfl
    -- the first character is trivia or illegal, and the token comes after it
    obtain ⟨m', hafter⟩ : ∃ m', t ∈ (⟨xs, p.after x, m'⟩ : Cursor).stream.tokens := by
      cases hs : m.step? x with
      | some m' => exact ⟨m', stream_trivia hs ▸ ht⟩
      | none =>
        cases hi : isIllegal x with
        | false =>
          have := isWordChar_of_not (Margin.isBlank_of_step?_eq_none hs) hi
          simp [hx] at this
        | true =>
          rw [stream_illegal hs hi] at ht
          rcases List.mem_cons.mp ht with rfl | ht
          · exact absurd rfl hk
          · exact ⟨.body, ht⟩
    have := offset_le_start hafter
    simp only [Position.after] at this ⊢
    omega

/-- **Tokens do not overlap**, and two of them that are not `illegal` have something between
them. -/
theorem pairwise_apart (c : Cursor) : c.stream.tokens.Pairwise fun t u =>
    t.span.stop ≤ u.span.start ∧
      (t.kind ≠ .illegal → u.kind ≠ .illegal → t.span.stop < u.span.start) := by
  induction c using reading_induction with
  | atEnd => simp
  | trivia x xs p m m' hs ih =>
    rw [stream_trivia hs]
    exact ih
  | illegal x xs p m hs hx ih =>
    rw [stream_illegal hs hx]
    refine List.pairwise_cons.mpr ⟨fun u hu => ⟨offset_le_start hu, fun hk => absurd rfl hk⟩, ih⟩
  | word x w xs p m hs hw hx ih =>
    rw [stream_word hs hw hx]
    have hstop : (Token.ofWord p (x :: w)).span.stop = (p.afterAll (x :: w)).offset :=
      (Position.offset_afterAll p (x :: w)).symm
    refine List.pairwise_cons.mpr ⟨fun u hu => ?_, ih⟩
    rw [hstop]
    exact ⟨offset_le_start hu, fun _ hk => offset_lt_start hx hu hk⟩

/-! ### The lines of tokens -/

/-- No token stands on a line before that of its cursor. -/
theorem line_le {c : Cursor} {t : Token} (ht : t ∈ c.stream.toList) : c.pos.line ≤ t.line := by
  obtain ⟨before, -, -, hline, -⟩ := exists_place_of_mem ht
  rw [hline]
  exact c.pos.line_le_afterAll before

/-- Without a line feed, all tokens have the `line` of their cursor. -/
theorem line_eq_of_not_mem {c : Cursor} {t : Token} (hc : '\n' ∉ c.rest)
    (ht : t ∈ c.stream.toList) : t.line = c.pos.line := by
  obtain ⟨before, after, hrest, hline, -⟩ := exists_place_of_mem ht
  rw [List.append_assoc] at hrest
  have hbefore : '\n' ∉ before := fun h => hc (hrest ▸ List.mem_append_left _ h)
  rw [hline, Position.line_afterAll, List.count_eq_zero.mpr hbefore, Nat.add_zero]

/-- **The lines of tokens never go back.** -/
theorem pairwise_line_le (c : Cursor) : c.stream.toList.Pairwise (·.line ≤ ·.line) := by
  induction c using reading_induction with
  | atEnd p m =>
    rw [stream_nil]
    exact List.pairwise_singleton _ _
  | trivia x xs p m m' hs ih =>
    rw [stream_trivia hs]
    exact ih
  | illegal x xs p m hs hx ih =>
    rw [stream_illegal hs hx, TokenStream.toList_cons]
    exact List.pairwise_cons.mpr
      ⟨fun u hu => Nat.le_trans (p.line_le_afterAll [x]) (line_le hu), ih⟩
  | word x w xs p m hs hw hx ih =>
    rw [stream_word hs hw hx, TokenStream.toList_cons]
    exact List.pairwise_cons.mpr
      ⟨fun u hu => Nat.le_trans (p.line_le_afterAll (x :: w)) (line_le hu), ih⟩

end Cursor

/-- **Where the tokens of a text stand**: between what is `before` and what is `after`, on the line
that is told by the line feeds before. -/
theorem exists_place_of_mem_tokenize {source : String} {t : Token}
    (ht : t ∈ (tokenize source).toList) :
    ∃ before after, source.toList = before ++ t.literal.toList ++ after ∧
      t.line = before.count '\n' ∧
      t.span = ⟨byteLength before, byteLength (before ++ t.literal.toList)⟩ := by
  obtain ⟨before, after, hrest, hline, hstart, hstop⟩ := Cursor.exists_place_of_mem ht
  have hoffset : (Position.afterAll {} before).offset = byteLength before :=
    (Position.offset_afterAll {} before).trans (Nat.zero_add _)
  have hcount : (Position.afterAll {} before).line = before.count '\n' :=
    (Position.line_afterAll {} before).trans (Nat.zero_add _)
  have hspan : t.span = ⟨t.span.start, t.span.stop⟩ := rfl
  refine ⟨before, after, hrest, hline.trans hcount, ?_⟩
  rw [hspan, hstop, hstart.trans hoffset, byteLength_append]

/-- **What a token spans is its text**: slicing by its `span` gives its `literal`. -/
theorem slice?_eq_of_mem_tokenize {source : String} {t : Token}
    (ht : t ∈ (tokenize source).toList) : t.span.slice? source.toList = some t.literal.toList := by
  obtain ⟨before, after, hsource, -, hspan⟩ := exists_place_of_mem_tokenize ht
  rw [hspan]
  exact Span.slice?_eq_some_iff.mpr ⟨before, after, hsource, rfl, rfl⟩

/-- The line of a token is told by the part of the text before its start. -/
theorem exists_slice?_before_of_mem_tokenize {source : String} {t : Token}
    (ht : t ∈ (tokenize source).toList) :
    ∃ before, (⟨0, t.span.start⟩ : Span).slice? source.toList = some before ∧
      t.line = before.count '\n' := by
  obtain ⟨before, after, hsource, hline, hspan⟩ := exists_place_of_mem_tokenize ht
  refine ⟨before, ?_, hline⟩
  rw [hspan]
  exact Span.slice?_eq_some_iff.mpr ⟨[], t.literal.toList ++ after, by simp [hsource], rfl, rfl⟩

/-! ### Ordered spans -/

/-- **Ordered spans**: none is empty, and each ends before the next begins. -/
def Span.Ordered (spans : List Span) : Prop :=
  (∀ s ∈ spans, s.start < s.stop) ∧ spans.Pairwise fun s t => s.stop < t.start

/-- **The words of a text are ordered** (`Span.Ordered`). -/
theorem Cursor.ordered_stream {c : Cursor} (h : ∀ t ∈ c.stream.tokens, t.kind ≠ .illegal) :
    Span.Ordered (c.stream.tokens.map (·.span)) := by
  constructor
  · intro s hs
    obtain ⟨t, ht, rfl⟩ := List.mem_map.mp hs
    exact (genuine_of_mem_stream ht).start_lt_stop
  · rw [List.pairwise_map]
    exact c.pairwise_apart.imp_of_mem fun ht hu hap => hap.2 (h _ ht) (h _ hu)

end RequestScript
