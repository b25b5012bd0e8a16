import RequestScript.Proofs.Script.Likeness
import RequestScript.Proofs.Token.Layout

/-!
# Carriage returns at the ends of lines

A text can be written with a carriage return in front of every line feed (`crlf`), whether it has
carriage returns already or not. A carriage return is a blank that does not end a line, so it is
skipped wherever a line feed may follow it: after a word, on a blank line and in a comment. What is
left of it is one byte for every line feed before a place (`Position.widen`):

* **Tokens** are the same, on the same lines, moved by one byte for each line before them
  (`Cursor.toList_stream_withReturns`). No token has a line feed in it, so its end is moved as far
  as its start.
* **Offsets** of a text tell how many line feeds are before them (`lineFeedsWithin`), so tokens are
  moved by a map of offsets (`toList_tokenize_crlf`), and a parse does not see the difference
  (`parse_crlf`).
-/

namespace RequestScript

/-- The characters with a carriage return in front of every line feed. -/
def withReturns (cs : List Char) : List Char :=
  cs.flatMap fun c => if c = '\n' then ['\r', '\n'] else [c]

/-- The text with a carriage return in front of every line feed. -/
def crlf (s : String) : String :=
  String.ofList (withReturns s.toList)

example : crlf "GET u\n\r\n" = "GET u\r\n\r\r\n" := by decide

theorem withReturns_lineFeed (cs : List Char) :
    withReturns ('\n' :: cs) = '\r' :: '\n' :: withReturns cs := rfl

theorem withReturns_cons {c : Char} (hc : c ≠ '\n') (cs : List Char) :
    withReturns (c :: cs) = c :: withReturns cs := by
  rw [withReturns, List.flatMap_cons, if_neg hc]
  rfl

/-- `withReturns` puts no carriage return where there is no line feed. -/
theorem withReturns_append {w : List Char} (hw : '\n' ∉ w) (cs : List Char) :
    withReturns (w ++ cs) = w ++ withReturns cs := by
  induction w with
  | nil => rfl
  | cons c w ih =>
    rw [List.mem_cons, not_or] at hw
    rw [List.cons_append, withReturns_cons (Ne.symm hw.1), ih hw.2, List.cons_append]

/-- `withReturns` lengthens no word. -/
private theorem EndsWord.withReturns {cs : List Char} (h : EndsWord cs) :
    EndsWord (RequestScript.withReturns cs) := by
  cases cs with
  | nil => exact h
  | cons c cs =>
    by_cases hc : c = '\n'
    · subst hc
      rw [withReturns_lineFeed]
      rintro x ⟨⟩
      decide
    · rw [withReturns_cons hc]
      exact h

/-! ### Positions -/

namespace Position

/-- The position with one more byte for every line before it. -/
def widen (p : Position) : Position where
  offset := p.offset + p.line
  line := p.line

/-- A carriage return and a line feed take one byte more than a line feed, as `widen` counts. -/
private theorem widen_after_lineFeed (p : Position) :
    (p.widen.after '\r').after '\n' = (p.after '\n').widen := by
  have hsizes : '\r'.utf8Size = 1 ∧ '\n'.utf8Size = 1 := by decide
  have hne : '\r' ≠ '\n' := by decide
  simp only [after, widen, hsizes, hne, if_true, if_false, mk.injEq, and_true]
  omega

private theorem widen_after {c : Char} (hc : c ≠ '\n') (p : Position) :
    p.widen.after c = (p.after c).widen := by
  simp only [after, widen, hc, if_false, mk.injEq, and_true]
  omega

private theorem widen_afterAll {cs : List Char} (hcs : '\n' ∉ cs) (p : Position) :
    p.widen.afterAll cs = (p.afterAll cs).widen := by
  induction cs generalizing p with
  | nil => rfl
  | cons c cs ih =>
    rw [List.mem_cons, not_or] at hcs
    rw [afterAll_cons, afterAll_cons, widen_after (Ne.symm hcs.1), ih hcs.2]

end Position

/-! ### Tokens -/

/-- A carriage return is skipped, and `step?` leaves the margin as it is. -/
private theorem Margin.step?_return (m : Margin) : m.step? '\r' = some m := by
  cases m <;> decide

/-- The token moved by one byte for every line before it. -/
def Token.widen (t : Token) : Token :=
  t.relocate (· + t.line) id

private theorem Token.widen_ofIllegal (p : Position) (c : Char) :
    (ofIllegal p c).widen = ofIllegal p.widen c := by
  simp [widen, relocate, ofIllegal, Position.widen, Span.map, Nat.add_right_comm]

private theorem Token.widen_ofWord (p : Position) (w : List Char) :
    (ofWord p w).widen = ofWord p.widen w := by
  simp [widen, relocate, ofWord, Position.widen, Span.map, Nat.add_right_comm]

/-- **The tokens of a text with carriage returns** are those of the text, moved by one byte for
every line before them (`Token.widen`). -/
theorem Cursor.toList_stream_withReturns (c : Cursor) :
    (⟨withReturns c.rest, c.pos.widen, c.margin⟩ : Cursor).stream.toList =
      c.stream.toList.map Token.widen := by
  induction c using reading_induction with
  | atEnd p m =>
    change (⟨[], p.widen, m⟩ : Cursor).stream.toList = _
    rw [stream_nil, stream_nil]
    rfl
  | trivia x xs p m m' hs ih =>
    rw [stream_trivia hs, ← ih]
    by_cases hx : x = '\n'
    · subst hx
      rw [withReturns_lineFeed, stream_trivia (Margin.step?_return m), stream_trivia hs,
        Position.widen_after_lineFeed]
    · rw [withReturns_cons hx, stream_trivia hs, Position.widen_after hx]
  | illegal x xs p m hs hx ih =>
    have hn : x ≠ '\n' := ne_lineFeed_of_isIllegal hx
    rw [withReturns_cons hn, stream_illegal hs hx, stream_illegal hs hx, Position.widen_after hn,
      TokenStream.toList_cons, TokenStream.toList_cons, List.map_cons, Token.widen_ofIllegal]
    exact congrArg (_ :: ·) ih
  | word x w xs p m hs hw hx ih =>
    have hn : '\n' ∉ x :: w := fun h => absurd (hw _ h) (by decide)
    rw [withReturns_append hn, stream_word hs hw hx, stream_word hs hw hx.withReturns,
      Position.widen_afterAll hn, TokenStream.toList_cons, TokenStream.toList_cons, List.map_cons,
      Token.widen_ofWord]
    exact congrArg (_ :: ·) ih

/-! ### Offsets -/

/-- The number of line feeds within the first `n` bytes of the characters. -/
def lineFeedsWithin (n : Nat) : List Char → Nat
  | [] => 0
  | c :: cs =>
    if c.utf8Size ≤ n then (if c = '\n' then 1 else 0) + lineFeedsWithin (n - c.utf8Size) cs else 0

/-- **Line feeds before a place**: where some characters `as` end, all their line feeds are
counted, and no others. -/
private theorem lineFeedsWithin_byteLength (as bs : List Char) :
    lineFeedsWithin (byteLength as) (as ++ bs) = as.count '\n' := by
  induction as with
  | nil =>
    cases bs with
    | nil => rfl
    | cons b bs => exact if_neg (Nat.not_le.mpr b.utf8Size_pos)
  | cons a as ih =>
    rw [List.cons_append, lineFeedsWithin, byteLength_cons, if_pos (Nat.le_add_right _ _),
      Nat.add_sub_cancel_left, ih, List.count_cons, Nat.add_comm]
    simp

/-- A token of a text is moved by the line feeds before its start, and before its end
(`lineFeedsWithin`). -/
private theorem Token.widen_eq_relocate {source : String} {t : Token}
    (ht : t ∈ (tokenize source).toList) :
    t.widen = t.relocate (fun o => o + lineFeedsWithin o source.toList) id := by
  obtain ⟨before, after, hsource, hline, hspan⟩ := exists_place_of_mem_tokenize ht
  have hstart : lineFeedsWithin (byteLength before) source.toList = t.line := by
    rw [hline, hsource, List.append_assoc, lineFeedsWithin_byteLength]
  have hliteral : t.literal.toList.count '\n' = 0 :=
    List.count_eq_zero.mpr (Cursor.not_mem_of_isBlank ht isBlank_lineFeed)
  have hstop :
      lineFeedsWithin (byteLength (before ++ t.literal.toList)) source.toList = t.line := by
    rw [hline, hsource, lineFeedsWithin_byteLength, List.count_append, hliteral, Nat.add_zero]
  rw [widen, relocate, relocate, hspan, Span.map, Span.map, hstart, hstop]

/-- **The tokens of a text with carriage returns** are those of the text, moved by a map of
offsets. -/
theorem toList_tokenize_crlf (source : String) :
    (tokenize (crlf source)).toList = (tokenize source).toList.map
      (Token.relocate (fun o => o + lineFeedsWithin o source.toList) id) := by
  have hreturns := (Cursor.ofString source).toList_stream_withReturns
  have hcrlf : Cursor.ofString (crlf source) = ⟨withReturns source.toList, {}, .start⟩ := by
    rw [Cursor.ofString, crlf, String.toList_ofList]
  rw [tokenize, hcrlf]
  exact hreturns.trans (List.map_congr_left fun t ht => Token.widen_eq_relocate ht)

/-! ### Parsing -/

/-- **Carriage returns at the ends of lines are harmless.** With a carriage return in front of
every line feed (`crlf`), a text is the same script at offsets that are moved by the line feeds
before them (`lineFeedsWithin`); or it is rejected with the same diagnostics. -/
theorem parse_crlf (source : String) (file : Option String) :
    (∃ p, parse source file = .ok p ∧ parse (crlf source) file =
      .ok (p.relocate fun o => o + lineFeedsWithin o source.toList)) ∨
    ∃ r, parse source file = .error r ∧ parse (crlf source) file = .error r := by
  obtain hok | ⟨r, hr, hmoved⟩ :=
    parse_of_toList_eq_map (k := id) (fun _ => rfl) (toList_tokenize_crlf source) file
  · exact .inl hok
  · have hsame : r.diagnostics.map (Diagnostic.relocate id) = r.diagnostics := List.map_id _
    rw [hsame] at hmoved
    exact .inr ⟨r, hr, hmoved⟩

end RequestScript
