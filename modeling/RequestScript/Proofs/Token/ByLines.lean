import Mathlib.Data.List.SplitBy
import RequestScript.Proofs.Token.Reading
import RequestScript.Token.Lines

/-!
# Reading on is reading line by line

A reader carries its position and its margin from one token to the next, over the ends of lines.
`tokenizeByLines` carries nothing: each line of a text is cut into pieces on its own, and where it
begins is computed from the lines before. The two give the same tokens
(`Reader.collect_ofString_eq`).

The proof relates a cursor anywhere in a text to the rest of its line and the lines after it
(`Cursor.stream_tokens_eq`). What the rest of a line has in store depends on the margin alone:
before the first token it may still be a comment, inside a comment it has no tokens, and after a
token it is only cut into pieces (`Margin.tokens`).
-/

namespace RequestScript

/-! ### Lines and pieces of a text from its front -/

theorem lines_lineFeed (cs : List Char) : lines ('\n' :: cs) = [] :: lines cs := by
  simp [lines]

theorem lines_cons {c : Char} {cs l : List Char} {ls : List (List Char)} (hc : c ≠ '\n')
    (h : lines cs = l :: ls) : lines (c :: cs) = (c :: l) :: ls := by
  simp [lines, hc, h]

/-- Characters other than line feeds lengthen the first of the `lines`. -/
theorem lines_append {w cs l : List Char} {ls : List (List Char)} (hw : ∀ c ∈ w, c ≠ '\n')
    (h : lines cs = l :: ls) : lines (w ++ cs) = (w ++ l) :: ls := by
  induction w with
  | nil => exact h
  | cons c w ih =>
    exact lines_cons (hw c (by simp)) (ih fun d hd => hw d (List.mem_cons_of_mem c hd))

/-- A word that ends at `xs` ends so on its line. -/
private theorem EndsWord.of_lines {xs l : List Char} {ls : List (List Char)} (hx : EndsWord xs)
    (h : lines xs = l :: ls) : EndsWord l := by
  intro y hy
  cases xs with
  | nil =>
    obtain ⟨rfl, -⟩ : [] = l ∧ [] = ls := by simpa [lines] using h
    simp at hy
  | cons x xs =>
    obtain ⟨k, ks, hk⟩ := List.exists_cons_of_ne_nil (lines_ne_nil xs)
    by_cases hc : x = '\n'
    · rw [hc, lines_lineFeed] at h
      obtain ⟨rfl, -⟩ := List.cons.inj h
      simp at hy
    · rw [lines_cons hc hk] at h
      obtain ⟨rfl, -⟩ := List.cons.inj h
      exact hx y hy

/-- No line has a line feed. -/
private theorem ne_lineFeed_of_mem_lines {cs l : List Char} (hl : l ∈ lines cs) :
    ∀ c ∈ l, c ≠ '\n' := by
  induction cs generalizing l with
  | nil => simp_all [lines]
  | cons c cs ih =>
    obtain ⟨k, ks, hk⟩ := List.exists_cons_of_ne_nil (lines_ne_nil cs)
    by_cases hc : c = '\n'
    · rw [hc, lines_lineFeed] at hl
      rcases List.mem_cons.mp hl with rfl | hl
      · simp
      · exact ih hl
    · rw [lines_cons hc hk] at hl
      rw [hk] at ih
      rcases List.mem_cons.mp hl with rfl | hl
      · rintro d (_ | ⟨_, hd⟩)
        · exact hc
        · exact ih (by simp) d hd
      · exact ih (List.mem_cons_of_mem k hl)

/-- **A word is one of the `pieces`** where it is not followed by a word character. -/
private theorem pieces_word {w l : List Char} (hne : w ≠ []) (hw : ∀ c ∈ w, isWordChar c = true)
    (hl : EndsWord l) : pieces (w ++ l) = w :: pieces l := by
  have hchain : w.IsChain fun a b => (isWordChar a && isWordChar b) = true := by
    refine (List.pairwise_of_forall_mem_list ?_).isChain
    intro a ha b hb
    simp [hw a ha, hw b hb]
  have hcut : ∀ a ∈ w.getLast?, ∀ b ∈ l.head?, (isWordChar a && isWordChar b) = false := by
    intro a _ b hb
    simp [hl b hb]
  rw [pieces, List.splitBy_append hcut, List.splitBy_of_isChain hne hchain]
  rfl

/-- **Any other character is one of the `pieces`** of its own. -/
private theorem pieces_cons {x : Char} {l : List Char} (hx : isWordChar x = false) :
    pieces (x :: l) = [x] :: pieces l := by
  have hcut : ∀ a ∈ [x].getLast?, ∀ b ∈ l.head?, (isWordChar a && isWordChar b) = false := by
    intro a ha b _
    obtain rfl : x = a := by simpa using ha
    simp [hx]
  rw [← List.singleton_append, pieces, List.splitBy_append hcut]
  rfl

/-! ### The rest of a line -/

/-- The tokens of the rest of a line, by what stands before it on the line. -/
def Margin.tokens (p : Position) (l : List Char) : Margin → List Token
  | .start => lineTokens p l
  | .comment => []
  | .body => pieceTokens p (pieces l)

/-- The end of a line has no tokens. -/
@[simp]
theorem Margin.tokens_nil (p : Position) (m : Margin) : m.tokens p [] = [] := by
  have hp : pieceTokens p (pieces []) = [] := rfl
  cases m <;> simp [tokens, lineTokens, hp]

/-- A blank has no token. -/
private theorem pieceTokens_blank {x : Char} {l : List Char} (p : Position)
    (hx : isBlank x = true) :
    pieceTokens p (pieces (x :: l)) = pieceTokens (p.after x) (pieces l) := by
  rw [pieces_cons (by simp [isWordChar, hx]), pieceTokens]
  simp [pieceToken?, hx]

/-- A blank before a line does not make it a comment: `lineTokens` passes over it. -/
private theorem lineTokens_blank {x : Char} {l : List Char} (p : Position)
    (hx : isBlank x = true) : lineTokens p (x :: l) = lineTokens (p.after x) l := by
  simp [lineTokens, isComment, hx, pieceTokens_blank]

/-- **Trivia on a line** (`Margin.step?`) leaves the tokens of its rest as they are. -/
private theorem Margin.tokens_trivia {m m' : Margin} {x : Char} (p : Position) (l : List Char)
    (hx : x ≠ '\n') (h : m.step? x = some m') :
    m.tokens p (x :: l) = m'.tokens (p.after x) l := by
  cases m with
  | comment =>
    obtain rfl : Margin.comment = m' := by simpa [step?, hx] using h
    rfl
  | start =>
    by_cases hb : isBlank x = true
    · obtain rfl : Margin.start = m' := by simpa [step?, hx, hb] using h
      exact lineTokens_blank p hb
    · by_cases hc : x = '#'
      · subst hc
        obtain rfl : Margin.comment = m' := by simpa [step?, hx, hb] using h
        simp [tokens, lineTokens, isComment, hb]
      · simp [step?, hx, hb, hc] at h
  | body =>
    by_cases hb : isBlank x = true
    · obtain rfl : Margin.body = m' := by simpa [step?, hx, hb] using h
      exact pieceTokens_blank p hb
    · simp [step?, hx, hb] at h

/-- **Where a token starts**, the rest of the line is cut into `pieces`. -/
theorem Margin.tokens_eq_pieceTokens {m : Margin} {x : Char} (p : Position) (l : List Char)
    (h : m.step? x = none) : m.tokens p (x :: l) = pieceTokens p (pieces (x :: l)) := by
  obtain ⟨hb, hm, hs⟩ := step?_eq_none_iff.mp h
  cases m with
  | comment => exact absurd rfl hm
  | start => simp [tokens, lineTokens, isComment, hb, hs rfl]
  | body => rfl

private theorem pieceTokens_illegal {x : Char} (p : Position) (l : List Char)
    (hx : isIllegal x = true) :
    pieceTokens p (pieces (x :: l)) = .ofIllegal p x :: pieceTokens (p.after x) (pieces l) := by
  have hb := isBlank_of_isIllegal hx
  rw [pieces_cons (by simp [isWordChar, hx]), pieceTokens]
  simp [pieceToken?, hb, hx]

private theorem pieceTokens_word {x : Char} {w l : List Char} (p : Position)
    (hw : ∀ c ∈ x :: w, isWordChar c = true) (hl : EndsWord l) :
    pieceTokens p (pieces (x :: w ++ l)) =
      .ofWord p (x :: w) :: pieceTokens (p.afterAll (x :: w)) (pieces l) := by
  have hb := isBlank_of_isWordChar (hw x (by simp))
  have hi := isIllegal_of_isWordChar (hw x (by simp))
  rw [pieces_word (by simp) hw hl, pieceTokens]
  simp [pieceToken?, hb, hi]

/-! ### Line after line -/

/-- The tokens of lines that stand one after another from the position `p` on. -/
def linesTokens (p : Position) : List (List Char) → List Token
  | [] => []
  | l :: ls => lineTokens p l ++ linesTokens ((p.afterAll l).after '\n') ls

/-- **The tokens that follow a cursor** are those of the rest of its line `l`, and those of the
lines `ls` after it. -/
theorem Cursor.stream_tokens_eq (c : Cursor) {l : List Char} {ls : List (List Char)}
    (h : lines c.rest = l :: ls) :
    c.stream.tokens =
      c.margin.tokens c.pos l ++ linesTokens ((c.pos.afterAll l).after '\n') ls := by
  induction c using reading_induction generalizing l ls with
  | atEnd p m =>
    obtain ⟨rfl, rfl⟩ : [] = l ∧ [] = ls := by simpa [lines] using h
    simp [linesTokens]
  | trivia x xs p m m' hs ih =>
    obtain ⟨k, ks, hk⟩ := List.exists_cons_of_ne_nil (lines_ne_nil xs)
    rw [stream_trivia hs, ih hk]
    by_cases hx : x = '\n'
    · -- whatever the margin was, the next line starts anew
      subst hx
      obtain rfl : Margin.start = m' := by simpa [Margin.step?] using hs
      rw [lines_lineFeed, hk] at h
      obtain ⟨rfl, rfl⟩ := List.cons.inj h
      rw [Margin.tokens_nil, linesTokens]
      rfl
    · rw [lines_cons hx hk] at h
      obtain ⟨rfl, rfl⟩ := List.cons.inj h
      rw [Margin.tokens_trivia p k hx hs, Position.afterAll_cons]
  | illegal x xs p m hs hx ih =>
    obtain ⟨k, ks, hk⟩ := List.exists_cons_of_ne_nil (lines_ne_nil xs)
    rw [lines_cons (ne_lineFeed_of_isIllegal hx) hk] at h
    obtain ⟨rfl, rfl⟩ := List.cons.inj h
    rw [stream_illegal hs hx, Margin.tokens_eq_pieceTokens p k hs, pieceTokens_illegal p k hx,
      Position.afterAll_cons]
    exact congrArg (Token.ofIllegal p x :: ·) (ih hk)
  | word x w xs p m hs hw hx ih =>
    obtain ⟨k, ks, hk⟩ := List.exists_cons_of_ne_nil (lines_ne_nil xs)
    rw [lines_append (fun c hc => ne_lineFeed_of_isWordChar (hw c hc)) hk] at h
    obtain ⟨rfl, rfl⟩ := List.cons.inj h
    have htokens : m.tokens p (x :: w ++ k) =
        .ofWord p (x :: w) :: pieceTokens (p.afterAll (x :: w)) (pieces k) :=
      (Margin.tokens_eq_pieceTokens p (w ++ k) hs).trans (pieceTokens_word p hw (hx.of_lines hk))
    rw [stream_word hs hw hx, htokens, Position.afterAll_append]
    exact congrArg (Token.ofWord p (x :: w) :: ·) (ih hk)

/-- A line begins (`lineStart`) after the line before it and its line feed. -/
private theorem lineStart_succ {ks ls : List (List Char)} {l : List Char}
    (hl : ∀ c ∈ l, c ≠ '\n') :
    lineStart (ks ++ l :: ls) (ks.length + 1) =
      ((lineStart (ks ++ l :: ls) ks.length).afterAll l).after '\n' := by
  have htake : (ks ++ l :: ls).take (ks.length + 1) = ks ++ [l] := by
    rw [List.take_length_add_append]
    rfl
  have hcount : l.count '\n' = 0 := List.count_eq_zero.mpr fun h => hl _ h rfl
  have hsize : '\n'.utf8Size = 1 := by decide
  simp only [lineStart, htake, Position.after, Position.offset_afterAll, Position.line_afterAll,
    hcount, hsize, List.take_left, List.flatten_append, List.flatten_singleton,
    byteLength_append]
  simp
  omega

/-- The lines of a text stand one after another. -/
private theorem flatMap_lineTokens_eq (ks : List (List Char)) {ls : List (List Char)}
    (hls : ∀ l ∈ ls, ∀ c ∈ l, c ≠ '\n') :
    (ls.zipIdx ks.length).flatMap (fun (l, i) => lineTokens (lineStart (ks ++ ls) i) l) =
      linesTokens (lineStart (ks ++ ls) ks.length) ls := by
  induction ls generalizing ks with
  | nil => rfl
  | cons l ls ih =>
    have hnext := ih (ks ++ [l]) fun k hk => hls k (List.mem_cons_of_mem l hk)
    rw [List.length_append, List.append_assoc, List.singleton_append] at hnext
    rw [linesTokens, ← lineStart_succ (hls l (by simp)), List.zipIdx_cons, List.flatMap_cons]
    exact congrArg (lineTokens _ l ++ ·) hnext

/-- **A text has the tokens of its lines**: `tokenize` and `tokenizeByLines` agree. -/
theorem tokenize_eq_tokenizeByLines (s : String) : tokenize s = tokenizeByLines s := by
  obtain ⟨l, ls, hl⟩ := List.exists_cons_of_ne_nil (lines_ne_nil s.toList)
  have htokens : (tokenize s).tokens = (tokenizeByLines s).tokens := by
    have hlines := flatMap_lineTokens_eq [] fun k (hk : k ∈ lines s.toList) =>
      ne_lineFeed_of_mem_lines hk
    rw [tokenizeByLines]
    refine Eq.trans ?_ hlines.symm
    rw [hl, linesTokens]
    exact (Cursor.ofString s).stream_tokens_eq hl
  have hstop : (tokenize s).stop = (tokenizeByLines s).stop := by
    have hcount := length_lines s.toList
    rw [tokenize, Cursor.stream_stop, Cursor.ofString, tokenizeByLines, hcount, Position.mk.injEq,
      Position.offset_afterAll, Position.line_afterAll]
    simp
  cases h : tokenize s
  cases h' : tokenizeByLines s
  simp_all

/-- **Reading on is reading line by line.** A pass over a text hands out the tokens of its lines
(`tokenizeByLines`), each line cut on its own, and at last the token of the end. -/
theorem Reader.collect_ofString_eq (s : String) :
    (Reader.ofString s).collect.1 = (tokenizeByLines s).toList := by
  rw [collect_fst rfl, ← tokenize_eq_tokenizeByLines]
  rfl

end RequestScript
