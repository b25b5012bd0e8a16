import RequestScript.Proofs.Token.ByLines

/-!
# Text without tokens

A reader passes over **trivia** one character after another (`Margin.skipAll?`), and what it reads
then is what comes after it (`Cursor.stream_skipAll?`).

Which texts are trivia is told by their lines, each on its own: a line is blank, or it is a comment
(`Margin.exists_skipAll?_eq_some_iff`). Only the first line also depends on what stands before it:
nothing but blanks after a token, and anything inside a comment (`Margin.Admits`).
-/

namespace RequestScript

/-- A line without tokens: it is blank, or it is a comment. -/
def IsTriviaLine (l : List Char) : Prop :=
  (∀ c ∈ l, isBlank c = true) ∨ isComment l = true

namespace Margin

/-- The margin after the characters `cs`, if all of them are trivia. -/
def skipAll? (m : Margin) (cs : List Char) : Option Margin :=
  cs.foldlM step? m

@[simp]
theorem skipAll?_nil (m : Margin) : m.skipAll? [] = some m := rfl

theorem skipAll?_cons {m m' : Margin} {c : Char} (h : m.step? c = some m') (cs : List Char) :
    m.skipAll? (c :: cs) = m'.skipAll? cs := by
  rw [skipAll?, List.foldlM_cons, h]
  rfl

private theorem skipAll?_cons_eq_some_iff {m n : Margin} {c : Char} {cs : List Char} :
    m.skipAll? (c :: cs) = some n ↔ ∃ m', m.step? c = some m' ∧ m'.skipAll? cs = some n := by
  rw [skipAll?, List.foldlM_cons]
  exact Option.bind_eq_some_iff

/-- The rest of a line has no tokens, given what stands before it. -/
def Admits (l : List Char) : Margin → Prop
  | .start => IsTriviaLine l
  | .comment => True
  | .body => ∀ c ∈ l, isBlank c = true

theorem admits_nil (m : Margin) : m.Admits [] := by
  cases m with
  | start => exact .inl (by simp)
  | comment => trivial
  | body => intro c hc; cases hc

/-- **The rest of a line from its front**: the first character is skipped (`step?`), and what is
left has no tokens either. -/
private theorem admits_cons_iff {m : Margin} {x : Char} {l : List Char} (hx : x ≠ '\n') :
    m.Admits (x :: l) ↔ ∃ m', m.step? x = some m' ∧ m'.Admits l := by
  cases m with
  | comment => simp [Admits, step?, hx]
  | body => cases hb : isBlank x <;> simp [Admits, step?, hx, hb]
  | start =>
    cases hb : isBlank x with
    | true => simp [Admits, IsTriviaLine, isComment, step?, hx, hb]
    | false =>
      by_cases hs : x = '#'
      · subst hs
        simp [Admits, IsTriviaLine, isComment, step?, hb]
      · simp [Admits, IsTriviaLine, isComment, step?, hx, hb, hs]

/-- **Which texts are trivia** (`skipAll?`): those whose lines have no tokens. -/
theorem exists_skipAll?_eq_some_iff {m : Margin} {cs l : List Char} {ls : List (List Char)}
    (h : lines cs = l :: ls) :
    (∃ n, m.skipAll? cs = some n) ↔ m.Admits l ∧ ∀ k ∈ ls, IsTriviaLine k := by
  induction cs generalizing m l ls with
  | nil =>
    obtain ⟨rfl, rfl⟩ : [] = l ∧ [] = ls := by simpa [lines] using h
    simp [admits_nil]
  | cons c cs ih =>
    obtain ⟨k, ks, hk⟩ := List.exists_cons_of_ne_nil (lines_ne_nil cs)
    by_cases hc : c = '\n'
    · -- the next line starts anew
      subst hc
      have hstep : m.step? '\n' = some .start := by simp [step?]
      rw [lines_lineFeed, hk] at h
      obtain ⟨rfl, rfl⟩ := List.cons.inj h
      rw [skipAll?_cons hstep, ih hk, List.forall_mem_cons]
      exact (and_iff_right (admits_nil m)).symm
    · rw [lines_cons hc hk] at h
      obtain ⟨rfl, rfl⟩ := List.cons.inj h
      simp only [skipAll?_cons_eq_some_iff, admits_cons_iff hc]
      constructor
      · rintro ⟨n, m', hstep, hskip⟩
        obtain ⟨hadmits, hrest⟩ := (ih hk).mp ⟨n, hskip⟩
        exact ⟨⟨m', hstep, hadmits⟩, hrest⟩
      · rintro ⟨⟨m', hstep, hadmits⟩, hrest⟩
        obtain ⟨n, hskip⟩ := (ih hk).mpr ⟨hadmits, hrest⟩
        exact ⟨n, m', hstep, hskip⟩

/-- The first character of trivia after a token is a blank. -/
theorem isBlank_of_skipAll?_body {n : Margin} {c : Char} {cs : List Char}
    (h : Margin.body.skipAll? (c :: cs) = some n) : isBlank c = true := by
  obtain ⟨m', hstep, -⟩ := skipAll?_cons_eq_some_iff.mp h
  by_cases hc : c = '\n'
  · exact hc ▸ isBlank_lineFeed
  · cases hb : isBlank c with
    | true => rfl
    | false => simp [step?, hc, hb] at hstep

end Margin

namespace Cursor

/-- **Trivia is passed over**, however long it is: what `skipAll?` skips has no tokens. -/
theorem stream_skipAll? {m n : Margin} {cs : List Char} (h : m.skipAll? cs = some n)
    (xs : List Char) (p : Position) :
    (⟨cs ++ xs, p, m⟩ : Cursor).stream = (⟨xs, p.afterAll cs, n⟩ : Cursor).stream := by
  induction cs generalizing m p with
  | nil =>
    obtain rfl : m = n := by simpa using h
    rfl
  | cons c cs ih =>
    obtain ⟨m', hstep, hskip⟩ := Margin.skipAll?_cons_eq_some_iff.mp h
    rw [List.cons_append, stream_trivia hstep, ih hskip, Position.afterAll_cons]

end Cursor

/-- A line that `IsTriviaLine` allows has no tokens. -/
theorem tokens_tokenize_of_isTriviaLine {x : String} (hx : '\n' ∉ x.toList)
    (hline : IsTriviaLine x.toList) : (tokenize x).tokens = [] := by
  have hlines : lines x.toList = [x.toList] := by
    have happ : lines (x.toList ++ []) = [x.toList ++ []] :=
      lines_append (fun c hc h => hx (h ▸ hc)) rfl
    rwa [List.append_nil] at happ
  obtain ⟨n, hskip⟩ := (Margin.exists_skipAll?_eq_some_iff (m := .start) hlines).mpr
    ⟨hline, by simp⟩
  have hstream := Cursor.stream_skipAll? hskip [] {}
  rw [List.append_nil, Cursor.stream_nil] at hstream
  rw [tokenize, Cursor.ofString, hstream]

end RequestScript
