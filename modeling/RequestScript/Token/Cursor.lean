import RequestScript.Token.Basic

/-!
# Cursors: reading the next token of a text

A **cursor** is a place in a text together with the characters that follow. To know whether a
`#` opens a comment, it also remembers its **margin**: whether only blanks stand before it on
its line, or a comment has begun there, or a token stands before it.

* `Cursor.skip?` passes one character of trivia (a blank, or a character of a comment), and
  `Cursor.skipTrivia` all of them.
* `Cursor.read?` reads the token that follows; there is none at the end of the text.
* `Cursor.next` reads on: at the end it gives the token of the end again and again.

Reading a token shortens what follows (`length_rest_lt_of_read?`), so reading comes to an end.
-/

namespace RequestScript

/-- What a cursor has seen on its line. -/
inductive Margin where
  /-- Nothing but blanks. -/
  | start
  /-- A comment, which takes the rest of the line. -/
  | comment
  /-- A token. -/
  | body
deriving DecidableEq, Repr, Inhabited

/-- The margin after a character that is skipped; none for the first character of a token. A
line feed starts a line anew, and a `#` opens a comment where only blanks stand before it. -/
def Margin.step? (m : Margin) (c : Char) : Option Margin :=
  if c = '\n' then some .start
  else
    match m with
    | .comment => some .comment
    | .start => if isBlank c then some .start else if c = '#' then some .comment else none
    | .body => if isBlank c then some .body else none

/-- A place in a text, and what follows it. -/
structure Cursor where
  /-- The characters that follow. -/
  rest : List Char
  /-- The position of the cursor. -/
  pos : Position := {}
  /-- What stands before the cursor on its line. -/
  margin : Margin := .start
deriving DecidableEq, Repr, Inhabited

namespace Cursor

/-- The cursor at the start of a text. -/
def ofString (s : String) : Cursor where
  rest := s.toList

/-! ### Trivia -/

/-- The cursor after one character of trivia, if one follows. -/
def skip? (c : Cursor) : Option Cursor :=
  match c.rest with
  | [] => none
  | x :: xs => (c.margin.step? x).map fun m => ⟨xs, c.pos.after x, m⟩

/-- The cursor after the trivia at the front of `xs`. -/
def afterTrivia (p : Position) (m : Margin) : List Char → Cursor
  | [] => ⟨[], p, m⟩
  | x :: xs =>
    match m.step? x with
    | some m' => afterTrivia (p.after x) m' xs
    | none => ⟨x :: xs, p, m⟩

/-- The cursor after all trivia that follows. -/
def skipTrivia (c : Cursor) : Cursor :=
  afterTrivia c.pos c.margin c.rest

/-- Skipping all trivia (`skipTrivia`) is skipping one character after another (`skip?`). -/
theorem skipTrivia_eq (c : Cursor) :
    c.skipTrivia = match c.skip? with
      | some c' => c'.skipTrivia
      | none => c := by
  obtain ⟨rest, p, m⟩ := c
  cases rest with
  | nil => rfl
  | cons x xs =>
    simp only [skipTrivia, afterTrivia, skip?]
    cases m.step? x <;> rfl

private theorem length_rest_afterTrivia_le (p : Position) (m : Margin) (xs : List Char) :
    (afterTrivia p m xs).rest.length ≤ xs.length := by
  induction xs generalizing p m with
  | nil => exact Nat.le_refl _
  | cons x xs ih =>
    simp only [afterTrivia]
    split
    · exact Nat.le_succ_of_le (ih _ _)
    · exact Nat.le_refl _

/-- `skipTrivia` does not lengthen what follows. -/
private theorem length_rest_skipTrivia_le (c : Cursor) :
    c.skipTrivia.rest.length ≤ c.rest.length :=
  length_rest_afterTrivia_le _ _ _

/-! ### Tokens -/

/-- The token that starts at the cursor, and the cursor after it: an illegal character stands
alone, and any other character is read together with the word characters that follow it. -/
def token? (c : Cursor) : Option (Token × Cursor) :=
  match c.rest with
  | [] => none
  | x :: xs =>
    if isIllegal x then
      some (Token.ofIllegal c.pos x, ⟨xs, c.pos.after x, .body⟩)
    else
      let word := x :: xs.takeWhile isWordChar
      some (Token.ofWord c.pos word, ⟨xs.dropWhile isWordChar, c.pos.afterAll word, .body⟩)

/-- The next token after any trivia, and the cursor after it; none at the end of the text. -/
def read? (c : Cursor) : Option (Token × Cursor) :=
  c.skipTrivia.token?

/-- Reads the next token. At the end of the text this is the token of the end, and the cursor
stays there. -/
def next (c : Cursor) : Token × Cursor :=
  match c.read? with
  | some r => r
  | none => (Token.endOfInput c.skipTrivia.pos, ⟨[], c.skipTrivia.pos, .body⟩)

/-- The cursor after `n` tokens. -/
def drop (c : Cursor) : Nat → Cursor
  | 0 => c
  | n + 1 => c.next.2.drop n

private theorem length_rest_lt_of_token? {c d : Cursor} {t : Token} (h : c.token? = some (t, d)) :
    d.rest.length < c.rest.length := by
  obtain ⟨rest, p, m⟩ := c
  cases rest with
  | nil => simp [token?] at h
  | cons x xs =>
    simp only [token?] at h
    split at h
    · simp only [Option.some.injEq, Prod.mk.injEq] at h
      simp [← h.2]
    · simp only [Option.some.injEq, Prod.mk.injEq] at h
      have := (List.dropWhile_suffix isWordChar (l := xs)).length_le
      simp only [← h.2, List.length_cons]
      omega

/-- **Reading a token shortens what follows**, so that `tokenize` comes to an end. -/
theorem length_rest_lt_of_read? {c d : Cursor} {t : Token} (h : c.read? = some (t, d)) :
    d.rest.length < c.rest.length :=
  Nat.lt_of_lt_of_le (length_rest_lt_of_token? h) c.length_rest_skipTrivia_le

/-- Only the end of a text gives a token of the kind `endOfInput`. -/
theorem kind_ne_of_read? {c d : Cursor} {t : Token} (h : c.read? = some (t, d)) :
    t.kind ≠ .endOfInput := by
  unfold read? token? at h
  split at h
  · simp at h
  · split at h <;> simp only [Option.some.injEq, Prod.mk.injEq] at h <;> rw [← h.1]
    · simp [Token.ofIllegal]
    · exact Token.Kind.ofWord_ne_endOfInput _

end Cursor

end RequestScript
