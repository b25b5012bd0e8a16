import RequestScript.Proofs.Token.Reading

/-!
# The same text at another position

What a text is read as does not depend on where it stands. Tokens are moved by a map of offsets and
a map of lines (`Token.relocate`), which leaves their kinds and texts alone and so every role that
they may play. A text that is read from another position has the same tokens, **shifted** by that
position (`Cursor.tokens_shift`).
-/

namespace RequestScript

namespace Token

/-- The token with its offsets moved by `g` and its line moved by `l`. -/
def relocate (g l : Nat → Nat) (t : Token) : Token :=
  { t with line := l t.line, span := t.span.map g }

variable (g l : Nat → Nat) (t : Token)

@[simp]
theorem kind_relocate : (t.relocate g l).kind = t.kind := rfl

@[simp]
theorem literal_relocate : (t.relocate g l).literal = t.literal := rfl

@[simp]
theorem line_relocate : (t.relocate g l).line = l t.line := rfl

@[simp]
theorem span_relocate : (t.relocate g l).span = t.span.map g := rfl

@[simp]
theorem key?_relocate : (t.relocate g l).key? = t.key? := rfl

@[simp]
theorem isValue_relocate : (t.relocate g l).isValue = t.isValue := rfl

@[simp]
theorem status?_relocate : (t.relocate g l).status? = t.status? := rfl

@[simp]
theorem relocate_relocate (g' l' : Nat → Nat) :
    (t.relocate g l).relocate g' l' = t.relocate (g' ∘ g) (l' ∘ l) := rfl

/-- The token moved on by what lies before the position `p`. -/
def shift (p : Position) : Token → Token :=
  relocate (· + p.offset) (· + p.line)

end Token

/-- The position moved on by what lies before the position `p`. -/
def Position.shift (p q : Position) : Position where
  offset := q.offset + p.offset
  line := q.line + p.line

namespace Position

private theorem after_shift (p q : Position) (c : Char) :
    (shift p q).after c = shift p (q.after c) := by
  simp only [shift, after, Position.mk.injEq]
  split <;> omega

theorem afterAll_shift (p q : Position) (cs : List Char) :
    (shift p q).afterAll cs = shift p (q.afterAll cs) := by
  induction cs generalizing q with
  | nil => rfl
  | cons c cs ih => rw [afterAll_cons, after_shift, ih, afterAll_cons]

@[simp]
theorem shift_zero (p : Position) : shift p {} = p := by
  simp [shift]

end Position

namespace Token

private theorem shift_ofWord (p q : Position) (w : List Char) :
    (ofWord q w).shift p = ofWord (p.shift q) w := by
  simp [shift, relocate, ofWord, Span.map, Position.shift, Nat.add_right_comm]

private theorem shift_ofIllegal (p q : Position) (c : Char) :
    (ofIllegal q c).shift p = ofIllegal (p.shift q) c := by
  simp [shift, relocate, ofIllegal, Span.map, Position.shift, Nat.add_right_comm]

theorem shift_endOfInput (p q : Position) :
    (endOfInput q).shift p = endOfInput (p.shift q) := rfl

end Token

namespace Cursor

/-- **A text read further on** has the same tokens further on (`Token.shift`). -/
theorem tokens_shift (c : Cursor) (p : Position) :
    (⟨c.rest, p.shift c.pos, c.margin⟩ : Cursor).stream.tokens =
      c.stream.tokens.map (Token.shift p) := by
  induction c using reading_induction with
  | atEnd q m => simp
  | trivia x xs q m m' hs ih =>
    rw [stream_trivia hs, stream_trivia hs, Position.after_shift]
    exact ih
  | illegal x xs q m hs hx ih =>
    rw [tokens_illegal hs hx, tokens_illegal hs hx, Position.after_shift, List.map_cons,
      Token.shift_ofIllegal]
    exact congrArg (_ :: ·) ih
  | word x w xs q m hs hw hx ih =>
    rw [tokens_word hs hw hx, tokens_word hs hw hx, Position.afterAll_shift, List.map_cons,
      Token.shift_ofWord]
    exact congrArg (_ :: ·) ih

/-- A text read from any position has the tokens that it has on its own, shifted there. -/
theorem tokens_eq_map_shift (cs : List Char) (p : Position) (m : Margin) :
    (⟨cs, p, m⟩ : Cursor).stream.tokens =
      (⟨cs, {}, m⟩ : Cursor).stream.tokens.map (Token.shift p) := by
  have h := tokens_shift ⟨cs, {}, m⟩ p
  rwa [Position.shift_zero] at h

/-- The tokens of a text that begins on a line of its own are those of `tokenize`, shifted. -/
theorem tokens_start (cs : List Char) (p : Position) :
    (⟨cs, p, .start⟩ : Cursor).stream.tokens =
      (tokenize (String.ofList cs)).tokens.map (Token.shift p) := by
  have hcursor : Cursor.ofString (String.ofList cs) = ⟨cs, {}, .start⟩ := by
    rw [Cursor.ofString, String.toList_ofList]
  rw [tokenize, hcursor]
  exact tokens_eq_map_shift cs p .start

end Cursor

end RequestScript
