import RequestScript.Token.Cursor

/-!
# Token streams

The tokens that follow a cursor, all at once. A **stream** lists the tokens before the end of
the text and keeps the position of the end, so that it can be read past its last token: the
token of the end then comes again and again (`TokenStream.get`).
-/

namespace RequestScript

/-- The tokens that follow a place in a text, up to its end. -/
structure TokenStream where
  /-- The tokens before the end. -/
  tokens : List Token
  /-- The position of the end. -/
  stop : Position
deriving DecidableEq, Repr, Inhabited

namespace TokenStream

/-- The token of the end. -/
def last (s : TokenStream) : Token :=
  Token.endOfInput s.stop

/-- The tokens, with the token of the end as the last. -/
def toList (s : TokenStream) : List Token :=
  s.tokens ++ [s.last]

/-- The token at an index; the token of the end at all indices past the tokens. -/
def get (s : TokenStream) (i : Nat) : Token :=
  s.tokens[i]?.getD s.last

/-- The token at which the stream stands. -/
def current (s : TokenStream) : Token :=
  s.get 0

/-- The stream with a token in front. -/
def cons (t : Token) (s : TokenStream) : TokenStream where
  tokens := t :: s.tokens
  stop := s.stop

/-- The stream after its first `n` tokens. -/
def drop (s : TokenStream) (n : Nat) : TokenStream where
  tokens := s.tokens.drop n
  stop := s.stop

@[simp]
theorem toList_cons (t : Token) (s : TokenStream) : (s.cons t).toList = t :: s.toList := rfl

@[simp]
theorem get_cons_zero (t : Token) (s : TokenStream) : (s.cons t).get 0 = t := rfl

@[simp]
theorem get_cons_succ (t : Token) (s : TokenStream) (i : Nat) :
    (s.cons t).get (i + 1) = s.get i := by
  simp [get, cons, last]

/-- Within `tokens`, `get` is indexing. -/
theorem get_of_lt {s : TokenStream} {i : Nat} (h : i < s.tokens.length) :
    s.get i = s.tokens[i] := by
  simp [get, h]

/-- The `current` token of a stream is the first one. -/
theorem current_of_tokens_eq {s : TokenStream} {t : Token} {ts : List Token}
    (h : s.tokens = t :: ts) : s.current = t := by
  simp [current, get, h]

/-- Past the `tokens` of a stream, `get` gives its `last` one again and again. -/
theorem get_of_length_le {s : TokenStream} {i : Nat} (h : s.tokens.length ≤ i) :
    s.get i = s.last := by
  simp [get, h]

/-- `drop` moves the indices of `get`. -/
theorem get_drop (s : TokenStream) (n i : Nat) : (s.drop n).get i = s.get (n + i) := by
  simp [get, drop, last]

theorem current_drop (s : TokenStream) (n : Nat) : (s.drop n).current = s.get n :=
  s.get_drop n 0

theorem drop_drop (s : TokenStream) (n k : Nat) : (s.drop n).drop k = s.drop (n + k) := by
  simp [drop]

end TokenStream

/-- The tokens that follow a cursor. -/
def Cursor.stream (c : Cursor) : TokenStream :=
  match h : c.read? with
  | none => ⟨[], c.skipTrivia.pos⟩
  | some (t, d) =>
    have : d.rest.length < c.rest.length := length_rest_lt_of_read? h
    d.stream.cons t
termination_by c.rest.length

/-- The tokens of a text. -/
def tokenize (s : String) : TokenStream :=
  (Cursor.ofString s).stream

namespace Cursor

theorem stream_of_read?_eq_none {c : Cursor} (h : c.read? = none) :
    c.stream = ⟨[], c.skipTrivia.pos⟩ := by
  rw [stream]
  split
  · rfl
  · next h' => simp [h] at h'

theorem stream_of_read?_eq_some {c d : Cursor} {t : Token} (h : c.read? = some (t, d)) :
    c.stream = d.stream.cons t := by
  rw [stream]
  split
  · next h' => simp [h] at h'
  · next h' =>
    rw [h] at h'
    cases h'
    rfl

/-- **Reading on reads the stream**: what `Cursor.next` hands out is the `current` token. -/
theorem next_fst (c : Cursor) : c.next.1 = c.stream.current := by
  unfold next
  split
  · next r h =>
    obtain ⟨t, d⟩ := r
    rw [stream_of_read?_eq_some h]
    rfl
  · next h =>
    rw [stream_of_read?_eq_none h]
    rfl

/-- What follows the token that `Cursor.next` hands out is the stream without it. -/
theorem stream_next (c : Cursor) : c.next.2.stream = c.stream.drop 1 := by
  unfold next
  split
  · next r h =>
    obtain ⟨t, d⟩ := r
    rw [stream_of_read?_eq_some h]
    rfl
  · next h =>
    have hend : (⟨[], c.skipTrivia.pos, .body⟩ : Cursor).read? = none := rfl
    rw [stream_of_read?_eq_none h, stream_of_read?_eq_none hend]
    rfl

/-- Tokens that are passed by reading on (`Cursor.drop`) are dropped from the stream. -/
theorem stream_drop (c : Cursor) (n : Nat) : (c.drop n).stream = c.stream.drop n := by
  induction n generalizing c with
  | zero => rfl
  | succ n ih => simp [drop, ih, stream_next, TokenStream.drop]

end Cursor

end RequestScript
