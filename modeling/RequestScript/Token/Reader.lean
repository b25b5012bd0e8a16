import RequestScript.Token.Stream

/-!
# Readers: one pass over the tokens of a text

A **reader** hands out the tokens of a text in two ways. `Reader.nextToken` reads on without
end. `Reader.next?` makes one pass: it hands out the token of the end once and nothing after
that. Both move the same cursor, but only the pass remembers that it is over, and only `reset`
makes it forget.
-/

namespace RequestScript

/-- A reader of the tokens of a text. -/
structure Reader where
  /-- The text. -/
  source : String
  /-- Where the reader stands. -/
  cursor : Cursor
  /-- The pass is over: it has handed out the token of the end. -/
  exhausted : Bool
deriving DecidableEq, Repr, Inhabited

namespace Reader

/-- The reader at the start of a text. -/
def ofString (s : String) : Reader where
  source := s
  cursor := Cursor.ofString s
  exhausted := false

/-- The reader taken back to the start of its text. -/
def reset (r : Reader) : Reader :=
  ofString r.source

/-- Reads the next token, at the end the token of the end. -/
def nextToken (r : Reader) : Token × Reader :=
  let (t, c) := r.cursor.next
  (t, { r with cursor := c })

/-- The next token of the pass, if the pass is not over. -/
def next? (r : Reader) : Option Token × Reader :=
  if r.exhausted then (none, r)
  else
    let (t, r') := r.nextToken
    (some t, { r' with exhausted := t.kind == .endOfInput })

/-- The reader after `n` tokens, the pass being left as it is. -/
def discard (r : Reader) (n : Nat) : Reader :=
  { r with cursor := r.cursor.drop n }

/-- What is left for a pass to do: it drops with every token handed out. -/
def todo (r : Reader) : Nat :=
  if r.exhausted then 0 else r.cursor.rest.length + 1

theorem todo_lt_of_next? {r : Reader} {t : Token} {r' : Reader} (h : r.next? = (some t, r')) :
    r'.todo < r.todo := by
  unfold next? at h
  split at h
  · simp at h
  · next hex =>
    simp only [Prod.mk.injEq, Option.some.injEq, nextToken] at h
    obtain ⟨-, rfl⟩ := h
    simp only [todo, hex]
    unfold Cursor.next
    split
    · next p hp =>
      have hlt := Cursor.length_rest_lt_of_read? (t := p.1) (d := p.2) hp
      have hk := Cursor.kind_ne_of_read? (t := p.1) (d := p.2) hp
      simp [hk, hlt]
    · simp [Token.endOfInput]

/-- The tokens left in the pass, and the reader after them. -/
def collect (r : Reader) : List Token × Reader :=
  match h : r.next? with
  | (none, r') => ([], r')
  | (some t, r') =>
    have : r'.todo < r.todo := todo_lt_of_next? h
    let (ts, r'') := r'.collect
    (t :: ts, r'')
termination_by r.todo

end Reader

end RequestScript
