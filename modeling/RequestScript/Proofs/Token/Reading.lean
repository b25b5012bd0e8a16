import RequestScript.Token.Reader

/-!
# Reading a text from its front

`Cursor.stream` is defined by reading one token after another. Here the stream is told by the
characters that follow a cursor: at the end of the text it has no tokens (`stream_nil`), trivia
leaves it as it is (`stream_trivia`), and an illegal character or a word is its first token
(`stream_illegal`, `stream_word`). `Cursor.reading_induction` is the induction over a text that
goes with these four equations; every later statement on the tokens of a text is proved by it.

The first of them says what tokens a text can have: each is **genuine**, so that its text tells
its kind.
-/

namespace RequestScript

/-! ### What may follow a cursor -/

namespace Margin

/-- A character is no trivia (`step?`) if it is not blank, stands in no comment and opens none. -/
theorem step?_eq_none_iff {m : Margin} {x : Char} :
    m.step? x = none ↔ isBlank x = false ∧ m ≠ .comment ∧ (m = .start → x ≠ '#') := by
  by_cases hx : x = '\n'
  · subst hx
    simp [step?, isBlank_lineFeed]
  · cases m <;> by_cases hb : isBlank x = true <;> simp_all [step?]

theorem isBlank_of_step?_eq_none {m : Margin} {x : Char} (h : m.step? x = none) :
    isBlank x = false :=
  (step?_eq_none_iff.mp h).1

end Margin

/-- The characters do not go on with a word. -/
def EndsWord (xs : List Char) : Prop :=
  ∀ x ∈ xs.head?, isWordChar x = false

private theorem endsWord_dropWhile (xs : List Char) : EndsWord (xs.dropWhile isWordChar) := by
  intro x hx
  cases hd : xs.dropWhile isWordChar with
  | nil => simp [hd] at hx
  | cons y ys =>
    have := List.head_dropWhile_not isWordChar (l := xs) (by simp [hd])
    simp_all

/-- A word is taken from a text as far as it goes, by `takeWhile` and `dropWhile`. -/
theorem takeWhile_word {w xs : List Char} (hw : ∀ c ∈ w, isWordChar c = true)
    (hx : EndsWord xs) :
    (w ++ xs).takeWhile isWordChar = w ∧ (w ++ xs).dropWhile isWordChar = xs := by
  rw [List.takeWhile_append_of_pos hw, List.dropWhile_append_of_pos hw]
  cases xs with
  | nil => simp
  | cons x xs =>
    have := hx x rfl
    simp [this]

namespace Cursor

/-! ### The stream from its front -/

@[simp]
theorem stream_nil (p : Position) (m : Margin) : (⟨[], p, m⟩ : Cursor).stream = ⟨[], p⟩ :=
  stream_of_read?_eq_none rfl

/-- **Trivia is passed over**: a character that `Margin.step?` skips has no token. -/
theorem stream_trivia {x : Char} {xs : List Char} {p : Position} {m m' : Margin}
    (h : m.step? x = some m') :
    (⟨x :: xs, p, m⟩ : Cursor).stream = (⟨xs, p.after x, m'⟩ : Cursor).stream := by
  have hs : (⟨x :: xs, p, m⟩ : Cursor).skipTrivia = (⟨xs, p.after x, m'⟩ : Cursor).skipTrivia := by
    simp [skipTrivia, afterTrivia, h]
  cases hr : (⟨xs, p.after x, m'⟩ : Cursor).read? with
  | none =>
    have hr' : (⟨x :: xs, p, m⟩ : Cursor).read? = none := by rw [read?, hs, ← read?, hr]
    rw [stream_of_read?_eq_none hr, stream_of_read?_eq_none hr', hs]
  | some r =>
    have hr' : (⟨x :: xs, p, m⟩ : Cursor).read? = some r := by rw [read?, hs, ← read?, hr]
    rw [stream_of_read?_eq_some hr, stream_of_read?_eq_some hr']

private theorem read?_eq_token? {x : Char} {xs : List Char} {p : Position} {m : Margin}
    (h : m.step? x = none) :
    (⟨x :: xs, p, m⟩ : Cursor).read? = (⟨x :: xs, p, m⟩ : Cursor).token? := by
  simp [read?, skipTrivia, afterTrivia, h]

/-- Where a token starts, the `stream` does not depend on the margin. -/
theorem stream_margin {x : Char} {xs : List Char} {p : Position} {m m' : Margin}
    (h : m.step? x = none) (h' : m'.step? x = none) :
    (⟨x :: xs, p, m⟩ : Cursor).stream = (⟨x :: xs, p, m'⟩ : Cursor).stream := by
  obtain ⟨⟨t, d⟩, ht⟩ : ∃ r, (⟨x :: xs, p, m⟩ : Cursor).token? = some r := by
    simp only [token?]
    split <;> exact ⟨_, rfl⟩
  have ht' : (⟨x :: xs, p, m'⟩ : Cursor).token? = some (t, d) := ht
  rw [← read?_eq_token? h] at ht
  rw [← read?_eq_token? h'] at ht'
  rw [stream_of_read?_eq_some ht, stream_of_read?_eq_some ht']

/-- **An illegal character is a token**, `Token.ofIllegal`. -/
theorem stream_illegal {x : Char} {xs : List Char} {p : Position} {m : Margin}
    (h : m.step? x = none) (hx : isIllegal x = true) :
    (⟨x :: xs, p, m⟩ : Cursor).stream =
      (⟨xs, p.after x, .body⟩ : Cursor).stream.cons (.ofIllegal p x) := by
  refine stream_of_read?_eq_some ?_
  rw [read?_eq_token? h]
  simp [token?, hx]

/-- **A word is a token** (`Token.ofWord`), as far as it goes. -/
theorem stream_word {x : Char} {w xs : List Char} {p : Position} {m : Margin}
    (h : m.step? x = none) (hw : ∀ c ∈ x :: w, isWordChar c = true) (hx : EndsWord xs) :
    (⟨x :: w ++ xs, p, m⟩ : Cursor).stream =
      (⟨xs, p.afterAll (x :: w), .body⟩ : Cursor).stream.cons (.ofWord p (x :: w)) := by
  have hill : isIllegal x = false := isIllegal_of_isWordChar (hw x (by simp))
  obtain ⟨ht, hd⟩ := takeWhile_word (fun c hc => hw c (List.mem_cons_of_mem x hc)) hx
  refine stream_of_read?_eq_some ?_
  rw [List.cons_append, read?_eq_token? h]
  simp [token?, hill, ht, hd]

/-- The tokens from an illegal character on. -/
theorem tokens_illegal {x : Char} {xs : List Char} {p : Position} {m : Margin}
    (h : m.step? x = none) (hx : isIllegal x = true) :
    (⟨x :: xs, p, m⟩ : Cursor).stream.tokens =
      .ofIllegal p x :: (⟨xs, p.after x, .body⟩ : Cursor).stream.tokens := by
  rw [stream_illegal h hx]
  rfl

/-- The tokens from a word on. -/
theorem tokens_word {x : Char} {w xs : List Char} {p : Position} {m : Margin}
    (h : m.step? x = none) (hw : ∀ c ∈ x :: w, isWordChar c = true) (hx : EndsWord xs) :
    (⟨x :: w ++ xs, p, m⟩ : Cursor).stream.tokens =
      .ofWord p (x :: w) :: (⟨xs, p.afterAll (x :: w), .body⟩ : Cursor).stream.tokens := by
  rw [stream_word h hw hx]
  rfl

/-- **Induction over what follows a cursor**: the end of the text, a character of trivia
(`Margin.step?`), an illegal character, or a word that is not followed by a word character
(`EndsWord`). -/
@[elab_as_elim]
theorem reading_induction {motive : Cursor → Prop}
    (atEnd : ∀ p m, motive ⟨[], p, m⟩)
    (trivia : ∀ x xs p m m', m.step? x = some m' → motive ⟨xs, p.after x, m'⟩ →
      motive ⟨x :: xs, p, m⟩)
    (illegal : ∀ x xs p m, m.step? x = none → isIllegal x = true →
      motive ⟨xs, p.after x, .body⟩ → motive ⟨x :: xs, p, m⟩)
    (word : ∀ x w xs p m, m.step? x = none → (∀ c ∈ x :: w, isWordChar c = true) →
      EndsWord xs → motive ⟨xs, p.afterAll (x :: w), .body⟩ → motive ⟨x :: w ++ xs, p, m⟩)
    (c : Cursor) : motive c := by
  obtain ⟨rest, p, m⟩ := c
  induction hn : rest.length using Nat.strongRecOn generalizing rest p m with
  | ind n ih =>
    subst hn
    cases rest with
    | nil => exact atEnd p m
    | cons x xs =>
      cases hs : m.step? x with
      | some m' => exact trivia x xs p m m' hs (ih _ (by simp) _ _ _ rfl)
      | none =>
        cases hi : isIllegal x with
        | true => exact illegal x xs p m hs hi (ih _ (by simp) _ _ _ rfl)
        | false =>
          -- the word that starts with `x` is cut off as a whole
          have hb : isBlank x = false := Margin.isBlank_of_step?_eq_none hs
          have hx : isWordChar x = true := isWordChar_of_not hb hi
          have hw : ∀ c ∈ x :: xs.takeWhile isWordChar, isWordChar c = true := by
            intro c hc
            rcases List.mem_cons.mp hc with rfl | hc
            · exact hx
            · exact List.all_eq_true.mp List.all_takeWhile c hc
          have hlen : (xs.dropWhile isWordChar).length < (x :: xs).length :=
            Nat.lt_succ_of_le (List.dropWhile_suffix isWordChar).length_le
          have := word x (xs.takeWhile isWordChar) (xs.dropWhile isWordChar) p m hs hw
            (endsWord_dropWhile xs) (ih _ hlen _ _ _ rfl)
          rwa [List.cons_append, List.takeWhile_append_dropWhile] at this

/-- **A stream ends where the text does**: `stop` is the position after all of it. -/
theorem stream_stop (c : Cursor) : c.stream.stop = c.pos.afterAll c.rest := by
  induction c using reading_induction with
  | atEnd p m => rw [stream_nil]; rfl
  | trivia x xs p m m' hs ih => rw [stream_trivia hs, ih]; rfl
  | illegal x xs p m hs hx ih => rw [stream_illegal hs hx]; exact ih
  | word x w xs p m hs hw hx ih =>
    rw [stream_word hs hw hx]
    exact ih.trans (Position.afterAll_append p (x :: w) xs).symm

end Cursor

/-! ### Genuine tokens -/

/-- A token is **genuine** if it was made of a word or of an illegal character. -/
inductive Token.Genuine : Token → Prop where
  /-- A word, with at least one character. -/
  | word {p : Position} {w : List Char} (hne : w ≠ []) (hw : ∀ c ∈ w, isWordChar c = true) :
      Genuine (.ofWord p w)
  /-- An illegal character. -/
  | illegal {p : Position} {c : Char} (hc : isIllegal c = true) : Genuine (.ofIllegal p c)

namespace Token.Genuine

variable {t : Token}

theorem kind_ne_endOfInput (h : t.Genuine) : t.kind ≠ .endOfInput := by
  cases h with
  | word => exact Kind.ofWord_ne_endOfInput _
  | illegal => simp [ofIllegal]

theorem literal_ne_empty (h : t.Genuine) : t.literal ≠ "" := by
  cases h with
  | word hne => simpa [ofWord, ← String.toList_inj] using hne
  | illegal => simp [ofIllegal, ← String.toList_inj]

/-- No token has a blank in its `literal`. -/
theorem isBlank_eq_false (h : t.Genuine) : ∀ c ∈ t.literal.toList, isBlank c = false := by
  cases h with
  | word _ hw =>
    rw [ofWord, String.toList_ofList]
    exact fun c hc => isBlank_of_isWordChar (hw c hc)
  | illegal hc =>
    rw [ofIllegal, String.toList_singleton, List.forall_mem_singleton]
    exact isBlank_of_isIllegal hc

/-- A token that is not illegal is a word. -/
theorem isWordChar_of_kind_ne (h : t.Genuine) (hk : t.kind ≠ .illegal) :
    ∀ c ∈ t.literal.toList, isWordChar c = true := by
  cases h with
  | word _ hw =>
    rw [ofWord, String.toList_ofList]
    exact hw
  | illegal => exact absurd rfl hk

/-- The `literal` of a token tells its kind, by `Kind.ofWord`. -/
theorem kind_eq_ofWord (h : t.Genuine) (hk : t.kind ≠ .illegal) :
    t.kind = Kind.ofWord t.literal := by
  cases h with
  | word => rfl
  | illegal => exact absurd rfl hk

/-- A method does not open a comment. -/
theorem head?_ne_of_isMethod (h : t.Genuine) (hm : t.kind.isMethod = true) :
    t.literal.toList.head? ≠ some '#' := by
  rw [h.kind_eq_ofWord fun hk => by simp [hk, Kind.isMethod] at hm] at hm
  rcases Kind.eq_of_isMethod_ofWord hm with hw | hw <;> rw [hw] <;> decide

end Token.Genuine

/-- **All tokens before the end of a text are genuine** (`Token.Genuine`). -/
theorem Cursor.genuine_of_mem_stream {c : Cursor} {t : Token} (h : t ∈ c.stream.tokens) :
    t.Genuine := by
  induction c using reading_induction with
  | atEnd => simp at h
  | trivia x xs p m m' hs ih =>
    rw [stream_trivia hs] at h
    exact ih h
  | illegal x xs p m hs hx ih =>
    rw [stream_illegal hs hx] at h
    rcases List.mem_cons.mp h with rfl | h
    · exact .illegal hx
    · exact ih h
  | word x w xs p m hs hw hx ih =>
    rw [stream_word hs hw hx] at h
    rcases List.mem_cons.mp h with rfl | h
    · exact .word (by simp) hw
    · exact ih h

/-- No token before the end of a text is taken for the end. -/
theorem Cursor.kind_ne_endOfInput_of_mem {c : Cursor} {t : Token} (h : t ∈ c.stream.tokens) :
    t.kind ≠ .endOfInput :=
  (genuine_of_mem_stream h).kind_ne_endOfInput

/-- A token is the `last` one of its stream, or it is genuine. -/
theorem Cursor.eq_last_or_genuine_of_mem {c : Cursor} {t : Token} (h : t ∈ c.stream.toList) :
    t = c.stream.last ∨ t.Genuine :=
  (List.mem_append.mp h).symm.imp List.mem_singleton.mp genuine_of_mem_stream

/-- **No token has a blank in its text**, and neither has the end of a text. -/
theorem Cursor.not_mem_of_isBlank {c : Cursor} {t : Token} {x : Char} (h : t ∈ c.stream.toList)
    (hx : isBlank x = true) : x ∉ t.literal.toList := by
  intro hmem
  rcases eq_last_or_genuine_of_mem h with rfl | hgenuine
  · cases hmem
  · rw [hgenuine.isBlank_eq_false x hmem] at hx
    cases hx

/-- Nothing but words and illegal characters is read. -/
theorem Cursor.isWordChar_of_mem {c : Cursor} {t : Token} (h : t ∈ c.stream.toList)
    (hk : t.kind ≠ .illegal) : ∀ x ∈ t.literal.toList, isWordChar x = true := by
  rcases eq_last_or_genuine_of_mem h with rfl | hgenuine
  · intro x hx
    cases hx
  · exact hgenuine.isWordChar_of_kind_ne hk

/-! ### A pass over a text -/

namespace Reader

/-- `collect` gives nothing where there is no next token. -/
theorem collect_of_next?_eq_none {r r' : Reader} (h : r.next? = (none, r')) :
    r.collect = ([], r') := by
  rw [collect]
  split
  · next h' => rw [h] at h'; cases h'; rfl
  · next h' => simp [h] at h'

private theorem collect_of_exhausted {r : Reader} (h : r.exhausted = true) : r.collect = ([], r) :=
  collect_of_next?_eq_none (by simp [next?, h])

/-- What `collect` gives after a token is what follows it. -/
theorem collect_of_next? {r r' : Reader} {t : Token} (h : r.next? = (some t, r')) :
    r.collect = (t :: r'.collect.1, r'.collect.2) := by
  rw [collect]
  split
  · next h' => simp [h] at h'
  · next h' => rw [h] at h'; cases h'; rfl

/-- **A pass that is not over collects the stream** at which the reader stands, its `last` token
included. -/
theorem collect_fst {r : Reader} (h : r.exhausted = false) :
    r.collect.1 = r.cursor.stream.toList := by
  induction hn : r.todo using Nat.strongRecOn generalizing r with
  | ind n ih =>
    subst hn
    have hnext : r.next? = (some r.cursor.next.1,
        { r with
          cursor := r.cursor.next.2
          exhausted := r.cursor.next.1.kind == .endOfInput }) := by
      simp [next?, nextToken, h]
    have hlt := todo_lt_of_next? hnext
    rw [collect_of_next? hnext]
    -- the token of the end is the last one that is collected
    cases hr : r.cursor.read? with
    | none =>
      have hc : r.cursor.next = (.endOfInput r.cursor.skipTrivia.pos,
          ⟨[], r.cursor.skipTrivia.pos, .body⟩) := by simp [Cursor.next, hr]
      rw [Cursor.stream_of_read?_eq_none hr, hc, collect_of_exhausted rfl]
      rfl
    | some p =>
      obtain ⟨t, d⟩ := p
      have hc : r.cursor.next = (t, d) := by simp [Cursor.next, hr]
      rw [Cursor.stream_of_read?_eq_some hr, TokenStream.toList_cons]
      rw [hc] at hlt ⊢
      rw [ih _ hlt (by simpa using Cursor.kind_ne_of_read? hr) rfl]

end Reader

end RequestScript
