import RequestScript.Proofs.Token.Cutting
import RequestScript.Proofs.Token.Layout
import RequestScript.Proofs.Token.Trivia

/-!
# Tokens tile their text

A **tile** is a token together with the gap between it and the token before. The tiles of a text,
put side by side, are the text again: nothing is lost, and nothing is read twice (`exists_tiling`).

Tiles are laid one after another along the reading of a text (`Tile.Laid`, `Cursor.exists_laid`). A
tile **fits** where it is laid if its gap is trivia there, its token stands right after the gap,
and its word goes on as far as it can (`Tile.Fits`). All else follows from that at any tile of the
row (`Tile.Laid.exists_fits`):

* a gap falls into lines that are blank, and comments that start a line (`Tile.Fits.isGap`);
* two words have a blank between them (`Tile.Fits.gap_ne_nil`, `Tile.Fits.isBlank_head`).

The end of a text is the last tile. It may follow the last word at once (`no_blank_before_end`).
-/

namespace RequestScript

/-! ### Tiles -/

/-- A token, and the text between it and the token before. -/
structure Tile where
  /-- The text before the token. -/
  gap : List Char
  /-- The token. -/
  token : Token
deriving DecidableEq, Repr, Inhabited

namespace Tile

/-- The text that a tile takes. -/
def text (t : Tile) : List Char :=
  t.gap ++ t.token.literal.toList

/-- The text that tiles take. -/
def texts (ts : List Tile) : List Char :=
  ts.flatMap text

@[simp]
private theorem texts_nil : texts [] = [] := rfl

@[simp]
private theorem texts_cons (t : Tile) (ts : List Tile) : texts (t :: ts) = t.text ++ texts ts :=
  List.flatMap_cons

@[simp]
private theorem texts_append (ts us : List Tile) : texts (ts ++ us) = texts ts ++ texts us :=
  List.flatMap_append

/-- **The tile fits** at the position `p` with the margin `m`, where `rest` is the text after
it. -/
structure Fits (p : Position) (m : Margin) (rest : List Char) (t : Tile) : Prop where
  /-- The gap is skipped. -/
  skipped : ∃ n, m.skipAll? t.gap = some n
  /-- The token stands on the line where the gap ends. -/
  line : t.token.line = (p.afterAll t.gap).line
  /-- The token starts where the gap ends. -/
  start : t.token.span.start = (p.afterAll t.gap).offset
  /-- The token takes the bytes of its text. -/
  stop : t.token.span.stop = t.token.span.start + byteLength t.token.literal.toList
  /-- What comes next does not go on with a word. -/
  ends : t.token.kind ≠ .illegal → EndsWord rest

/-- **Tiles are laid** one after another from the position `p` on, the first one with the margin
`m`. -/
def Laid (p : Position) (m : Margin) : List Tile → Prop
  | [] => True
  | t :: ts => t.Fits p m (texts ts) ∧ Laid (p.afterAll t.text) .body ts

/-- **Every tile of a row fits** (`Fits`): the first one with the margin of the row, the others
after a token. -/
theorem Laid.exists_fits {p : Position} {m : Margin} {ts us : List Tile} {t : Tile}
    (h : Laid p m (ts ++ t :: us)) :
    ∃ n, (n = .body ∨ ts = [] ∧ n = m) ∧ t.Fits (p.afterAll (texts ts)) n (texts us) := by
  induction ts generalizing p m with
  | nil => exact ⟨m, .inr ⟨rfl, rfl⟩, h.1⟩
  | cons u ts ih =>
    obtain ⟨n, hn, hfits⟩ := ih h.2
    rw [texts_cons, Position.afterAll_append]
    exact ⟨n, .inl (hn.elim id And.right), hfits⟩

end Tile

/-- **A text is laid with tiles** as it is read: their tokens are those of the stream, and their
`texts` are the text. -/
theorem Cursor.exists_laid (c : Cursor) :
    ∃ tiles, tiles.map Tile.token = c.stream.toList ∧ Tile.texts tiles = c.rest ∧
      Tile.Laid c.pos c.margin tiles := by
  induction c using reading_induction with
  | atEnd p m =>
    rw [stream_nil]
    exact ⟨[⟨[], .endOfInput p⟩], rfl, rfl,
      ⟨⟨m, rfl⟩, rfl, rfl, rfl, fun _ => endsWord_nil⟩, trivial⟩
  | trivia x xs p m m' hs ih =>
    obtain ⟨tiles, htokens, htexts, hlaid⟩ := ih
    cases tiles with
    | nil => simp [TokenStream.toList] at htokens
    | cons t ts =>
      -- the character becomes part of the first gap
      obtain ⟨⟨⟨n, hskip⟩, hline, hstart, hstop, hends⟩, hlaid⟩ := hlaid
      refine ⟨⟨x :: t.gap, t.token⟩ :: ts, ?_, congrArg (x :: ·) htexts,
        ⟨⟨n, ?_⟩, hline, hstart, hstop, hends⟩, hlaid⟩
      · rw [stream_trivia hs]
        exact htokens
      · exact (Margin.skipAll?_cons hs t.gap).trans hskip
  | illegal x xs p m hs hx ih =>
    obtain ⟨tiles, htokens, htexts, hlaid⟩ := ih
    refine ⟨⟨[], .ofIllegal p x⟩ :: tiles, ?_, ?_, ⟨⟨m, rfl⟩, rfl, rfl, ?_, ?_⟩, ?_⟩
    · rw [stream_illegal hs hx, TokenStream.toList_cons, List.map_cons, htokens]
    · simp [Tile.text, Token.ofIllegal, htexts]
    · simp [Token.ofIllegal]
    · exact fun hk => absurd rfl hk
    · simpa [Tile.text, Token.ofIllegal] using hlaid
  | word x w xs p m hs hw hx ih =>
    obtain ⟨tiles, htokens, htexts, hlaid⟩ := ih
    refine ⟨⟨[], .ofWord p (x :: w)⟩ :: tiles, ?_, ?_, ⟨⟨m, rfl⟩, rfl, rfl, ?_, ?_⟩, ?_⟩
    · rw [stream_word hs hw hx, TokenStream.toList_cons, List.map_cons, htokens]
    · simp [Tile.text, Token.ofWord, htexts]
    · simp [Token.ofWord]
    · exact fun _ => htexts ▸ hx
    · simpa [Tile.text, Token.ofWord] using hlaid

/-! ### Gaps -/

/-- A line starts after the characters. -/
def StartsLine (before : List Char) : Prop :=
  ∀ c ∈ before.getLast?, c = '\n'

/-- **A gap**, with the text before it: cut at its line feeds, it consists of blank pieces, and of
comments where a line starts. All pieces but the first one follow a line feed. -/
def IsGap (before gap : List Char) : Prop :=
  ∀ ls l ks, lines gap = ls ++ l :: ks →
    (∀ c ∈ l, isBlank c = true) ∨ isComment l = true ∧ (ls = [] → StartsLine before)

namespace Tile.Fits

variable {p : Position} {m : Margin} {before rest : List Char} {t u : Tile}

/-- A token spans what comes after the `gap`. -/
private theorem span_eq (h : t.Fits (Position.afterAll {} before) m rest) :
    t.token.span = ⟨byteLength (before ++ t.gap), byteLength (before ++ t.text)⟩ := by
  have hspan : t.token.span = ⟨t.token.span.start, t.token.span.stop⟩ := rfl
  rw [hspan, h.stop, h.start, Position.offset_afterAll, Position.offset_afterAll]
  simp [text, Nat.add_assoc]

/-- **What fits has a gap** before it (`IsGap`). -/
private theorem isGap (h : t.Fits p m rest) (hm : m = .body ∨ before = [] ∧ m = .start) :
    IsGap before t.gap := by
  obtain ⟨k, ks, hk⟩ := List.exists_cons_of_ne_nil (lines_ne_nil t.gap)
  obtain ⟨hfirst, hothers⟩ := (Margin.exists_skipAll?_eq_some_iff hk).mp h.skipped
  intro ls l ls' hlines
  rw [hk] at hlines
  cases ls with
  | nil =>
    obtain ⟨rfl, -⟩ := List.cons.inj hlines
    rcases hm with rfl | ⟨rfl, rfl⟩
    · exact .inl hfirst
    · exact hfirst.imp_right fun hcomment => ⟨hcomment, fun _ => by simp [StartsLine]⟩
  | cons l' ls =>
    obtain ⟨-, rfl⟩ := List.cons.inj hlines
    exact (hothers l (by simp)).imp_right fun hcomment => ⟨hcomment, fun hnil => by cases hnil⟩

/-- What is skipped first after a token is a blank. -/
private theorem isBlank_head (h : t.Fits p .body rest) : ∀ c ∈ t.gap.head?, isBlank c = true := by
  intro c hc
  obtain ⟨n, hn⟩ := h.skipped
  obtain ⟨cs, hgap⟩ := List.head?_eq_some_iff.mp hc
  rw [hgap] at hn
  exact Margin.isBlank_of_skipAll?_body hn

/-- **Two words have a gap between them**: otherwise they were one. -/
private theorem gap_ne_nil (h : t.Fits p m (u.text ++ rest)) (ht : t.token.kind ≠ .illegal)
    (hu : u.token.Genuine) (hk : u.token.kind ≠ .illegal) : u.gap ≠ [] := by
  intro hgap
  obtain ⟨x, xs, hliteral⟩ : ∃ x xs, u.token.literal.toList = x :: xs :=
    List.exists_cons_of_ne_nil (by simpa using hu.literal_ne_empty)
  have hends : isWordChar x = false := h.ends ht x (by rw [text, hgap, hliteral]; rfl)
  have hword : isWordChar x = true := hu.isWordChar_of_kind_ne hk x (by simp [hliteral])
  simp [hends] at hword

end Tile.Fits

/-! ### The tiling of a text -/

/-- **Tiles make up a text**: they carry its tokens, and no byte of it is lost or read twice. -/
structure Tiling (source : String) (tiles : List Tile) : Prop where
  /-- The tiles carry the tokens of the text. -/
  tokens : tiles.map Tile.token = (tokenize source).toList
  /-- The gaps and the texts of the tokens make up the text. -/
  texts : Tile.texts tiles = source.toList
  /-- A token spans what its tile takes after the gap. -/
  span : ∀ ts t us, tiles = ts ++ t :: us →
    t.token.span = ⟨byteLength (Tile.texts ts ++ t.gap), byteLength (Tile.texts ts ++ t.text)⟩
  /-- What a token spans is its text. -/
  slice : ∀ t ∈ tiles, t.token.span.slice? source.toList = some t.token.literal.toList
  /-- A token stands on the line that is told by the line feeds before it. -/
  line : ∀ t ∈ tiles, ∃ before,
    (⟨0, t.token.span.start⟩ : Span).slice? source.toList = some before ∧
      t.token.line = before.count '\n'
  /-- Only the last token is the end of the text: it takes no byte, and every other token does. -/
  last : ∃ ts t, tiles = ts ++ [t] ∧ t.token.kind = .endOfInput ∧
    t.token.span = ⟨byteLength source.toList, byteLength source.toList⟩ ∧
    ∀ u ∈ ts, u.token.kind ≠ .endOfInput ∧ u.token.span.start < u.token.span.stop
  /-- No token starts before the one before it stops. -/
  apart : ∀ ts t u us, tiles = ts ++ t :: u :: us → t.token.span.stop ≤ u.token.span.start
  /-- Before each token is a gap. -/
  gap : ∀ ts t us, tiles = ts ++ t :: us → IsGap (Tile.texts ts) t.gap
  /-- The gap between two tokens, none of them illegal, starts with a blank, and it is empty at the
  end of the text only. -/
  between : ∀ ts t u us, tiles = ts ++ t :: u :: us →
    t.token.kind ≠ .illegal → u.token.kind ≠ .illegal →
      (u.token.kind ≠ .endOfInput → u.gap ≠ []) ∧ ∀ c ∈ u.gap.head?, isBlank c = true
  /-- Other than an illegal character, a token has no blank and no illegal character in its
  text. -/
  word : ∀ t ∈ tiles, t.token.kind ≠ .illegal →
    ∀ c ∈ t.token.literal.toList, isBlank c = false ∧ isIllegal c = false

/-- **Every text is tiled by its tokens** (`Tiling`). -/
theorem exists_tiling (source : String) : ∃ tiles, Tiling source tiles := by
  obtain ⟨tiles, htokens, htexts, hlaid⟩ := (Cursor.ofString source).exists_laid
  have hmem : ∀ {t}, t ∈ tiles → t.token ∈ (tokenize source).toList := fun ht =>
    htokens ▸ List.mem_map_of_mem ht
  have hgenuine : ∀ {t}, t ∈ tiles → t.token.kind ≠ .endOfInput → t.token.Genuine := fun ht hk =>
    (Cursor.eq_last_or_genuine_of_mem (hmem ht)).resolve_left fun h => hk (congrArg Token.kind h)
  -- each tile fits where the tiles before it end
  have hfits : ∀ ts t us, tiles = ts ++ t :: us → ∃ m, (m = .body ∨ ts = [] ∧ m = .start) ∧
      t.Fits (Position.afterAll {} (Tile.texts ts)) m (Tile.texts us) := by
    rintro ts t us rfl
    exact hlaid.exists_fits
  have hspan : ∀ ts t us, tiles = ts ++ t :: us → t.token.span =
      ⟨byteLength (Tile.texts ts ++ t.gap), byteLength (Tile.texts ts ++ t.text)⟩ := by
    intro ts t us htiles
    obtain ⟨m, -, h⟩ := hfits ts t us htiles
    exact h.span_eq
  refine ⟨tiles, ⟨htokens, htexts, hspan, fun t ht => slice?_eq_of_mem_tokenize (hmem ht),
    fun t ht => exists_slice?_before_of_mem_tokenize (hmem ht), ?last, ?apart, ?gap, ?between,
    ?word⟩⟩
  case last =>
    -- the last tile carries the end of the text
    obtain ⟨ts, us, htiles, hts, hus⟩ := List.map_eq_append_iff.mp htokens
    obtain ⟨t, rfl, hlast⟩ := List.map_eq_singleton_iff.mp hus
    have hempty : t.token.literal = "" := congrArg Token.literal hlast
    refine ⟨ts, t, htiles, congrArg Token.kind hlast, ?_, ?_⟩
    · have htext : Tile.texts ts ++ t.gap = source.toList := by
        rw [htiles, Tile.texts_append] at htexts
        simpa [Tile.text, hempty, Cursor.ofString] using htexts
      rw [hspan ts t [] htiles, Tile.text, hempty, String.toList_empty, List.append_nil, htext]
    · intro u hu
      have hgenuine := Cursor.genuine_of_mem_stream (hts ▸ List.mem_map_of_mem hu)
      exact ⟨hgenuine.kind_ne_endOfInput, hgenuine.start_lt_stop⟩
  case apart =>
    intro ts t u us htiles
    rw [hspan ts t _ htiles, hspan (ts ++ [t]) u us (by simp [htiles])]
    simp
  case gap =>
    intro ts t us htiles
    obtain ⟨m, hm, h⟩ := hfits ts t us htiles
    exact h.isGap (hm.imp_right fun hm => ⟨by simp [hm.1], hm.2⟩)
  case between =>
    intro ts t u us htiles htk huk
    have hu : u ∈ tiles := by simp [htiles]
    obtain ⟨n, -, ht⟩ := hfits ts t _ htiles
    -- the second tile is not the first of the row, so it is laid after a token
    obtain ⟨m, hm, h⟩ := hfits (ts ++ [t]) u us (by simp [htiles])
    obtain rfl : m = .body := hm.elim id (by simp)
    exact ⟨fun hk => ht.gap_ne_nil htk (hgenuine hu hk) huk, h.isBlank_head⟩
  case word =>
    intro t ht hk c hc
    have hword := Cursor.isWordChar_of_mem (hmem ht) hk c hc
    exact ⟨isBlank_of_isWordChar hword, isIllegal_of_isWordChar hword⟩

/-- At the end of a text, a word needs nothing after it: the end follows the word at once. -/
theorem no_blank_before_end : ¬ ∃ tiles, Tiling "GET" tiles ∧
    ∀ ts t u us, tiles = ts ++ t :: u :: us →
      t.token.kind ≠ .illegal → u.token.kind ≠ .illegal →
        u.gap ≠ [] ∧ ∀ c ∈ u.gap.head?, isBlank c = true := by
  rintro ⟨tiles, htiling, hblank⟩
  have htokens : (tokenize "GET").toList =
      [⟨.get, "GET", 0, ⟨0, 3⟩⟩, ⟨.endOfInput, "", 0, ⟨3, 3⟩⟩] := by
    decide +kernel
  obtain ⟨t, us, rfl, ht, hus⟩ := List.map_eq_cons_iff.mp (htiling.tokens.trans htokens)
  obtain ⟨u, rfl, hu⟩ := List.map_eq_singleton_iff.mp hus
  -- the word takes all three characters of the text
  have hlength : t.gap.length + (u.gap.length + 3) = 3 := by
    simpa [Tile.text, ht, hu] using congrArg List.length htiling.texts
  have hgap : u.gap = [] := List.eq_nil_of_length_eq_zero (by omega)
  exact (hblank [] t u [] rfl (by simp [ht]) (by simp [hu])).1 hgap

end RequestScript
