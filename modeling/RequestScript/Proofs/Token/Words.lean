import RequestScript.Proofs.Token.Cutting
import RequestScript.Script.Printer

/-!
# The tokens of a written text

A text is written as words with spaces between them, and as lines with line feeds between them.
What is read from it, places apart (`bareTokens`), is what was written:

* the tokens of lines are those of each line (`bareTokens_intercalate_lineFeed`);
* the tokens of words in one line are the words (`bareTokens_intercalate_space`), unless the first
  begins with `#`: then the line is a comment and has none (`bareTokens_line`). The same holds of
  the texts of any tokens, illegal characters among them (`bareTokens_intercalate_literals`).
-/

namespace RequestScript

/-! ### Tokens without their places -/

/-- The token without its place. -/
def Token.erase (t : Token) : Token :=
  t.relocate (fun _ => 0) (fun _ => 0)

/-- The token of a word that stands nowhere. -/
def Token.ofText (w : String) : Token where
  kind := Kind.ofWord w
  literal := w
  line := 0
  span := {}

/-- Without its place, the token of a word is the word (`Token.ofText`). -/
private theorem Token.erase_ofWord (p : Position) (cs : List Char) :
    (ofWord p cs).erase = ofText (String.ofList cs) := rfl

/-- The tokens of a text without their places. -/
def bareTokens (s : String) : List Token :=
  (tokenize s).tokens.map Token.erase

/-- Where a text stands does not matter to its tokens without their places. -/
private theorem map_erase_tokens (cs : List Char) (p : Position) (m : Margin) :
    (⟨cs, p, m⟩ : Cursor).stream.tokens.map Token.erase =
      (⟨cs, {}, m⟩ : Cursor).stream.tokens.map Token.erase := by
  rw [Cursor.tokens_eq_map_shift cs p m, List.map_map]
  rfl

/-! ### Lines -/

/-- **A line feed separates** the `bareTokens` of two texts. -/
private theorem bareTokens_append_lineFeed (a b : String) :
    bareTokens (a ++ "\n" ++ b) = bareTokens a ++ bareTokens b := by
  rw [bareTokens, tokens_tokenize_append_lineFeed, List.map_append, List.map_map]
  rfl

/-- The `bareTokens` of lines are those of each line. -/
theorem bareTokens_intercalate_lineFeed (ls : List String) :
    bareTokens ("\n".intercalate ls) = ls.flatMap bareTokens := by
  induction ls with
  | nil =>
    rw [String.intercalate_nil]
    decide +kernel
  | cons l ls ih =>
    cases ls with
    | nil => simp
    | cons k ls =>
      rw [String.intercalate_cons_cons, bareTokens_append_lineFeed, ih, ← List.flatMap_cons]

/-! ### Words -/

/-- Where a token stands, no character of it is skipped after another token. -/
private theorem step?_body_eq_none_of_mem {t : Token} (ht : t.Genuine) {x : Char}
    (hx : x ∈ t.literal.toList) : Margin.body.step? x = none :=
  Margin.step?_eq_none_iff.mpr ⟨ht.isBlank_eq_false x hx, by simp, by simp⟩

/-- The text of a token at the front of a text is its first token. -/
private theorem map_erase_tokens_append {t : Token} {rest : List Char} (ht : t.Genuine)
    (p : Position) {m : Margin} (hm : ∀ x ∈ t.literal.toList.head?, m.step? x = none)
    (hrest : EndsWord rest) :
    (⟨t.literal.toList ++ rest, p, m⟩ : Cursor).stream.tokens.map Token.erase =
      t.erase :: (⟨rest, {}, .body⟩ : Cursor).stream.tokens.map Token.erase := by
  cases ht with
  | @word q w hne hw =>
    obtain ⟨x, xs, rfl⟩ := List.exists_cons_of_ne_nil hne
    have hliteral : (Token.ofWord q (x :: xs)).literal.toList = x :: xs := String.toList_ofList
    rw [hliteral] at hm ⊢
    rw [Cursor.tokens_word (hm x rfl) hw hrest, List.map_cons, map_erase_tokens]
    rfl
  | @illegal q x hx =>
    have hliteral : (Token.ofIllegal q x).literal.toList = [x] := String.toList_singleton x
    rw [hliteral] at hm ⊢
    rw [List.singleton_append, Cursor.tokens_illegal (hm x rfl) hx, List.map_cons,
      map_erase_tokens]
    rfl

/-- The texts of tokens with spaces between them, where the first is read as a token. -/
private theorem map_erase_tokens_literals {ts : List Token} (ht : ∀ t ∈ ts, t.Genuine)
    (p : Position) {m : Margin}
    (hm : ∀ t ∈ ts.head?, ∀ x ∈ t.literal.toList.head?, m.step? x = none) :
    (⟨(" ".intercalate (ts.map Token.literal)).toList, p, m⟩ : Cursor).stream.tokens.map
      Token.erase = ts.map Token.erase := by
  induction ts generalizing p m with
  | nil => simp
  | cons t ts ih =>
    have hfirst := ht t (by simp)
    have hstart := hm t rfl
    cases ts with
    | nil =>
      have hlast := map_erase_tokens_append hfirst p hstart endsWord_nil
      rw [List.append_nil] at hlast
      rw [List.map_singleton, String.intercalate_singleton, hlast, Cursor.stream_nil]
      rfl
    | cons u us =>
      -- after the space, the tokens that are left stand on a line that has a token
      have hus : ∀ v ∈ u :: us, v.Genuine := fun v hv => ht v (List.mem_cons_of_mem t hv)
      have hbody : ∀ v ∈ (u :: us).head?, ∀ x ∈ v.literal.toList.head?,
          Margin.body.step? x = none := fun v hv x hx =>
        step?_body_eq_none_of_mem (hus v (List.mem_of_mem_head? hv)) (List.mem_of_mem_head? hx)
      have hspace : Margin.body.step? ' ' = some .body := by decide
      have htext : (" ".intercalate ((t :: u :: us).map Token.literal)).toList =
          t.literal.toList ++ ' ' :: (" ".intercalate ((u :: us).map Token.literal)).toList := by
        rw [List.map_cons, List.map_cons, String.intercalate_cons_cons, String.toList_append,
          String.toList_append, List.append_assoc]
        rfl
      have hend : EndsWord (' ' :: (" ".intercalate ((u :: us).map Token.literal)).toList) :=
        endsWord_cons (by decide) _
      rw [htext, map_erase_tokens_append hfirst p hstart hend, Cursor.stream_trivia hspace,
        ih hus _ hbody]
      rfl

/-- **The tokens of the texts of tokens** in one line are these tokens (`Token.erase`), if the
first one would not open a comment. -/
theorem bareTokens_intercalate_literals {ts : List Token} (ht : ∀ t ∈ ts, t.Genuine)
    (hc : ∀ t ∈ ts.head?, t.literal.toList.head? ≠ some '#') :
    bareTokens (" ".intercalate (ts.map Token.literal)) = ts.map Token.erase := by
  refine map_erase_tokens_literals ht {} fun t htop x hx => ?_
  have hblank := (ht t (List.mem_of_mem_head? htop)).isBlank_eq_false x (List.mem_of_mem_head? hx)
  refine Margin.step?_eq_none_iff.mpr ⟨hblank, by simp, ?_⟩
  rintro - rfl
  exact hc t htop hx

/-- The first word would open a comment at the start of a line. -/
def opensComment (ws : List String) : Bool :=
  (ws.head?.bind (·.toList.head?)) == some '#'

/-- **The tokens of words** in one line are the words. -/
theorem bareTokens_intercalate_space {ws : List String} (hw : ∀ w ∈ ws, IsWord w)
    (hc : opensComment ws = false) : bareTokens (" ".intercalate ws) = ws.map Token.ofText := by
  have hliterals : (ws.map fun w => Token.ofWord {} w.toList).map Token.literal = ws := by
    simp [Function.comp_def, Token.ofWord]
  have hgenuine : ∀ t ∈ ws.map fun w => Token.ofWord {} w.toList, t.Genuine := by
    intro t ht
    obtain ⟨w, hmem, rfl⟩ := List.mem_map.mp ht
    exact .word (mt String.toList_eq_nil_iff.mp (hw w hmem).1) (hw w hmem).2
  have hwords := bareTokens_intercalate_literals hgenuine ?_
  · rw [hliterals] at hwords
    rw [hwords, List.map_map]
    refine List.map_congr_left fun w _ => ?_
    rw [Function.comp_apply, Token.erase_ofWord, String.ofList_toList]
  · intro t ht hx
    rw [Option.mem_def, List.head?_map, Option.map_eq_some_iff] at ht
    obtain ⟨w, hw', rfl⟩ := ht
    rw [Token.ofWord, String.toList_ofList] at hx
    simp [opensComment, hw', hx] at hc

/-- Inside a comment there are no tokens. -/
private theorem tokens_comment {cs : List Char} (hcs : '\n' ∉ cs) (p : Position) :
    (⟨cs, p, .comment⟩ : Cursor).stream.tokens = [] := by
  induction cs generalizing p with
  | nil => simp
  | cons c cs ih =>
    simp only [List.mem_cons, not_or] at hcs
    obtain ⟨hc, hcs⟩ := hcs
    have hstep : Margin.comment.step? c = some .comment := by simp [Margin.step?, Ne.symm hc]
    rw [Cursor.stream_trivia hstep, ih hcs]

/-- Words with spaces between them stand in one line, if each of them does. -/
theorem lineFeed_not_mem_intercalate_space {ws : List String} (hw : ∀ w ∈ ws, '\n' ∉ w.toList) :
    '\n' ∉ (" ".intercalate ws).toList := by
  induction ws with
  | nil => simp
  | cons w ws ih =>
    have hword := hw w (by simp)
    have hrest := ih fun u hu => hw u (List.mem_cons_of_mem w hu)
    cases ws with
    | nil => simpa using hword
    | cons v vs =>
      rw [String.intercalate_cons_cons, String.toList_append, String.toList_append]
      simp only [List.mem_append, not_or]
      exact ⟨⟨hword, by decide⟩, hrest⟩

/-- A line whose first word opens a comment begins with `#`. -/
private theorem exists_eq_of_opensComment {ws : List String} (hc : opensComment ws = true) :
    ∃ cs, (" ".intercalate ws).toList = '#' :: cs := by
  cases ws with
  | nil => simp [opensComment] at hc
  | cons w ws =>
    obtain ⟨cs, hcs⟩ : ∃ cs, w.toList = '#' :: cs := by
      simpa [opensComment, List.head?_eq_some_iff] using hc
    cases ws with
    | nil => exact ⟨cs, by rw [String.intercalate_singleton, hcs]⟩
    | cons v vs =>
      rw [String.intercalate_cons_cons, String.toList_append, String.toList_append, hcs]
      exact ⟨_, rfl⟩

/-- **The tokens of a line** are its words, or none if the first word opens a comment
(`opensComment`). -/
theorem bareTokens_line {ws : List String} (hw : ∀ w ∈ ws, IsWord w) :
    bareTokens (" ".intercalate ws) = if opensComment ws then [] else ws.map Token.ofText := by
  split
  · next hc =>
    obtain ⟨cs, hcs⟩ := exists_eq_of_opensComment hc
    have hline := lineFeed_not_mem_intercalate_space fun w hmem h =>
      absurd ((hw w hmem).2 _ h) (by decide)
    rw [hcs, List.mem_cons, not_or] at hline
    have hstep : Margin.start.step? '#' = some .comment := by decide
    rw [bareTokens, tokenize, Cursor.ofString, hcs, Cursor.stream_trivia hstep,
      tokens_comment hline.2]
    rfl
  · next hc => exact bareTokens_intercalate_space hw (by simpa using hc)

end RequestScript
