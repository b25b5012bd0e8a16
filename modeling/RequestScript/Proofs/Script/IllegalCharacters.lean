import RequestScript.Proofs.Parser.Stopping
import RequestScript.Proofs.Text.Covering
import RequestScript.Proofs.Token.LastLine

/-!
# Illegal characters

An illegal character that stands in no comment is a token, and no phase of a parse takes that
token. So it is a **hard stop**: what comes after it is not even looked at
(`exists_parse_eq_error_of_illegal`).

Whether a character is such a token is decided by the text before it. What a reader has seen of a
line tells if it stands in a comment (`Margin.afterAll_start`), and a word is not longer or shorter
for an illegal character that follows it (`tokens_tokenize_append_illegal`). Nor does anything else
in a text become an illegal token (`exists_illegal_token_iff`).
-/

namespace RequestScript

/-! ### Comments -/

namespace Margin

/-- An illegal character is no trivia (`step?`) if it stands in no comment. -/
private theorem step?_eq_none_iff_of_isIllegal {m : Margin} {x : Char} (hx : isIllegal x = true) :
    m.step? x = none ↔ m ≠ .comment := by
  have hsharp : x ≠ '#' := by
    rintro rfl
    exact absurd hx (by decide)
  simp [step?_eq_none_iff, isBlank_of_isIllegal hx, hsharp]

end Margin

/-! ### Illegal characters as tokens -/

variable {a b : String} {c : Char}

private theorem ofString_append_singleton (a b : String) (c : Char) :
    Cursor.ofString (a ++ String.singleton c ++ b) = ⟨a.toList ++ c :: b.toList, {}, .start⟩ := by
  simp [Cursor.ofString]

/-- The `literal` of an illegal token is an illegal character. -/
private theorem Token.Genuine.isIllegal {t : Token} (h : t.Genuine) (hk : t.kind = .illegal)
    {x : Char} (hx : t.literal.toList.head? = some x) : RequestScript.isIllegal x = true := by
  cases h with
  | word => exact absurd hk (Kind.ofWord_ne_illegal _)
  | @illegal p y hy =>
    obtain rfl : y = x := by simpa [ofIllegal] using hx
    exact hy

/-- A reader takes the character `c` after the text `a` for a token if it stands in no comment. -/
private theorem step?_afterAll_start_eq_none_iff (hc : isIllegal c = true) :
    (Margin.start.afterAll a.toList).step? c = none ↔ isComment (lastLine a.toList) = false := by
  rw [Margin.step?_eq_none_iff_of_isIllegal hc, Margin.afterAll_start, Ne,
    Margin.ofLine_eq_comment_iff, Bool.not_eq_true]

/-- **An illegal character is a token** (`Token.ofIllegal`), unless it stands in a comment. The
tokens before it are those of the text before it. -/
private theorem tokens_tokenize_append_illegal (hc : isIllegal c = true)
    (ha : isComment (lastLine a.toList) = false) (b : String) :
    ∃ us, (tokenize (a ++ String.singleton c ++ b)).tokens =
      (tokenize a).tokens ++ .ofIllegal (Position.afterAll {} a.toList) c :: us := by
  have hword : isWordChar c = false := by simp [isWordChar, hc]
  have happ := Cursor.tokens_append ⟨a.toList, {}, .start⟩ (endsWord_cons hword b.toList)
  rw [Cursor.tokens_illegal ((step?_afterAll_start_eq_none_iff hc).mpr ha) hc,
    ← ofString_append_singleton] at happ
  exact ⟨_, happ⟩

/-- **Which characters are illegal tokens**: those that satisfy `isIllegal` and stand in no
comment. What comes after them makes no difference. -/
theorem exists_illegal_token_iff :
    (∃ t ∈ (tokenize (a ++ String.singleton c ++ b)).tokens,
      t.kind = .illegal ∧ t.span.start = byteLength a.toList) ↔
    isIllegal c = true ∧ isComment (lastLine a.toList) = false := by
  constructor
  · rintro ⟨t, ht, hk, hstart⟩
    obtain ⟨ts, us, hts⟩ := List.append_of_mem ht
    obtain ⟨before, x, xs, hrest, hs, hx, hcut, -⟩ := Cursor.exists_cut_before hts
    rw [ofString_append_singleton] at hrest hs hcut
    -- the token starts where the character stands
    have hlen : byteLength a.toList = byteLength before := by
      rw [← hstart, hcut, Position.offset_afterAll]
      exact Nat.zero_add _
    obtain ⟨rfl, hcons⟩ := append_inj_of_byteLength_eq hrest hlen
    obtain ⟨rfl, -⟩ := List.cons.inj hcons
    have hc := (Cursor.genuine_of_mem_stream ht).isIllegal hk hx
    exact ⟨hc, (step?_afterAll_start_eq_none_iff hc).mp hs⟩
  · rintro ⟨hc, ha⟩
    obtain ⟨us, hus⟩ := tokens_tokenize_append_illegal hc ha b
    refine ⟨_, hus ▸ List.mem_append_right _ List.mem_cons_self, rfl, ?_⟩
    exact (Position.offset_afterAll {} a.toList).trans (Nat.zero_add _)

/-! ### The hard stop -/

namespace TokenStream

variable {s : TokenStream}

/-- **An illegal token is not taken**, and no token after it: the `steps` of a walk end before
it. -/
private theorem length_steps_walk_le_of_illegal {i : Nat} (h : (s.get i).kind = .illegal) :
    s.walk.steps.length ≤ i :=
  Nat.le_of_not_lt fun hlt => (kind_get_of_lt hlt).2 h

/-- So a walk over tokens of which one is illegal stops before their end. -/
private theorem kind_current_rest_walk_ne (hs : ∀ t ∈ s.tokens, t.kind ≠ .endOfInput) {t : Token}
    (ht : t ∈ s.tokens) (hk : t.kind = .illegal) : s.walk.rest.current.kind ≠ .endOfInput := by
  obtain ⟨i, hi, rfl⟩ := List.mem_iff_getElem.mp ht
  have hle := length_steps_walk_le_of_illegal ((get_of_lt hi).symm ▸ hk)
  have hlt : s.walk.steps.length < s.tokens.length := by omega
  rw [rest_walk, current_drop, get_of_lt hlt]
  exact hs _ (List.getElem_mem hlt)

end TokenStream

/-- **Texts that begin with the same tokens** `ts` are rejected alike if one of these is
illegal. -/
private theorem exists_parse_eq_error_of_prefix {ts : List Token}
    (hts : ∀ t ∈ ts, t.kind ≠ .endOfInput) {u : Token} (hu : u ∈ ts) (hk : u.kind = .illegal)
    (file : Option String) :
    ∃ r, ∀ source, ts <+: (tokenize source).tokens → parse source file = .error r := by
  obtain ⟨t, ts, rfl⟩ := List.exists_cons_of_ne_nil (List.ne_nil_of_mem hu)
  have hstop := TokenStream.kind_current_rest_walk_ne (s := ⟨t :: ts, {}⟩) hts hu hk
  exact ⟨_, fun source hsource => parse_eq_error_of_stop hstop hsource file⟩

/-- **A text with an illegal token** is no script. -/
theorem exists_parse_eq_error_of_mem {source : String} {t : Token}
    (ht : t ∈ (tokenize source).tokens) (hk : t.kind = .illegal) (file : Option String) :
    ∃ r, parse source file = .error r := by
  obtain ⟨r, hr⟩ := exists_parse_eq_error_of_prefix
    (fun u hu => Cursor.kind_ne_endOfInput_of_mem hu) ht hk file
  exact ⟨r, hr source (List.prefix_refl _)⟩

/-- **An illegal character is a hard stop.** If the character `c` after the text `a` is an illegal
token, it is an illegal character and stands in no comment. Then whatever text follows it, the
whole is rejected, and always with the same diagnostics. No parse takes a token after the text `a`,
or an illegal token. -/
theorem exists_parse_eq_error_of_illegal
    (h : ∃ t ∈ (tokenize (a ++ String.singleton c ++ b)).tokens,
      t.kind = .illegal ∧ t.span.start = byteLength a.toList) (file : Option String) :
    (isIllegal c = true ∧ isComment (lastLine a.toList) = false) ∧
    ∃ r, ∀ b', parse (a ++ String.singleton c ++ b') file = .error r ∧
      ∃ n ≤ (tokenize a).tokens.length,
        (Parser.ofString (a ++ String.singleton c ++ b') file).after.stream =
          (tokenize (a ++ String.singleton c ++ b')).drop n ∧
        ∀ i < n, ((tokenize (a ++ String.singleton c ++ b')).get i).kind ≠ .illegal := by
  obtain ⟨hc, ha⟩ := exists_illegal_token_iff.mp h
  have htokens := tokens_tokenize_append_illegal hc ha
  -- all the texts begin with the tokens of `a` and the illegal one
  have hbegin : ∀ b', (tokenize a).tokens ++ [.ofIllegal (Position.afterAll {} a.toList) c] <+:
      (tokenize (a ++ String.singleton c ++ b')).tokens := by
    intro b'
    obtain ⟨us, hus⟩ := htokens b'
    exact ⟨us, by rw [hus, List.append_assoc, List.singleton_append]⟩
  have hstop : ∀ b', ((tokenize (a ++ String.singleton c ++ b')).get
      (tokenize a).tokens.length).kind = .illegal := by
    intro b'
    obtain ⟨us, hus⟩ := htokens b'
    rw [TokenStream.get, hus, List.getElem?_append_right (Nat.le_refl _), Nat.sub_self]
    rfl
  obtain ⟨r, hr⟩ := exists_parse_eq_error_of_prefix
    (fun t ht => Cursor.kind_ne_endOfInput_of_mem ((hbegin b).subset ht))
    (List.mem_append_right _ (List.mem_singleton_self _)) rfl file
  exact ⟨⟨hc, ha⟩, r, fun b' => ⟨hr _ (hbegin b'), _,
    TokenStream.length_steps_walk_le_of_illegal (hstop b'), TokenStream.rest_walk _,
    fun i hi => (TokenStream.kind_get_of_lt hi).2⟩⟩

/-- A control character glued to a word: the texts go on as differently as they may, and are
rejected with the same diagnostics. -/
theorem exists_parse_eq_error_of_glued :
    ∃ r, parse ("GET u k:" ++ String.singleton '\x01' ++ "\nPOST v 5 :") none = .error r ∧
      parse ("GET u k:" ++ String.singleton '\x01' ++ " v") none = .error r := by
  have hillegal : ∃ t ∈ (tokenize ("GET u k:" ++ String.singleton '\x01' ++ " v")).tokens,
      t.kind = .illegal ∧ t.span.start = byteLength "GET u k:".toList :=
    exists_illegal_token_iff.mpr ⟨by decide, by decide +kernel⟩
  obtain ⟨-, r, hr⟩ := exists_parse_eq_error_of_illegal hillegal none
  exact ⟨r, (hr _).1, (hr _).1⟩

end RequestScript
