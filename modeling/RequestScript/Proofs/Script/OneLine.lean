import RequestScript.Proofs.Script.Likeness
import RequestScript.Proofs.Parser.Anchors
import RequestScript.Proofs.Token.Words

/-!
# A script in one line

How the words of a text are laid out does not matter: blank space, lines and comments only separate
them. Every text can be written in **one line**, as its tokens with a space between each two of
them (`oneLine`).

* **The same tokens** are read from that line (`bareTokens_oneLine`). No token of it is taken for a
  comment: only the first one stands where a comment could begin, and it stood there before
  (`Cursor.head?_literal_ne`). No two tokens are joined, and none falls apart.
* **The same script**, or the same diagnostics, all of them on line 1 (`parse_oneLine`).
-/

namespace RequestScript

/-- The texts of all tokens in one line, with a space between them. -/
def oneLine (source : String) : String :=
  " ".intercalate ((tokenize source).tokens.map Token.literal)

/-! ### The tokens of the line -/

private theorem Margin.ne_body_of_step? {m m' : Margin} {x : Char} (h : m.step? x = some m')
    (hm : m ≠ .body) : m' ≠ .body := by
  cases m with
  | body => exact absurd rfl hm
  | start =>
    rw [step?] at h
    repeat' split at h
    all_goals cases h
    all_goals simp
  | comment =>
    rw [step?] at h
    split at h <;> cases h <;> simp

/-- Where a comment may begin, no token begins with `#`. -/
private theorem Margin.ne_of_step?_eq_none {m : Margin} {x : Char} (h : m.step? x = none)
    (hm : m ≠ .body) : x ≠ '#' := by
  obtain ⟨-, hcomment, hstart⟩ := step?_eq_none_iff.mp h
  cases m with
  | start => exact hstart rfl
  | comment => exact absurd rfl hcomment
  | body => exact absurd rfl hm

/-- **The first token** of a line does not begin with `#`. -/
private theorem Cursor.head?_literal_ne {c : Cursor} (hc : c.margin ≠ .body) :
    ∀ t ∈ c.stream.tokens.head?, t.literal.toList.head? ≠ some '#' := by
  induction c using reading_induction with
  | atEnd p m => simp
  | trivia x xs p m m' hs ih =>
    rw [stream_trivia hs]
    exact ih (Margin.ne_body_of_step? hs hc)
  | illegal x xs p m hs hx ih =>
    have hsharp := Margin.ne_of_step?_eq_none hs hc
    rw [tokens_illegal hs hx]
    simpa [Token.ofIllegal] using hsharp
  | word x w xs p m hs hw hx ih =>
    have hsharp := Margin.ne_of_step?_eq_none hs hc
    rw [tokens_word hs hw hx]
    simpa [Token.ofWord] using hsharp

/-- **The tokens of the line** (`oneLine`) are those of the text, places apart. -/
private theorem bareTokens_oneLine (source : String) :
    bareTokens (oneLine source) = bareTokens source :=
  bareTokens_intercalate_literals (fun _ ht => Cursor.genuine_of_mem_stream ht)
    (Cursor.head?_literal_ne (c := .ofString source) (by simp [Cursor.ofString]))

/-- The tokens of the line and its end are those of the text, places apart. -/
private theorem map_erase_toList_oneLine (source : String) :
    (tokenize (oneLine source)).toList.map Token.erase =
      (tokenize source).toList.map Token.erase := by
  rw [TokenStream.toList, TokenStream.toList, List.map_append, List.map_append]
  exact congrArg (· ++ [Token.erase (.endOfInput {})]) (bareTokens_oneLine source)

/-- The line is one line. -/
private theorem lineFeed_not_mem_oneLine (source : String) : '\n' ∉ (oneLine source).toList := by
  refine lineFeed_not_mem_intercalate_space fun w hw h => ?_
  obtain ⟨t, ht, rfl⟩ := List.mem_map.mp hw
  exact Cursor.not_mem_of_isBlank (List.mem_append_left _ ht) isBlank_lineFeed h

/-! ### Parsing the line -/

/-- Without a line feed, everything is complained of on line `1`. -/
private theorem relocate_complaints_of_not_mem {source : String} (h : '\n' ∉ source.toList)
    (file : Option String) :
    (complaints (parse source file)).map (Diagnostic.relocate fun _ => 1) =
      complaints (parse source file) := by
  have hline : ∀ t ∈ (tokenize source).toList, t.line = 0 := fun t ht =>
    Cursor.line_eq_of_not_mem (c := .ofString source) h ht
  obtain ⟨as, has, hanchored, -⟩ := (tokenize source).exists_anchored_findings
  rw [complaints_parse, ← has, List.map_map]
  refine List.map_congr_left fun a ha => ?_
  obtain ⟨t, ht, habout⟩ := hanchored.about a ha
  have hone := habout.line
  rw [hline t (List.mem_of_getElem? ht), Nat.zero_add] at hone
  rw [Function.comp_apply, Diagnostic.relocate, ← hone]

/-- **Layout does not matter.** In one line (`oneLine`), a text has the same tokens and is the same
script but for where its parts stand (`Script.erase`); or it is rejected with the same diagnostics,
all of them on line 1. -/
theorem parse_oneLine (source : String) (file : Option String) :
    (tokenize (oneLine source)).toList.map (fun t => (t.kind, t.literal)) =
      (tokenize source).toList.map (fun t => (t.kind, t.literal)) ∧
    ((∃ p q, parse source file = .ok p ∧ parse (oneLine source) file = .ok q ∧ q.erase = p.erase) ∨
      ∃ r, parse source file = .error r ∧ parse (oneLine source) file =
        .error { r with diagnostics := r.diagnostics.map (Diagnostic.relocate fun _ => 1) }) := by
  have htokens : (tokenize source).toList.map (Token.relocate (fun _ => 0) fun _ => 0) =
      (tokenize (oneLine source)).toList.map (Token.relocate (fun _ => 0) fun _ => 0) :=
    (map_erase_toList_oneLine source).symm
  refine ⟨?_, ?_⟩
  · have hpairs := congrArg (List.map fun t : Token => (t.kind, t.literal)) htokens.symm
    rw [List.map_map, List.map_map] at hpairs
    exact hpairs
  · by_cases hnone : complaints (parse source file) = []
    · obtain ⟨p, hp⟩ := exists_parse_eq_ok_iff.mpr hnone
      obtain ⟨q, hq, hpq⟩ := exists_parse_eq_ok_of_alike htokens hp
      exact .inl ⟨p, q, hp, hq, hpq⟩
    · have hcomplaints : (complaints (parse source file)).map (Diagnostic.relocate fun _ => 1) =
          complaints (parse (oneLine source) file) := by
        rw [map_relocate_complaints_eq htokens (fun _ => 1) (fun _ => 1) (fun _ => rfl)
          fun _ => rfl,
          relocate_complaints_of_not_mem (lineFeed_not_mem_oneLine source)]
      have hline : complaints (parse (oneLine source) file) ≠ [] := by
        rw [← hcomplaints]
        exact mt List.map_eq_nil_iff.mp hnone
      refine .inr ⟨_, parse_eq_error hnone, ?_⟩
      rw [hcomplaints]
      exact parse_eq_error hline

end RequestScript
