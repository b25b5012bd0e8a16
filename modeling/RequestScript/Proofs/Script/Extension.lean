import RequestScript.Proofs.Parser.Anchors
import RequestScript.Proofs.Token.Cutting

/-!
# Text added at the end

A parse reads its tokens once, from the first to the last, and what it says of a token does not
depend on what comes after. So what is added to a text, on a line of its own, takes nothing back:

* **Read to the end**: all diagnostics that are about a token of the text stay as they are, and
  only one may go, that of what the text misses at its end (`exists_complaints_append_of_end`).
* **Stopped before the end**: the longer text is rejected with the same diagnostics
  (`parse_append_eq_error_of_stop`).
-/

namespace RequestScript

variable {a : String} {file : Option String}

/-! ### Texts that are not read to the end -/

/-- **A parse that stops before the end** of its text `a` has rejected it for good: with more text
at its end, it is rejected with the same diagnostics, all of which are about tokens before the
end. -/
theorem parse_append_eq_error_of_stop
    (ha : (Parser.ofString a file).after.stream.current.kind ≠ .endOfInput) :
    ∃ r, parse a file = .error r ∧ (∀ d ∈ r.diagnostics, ∃ t ∈ (tokenize a).tokens, d.IsAbout t) ∧
      ∀ b, parse (a ++ "\n" ++ b) file = .error r := by
  have hstop : (Phase.outside.walk (tokenize a).stop (tokenize a).tokens).rest.current.kind ≠
      .endOfInput := ha
  obtain ⟨t, ts, hts⟩ : ∃ t ts, (tokenize a).tokens = t :: ts := by
    refine List.exists_cons_of_ne_nil fun hnil => ?_
    rw [hnil] at hstop
    exact hstop rfl
  rw [hts] at hstop
  -- the end of the text is not looked at, so it makes no difference what is in its place
  refine ⟨_, parse_eq_error_of_stop hstop ⟨[], ?_⟩ file, fun d hd => ?_,
    fun b => parse_eq_error_of_stop hstop ?_ file⟩
  · rw [hts, List.append_nil]
  · rcases List.mem_append.mp hd with hd | hd
    · obtain ⟨u, hu, e, rfl⟩ := Phase.exists_unexpected_of_mem_reports hd
      exact ⟨u, hts ▸ hu, Diagnostic.isAbout_unexpected u e⟩
    · split at hd
      · cases hd
      · rw [List.mem_singleton.mp hd]
        exact ⟨t, hts ▸ List.mem_cons_self, Diagnostic.isAbout_noRequest t⟩
  · rw [tokens_tokenize_append_lineFeed, hts]
    exact List.prefix_append _ _

/-! ### Texts that are read to the end -/

/-- **A parse that reads its text to the end** complains of the tokens of the text (`ds`), and then
at most once of the end (`rest`); with more text at the end, the complaints of the tokens are the
first ones. -/
theorem exists_complaints_append_of_end
    (ha : (Parser.ofString a file).after.stream.current.kind = .endOfInput) :
    ∃ ds rest, complaints (parse a file) = ds ++ rest ∧ rest.length ≤ 1 ∧
      (∀ d ∈ ds, ∃ t ∈ (tokenize a).tokens, d.IsAbout t) ∧
      (∀ d ∈ rest, d.IsAbout (tokenize a).last) ∧
      ∀ b, ds <+: complaints (parse (a ++ "\n" ++ b) file) := by
  cases hm : (tokenize a).current.kind.isMethod with
  | true =>
    obtain ⟨us, hus⟩ := TokenStream.exists_tokens_eq_cons hm
    have hgenuine : ∀ t ∈ (tokenize a).tokens, t.kind ≠ .endOfInput := fun t ht =>
      Cursor.kind_ne_endOfInput_of_mem ht
    obtain ⟨q, hq⟩ := Phase.exists_reports_append (p := .outside) hgenuine ha
    have hend : Phase.reports q [(tokenize a).last] = (q.feed (tokenize a).last).reports :=
      Phase.reports_cons_of_stop (q.next_feed_of_endOfInput rfl) []
    refine ⟨Phase.outside.reports (tokenize a).tokens, (q.feed (tokenize a).last).reports, ?_,
      Phase.length_reports_feed_le_one q rfl, fun d hd => ?_, fun d hd => ?_, fun b => ?_⟩
    · rw [complaints_parse_of_isMethod hus hm, TokenStream.toList, hq, hend]
    · obtain ⟨t, ht, e, rfl⟩ := Phase.exists_unexpected_of_mem_reports hd
      exact ⟨t, ht, Diagnostic.isAbout_unexpected t e⟩
    · obtain ⟨e, rfl⟩ := Phase.exists_unexpected_of_mem_reports_feed q _ d hd
      exact Diagnostic.isAbout_unexpected _ e
    · rw [complaints_parse, TokenStream.findings_walk, toList_tokenize_append_lineFeed, hq,
        List.append_assoc]
      exact List.prefix_append _ _
  | false =>
    -- the first token stops the parse, so it is the end
    have hcurrent : (tokenize a).current = (tokenize a).last := by
      have hrest : (tokenize a).walk.rest.current.kind = .endOfInput := ha
      rw [TokenStream.walk_of_not_isMethod hm] at hrest
      cases htokens : (tokenize a).tokens with
      | nil => exact TokenStream.get_of_length_le (Nat.le_of_eq (congrArg List.length htokens))
      | cons t ts =>
        rw [TokenStream.current_of_tokens_eq htokens] at hrest
        exact absurd hrest (Cursor.kind_ne_endOfInput_of_mem (htokens ▸ List.mem_cons_self))
    have hfindings := TokenStream.findings_walk_of_not_isMethod hm
    have hlast : (tokenize a).last.kind = .endOfInput := rfl
    rw [hcurrent, if_pos hlast, List.nil_append] at hfindings
    refine ⟨[], [.noRequest (tokenize a).last], ?_, Nat.le_refl 1, by simp, ?_,
      fun b => List.nil_prefix⟩
    · rw [complaints_parse, hfindings, List.nil_append]
    · intro d hd
      rw [List.mem_singleton.mp hd]
      exact Diagnostic.isAbout_noRequest _

/-! ### All texts -/

/-- **Text added at the end takes no diagnostic back.** The diagnostics of a text are first those
about its tokens (`ds`), and then at most one about its end (`rest`); they are told apart by their
texts, since only the end has none. Whatever is added on a new line, the first ones are the first
diagnostics of the longer text; and if the parse stopped before the end, nothing changes. -/
theorem exists_complaints_of_parse_append (a : String) (file : Option String) :
    ∃ ds rest, complaints (parse a file) = ds ++ rest ∧ rest.length ≤ 1 ∧
      (∀ d ∈ ds, ∃ t ∈ (tokenize a).tokens, d.IsAbout t) ∧
      (∀ d ∈ rest, d.IsAbout (tokenize a).last) ∧
      (∀ b, ds <+: complaints (parse (a ++ "\n" ++ b) file)) ∧
      ((Parser.ofString a file).after.stream.current.kind ≠ .endOfInput →
        ∃ r, parse a file = .error r ∧ ∀ b, parse (a ++ "\n" ++ b) file = .error r) := by
  by_cases hend : (Parser.ofString a file).after.stream.current.kind = .endOfInput
  · obtain ⟨ds, rest, hsplit, hone, hds, hrest, happ⟩ := exists_complaints_append_of_end hend
    exact ⟨ds, rest, hsplit, hone, hds, hrest, happ, fun h => absurd hend h⟩
  · obtain ⟨r, hr, hds, happ⟩ := parse_append_eq_error_of_stop hend
    refine ⟨r.diagnostics, [], by rw [hr, complaints, List.append_nil], Nat.zero_le 1, hds,
      by simp,
      fun b => ⟨[], ?_⟩, fun _ => ⟨r, hr, happ⟩⟩
    rw [List.append_nil, happ b, complaints]

/-- A numeral between entries stops the parse, and nothing after it counts. A key at the end misses
its value there, and with more text that is found to be wrong no longer. -/
theorem exists_complaints_of_stray_numeral :
    ((Parser.ofString "GET u x 5" none).after.stream.current.kind ≠ .endOfInput ∧
      ∃ r, parse "GET u x 5" none = .error r ∧ parse "GET u x 5\n\x01" none = .error r) ∧
    ∃ ds rest, [⟨.expected "`key:`", 1, "x"⟩, ⟨.expected "value", 1, ""⟩] = ds ++ rest ∧
      rest.length ≤ 1 ∧ (∀ d ∈ ds, ∃ t ∈ (tokenize "GET u x k:").tokens, d.IsAbout t) ∧
      (∀ d ∈ rest, d.IsAbout (tokenize "GET u x k:").last) ∧
      ds <+: complaints (parse "GET u x k:\nv" none) := by
  have hstop : (Parser.ofString "GET u x 5" none).after.stream.current.kind ≠ .endOfInput := by
    decide +kernel
  have hkey : complaints (parse "GET u x k:" none) =
      [⟨.expected "`key:`", 1, "x"⟩, ⟨.expected "value", 1, ""⟩] := by
    decide +kernel
  obtain ⟨-, -, -, -, -, -, -, hstray⟩ := exists_complaints_of_parse_append "GET u x 5" none
  obtain ⟨ds, rest, hsplit, hone, hds, hrest, happ, -⟩ :=
    exists_complaints_of_parse_append "GET u x k:" none
  obtain ⟨r, hr, hlonger⟩ := hstray hstop
  rw [hkey] at hsplit
  exact ⟨⟨hstop, r, hr, hlonger "\x01"⟩, ds, rest, hsplit, hone, hds, hrest, happ "v"⟩

end RequestScript
