import Mathlib.Data.List.Count
import RequestScript.Proofs.Parser.Reports
import RequestScript.Proofs.Token.Layout

/-!
# Where the diagnostics of a parse stand

Every diagnostic of a parse is about one of the tokens of the text, where the end of the text
counts as the last one. Diagnostics are **anchored** in the tokens (`Anchored`) if they come in the
order of their tokens, and no token is blamed more than twice, and the end not more than once.

* **One token**: a phase complains of a token at most twice (`Phase.length_reports_feed_le`), once
  about what is missing before it and once about the token itself; and of the end at most once.
* **All tokens**: so the reports of a phase are anchored in the tokens that it is fed
  (`Phase.exists_anchored`), by induction on the tokens.
* **No request**: a text that does not begin with a method has no other diagnostics than those at
  its first token (`TokenStream.findings_walk_of_not_isMethod`).
-/

namespace RequestScript

/-! ### Diagnostics and their tokens -/

/-- The diagnostic is **about the token**: it names its line and its text. If it does not complain
that there is no request, then it calls an illegal character that, and says of any other token that
something else should stand there. -/
structure Diagnostic.IsAbout (d : Diagnostic) (t : Token) : Prop where
  /-- Diagnostics count lines from one. -/
  line : d.line = t.line + 1
  /-- The text of the token. -/
  literal : d.literal = t.literal
  /-- The fault is one that the token can have. -/
  fault : d.fault = .noRequest ∨
    if t.kind = .illegal then d.fault = .illegalCharacter else ∃ what, d.fault = .expected what

theorem Diagnostic.isAbout_unexpected (t : Token) (e : Expectation) :
    (unexpected t e).IsAbout t := by
  refine ⟨rfl, rfl, .inr ?_⟩
  split
  · next hk => exact if_pos hk
  · next hk => exact ⟨e.name, if_neg hk⟩

theorem Diagnostic.isAbout_noRequest (t : Token) : (noRequest t).IsAbout t :=
  ⟨rfl, rfl, .inl rfl⟩

private theorem Diagnostic.fault_unexpected_ne (t : Token) (e : Expectation) :
    (unexpected t e).fault ≠ .noRequest := by
  rw [unexpected, ofToken]
  split <;> simp

/-- **Anchored diagnostics**: each comes with the index of a token that it is about, the indices
never go back, and none occurs more than twice; that of the end of the text not more than once. -/
structure Anchored (ts : List Token) (as : List (Nat × Diagnostic)) : Prop where
  /-- Each diagnostic is about the token at its index. -/
  about : ∀ a ∈ as, ∃ t, ts[a.1]? = some t ∧ a.2.IsAbout t
  /-- The diagnostics come in the order of their tokens. -/
  sorted : as.Pairwise (·.1 ≤ ·.1)
  /-- No token is blamed more than twice. -/
  count_le : ∀ i, (as.map Prod.fst).count i ≤ 2
  /-- The end is not blamed more than once. -/
  count_end_le : ∀ i t, ts[i]? = some t → t.kind = .endOfInput → (as.map Prod.fst).count i ≤ 1

namespace Anchored

variable {t : Token} {ts : List Token} {as : List (Nat × Diagnostic)} {ds : List Diagnostic}

theorem nil (ts : List Token) : Anchored ts [] :=
  ⟨by simp, .nil, by simp, by simp⟩

/-- The first token is blamed as often as it has diagnostics, and the others as often as before. -/
private theorem count_cons (as : List (Nat × Diagnostic)) (ds : List Diagnostic) (i : Nat) :
    ((ds.map (0, ·) ++ as.map (Prod.map (· + 1) id)).map Prod.fst).count i =
      match i with
      | 0 => ds.length
      | i + 1 => (as.map Prod.fst).count i := by
  have hfirst : (ds.map (0, ·)).map Prod.fst = List.replicate ds.length 0 := by
    simp [Function.comp_def, List.map_const']
  have hrest : (as.map (Prod.map (· + 1) id)).map Prod.fst = (as.map Prod.fst).map (· + 1) := by
    simp
  rw [List.map_append, List.count_append, hfirst, hrest]
  cases i with
  | zero =>
    have hzero : 0 ∉ (as.map Prod.fst).map (· + 1) := by simp
    rw [List.count_replicate_self, List.count_eq_zero.mpr hzero, Nat.add_zero]
  | succ i =>
    have hsucc : i + 1 ∉ List.replicate ds.length 0 := by simp
    rw [List.count_eq_zero.mpr hsucc, Nat.zero_add]
    exact List.count_map_of_injective _ _ (fun _ _ => Nat.succ.inj) i

/-- **One more token** `t` in front, with its own diagnostics `ds`. -/
private theorem cons (h : Anchored ts as) (hds : ∀ d ∈ ds, d.IsAbout t) (htwo : ds.length ≤ 2)
    (hone : t.kind = .endOfInput → ds.length ≤ 1) :
    Anchored (t :: ts) (ds.map (0, ·) ++ as.map (Prod.map (· + 1) id)) where
  about := by
    intro a ha
    rcases List.mem_append.mp ha with ha | ha
    · obtain ⟨d, hd, rfl⟩ := List.mem_map.mp ha
      exact ⟨t, rfl, hds d hd⟩
    · obtain ⟨b, hb, rfl⟩ := List.mem_map.mp ha
      exact h.about b hb
  sorted := by
    refine List.pairwise_append.mpr ⟨?_, ?_, ?_⟩
    · exact List.pairwise_map.mpr (List.pairwise_of_forall fun _ _ => Nat.le_refl 0)
    · exact List.pairwise_map.mpr (h.sorted.imp Nat.succ_le_succ)
    · intro a ha b _
      obtain ⟨d, -, rfl⟩ := List.mem_map.mp ha
      exact Nat.zero_le _
  count_le := by
    intro i
    rw [count_cons]
    cases i with
    | zero => exact htwo
    | succ i => exact h.count_le i
  count_end_le := by
    intro i u hu hk
    rw [count_cons]
    cases i with
    | zero =>
      obtain rfl : t = u := by simpa using hu
      exact hone hk
    | succ i => exact h.count_end_le i u hu hk

/-- **Anchored diagnostics never go back a line**, as their tokens do not: the `line` of each is
that of its token. -/
theorem pairwise_line (h : Anchored ts as) (hts : ts.Pairwise (·.line ≤ ·.line)) :
    as.Pairwise (·.2.line ≤ ·.2.line) := by
  refine h.sorted.imp_of_mem fun {a b} ha hb hab => ?_
  obtain ⟨t, ht, hat⟩ := h.about a ha
  obtain ⟨u, hu, hbu⟩ := h.about b hb
  rw [hat.line, hbu.line]
  refine Nat.succ_le_succ ?_
  rcases Nat.eq_or_lt_of_le hab with heq | hlt
  · rw [heq, hu] at ht
    exact Nat.le_of_eq (congrArg Token.line (Option.some.inj ht).symm)
  · obtain ⟨hi, rfl⟩ := List.getElem?_eq_some_iff.mp ht
    obtain ⟨hj, rfl⟩ := List.getElem?_eq_some_iff.mp hu
    exact List.pairwise_iff_getElem.mp hts _ _ hi hj hlt

end Anchored

/-! ### How often a token is complained of -/

namespace Phase

variable (t : Token)

private theorem length_reports_feedOutside_le : (feedOutside t).reports.length ≤ 1 := by
  rw [feedOutside]
  split
  · simp
  · split <;> simp [Reaction.reports, Action.diagnostic?]

private theorem length_reports_feedResponse_le (r : Request) :
    (feedResponse r t).reports.length ≤ 1 := by
  rw [feedResponse]
  split
  · simp
  · exact length_reports_feedOutside_le t

private theorem length_reports_feedHeaders_le (r : Request) :
    (feedHeaders r t).reports.length ≤ 1 := by
  rw [feedHeaders]
  split
  · split <;> simp
  · exact length_reports_feedResponse_le t r

private theorem length_reports_feedCaptures_le (r : Request) (s : Response) :
    (feedCaptures r s t).reports.length ≤ 1 := by
  rw [feedCaptures]
  split
  · split <;> simp
  · exact length_reports_feedOutside_le t

private theorem length_reports_feedTag_le (r : Request) (s : Response) :
    (feedTag r s t).reports.length ≤ 1 := by
  rw [feedTag]
  split
  · simp
  · exact length_reports_feedOutside_le t

private theorem length_reports_feedUrl_le (m : Token) : (feedUrl m t).reports.length ≤ 2 := by
  rw [feedUrl]
  split
  · simp
  · exact Nat.succ_le_succ (length_reports_feedResponse_le t { span := m.span })

private theorem length_reports_feedStatus_le (r : Request) (m : Token) :
    (feedStatus r m t).reports.length ≤ 2 := by
  rw [feedStatus]
  split
  · split <;> simp
  · exact Nat.succ_le_succ (length_reports_feedOutside_le t)

/-- **A token is complained of at most twice** by `feed`: for what is missing before it, and for
itself. -/
theorem length_reports_feed_le (p : Phase) : (p.feed t).reports.length ≤ 2 := by
  cases p with
  | outside => exact Nat.le_succ_of_le (length_reports_feedOutside_le t)
  | url m => exact length_reports_feedUrl_le t m
  | headers r => exact Nat.le_succ_of_le (length_reports_feedHeaders_le t r)
  | headerValue r key start =>
    rw [feed]
    split
    · simp
    · exact Nat.succ_le_succ (length_reports_feedHeaders_le t r)
  | status r m => exact length_reports_feedStatus_le t r m
  | tag r s => exact Nat.le_succ_of_le (length_reports_feedTag_le t r s)
  | captures r s => exact Nat.le_succ_of_le (length_reports_feedCaptures_le t r s)
  | captureValue r s key start =>
    rw [feed]
    split
    · simp
    · exact Nat.succ_le_succ (length_reports_feedCaptures_le t r s)
  | closing e => exact Nat.le_succ_of_le (length_reports_feedOutside_le t)

variable {t} in
/-- The end is complained of at most once: nothing is wrong with it but what is missing before. -/
theorem length_reports_feed_le_one (p : Phase) (ht : t.kind = .endOfInput) :
    (p.feed t).reports.length ≤ 1 := by
  rw [(feed_of_endsEntry (.inr ht) p).1]
  cases p.place.lacks <;> simp

/-- **The reports of a phase are `Anchored`** in the tokens that it is fed. -/
theorem exists_anchored (p : Phase) (ts : List Token) :
    ∃ as, as.map Prod.snd = p.reports ts ∧ Anchored ts as := by
  induction ts generalizing p with
  | nil => exact ⟨[], rfl, .nil []⟩
  | cons t ts ih =>
    -- what follows the token is anchored in the tokens after it, if there is anything
    obtain ⟨as, has, hanchored⟩ : ∃ as,
        p.reports (t :: ts) = (p.feed t).reports ++ as.map Prod.snd ∧
        Anchored ts as := by
      cases hp : (p.feed t).next with
      | none => exact ⟨[], by rw [reports_cons_of_stop hp, List.map_nil, List.append_nil], .nil ts⟩
      | some q =>
        obtain ⟨as, has, hanchored⟩ := ih q
        exact ⟨as, by rw [reports_cons_of_next hp, has], hanchored⟩
    refine ⟨(p.feed t).reports.map (0, ·) ++ as.map (Prod.map (· + 1) id), ?_,
      hanchored.cons (fun d hd => ?_) (length_reports_feed_le t p) (length_reports_feed_le_one p)⟩
    · rw [has]
      simp [Function.comp_def]
    · obtain ⟨e, rfl⟩ := exists_unexpected_of_mem_reports_feed p t d hd
      exact Diagnostic.isAbout_unexpected t e

end Phase

/-! ### The findings of a text -/

namespace TokenStream

variable {s : TokenStream}

/-- **Without a method at its beginning**, a stream has `findings` at its first token only. -/
theorem findings_walk_of_not_isMethod (h : s.current.kind.isMethod = false) :
    s.walk.findings =
      (if s.current.kind = .endOfInput then [] else [.unexpected s.current .method]) ++
        [.noRequest s.current] := by
  have hreports : s.walk.reports =
      if s.current.kind = .endOfInput then [] else [.unexpected s.current .method] := by
    rw [walk_of_not_isMethod h, Phase.feedOutside, if_neg (by simp [h])]
    split <;> rfl
  rw [Walk.findings, hreports, absence_walk, h]
  rfl

/-- `noRequest` is found if and only if the first token is no method. -/
private theorem exists_noRequest_mem_findings_iff (s : TokenStream) :
    (∃ d ∈ s.walk.findings, d.fault = .noRequest) ↔ s.current.kind.isMethod = false := by
  constructor
  · rintro ⟨d, hd, hfault⟩
    by_contra hm
    rw [findings_walk, if_pos (by simpa using hm), List.append_nil] at hd
    obtain ⟨t, -, e, rfl⟩ := Phase.exists_unexpected_of_mem_reports hd
    exact Diagnostic.fault_unexpected_ne t e hfault
  · intro hm
    exact ⟨.noRequest s.current, by rw [findings_walk_of_not_isMethod hm]; simp, rfl⟩

/-- Without a method at its beginning, a stream has all its findings at its first token. -/
private theorem anchored_of_not_isMethod (h : s.current.kind.isMethod = false) :
    Anchored s.toList (s.walk.findings.map (0, ·)) := by
  have hfindings := findings_walk_of_not_isMethod h
  obtain ⟨ts, hts⟩ := s.exists_toList_eq_cons
  have habout : ∀ d ∈ s.walk.findings, d.IsAbout s.current := by
    intro d hd
    rw [hfindings, List.mem_append, List.mem_singleton] at hd
    rcases hd with hd | rfl
    · split at hd
      · cases hd
      · rw [List.mem_singleton.mp hd]
        exact Diagnostic.isAbout_unexpected s.current .method
    · exact Diagnostic.isAbout_noRequest s.current
  have htwo : s.walk.findings.length ≤ 2 := by
    rw [hfindings]
    split <;> simp
  have hone : s.current.kind = .endOfInput → s.walk.findings.length ≤ 1 := by
    intro hk
    rw [hfindings, if_pos hk]
    simp
  have hcons := (Anchored.nil ts).cons habout htwo hone
  rw [hts]
  simpa using hcons

/-- **The `findings` of a walk are anchored** in its stream. -/
theorem exists_anchored_findings (s : TokenStream) :
    ∃ as, as.map Prod.snd = s.walk.findings ∧ Anchored s.toList as ∧
      (s.current.kind.isMethod = false → as = s.walk.findings.map (0, ·)) := by
  cases hm : s.current.kind.isMethod with
  | true =>
    obtain ⟨as, has, hanchored⟩ := Phase.outside.exists_anchored s.toList
    refine ⟨as, ?_, hanchored, nofun⟩
    rw [has, findings_walk, if_pos hm, List.append_nil]
  | false =>
    exact ⟨s.walk.findings.map (0, ·), by simp [Function.comp_def], anchored_of_not_isMethod hm,
      fun _ => rfl⟩

end TokenStream

/-- **Every diagnostic is anchored** in a token of its text (`Anchored`). The complaint that there
is no request (`noRequest`) stands at the first token, if that is no method, as the last
diagnostic; before it there is then at most one other, which finds that token misplaced. -/
theorem exists_anchored_of_parse_eq_error {source : String} {file : Option String} {r : Rejection}
    (h : parse source file = .error r) :
    ∃ as : List (Nat × Diagnostic), as ≠ [] ∧ as.map Prod.snd = r.diagnostics ∧
      Anchored (tokenize source).toList as ∧
      ((∃ d ∈ r.diagnostics, d.fault = .noRequest) ↔
        (tokenize source).current.kind.isMethod = false) ∧
      ((tokenize source).current.kind.isMethod = false →
        as = (if (tokenize source).current.kind = .endOfInput then []
          else [(0, .unexpected (tokenize source).current .method)]) ++
            [(0, .noRequest (tokenize source).current)]) ∧
      (r.diagnostics.map Diagnostic.line).Pairwise (· ≤ ·) := by
  obtain ⟨hfindings, hne⟩ : r.diagnostics = (tokenize source).walk.findings ∧ r.diagnostics ≠ [] :=
    Parser.diagnostics_of_result_eq_error rfl h
  obtain ⟨as, has, hanchored, hfirst⟩ := (tokenize source).exists_anchored_findings
  rw [← hfindings] at has
  refine ⟨as, ?_, has, hanchored, ?_, fun hm => ?_, ?_⟩
  · rintro rfl
    exact hne has.symm
  · rw [hfindings]
    exact (tokenize source).exists_noRequest_mem_findings_iff
  · rw [hfirst hm, TokenStream.findings_walk_of_not_isMethod hm]
    split <;> rfl
  · rw [← has, List.map_map, List.pairwise_map]
    exact hanchored.pairwise_line (Cursor.pairwise_line_le _)

/-- A colon is taken neither for a value nor for a key, and then an illegal character stops the
parse: two diagnostics are at one token, and the next one further on. And a text without a request,
whose two diagnostics are at its only word. -/
theorem exists_anchored_of_lone_colon :
    (∃ as : List (Nat × Diagnostic),
      as.map Prod.snd =
        [⟨.expected "value", 2, ":"⟩, ⟨.expected "`key:`", 2, ":"⟩,
          ⟨.illegalCharacter, 3, "\x01"⟩] ∧
      Anchored (tokenize "GET u k:\n:\n\x01 x").toList as) ∧
    ∃ as : List (Nat × Diagnostic),
      as = [(0, ⟨.expected "HTTP method", 1, "x"⟩), (0, ⟨.noRequest, 1, "x"⟩)] ∧
      Anchored (tokenize "x").toList as := by
  have hcolon : parse "GET u k:\n:\n\x01 x" none = .error ⟨none,
      [⟨.expected "value", 2, ":"⟩, ⟨.expected "`key:`", 2, ":"⟩,
        ⟨.illegalCharacter, 3, "\x01"⟩]⟩ := by
    decide +kernel
  have hword : parse "x" none = .error ⟨none,
      [⟨.expected "HTTP method", 1, "x"⟩, ⟨.noRequest, 1, "x"⟩]⟩ := by
    decide +kernel
  have htoken : (tokenize "x").current = ⟨.string, "x", 0, ⟨0, 1⟩⟩ := by decide +kernel
  obtain ⟨as, -, has, hanchored, -⟩ := exists_anchored_of_parse_eq_error hcolon
  obtain ⟨bs, -, -, hanchored', -, hfirst, -⟩ := exists_anchored_of_parse_eq_error hword
  rw [htoken] at hfirst
  exact ⟨⟨as, has, hanchored⟩, bs, hfirst rfl, hanchored'⟩

end RequestScript
