import RequestScript.Proofs.Parser.Places

/-!
# What a parse reports

* A report is about **its token** (`Phase.exists_unexpected_of_mem_reports`).
* An entry that was begun is closed, wherever the parse stops. So only a text that does not begin
  with a method has **no request** at all (`TokenStream.findings_walk`).
* A **method** is read as the end of the text is (`Phase.feed_of_endsEntry`): what is missing is
  reported, and the entry is over.
* Tokens that are **read to the end** are reported as they are, whatever follows them
  (`Phase.exists_reports_append`); of tokens that are **not read to the end**, what follows is not
  even seen (`Phase.reports_append_of_stop`).
-/

namespace RequestScript

/-! ### Reports stand at their tokens -/

private theorem Phase.exists_unexpected_of_mem_reports_feedOutside {t : Token} :
    ∀ d ∈ (feedOutside t).reports, ∃ e, d = .unexpected t e := by
  rw [feedOutside]
  split
  · simp
  · split
    · simp [Reaction.reports]
    · rintro d hd
      exact ⟨.method, List.mem_singleton.mp hd⟩

private theorem Reaction.Alike.exists_unexpected_of_mem_reports {t u : Token} {r s : Reaction}
    (h : Alike t u r s) : ∀ d ∈ r.reports, ∃ e, d = .unexpected t e := by
  induction h with
  | take => simp
  | close e f => exact Phase.exists_unexpected_of_mem_reports_feedOutside
  | report _ e ih =>
    rw [reports_precededBy_report, List.forall_mem_cons]
    exact ⟨⟨e, rfl⟩, ih⟩

namespace Phase

/-- **A phase complains of the token that it is fed** (`Diagnostic.unexpected`), and of nothing
else. -/
theorem exists_unexpected_of_mem_reports_feed (p : Phase) (t : Token) :
    ∀ d ∈ (p.feed t).reports, ∃ e, d = .unexpected t e := by
  rcases p.outside_or_alike_self t with rfl | ha
  · exact exists_unexpected_of_mem_reports_feedOutside
  · exact ha.exists_unexpected_of_mem_reports

/-- **A report is about one of the tokens** `ts`. -/
theorem exists_unexpected_of_mem_reports {p : Phase} {ts : List Token} {d : Diagnostic}
    (h : d ∈ p.reports ts) : ∃ t ∈ ts, ∃ e, d = .unexpected t e := by
  induction ts generalizing p with
  | nil => simp [reports] at h
  | cons t ts ih =>
    cases hp : (p.feed t).next with
    | none =>
      rw [reports_cons_of_stop hp] at h
      exact ⟨t, by simp, exists_unexpected_of_mem_reports_feed p t d h⟩
    | some q =>
      rw [reports_cons_of_next hp, List.mem_append] at h
      rcases h with h | h
      · exact ⟨t, by simp, exists_unexpected_of_mem_reports_feed p t d h⟩
      · obtain ⟨u, hu, hd⟩ := ih h
        exact ⟨u, List.mem_cons_of_mem t hu, hd⟩

end Phase

/-! ### What was begun is closed -/

/-- Within an entry, a reaction closes the entry, or an entry is open after it. -/
private theorem Reaction.Alike.closes_or_goes_on {t u : Token} {r s : Reaction}
    (h : Alike t u r s) :
    (∃ e, Action.close e ∈ r.actions) ∨ ∃ q, r.next = some q ∧ q.place ≠ .outside := by
  induction h with
  | take h hp => exact .inr ⟨_, rfl, hp⟩
  | close e f => exact .inl ⟨e, by simp [Phase.feedClosing, precededBy]⟩
  | report _ e ih =>
    rcases ih with ⟨f, hf⟩ | hq
    · exact .inl ⟨f, List.mem_cons_of_mem _ hf⟩
    · exact .inr hq

private theorem Walk.entries_ne_nil {w : Walk} {e : Entry} (h : .close e ∈ w.actions) :
    w.entries ≠ [] :=
  List.ne_nil_of_mem (List.mem_filterMap.mpr ⟨_, h, rfl⟩)

/-- **An entry that was begun is closed**, wherever the walk stops: away from `outside`, a walk has
entries. -/
theorem Phase.entries_walk_ne_nil {p : Phase} (hp : p.place ≠ .outside) (stop : Position)
    (ts : List Token) : (p.walk stop ts).entries ≠ [] := by
  have hfeed : ∀ (p : Phase) (t : Token), p.place ≠ .outside →
      (∃ e, Action.close e ∈ (p.feed t).actions) ∨
        ∃ q, (p.feed t).next = some q ∧ q.place ≠ .outside := fun p t hp =>
    (alike_feed ⟨id, id, rfl⟩ (q := p) rfl hp).closes_or_goes_on
  induction ts generalizing p with
  | nil =>
    rw [walk_nil]
    rcases hfeed p (.endOfInput stop) hp with ⟨e, he⟩ | ⟨q, hq, -⟩
    · exact Walk.entries_ne_nil (w := ⟨[], _, _⟩) he
    · rw [p.next_feed_of_endOfInput rfl] at hq
      cases hq
  | cons t ts ih =>
    have ht := hfeed p t hp
    rw [walk]
    split
    · next as hf =>
      rw [hf] at ht
      rcases ht with ⟨e, he⟩ | ⟨q, hq, -⟩
      · exact Walk.entries_ne_nil (w := ⟨[], as, _⟩) he
      · cases hq
    · next as q hf =>
      rw [hf] at ht
      rcases ht with ⟨e, he⟩ | ⟨q', hq, hplace⟩
      · refine Walk.entries_ne_nil (e := e) ?_
        rw [actions_cons]
        exact List.mem_append_left _ he
      · obtain rfl := Option.some.inj hq
        have hrest := ih hplace
        rw [Walk.entries, actions_cons, List.filterMap_append]
        exact List.append_ne_nil_of_right_ne_nil _ hrest

/-! ### The end of an entry -/

/-- The token ends an entry: a method, or the end of the text. -/
def Token.EndsEntry (t : Token) : Prop :=
  t.kind.isMethod = true ∨ t.kind = .endOfInput

theorem Token.EndsEntry.kind_ne {t : Token} (ht : t.EndsEntry) :
    t.kind ≠ .string ∧ t.kind ≠ .number ∧ t.kind ≠ .http ∧ t.kind ≠ .capture ∧
      t.kind ≠ .illegal := by
  cases hk : t.kind <;> simp [EndsEntry, Kind.isMethod, hk] at ht ⊢

/-- The complaint that the token `t` stands where `e` should. -/
def Diagnostic.missing (t : Token) (e : Expectation) : Diagnostic :=
  ofToken t (.expected e.name)

theorem Diagnostic.unexpected_eq_missing {t : Token} (ht : t.kind ≠ .illegal) (e : Expectation) :
    unexpected t e = missing t e := by
  rw [unexpected, if_neg ht, missing]

namespace Phase

variable {t : Token} (ht : t.EndsEntry)

include ht

private theorem reports_feedOutside_of_endsEntry : (feedOutside t).reports = [] := by
  rw [feedOutside]
  split
  · rfl
  · next hm =>
    rw [if_pos (ht.resolve_left hm)]
    rfl

/-- **A method is read as the end of the text is**: what the place of the phase `lacks` is
reported, and the token is then read as by `feedOutside`. -/
theorem feed_of_endsEntry (p : Phase) :
    (p.feed t).reports = (p.place.lacks.map (.missing t)).toList ∧
      (p.feed t).next = (feedOutside t).next := by
  have hreports := reports_feedOutside_of_endsEntry ht
  obtain ⟨hs, hn, hh, hc, hi⟩ := ht.kind_ne
  have hv : t.isValue = false := by simp [Token.isValue, hs, hn]
  cases p <;>
    simp [feed, feedUrl, feedHeaders, feedResponse, feedStatus, feedTag, feedCaptures,
      feedClosing, place, Place.lacks, hs, hn, hh, hc, hv, hreports,
      Diagnostic.unexpected_eq_missing hi]

/-- The reports of an entry that ends, and of what comes after it. -/
theorem reports_of_endsEntry (p : Phase) (ts : List Token) :
    p.reports (t :: ts) =
      (p.place.lacks.map (.missing t)).toList ++ outside.reports (t :: ts) := by
  obtain ⟨hreports, hnext⟩ := feed_of_endsEntry ht p
  obtain ⟨houtside, -⟩ := feed_of_endsEntry ht .outside
  rw [reports, reports, hreports, hnext, houtside]
  rfl

end Phase

/-! ### Tokens read to the end -/

namespace Phase

variable {p : Phase} {stop : Position} {t : Token} {ts : List Token}

/-- A walk whose `rest` is at the end of the text takes its first token. -/
theorem exists_next_of_walk_rest (ht : t.kind ≠ .endOfInput)
    (h : (p.walk stop (t :: ts)).rest.current.kind = .endOfInput) :
    ∃ q, (p.feed t).next = some q ∧ (q.walk stop ts).rest.current.kind = .endOfInput := by
  rw [walk] at h
  split at h
  · exact absurd h ht
  · next as q hf => exact ⟨q, by rw [hf], h⟩

/-- `feedOutside` takes nothing but methods. -/
theorem isMethod_of_next_feedOutside {q : Phase} (h : (feedOutside t).next = some q) :
    t.kind.isMethod = true := by
  by_cases hm : t.kind.isMethod = true
  · exact hm
  · rw [feedOutside, if_neg hm] at h
    split at h <;> cases h

/-- **Tokens that are read to the end** are reported as they are, whatever follows them; what
follows is reported by the phase `q`. -/
theorem exists_reports_append (hts : ∀ t ∈ ts, t.kind ≠ .endOfInput)
    (h : (p.walk stop ts).rest.current.kind = .endOfInput) :
    ∃ q : Phase, ∀ us, p.reports (ts ++ us) = p.reports ts ++ q.reports us := by
  induction ts generalizing p with
  | nil => exact ⟨p, fun us => rfl⟩
  | cons t ts ih =>
    obtain ⟨q, hq, hrest⟩ := exists_next_of_walk_rest (hts t (by simp)) h
    obtain ⟨r, hr⟩ := ih (fun u hu => hts u (List.mem_cons_of_mem t hu)) hrest
    refine ⟨r, fun us => ?_⟩
    rw [List.cons_append, reports_cons_of_next hq, reports_cons_of_next hq, hr, List.append_assoc]

/-! ### Tokens not read to the end -/

private theorem reports_feedOutside_ne_nil (h : (feedOutside t).next = none)
    (ht : t.kind ≠ .endOfInput) : (feedOutside t).reports ≠ [] := by
  rw [feedOutside] at h ⊢
  split at h
  · simp at h
  · next hm =>
    rw [if_neg hm, if_neg ht]
    simp [Reaction.reports, Action.diagnostic?]

private theorem reports_ne_nil_of_alike {u : Token} {r s : Reaction} (ha : Reaction.Alike t u r s)
    (h : r.next = none) (ht : t.kind ≠ .endOfInput) : r.reports ≠ [] := by
  induction ha with
  | take => simp at h
  | close e f => exact reports_feedOutside_ne_nil h ht
  | report => simp

/-- A token before the end that stops a parse is complained of. -/
private theorem reports_feed_ne_nil (h : (p.feed t).next = none) (ht : t.kind ≠ .endOfInput) :
    (p.feed t).reports ≠ [] := by
  rcases p.outside_or_alike_self t with rfl | ha
  · exact reports_feedOutside_ne_nil h ht
  · exact reports_ne_nil_of_alike ha h ht

/-- **A walk that stops before the end** does not see what follows (`us`), and it has
complained. -/
theorem reports_append_of_stop (h : (p.walk stop ts).rest.current.kind ≠ .endOfInput) :
    p.reports ts ≠ [] ∧ ∀ us, p.reports (ts ++ us) = p.reports ts := by
  induction ts generalizing p with
  | nil =>
    rw [walk_nil] at h
    exact absurd rfl h
  | cons t ts ih =>
    rw [walk] at h
    split at h
    · next as hf =>
      have hnext : (p.feed t).next = none := by rw [hf]
      refine ⟨?_, fun us => ?_⟩
      · rw [reports_cons_of_stop hnext]
        exact reports_feed_ne_nil hnext h
      · rw [List.cons_append, reports_cons_of_stop hnext, reports_cons_of_stop hnext]
    · next as q hf =>
      have hnext : (p.feed t).next = some q := by rw [hf]
      obtain ⟨hne, happ⟩ := ih h
      refine ⟨?_, fun us => ?_⟩
      · rw [reports_cons_of_next hnext]
        exact List.append_ne_nil_of_right_ne_nil _ hne
      · rw [List.cons_append, reports_cons_of_next hnext, reports_cons_of_next hnext, happ]

end Phase

/-! ### The findings of a walk -/

namespace TokenStream

variable {s : TokenStream}

/-- A stream begins with its `current` token. -/
theorem exists_toList_eq_cons (s : TokenStream) : ∃ ts, s.toList = s.current :: ts := by
  obtain ⟨tokens, stop⟩ := s
  cases tokens with
  | nil => exact ⟨[], rfl⟩
  | cons t ts => exact ⟨_, rfl⟩

/-- A stream that begins with a method has tokens. -/
theorem exists_tokens_eq_cons (h : s.current.kind.isMethod = true) :
    ∃ us, s.tokens = s.current :: us := by
  cases htokens : s.tokens with
  | nil => simp [current, get, htokens, last, Token.endOfInput, Token.Kind.isMethod] at h
  | cons u us => exact ⟨us, by rw [current_of_tokens_eq htokens]⟩

/-- A walk over a stream that does not begin with a method stops at once. -/
theorem walk_of_not_isMethod (h : s.current.kind.isMethod = false) :
    s.walk = ⟨[], (Phase.feedOutside s.current).actions, s⟩ := by
  obtain ⟨tokens, stop⟩ := s
  cases tokens with
  | nil => rfl
  | cons t ts =>
    rw [walk, Phase.walk]
    split
    · next as hf =>
      have hfeed : Phase.feedOutside t = ⟨as, none⟩ := hf
      rw [current, get, List.getElem?_cons_zero, Option.getD_some, hfeed]
    · next as q hf =>
      have hm : t.kind.isMethod = true :=
        Phase.isMethod_of_next_feedOutside (congrArg Reaction.next hf)
      have hm' : t.kind.isMethod = false := h
      rw [hm] at hm'
      cases hm'

/-- There is **no request** (`absence`) only if the first token is no method. -/
theorem absence_walk (s : TokenStream) :
    s.walk.absence = if s.current.kind.isMethod then [] else [.noRequest s.current] := by
  split
  · next hm =>
    obtain ⟨us, hus⟩ := exists_tokens_eq_cons hm
    have hfeed : Phase.outside.feed s.current = .take (.url s.current) := if_pos hm
    have hentries : s.walk.entries ≠ [] := by
      rw [walk, hus, Phase.walk, hfeed]
      exact Phase.entries_walk_ne_nil (p := .url s.current) (by simp [Phase.place]) _ us
    rw [Walk.absence, if_neg (by simpa using hentries)]
  · next hm =>
    have hentries : s.walk.entries = [] := by
      rw [walk_of_not_isMethod (by simpa using hm), Phase.feedOutside, if_neg hm]
      split <;> rfl
    rw [Walk.absence, if_pos (by simp [hentries]), walk_of_not_isMethod (by simpa using hm)]

/-- **The `findings` of a walk** are the reports of its tokens and of the end, and then, if the
first token is no method, that there is no request. -/
theorem findings_walk (s : TokenStream) :
    s.walk.findings =
      Phase.outside.reports s.toList ++
        if s.current.kind.isMethod then [] else [.noRequest s.current] := by
  have hreports : s.walk.reports = Phase.outside.reports s.toList := Phase.reports_walk ..
  rw [Walk.findings, hreports, absence_walk]

end TokenStream

/-! ### The diagnostics of a result -/

/-- The diagnostics of a result; none if it is a script. -/
def complaints : Except Rejection Script → List Diagnostic
  | .ok _ => []
  | .error r => r.diagnostics

theorem complaints_parse (source : String) (file : Option String) :
    complaints (parse source file) = (tokenize source).walk.findings := by
  have hafter : (Parser.ofString source file).after.diagnostics =
      (tokenize source).walk.findings := rfl
  rw [parse, Parser.result, hafter]
  split
  · next h => exact (List.isEmpty_iff.mp h).symm
  · rfl

/-- A text is a script if it has no `complaints`. -/
theorem exists_parse_eq_ok_iff {source : String} {file : Option String} :
    (∃ s, parse source file = .ok s) ↔ complaints (parse source file) = [] := by
  constructor
  · rintro ⟨s, hs⟩
    rw [hs, complaints]
  · intro h
    rw [complaints_parse] at h
    exact ⟨_, if_pos (List.isEmpty_iff.mpr h)⟩

/-- A text that is complained of is rejected, with its `complaints`. -/
theorem parse_eq_error {source : String} {file : Option String}
    (h : complaints (parse source file) ≠ []) :
    parse source file = .error ⟨file, complaints (parse source file)⟩ := by
  have hresult : parse source file =
      if (tokenize source).walk.findings.isEmpty then
        .ok (.ofEntries (tokenize source).walk.entries)
      else .error ⟨file, (tokenize source).walk.findings⟩ := rfl
  rw [complaints_parse] at h ⊢
  rw [hresult, if_neg (by simpa using h)]

/-- A text is rejected with what is complained of, and there is something. -/
theorem eq_of_parse_eq_error {source : String} {file : Option String} {r : Rejection}
    (h : parse source file = .error r) :
    complaints (parse source file) ≠ [] ∧ r = ⟨file, complaints (parse source file)⟩ := by
  have hne : complaints (parse source file) ≠ [] := by
    intro hnil
    obtain ⟨s, hs⟩ := exists_parse_eq_ok_iff.mpr hnil
    cases h.symm.trans hs
  exact ⟨hne, Except.error.inj (h.symm.trans (parse_eq_error hne))⟩

/-- **If a parse stops before the end** of some tokens `ts` at the beginning of a text, the text is
rejected, and these tokens alone tell with which diagnostics. -/
theorem parse_eq_error_of_stop {t : Token} {ts : List Token} {stop : Position}
    (h : (Phase.outside.walk stop (t :: ts)).rest.current.kind ≠ .endOfInput) {source : String}
    (hsource : t :: ts <+: (tokenize source).tokens) (file : Option String) :
    parse source file = .error ⟨file,
      Phase.outside.reports (t :: ts) ++ if t.kind.isMethod then [] else [.noRequest t]⟩ := by
  obtain ⟨hne, happ⟩ := Phase.reports_append_of_stop h
  obtain ⟨us, hus⟩ := hsource
  have hcurrent : (tokenize source).current = t := TokenStream.current_of_tokens_eq hus.symm
  have hcomplaints : complaints (parse source file) =
      Phase.outside.reports (t :: ts) ++ if t.kind.isMethod then [] else [.noRequest t] := by
    rw [complaints_parse, TokenStream.findings_walk, hcurrent, TokenStream.toList, ← hus,
      List.append_assoc, happ]
  rw [parse_eq_error (hcomplaints ▸ List.append_ne_nil_of_left_ne_nil hne _), hcomplaints]

/-- **The `complaints` about a text that begins with a method** are the reports of its tokens and
of the end: there is an entry. -/
theorem complaints_parse_of_isMethod {source : String} {m : Token} {ts : List Token}
    (h : (tokenize source).tokens = m :: ts) (hm : m.kind.isMethod = true)
    (file : Option String) :
    complaints (parse source file) =
      Phase.outside.reports (tokenize source).toList := by
  rw [complaints_parse, TokenStream.findings_walk, TokenStream.current_of_tokens_eq h, if_pos hm,
    List.append_nil]

end RequestScript
