import RequestScript.Grammar
import RequestScript.Parser.Basic

/-!
# What a phase takes, and what it complains of

`Phase.feed` is told here by what it does to a single token. A phase **takes** a token that may
come next, in the words of the grammar (`Phase.Takes`); it **ends** at the end of the text if
nothing is missing (`Phase.Ends`); and in all other cases it **complains**, of something that it
would have taken (`Phase.takes_or_ends_or_complains`).

From single tokens this goes on to runs. A phase **passes** tokens that are taken one after
another (`Phase.Passes`). A walk over any tokens passes them all and ends, or it passes them up to
the first of which a phase complains (`Phase.accepts_or_complains`).
-/

namespace RequestScript

open Grammar

namespace Grammar

/-! ### The tokens of the grammar as the phases tell them -/

private theorem isKey_iff {t : Token} {key : String} :
    IsKey t key ↔ t.kind = .string ∧ t.key? = some key := by
  rw [Token.key?_eq_some_iff]
  rfl

theorem isValue_iff {t : Token} : IsValue t ↔ t.isValue = true :=
  Token.isValue_iff.symm

theorem isStatus_iff {t : Token} {code : UInt16} : IsStatus t code ↔ t.status? = some code :=
  Token.status?_eq_some_iff.symm

theorem meets_method_iff {t : Token} : Meets t .method ↔ t.kind.isMethod = true := by
  cases h : t.kind <;> simp [Meets, Token.Kind.isMethod, h]

end Grammar

namespace Phase

/-! ### One token -/

/-- **Nothing is missing** in the phase: if the text ends here, the entries `es` are complete. -/
inductive Ends : Phase → List Entry → Prop where
  /-- No entry is open. -/
  | outside : Ends .outside []
  /-- The response may be absent. -/
  | headers {r : Request} : Ends (.headers r) [.ofParts r {}]
  /-- The tag may be absent. -/
  | tag {r : Request} {s : Response} : Ends (.tag r s) [.ofParts r s]
  /-- There may be no more captures. -/
  | captures {r : Request} {s : Response} : Ends (.captures r s) [.ofParts r s]
  /-- The entry was complete before. -/
  | closing {e : Entry} : Ends (.closing e) [e]

/-- **The token is taken** as what may come next in the phase; the entries that it closes, and
the phase after it. -/
inductive Takes : Phase → Token → List Entry → Phase → Prop where
  /-- A method opens an entry wherever the one before is complete. -/
  | method {p : Phase} {es : List Entry} {t : Token} (hp : p.Ends es) (ht : Meets t .method) :
      Takes p t es (.url t)
  /-- A URL completes the request line. -/
  | url {m t : Token} (ht : Meets t .url) :
      Takes (.url m) t [] (.headers
        { endpoint := ⟨m.literal, t.literal, .ofTokens [m, t]⟩, span := .ofTokens [m, t] })
  /-- The key of a header. -/
  | headerKey {r : Request} {t : Token} {key : String} (ht : IsKey t key) :
      Takes (.headers r) t [] (.headerValue r key t.span.start)
  /-- The value of a header. -/
  | headerValue {r : Request} {key : String} {start : Nat} {t : Token} (ht : IsValue t) :
      Takes (.headerValue r key start) t [] (.headers (r.addHeader (field key start t)))
  /-- The marker of a response. -/
  | marker {r : Request} {t : Token} (ht : t.kind = .http) :
      Takes (.headers r) t [] (.status r t)
  /-- The status code. -/
  | status {r : Request} {m t : Token} {code : UInt16} (ht : IsStatus t code) :
      Takes (.status r m) t [] (.tag r
        { protocol := m.literal, status := code, span := .ofTokens [m, t] })
  /-- The tag of the captures. -/
  | tag {r : Request} {s : Response} {t : Token} (ht : t.kind = .capture) :
      Takes (.tag r s) t [] (.captures r (s.extend t.span.stop))
  /-- The key of a capture. -/
  | captureKey {r : Request} {s : Response} {t : Token} {key : String} (ht : IsKey t key) :
      Takes (.captures r s) t [] (.captureValue r s key t.span.start)
  /-- The value of a capture. -/
  | captureValue {r : Request} {s : Response} {key : String} {start : Nat} {t : Token}
      (ht : IsValue t) :
      Takes (.captureValue r s key start) t [] (.captures r (s.addCapture (field key start t)))

/-- **The phase complains** that the token is not what it should be; entries may be closed
before. -/
def Complains (p : Phase) (t : Token) (e : Expectation) : Prop :=
  ∃ (es : List Entry) (as : List Action),
    (p.feed t).actions = es.map .close ++ .report (.unexpected t e) :: as

/-- A method is no word, marker or tag: it is read as by `feedOutside`. -/
private theorem feed_of_ends {p : Phase} {es : List Entry} {t : Token} (hp : p.Ends es)
    (hs : t.kind ≠ .string) (hh : t.kind ≠ .http) (hc : t.kind ≠ .capture) :
    p.feed t = ⟨es.map .close ++ (feedOutside t).actions, (feedOutside t).next⟩ := by
  cases hp <;>
    simp [feed, feedHeaders, feedResponse, feedTag, feedCaptures, feedClosing, hs, hh, hc,
      Reaction.precededBy]

/-- A token that is taken closes its entries `es` and causes nothing else. -/
theorem Takes.feed_eq {p q : Phase} {t : Token} {es : List Entry} (h : p.Takes t es q) :
    p.feed t = ⟨es.map .close, some q⟩ := by
  cases h with
  | method hp ht =>
    -- what no other construct takes goes on to `feedOutside`, whatever the phase
    have hk := ht
    rw [meets_method_iff] at hk
    rw [feed_of_ends hp (by rintro h; simp [h, Token.Kind.isMethod] at hk)
      (by rintro h; simp [h, Token.Kind.isMethod] at hk)
      (by rintro h; simp [h, Token.Kind.isMethod] at hk)]
    simp [feedOutside, hk, Reaction.take]
  | url ht => simp_all [feed, feedUrl, Meets, Reaction.take, Span.ofTokens]
  | headerKey ht =>
    rw [isKey_iff] at ht
    simp [feed, feedHeaders, ht.1, ht.2, Reaction.take]
  | headerValue ht =>
    rw [isValue_iff] at ht
    simp [feed, ht, Reaction.take]
  | marker ht => simp [feed, feedHeaders, feedResponse, ht, Reaction.take]
  | status ht =>
    have hk := ht.1
    rw [isStatus_iff] at ht
    simp [feed, feedStatus, hk, ht, Reaction.take, Span.ofTokens]
  | tag ht => simp [feed, feedTag, ht, Reaction.take]
  | captureKey ht =>
    rw [isKey_iff] at ht
    simp [feed, feedCaptures, ht.1, ht.2, Reaction.take]
  | captureValue ht =>
    rw [isValue_iff] at ht
    simp [feed, ht, Reaction.take]

/-- A phase in which nothing is missing (`Ends`) closes its entries at the end of the text. -/
theorem Ends.feed_eq {p : Phase} {es : List Entry} {t : Token} (hp : p.Ends es)
    (ht : t.kind = .endOfInput) : p.feed t = ⟨es.map .close, none⟩ := by
  rw [feed_of_ends hp (by simp [ht]) (by simp [ht]) (by simp [ht])]
  simp [feedOutside, ht, Token.Kind.isMethod]

/-- What can happen to a token: it is taken, it is the end of the text in a phase that ends, or
the phase complains and would have taken what it misses. -/
def Decides (p : Phase) (t : Token) : Prop :=
  (∃ es q, p.Takes t es q) ∨ (∃ es, p.Ends es ∧ t.kind = .endOfInput) ∨
    ∃ e, p.Complains t e ∧ ∀ u, Meets u e → ∃ es q, p.Takes u es q

/-- Where an entry is complete, a token that is read as by `feedOutside` must be a method. -/
private theorem decides_of_ends {p : Phase} {es : List Entry} {t : Token} (hp : p.Ends es)
    (hf : p.feed t = ⟨es.map .close ++ (feedOutside t).actions, (feedOutside t).next⟩) :
    p.Decides t := by
  by_cases hm : t.kind.isMethod = true
  · exact .inl ⟨es, _, .method hp (meets_method_iff.mpr hm)⟩
  · by_cases he : t.kind = .endOfInput
    · exact .inr (.inl ⟨es, hp, he⟩)
    · refine .inr (.inr ⟨.method, ⟨es, [], ?_⟩, fun u hu => ⟨es, _, .method hp hu⟩⟩)
      simp [hf, feedOutside, hm, he]

/-- In a loop over fields, a word that is no key is complained of. -/
private theorem decides_word {p : Phase} {t : Token} {next : String → Phase} {again : Phase}
    (ht : t.kind = .string)
    (hp : ∀ u key, IsKey u key → ∃ q, p.Takes u [] q)
    (hf : p.feed t = match t.key? with
      | some key => .take (next key)
      | none => (Reaction.take again).precededBy (.report (.unexpected t .key))) :
    p.Decides t := by
  cases hk : t.key? with
  | some key =>
    obtain ⟨q, hq⟩ := hp t key (isKey_iff.mpr ⟨ht, hk⟩)
    exact .inl ⟨[], q, hq⟩
  | none =>
    refine .inr (.inr ⟨.key, ⟨[], [], ?_⟩, fun u ⟨key, hu⟩ => ?_⟩)
    · simp [hf, hk, Reaction.take, Reaction.precededBy]
    · obtain ⟨q, hq⟩ := hp u key hu
      exact ⟨[], q, hq⟩

/-- **A phase takes a token, ends, or complains of what it would have taken** (`Decides`). -/
theorem takes_or_ends_or_complains (p : Phase) (t : Token) : p.Decides t := by
  cases p with
  | outside => exact decides_of_ends .outside rfl
  | closing e => exact decides_of_ends .closing rfl
  | url m =>
    by_cases ht : t.kind = .string
    · exact .inl ⟨_, _, .url ht⟩
    · -- the token is complained of first, and then read as what may follow the request
      refine .inr (.inr ⟨.url, ⟨[], (feedResponse { span := m.span } t).actions, ?_⟩,
        fun u hu => ⟨_, _, .url hu⟩⟩)
      simp [feed, feedUrl, ht, Reaction.precededBy]
  | headers r =>
    by_cases ht : t.kind = .string
    · have hf : (headers r).feed t = match t.key? with
          | some key => .take (.headerValue r key t.span.start)
          | none => (Reaction.take (.headers r)).precededBy (.report (.unexpected t .key)) :=
        if_pos ht
      exact decides_word ht (fun u key hu => ⟨_, .headerKey hu⟩) hf
    · by_cases hh : t.kind = .http
      · exact .inl ⟨_, _, .marker hh⟩
      · refine decides_of_ends .headers ?_
        simp [feed, feedHeaders, feedResponse, feedClosing, Reaction.precededBy, ht, hh]
  | headerValue r key start =>
    by_cases ht : t.isValue = true
    · exact .inl ⟨_, _, .headerValue (isValue_iff.mpr ht)⟩
    · refine .inr (.inr ⟨.value, ⟨[], (feedHeaders r t).actions, ?_⟩,
        fun u hu => ⟨_, _, .headerValue hu⟩⟩)
      simp [feed, ht, Reaction.precededBy]
  | status r m =>
    have hstatus : ∀ u, Meets u .status → ∃ es q, (status r m).Takes u es q := by
      rintro u ⟨code, hu⟩
      exact ⟨_, _, .status hu⟩
    -- a numeral that is too large is used up, and any other token is left to the next entry
    by_cases ht : t.kind = .number
    · cases hs : t.status? with
      | some code => exact .inl ⟨_, _, .status (isStatus_iff.mpr hs)⟩
      | none =>
        refine .inr (.inr ⟨.status, ⟨[], [], ?_⟩, hstatus⟩)
        simp [feed, feedStatus, ht, hs, Reaction.take, Reaction.precededBy]
    · refine .inr (.inr ⟨.status, ⟨[], (feedClosing (.ofParts r {}) t).actions, ?_⟩, hstatus⟩)
      simp [feed, feedStatus, ht, Reaction.precededBy]
  | tag r s =>
    by_cases ht : t.kind = .capture
    · exact .inl ⟨_, _, .tag ht⟩
    · refine decides_of_ends .tag ?_
      simp [feed, feedTag, feedClosing, Reaction.precededBy, ht]
  | captures r s =>
    by_cases ht : t.kind = .string
    · have hf : (captures r s).feed t = match t.key? with
          | some key => .take (.captureValue r s key t.span.start)
          | none => (Reaction.take (.captures r s)).precededBy (.report (.unexpected t .key)) :=
        if_pos ht
      exact decides_word ht (fun u key hu => ⟨_, .captureKey hu⟩) hf
    · refine decides_of_ends .captures ?_
      simp [feed, feedCaptures, feedClosing, Reaction.precededBy, ht]
  | captureValue r s key start =>
    by_cases ht : t.isValue = true
    · exact .inl ⟨_, _, .captureValue (isValue_iff.mpr ht)⟩
    · refine .inr (.inr ⟨.value, ⟨[], (feedCaptures r s t).actions, ?_⟩,
        fun u hu => ⟨_, _, .captureValue hu⟩⟩)
      simp [feed, ht, Reaction.precededBy]

/-! ### Runs of tokens -/

/-- **The tokens are passed**: they are taken one after another. The entries are those closed on
the way, and the last phase is the one after the tokens. -/
inductive Passes : Phase → List Token → List Entry → Phase → Prop where
  /-- No token. -/
  | nil {p : Phase} : Passes p [] [] p
  /-- A token and those after it. -/
  | cons {p q r : Phase} {t : Token} {ts : List Token} {es es' : List Entry}
      (ht : p.Takes t es q) (hts : Passes q ts es' r) : Passes p (t :: ts) (es ++ es') r

/-- **The tokens are accepted**: they are all passed, and then nothing is missing. -/
def Accepts (p : Phase) (ts : List Token) (es : List Entry) : Prop :=
  ∃ es₁ q es₂, p.Passes ts es₁ q ∧ q.Ends es₂ ∧ es = es₁ ++ es₂

/-- The tokens `us` are passed, and then the token `t` is complained of, where something else
would have been taken. -/
def ComplainsAfter (p : Phase) (us : List Token) (t : Token) (e : Expectation) : Prop :=
  ∃ es q, p.Passes us es q ∧ q.Complains t e ∧ ∀ u, Meets u e → ∃ es' r, q.Takes u es' r

variable {p q r : Phase} {t : Token} {ts us : List Token} {es es' : List Entry}

theorem Takes.passes (h : p.Takes t es q) : p.Passes [t] es q := by
  simpa using Passes.cons h .nil

theorem Passes.append (h : p.Passes ts es q) (h' : q.Passes us es' r) :
    p.Passes (ts ++ us) (es ++ es') r := by
  induction h with
  | nil => exact h'
  | cons ht _ ih =>
    rw [List.append_assoc]
    exact .cons ht (ih h')

/-- Tokens that are passed are passed in two parts. -/
theorem Passes.exists_of_append (h : p.Passes (ts ++ us) es r) :
    ∃ es₁ q es₂, p.Passes ts es₁ q ∧ q.Passes us es₂ r ∧ es = es₁ ++ es₂ := by
  induction ts generalizing p es with
  | nil => exact ⟨[], p, es, .nil, h, rfl⟩
  | cons t ts ih =>
    cases h with
    | @cons _ _ _ _ _ es₁ es₂ ht hts =>
      obtain ⟨fs₁, q, fs₂, h₁, h₂, rfl⟩ := ih hts
      exact ⟨es₁ ++ fs₁, q, fs₂, .cons ht h₁, h₂, by simp⟩

private theorem map_close_injective {es es' : List Entry}
    (h : es.map Action.close = es'.map .close) : es = es' :=
  (List.map_inj_right fun _ _ h => Action.close.inj h).mp h

/-- Tokens are passed in one way only: `Passes` is functional. -/
theorem Passes.unique (h : p.Passes ts es q) (h' : p.Passes ts es' r) : es = es' ∧ q = r := by
  induction h generalizing es' with
  | nil =>
    cases h'
    exact ⟨rfl, rfl⟩
  | cons ht _ ih =>
    cases h' with
    | cons ht' hts' =>
      have he := ht.feed_eq.symm.trans ht'.feed_eq
      simp only [Reaction.mk.injEq, Option.some.injEq] at he
      obtain ⟨ha, rfl⟩ := he
      obtain ⟨rfl, rfl⟩ := ih hts'
      exact ⟨by rw [map_close_injective ha], rfl⟩

private theorem map_close_ne_report {es fs : List Entry} {d : Diagnostic} {as : List Action} :
    es.map Action.close ≠ fs.map .close ++ .report d :: as := by
  intro h
  have hd : Action.report d ∈ es.map Action.close := by simp [h]
  simp at hd

/-- A token that is taken is not complained of. -/
theorem Complains.not_takes {e : Expectation} (h : p.Complains t e) : ¬ p.Takes t es q := by
  obtain ⟨fs, as, h⟩ := h
  intro ht
  rw [ht.feed_eq] at h
  exact map_close_ne_report h

/-- Where nothing is missing, the end of the text is not complained of. -/
theorem Complains.not_ends {e : Expectation} (h : p.Complains t e) (ht : t.kind = .endOfInput) :
    ¬ p.Ends es := by
  obtain ⟨fs, as, h⟩ := h
  intro hp
  rw [hp.feed_eq ht] at h
  exact map_close_ne_report h

/-- **Tokens are accepted** (`Accepts`), **or there is a first one of which a phase complains**
(`ComplainsAfter`). -/
theorem accepts_or_complains (p : Phase) (stop : Position)
    (h : ∀ t ∈ ts, t.kind ≠ .endOfInput) :
    (∃ es, p.Accepts ts es) ∨
      ∃ us t vs e, ts ++ [.endOfInput stop] = us ++ t :: vs ∧ p.ComplainsAfter us t e := by
  induction ts generalizing p with
  | nil =>
    rcases takes_or_ends_or_complains p (.endOfInput stop) with ⟨es, q, ht⟩ | ⟨es, hp, -⟩ | ⟨e, hc⟩
    · -- no phase takes the end of the text
      have hnext := p.next_feed_of_endOfInput (t := .endOfInput stop) rfl
      simp [ht.feed_eq] at hnext
    · exact .inl ⟨es, [], p, es, .nil, hp, rfl⟩
    · exact .inr ⟨[], _, [], e, rfl, [], p, .nil, hc⟩
  | cons t ts ih =>
    rcases takes_or_ends_or_complains p t with ⟨es, q, ht⟩ | ⟨es, -, ht⟩ | ⟨e, hc⟩
    · rcases ih q fun u hu => h u (List.mem_cons_of_mem t hu) with
        ⟨_, es₁, r, es₂, hp, hr, -⟩ | ⟨us, u, vs, e, hts, fs, r, hp, hc⟩
      · exact .inl ⟨_, es ++ es₁, r, es₂, .cons ht hp, hr, rfl⟩
      · exact .inr ⟨t :: us, u, vs, e, by simp [hts], es ++ fs, r, .cons ht hp, hc⟩
    · exact absurd ht (h t (by simp))
    · exact .inr ⟨[], t, ts ++ [.endOfInput stop], e, rfl, [], p, .nil, hc⟩

/-! ### Walks -/

theorem filterMap_diagnostic?_close (es : List Entry) :
    (es.map Action.close).filterMap Action.diagnostic? = [] := by
  simp [Action.diagnostic?]

private theorem filterMap_entry?_close (es : List Entry) :
    (es.map Action.close).filterMap Action.entry? = es := by
  simp [List.filterMap_map, Function.comp_def, Action.entry?]

theorem walk_of_takes {stop : Position} (h : p.Takes t es q) :
    p.walk stop (t :: ts) = (q.walk stop ts).cons (es.map .close) := by
  simp [walk, h.feed_eq]

theorem actions_cons (as : List Action) (w : Walk) : (w.cons as).actions = as ++ w.actions := by
  simp [Walk.cons, Walk.actions]

/-- The `actions` of a walk begin with those of its first token. -/
private theorem exists_actions_walk {stop : Position} {v : Token} {vs : List Token}
    (h : ts ++ [.endOfInput stop] = v :: vs) :
    ∃ as, (p.walk stop ts).actions = (p.feed v).actions ++ as := by
  cases ts with
  | nil =>
    obtain ⟨rfl, -⟩ := List.cons.inj h
    exact ⟨[], by simp [walk_nil, Walk.actions]⟩
  | cons t ts =>
    obtain ⟨rfl, -⟩ := List.cons.inj h
    rw [walk]
    split
    · next as hf => exact ⟨[], by simp [Walk.actions, hf]⟩
    · next as q hf => exact ⟨(q.walk stop ts).actions, by rw [actions_cons, hf]⟩

/-- **A walk over tokens that are passed** closes their entries `es` and goes on from there. -/
private theorem Passes.walk_eq (h : p.Passes us es q) (stop : Position) (ts : List Token) :
    (p.walk stop (us ++ ts)).actions = es.map .close ++ (q.walk stop ts).actions ∧
      (p.walk stop (us ++ ts)).rest = (q.walk stop ts).rest := by
  induction h with
  | nil => exact ⟨rfl, rfl⟩
  | cons ht _ ih =>
    rw [List.cons_append, walk_of_takes ht, actions_cons, ih.1, List.map_append,
      List.append_assoc]
    exact ⟨rfl, ih.2⟩

/-- **A walk over accepted tokens** closes their entries `es` and does nothing else. -/
theorem Accepts.actions_walk (h : p.Accepts ts es) (stop : Position) :
    (p.walk stop ts).actions = es.map .close := by
  obtain ⟨es₁, q, es₂, hp, hq, rfl⟩ := h
  have hw := (hp.walk_eq stop []).1
  rw [List.append_nil] at hw
  rw [hw, List.map_append, walk_nil, hq.feed_eq rfl]
  rfl

/-- **The first of the `reports` of a walk** is on the first token that is complained of. -/
theorem ComplainsAfter.exists_reports_walk {stop : Position} {v : Token} {vs : List Token}
    {e : Expectation} (h : p.ComplainsAfter us v e)
    (hts : ts ++ [.endOfInput stop] = us ++ v :: vs) :
    ∃ ds, (p.walk stop ts).reports = .unexpected v e :: ds := by
  obtain ⟨es, q, hp, ⟨fs, as, hc⟩, -⟩ := h
  -- the complaint may be about the end of the text, which is no token of the walk
  obtain ⟨rest, rfl⟩ : ∃ rest, ts = us ++ rest := by
    rcases List.append_eq_append_iff.mp hts with ⟨as', rfl, has⟩ | ⟨bs, rfl, -⟩
    · cases as' with
      | nil => exact ⟨[], by simp⟩
      | cons a as' => simp at has
    · exact ⟨bs, rfl⟩
  rw [List.append_assoc, List.append_cancel_left_eq] at hts
  obtain ⟨as', ha⟩ := exists_actions_walk (p := q) hts
  refine ⟨(as ++ as').filterMap Action.diagnostic?, ?_⟩
  rw [Walk.reports, (hp.walk_eq stop rest).1, ha, hc]
  simp only [List.filterMap_append, filterMap_diagnostic?_close, List.nil_append]
  rfl

/-- **A walk without `reports`** accepts its tokens, and its entries are those accepted. -/
theorem reports_walk_eq_nil_iff {stop : Position} (h : ∀ t ∈ ts, t.kind ≠ .endOfInput) :
    (p.walk stop ts).reports = [] ↔ ∃ es, p.Accepts ts es := by
  constructor
  · intro hr
    rcases accepts_or_complains p stop h with ha | ⟨us, t, vs, e, hts, hc⟩
    · exact ha
    · obtain ⟨ds, hd⟩ := hc.exists_reports_walk hts
      simp [hd] at hr
  · rintro ⟨es, ha⟩
    rw [Walk.reports, ha.actions_walk stop, filterMap_diagnostic?_close]

theorem Accepts.entries_walk (h : p.Accepts ts es) (stop : Position) :
    (p.walk stop ts).entries = es := by
  rw [Walk.entries, h.actions_walk stop, filterMap_entry?_close]

end Phase

/-- A first parse that fails gives all that its walk found wrong: its `reports` and its
`absence`. -/
theorem Parser.diagnostics_of_result_eq_error {p : Parser} {r : Rejection}
    (hp : p.diagnostics = []) (h : p.result = .error r) :
    r.diagnostics = p.stream.walk.reports ++ p.stream.walk.absence ∧ r.diagnostics ≠ [] := by
  rw [result] at h
  split at h
  · cases h
  · next hne =>
    obtain rfl := Except.error.inj h
    exact ⟨by simp [after, hp, Walk.findings], by simpa using hne⟩

end RequestScript
