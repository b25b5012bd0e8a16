import RequestScript.Proofs.Parser.Descent
import RequestScript.Proofs.Parser.Stopping

/-!
# Descents come to an end

A descent runs loops inside loops on a reader (`Descent.step`), and a walk feeds the tokens of a
stream to one phase after another (`TokenStream.walk`). Both find the same.

* **Loops and phases**: a loop stands where a phase does (`Descent.Stands`), and from there the
  descent does what the phase does with the token at hand (`Descent.does_feed`): it causes the
  same, and it takes the token or is over.
* **Descents and walks**: so a descent ends, with what the walk causes (`Descent.ends_of_stands`).
  The induction is on the tokens that are left: no loop goes round for ever without taking one.
* **Descents and parsers**: a descent that begins with what a parser has left to read ends with the
  `result` of that parser, and holds what the parser has `after` (`Descent.ends_ofState`).
-/

namespace RequestScript.Descent

/-! ### Loops and phases -/

/-- **A loop stands where a phase does**, while the parse holds `m`. -/
inductive Stands (m : State) : Loop → Phase → Prop where
  /-- Between entries. -/
  | outside : Stands m .script .outside
  /-- After the method, which was taken last. -/
  | url {t : Token} (h : m.consumed = t.span.stop) :
      Stands m (.line .url { method := t.literal, span := ⟨t.span.start, 0⟩ }
        { span := ⟨t.span.start, 0⟩ }) (.url t)
  /-- After the request line or a header. -/
  | headers {r : Request} : Stands m (.request .headers r) (.headers r)
  /-- After the key of a header. -/
  | headerValue {r : Request} {key : String} {start : Nat} :
      Stands m (.header .value { key := key, span := ⟨start, 0⟩ } r) (.headerValue r key start)
  /-- After the marker of the response. -/
  | status {r : Request} {t : Token} :
      Stands m (.response .status { protocol := t.literal, span := t.span } r) (.status r t)
  /-- After the status code. -/
  | tag {r : Request} {s : Response} : Stands m (.response .tag s r) (.tag r s)
  /-- After the tag or a capture. -/
  | captures {r : Request} {s : Response} : Stands m (.response .captures s r) (.captures r s)
  /-- After the key of a capture. -/
  | captureValue {r : Request} {s : Response} {key : String} {start : Nat} :
      Stands m (.capture .value { key := key, span := ⟨start, 0⟩ } s r)
        (.captureValue r s key start)
  /-- After an entry that ended with a fault. -/
  | closing {r : Request} {s : Response} : Stands m (.entry r s) (.closing (.ofParts r s))

/-- **A descent does what a reaction says** with the token at hand: it causes the actions, and then
it takes the token and stands at the next phase, or it is over. -/
def Does (l : Loop) (m : State) (r : Reaction) : Prop :=
  match r.next with
  | some q => ∃ l', Stands (m.acts r.actions).advance l' q ∧
      Reaches ⟨l, m⟩ ⟨l', (m.acts r.actions).advance⟩
  | none => Ends ⟨l, m⟩ (m.acts r.actions).conclude (m.acts r.actions).conclude.result

section Does

variable {l l' : Loop} {m : State} {r : Reaction}

private theorem Does.of_step (h : step ⟨l, m⟩ = .more ⟨l', m⟩) (h' : Does l' m r) :
    Does l m r := by
  obtain ⟨as, next⟩ := r
  cases next with
  | none => exact (Reaches.single h).ends h'
  | some q =>
    obtain ⟨l₁, hl, hreach⟩ := h'
    exact ⟨l₁, hl, .head h hreach⟩

private theorem Does.of_act {a : Action} (h : step ⟨l, m⟩ = .more ⟨l', m.act a⟩)
    (h' : Does l' (m.act a) r) : Does l m (r.precededBy a) := by
  obtain ⟨as, next⟩ := r
  cases next with
  | none => exact (Reaches.single h).ends h'
  | some q =>
    obtain ⟨l₁, hl, hreach⟩ := h'
    exact ⟨l₁, hl, .head h hreach⟩

private theorem Does.of_advance {q : Phase} (hl : Stands m.advance l' q)
    (h : Reaches ⟨l, m⟩ ⟨l', m.advance⟩) : Does l m (.take q) :=
  ⟨l', hl, h⟩

end Does

section Feed

variable (m : State)

/-- Between entries. -/
private theorem does_script : Does .script m (Phase.feedOutside m.current) := by
  rw [Phase.feedOutside]
  split
  · next hm =>
    have hopen : step ⟨.script, m⟩ = .more ⟨.request .method {}, m⟩ := by
      simp [step, stepScript, hm]
    have hstart : step ⟨.request .method {}, m⟩ =
        .more ⟨.request .line { span := ⟨m.current.span.start, 0⟩ }, m⟩ := by
      simp [step, stepRequest, hm]
    have hline : step ⟨.line .method {} { span := ⟨m.current.span.start, 0⟩ }, m⟩ =
        .more ⟨.line .url { method := m.current.literal, span := ⟨m.current.span.start, 0⟩ }
          { span := ⟨m.current.span.start, 0⟩ }, m.advance⟩ := by
      simp [step, stepLine, lineRound, hm]
    refine .of_step hopen (.of_step hstart (.of_step rfl ?_))
    exact .of_advance (.url rfl) (.single hline)
  · next hm =>
    split
    · next he =>
      have hover : step ⟨.script, m⟩ = finish m := by
        rw [step, stepScript, if_neg hm, if_pos he]
      exact ⟨_, .refl, hover⟩
    · next he =>
      have hover : step ⟨.script, m⟩ = finish (m.complain .method) := by
        rw [step, stepScript, if_neg hm, if_neg he]
      exact ⟨_, .refl, hover⟩

/-- After a complete entry. -/
private theorem does_entry (r : Request) (s : Response) :
    Does (.entry r s) m (Phase.feedClosing (.ofParts r s) m.current) := by
  have hscript := does_script (m.act (.close (.ofParts r s)))
  rw [State.current_act] at hscript
  exact .of_act rfl hscript

/-- After a request. -/
private theorem does_marker (r : Request) :
    Does (.response .marker {} r) m (Phase.feedResponse r m.current) := by
  rw [Phase.feedResponse]
  split
  · next hh =>
    have hmarker : step ⟨.response .marker {} r, m⟩ = .more ⟨.response .status
        { protocol := m.current.literal, span := m.current.span } r, m.advance⟩ := by
      simp [step, stepResponse, hh]
    exact .of_advance .status (.single hmarker)
  · next hh =>
    have hnone : step ⟨.response .marker {} r, m⟩ = .more ⟨.entry r {}, m⟩ := by
      simp [step, stepResponse, hh]
    exact .of_step hnone (does_entry m r {})

/-- After a request line or a header. -/
private theorem does_headers (r : Request) :
    Does (.request .headers r) m (Phase.feedHeaders r m.current) := by
  rw [Phase.feedHeaders]
  split
  · next hs =>
    have hheader : step ⟨.request .headers r, m⟩ = .more ⟨.header .key {} r, m⟩ := by
      simp [step, stepRequest, hs]
    refine .of_step hheader ?_
    split
    · next key hk =>
      have hkey : step ⟨.header .key {} r, m⟩ = .more ⟨.header .value
          { key := key, span := ⟨m.current.span.start, 0⟩ } r, m.advance⟩ := by
        simp [step, stepHeader, fieldRound, hs, hk]
      exact .of_advance .headerValue (.single hkey)
    · next hk =>
      have hskip : step ⟨.header .key {} r, m⟩ =
          .more ⟨.request .headers r, (m.complain .key).advance⟩ := by
        simp [step, stepHeader, fieldRound, hs, hk]
      exact ⟨_, .headers, .single hskip⟩
  · next hs =>
    have hend : step ⟨.request .headers r, m⟩ = .more ⟨.response .marker {} r, m⟩ := by
      simp [step, stepRequest, hs]
    exact .of_step hend (does_marker m r)

/-- After the tag of the captures or a capture. -/
private theorem does_captures (r : Request) (s : Response) :
    Does (.response .captures s r) m (Phase.feedCaptures r s m.current) := by
  rw [Phase.feedCaptures]
  split
  · next hs =>
    have hcapture : step ⟨.response .captures s r, m⟩ = .more ⟨.capture .key {} s r, m⟩ := by
      simp [step, stepResponse, hs]
    refine .of_step hcapture ?_
    split
    · next key hk =>
      have hkey : step ⟨.capture .key {} s r, m⟩ = .more ⟨.capture .value
          { key := key, span := ⟨m.current.span.start, 0⟩ } s r, m.advance⟩ := by
        simp [step, stepCapture, fieldRound, hs, hk]
      exact .of_advance .captureValue (.single hkey)
    · next hk =>
      have hskip : step ⟨.capture .key {} s r, m⟩ =
          .more ⟨.response .captures s r, (m.complain .key).advance⟩ := by
        simp [step, stepCapture, fieldRound, hs, hk]
      exact ⟨_, .captures, .single hskip⟩
  · next hs =>
    have hend : step ⟨.response .captures s r, m⟩ = .more ⟨.entry r s, m⟩ := by
      simp [step, stepResponse, hs]
    exact .of_step hend (does_entry m r s)

/-- After the method of a request, which was taken last. -/
private theorem does_url {t : Token} (ht : m.consumed = t.span.stop) :
    Does (.line .url { method := t.literal, span := ⟨t.span.start, 0⟩ }
      { span := ⟨t.span.start, 0⟩ }) m (Phase.feedUrl t m.current) := by
  rw [Phase.feedUrl]
  split
  · next hs =>
    have hurl : step ⟨.line .url { method := t.literal, span := ⟨t.span.start, 0⟩ }
        { span := ⟨t.span.start, 0⟩ }, m⟩ = .more ⟨.line .done ⟨t.literal, m.current.literal,
          ⟨t.span.start, m.current.span.stop⟩⟩ { span := ⟨t.span.start, 0⟩ }, m.advance⟩ := by
      simp [step, stepLine, lineRound, hs]
    exact .of_advance .headers (.head hurl (.single rfl))
  · next hs =>
    have hnone : step ⟨.line .url { method := t.literal, span := ⟨t.span.start, 0⟩ }
        { span := ⟨t.span.start, 0⟩ }, m⟩ =
        .more ⟨.request .headers { span := t.span }, m.complain .url⟩ := by
      simp [step, stepLine, lineRound, hs, State.complain, State.record, State.emit, ht]
    have hend : step ⟨.request .headers { span := t.span }, m.complain .url⟩ =
        .more ⟨.response .marker {} { span := t.span }, m.complain .url⟩ := by
      simp [step, stepRequest, State.complain, State.record, State.emit, hs]
    exact .of_act hnone (.of_step hend (does_marker (m.complain .url) { span := t.span }))

/-- After the marker of a response. -/
private theorem does_status (r : Request) (t : Token) :
    Does (.response .status { protocol := t.literal, span := t.span } r) m
      (Phase.feedStatus r t m.current) := by
  rw [Phase.feedStatus]
  split
  · next hn =>
    split
    · next code hc =>
      have hstatus : step ⟨.response .status { protocol := t.literal, span := t.span } r, m⟩ =
          .more ⟨.response .tag
            ⟨t.literal, code, [], ⟨t.span.start, m.current.span.stop⟩⟩ r, m.advance⟩ := by
        simp [step, stepResponse, hn, hc]
      exact .of_advance .tag (.single hstatus)
    · next hc =>
      have hlarge : step ⟨.response .status { protocol := t.literal, span := t.span } r, m⟩ =
          .more ⟨.entry r {}, (m.complain .status).advance⟩ := by
        simp [step, stepResponse, hn, hc]
      exact ⟨_, .closing, .single hlarge⟩
  · next hn =>
    have hnone : step ⟨.response .status { protocol := t.literal, span := t.span } r, m⟩ =
        .more ⟨.entry r {}, m.complain .status⟩ := by
      simp [step, stepResponse, hn]
    exact .of_act hnone (does_entry (m.complain .status) r {})

/-- After a status code. -/
private theorem does_tag (r : Request) (s : Response) :
    Does (.response .tag s r) m (Phase.feedTag r s m.current) := by
  rw [Phase.feedTag]
  split
  · next hc =>
    have htag : step ⟨.response .tag s r, m⟩ =
        .more ⟨.response .captures (s.extend m.current.span.stop) r, m.advance⟩ := by
      simp [step, stepResponse, hc]
    exact .of_advance .captures (.single htag)
  · next hc =>
    have hnone : step ⟨.response .tag s r, m⟩ = .more ⟨.entry r s, m⟩ := by
      simp [step, stepResponse, hc]
    exact .of_step hnone (does_entry m r s)

/-- After the key of a header. -/
private theorem does_headerValue (r : Request) (key : String) (start : Nat) :
    Does (.header .value { key := key, span := ⟨start, 0⟩ } r) m
      ((Phase.headerValue r key start).feed m.current) := by
  rw [Phase.feed]
  split
  · next hv =>
    have hvalue : step ⟨.header .value { key := key, span := ⟨start, 0⟩ } r, m⟩ =
        .more ⟨.header .done (Phase.field key start m.current) r, m.advance⟩ := by
      simp [step, stepHeader, fieldRound, Phase.field, hv]
    exact .of_advance .headers (.head hvalue (.single rfl))
  · next hv =>
    have hnone : step ⟨.header .value { key := key, span := ⟨start, 0⟩ } r, m⟩ =
        .more ⟨.request .headers r, m.complain .value⟩ := by
      simp [step, stepHeader, fieldRound, hv]
    exact .of_act hnone (does_headers (m.complain .value) r)

/-- After the key of a capture. -/
private theorem does_captureValue (r : Request) (s : Response) (key : String) (start : Nat) :
    Does (.capture .value { key := key, span := ⟨start, 0⟩ } s r) m
      ((Phase.captureValue r s key start).feed m.current) := by
  rw [Phase.feed]
  split
  · next hv =>
    have hvalue : step ⟨.capture .value { key := key, span := ⟨start, 0⟩ } s r, m⟩ =
        .more ⟨.capture .done (Phase.field key start m.current) s r, m.advance⟩ := by
      simp [step, stepCapture, fieldRound, Phase.field, hv]
    exact .of_advance .captures (.head hvalue (.single rfl))
  · next hv =>
    have hnone : step ⟨.capture .value { key := key, span := ⟨start, 0⟩ } s r, m⟩ =
        .more ⟨.response .captures s r, m.complain .value⟩ := by
      simp [step, stepCapture, fieldRound, hv]
    exact .of_act hnone (does_captures (m.complain .value) r s)

/-- **A descent does what the phase does** with the token at hand (`Phase.feed`). -/
theorem does_feed {l : Loop} {p : Phase} (h : Stands m l p) : Does l m (p.feed m.current) := by
  cases h with
  | outside => exact does_script m
  | url ht => exact does_url m ht
  | headers => exact does_headers m _
  | headerValue => exact does_headerValue m _ _ _
  | status => exact does_status m _ _
  | tag => exact does_tag m _ _
  | captures => exact does_captures m _ _
  | captureValue => exact does_captureValue m _ _ _ _
  | closing => exact does_entry m _ _

end Feed

/-! ### Descents and walks -/

namespace State

/-- **The parse stands at the stream `s`**: it looks at the first token and has read the second,
and what follows them is left to the reader. -/
structure StandsAt (s : TokenStream) (m : State) : Prop where
  /-- The token that the parse looks at. -/
  current : m.current = s.get 0
  /-- The token after it. -/
  ahead : m.ahead = s.get 1
  /-- What is left to the reader. -/
  stream : m.reader.cursor.stream = s.drop 2

/-- The state after the steps of a walk: what each token causes, and then the token is taken. -/
def follow (m : State) (steps : List (List Action)) : State :=
  steps.foldl (fun m as => (m.acts as).advance) m

/-- **What is gained** from one state to another: what the actions `as` record, and the events
`es`. -/
structure Gains (as : List Action) (es : List Event) (m m' : State) : Prop where
  /-- The file stays. -/
  file : m'.file = m.file
  /-- Diagnostics are added. -/
  diagnostics : m'.diagnostics = m.diagnostics ++ as.filterMap Action.diagnostic?
  /-- Entries are added. -/
  entries : m'.entries = m.entries ++ as.filterMap Action.entry?
  /-- Events are added. -/
  events : m'.events = m.events ++ es

section Streams

variable {s : TokenStream} {m m' m'' : State} {as bs : List Action} {es fs : List Event}

private theorem Gains.refl (m : State) : Gains [] [] m m :=
  ⟨rfl, by simp, by simp, by simp⟩

private theorem Gains.trans (h : Gains as es m m') (h' : Gains bs fs m' m'') :
    Gains (as ++ bs) (es ++ fs) m m'' where
  file := h'.file.trans h.file
  diagnostics := by rw [h'.diagnostics, h.diagnostics, List.filterMap_append, List.append_assoc]
  entries := by rw [h'.entries, h.entries, List.filterMap_append, List.append_assoc]
  events := by rw [h'.events, h.events, List.append_assoc]

private theorem gains_act (m : State) (a : Action) : Gains [a] [.ofAction a] m (m.act a) := by
  cases a with
  | report d => exact ⟨rfl, rfl, (List.append_nil _).symm, rfl⟩
  | close e => exact ⟨rfl, (List.append_nil _).symm, rfl, rfl⟩

private theorem gains_acts (m : State) (as : List Action) :
    Gains as (as.map .ofAction) m (m.acts as) := by
  induction as generalizing m with
  | nil => exact .refl m
  | cons a as ih => exact (gains_act m a).trans (ih (m.act a))

/-- The complaint that there is no request, if there is none. -/
private def absence (m : State) : List Diagnostic :=
  if m.entries.isEmpty then [.noRequest m.current] else []

private theorem conclude_eq (m : State) : m.conclude =
    { m with
      diagnostics := m.diagnostics ++ m.absence
      events := m.events ++ (m.absence.map .faultFound ++
        [.finished m.file m.entries.length (m.diagnostics ++ m.absence).length]) } := by
  rw [conclude, absence]
  split
  · simp [record, emit]
  · simp [emit]

theorem StandsAt.acts (h : m.StandsAt s) (as : List Action) : (m.acts as).StandsAt s := by
  induction as generalizing m with
  | nil => exact h
  | cons a as ih =>
    refine ih ?_
    cases a <;> exact ⟨h.current, h.ahead, h.stream⟩

/-- The reader hands out the token that is two places ahead. -/
private theorem StandsAt.nextToken_fst (h : m.StandsAt s) :
    m.reader.nextToken.1 = s.get 2 := by
  have hnext := m.reader.cursor.next_fst
  rwa [h.stream, TokenStream.current_drop] at hnext

/-- `advance` reads the token that is two places ahead. -/
theorem StandsAt.gains_advance (h : m.StandsAt s) :
    Gains [] [.tokenRead (s.get 2)] m m.advance := by
  refine ⟨rfl, (List.append_nil _).symm, (List.append_nil _).symm, ?_⟩
  rw [← h.nextToken_fst]
  rfl

theorem StandsAt.advance (h : m.StandsAt s) : m.advance.StandsAt (s.drop 1) where
  current := by
    rw [TokenStream.get_drop]
    exact h.ahead
  ahead := by
    rw [TokenStream.get_drop]
    exact h.nextToken_fst
  stream := by
    have hnext := m.reader.cursor.stream_next
    rw [h.stream] at hnext
    rw [TokenStream.drop_drop]
    exact hnext.trans (s.drop_drop 2 1)

/-- A parse that begins stands at the stream that its reader has left to read. -/
theorem standsAt_ofReader (r : Reader) (file : Option String) :
    (ofReader r file).StandsAt r.cursor.stream where
  current := r.cursor.next_fst
  ahead := by
    have hnext := r.cursor.next.2.next_fst
    rw [Cursor.stream_next, TokenStream.current_drop] at hnext
    exact hnext
  stream := r.cursor.stream_drop 2

theorem events_ofReader (r : Reader) (file : Option String) : (ofReader r file).events =
    [.tokenRead (r.cursor.stream.get 0), .tokenRead (r.cursor.stream.get 1)] := by
  obtain ⟨hcurrent, hahead, -⟩ := standsAt_ofReader r file
  rw [← hcurrent, ← hahead]
  rfl

/-- What the state after the `steps` of a walk stands at, and what was gained on the way. -/
private theorem StandsAt.follow (h : m.StandsAt s) (steps : List (List Action)) :
    (m.follow steps).StandsAt (s.drop steps.length) ∧
      Gains steps.flatten ((s.drop 2).eventsAhead steps) m (m.follow steps) := by
  induction steps generalizing s m with
  | nil => exact ⟨h, .refl m⟩
  | cons as steps ih =>
    obtain ⟨hstands, hgains⟩ := ih (h.acts as).advance
    have hread : (s.drop 2).current = s.get 2 := s.current_drop 2
    have hdrop : (s.drop 1).drop 2 = (s.drop 2).drop 1 := by
      rw [TokenStream.drop_drop, TokenStream.drop_drop]
    refine ⟨?_, ?_⟩
    · rwa [TokenStream.drop_drop, Nat.add_comm] at hstands
    · have hall := ((gains_acts m as).trans (h.acts as).gains_advance).trans hgains
      rw [List.append_nil, hdrop, ← hread, List.append_assoc] at hall
      exact hall

end Streams

end State

/-- **A descent ends with what a walk causes**, from a loop that stands where the walk begins. -/
theorem ends_of_stands {l : Loop} {m : State} {p : Phase} {stop : Position} {ts : List Token}
    (hl : Stands m l p) (hm : m.StandsAt ⟨ts, stop⟩) :
    Ends ⟨l, m⟩ ((m.follow (p.walk stop ts).steps).acts (p.walk stop ts).last).conclude
      ((m.follow (p.walk stop ts).steps).acts (p.walk stop ts).last).conclude.result := by
  induction ts generalizing l m p with
  | nil =>
    have hfeed := does_feed m hl
    have hcurrent : m.current = .endOfInput stop := hm.current
    rw [hcurrent, Does, p.next_feed_of_endOfInput rfl] at hfeed
    rw [Phase.walk_nil]
    exact hfeed
  | cons t ts ih =>
    have hfeed := does_feed m hl
    have hcurrent : m.current = t := hm.current
    rw [hcurrent, Does] at hfeed
    cases hnext : (p.feed t).next with
    | none =>
      rw [hnext] at hfeed
      rw [Phase.walk_cons_of_stop hnext]
      exact hfeed
    | some q =>
      rw [hnext] at hfeed
      obtain ⟨l', hl', hreach⟩ := hfeed
      rw [Phase.walk_cons_of_next hnext]
      exact hreach.ends (ih hl' (hm.acts _).advance)

/-! ### Descents and parsers -/

/-- **The parse holds what the parser `p` has**: what is left to read, and what was found
before. -/
structure State.Holds (p : Parser) (m : State) : Prop where
  /-- The name of the file. -/
  file : m.file = p.file
  /-- What is left to read. -/
  standsAt : m.StandsAt p.stream
  /-- What was found before. -/
  diagnostics : m.diagnostics = p.diagnostics

/-- What is held at the end, if what the walk causes was gained on the way. -/
private theorem State.Holds.conclude {p : Parser} {m m' : State} {es : List Event} (h : m.Holds p)
    (hm : m.entries = []) (hend : m'.StandsAt p.stream.walk.rest)
    (hgains : Gains p.stream.walk.actions es m m') :
    m'.conclude.result = p.result ∧ m'.conclude.Holds p.after ∧
      m'.conclude.entries = p.stream.walk.entries ∧
      m'.conclude.events = m.events ++ (es ++ (p.stream.walk.absence.map .faultFound ++
        [.finished p.file p.stream.walk.entries.length p.after.diagnostics.length])) := by
  have hentries : m'.entries = p.stream.walk.entries := by
    rw [hgains.entries, hm]
    rfl
  have hfile : m'.file = p.file := hgains.file.trans h.file
  have habsence : m'.absence = p.stream.walk.absence := by
    rw [State.absence, Walk.absence, hentries, hend.current]
    rfl
  have hfound : m'.diagnostics ++ p.stream.walk.absence = p.after.diagnostics := by
    rw [hgains.diagnostics, h.diagnostics, List.append_assoc]
    rfl
  rw [State.conclude_eq, habsence, hfound]
  refine ⟨?_, ⟨hfile, ⟨hend.current, hend.ahead, hend.stream⟩, rfl⟩, hentries, ?_⟩
  · rw [State.result, Parser.result, hentries, hfile]
  · rw [hgains.events, hfile, hentries, List.append_assoc]

/-- **A descent ends**, with the `result` of the parser whose state it holds, and then it holds
what that parser has `after`. It does what is in the `events` of the parser. -/
theorem ends_ofState {p : Parser} {m : State} (h : m.Holds p) :
    ∃ m', (ofState m).Ends m' p.result ∧ m'.Holds p.after ∧
      m'.entries = p.stream.walk.entries ∧ m'.events = m.events ++ p.events := by
  have hbegin : State.Holds p { m with entries := [] } :=
    ⟨h.file, ⟨h.standsAt.current, h.standsAt.ahead, h.standsAt.stream⟩, h.diagnostics⟩
  have hstands : State.StandsAt ⟨p.stream.tokens, p.stream.stop⟩ { m with entries := [] } :=
    hbegin.standsAt
  have hends := ends_of_stands .outside hstands
  obtain ⟨hfollow, hgains⟩ := hbegin.standsAt.follow p.stream.walk.steps
  have hend := hfollow.acts p.stream.walk.last
  rw [← TokenStream.rest_walk] at hend
  obtain ⟨hresult, hholds, hentries, hevents⟩ :=
    hbegin.conclude rfl hend (hgains.trans (State.gains_acts _ p.stream.walk.last))
  rw [← hresult]
  refine ⟨_, hends, hholds, hentries, hevents.trans ?_⟩
  simp only [Parser.events, List.append_assoc]

/-- **The descent of a text ends** with the result of `parse`, and what it did is the `log` of the
parser. -/
theorem ends_ofString (source : String) (file : Option String) :
    ∃ m, (ofString source file).Ends m (parse source file) ∧
      m.Holds (Parser.ofString source file).after ∧
      m.events = (Parser.ofString source file).log := by
  have hholds : (State.ofReader (.ofString source) file).Holds (.ofString source file) :=
    ⟨rfl, State.standsAt_ofReader _ _, rfl⟩
  obtain ⟨m, hends, hafter, -, hevents⟩ := ends_ofState hholds
  rw [State.events_ofReader] at hevents
  exact ⟨m, hends, hafter, hevents⟩

end RequestScript.Descent
