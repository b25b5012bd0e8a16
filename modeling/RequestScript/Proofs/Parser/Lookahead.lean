import Mathlib.Data.List.Basic
import RequestScript.Proofs.Parser.Refinement

/-!
# How far a parse reads

The log of a parse shows when its tokens are read. It is told here by what is found in it: tokens,
faults and entries, each in their order (`Parser.filterMap_token?_log`,
`Parser.filterMap_fault?_log`, `Parser.filterMap_entry?_log`). What ties the three together is
**when** a token causes something: after exactly the tokens up to the one that follows it were read
(`Parser.exists_of_log_eq_append`).

A descent keeps this up at every place: it looks at some token and has read just the next one
(`Descent.State.Reads`), whatever step it takes (`Descent.State.Reads.of_reaches`). So a parse
reads one token ahead, and nothing past the end of the text
(`Descent.exists_ends_reading_ahead`).
-/

namespace RequestScript

/-! ### What an event is about -/

namespace Event

/-- The token that is read. -/
def token? : Event → Option Token
  | .tokenRead t => some t
  | _ => none

/-- The fault that is found. -/
def fault? : Event → Option Diagnostic
  | .faultFound d => some d
  | _ => none

/-- The entry that is complete. -/
def entry? : Event → Option Entry
  | .entryRead e => some e
  | _ => none

/-- No action is the reading of a token. -/
private theorem token?_ofAction (a : Action) : (ofAction a).token? = none := by
  cases a <;> rfl

private theorem fault?_ofAction (a : Action) : (ofAction a).fault? = a.diagnostic? := by
  cases a <;> rfl

private theorem entry?_ofAction (a : Action) : entry? (ofAction a) = Action.entry? a := by
  cases a <;> rfl

@[simp]
theorem filterMap_token?_cons (t : Token) (es : List Event) :
    (tokenRead t :: es).filterMap token? = t :: es.filterMap token? := rfl

private theorem ofAction_injective : Function.Injective ofAction := by
  rintro (d | e) (d' | e') h <;> cases h <;> rfl

/-- Where no token is read, none is found. -/
private theorem filterMap_token?_eq_nil {es : List Event} (h : ∀ e ∈ es, e.token? = none) :
    es.filterMap token? = [] :=
  List.filterMap_eq_nil_iff.mpr h

private theorem filterMap_token?_map_ofAction (as : List Action) :
    (as.map ofAction).filterMap token? = [] := by
  refine filterMap_token?_eq_nil fun e he => ?_
  obtain ⟨a, -, rfl⟩ := List.mem_map.mp he
  exact token?_ofAction a

/-- What is no reading of a token comes after one that stands first. -/
private theorem exists_of_tokenRead_cons {t : Token} {es before after : List Event} {e : Event}
    (he : e.token? = none) (h : tokenRead t :: es = before ++ e :: after) :
    ∃ us, before = tokenRead t :: us ∧ es = us ++ e :: after := by
  rcases List.cons_eq_append_iff.mp h with ⟨-, heq⟩ | hus
  · rw [(List.cons.inj heq).1] at he
    cases he
  · exact hus

end Event

/-! ### Tokens that are read ahead -/

namespace TokenStream

/-- For each token that is taken, one is read. -/
private theorem filterMap_token?_eventsAhead (s : TokenStream) (steps : List (List Action)) :
    (s.eventsAhead steps).filterMap Event.token? = (List.range steps.length).map s.get := by
  induction steps generalizing s with
  | nil => rfl
  | cons as steps ih =>
    have hget : (s.drop 1).get = s.get ∘ Nat.succ := by
      funext i
      rw [get_drop, Function.comp_apply, Nat.succ_eq_add_one, Nat.add_comm]
    rw [eventsAhead, List.filterMap_append, Event.filterMap_token?_map_ofAction, List.nil_append,
      Event.filterMap_token?_cons, ih, hget, List.length_cons, List.range_succ_eq_map,
      List.map_cons, List.map_map]
    rfl

/-- Apart from the tokens that are read, the events are those of the actions. -/
private theorem filterMap_eventsAhead {β : Type} (f : Event → Option β)
    (hf : ∀ t, f (.tokenRead t) = none) (s : TokenStream) (steps : List (List Action)) :
    (s.eventsAhead steps).filterMap f = steps.flatten.filterMap (f ∘ Event.ofAction) := by
  induction steps generalizing s with
  | nil => rfl
  | cons as steps ih =>
    rw [eventsAhead, List.filterMap_append, List.filterMap_cons_none (hf _), ih,
      List.filterMap_map, List.flatten_cons, List.filterMap_append]

/-- **When a token causes an event**: after as many tokens were read as were taken before it. In
the log of a walk, the events `tail` follow those of the tokens that were taken. -/
private theorem exists_of_eventsAhead_append {s : TokenStream} {steps : List (List Action)}
    {tail before after : List Event} {e : Event} (htail : ∀ x ∈ tail, x.token? = none)
    (he : e.token? = none) (h : s.eventsAhead steps ++ tail = before ++ e :: after) :
    (∃ i as, steps[i]? = some as ∧ e ∈ as.map .ofAction ∧
        (before.filterMap Event.token?).length = i) ∨
      e ∈ tail ∧ (before.filterMap Event.token?).length = steps.length := by
  -- on the tokens taken; of each, the event is one of its own, or it comes after the token read
  -- ahead
  induction steps generalizing s before with
  | nil =>
    rw [eventsAhead, List.nil_append] at h
    subst h
    have hbefore := Event.filterMap_token?_eq_nil fun x hx => htail x (List.mem_append_left _ hx)
    exact .inr ⟨by simp, by rw [hbefore, List.length_nil, List.length_nil]⟩
  | cons as steps ih =>
    rw [eventsAhead, List.append_assoc, List.cons_append] at h
    rcases List.append_eq_append_iff.mp h with ⟨us, rfl, hus⟩ | ⟨us, has, hus⟩
    · obtain ⟨us, rfl, hrest⟩ := Event.exists_of_tokenRead_cons he hus
      have hlength : ((as.map Event.ofAction ++ Event.tokenRead s.current :: us).filterMap
          Event.token?).length = (us.filterMap Event.token?).length + 1 := by
        rw [List.filterMap_append, Event.filterMap_token?_map_ofAction, List.nil_append,
          Event.filterMap_token?_cons, List.length_cons]
      rcases ih hrest with ⟨i, bs, hi, hbs, hcount⟩ | ⟨hmem, hcount⟩
      · exact .inl ⟨i + 1, bs, hi, hbs, by rw [hlength, hcount]⟩
      · exact .inr ⟨hmem, by rw [hlength, hcount, List.length_cons]⟩
    · have hnone := Event.filterMap_token?_map_ofAction as
      rw [has, List.filterMap_append, List.append_eq_nil_iff] at hnone
      have hmem : e ∈ as.map .ofAction := by
        rcases List.cons_eq_append_iff.mp hus with ⟨-, heq⟩ | ⟨vs, rfl, -⟩
        · rw [← (List.cons.inj heq).1] at he
          cases he
        · rw [has]
          simp
      exact .inl ⟨0, as, rfl, hmem, by rw [hnone.1]; rfl⟩

end TokenStream

/-! ### The log of a parse -/

namespace Parser

variable (p : Parser)

/-- The events of the token at which a parse stops, and the summary. -/
def closing : List Event :=
  p.stream.walk.last.map .ofAction ++ p.stream.walk.absence.map .faultFound ++
    [.finished p.file p.stream.walk.entries.length p.after.diagnostics.length]

/-- A log begins with two tokens. What follows is caused by the tokens, with one token read for
each that is taken. -/
theorem log_eq : p.log =
    .tokenRead (p.stream.get 0) :: .tokenRead (p.stream.get 1) ::
      ((p.stream.drop 2).eventsAhead p.stream.walk.steps ++ p.closing) := by
  simp only [log, events, closing, List.append_assoc]

/-- No token is read once the parse has stopped. -/
private theorem token?_eq_none_of_mem_closing : ∀ e ∈ p.closing, e.token? = none := by
  intro e he
  simp only [closing, List.mem_append, List.mem_map, List.mem_singleton] at he
  rcases he with (⟨a, -, rfl⟩ | ⟨d, -, rfl⟩) | rfl
  · exact Event.token?_ofAction a
  · rfl
  · rfl

/-- **The tokens that are read**: the first ones of the stream, two more than are taken. -/
theorem filterMap_token?_log :
    p.log.filterMap Event.token? =
      (List.range (p.stream.walk.steps.length + 2)).map p.stream.get := by
  have hget : (p.stream.drop 2).get = p.stream.get ∘ Nat.succ ∘ Nat.succ := by
    funext i
    rw [TokenStream.get_drop, Nat.add_comm]
    rfl
  rw [log_eq, Event.filterMap_token?_cons, Event.filterMap_token?_cons, List.filterMap_append,
    TokenStream.filterMap_token?_eventsAhead,
    Event.filterMap_token?_eq_nil p.token?_eq_none_of_mem_closing, List.append_nil, hget,
    List.range_succ_eq_map, List.range_succ_eq_map]
  simp

/-- What is read at the beginning of a log is read from the beginning of the stream. -/
theorem tokenRead_mem_of_log_eq_append {p : Parser} {before after : List Event}
    (h : p.log = before ++ after) {i : Nat} (hi : i < (before.filterMap Event.token?).length) :
    .tokenRead (p.stream.get i) ∈ before := by
  have htokens := p.filterMap_token?_log
  rw [h, List.filterMap_append] at htokens
  have hget : (before.filterMap Event.token? ++ after.filterMap Event.token?)[i]? =
      (before.filterMap Event.token?)[i]? := List.getElem?_append_left hi
  have hlen : i < p.stream.walk.steps.length + 2 := by
    have := congrArg List.length htokens
    rw [List.length_append, List.length_map, List.length_range] at this
    omega
  rw [htokens, List.getElem?_map, List.getElem?_range hlen] at hget
  obtain ⟨e, he, htoken⟩ := List.mem_filterMap.mp (List.mem_of_getElem? hget.symm)
  cases e with
  | tokenRead t => exact Option.some.inj htoken ▸ he
  | faultFound | entryRead | finished => cases htoken

/-- **When a token causes an event**: after the token that follows it was read. Only that there is
no request is caused by no token; it is found when the parse has stopped. -/
theorem exists_of_log_eq_append {p : Parser} {before after : List Event} {a : Action}
    (h : p.log = before ++ .ofAction a :: after) :
    ∃ i ≤ p.stream.walk.steps.length, (before.filterMap Event.token?).length = i + 2 ∧
      ((∃ as, p.stream.walk.causes[i]? = some as ∧ a ∈ as) ∨
        i = p.stream.walk.steps.length ∧ ∃ d ∈ p.stream.walk.absence, a = .report d) := by
  have ha := Event.token?_ofAction a
  rw [log_eq] at h
  -- the first two events are tokens, and the event comes after them
  obtain ⟨us, hlength, hus⟩ : ∃ us, (before.filterMap Event.token?).length =
      (us.filterMap Event.token?).length + 2 ∧
      (p.stream.drop 2).eventsAhead p.stream.walk.steps ++ p.closing =
        us ++ .ofAction a :: after := by
    obtain ⟨vs, rfl, hvs⟩ := Event.exists_of_tokenRead_cons ha h
    obtain ⟨us, rfl, hus⟩ := Event.exists_of_tokenRead_cons ha hvs
    exact ⟨us, rfl, hus⟩
  rw [hlength]
  rcases TokenStream.exists_of_eventsAhead_append p.token?_eq_none_of_mem_closing ha hus with
    ⟨i, as, hi, hmem, hcount⟩ | ⟨hmem, hcount⟩
  · have hlt : i < p.stream.walk.steps.length := (List.getElem?_eq_some_iff.mp hi).1
    rw [List.mem_map_of_injective Event.ofAction_injective] at hmem
    refine ⟨i, Nat.le_of_lt hlt, by rw [hcount], .inl ⟨as, ?_, hmem⟩⟩
    rw [Walk.causes, List.getElem?_append_left hlt, hi]
  · refine ⟨_, Nat.le_refl _, by rw [hcount], ?_⟩
    simp only [closing, List.mem_append, List.mem_singleton] at hmem
    rcases hmem with (hmem | hmem) | hmem
    · rw [List.mem_map_of_injective Event.ofAction_injective] at hmem
      exact .inl ⟨_, List.getElem?_concat_length, hmem⟩
    · obtain ⟨d, hd, heq⟩ := List.mem_map.mp hmem
      have hreport : Event.ofAction (.report d) = .ofAction a := heq
      exact .inr ⟨rfl, d, hd, (Event.ofAction_injective hreport).symm⟩
    · cases a <;> cases hmem

/-- What `f` finds in a log, if it finds no token and no summary, is what it finds in the actions
of the walk and in its `absence`. -/
private theorem filterMap_log {β : Type} {f : Event → Option β}
    (hread : ∀ t, f (.tokenRead t) = none)
    (hfinished : ∀ file n k, f (.finished file n k) = none) :
    p.log.filterMap f = p.stream.walk.actions.filterMap (f ∘ .ofAction) ++
      p.stream.walk.absence.filterMap (f ∘ .faultFound) := by
  rw [log_eq, List.filterMap_cons_none (hread _), List.filterMap_cons_none (hread _),
    List.filterMap_append, TokenStream.filterMap_eventsAhead f hread, closing,
    List.filterMap_append, List.filterMap_append, List.filterMap_map, List.filterMap_map,
    List.filterMap_cons_none (hfinished _ _ _), List.filterMap_nil, List.append_nil,
    ← List.append_assoc, ← List.filterMap_append]
  rfl

/-- **The faults that are found** are the `findings` of the walk. -/
theorem filterMap_fault?_log : p.log.filterMap Event.fault? = p.stream.walk.findings := by
  have haction : Event.fault? ∘ Event.ofAction = Action.diagnostic? := funext Event.fault?_ofAction
  have habsence : p.stream.walk.absence.filterMap (Event.fault? ∘ Event.faultFound) =
      p.stream.walk.absence := List.filterMap_some
  rw [p.filterMap_log (fun _ => rfl) fun _ _ _ => rfl, haction, habsence]
  rfl

/-- **The entries that are complete** are the `entries` that the walk closes. -/
theorem filterMap_entry?_log : p.log.filterMap Event.entry? = p.stream.walk.entries := by
  have haction : Event.entry? ∘ Event.ofAction = Action.entry? := funext Event.entry?_ofAction
  have habsence : p.stream.walk.absence.filterMap (Event.entry? ∘ Event.faultFound) = [] :=
    List.filterMap_eq_nil_iff.mpr fun _ _ => rfl
  rw [p.filterMap_log (fun _ => rfl) fun _ _ _ => rfl, haction, habsence, List.append_nil]
  rfl

end Parser

/-! ### One token ahead -/

namespace Descent

/-- **The parse looks at token `i` of the stream `s`**, and has read one token more than that: its
events say so. -/
structure State.Reads (s : TokenStream) (i : Nat) (m : State) : Prop where
  /-- The token that the parse looks at. -/
  current : m.current = s.get i
  /-- The token after it, which is the last one read. -/
  ahead : m.ahead = s.get (i + 1)
  /-- What is left to the reader. -/
  stream : m.reader.cursor.stream = s.drop (i + 2)
  /-- The tokens that were read. -/
  read : m.events.filterMap Event.token? = (List.range (i + 2)).map s.get
  /-- Where the token ends that was taken last, if there is one. -/
  consumed : ∀ j, i = j + 1 → m.consumed = (s.get j).span.stop

namespace State.Reads

variable {s : TokenStream} {i : Nat} {m m' : State}

private theorem act (h : m.Reads s i) (a : Action) : (m.act a).Reads s i := by
  have hread : ∀ e : Event, e.token? = none →
      (m.events ++ [e]).filterMap Event.token? = (List.range (i + 2)).map s.get := by
    intro e he
    rw [List.filterMap_append, h.read, List.filterMap_cons_none he, List.filterMap_nil,
      List.append_nil]
  cases a with
  | report d => exact ⟨h.current, h.ahead, h.stream, hread _ rfl, h.consumed⟩
  | close e => exact ⟨h.current, h.ahead, h.stream, hread _ rfl, h.consumed⟩

private theorem acts (h : m.Reads s i) (as : List Action) : (m.acts as).Reads s i := by
  induction as generalizing m with
  | nil => exact h
  | cons a as ih => exact ih (h.act a)

private theorem advance (h : m.Reads s i) : m.advance.Reads s (i + 1) := by
  have hnext := m.reader.cursor.next_fst
  have hrest := m.reader.cursor.stream_next
  rw [h.stream, TokenStream.current_drop] at hnext
  rw [h.stream, TokenStream.drop_drop] at hrest
  refine ⟨h.ahead, hnext, hrest, ?_, ?_⟩
  · have hevents : m.advance.events = m.events ++ [.tokenRead (s.get (i + 2))] := by
      rw [← hnext]
      rfl
    have hrange : List.range (i + 1 + 2) = List.range (i + 2) ++ [i + 2] := List.range_succ
    rw [hevents, List.filterMap_append, h.read, hrange, List.map_append]
    rfl
  · intro j hj
    rw [← Nat.succ.inj hj, ← h.current]
    rfl

private theorem conclude (h : m.Reads s i) : m.conclude.Reads s i := by
  have hrecord : (if m.entries.isEmpty then m.record (.noRequest m.current) else m).Reads s i := by
    split
    · exact h.act (.report _)
    · exact h
  refine ⟨hrecord.current, hrecord.ahead, hrecord.stream, ?_, hrecord.consumed⟩
  have hread := hrecord.read
  rw [State.conclude, State.emit, List.filterMap_append, hread]
  exact List.append_nil _

/-- A parse that begins looks at the first token. -/
private theorem ofReader (r : Reader) (file : Option String) :
    (State.ofReader r file).Reads r.cursor.stream 0 := by
  obtain ⟨hcurrent, hahead, hstream⟩ := State.standsAt_ofReader r file
  refine ⟨hcurrent, hahead, hstream, ?_, fun j hj => absurd hj (Nat.succ_ne_zero j).symm⟩
  rw [State.events_ofReader]
  rfl

/-- A step stays at a token, or goes to the next. -/
private theorem of_moves (h : m.Reads s i) (hm : m.Moves m') : ∃ k ≥ i, m'.Reads s k := by
  obtain ⟨as, rfl | rfl⟩ := hm
  · exact ⟨i, Nat.le_refl i, h.acts as⟩
  · exact ⟨i + 1, Nat.le_succ i, (h.acts as).advance⟩

/-- **A run keeps one token ahead**, and it never goes back. -/
theorem of_reaches {d d' : Descent} (h : d.state.Reads s i) (hd : d.Reaches d') :
    ∃ k ≥ i, d'.state.Reads s k := by
  unfold Reaches at hd
  induction hd with
  | refl => exact ⟨i, Nat.le_refl i, h⟩
  | tail _ hstep ih =>
    obtain ⟨k, hk, hreads⟩ := ih
    obtain ⟨k', hk', hreads'⟩ := hreads.of_moves (moves_of_step hstep)
    exact ⟨k', Nat.le_trans hk hk', hreads'⟩

/-- The end of a run is not before its beginning. -/
theorem of_ends {d : Descent} {r : Except Rejection Script} (h : d.state.Reads s i)
    (hd : d.Ends m r) : ∃ k ≥ i, m.Reads s k := by
  obtain ⟨d', hreach, hover⟩ := hd
  obtain ⟨k, hk, hreads⟩ := h.of_reaches hreach
  obtain ⟨as, rfl⟩ := exists_conclude_of_step hover
  exact ⟨k, hk, (hreads.acts as).conclude⟩

/-- As many tokens were read as the events say. -/
private theorem unique {k : Nat} (h : m.Reads s i) (h' : m.Reads s k) : i = k := by
  have hlength := congrArg List.length (h.read.symm.trans h'.read)
  simpa using hlength

end State.Reads

end Descent

/-! ### How far a parse reads -/

section Text

variable {source : String} {file : Option String}

/-- What is reported where a walk stops is among its findings. -/
private theorem Walk.mem_findings_of_mem_last {w : Walk} {d : Diagnostic}
    (h : .report d ∈ w.last) : d ∈ w.findings :=
  List.mem_append_left _ (List.mem_filterMap.mpr ⟨_, List.mem_append_right _ h, rfl⟩)

/-- **A script is taken as a whole** by the `steps` of the walk: nothing is complained of, so no
token before the end stops it. -/
private theorem length_steps_walk_of_parse (h : ∃ s, parse source file = .ok s) :
    (tokenize source).walk.steps.length = (tokenize source).tokens.length := by
  rw [exists_parse_eq_ok_iff, complaints_parse] at h
  obtain ⟨-, hreport⟩ := (tokenize source).stop_walk
  have hk : (tokenize source).walk.rest.current.kind = .endOfInput := by
    by_contra hk
    have hfound := Walk.mem_findings_of_mem_last (hreport hk)
    rw [h] at hfound
    cases hfound
  rw [TokenStream.rest_walk, TokenStream.current_drop] at hk
  refine Nat.le_antisymm (tokenize source).length_steps_walk_le (Nat.le_of_not_lt fun hlt => ?_)
  refine Cursor.kind_ne_endOfInput_of_mem (List.getElem_mem hlt) ?_
  rwa [TokenStream.get_of_lt hlt] at hk

/-- **When a fault is found**: one at the token of index `i` after `i + 2` tokens were read. Only
that there is no request is found at the token at which the parse has stopped. -/
private theorem exists_of_faultFound {before after : List Event} {d : Diagnostic}
    (h : (Parser.ofString source file).log = before ++ .faultFound d :: after) :
    ∃ i ≤ (tokenize source).walk.steps.length, (before.filterMap Event.token?).length = i + 2 ∧
      ((∃ e, d = .unexpected ((tokenize source).get i) e) ∨
        i = (tokenize source).walk.steps.length ∧ d = .noRequest ((tokenize source).get i)) := by
  have hfault : (Parser.ofString source file).log = before ++ .ofAction (.report d) :: after := h
  have hstream : (Parser.ofString source file).stream = tokenize source := rfl
  obtain ⟨i, hi, hcount, hcause⟩ := Parser.exists_of_log_eq_append hfault
  rw [hstream] at hi hcause
  refine ⟨i, hi, hcount, ?_⟩
  rcases hcause with ⟨as, has, hd⟩ | ⟨rfl, d', hd', heq⟩
  · obtain ⟨q, hq, -⟩ := TokenStream.exists_feed hi
    obtain rfl := Option.some.inj (has.symm.trans hq)
    exact .inl (Phase.exists_unexpected_of_mem_reports_feed q _ d
      (List.mem_filterMap.mpr ⟨_, hd, rfl⟩))
  · obtain rfl := Action.report.inj heq
    refine .inr ⟨rfl, ?_⟩
    rw [Walk.absence, TokenStream.rest_walk, TokenStream.current_drop] at hd'
    split at hd'
    · exact List.mem_singleton.mp hd'
    · cases hd'

/-- **Where a descent ends**: it looks at the token at which the walk stops, and it has read one
more (`State.Reads`). -/
theorem Descent.reads_of_ends {m : State} {r : Except Rejection Script}
    (h : (ofString source file).Ends m r) :
    m.Reads (tokenize source) (tokenize source).walk.steps.length := by
  obtain ⟨m', hends, -, hlog⟩ := ends_ofString source file
  obtain ⟨rfl, -⟩ := h.unique hends
  obtain ⟨c, -, hc⟩ := (State.Reads.ofReader (.ofString source) file).of_ends h
  have hread := hc.read
  rw [hlog, Parser.filterMap_token?_log] at hread
  have hlength := congrArg List.length hread
  rw [List.length_map, List.length_map, List.length_range, List.length_range] at hlength
  rwa [← Nat.add_right_cancel hlength] at hc

end Text

/-- **A parse comes to an end**, and on the way it reads one token ahead and nothing past the end.
Whatever the descent of a text reaches leads to that end, with the result of `parse` and with the
`log` of the parser. At each place it looks at a token that is not after the last one, token `c`,
and has read just the one that follows; so `c + 2` tokens are read in all, the end of the text
again and again. The tokens that are taken are before the end, and none of them is illegal; a
script is taken as a whole. Token `c` is the end, or it is no method and has been reported. A fault
at a token is found when the token after it has just been read. -/
theorem Descent.exists_ends_reading_ahead (source : String) (file : Option String) :
    ∃ (m : State) (c : Nat), c ≤ (tokenize source).tokens.length ∧
      (∀ d, (ofString source file).Reaches d →
        d.Ends m (parse source file) ∧ ∃ i ≤ c, d.state.Reads (tokenize source) i) ∧
      m.Reads (tokenize source) c ∧
      m.events = (Parser.ofString source file).log ∧
      (∀ i < c, ((tokenize source).get i).kind ≠ .endOfInput ∧
        ((tokenize source).get i).kind ≠ .illegal) ∧
      (m.current.kind = .endOfInput ∨
        m.current.kind.isMethod = false ∧ .unexpected m.current .method ∈ m.diagnostics) ∧
      ((∃ s, parse source file = .ok s) → c = (tokenize source).tokens.length) ∧
      ∀ before d after, m.events = before ++ .faultFound d :: after →
        ∃ i ≤ c, (before.filterMap Event.token?).length = i + 2 ∧
          ((∃ e, d = .unexpected ((tokenize source).get i) e) ∨
            i = c ∧ d = .noRequest ((tokenize source).get i)) := by
  obtain ⟨m, hends, hholds, hlog⟩ := ends_ofString source file
  have hreads := reads_of_ends hends
  obtain ⟨hm, hreport⟩ := (tokenize source).stop_walk
  rw [TokenStream.rest_walk, TokenStream.current_drop, ← hreads.current] at hm hreport
  have hfound : m.diagnostics = (tokenize source).walk.findings := hholds.diagnostics
  refine ⟨m, (tokenize source).walk.steps.length, (tokenize source).length_steps_walk_le,
    fun d hd => ⟨hends.of_reaches hd, ?_⟩, hreads, hlog, fun i hi => TokenStream.kind_get_of_lt hi,
    ?_, length_steps_walk_of_parse,
    fun before d after h => exists_of_faultFound (hlog.symm.trans h)⟩
  · -- the place of `d` is not after the end
    obtain ⟨i, -, hi⟩ := (State.Reads.ofReader (.ofString source) file).of_reaches hd
    obtain ⟨c, hc, hreads'⟩ := hi.of_ends (hends.of_reaches hd)
    exact ⟨i, hreads'.unique hreads ▸ hc, hi⟩
  · by_cases hk : m.current.kind = .endOfInput
    · exact .inl hk
    · rw [hfound]
      exact .inr ⟨hm, Walk.mem_findings_of_mem_last (hreport hk)⟩

/-- A script of two tokens is taken as a whole. And a numeral between entries stops a parse: it has
taken two tokens then and read four, and its fault is found when they have been read. -/
theorem Descent.exists_ends_reading_ahead_of_stray_numeral :
    (∃ m, (ofString "GET u" none).Ends m (parse "GET u" none) ∧ m.Reads (tokenize "GET u") 2) ∧
    ∃ m, (ofString "GET u\n5 x" none).Ends m (parse "GET u\n5 x" none) ∧
      m.Reads (tokenize "GET u\n5 x") 2 ∧
      ∃ before after, m.events = before ++ .faultFound ⟨.expected "HTTP method", 2, "5"⟩ :: after ∧
        (before.filterMap Event.token?).length = 4 ∧
        ∃ e, ⟨.expected "HTTP method", 2, "5"⟩ =
          Diagnostic.unexpected ((tokenize "GET u\n5 x").get 2) e := by
  constructor
  · have hscript : (parse "GET u" none).toBool = true := by decide +kernel
    have hlength : (tokenize "GET u").tokens.length = 2 := by decide +kernel
    obtain ⟨m, c, -, hreached, hreads, -, -, -, hall, -⟩ := exists_ends_reading_ahead "GET u" none
    rw [hlength] at hall
    refine ⟨m, (hreached _ .refl).1, hall ?_ ▸ hreads⟩
    cases h : parse "GET u" none with
    | ok s => exact ⟨s, rfl⟩
    | error r => simp [h, Except.toBool] at hscript
  · have hsplit : (Parser.ofString "GET u\n5 x" none).log =
        (Parser.ofString "GET u\n5 x" none).log.take 5 ++
          .faultFound ⟨.expected "HTTP method", 2, "5"⟩ ::
            (Parser.ofString "GET u\n5 x" none).log.drop 6 := by
      decide +kernel
    have hcount : (((Parser.ofString "GET u\n5 x" none).log.take 5).filterMap
        Event.token?).length = 4 := by
      decide +kernel
    have hread : ((Parser.ofString "GET u\n5 x" none).log.filterMap Event.token?).length = 4 := by
      decide +kernel
    obtain ⟨m, c, -, hreached, hreads, hlog, -, -, -, hfaults⟩ :=
      exists_ends_reading_ahead "GET u\n5 x" none
    obtain ⟨i, -, hi, hfault⟩ := hfaults _ _ _ (hlog.trans hsplit)
    have hc : c = 2 := by
      rw [← hlog, hreads.read, List.length_map, List.length_range] at hread
      exact Nat.add_right_cancel hread
    have hi' : i = 2 := Nat.add_right_cancel (hi.symm.trans hcount)
    subst hc hi'
    refine ⟨m, (hreached _ .refl).1, hreads, _, _, hlog.trans hsplit, hcount, ?_⟩
    exact hfault.resolve_right fun h => by cases h.2

end RequestScript
