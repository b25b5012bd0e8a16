import RequestScript.Proofs.Parser.Lookahead
import RequestScript.Proofs.Script.Ranges
import RequestScript.Proofs.Text.Quoted

/-!
# The log and the result

What a parse does agrees with its result. The faults that are shown are the messages of the
rejection and the entries are those of the script, with their numbers in the summary at the end
(`Descent.exists_ends_shown_events`). Two things are behind it:

* **Every method that is taken opens an entry, and every entry that was opened is closed**, whether
  or not anything is wrong with it (`TokenStream.length_entries_walk`).
* **An entry of a script is closed when all its tokens were taken**, and no token after them
  (`exists_areEntries_of_close`). So they were read before.

Events are shown by `Event.message` and `Event.details`. The words tell of what kind an event is
(`Event.filter_message_eq`), and what is shown of a summary tells all of it
(`Event.finished_eq_of_details_eq`).
-/

namespace RequestScript

open Grammar

/-! ### Entries are opened and closed -/

/-- The entries that a reaction closes. -/
def Reaction.entries (r : Reaction) : List Entry :=
  r.actions.filterMap Action.entry?

namespace Reaction

@[simp]
private theorem entries_precededBy_report (r : Reaction) (d : Diagnostic) :
    (r.precededBy (.report d)).entries = r.entries := rfl

@[simp]
private theorem entries_precededBy_close (r : Reaction) (e : Entry) :
    (r.precededBy (.close e)).entries = e :: r.entries := rfl

end Reaction

namespace Phase

variable {p : Phase} {t : Token}

/-- `feedOutside` closes no entry. -/
@[simp]
theorem entries_feedOutside (t : Token) : (feedOutside t).entries = [] := by
  rw [feedOutside]
  split
  · rfl
  · split <;> rfl

/-- A token that is no method closes the entry that is open if it stops the parse, and leaves it
open otherwise. -/
private theorem closes_or_stays_of_alike {u : Token} {r s : Reaction} (h : Reaction.Alike t u r s)
    (ht : t.kind.isMethod = false) :
    (r.next = none ∧ r.entries.length = 1) ∨
      ∃ q, r.next = some q ∧ q.place ≠ .outside ∧ r.entries = [] := by
  induction h with
  | take h hp => exact .inr ⟨_, rfl, hp, rfl⟩
  | close e f =>
    refine .inl ⟨?_, by simp [feedClosing]⟩
    cases hnext : (feedOutside t).next with
    | none => exact hnext
    | some q => simp [isMethod_of_next_feedOutside hnext] at ht
  | report _ e ih => exact ih

/-- **A method closes the entry that is open**, and opens the next one: the phase after it is
`url`. -/
private theorem feed_of_isMethod (hp : p.place ≠ .outside) (ht : t.kind.isMethod = true) :
    (p.feed t).next = some (.url t) ∧ (p.feed t).entries.length = 1 := by
  obtain ⟨hs, hn, hh, hc, -⟩ := Token.EndsEntry.kind_ne (.inl ht)
  have hv : t.isValue = false := by simp [Token.isValue, hs, hn]
  refine ⟨by rw [(feed_of_endsEntry (.inl ht) p).2, feedOutside, if_pos ht]; rfl, ?_⟩
  cases p <;>
    simp_all [feed, feedUrl, feedHeaders, feedResponse, feedStatus, feedTag, feedCaptures,
      feedClosing, place]

/-- **A walk within an entry** closes that entry, and one more for each method among the tokens
that its `steps` take. -/
private theorem length_entries_walk (hp : p.place ≠ .outside) (stop : Position) (ts : List Token) :
    (p.walk stop ts).entries.length =
      (ts.take (p.walk stop ts).steps.length).countP (·.kind.isMethod) + 1 := by
  have hfeed : ∀ (p : Phase) (t : Token), p.place ≠ .outside → t.kind.isMethod = false →
      ((p.feed t).next = none ∧ (p.feed t).entries.length = 1) ∨
        ∃ q, (p.feed t).next = some q ∧ q.place ≠ .outside ∧ (p.feed t).entries = [] := by
    intro p t hp ht
    exact closes_or_stays_of_alike (alike_feed ⟨id, id, rfl⟩ (q := p) rfl hp) ht
  induction ts generalizing p with
  | nil =>
    rw [walk_nil]
    obtain ⟨-, hone⟩ | ⟨q, hq, -⟩ := hfeed p (.endOfInput stop) hp rfl
    · exact hone
    · rw [p.next_feed_of_endOfInput rfl] at hq
      cases hq
  | cons t ts ih =>
    have hcons : ∀ q, (p.feed t).next = some q →
        (p.walk stop (t :: ts)).entries = (p.feed t).entries ++ (q.walk stop ts).entries ∧
          (p.walk stop (t :: ts)).steps.length = (q.walk stop ts).steps.length + 1 := by
      intro q hq
      rw [walk_cons_of_next hq, Walk.entries, actions_cons, List.filterMap_append]
      exact ⟨rfl, rfl⟩
    cases hm : t.kind.isMethod with
    | true =>
      obtain ⟨hnext, hone⟩ := feed_of_isMethod hp hm
      obtain ⟨hentries, hlength⟩ := hcons _ hnext
      rw [hentries, hlength, List.length_append, hone, ih (by simp [place]), List.take_succ_cons,
        List.countP_cons, if_pos hm]
      omega
    | false =>
      rcases hfeed p t hp hm with ⟨hnext, hone⟩ | ⟨q, hnext, hq, hnone⟩
      · rw [walk_cons_of_stop hnext]
        exact hone
      · obtain ⟨hentries, hlength⟩ := hcons _ hnext
        rw [hentries, hlength, hnone, List.nil_append, ih hq, List.take_succ_cons,
          List.countP_cons, if_neg (by simp [hm])]

end Phase

/-- **There are as many `entries` as methods that were taken** by the `steps` of the walk, whether
or not anything is wrong with them. -/
theorem TokenStream.length_entries_walk (s : TokenStream) :
    s.walk.entries.length =
      (s.tokens.take s.walk.steps.length).countP (·.kind.isMethod) := by
  cases hm : s.current.kind.isMethod with
  | true =>
    obtain ⟨us, hus⟩ := exists_tokens_eq_cons hm
    have hfeed : (Phase.outside.feed s.current).next = some (.url s.current) := by
      rw [Phase.feed, Phase.feedOutside, if_pos hm]
      rfl
    have hwalk : s.walk = ((Phase.url s.current).walk s.stop us).cons [] := by
      rw [walk, hus, Phase.walk_cons_of_next hfeed, Phase.feed, Phase.feedOutside, if_pos hm]
      rfl
    have hentries :=
      Phase.length_entries_walk (p := .url s.current) (by simp [Phase.place]) s.stop us
    have hsteps : (((Phase.url s.current).walk s.stop us).cons []).steps.length =
        ((Phase.url s.current).walk s.stop us).steps.length + 1 := rfl
    rw [hwalk, hsteps, hus, List.take_succ_cons, List.countP_cons, if_pos hm, ← hentries]
    rfl
  | false =>
    have hentries : (Phase.feedOutside s.current).entries = [] := Phase.entries_feedOutside _
    rw [walk_of_not_isMethod hm]
    exact congrArg List.length hentries

/-! ### When the entries of a script are closed -/

namespace Phase

variable {p q : Phase} {t : Token} {ts us : List Token} {es : List Entry} {stop : Position}

/-- A token that closes entries stands where they are complete (`Ends`). -/
private theorem Takes.ends_of_mem {e : Entry} (h : p.Takes t es q) (he : e ∈ es) : p.Ends es := by
  cases h with
  | method hp => exact hp
  | url | headerKey | headerValue | marker | status | tag | captureKey | captureValue => cases he

/-- The first of the `causes` of a walk are the actions of its first token. -/
private theorem causes_walk_zero (p : Phase) (stop : Position) (ts : List Token) :
    (p.walk stop ts).causes[0]? = some (p.feed (ts.headD (.endOfInput stop))).actions := by
  cases ts with
  | nil =>
    rw [walk_nil]
    rfl
  | cons t ts =>
    cases hnext : (p.feed t).next with
    | none =>
      rw [walk_cons_of_stop hnext]
      rfl
    | some q =>
      rw [walk_cons_of_next hnext]
      rfl

/-- A walk over tokens that are passed goes on from there, with the `causes` of what follows. -/
private theorem Passes.causes_walk (h : p.Passes us es q) (stop : Position) (ts : List Token) :
    (p.walk stop (us ++ ts)).causes[us.length]? = (q.walk stop ts).causes[0]? := by
  induction h with
  | nil => rfl
  | cons ht _ ih =>
    rw [List.cons_append, walk_of_takes ht, List.length_cons]
    exact ih

/-- **Where tokens are accepted, an entry is closed where it is complete**: the tokens before are
passed, and then nothing is missing (`Ends`). -/
private theorem Accepts.exists_ends_of_close (h : p.Accepts ts es) {i : Nat} {as : List Action}
    {e : Entry} (hi : (p.walk stop ts).causes[i]? = some as) (he : .close e ∈ as) :
    ∃ es₁ q es₂, p.Passes (ts.take i) es₁ q ∧ q.Ends es₂ ∧ e ∈ es₂ := by
  obtain ⟨fs, r, gs, hpasses, hends, -⟩ := h
  have hle : i ≤ ts.length := by
    have hlt := (List.getElem?_eq_some_iff.mp hi).1
    have hlen := (rest_walk p stop ts).1
    rw [Walk.causes, List.length_append, List.length_singleton] at hlt
    omega
  rw [← List.take_append_drop i ts] at hpasses
  obtain ⟨es₁, q, es₂, hbefore, hafter, -⟩ := hpasses.exists_of_append
  have hcauses := hbefore.causes_walk stop (ts.drop i)
  rw [List.take_append_drop, List.length_take_of_le hle, hi, causes_walk_zero] at hcauses
  obtain rfl := Option.some.inj hcauses
  -- the token at which the entry is closed is taken, or it is the end
  refine ⟨es₁, q, ?_⟩
  generalize ts.drop i = us at hafter he
  cases hafter with
  | nil =>
    rw [List.headD_nil, hends.feed_eq rfl] at he
    exact ⟨gs, hbefore, hends, by simpa using he⟩
  | cons ht _ =>
    rw [List.headD_cons, ht.feed_eq] at he
    have hmem := by simpa using he
    exact ⟨_, hbefore, ht.ends_of_mem hmem, hmem⟩

end Phase

/-- **An entry of a script is closed when its tokens were taken**: the `i` tokens taken until then
make up entries, of which it is one. -/
private theorem exists_areEntries_of_close {ts : List Token} {es : List Entry}
    (h : AreEntries ts es) (hne : ∀ t ∈ ts, t.literal ≠ "") {stop : Position} {i : Nat}
    {as : List Action} {e : Entry} (hi : (Phase.outside.walk stop ts).causes[i]? = some as)
    (he : .close e ∈ as) :
    ∃ fs, AreEntries (ts.take i) fs ∧ e ∈ fs := by
  have haccepts := Phase.accepts_outside_iff.mpr ⟨es, h, rfl⟩
  obtain ⟨es₁, q, es₂, hpasses, hends, hmem⟩ := haccepts.exists_ends_of_close hi he
  obtain ⟨fs, -, hreached⟩ := Reached.outside.passes hpasses
  obtain ⟨gs, rfl, hentries⟩ := hreached.ends hends
  rw [List.nil_append, List.nil_append] at hentries
  have hrejoin := hentries.map_rejoin_eq fun t ht => hne t (List.mem_of_mem_take ht)
  rw [List.map_append] at hrejoin
  rw [(List.append_inj' hrejoin (List.length_map _)).2] at hmem
  exact ⟨fs ++ gs, hentries, List.mem_append_right fs hmem⟩

/-- Every entry has a run of the tokens for itself. -/
private theorem Grammar.AreEntries.exists_run {ts : List Token} {es : List Entry}
    (h : AreEntries ts es) {e : Entry} (he : e ∈ es) :
    ∃ before run after, ts = before ++ run ++ after ∧ IsEntry run e := by
  induction h with
  | nil => cases he
  | @cons ts us f fs hf _ ih =>
    rcases List.mem_cons.mp he with rfl | he
    · exact ⟨[], ts, us, rfl, hf⟩
    · obtain ⟨before, run, after, rfl, hrun⟩ := ih he
      exact ⟨ts ++ before, run, after, by simp only [List.append_assoc], hrun⟩

/-- **Tokens in an entry** `e` are among those of which it is made. -/
private theorem mem_of_encloses {cs : List Char} {ts us : List Token} {es : List Entry} {e : Entry}
    {t : Token} (hl : LaidOut cs (ts ++ us)) (h : AreEntries ts es) (he : e ∈ es)
    (ht : t ∈ ts ++ us) (hin : e.span.encloses t.span = true) : t ∈ ts := by
  obtain ⟨before, run, after, rfl, hrun⟩ := h.exists_run he
  rw [List.append_assoc] at hl ht
  rw [hrun.span_eq] at hin
  have hmem : t ∈ (before ++ run ++ (after ++ us)).filter
      (fun t => (Span.ofTokens run).encloses t.span) := List.mem_filter.mpr ⟨ht, hin⟩
  rw [hl.filter_encloses hrun.ne_nil] at hmem
  simp [hmem]

/-! ### What the log and the result agree on -/

/-- Until a parse stops, its events are a `tokenRead` or what an action causes. -/
private theorem TokenStream.exists_of_mem_eventsAhead {s : TokenStream}
    {steps : List (List Action)} {e : Event} (h : e ∈ s.eventsAhead steps) :
    (∃ t, e = .tokenRead t) ∨ ∃ a, e = .ofAction a := by
  induction steps generalizing s with
  | nil => cases h
  | cons as steps ih =>
    rw [eventsAhead, List.mem_append, List.mem_map, List.mem_cons] at h
    rcases h with ⟨a, -, rfl⟩ | rfl | hrest
    · exact .inr ⟨a, rfl⟩
    · exact .inl ⟨_, rfl⟩
    · exact ih hrest

namespace Parser

/-- **A log ends with the summary** (`finished`), which is the only one. The numbers in that of a
first parse are those of its entries and of its faults. -/
private theorem exists_log_eq_concat {p : Parser} (hp : p.diagnostics = []) :
    ∃ before : List Event,
      p.log = before ++ [.finished p.file p.stream.walk.entries.length
        p.stream.walk.findings.length] ∧
      before.filterMap Event.entry? = p.stream.walk.entries ∧
      before.filterMap Event.fault? = p.stream.walk.findings ∧
      ∀ f n m, .finished f n m ∉ before := by
  have hdiagnostics : p.after.diagnostics = p.stream.walk.findings := by
    rw [after, hp, List.nil_append]
  have hentries := p.filterMap_entry?_log
  have hfaults := p.filterMap_fault?_log
  rw [log, events, hdiagnostics, ← List.cons_append, ← List.cons_append] at hentries hfaults ⊢
  rw [List.filterMap_append] at hentries hfaults
  -- the summary is neither an entry nor a fault
  change _ ++ [] = _ at hentries hfaults
  rw [List.append_nil] at hentries hfaults
  refine ⟨_, rfl, hentries, hfaults, fun f n m h => ?_⟩
  have hother : ∀ e, (∃ t, e = Event.tokenRead t) ∨ (∃ a, e = Event.ofAction a) →
      e ≠ .finished f n m := by
    rintro e (⟨t, rfl⟩ | ⟨d | c, rfl⟩) <;> exact Event.noConfusion
  simp only [List.mem_cons, List.mem_append, List.mem_map, reduceCtorEq, false_or, and_false,
    exists_false, or_false] at h
  rcases h with h | ⟨a, -, h⟩
  · exact hother _ (TokenStream.exists_of_mem_eventsAhead h) rfl
  · exact hother _ (.inr ⟨a, rfl⟩) h

end Parser

/-- **Before an entry of a script is complete** (`entryRead`), **all its tokens are read.** -/
private theorem tokenRead_mem_of_entryRead {source : String} {file : Option String} {s : Script}
    (h : parse source file = .ok s) {before after : List Event} {e : Entry}
    (hlog : (Parser.ofString source file).log = before ++ .entryRead e :: after) {t : Token}
    (ht : t ∈ (tokenize source).tokens) (hin : e.span.encloses t.span = true) :
    .tokenRead t ∈ before := by
  have hclose : (Parser.ofString source file).log = before ++ .ofAction (.close e) :: after := hlog
  obtain ⟨i, -, hcount, ⟨as, has, he⟩ | ⟨-, d, -, heq⟩⟩ := Parser.exists_of_log_eq_append hclose
  · obtain ⟨es, hes, -⟩ := isScript_iff.mp (parse_eq_ok_iff.mp h)
    obtain ⟨fs, hfs, hmem⟩ :=
      exists_areEntries_of_close hes (fun u hu => literal_ne_empty_of_mem_tokenize hu) has he
    have hlaid := laidOut_tokenize fun u hu => hes.kind_ne_illegal hu
    rw [← List.take_append_drop i (tokenize source).tokens] at hlaid ht
    obtain ⟨j, hj, hget⟩ := List.mem_take_iff_getElem.mp (mem_of_encloses hlaid hfs hmem ht hin)
    have hread := Parser.tokenRead_mem_of_log_eq_append hlog (i := j) (by omega)
    have hgetj : (tokenize source).get j = t := by
      rw [TokenStream.get_of_lt (by omega), hget]
    exact hgetj ▸ hread
  · cases heq

/-- **The entries of a script come in their order**: `e` is the one that has as many before it as
the events `us` have. -/
private theorem getElem?_entries_of_entryRead {source : String} {file : Option String} {s : Script}
    (h : parse source file = .ok s) {us vs : List Event} {e : Entry}
    (hentries : (us ++ .entryRead e :: vs).filterMap Event.entry? =
      (tokenize source).walk.entries) :
    s.entries[(us.filterMap Event.entry?).length]? = some e := by
  obtain ⟨-, -, rfl⟩ := (Parser.result_eq_ok_iff_walk rfl).mp h
  rw [List.filterMap_append] at hentries
  change (tokenize source).walk.entries[_]? = some e
  rw [← hentries, List.getElem?_append_right (Nat.le_refl _), Nat.sub_self]
  rfl

/-! ### Events as they are shown -/

namespace Event

/-- **Words pick out a kind of event**: if `w` is the message of the events that `g` makes, and of
no others, then filtering by `w` is finding them by `f`. -/
private theorem filter_message_eq {β : Type} {w : String} {f : Event → Option β} {g : β → Event}
    (h : ∀ e, (f e).map g = Option.guard (·.message = w) e) (es : List Event) :
    es.filter (·.message = w) = (es.filterMap f).map g := by
  rw [List.map_filterMap, ← List.filterMap_eq_filter]
  exact List.filterMap_congr fun e _ => (h e).symm

private theorem map_fault? (e : Event) :
    (e |> fault?).map faultFound = Option.guard (·.message = "parse error") e := by
  cases e <;> simp [message, fault?, Option.guard]

private theorem map_entry? (e : Event) :
    (e |> entry?).map entryRead = Option.guard (·.message = "parsed entry") e := by
  cases e <;> simp [message, entry?, Option.guard]

/-- Only a summary has the words `parsed program`. -/
private theorem exists_finished_of_message {e : Event} (h : e.message = "parsed program") :
    ∃ file n k, e = finished file n k := by
  cases e with
  | finished file n k => exact ⟨file, n, k, rfl⟩
  | tokenRead | faultFound | entryRead => simp [message] at h

/-- Only an entry has the words `parsed entry`. -/
private theorem exists_entryRead_of_message {e : Event} (h : e.message = "parsed entry") :
    ∃ f, e = entryRead f := by
  cases e with
  | entryRead f => exact ⟨f, rfl⟩
  | tokenRead | faultFound | finished => simp [message] at h

/-- **A summary shows what it holds**: its `details` tell the name of the file and both numbers. -/
theorem finished_eq_of_details_eq {f g : Option String} {n n' k k' : Nat}
    (h : (finished f n k).details = (finished g n' k').details) :
    finished f n k = finished g n' k' := by
  simp only [details, List.cons.injEq, Prod.mk.injEq, Detail.text.injEq, Detail.number.injEq,
    true_and, and_true] at h
  obtain ⟨hfile, rfl, rfl⟩ := h
  rw [Quoted.quoteOption_injective hfile]

end Event

/-- **The events of a parse agree with its result**, as they are shown by `Event.message` and
`Event.details`. The last one, and no other, is the summary; it shows the name of the file, and the
numbers of the events for entries and for faults. The faults show the messages of the rejection,
and without any the text is a script. There is an entry for each method among the tokens before
token `c`, at which the parse stopped. The entries of a script are shown in their order, with their
method, URL, status and numbers of fields; and before one is shown, all tokens in it are. -/
theorem Descent.exists_ends_shown_events (source : String) (file : Option String) :
    ∃ (m : State) (before : List Event) (last : Event),
      (ofString source file).Ends m (parse source file) ∧
      m.events = (Parser.ofString source file).log ∧
      m.events = before ++ [last] ∧
      last.message = "parsed program" ∧ (∀ e ∈ before, e.message ≠ "parsed program") ∧
      last.details = [("filename", .text (Quoted.quoteOption file)),
        ("entries", .number (before.filter (·.message = "parsed entry")).length),
        ("diagnostics", .number (before.filter (·.message = "parse error")).length)] ∧
      (∀ r, parse source file = .error r →
        (before.filter (·.message = "parse error")).map Event.details =
          r.messages.map fun text => [("diagnostic", .text text)]) ∧
      (before.filter (·.message = "parse error") = [] ↔ ∃ s, parse source file = .ok s) ∧
      (∃ c ≤ (tokenize source).tokens.length, m.Reads (tokenize source) c ∧
        (before.filter (·.message = "parsed entry")).length =
          ((tokenize source).tokens.take c).countP (·.kind.isMethod)) ∧
      ∀ s, parse source file = .ok s →
        (before.filter (·.message = "parsed entry")).map Event.details =
          s.entries.map (fun e => [("method", .text e.request.endpoint.method),
            ("url", .text e.request.endpoint.url), ("headers", .number e.request.headers.length),
            ("status", .number e.response.status.toNat),
            ("captures", .number e.response.captures.length)]) ∧
        ∀ us x vs, before = us ++ x :: vs → x.message = "parsed entry" →
          ∃ e, s.entries[(us.filter (·.message = "parsed entry")).length]? = some e ∧
            ∀ t ∈ (tokenize source).tokens, e.span.encloses t.span = true →
              ∃ y ∈ us, y.message = "scanned token" ∧
                y.details = [("kind", .text t.kind.name), ("literal", .text t.literal),
                  ("line", .number t.line), ("start", .number t.span.start),
                  ("end", .number t.span.stop)] := by
  obtain ⟨m, hends, -, hevents⟩ := ends_ofString source file
  obtain ⟨before, hlog, hentries, hfaults, hfinished⟩ :=
    Parser.exists_log_eq_concat (p := .ofString source file) rfl
  have hstream : (Parser.ofString source file).stream = tokenize source := rfl
  rw [hstream, ← complaints_parse source file] at hfaults
  rw [hstream] at hentries
  simp only [Event.filter_message_eq Event.map_fault?, Event.filter_message_eq Event.map_entry?,
    List.length_map, List.map_eq_nil_iff, List.map_map]
  refine ⟨m, before, _, hends, hevents, hevents.trans hlog, rfl, fun e he hmessage => ?_, ?_,
    fun r hr => ?_, ?_, ?_, fun s hs => ⟨?_, fun us x vs hus hx => ?_⟩⟩
  · obtain ⟨f, n, k, rfl⟩ := Event.exists_finished_of_message hmessage
    exact hfinished f n k he
  · rw [hentries, hfaults, hstream, complaints_parse]
    rfl
  · rw [hfaults, hr, Rejection.messages, List.map_map]
    rfl
  · rw [hfaults, exists_parse_eq_ok_iff]
  · rw [hentries]
    exact ⟨_, (tokenize source).length_steps_walk_le, reads_of_ends hends,
      TokenStream.length_entries_walk _⟩
  · obtain ⟨-, -, rfl⟩ := (Parser.result_eq_ok_iff_walk rfl).mp hs
    rw [hentries]
    rfl
  · obtain ⟨e, rfl⟩ := Event.exists_entryRead_of_message hx
    have hindex := getElem?_entries_of_entryRead hs (hus ▸ hentries)
    refine ⟨e, hindex, fun t ht hin => ⟨.tokenRead t, ?_, rfl, rfl⟩⟩
    rw [hus, List.append_assoc, List.cons_append] at hlog
    exact tokenRead_mem_of_entryRead hs hlog ht hin

/-- A script of two requests: its two entries are shown, the second after the token of its URL. And
a numeral after a request: one fault is shown, with the message of the rejection. -/
theorem Descent.exists_ends_shown_events_of_two_lines :
    (∃ m before last, (ofString "GET u\nPOST v" (some "a\tb")).Ends m
        (parse "GET u\nPOST v" (some "a\tb")) ∧
      m.events = before ++ [last] ∧
      last.details = [("filename", .text "Some(\"a\\tb\")"), ("entries", .number 2),
        ("diagnostics", .number 0)] ∧
      ∃ us x vs, before = us ++ x :: vs ∧
        x.details = [("method", .text "POST"), ("url", .text "v"), ("headers", .number 0),
          ("status", .number 0), ("captures", .number 0)] ∧
        ∃ y ∈ us, y.message = "scanned token" ∧
          y.details = [("kind", .text "STRING"), ("literal", .text "v"), ("line", .number 1),
            ("start", .number 11), ("end", .number 12)]) ∧
    ∃ m before last, (ofString "GET u\n5" none).Ends m (parse "GET u\n5" none) ∧
      m.events = before ++ [last] ∧
      (before.filter (·.message = "parse error")).map Event.details =
        [[("diagnostic", .text "line 2, expected HTTP method, got: 5")]] := by
  constructor
  · have hscript : parse "GET u\nPOST v" (some "a\tb") = .ok
        ⟨[⟨⟨⟨"GET", "u", ⟨0, 5⟩⟩, [], ⟨0, 5⟩⟩, {}, ⟨0, 5⟩⟩,
          ⟨⟨⟨"POST", "v", ⟨6, 12⟩⟩, [], ⟨6, 12⟩⟩, {}, ⟨6, 12⟩⟩], ⟨0, 12⟩⟩ := by
      decide +kernel
    obtain ⟨m, before, last, hends, hlog, hevents, -, -, hlast, -, hnone, -, hall⟩ :=
      exists_ends_shown_events "GET u\nPOST v" (some "a\tb")
    obtain ⟨hentries, hread⟩ := hall _ hscript
    have hcount := congrArg List.length hentries
    rw [List.length_map, List.length_map] at hcount
    rw [hcount, hnone.mpr ⟨_, hscript⟩] at hlast
    have hbefore : before = (Parser.ofString "GET u\nPOST v" (some "a\tb")).log.dropLast := by
      rw [← hlog, hevents, List.dropLast_concat]
    have hsplit : before = before.take 7 ++ .entryRead
        ⟨⟨⟨"POST", "v", ⟨6, 12⟩⟩, [], ⟨6, 12⟩⟩, {}, ⟨6, 12⟩⟩ :: before.drop 8 := by
      rw [hbefore]
      decide +kernel
    have hindex : ((before.take 7).filter (·.message = "parsed entry")).length = 1 := by
      rw [hbefore]
      decide +kernel
    obtain ⟨e, he, hin⟩ := hread _ _ _ hsplit rfl
    rw [hindex] at he
    obtain rfl := Option.some.inj he
    exact ⟨m, before, last, hends, hevents, hlast.trans (by decide +kernel), _, _, _, hsplit, rfl,
      hin ⟨.string, "v", 1, ⟨11, 12⟩⟩ (by decide +kernel) (by decide)⟩
  · have hrejected :
        parse "GET u\n5" none = .error ⟨none, [⟨.expected "HTTP method", 2, "5"⟩]⟩ := by
      decide +kernel
    obtain ⟨m, before, last, hends, -, hevents, -, -, -, hfaults, -⟩ :=
      exists_ends_shown_events "GET u\n5" none
    exact ⟨m, before, last, hends, hevents, (hfaults _ hrejected).trans (by decide +kernel)⟩

end RequestScript
