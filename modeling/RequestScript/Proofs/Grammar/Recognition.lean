import RequestScript.Proofs.Grammar.Trees
import RequestScript.Proofs.Parser.Passing
import RequestScript.Proofs.Token.Reading

/-!
# The phases recognise the grammar

Tokens are accepted between entries exactly if the grammar derives them as a script, and the
entries that are closed are those of the derivation (`accepts_outside_iff`).

* **Soundness** follows the tokens. `Reached` says what a phase knows of the tokens before it:
  which entries they make up, and which part of the next one. Taking a token keeps this true
  (`Reached.takes`), and where nothing is missing the tokens are entries (`Reached.ends`).
* **Completeness** follows the derivation: the tokens of each node are passed
  (`AreFields.passes`, `IsRequest.passes`, `IsResponse.passes`, `AreEntries.accepts`).

Both are stated on any tokens. On the tokens of a text this makes the result of a parse
(`Parser.result_eq_ok_iff`).
-/

namespace RequestScript

open Grammar

/-- `Phase.field` makes a field of a key and a value. -/
private theorem isField_field {k v : Token} {key : String} (hk : IsKey k key) (hv : IsValue v) :
    IsField [k, v] (Phase.field key k.span.start v) :=
  .intro hk hv

/-! ### Soundness -/

/-- **What a phase knows**: the tokens before it are entries, and what the phase holds of the
next entry. -/
inductive Reached : List Token → List Entry → Phase → Prop where
  /-- Nothing was read. -/
  | outside : Reached [] [] .outside
  /-- Entries and a method. -/
  | url {ts : List Token} {es : List Entry} {m : Token} (hes : AreEntries ts es)
      (hm : Meets m .method) : Reached (ts ++ [m]) es (.url m)
  /-- Entries and a request. -/
  | headers {ts us : List Token} {es : List Entry} {r : Request} (hes : AreEntries ts es)
      (hr : IsRequest us r) : Reached (ts ++ us) es (.headers r)
  /-- Entries, a request and a key. -/
  | headerValue {ts us : List Token} {es : List Entry} {r : Request} {k : Token} {key : String}
      (hes : AreEntries ts es) (hr : IsRequest us r) (hk : IsKey k key) :
      Reached (ts ++ us ++ [k]) es (.headerValue r key k.span.start)
  /-- Entries, a request and a marker. -/
  | status {ts us : List Token} {es : List Entry} {r : Request} {m : Token}
      (hes : AreEntries ts es) (hr : IsRequest us r) (hm : m.kind = .http) :
      Reached (ts ++ us ++ [m]) es (.status r m)
  /-- Entries, a request and a response without a tag. -/
  | tag {ts us : List Token} {es : List Entry} {r : Request} {m s : Token} {code : UInt16}
      (hes : AreEntries ts es) (hr : IsRequest us r) (hm : m.kind = .http) (hs : IsStatus s code) :
      Reached (ts ++ us ++ [m, s]) es (.tag r ⟨m.literal, code, [], .ofTokens [m, s]⟩)
  /-- Entries, a request and a response with a tag. -/
  | captures {ts us vs : List Token} {es : List Entry} {r : Request} {m s c : Token}
      {code : UInt16} {fs : List Field} (hes : AreEntries ts es) (hr : IsRequest us r)
      (hm : m.kind = .http) (hs : IsStatus s code) (hc : c.kind = .capture)
      (hf : AreFields vs fs) :
      Reached (ts ++ us ++ m :: s :: c :: vs) es
        (.captures r ⟨m.literal, code, fs, .ofTokens (m :: s :: c :: vs)⟩)
  /-- Entries, a request, a response with a tag, and a key. -/
  | captureValue {ts us vs : List Token} {es : List Entry} {r : Request} {m s c k : Token}
      {code : UInt16} {fs : List Field} {key : String} (hes : AreEntries ts es)
      (hr : IsRequest us r) (hm : m.kind = .http) (hs : IsStatus s code) (hc : c.kind = .capture)
      (hf : AreFields vs fs) (hk : IsKey k key) :
      Reached (ts ++ us ++ m :: s :: c :: vs ++ [k]) es
        (.captureValue r ⟨m.literal, code, fs, .ofTokens (m :: s :: c :: vs)⟩ key k.span.start)

namespace Reached

variable {p q : Phase} {t : Token} {ts us : List Token} {es es' : List Entry}

/-- **Where nothing is missing** (`Phase.Ends`), **the tokens are entries**: the ones before, and
the ones that the phase holds. -/
theorem ends (h : Reached ts es p) (hp : p.Ends es') :
    ∃ fs, es' = fs.map Entry.rejoin ∧ AreEntries ts (es ++ fs) := by
  cases h with
  | outside =>
    cases hp
    exact ⟨[], rfl, .nil⟩
  | headers hes hr =>
    cases hp
    exact ⟨[_], rfl, hes.concat (by simpa using IsEntry.intro hr .absent)⟩
  | tag hes hr hm hs =>
    cases hp
    -- the phase holds a whole response already, so the entry is complete without a tag
    rw [List.append_assoc]
    exact ⟨[_], rfl, hes.concat (.intro hr (.plain hm hs))⟩
  | captures hes hr hm hs hc hf =>
    cases hp
    rw [List.append_assoc]
    exact ⟨[_], rfl, hes.concat (.intro hr (.capturing hm hs hc hf))⟩
  | url | headerValue | status | captureValue => cases hp

/-- **Taking a token** (`Phase.Takes`) keeps `Reached`. -/
private theorem takes (h : Reached ts es p) (ht : p.Takes t es' q) :
    ∃ fs, es' = fs.map Entry.rejoin ∧ Reached (ts ++ [t]) (es ++ fs) q := by
  cases ht with
  | method hp hm =>
    -- the only token that closes an entry: the one that the phase holds joins those before
    obtain ⟨fs, rfl, hes⟩ := h.ends hp
    exact ⟨fs, rfl, .url hes hm⟩
  | url hu =>
    cases h with
    | url hes hm =>
      have := Reached.headers hes (.intro hm hu .nil)
      exact ⟨[], rfl, by simpa using this⟩
  | headerKey hk =>
    cases h with
    | headers hes hr => exact ⟨[], rfl, by simpa using Reached.headerValue hes hr hk⟩
  | headerValue hv =>
    cases h with
    | headerValue hes hr hk =>
      have := Reached.headers hes (hr.addHeader (isField_field hk hv))
      exact ⟨[], rfl, by simpa using this⟩
  | marker hm =>
    cases h with
    | headers hes hr => exact ⟨[], rfl, by simpa using Reached.status hes hr hm⟩
  | status hs =>
    cases h with
    | status hes hr hm => exact ⟨[], rfl, by simpa using Reached.tag hes hr hm hs⟩
  | tag hc =>
    cases h with
    | tag hes hr hm hs =>
      have := Reached.captures hes hr hm hs hc .nil
      exact ⟨[], rfl, by simpa [Response.extend, Span.ofTokens] using this⟩
  | captureKey hk =>
    cases h with
    | captures hes hr hm hs hc hf =>
      exact ⟨[], rfl, by simpa using Reached.captureValue hes hr hm hs hc hf hk⟩
  | captureValue hv =>
    cases h with
    | captureValue hes hr hm hs hc hf hk =>
      have := Reached.captures hes hr hm hs hc (hf.concat (isField_field hk hv))
      rw [← IsResponse.addCapture_eq (isField_field hk hv)] at this
      exact ⟨[], rfl, by simpa using this⟩

/-- **Passing tokens** (`Phase.Passes`) keeps `Reached`. -/
theorem passes (h : Reached ts es p) (hp : p.Passes us es' q) :
    ∃ fs, es' = fs.map Entry.rejoin ∧ Reached (ts ++ us) (es ++ fs) q := by
  induction hp generalizing ts es with
  | nil => exact ⟨[], rfl, by simpa using h⟩
  | cons ht _ ih =>
    obtain ⟨fs, rfl, h⟩ := h.takes ht
    obtain ⟨gs, rfl, h⟩ := ih h
    exact ⟨fs ++ gs, by simp, by simpa using h⟩

end Reached

/-! ### Completeness -/

namespace Grammar

variable {p : Phase} {ts us : List Token} {es : List Entry}

/-- **Fields are passed** in a phase `φ` that keeps the fields read so far and the span of the
node that they belong to. -/
theorem AreFields.passes (φ : List Field → Span → Phase)
    (hφ : ∀ gs span k v key, IsKey k key → IsValue v →
      (φ gs span).Passes [k, v] []
        (φ (gs ++ [Phase.field key k.span.start v]) ⟨span.start, v.span.stop⟩))
    {fs : List Field} (h : AreFields ts fs) (hu : us ≠ []) (gs : List Field) :
    (φ gs (.ofTokens us)).Passes ts [] (φ (gs ++ fs) (.ofTokens (us ++ ts))) := by
  -- on the fields, with the tokens `us` of the node growing by a key and a value at each step
  induction h generalizing us gs with
  | nil => simpa using Phase.Passes.nil
  | cons hf _ ih =>
    cases hf with
    | @intro k v key hk hv =>
      have hkv := hφ gs (.ofTokens us) k v key hk hv
      have hspan : (⟨(Span.ofTokens us).start, v.span.stop⟩ : Span) = .ofTokens (us ++ [k, v]) :=
        (Span.ofTokens_append hu (List.cons_ne_nil k [v])).symm
      rw [hspan] at hkv
      have hrest := ih (List.append_ne_nil_of_left_ne_nil hu [k, v])
        (gs ++ [Phase.field key k.span.start v])
      simpa [Phase.field, Span.ofTokens] using hkv.append hrest

/-- **A request is passed** wherever the entry before is complete, and leaves the phase at its
`headers`. -/
theorem IsRequest.passes {r : Request} (h : IsRequest ts r) (hp : p.Ends es) :
    p.Passes ts es (.headers r) := by
  cases h with
  | @intro m u ts headers hm hu hs =>
    have hline := (Phase.Takes.method hp hm).passes.append (Phase.Takes.url hu).passes
    have hheaders := AreFields.passes
      (fun gs span => .headers ⟨⟨m.literal, u.literal, .ofTokens [m, u]⟩, gs, span⟩)
      (fun gs span k v key hk hv =>
        (Phase.Takes.headerKey hk).passes.append (Phase.Takes.headerValue hv).passes)
      hs (List.cons_ne_nil m [u]) []
    simpa using hline.append hheaders

/-- **A response is passed** after the `headers` of its request, and the entry is then complete. -/
theorem IsResponse.passes {s : Response} (h : IsResponse ts s) (r : Request) :
    ∃ q, (Phase.headers r).Passes ts [] q ∧ q.Ends [.ofParts r s] := by
  cases h with
  | absent => exact ⟨_, .nil, .headers⟩
  | plain hm hs =>
    exact ⟨_, (Phase.Takes.marker hm).passes.append (Phase.Takes.status hs).passes, .tag⟩
  | @capturing m s c code ts captures hm hs hc hf =>
    have hmarker : (Phase.headers r).Passes [m] [] (.status r m) := (Phase.Takes.marker hm).passes
    have htag := hmarker.append
      ((Phase.Takes.status hs).passes.append (Phase.Takes.tag hc).passes)
    have hcaptures := AreFields.passes
      (fun gs span => .captures r ⟨m.literal, code, gs, span⟩)
      (fun gs span k v key hk hv =>
        (Phase.Takes.captureKey hk).passes.append (Phase.Takes.captureValue hv).passes)
      hf (List.cons_ne_nil m [s, c]) []
    exact ⟨_, htag.append hcaptures, .captures⟩

/-- **An entry is passed** wherever the one before is complete (`Phase.Ends`). -/
theorem IsEntry.passes {e : Entry} (h : IsEntry ts e) (hp : p.Ends es) :
    ∃ q, p.Passes ts es q ∧ q.Ends [e.rejoin] := by
  cases h with
  | intro hr hs =>
    obtain ⟨q, hq, he⟩ := hs.passes _
    exact ⟨q, by simpa using (hr.passes hp).append hq, he⟩

/-- **Entries are accepted** (`Phase.Accepts`) wherever the one before them is complete. -/
theorem AreEntries.accepts {fs : List Entry} (h : AreEntries ts fs) (hp : p.Ends es) :
    p.Accepts ts (es ++ fs.map Entry.rejoin) := by
  induction h generalizing p es with
  | nil => exact ⟨[], p, es, .nil, hp, by simp⟩
  | cons he _ ih =>
    obtain ⟨q, hpq, hq⟩ := he.passes hp
    obtain ⟨es₁, r, es₂, hqr, hr, heq⟩ := ih hq
    exact ⟨es ++ es₁, r, es₂, hpq.append hqr, hr, by rw [List.append_assoc, ← heq]; rfl⟩

end Grammar

/-! ### Both together -/

/-- **The tokens of entries are accepted, and no others**: `Phase.outside` accepts what
`AreEntries` derives. -/
theorem Phase.accepts_outside_iff {ts : List Token} {es : List Entry} :
    Phase.outside.Accepts ts es ↔ ∃ fs, AreEntries ts fs ∧ es = fs.map Entry.rejoin := by
  constructor
  · rintro ⟨es₁, q, es₂, hp, hq, rfl⟩
    obtain ⟨fs, rfl, hr⟩ := Reached.outside.passes hp
    obtain ⟨gs, rfl, he⟩ := hr.ends hq
    exact ⟨fs ++ gs, by simpa using he, by simp⟩
  · rintro ⟨fs, h, rfl⟩
    simpa using h.accepts .outside

namespace Parser

/-- A first parse succeeds if its walk has `entries` and no `reports`. -/
theorem result_eq_ok_iff_walk {p : Parser} {s : Script} (hp : p.diagnostics = []) :
    p.result = .ok s ↔
      p.stream.walk.reports = [] ∧ p.stream.walk.entries ≠ [] ∧
        s = .ofEntries p.stream.walk.entries := by
  have hd : p.after.diagnostics = p.stream.walk.reports ++ p.stream.walk.absence := by
    simp [after, hp, Walk.findings]
  have ha : p.stream.walk.absence = [] ↔ p.stream.walk.entries ≠ [] := by
    simp [Walk.absence]
  rw [result]
  split
  · next h =>
    rw [List.isEmpty_iff, hd, List.append_eq_nil_iff, ha] at h
    simp [h, eq_comm]
  · next h =>
    rw [List.isEmpty_iff, hd, List.append_eq_nil_iff, ha] at h
    simp only [reduceCtorEq, false_iff]
    rintro ⟨hr, hn, -⟩
    exact h ⟨hr, hn⟩

/-- **A first parse succeeds on the scripts of the grammar**, with the script that `IsScript`
derives. -/
theorem result_eq_ok_iff {p : Parser} {s : Script} (hp : p.diagnostics = [])
    (ht : ∀ t ∈ p.stream.tokens, t.Genuine) :
    p.result = .ok s ↔ IsScript p.stream.tokens s := by
  have hend : ∀ t ∈ p.stream.tokens, t.kind ≠ .endOfInput := fun t h => (ht t h).kind_ne_endOfInput
  rw [result_eq_ok_iff_walk hp, TokenStream.walk, Phase.reports_walk_eq_nil_iff hend, isScript_iff]
  constructor
  · rintro ⟨⟨es, ha⟩, hne, rfl⟩
    obtain ⟨fs, hfs, rfl⟩ := Phase.accepts_outside_iff.mp ha
    -- the entries are closed as they are derived, since no token of a text is empty
    rw [hfs.map_rejoin_eq fun t h => (ht t h).literal_ne_empty] at ha
    rw [ha.entries_walk] at hne ⊢
    exact ⟨fs, hfs, hne, rfl⟩
  · rintro ⟨fs, hfs, hne, rfl⟩
    have ha := Phase.accepts_outside_iff.mpr ⟨fs, hfs, rfl⟩
    rw [hfs.map_rejoin_eq fun t h => (ht t h).literal_ne_empty] at ha
    rw [ha.entries_walk]
    exact ⟨⟨fs, ha⟩, hne, rfl⟩

/-- **Parsing is recognising the grammar.** Of a text whose first `k` tokens were read before,
a parse makes the script that the grammar derives from the other tokens, and it succeeds if there
is one. -/
theorem result_ofReader_discard_eq_ok_iff (source : String) (k : Nat) (file : Option String)
    (s : Script) :
    (ofReader ((Reader.ofString source).discard k) file).result = .ok s ↔
      IsScript ((tokenize source).tokens.drop k) s := by
  have hs : (ofReader ((Reader.ofString source).discard k) file).stream =
      (tokenize source).drop k := Cursor.stream_drop _ k
  rw [result_eq_ok_iff rfl, hs]
  · rfl
  · intro t ht
    rw [hs] at ht
    exact Cursor.genuine_of_mem_stream (List.mem_of_mem_drop ht)

end Parser

/-- The tokens of a text are not empty. -/
theorem literal_ne_empty_of_mem_tokenize {source : String} {t : Token}
    (ht : t ∈ (tokenize source).tokens) : t.literal ≠ "" :=
  (Cursor.genuine_of_mem_stream ht).literal_ne_empty

/-- **Parsing a text** is recognising its tokens: `parse` succeeds where `IsScript` holds. -/
theorem parse_eq_ok_iff {source : String} {file : Option String} {s : Script} :
    parse source file = .ok s ↔ IsScript (tokenize source).tokens s :=
  Parser.result_eq_ok_iff rfl fun _ ht => Cursor.genuine_of_mem_stream ht

end RequestScript
