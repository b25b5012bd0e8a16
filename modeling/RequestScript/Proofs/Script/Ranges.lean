import RequestScript.Parser.Basic
import RequestScript.Proofs.Grammar.Recognition
import RequestScript.Proofs.Grammar.Spans

/-!
# Where the nodes of a script stand

The spans of a script that was read are **exact** (`Script.Exact`): every node spans the text of
its own tokens and no more, siblings follow each other, and children lie inside their parents.

* An entry takes the tokens from its method up to the next method (`Entry.Exact`).
* Its request starts with it and stops with the last header (`Request.Exact`).
* Its response stops with it (`Response.Exact`), or is absent and takes no text.

The proof knows nothing of how a script is read: tokens that are laid out in a text, and that are a
script by the grammar, have exact spans.
-/

namespace RequestScript

open Grammar

/-! ### The spans of a node and of what is inside -/

/-- The spans of a request, its line and its headers. -/
def Request.spans (r : Request) : List Span :=
  r.span :: r.endpoint.span :: r.headers.map (·.span)

/-- The spans of a response and its captures. -/
def Response.spans (s : Response) : List Span :=
  s.span :: s.captures.map (·.span)

/-- The spans of an entry and all its nodes. -/
def Entry.spans (e : Entry) : List Span :=
  e.span :: (e.request.spans ++ e.response.spans)

/-- The spans of a script and all its nodes. -/
def Script.spans (s : Script) : List Span :=
  s.span :: s.entries.flatMap Entry.spans

/-! ### Exact spans -/

/-- The text of the field begins with the key and a colon, and ends with the value. -/
def Field.IsShown (f : Field) (cs : List Char) : Prop :=
  f.span.Shows cs (f.key ++ ":") f.value

/-- **The spans of a request** are exact, for the tokens of its entry. -/
structure Request.Exact (cs : List Char) (ts : List Token) (r : Request) : Prop where
  /-- The line is the first two tokens, and goes from the method to the URL. -/
  line : ∃ m u us, ts = m :: u :: us ∧ Meets u .url ∧
    r.endpoint = ⟨m.literal, u.literal, ⟨m.span.start, u.span.stop⟩⟩
  /-- The line and the headers follow each other. -/
  ordered : Span.Ordered (r.endpoint.span :: r.headers.map (·.span))
  /-- The request starts with its line. -/
  start_eq : r.span.start = r.endpoint.span.start
  /-- The request stops with the last header, or with the line. -/
  stop_eq : r.span.stop = (r.headers.getLast?.map (·.span.stop)).getD r.endpoint.span.stop
  /-- The text of the line begins with the method and ends with the URL. -/
  line_shown : r.endpoint.span.Shows cs r.endpoint.method r.endpoint.url
  /-- The text of every header shows it. -/
  headers_shown : ∀ f ∈ r.headers, f.IsShown cs
  /-- The text of the request begins with the text of its line. -/
  begins : r.endpoint.span.Begins r.span cs

/-- **The spans of a response** that is present are exact, for the tokens of its entry. -/
structure Response.Exact (cs : List Char) (ts : List Token) (s : Response) : Prop where
  /-- The response goes from its marker to the last token. After the marker stands the status, and
  after that the captures follow each other. -/
  line : ∃ us m c vs, ts = us ++ m :: c :: vs ∧ m.kind = .http ∧ IsStatus c s.status ∧
    s.span = .ofTokens (m :: c :: vs) ∧ Span.Ordered (m.span :: c.span :: s.captures.map (·.span))
  /-- The text of the response begins with the marker and ends with the last token. -/
  shown : ∃ t, ts.getLast? = some t ∧ s.span.Shows cs s.protocol t.literal
  /-- The captures lie inside. -/
  inside : ∀ f ∈ s.captures, s.span.encloses f.span
  /-- The text of every capture shows it. -/
  captures_shown : ∀ f ∈ s.captures, f.IsShown cs

/-- **The spans of an entry** are exact, for its tokens. -/
structure Entry.Exact (source : String) (ts : List Token) (e : Entry) : Prop where
  /-- The first token is a method, and no other one is. -/
  method : ∃ m us, ts = m :: us ∧ Meets m .method ∧ ∀ t ∈ us, ¬ Meets t .method
  /-- These are the tokens of the text that lie in the entry. -/
  tokens : (tokenize source).tokens.filter (fun t => e.span.encloses t.span) = ts
  /-- The entry goes from the first of them to the last. -/
  span_eq : e.span = .ofTokens ts
  /-- The spans of the request are exact. -/
  request : e.request.Exact source.toList ts
  /-- The request starts with the entry. -/
  start_eq : e.request.span.start = e.span.start
  /-- The text of the entry begins with the text of the request. -/
  begins : e.request.span.Begins e.span source.toList
  /-- A response that is present comes after the request and stops with the entry. -/
  present : e.response.isPresent = true → e.response.Exact source.toList ts ∧
    e.request.span.stop < e.response.span.start ∧ e.response.span.stop = e.span.stop
  /-- An absent response takes no text, and the entry stops with the request. -/
  absent : e.response.isPresent = false →
    e.response.span = ⟨0, 0⟩ ∧ e.span.stop = e.request.span.stop

/-- **The spans of a script** are exact. -/
structure Script.Exact (source : String) (s : Script) : Prop where
  /-- Every span lies in the text. -/
  spans_in : ∀ sp ∈ s.spans, sp.IsIn source.toList
  /-- The script goes from the first entry to the last. -/
  span_eq : ∃ first last, s.entries.head? = some first ∧ s.entries.getLast? = some last ∧
    s.span = ⟨first.span.start, last.span.stop⟩
  /-- The entries follow each other. -/
  ordered : Span.Ordered (s.entries.map (·.span))
  /-- The tokens of the text fall into blocks, one for each entry. -/
  entries : ∃ blocks : List (List Token), blocks.flatten = (tokenize source).tokens ∧
    List.Forall₂ (Entry.Exact source) blocks s.entries

/-- The span is that of some of the tokens, or of none of them. -/
def Span.IsRunOf (s : Span) (ts : List Token) : Prop :=
  ∃ us, us.Sublist ts ∧ s = .ofTokens us

private theorem Span.IsRunOf.whole (ts : List Token) : (ofTokens ts).IsRunOf ts :=
  ⟨ts, List.Sublist.refl ts, rfl⟩

private theorem Span.IsRunOf.mono {s : Span} {ts us : List Token} (h : s.IsRunOf ts)
    (hs : ts.Sublist us) : s.IsRunOf us := by
  obtain ⟨vs, hvs, rfl⟩ := h
  exact ⟨vs, hvs.trans hs, rfl⟩

namespace Grammar

variable {cs : List Char} {ts us : List Token}

/-! ### Fields -/

/-- Every field is made of tokens of its own. -/
private theorem AreFields.exists_field {fs : List Field} (h : AreFields ts fs) {f : Field}
    (hf : f ∈ fs) : ∃ us, us.Sublist ts ∧ IsField us f := by
  induction h with
  | nil => simp at hf
  | @cons us vs g gs hg _ ih =>
    rcases List.mem_cons.mp hf with rfl | hf
    · exact ⟨us, List.sublist_append_left us vs, hg⟩
    · obtain ⟨ws, hws, hfield⟩ := ih hf
      exact ⟨ws, hws.trans (List.sublist_append_right us vs), hfield⟩

private theorem IsField.isShown {f : Field} (h : IsField ts f) (hl : LaidOut cs ts) :
    f.IsShown cs := by
  cases h with
  | intro hk hv =>
    have hshows := hl.shows rfl rfl
    rwa [hk.2.1] at hshows

private theorem AreFields.isShown {fs : List Field} (h : AreFields ts fs) (hl : LaidOut cs ts)
    {f : Field} (hf : f ∈ fs) : f.IsShown cs := by
  obtain ⟨us, hus, hfield⟩ := h.exists_field hf
  exact hfield.isShown (hl.sublist hus)

/-! ### Every span is that of tokens -/

private theorem AreFields.isRunOf {fs : List Field} (h : AreFields ts fs) {sp : Span}
    (hsp : sp ∈ fs.map (·.span)) : sp.IsRunOf ts := by
  obtain ⟨f, hf, rfl⟩ := List.mem_map.mp hsp
  obtain ⟨us, hus, hfield⟩ := h.exists_field hf
  exact ⟨us, hus, hfield.span_eq⟩

private theorem IsRequest.isRunOf {r : Request} (h : IsRequest ts r) {sp : Span}
    (hsp : sp ∈ r.spans) : sp.IsRunOf ts := by
  cases h with
  | @intro m u vs headers hm hu hf =>
    simp only [Request.spans, List.mem_cons] at hsp
    rcases hsp with rfl | rfl | hsp
    · exact .whole _
    · exact .mono (.whole [m, u]) (List.sublist_append_left [m, u] vs)
    · exact (hf.isRunOf hsp).mono (List.sublist_append_right [m, u] vs)

/-- The line of a response that is present, and the tokens of its captures. -/
private theorem IsResponse.exists_line {s : Response} (h : IsResponse ts s) (hne : ts ≠ []) :
    ∃ m c us vs, ts = m :: c :: us ∧ m.kind = .http ∧ s.protocol = m.literal ∧
      IsStatus c s.status ∧ vs.Sublist us ∧ AreFields vs s.captures := by
  cases h with
  | absent => exact absurd rfl hne
  | @plain m c code hm hc => exact ⟨m, c, [], [], rfl, hm, rfl, hc, List.Sublist.refl [], .nil⟩
  | @capturing m c g code vs captures hm hc hg hf =>
    exact ⟨m, c, g :: vs, vs, rfl, hm, rfl, hc, List.sublist_cons_self g vs, hf⟩

private theorem IsResponse.isRunOf {s : Response} (h : IsResponse ts s) {sp : Span}
    (hsp : sp ∈ s.spans) : sp.IsRunOf ts := by
  rcases List.mem_cons.mp hsp with rfl | hsp
  · exact h.span_eq ▸ .whole ts
  · by_cases hne : ts = []
    · subst hne
      cases h
      simp at hsp
    · obtain ⟨m, c, us, vs, rfl, -, -, -, hvs, hf⟩ := h.exists_line hne
      exact (hf.isRunOf hsp).mono (hvs.trans (List.sublist_append_right [m, c] us))

private theorem IsEntry.isRunOf {e : Entry} (h : IsEntry ts e) {sp : Span} (hsp : sp ∈ e.spans) :
    sp.IsRunOf ts := by
  rcases List.mem_cons.mp hsp with rfl | hsp
  · exact h.span_eq ▸ .whole ts
  · cases h with
    | @intro us vs r s hr hs =>
      rcases List.mem_append.mp hsp with hsp | hsp
      · exact (hr.isRunOf hsp).mono (List.sublist_append_left us vs)
      · exact (hs.isRunOf hsp).mono (List.sublist_append_right us vs)

private theorem AreEntries.isRunOf {es : List Entry} (h : AreEntries ts es) {sp : Span}
    (hsp : sp ∈ es.flatMap Entry.spans) : sp.IsRunOf ts := by
  induction h with
  | nil => simp at hsp
  | @cons us vs e es he _ ih =>
    rw [List.flatMap_cons] at hsp
    rcases List.mem_append.mp hsp with hsp | hsp
    · exact (he.isRunOf hsp).mono (List.sublist_append_left us vs)
    · exact (ih hsp).mono (List.sublist_append_right us vs)

/-! ### The parts of an entry -/

/-- **Requests have exact spans** (`Request.Exact`), in the tokens of their entry. -/
private theorem IsRequest.exact {r : Request} (h : IsRequest ts r) (hl : LaidOut cs ts)
    (us : List Token) : r.Exact cs (ts ++ us) := by
  cases h with
  | @intro m u vs headers hm hu hf =>
    -- the line and the headers are runs of tokens, one after another
    obtain ⟨tss, rfl, hne, hspans⟩ := hf.exists_parts
    have hline : LaidOut cs [m, u] := hl.sublist (List.sublist_append_left [m, u] tss.flatten)
    have hstop := Span.stop_ofTokens_flatten [m, u] hne
    rw [← hspans, List.getLast?_map, Option.map_map] at hstop
    refine ⟨⟨m, u, tss.flatten ++ us, rfl, hu, rfl⟩, ?_, rfl, hstop, hline.shows rfl rfl, ?_, ?_⟩
    · have hruns : LaidOut cs ([m, u] :: tss).flatten := hl
      rw [hspans]
      refine hruns.ordered_runs fun run hrun => ?_
      rcases List.mem_cons.mp hrun with rfl | hrun
      · simp
      · exact hne run hrun
    · intro f hfmem
      exact hf.isShown (hl.sublist (List.sublist_append_right [m, u] tss.flatten)) hfmem
    · have hwhole : LaidOut cs ([m, u] ++ tss.flatten) := hl
      exact hwhole.begins (by simp)

/-- **Responses have exact spans** (`Response.Exact`), in the tokens of their entry. -/
private theorem IsResponse.exact {s : Response} (h : IsResponse ts s) (hl : LaidOut cs ts)
    (hne : ts ≠ []) (us : List Token) : s.Exact cs (us ++ ts) := by
  obtain ⟨m, c, vs, ws, rfl, hm, hprotocol, hc, hws, hf⟩ := h.exists_line hne
  have hcaptures : ws.Sublist (m :: c :: vs) := hws.trans (List.sublist_append_right [m, c] vs)
  refine ⟨⟨us, m, c, vs, rfl, hm, hc, h.span_eq, ?_⟩, ?_, ?_, ?_⟩
  · -- the tag, if there is one, is left out
    obtain ⟨tss, rfl, hrun, hspans⟩ := hf.exists_parts
    have hruns : LaidOut cs ([m] :: [c] :: tss).flatten :=
      hl.sublist ((hws.cons_cons c).cons_cons m)
    rw [hspans]
    refine hruns.ordered_runs fun run hmem => ?_
    rcases List.mem_cons.mp hmem with rfl | hmem
    · simp
    rcases List.mem_cons.mp hmem with rfl | hmem
    · simp
    · exact hrun run hmem
  · have hlast := List.getLast?_eq_some_getLast hne
    rw [h.span_eq, hprotocol]
    exact ⟨_, by rw [List.getLast?_append, hlast, Option.some_or], hl.shows rfl hlast⟩
  · intro f hfmem
    obtain ⟨run, hrun, hfield⟩ := hf.exists_field hfmem
    rw [h.span_eq, hfield.span_eq]
    exact hl.encloses_sublist (hrun.trans hcaptures) hfield.ne_nil
  · intro f hfmem
    exact hf.isShown (hl.sublist hcaptures) hfmem

/-- **Entries have exact spans** (`Entry.Exact`), among the tokens of the text. -/
private theorem IsEntry.exact {source : String} {e : Entry} {before after : List Token}
    (h : IsEntry ts e) (hts : (tokenize source).tokens = before ++ ts ++ after)
    (hl : LaidOut source.toList (before ++ ts ++ after)) (hne : ∀ t ∈ ts, t.literal ≠ "") :
    e.Exact source ts := by
  obtain ⟨m, us, hcons, hm, hus⟩ := h.exists_method
  have hfilter := hl.filter_encloses h.ne_nil
  have hts' : LaidOut source.toList ts := hl.left.right
  cases h with
  | @intro us vs r s hr hs =>
    have hpresent := hs.isPresent_iff fun t ht => hne t (List.mem_append_right us ht)
    have hstart := Span.start_ofTokens_append hr.ne_nil vs
    refine ⟨⟨m, _, hcons, hm, fun t ht => (hus t ht).1⟩, hts ▸ hfilter, rfl,
      hr.exact hts'.left vs, ?_, ?_, ?_, ?_⟩
    · exact hr.span_eq ▸ hstart.symm
    · exact hr.span_eq ▸ hts'.begins hr.ne_nil
    · intro hp
      have hvs := hpresent.mp hp
      refine ⟨hs.exact hts'.right hvs us, ?_, ?_⟩
      · obtain ⟨v, vs, rfl⟩ := List.exists_cons_of_ne_nil hvs
        rw [hr.span_eq, hs.span_eq, Span.start_ofTokens_cons]
        exact hts'.ofTokens_stop_lt hr.ne_nil List.mem_cons_self
      · exact hs.span_eq ▸ (Span.stop_ofTokens_append us hvs).symm
    · intro hp
      obtain rfl : vs = [] := by
        by_contra hvs
        simp [hpresent.mpr hvs] at hp
      refine ⟨hs.span_eq, ?_⟩
      change (Span.ofTokens (us ++ [])).stop = r.span.stop
      rw [List.append_nil, hr.span_eq]

end Grammar

/-! ### Scripts -/

/-- Legal tokens of a text are `LaidOut` in it. -/
theorem laidOut_tokenize {source : String}
    (h : ∀ t ∈ (tokenize source).tokens, t.kind ≠ .illegal) :
    LaidOut source.toList (tokenize source).tokens where
  covers t ht := by
    have hcovers : t.span.Covers ([] ++ source.toList) t.literal.toList :=
      Cursor.covers_of_mem_stream rfl ht
    exact hcovers
  ordered := Cursor.ordered_stream h

/-- **Scripts have exact spans**, if their tokens are those of the text. -/
theorem Grammar.IsScript.exact {source : String} {s : Script}
    (h : IsScript (tokenize source).tokens s) : s.Exact source := by
  obtain ⟨es, hes, hne, rfl⟩ := isScript_iff.mp h
  have hl := laidOut_tokenize fun t ht => hes.kind_ne_illegal ht
  obtain ⟨blocks, hblocks, hrun, hspans, hall⟩ := hes.exists_blocks
  have hfirst := List.head?_eq_some_head hne
  have hlast := List.getLast?_eq_some_getLast hne
  refine ⟨?_, ⟨_, _, hfirst, hlast, by simp [Script.ofEntries, hfirst, hlast]⟩, ?_, blocks,
    hblocks, ?_⟩
  · intro sp hsp
    have hsub : sp.IsRunOf (tokenize source).tokens := by
      rcases List.mem_cons.mp hsp with rfl | hsp
      · exact hes.ofEntries_eq ▸ .whole _
      · exact hes.isRunOf hsp
    obtain ⟨us, hus, rfl⟩ := hsub
    exact (hl.sublist hus).isIn
  · change Span.Ordered (es.map (·.span))
    rw [hspans]
    exact (hblocks ▸ hl).ordered_runs hrun
  · -- each block stands between those before and those after it
    obtain ⟨hlen, hzip⟩ := List.forall₂_iff_zip.mp hall
    refine List.forall₂_iff_zip.mpr ⟨hlen, fun {ts e} hmem => ?_⟩
    obtain ⟨before, after, rfl⟩ := List.append_of_mem (List.of_mem_zip hmem).1
    have hts : (tokenize source).tokens = before.flatten ++ ts ++ after.flatten := by
      rw [← hblocks]
      simp
    refine (hzip hmem).exact hts (hts ▸ hl) fun t ht => ?_
    have hstream : t ∈ (tokenize source).tokens := by simp [hts, ht]
    exact (Cursor.genuine_of_mem_stream hstream).literal_ne_empty

/-- **The spans of a script that was read are exact** (`Script.Exact`). They lie in the text, the
script goes from its first entry to its last, the entries follow each other, and each takes the
tokens from its method up to the next one. -/
theorem exact_of_parse_eq_ok {source : String} {file : Option String} {s : Script}
    (h : parse source file = .ok s) : s.Exact source := by
  have hgenuine : ∀ t ∈ (tokenize source).tokens, t.Genuine := fun t ht =>
    Cursor.genuine_of_mem_stream ht
  exact ((Parser.result_eq_ok_iff rfl hgenuine).mp h).exact

/-- Two entries, with a comment between the headers and the response of the first, whose URL is
one character of two bytes. The response of the second is absent. -/
theorem exact_of_two_entries :
    (⟨[⟨⟨⟨"GET", "é", ⟨0, 6⟩⟩, [⟨"a", "b", ⟨7, 11⟩⟩, ⟨"c", "d", ⟨12, 16⟩⟩], ⟨0, 16⟩⟩,
        ⟨"HTTP", 200, [⟨"f", "g", ⟨40, 44⟩⟩, ⟨"h", "i", ⟨45, 49⟩⟩], ⟨21, 49⟩⟩, ⟨0, 49⟩⟩,
      ⟨⟨⟨"POST", "j", ⟨50, 56⟩⟩, [], ⟨50, 56⟩⟩, {}, ⟨50, 56⟩⟩], ⟨0, 56⟩⟩ : Script).Exact
      "GET é a: b c: d\n# e\nHTTP 200 [Capture] f: g h: i\nPOST j" :=
  have h : parse "GET é a: b c: d\n# e\nHTTP 200 [Capture] f: g h: i\nPOST j" none = .ok
      ⟨[⟨⟨⟨"GET", "é", ⟨0, 6⟩⟩, [⟨"a", "b", ⟨7, 11⟩⟩, ⟨"c", "d", ⟨12, 16⟩⟩], ⟨0, 16⟩⟩,
          ⟨"HTTP", 200, [⟨"f", "g", ⟨40, 44⟩⟩, ⟨"h", "i", ⟨45, 49⟩⟩], ⟨21, 49⟩⟩, ⟨0, 49⟩⟩,
        ⟨⟨⟨"POST", "j", ⟨50, 56⟩⟩, [], ⟨50, 56⟩⟩, {}, ⟨50, 56⟩⟩], ⟨0, 56⟩⟩ := by
    decide +kernel
  exact_of_parse_eq_ok h

end RequestScript
