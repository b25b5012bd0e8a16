import RequestScript.Proofs.Grammar.Recognition
import RequestScript.Proofs.Parser.Reports

/-!
# Isolated faults

A fault of which nothing else suffers is reported once, and nothing else is reported. The scripts
in question are those of the grammar, but for faults of five kinds:

* a request without a **URL**, and a response without a **status code**;
* a numeral that is too large for a status code, at the end of an entry;
* among the fields, a word that is no **key**, and a key without its **value**.

What these tokens are, and which diagnostics belong to them, is told by relations in the manner of
the grammar (`EntriesWithFaults`). What is missing is reported at the token in its place, so the
relations know the token that comes **next** after theirs. That a parse reports these diagnostics
and no others is shown node by node (`FieldsWithFaults.reports_eq`, `TailWithFaults.reports_eq`,
`EntryWithFaults.reports_eq`).
-/

namespace RequestScript

open Grammar

namespace Grammar

/-- The token is a word that is no key: it does not end in a colon, or it is a colon alone. -/
def IsJunk (t : Token) : Prop :=
  t.kind = .string ∧ ((∀ w, t.literal ≠ w ++ ":") ∨ t.literal = ":")

/-- The tokens are fields, with junk among them and keys without values. The first token after them
is `next`. -/
inductive FieldsWithFaults (next : Token) : List Token → List Diagnostic → Prop where
  /-- Nothing. -/
  | nil : FieldsWithFaults next [] []
  /-- A key and its value. -/
  | field {k v : Token} {key : String} {ts : List Token} {ds : List Diagnostic} (hk : IsKey k key)
      (hv : IsValue v) (hts : FieldsWithFaults next ts ds) :
      FieldsWithFaults next (k :: v :: ts) ds
  /-- A word that is no key. -/
  | junk {t : Token} {ts : List Token} {ds : List Diagnostic} (ht : IsJunk t)
      (hts : FieldsWithFaults next ts ds) :
      FieldsWithFaults next (t :: ts) (.missing t .key :: ds)
  /-- A key without a value, before a word that ends in a colon or at the end of the fields. -/
  | dangling {k : Token} {key : String} {ts : List Token} {ds : List Diagnostic} (hk : IsKey k key)
      (hcolon : ∀ t ∈ ts.head?, ∃ w, t.literal = w ++ ":") (hts : FieldsWithFaults next ts ds) :
      FieldsWithFaults next (k :: ts) (.missing (ts.headD next) .value :: ds)

/-- The tokens are what comes after a request: a response, maybe without a status code or with a
numeral that is none, or nothing. -/
inductive TailWithFaults (next : Token) : List Token → List Diagnostic → Prop where
  /-- No response. -/
  | absent : TailWithFaults next [] []
  /-- A marker and a status code. -/
  | plain {h s : Token} {code : UInt16} (hh : h.kind = .http) (hs : IsStatus s code) :
      TailWithFaults next [h, s] []
  /-- A marker, a status code, a tag and captures. -/
  | capturing {h s c : Token} {code : UInt16} {ts : List Token} {ds : List Diagnostic}
      (hh : h.kind = .http) (hs : IsStatus s code) (hc : c.kind = .capture)
      (hts : FieldsWithFaults next ts ds) : TailWithFaults next (h :: s :: c :: ts) ds
  /-- A marker alone. -/
  | noStatus {h : Token} (hh : h.kind = .http) :
      TailWithFaults next [h] [.missing next .status]
  /-- A marker and a numeral that is too large. -/
  | largeStatus {h n : Token} (hh : h.kind = .http) (hn : n.kind = .number)
      (hlarge : 65535 < Decimal.value n.literal.toList) :
      TailWithFaults next [h, n] [.missing n .status]

/-- The tokens are an entry with isolated faults. -/
inductive EntryWithFaults (next : Token) : List Token → List Diagnostic → Prop where
  /-- A method, a URL, headers and what comes after them. -/
  | complete {m u : Token} {ts us : List Token} {ds es : List Diagnostic} (hm : Meets m .method)
      (hu : Meets u .url) (hts : FieldsWithFaults (us.headD next) ts ds)
      (hus : TailWithFaults next us es) :
      EntryWithFaults next (m :: u :: (ts ++ us)) (ds ++ es)
  /-- A method without a URL, and what comes after it. -/
  | noUrl {m : Token} {us : List Token} {es : List Diagnostic} (hm : Meets m .method)
      (hus : TailWithFaults next us es) :
      EntryWithFaults next (m :: us) (.missing (us.headD next) .url :: es)

/-- The tokens are entries with isolated faults, one after another. -/
inductive EntriesWithFaults (next : Token) : List Token → List Diagnostic → Prop where
  /-- No entry. -/
  | nil : EntriesWithFaults next [] []
  /-- An entry and those after it. -/
  | cons {ts us : List Token} {ds es : List Diagnostic}
      (hts : EntryWithFaults (us.headD next) ts ds) (hus : EntriesWithFaults next us es) :
      EntriesWithFaults next (ts ++ us) (ds ++ es)

end Grammar

/-! ### Single tokens -/

/-- The token ends fields: the marker of a response, a method, or the end of the text. -/
def Token.EndsFields (t : Token) : Prop :=
  t.kind = .http ∨ t.EndsEntry

theorem Token.EndsFields.kind_ne {t : Token} (ht : t.EndsFields) :
    t.kind ≠ .string ∧ t.kind ≠ .number ∧ t.kind ≠ .illegal := by
  rcases ht with ht | ht
  · simp [ht]
  · obtain ⟨hs, hn, -, -, hi⟩ := ht.kind_ne
    exact ⟨hs, hn, hi⟩

private theorem Token.EndsFields.not_isValue {t : Token} (ht : t.EndsFields) : ¬ IsValue t :=
  fun hv => hv.1.elim ht.kind_ne.1 ht.kind_ne.2.1

private theorem Grammar.IsJunk.key?_eq_none {t : Token} (ht : IsJunk t) : t.key? = none := by
  rw [Option.eq_none_iff_forall_ne_some]
  intro key hkey
  obtain ⟨hliteral, hne⟩ := Token.key?_eq_some_iff.mp hkey
  rcases ht.2 with hcolon | hcolon
  · exact hcolon key hliteral
  · rw [hcolon, ← String.toList_inj] at hliteral
    simp_all

namespace Phase

variable {p q : Phase} {t k v next : Token} {key : String} {ts us : List Token}
  {es : List Entry} {ds : List Diagnostic}

/-- A token that is taken (`Takes`) reports nothing. -/
private theorem Takes.reports_cons (h : p.Takes t es q) (ts : List Token) :
    p.reports (t :: ts) = q.reports ts := by
  rw [reports_cons_of_next (q := q) (by rw [h.feed_eq]), h.feed_eq, Reaction.reports,
    filterMap_diagnostic?_close, List.nil_append]

/-- What is missing is reported at the token in its place, which is then read as the phase `q`
reads it. -/
private theorem reports_cons_of_precededBy {d : Diagnostic}
    (h : p.feed t = (q.feed t).precededBy (.report d)) (ts : List Token) :
    p.reports (t :: ts) = d :: q.reports (t :: ts) := by
  rw [reports, reports, h]
  rfl

/-! ### Fields -/

/-- The phase is among the headers of a request or the captures of a response. -/
def AmongFields (p : Phase) : Prop :=
  p.place = .headers ∨ p.place = .captures

private theorem AmongFields.cases (hp : p.AmongFields) :
    (∃ r, p = .headers r) ∨ ∃ r s, p = .captures r s := by
  cases p <;> simp [AmongFields, place] at hp ⊢

/-- A field, whose tokens are `k` and `v`, is read without a report. -/
private theorem AmongFields.reports_field (hp : p.AmongFields) (hk : IsKey k key) (hv : IsValue v)
    (ts : List Token) : p.reports (k :: v :: ts) = p.reports ts := by
  rcases hp.cases with ⟨r, rfl⟩ | ⟨r, s, rfl⟩
  · rw [(Takes.headerKey hk).reports_cons, (Takes.headerValue hv).reports_cons]
    refine reports_congr ?_ ts
    rfl
  · rw [(Takes.captureKey hk).reports_cons, (Takes.captureValue hv).reports_cons]
    refine reports_congr ?_ ts
    rfl

/-- Junk (`IsJunk`) is reported and passed over. -/
private theorem AmongFields.reports_junk (hp : p.AmongFields) (ht : IsJunk t) (ts : List Token) :
    p.reports (t :: ts) = .missing t .key :: p.reports ts := by
  have hkey := ht.key?_eq_none
  have hfeed : p.feed t = (Reaction.take p).precededBy (.report (.unexpected t .key)) := by
    rcases hp.cases with ⟨r, rfl⟩ | ⟨r, s, rfl⟩
    · rw [feed, feedHeaders, if_pos ht.1, hkey]
    · rw [feed, feedCaptures, if_pos ht.1, hkey]
  rw [reports_cons_of_next (q := p) (by rw [hfeed]; rfl), hfeed,
    Reaction.reports_precededBy_report, Diagnostic.unexpected_eq_missing (by simp [ht.1])]
  rfl

/-- A value that is missing is reported at the token in its place. -/
private theorem AmongFields.reports_dangling (hp : p.AmongFields) (hk : IsKey k key)
    (hv : ¬ IsValue v) (hillegal : v.kind ≠ .illegal) (ts : List Token) :
    p.reports (k :: v :: ts) = .missing v .value :: p.reports (v :: ts) := by
  rw [isValue_iff] at hv
  rw [← Diagnostic.unexpected_eq_missing hillegal]
  rcases hp.cases with ⟨r, rfl⟩ | ⟨r, s, rfl⟩
  · rw [(Takes.headerKey hk).reports_cons]
    refine reports_cons_of_precededBy ?_ ts
    exact if_neg hv
  · rw [(Takes.captureKey hk).reports_cons]
    refine reports_cons_of_precededBy ?_ ts
    exact if_neg hv

end Phase

namespace Grammar

open Phase

variable {p : Phase} {next : Token} {ts : List Token} {ds : List Diagnostic}

private theorem FieldsWithFaults.kind_head (h : FieldsWithFaults next ts ds) :
    ∀ t ∈ ts.head?, t.kind = .string := by
  cases h with
  | nil => simp
  | field hk hv hts => simpa using hk.1
  | junk ht hts => simpa using ht.1
  | dangling hk hcolon hts => simpa using hk.1

/-- **The reports of fields** are those of their faults `ds`. -/
theorem FieldsWithFaults.reports_eq (h : FieldsWithFaults next ts ds) (hp : p.AmongFields)
    (hnext : next.EndsFields) (us : List Token) :
    p.reports (ts ++ next :: us) = ds ++ p.reports (next :: us) := by
  induction h with
  | nil => rfl
  | field hk hv _ ih =>
    rw [List.cons_append, List.cons_append, hp.reports_field hk hv, ih]
  | junk ht _ ih =>
    rw [List.cons_append, hp.reports_junk ht, ih]
    rfl
  | @dangling k key ts ds hk hcolon hts ih =>
    -- the value is missing at the first token of the other fields, or after them
    cases ts with
    | nil =>
      rw [List.cons_append, List.nil_append,
        hp.reports_dangling hk hnext.not_isValue hnext.kind_ne.2.2]
      exact congrArg (_ :: ·) ih
    | cons t ts =>
      obtain ⟨w, hw⟩ := hcolon t (by simp)
      have hkind : t.kind = .string := hts.kind_head t (by simp)
      rw [List.cons_append, List.cons_append,
        hp.reports_dangling hk (fun hv => hv.2 w hw) (by simp [hkind])]
      exact congrArg (_ :: ·) ih

/-! ### Responses and entries -/

private theorem TailWithFaults.kind_head (h : TailWithFaults next ts ds) :
    ∀ t ∈ ts.head?, t.kind = .http := by
  cases h <;> simp [*]

/-- The first token after a request ends its headers. -/
private theorem TailWithFaults.endsFields (h : TailWithFaults next ts ds)
    (hnext : next.EndsEntry) : (ts.headD next).EndsFields := by
  cases ts with
  | nil => exact .inr hnext
  | cons t ts => exact .inl (h.kind_head t (by simp))

/-- **The reports of what comes after a request** are those of its faults `ds`. -/
theorem TailWithFaults.reports_eq (h : TailWithFaults next ts ds) (r : Request)
    (hnext : next.EndsEntry) (us : List Token) :
    (headers r).reports (ts ++ next :: us) = ds ++ outside.reports (next :: us) := by
  cases h with
  | absent => exact reports_of_endsEntry hnext _ us
  | plain hh hs =>
    rw [List.cons_append, (Takes.marker hh).reports_cons, List.cons_append,
      (Takes.status hs).reports_cons]
    exact reports_of_endsEntry hnext _ us
  | capturing hh hs hc hts =>
    rw [List.cons_append, (Takes.marker hh).reports_cons, List.cons_append,
      (Takes.status hs).reports_cons, List.cons_append, (Takes.tag hc).reports_cons,
      hts.reports_eq (.inr rfl) (.inr hnext), reports_of_endsEntry hnext]
    rfl
  | noStatus hh =>
    rw [List.cons_append, (Takes.marker hh).reports_cons, List.nil_append,
      reports_of_endsEntry hnext]
    rfl
  | @largeStatus h n hh hn hlarge =>
    have hstatus : n.status? = none := by
      rw [Token.status?]
      exact if_neg fun hfits => Nat.not_lt.mpr hlarge hfits.2
    rw [List.cons_append, (Takes.marker hh).reports_cons, List.cons_append, List.nil_append]
    have hfeed : (status r h).feed n = (Reaction.take (.closing (.ofParts r {}))).precededBy
        (.report (.unexpected n .status)) := by
      rw [feed, feedStatus, if_pos hn, hstatus]
    rw [reports_cons_of_next (q := .closing (.ofParts r {})) (by rw [hfeed]; rfl), hfeed,
      reports_of_endsEntry hnext, Reaction.reports_precededBy_report,
      Diagnostic.unexpected_eq_missing (by simp [hn])]
    rfl

/-- The tokens `ts` and one more begin with the first of `ts`, if there is one. -/
private theorem exists_append_eq_headD_cons (ts : List Token) (t : Token) (us : List Token) :
    ∃ vs, ts ++ t :: us = ts.headD t :: vs := by
  cases ts with
  | nil => exact ⟨us, rfl⟩
  | cons a ts => exact ⟨_, rfl⟩

/-- **The reports of an entry** are those of its faults `ds`. -/
theorem EntryWithFaults.reports_eq (h : EntryWithFaults next ts ds) (hnext : next.EndsEntry)
    (us : List Token) :
    outside.reports (ts ++ next :: us) = ds ++ outside.reports (next :: us) := by
  cases h with
  | @complete m u fs vs ds es hm hu hfs hvs =>
    obtain ⟨rest, hrest⟩ := exists_append_eq_headD_cons vs next us
    rw [List.cons_append, (Takes.method .outside hm).reports_cons, List.cons_append,
      (Takes.url hu).reports_cons, List.append_assoc, hrest,
      hfs.reports_eq (.inl rfl) (hvs.endsFields hnext), ← hrest, hvs.reports_eq _ hnext,
      List.append_assoc]
  | @noUrl m vs es hm hvs =>
    obtain ⟨rest, hrest⟩ := exists_append_eq_headD_cons vs next us
    have hends := hvs.endsFields hnext
    -- without its URL the request has the span of its method
    have hfeed : (url m).feed (vs.headD next) =
        ((headers { span := m.span }).feed (vs.headD next)).precededBy
          (.report (.unexpected (vs.headD next) .url)) := by
      rw [feed, feedUrl, feed, feedHeaders, if_neg hends.kind_ne.1, if_neg hends.kind_ne.1]
    rw [List.cons_append, (Takes.method .outside hm).reports_cons, hrest,
      reports_cons_of_precededBy hfeed, ← hrest, hvs.reports_eq _ hnext,
      Diagnostic.unexpected_eq_missing hends.kind_ne.2.2]
    rfl

/-- Entries begin with a method. -/
private theorem EntriesWithFaults.isMethod_head (h : EntriesWithFaults next ts ds) :
    ∀ t ∈ ts.head?, t.kind.isMethod = true := by
  cases h with
  | nil => simp
  | cons hts _ =>
    cases hts with
    | complete hm => simpa using meets_method_iff.mp hm
    | noUrl hm => simpa using meets_method_iff.mp hm

/-- **The reports of entries** are those of their faults `ds`. -/
theorem EntriesWithFaults.reports_eq (h : EntriesWithFaults next ts ds) (hnext : next.EndsEntry) :
    outside.reports (ts ++ [next]) = ds ++ outside.reports [next] := by
  induction h with
  | nil => rfl
  | @cons ts us ds es hts hus ih =>
    obtain ⟨rest, hrest⟩ := exists_append_eq_headD_cons us next []
    have hends : (us.headD next).EndsEntry := by
      cases us with
      | nil => exact hnext
      | cons u us => exact .inl (hus.isMethod_head u (by simp))
    rw [List.append_assoc, hrest, hts.reports_eq hends, ← hrest, ih, List.append_assoc]

end Grammar

/-- **Isolated faults** (`EntriesWithFaults`) **are reported once each**, in the order of the text,
and nothing else is reported. -/
theorem complaints_parse_of_isolated_faults {source : String} {ds : List Diagnostic}
    (h : EntriesWithFaults (tokenize source).last (tokenize source).tokens ds)
    (hne : (tokenize source).tokens ≠ []) (file : Option String) :
    complaints (parse source file) = ds ∧ ((∃ s, parse source file = .ok s) ↔ ds = []) := by
  obtain ⟨m, ts, htokens⟩ := List.exists_cons_of_ne_nil hne
  have hm : m.kind.isMethod = true := h.isMethod_head m (by simp [htokens])
  have hlast : (tokenize source).last.EndsEntry := .inr rfl
  have hreports : complaints (parse source file) = ds := by
    rw [complaints_parse_of_isMethod htokens hm, TokenStream.toList, h.reports_eq hlast]
    exact List.append_nil ds
  exact ⟨hreports, by rw [exists_parse_eq_ok_iff, hreports]⟩

/-- A request with neither a URL nor a status code, and one with junk, a key without its value and
a numeral that is too large. -/
theorem complaints_parse_of_two_entries :
    EntriesWithFaults (tokenize "GET HTTP\nGET u j k: x: 1 HTTP 65536").last
        (tokenize "GET HTTP\nGET u j k: x: 1 HTTP 65536").tokens
        [⟨.expected "URL", 1, "HTTP"⟩, ⟨.expected "status code", 2, "GET"⟩,
          ⟨.expected "`key:`", 2, "j"⟩, ⟨.expected "value", 2, "x:"⟩,
          ⟨.expected "status code", 2, "65536"⟩] ∧
      complaints (parse "GET HTTP\nGET u j k: x: 1 HTTP 65536" none) =
        [⟨.expected "URL", 1, "HTTP"⟩, ⟨.expected "status code", 2, "GET"⟩,
          ⟨.expected "`key:`", 2, "j"⟩, ⟨.expected "value", 2, "x:"⟩,
          ⟨.expected "status code", 2, "65536"⟩] := by
  have htokens : (tokenize "GET HTTP\nGET u j k: x: 1 HTTP 65536").tokens =
      [⟨.get, "GET", 0, ⟨0, 3⟩⟩, ⟨.http, "HTTP", 0, ⟨4, 8⟩⟩, ⟨.get, "GET", 1, ⟨9, 12⟩⟩,
        ⟨.string, "u", 1, ⟨13, 14⟩⟩, ⟨.string, "j", 1, ⟨15, 16⟩⟩, ⟨.string, "k:", 1, ⟨17, 19⟩⟩,
        ⟨.string, "x:", 1, ⟨20, 22⟩⟩, ⟨.number, "1", 1, ⟨23, 24⟩⟩, ⟨.http, "HTTP", 1, ⟨25, 29⟩⟩,
        ⟨.number, "65536", 1, ⟨30, 35⟩⟩] := by
    decide +kernel
  have hjunk : IsJunk ⟨.string, "j", 1, ⟨15, 16⟩⟩ :=
    ⟨rfl, .inl fun w hw => by simpa using congrArg (·.toList.getLast?) hw⟩
  have hkey : ∀ key line span, key ≠ "" → IsKey ⟨.string, key ++ ":", line, span⟩ key :=
    fun _ _ _ hne => ⟨rfl, rfl, hne⟩
  have hfields : FieldsWithFaults ⟨.http, "HTTP", 1, ⟨25, 29⟩⟩
      [⟨.string, "j", 1, ⟨15, 16⟩⟩, ⟨.string, "k:", 1, ⟨17, 19⟩⟩, ⟨.string, "x:", 1, ⟨20, 22⟩⟩,
        ⟨.number, "1", 1, ⟨23, 24⟩⟩]
      [⟨.expected "`key:`", 2, "j"⟩, ⟨.expected "value", 2, "x:"⟩] :=
    .junk hjunk (.dangling (hkey "k" 1 _ (by decide)) (by simpa using ⟨"x", by decide⟩)
      (.field (hkey "x" 1 _ (by decide)) (isValue_iff.mpr (by decide)) .nil))
  have hget : ∀ line span, Meets ⟨.get, "GET", line, span⟩ .method := fun _ _ => .inl rfl
  have hurl : Meets ⟨.string, "u", 1, ⟨13, 14⟩⟩ .url := rfl
  have htail : ∀ next, TailWithFaults next
      [⟨.http, "HTTP", 1, ⟨25, 29⟩⟩, ⟨.number, "65536", 1, ⟨30, 35⟩⟩]
      [⟨.expected "status code", 2, "65536"⟩] := fun next =>
    .largeStatus rfl rfl (by decide)
  have hfirst : EntryWithFaults ⟨.get, "GET", 1, ⟨9, 12⟩⟩
      [⟨.get, "GET", 0, ⟨0, 3⟩⟩, ⟨.http, "HTTP", 0, ⟨4, 8⟩⟩]
      [⟨.expected "URL", 1, "HTTP"⟩, ⟨.expected "status code", 2, "GET"⟩] :=
    .noUrl (hget 0 _) (.noStatus rfl)
  have hsecond : ∀ next, EntryWithFaults next
      [⟨.get, "GET", 1, ⟨9, 12⟩⟩, ⟨.string, "u", 1, ⟨13, 14⟩⟩, ⟨.string, "j", 1, ⟨15, 16⟩⟩,
        ⟨.string, "k:", 1, ⟨17, 19⟩⟩, ⟨.string, "x:", 1, ⟨20, 22⟩⟩, ⟨.number, "1", 1, ⟨23, 24⟩⟩,
        ⟨.http, "HTTP", 1, ⟨25, 29⟩⟩, ⟨.number, "65536", 1, ⟨30, 35⟩⟩]
      [⟨.expected "`key:`", 2, "j"⟩, ⟨.expected "value", 2, "x:"⟩,
        ⟨.expected "status code", 2, "65536"⟩] := fun next =>
    @EntryWithFaults.complete next _ _ _ [_, _] _ _ (hget 1 _) hurl hfields (htail next)
  have h : EntriesWithFaults (tokenize "GET HTTP\nGET u j k: x: 1 HTTP 65536").last
      (tokenize "GET HTTP\nGET u j k: x: 1 HTTP 65536").tokens
      [⟨.expected "URL", 1, "HTTP"⟩, ⟨.expected "status code", 2, "GET"⟩,
        ⟨.expected "`key:`", 2, "j"⟩, ⟨.expected "value", 2, "x:"⟩,
        ⟨.expected "status code", 2, "65536"⟩] := by
    rw [htokens]
    exact @EntriesWithFaults.cons _ _ (_ :: _) _ _ hfirst (.cons (hsecond _) .nil)
  exact ⟨h, (complaints_parse_of_isolated_faults h (by simp [htokens]) none).1⟩

end RequestScript
