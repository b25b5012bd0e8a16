import RequestScript.Diagnostic
import RequestScript.Script.Basic
import RequestScript.Text.Decimal
import RequestScript.Token.Basic

/-!
# The grammar of scripts

Which tokens make up which script, as relations that know nothing of how a text is read:

* a **script** is a sequence of one or more entries,
* an **entry** is a request and, maybe, a response,
* a **request** is a method, a URL and fields,
* a **response** is a marker, a status code and, maybe, a tag followed by fields,
* a **field** is a key and a value.

Every node spans its tokens, from the first byte of the first to the last byte of the last; an
absent response has no tokens and the empty span.
-/

namespace RequestScript

/-- From the first of the tokens to the last. -/
def Span.ofTokens (ts : List Token) : Span where
  start := (ts.head?.map (·.span.start)).getD 0
  stop := (ts.getLast?.map (·.span.stop)).getD 0

namespace Grammar

/-! ### Single tokens -/

/-- The token is the given key with a colon. -/
def IsKey (t : Token) (key : String) : Prop :=
  t.kind = .string ∧ t.literal = key ++ ":" ∧ key ≠ ""

/-- The token is a word or a numeral, and does not end in a colon. -/
def IsValue (t : Token) : Prop :=
  (t.kind = .string ∨ t.kind = .number) ∧ ∀ w, t.literal ≠ w ++ ":"

/-- The token is a numeral of the given status code. -/
def IsStatus (t : Token) (code : UInt16) : Prop :=
  t.kind = .number ∧ Decimal.value t.literal.toList = code.toNat

/-- The token is what is expected. -/
def Meets (t : Token) : Expectation → Prop
  | .method => t.kind = .get ∨ t.kind = .post
  | .url => t.kind = .string
  | .status => ∃ code, IsStatus t code
  | .key => ∃ key, IsKey t key
  | .value => IsValue t

/-! ### Nodes -/

/-- The tokens are a field. -/
inductive IsField : List Token → Field → Prop where
  /-- A key and a value. -/
  | intro {k v : Token} {key : String} (hk : IsKey k key) (hv : IsValue v) :
      IsField [k, v] ⟨key, v.literal, .ofTokens [k, v]⟩

/-- The tokens are fields, one after another. -/
inductive AreFields : List Token → List Field → Prop where
  /-- No field has no tokens. -/
  | nil : AreFields [] []
  /-- A field and those after it. -/
  | cons {ts us : List Token} {f : Field} {fs : List Field} (hf : IsField ts f)
      (hfs : AreFields us fs) : AreFields (ts ++ us) (f :: fs)

/-- The tokens are a request. -/
inductive IsRequest : List Token → Request → Prop where
  /-- A method, a URL and headers. -/
  | intro {m u : Token} {ts : List Token} {headers : List Field} (hm : Meets m .method)
      (hu : Meets u .url) (hs : AreFields ts headers) :
      IsRequest (m :: u :: ts)
        ⟨⟨m.literal, u.literal, .ofTokens [m, u]⟩, headers, .ofTokens (m :: u :: ts)⟩

/-- The tokens are a response, which may be absent. -/
inductive IsResponse : List Token → Response → Prop where
  /-- No tokens are no response. -/
  | absent : IsResponse [] {}
  /-- A marker and a status code. -/
  | plain {h s : Token} {code : UInt16} (hh : h.kind = .http) (hs : IsStatus s code) :
      IsResponse [h, s] ⟨h.literal, code, [], .ofTokens [h, s]⟩
  /-- A marker, a status code, a tag and captures. -/
  | capturing {h s c : Token} {code : UInt16} {ts : List Token} {captures : List Field}
      (hh : h.kind = .http) (hs : IsStatus s code) (hc : c.kind = .capture)
      (hf : AreFields ts captures) :
      IsResponse (h :: s :: c :: ts) ⟨h.literal, code, captures, .ofTokens (h :: s :: c :: ts)⟩

/-- The tokens are an entry. -/
inductive IsEntry : List Token → Entry → Prop where
  /-- A request and a response. -/
  | intro {ts us : List Token} {r : Request} {s : Response} (hr : IsRequest ts r)
      (hs : IsResponse us s) : IsEntry (ts ++ us) ⟨r, s, .ofTokens (ts ++ us)⟩

/-- The tokens are entries, one after another. -/
inductive AreEntries : List Token → List Entry → Prop where
  /-- No entry has no tokens. -/
  | nil : AreEntries [] []
  /-- An entry and those after it. -/
  | cons {ts us : List Token} {e : Entry} {es : List Entry} (he : IsEntry ts e)
      (hes : AreEntries us es) : AreEntries (ts ++ us) (e :: es)

/-- The tokens are a script: one or more entries. -/
inductive IsScript : List Token → Script → Prop where
  /-- Entries, at least one. -/
  | intro {ts : List Token} {es : List Entry} (h : AreEntries ts es) (hne : es ≠ []) :
      IsScript ts ⟨es, .ofTokens ts⟩

/-! ### Beginnings of scripts -/

/-- The tokens begin a script that is followed by the end of the text. -/
def Viable (ts : List Token) : Prop :=
  ∃ us s stop, IsScript us s ∧ ts <+: us ++ [Token.endOfInput stop]

end Grammar

end RequestScript
