import RequestScript.Script.Basic
import RequestScript.Text.Decimal
import RequestScript.Token.Basic

/-!
# Writing scripts

The written form of a script is a list of **constructs** (a request line, a header, a marker with
its status code, the tag of the captures, a capture), each of which is a list of words. It comes
in two layouts: all words in one line (`Script.render`), and a construct to a line
(`Script.renderLines`).

A script is **well formed** if its parts can be written as words and read back as what they are
(`Script.WellFormed`). Spans play no part in either.
-/

namespace RequestScript

/-! ### Constructs and words -/

/-- A key with its colon, and the value. -/
def Field.words (f : Field) : List String :=
  [f.key ++ ":", f.value]

/-- The request line, and a construct for each header. -/
def Request.constructs (r : Request) : List (List String) :=
  [r.endpoint.method, r.endpoint.url] :: r.headers.map Field.words

/-- The marker with the status code; if there are captures, the tag and a construct for each of
them. An absent response has no constructs. -/
def Response.constructs (r : Response) : List (List String) :=
  if r.isPresent then
    [r.protocol, String.ofList (Decimal.digits r.status.toNat)] ::
      if r.captures.isEmpty then [] else ["[Capture]"] :: r.captures.map Field.words
  else []

/-- The constructs of the request and those of the response. -/
def Entry.constructs (e : Entry) : List (List String) :=
  e.request.constructs ++ e.response.constructs

namespace Script

/-- The constructs of all entries. -/
def constructs (s : Script) : List (List String) :=
  s.entries.flatMap Entry.constructs

/-- The words of a script. -/
def words (s : Script) : List String :=
  s.constructs.flatten

/-- All words of the script in one line. -/
def render (s : Script) : String :=
  " ".intercalate s.words

/-- The script with a construct to a line. -/
def renderLines (s : Script) : String :=
  "\n".intercalate (s.constructs.map (" ".intercalate ·))

end Script

/-! ### Well-formed scripts -/

/-- A word of a text: word characters only, and at least one. -/
def IsWord (w : String) : Prop :=
  w ≠ "" ∧ ∀ c ∈ w.toList, isWordChar c = true

/-- The key is a word, and the value is a word that can be read as a value. -/
def Field.WellFormed (f : Field) : Prop :=
  IsWord f.key ∧ IsWord f.value ∧ (∀ w, f.value ≠ w ++ ":") ∧
    (Token.Kind.ofWord f.value = .string ∨ Token.Kind.ofWord f.value = .number)

/-- The method is a method, the URL a word that is not reserved, and the headers are well
formed. -/
def Request.WellFormed (r : Request) : Prop :=
  (r.endpoint.method = "GET" ∨ r.endpoint.method = "POST") ∧
    (IsWord r.endpoint.url ∧ Token.Kind.ofWord r.endpoint.url = .string) ∧
    ∀ f ∈ r.headers, f.WellFormed

/-- The response is absent, or it has the one marker there is and well-formed captures. -/
def Response.WellFormed (r : Response) : Prop :=
  r = {} ∨ r.protocol = "HTTP" ∧ ∀ f ∈ r.captures, f.WellFormed

/-- The request and the response are well formed. -/
def Entry.WellFormed (e : Entry) : Prop :=
  e.request.WellFormed ∧ e.response.WellFormed

/-- There is an entry, and all entries are well formed. -/
def Script.WellFormed (s : Script) : Prop :=
  s.entries ≠ [] ∧ ∀ e ∈ s.entries, e.WellFormed

end RequestScript
