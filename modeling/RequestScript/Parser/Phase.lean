import RequestScript.Diagnostic
import RequestScript.Script.Basic

/-!
# Phases: what may come next

A script is read token by token, and at each token a parse is in one of a few **phases**, which
say what may come next and hold what was read of the current entry. `Phase.feed` is the whole
grammar in one step: a token in a phase causes **actions** (a diagnostic is reported, an entry is
closed) and leads to the next phase, or it is left where it stands and the parse stops.

A fault does not stop a parse inside an entry; it goes on as follows.

* A word that is no key is passed over.
* A missing URL, status code or value is reported at the token in its place, and that token is
  then read as if nothing were missing. The request without a URL has neither method nor URL, and
  only the span of its method; the response without a status code is absent.
* A numeral too large for a status code is passed over, and the entry ends there, without a
  response.

Between entries only a method or the end of the text may come: any other token stops the parse.
-/

namespace RequestScript

/-- What a token causes. -/
inductive Action where
  /-- A diagnostic is reported. -/
  | report (d : Diagnostic)
  /-- An entry is complete. -/
  | close (e : Entry)
deriving DecidableEq, Repr, Inhabited

/-- The diagnostic of a report. -/
def Action.diagnostic? : Action → Option Diagnostic
  | .report d => some d
  | .close _ => none

/-- The entry that is closed. -/
def Action.entry? : Action → Option Entry
  | .report _ => none
  | .close e => some e

/-- What may come next, and what was read of the current entry. -/
inductive Phase where
  /-- Between entries: a method, or the end of the text. -/
  | outside
  /-- After the method: a URL. -/
  | url (method : Token)
  /-- After the request line or a header: another header, or what may follow the request. -/
  | headers (request : Request)
  /-- After the key of a header: its value. -/
  | headerValue (request : Request) (key : String) (start : Nat)
  /-- After the marker of the response: a status code. -/
  | status (request : Request) (marker : Token)
  /-- After the status code: the tag of the captures, or another entry. -/
  | tag (request : Request) (response : Response)
  /-- After the tag or a capture: another capture, or another entry. -/
  | captures (request : Request) (response : Response)
  /-- After the key of a capture: its value. -/
  | captureValue (request : Request) (response : Response) (key : String) (start : Nat)
  /-- After an entry that ended with a fault: another entry. -/
  | closing (entry : Entry)
deriving DecidableEq, Repr, Inhabited

/-- How a parse reacts to a token. -/
structure Reaction where
  /-- What the token causes. -/
  actions : List Action
  /-- The phase after the token; none if the token is left where it stands. -/
  next : Option Phase
deriving DecidableEq, Repr, Inhabited

namespace Reaction

/-- The token is taken, and the parse is in the phase `p`. -/
def take (p : Phase) : Reaction where
  actions := []
  next := some p

/-- The reaction with an action before it. -/
def precededBy (r : Reaction) (a : Action) : Reaction where
  actions := a :: r.actions
  next := r.next

end Reaction

namespace Phase

/-! ### One function for each kind of place in a script -/

/-- The token that stands between entries. -/
def feedOutside (t : Token) : Reaction :=
  if t.kind.isMethod then .take (.url t)
  else if t.kind = .endOfInput then ⟨[], none⟩
  else ⟨[.report (.unexpected t .method)], none⟩

/-- The token that follows a complete entry. -/
def feedClosing (e : Entry) (t : Token) : Reaction :=
  (feedOutside t).precededBy (.close e)

/-- The token that follows a request: the marker of a response, or else there is none. -/
def feedResponse (r : Request) (t : Token) : Reaction :=
  if t.kind = .http then .take (.status r t)
  else feedClosing (.ofParts r {}) t

/-- The token that follows a request line or a header. -/
def feedHeaders (r : Request) (t : Token) : Reaction :=
  if t.kind = .string then
    match t.key? with
    | some key => .take (.headerValue r key t.span.start)
    | none => (Reaction.take (.headers r)).precededBy (.report (.unexpected t .key))
  else feedResponse r t

/-- The token that follows the tag of the captures or a capture. -/
def feedCaptures (r : Request) (s : Response) (t : Token) : Reaction :=
  if t.kind = .string then
    match t.key? with
    | some key => .take (.captureValue r s key t.span.start)
    | none => (Reaction.take (.captures r s)).precededBy (.report (.unexpected t .key))
  else feedClosing (.ofParts r s) t

/-- The token that follows the method of a request. -/
def feedUrl (method t : Token) : Reaction :=
  if t.kind = .string then
    let span : Span := ⟨method.span.start, t.span.stop⟩
    .take (.headers { endpoint := ⟨method.literal, t.literal, span⟩, span := span })
  else (feedResponse { span := method.span } t).precededBy (.report (.unexpected t .url))

/-- The token that follows the marker of a response. -/
def feedStatus (r : Request) (marker t : Token) : Reaction :=
  if t.kind = .number then
    match t.status? with
    | some code =>
      let span : Span := ⟨marker.span.start, t.span.stop⟩
      .take (.tag r { protocol := marker.literal, status := code, span := span })
    | none =>
      (Reaction.take (.closing (.ofParts r {}))).precededBy (.report (.unexpected t .status))
  else (feedClosing (.ofParts r {}) t).precededBy (.report (.unexpected t .status))

/-- The token that follows a status code. -/
def feedTag (r : Request) (s : Response) (t : Token) : Reaction :=
  if t.kind = .capture then .take (.captures r (s.extend t.span.stop))
  else feedClosing (.ofParts r s) t

/-- The field of a key and the token of its value. -/
def field (key : String) (start : Nat) (t : Token) : Field where
  key := key
  value := t.literal
  span := ⟨start, t.span.stop⟩

/-- The reaction of a phase to a token. -/
def feed : Phase → Token → Reaction
  | .outside, t => feedOutside t
  | .url method, t => feedUrl method t
  | .headers r, t => feedHeaders r t
  | .headerValue r key start, t =>
    if t.isValue then .take (.headers (r.addHeader (field key start t)))
    else (feedHeaders r t).precededBy (.report (.unexpected t .value))
  | .status r marker, t => feedStatus r marker t
  | .tag r s, t => feedTag r s t
  | .captures r s, t => feedCaptures r s t
  | .captureValue r s key start, t =>
    if t.isValue then .take (.captures r (s.addCapture (field key start t)))
    else (feedCaptures r s t).precededBy (.report (.unexpected t .value))
  | .closing e, t => feedClosing e t

/-- **The end of a text stops every parse**: `feed` leaves its token where it stands. -/
theorem next_feed_of_endOfInput {t : Token} (p : Phase) (ht : t.kind = .endOfInput) :
    (p.feed t).next = none := by
  have houtside : (feedOutside t).next = none := by simp [feedOutside, ht, Token.Kind.isMethod]
  have hvalue : t.isValue = false := by simp [Token.isValue, ht]
  cases p <;>
    simp [feed, feedUrl, feedHeaders, feedResponse, feedStatus, feedTag, feedCaptures, feedClosing,
      Reaction.precededBy, ht, hvalue, houtside]

end Phase

end RequestScript
