import RequestScript.Parser.Basic
import RequestScript.Text.Quoted

/-!
# The log of a parse

What a parse does, as a list of **events**: tokens are read, faults are found, entries are
complete, and at the end the parse sums up. Tokens are read one ahead: two before the first is
looked at, and one more for each token that is taken.
-/

namespace RequestScript

/-- How much an event matters. -/
inductive Level where
  /-- One of very many. -/
  | trace
  /-- Of use to those who look for a fault. -/
  | debug
deriving DecidableEq, Repr, Inhabited

/-- The name under which a level is shown. -/
def Level.name : Level → String
  | .trace => "TRACE"
  | .debug => "DEBUG"

/-- What a detail of an event may be. -/
inductive Detail where
  /-- A text. -/
  | text (s : String)
  /-- A number. -/
  | number (n : Nat)
deriving DecidableEq, Repr, Inhabited

/-- Something that a parse does. -/
inductive Event where
  /-- A token is read. -/
  | tokenRead (t : Token)
  /-- A fault is found. -/
  | faultFound (d : Diagnostic)
  /-- An entry is complete. -/
  | entryRead (e : Entry)
  /-- The parse is over; the counts are those of its entries and of all diagnostics. -/
  | finished (file : Option String) (entries diagnostics : Nat)
deriving DecidableEq, Repr, Inhabited

namespace Event

/-- The event of an action. -/
def ofAction : Action → Event
  | .report d => .faultFound d
  | .close e => .entryRead e

/-- How much the event matters. -/
def level : Event → Level
  | .tokenRead _ => .trace
  | _ => .debug

/-- The words that describe the event. -/
def message : Event → String
  | .tokenRead _ => "scanned token"
  | .faultFound _ => "parse error"
  | .entryRead _ => "parsed entry"
  | .finished .. => "parsed program"

/-- The details of the event by name. -/
def details : Event → List (String × Detail)
  | .tokenRead t =>
    [("kind", .text t.kind.name), ("literal", .text t.literal), ("line", .number t.line),
      ("start", .number t.span.start), ("end", .number t.span.stop)]
  | .faultFound d => [("diagnostic", .text d.message)]
  | .entryRead e =>
    [("method", .text e.request.endpoint.method), ("url", .text e.request.endpoint.url),
      ("headers", .number e.request.headers.length),
      ("status", .number e.response.status.toNat),
      ("captures", .number e.response.captures.length)]
  | .finished file entries diagnostics =>
    [("filename", .text (Quoted.quoteOption file)), ("entries", .number entries),
      ("diagnostics", .number diagnostics)]

end Event

/-- The events of the tokens that a walk took: what the token caused, and then the token that is
read in its place, two places ahead. The stream starts with the one that comes first. -/
def TokenStream.eventsAhead (ahead : TokenStream) : List (List Action) → List Event
  | [] => []
  | as :: steps =>
    as.map .ofAction ++ .tokenRead ahead.current :: (ahead.drop 1).eventsAhead steps

/-- The events of one parse, once the parser has two tokens in hand. -/
def Parser.events (p : Parser) : List Event :=
  let w := p.stream.walk
  (p.stream.drop 2).eventsAhead w.steps ++ w.last.map .ofAction ++ w.absence.map .faultFound ++
    [.finished p.file w.entries.length p.after.diagnostics.length]

/-- The events of the making of a parser, which reads two tokens, and of a parse. -/
def Parser.log (p : Parser) : List Event :=
  .tokenRead (p.stream.get 0) :: .tokenRead (p.stream.get 1) :: p.events

end RequestScript
