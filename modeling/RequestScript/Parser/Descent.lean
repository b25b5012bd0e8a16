import RequestScript.Parser.Log

/-!
# Parsing by descent

How a parse works on a reader: it holds the token that it looks at and the one after it, and runs
loops inside loops, one for each construct of a script. Each loop goes through a few states, as
`Descent.LineLoop` or `Descent.FieldLoop`; what it has read so far is kept beside its state.

* `Descent.State` is what a parse holds. `Descent.State.advance` moves it by one token, which is
  the only thing that reads one, and `Descent.State.complain` finds a fault at the token it looks
  at.
* `Descent.Loop` says which loop is running, and what those around it hold.
* `Descent.step` is one round of the loop that is running. A round may leave the loop, it may take
  a token or not, and nothing in it says that the loops come to an end.

The walk over a stream (`TokenStream.walk`) knows all tokens in advance and ends with them. A
descent does not: that it ends, and with what a walk finds, has to be proved.
-/

namespace RequestScript

namespace Descent

/-! ### What a parse holds -/

/-- What a parse holds, and what it has done. -/
structure State where
  /-- The name of the file, if there is one. -/
  file : Option String := none
  /-- The reader from which tokens are read. -/
  reader : Reader
  /-- The token that the parse looks at. -/
  current : Token
  /-- The token after it, which is read already. -/
  ahead : Token
  /-- Where the token ends that was taken last. -/
  consumed : Nat := 0
  /-- The diagnostics recorded so far. -/
  diagnostics : List Diagnostic := []
  /-- The entries of the script so far. -/
  entries : List Entry := []
  /-- What was done so far. -/
  events : List Event := []
deriving DecidableEq, Repr, Inhabited

namespace State

/-- The state of a parse that is to begin: two tokens are read. -/
def ofReader (r : Reader) (file : Option String) : State :=
  let (t, r) := r.nextToken
  let (u, r) := r.nextToken
  { file := file, reader := r, current := t, ahead := u, events := [.tokenRead t, .tokenRead u] }

/-- Something is done. -/
def emit (m : State) (e : Event) : State :=
  { m with events := m.events ++ [e] }

/-- Takes the token that the parse looks at, and reads one. -/
def advance (m : State) : State :=
  let (t, r) := m.reader.nextToken
  { m with reader := r, current := m.ahead, ahead := t, consumed := m.current.span.stop }.emit
    (.tokenRead t)

/-- Records a diagnostic. -/
def record (m : State) (d : Diagnostic) : State :=
  { m with diagnostics := m.diagnostics ++ [d] }.emit (.faultFound d)

/-- Records that the token that the parse looks at is not what it should be. -/
def complain (m : State) (e : Expectation) : State :=
  m.record (.unexpected m.current e)

/-- Adds an entry to the script. -/
def addEntry (m : State) (e : Entry) : State :=
  { m with entries := m.entries ++ [e] }.emit (.entryRead e)

/-- Sums up, when the loops are over. -/
def conclude (m : State) : State :=
  let m := if m.entries.isEmpty then m.record (.noRequest m.current) else m
  m.emit (.finished m.file m.entries.length m.diagnostics.length)

/-- What is handed back: the script, if nothing at all was found wrong. -/
def result (m : State) : Except Rejection Script :=
  if m.diagnostics.isEmpty then .ok (.ofEntries m.entries) else .error ⟨m.file, m.diagnostics⟩

end State

/-! ### Loops -/

/-- The states of the loop that reads a request. -/
inductive RequestLoop where
  /-- A method should follow. -/
  | method
  /-- The request line follows. -/
  | line
  /-- Headers may follow. -/
  | headers
deriving DecidableEq, Repr, Inhabited

/-- The states of the loop that reads a request line. -/
inductive LineLoop where
  /-- The method follows. -/
  | method
  /-- The URL should follow. -/
  | url
  /-- The line is complete. -/
  | done
deriving DecidableEq, Repr, Inhabited

/-- The states of the loop that reads a response. -/
inductive ResponseLoop where
  /-- The marker may follow. -/
  | marker
  /-- The status code should follow. -/
  | status
  /-- The tag of the captures may follow. -/
  | tag
  /-- Captures may follow. -/
  | captures
deriving DecidableEq, Repr, Inhabited

/-- The states of the loop that reads a header or a capture. -/
inductive FieldLoop where
  /-- The key should follow. -/
  | key
  /-- The value should follow. -/
  | value
  /-- The field is complete. -/
  | done
deriving DecidableEq, Repr, Inhabited

/-- The loop that is running, with its state and what it has read, and what the loops around it
have read. -/
inductive Loop where
  /-- Entries are read. -/
  | script
  /-- A request is read. -/
  | request (state : RequestLoop) (r : Request)
  /-- The line of a request is read. -/
  | line (state : LineLoop) (e : Endpoint) (r : Request)
  /-- A header of a request is read. -/
  | header (state : FieldLoop) (f : Field) (r : Request)
  /-- The response to a request is read. -/
  | response (state : ResponseLoop) (s : Response) (r : Request)
  /-- A capture of a response is read. -/
  | capture (state : FieldLoop) (f : Field) (s : Response) (r : Request)
  /-- Request and response are read, and make up an entry. -/
  | entry (r : Request) (s : Response)
deriving DecidableEq, Repr, Inhabited

/-- What comes of a round of a loop. -/
inductive Round (σ α : Type) where
  /-- The loop goes on. -/
  | again (state : σ)
  /-- The loop is left, and hands something back. -/
  | leave (result : α)

/-- A round of the loop that reads a request line. It hands back no line if something is
missing. -/
def lineRound (m : State) (e : Endpoint) :
    LineLoop → State × Round (LineLoop × Endpoint) (Option Endpoint)
  | .method =>
    if m.current.kind.isMethod then
      (m.advance, .again (.url,
        { e with method := m.current.literal, span := ⟨m.current.span.start, e.span.stop⟩ }))
    else (m.complain .method, .leave none)
  | .url =>
    if m.current.kind = .string then
      (m.advance, .again (.done,
        { e with url := m.current.literal, span := ⟨e.span.start, m.current.span.stop⟩ }))
    else (m.complain .url, .leave none)
  | .done => (m, .leave (some e))

/-- A round of the loop that reads a field. It hands back no field if something is missing, and it
takes a word that is no key. -/
def fieldRound (m : State) (f : Field) :
    FieldLoop → State × Round (FieldLoop × Field) (Option Field)
  | .key =>
    match if m.current.kind = .string then m.current.key? else none with
    | some key =>
      (m.advance, .again (.value,
        { f with key := key, span := ⟨m.current.span.start, f.span.stop⟩ }))
    | none => ((m.complain .key).advance, .leave none)
  | .value =>
    if m.current.isValue then
      (m.advance, .again (.done,
        { f with value := m.current.literal, span := ⟨f.span.start, m.current.span.stop⟩ }))
    else (m.complain .value, .leave none)
  | .done => (m, .leave (some f))

end Descent

/-! ### One round after another -/

/-- A parse in the middle of its work. -/
structure Descent where
  /-- The loop that is running. -/
  loop : Descent.Loop
  /-- What the parse holds. -/
  state : Descent.State
deriving DecidableEq, Repr, Inhabited

namespace Descent

/-- What comes of a step. -/
inductive Outcome where
  /-- The parse goes on. -/
  | more (d : Descent)
  /-- The parse is over. -/
  | over (m : State) (result : Except Rejection Script)

/-- The parse is over, once it has summed up. -/
def finish (m : State) : Outcome :=
  .over m.conclude m.conclude.result

/-- A round of the loop that reads entries: a method opens one, and anything else ends the loop. -/
def stepScript (m : State) : Outcome :=
  if m.current.kind.isMethod then .more ⟨.request .method {}, m⟩
  else if m.current.kind = .endOfInput then finish m
  else finish (m.complain .method)

/-- A round of the loop that reads a request. -/
def stepRequest (m : State) (r : Request) : RequestLoop → Descent
  | .method =>
    if m.current.kind.isMethod then
      ⟨.request .line { r with span := ⟨m.current.span.start, r.span.stop⟩ }, m⟩
    else ⟨.response .marker {} {}, m.complain .method⟩
  | .line => ⟨.line .method {} r, m⟩
  | .headers =>
    if m.current.kind = .string then ⟨.header .key {} r, m⟩ else ⟨.response .marker {} r, m⟩

/-- A round of the loop that reads a request line. Without the line, the request ends with the
token that was taken last. -/
def stepLine (m : State) (e : Endpoint) (r : Request) (state : LineLoop) : Descent :=
  match lineRound m e state with
  | (m, .again (state, e)) => ⟨.line state e r, m⟩
  | (m, .leave (some e)) =>
    ⟨.request .headers { r with endpoint := e, span := ⟨r.span.start, e.span.stop⟩ }, m⟩
  | (m, .leave none) => ⟨.request .headers { r with span := ⟨r.span.start, m.consumed⟩ }, m⟩

/-- A round of the loop that reads a header. -/
def stepHeader (m : State) (f : Field) (r : Request) (state : FieldLoop) : Descent :=
  match fieldRound m f state with
  | (m, .again (state, f)) => ⟨.header state f r, m⟩
  | (m, .leave (some f)) => ⟨.request .headers (r.addHeader f), m⟩
  | (m, .leave none) => ⟨.request .headers r, m⟩

/-- A round of the loop that reads a response. Where its marker or its status code is missing,
there is no response. -/
def stepResponse (m : State) (s : Response) (r : Request) : ResponseLoop → Descent
  | .marker =>
    if m.current.kind = .http then
      ⟨.response .status { s with protocol := m.current.literal, span := m.current.span } r,
        m.advance⟩
    else ⟨.entry r {}, m⟩
  | .status =>
    if m.current.kind = .number then
      match m.current.status? with
      | some code =>
        ⟨.response .tag { s with status := code, span := ⟨s.span.start, m.current.span.stop⟩ } r,
          m.advance⟩
      | none => ⟨.entry r {}, (m.complain .status).advance⟩
    else ⟨.entry r {}, m.complain .status⟩
  | .tag =>
    if m.current.kind = .capture then
      ⟨.response .captures (s.extend m.current.span.stop) r, m.advance⟩
    else ⟨.entry r s, m⟩
  | .captures =>
    if m.current.kind = .string then ⟨.capture .key {} s r, m⟩ else ⟨.entry r s, m⟩

/-- A round of the loop that reads a capture. -/
def stepCapture (m : State) (f : Field) (s : Response) (r : Request) (state : FieldLoop) :
    Descent :=
  match fieldRound m f state with
  | (m, .again (state, f)) => ⟨.capture state f s r, m⟩
  | (m, .leave (some f)) => ⟨.response .captures (s.addCapture f) r, m⟩
  | (m, .leave none) => ⟨.response .captures s r, m⟩

/-- **A step**: one round of the loop that is running. -/
def step : Descent → Outcome
  | ⟨.script, m⟩ => stepScript m
  | ⟨.request state r, m⟩ => .more (stepRequest m r state)
  | ⟨.line state e r, m⟩ => .more (stepLine m e r state)
  | ⟨.header state f r, m⟩ => .more (stepHeader m f r state)
  | ⟨.response state s r, m⟩ => .more (stepResponse m s r state)
  | ⟨.capture state f s r, m⟩ => .more (stepCapture m f s r state)
  | ⟨.entry r s, m⟩ => .more ⟨.script, m.addEntry (.ofParts r s)⟩

/-- The parse that begins with the given state. -/
def ofState (m : State) : Descent where
  loop := .script
  state := { m with entries := [] }

/-- The parse of a text. -/
def ofString (source : String) (file : Option String) : Descent :=
  ofState (.ofReader (.ofString source) file)

end Descent

end RequestScript
