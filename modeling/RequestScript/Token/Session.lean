import RequestScript.Token.Reader

/-!
# Sessions: sequences of calls to a reader

A **session** gives commands to a machine that hands out tokens and records its answers. States
can be saved on a stack and restored. Two machines answer the same commands: a `Reader`, which
works on the characters of a text, and a `Tape`, which knows all tokens in advance and moves an
index over them.
-/

namespace RequestScript

/-- A machine that hands out tokens. -/
class TokenSource (σ : Type) where
  /-- The next token, at the end the token of the end. -/
  nextToken : σ → Token × σ
  /-- The next token of the pass, if the pass is not over. -/
  next? : σ → Option Token × σ
  /-- The tokens left in the pass. -/
  collect : σ → List Token × σ
  /-- The machine taken back to its start. -/
  reset : σ → σ
  /-- The text whose tokens are handed out. -/
  text : σ → String

/-- The token of the pass after `n` others; none if the pass is over before. -/
def TokenSource.nth? {σ : Type} [TokenSource σ] : Nat → σ → Option Token × σ
  | 0, s => next? s
  | n + 1, s =>
    match next? s with
    | (none, s') => (none, s')
    | (some _, s') => nth? n s'

instance : TokenSource Reader where
  nextToken := Reader.nextToken
  next? := Reader.next?
  collect := Reader.collect
  reset := Reader.reset
  text := Reader.source

/-! ### The tape -/

/-- All tokens of a text, and an index into them. -/
structure Tape where
  /-- The text. -/
  source : String
  /-- The tokens of the text. -/
  stream : TokenStream
  /-- The index of the next token; at most that of the token of the end. -/
  index : Nat
  /-- The pass is over. -/
  exhausted : Bool
deriving DecidableEq, Repr, Inhabited

namespace Tape

/-- The tape of a text, at its first token. -/
def ofString (s : String) : Tape where
  source := s
  stream := tokenize s
  index := 0
  exhausted := false

/-- Hands out the token at the index, and moves the index unless it stands at the end. -/
def nextToken (t : Tape) : Token × Tape :=
  (t.stream.get t.index, { t with index := min (t.index + 1) t.stream.tokens.length })

/-- Does the same unless the pass is over, and ends the pass at the token of the end. -/
def next? (t : Tape) : Option Token × Tape :=
  if t.exhausted then (none, t)
  else
    let (token, t') := t.nextToken
    (some token, { t' with exhausted := token.kind == .endOfInput })

/-- Hands out all tokens from the index on, unless the pass is over. -/
def collect (t : Tape) : List Token × Tape :=
  if t.exhausted then ([], t)
  else
    (t.stream.toList.drop t.index,
      { t with index := t.stream.tokens.length, exhausted := true })

/-- The tape at its first token again. -/
def reset (t : Tape) : Tape :=
  { t with index := 0, exhausted := false }

end Tape

instance : TokenSource Tape where
  nextToken := Tape.nextToken
  next? := Tape.next?
  collect := Tape.collect
  reset := Tape.reset
  text := Tape.source

/-! ### Commands and answers -/

/-- What a session may ask of a machine. -/
inductive Command where
  /-- The next token. -/
  | nextToken
  /-- The next token of the pass. -/
  | next
  /-- The token of the pass after `n` others. -/
  | nth (n : Nat)
  /-- The tokens left in the pass. -/
  | collect
  /-- Back to the start. -/
  | reset
  /-- The text. -/
  | source
  /-- Push the state of the machine on the stack. -/
  | save
  /-- Take the state on top of the stack. -/
  | restore
deriving DecidableEq, Repr, Inhabited

/-- What a machine answers. -/
inductive Answer where
  /-- A token, or that the pass is over. -/
  | token (t : Option Token)
  /-- The tokens that were left. -/
  | tokens (ts : List Token)
  /-- The machine stands at the start. -/
  | atStart
  /-- The text. -/
  | source (s : String)
  /-- The number of saved states, or that there was none to restore. -/
  | depth (n : Option Nat)
deriving DecidableEq, Repr, Inhabited

/-- A machine and the states saved on the stack, the last one first. -/
structure Session (σ : Type) where
  /-- The machine. -/
  machine : σ
  /-- The saved states. -/
  saved : List σ := []

namespace Session

variable {σ : Type} [TokenSource σ]

/-- The answer to a command, and the session after it. -/
def answer (s : Session σ) : Command → Answer × Session σ
  | .nextToken =>
    let (t, m) := TokenSource.nextToken s.machine
    (.token (some t), { s with machine := m })
  | .next =>
    let (t, m) := TokenSource.next? s.machine
    (.token t, { s with machine := m })
  | .nth n =>
    let (t, m) := TokenSource.nth? n s.machine
    (.token t, { s with machine := m })
  | .collect =>
    let (ts, m) := TokenSource.collect s.machine
    (.tokens ts, { s with machine := m })
  | .reset => (.atStart, { s with machine := TokenSource.reset s.machine })
  | .source => (.source (TokenSource.text s.machine), s)
  | .save => (.depth (some (s.saved.length + 1)), { s with saved := s.machine :: s.saved })
  | .restore =>
    match s.saved with
    | [] => (.depth none, s)
    | m :: ms => (.depth (some ms.length), ⟨m, ms⟩)

/-- The answers to a sequence of commands. -/
def run (s : Session σ) : List Command → List Answer
  | [] => []
  | c :: cs =>
    let (a, s') := s.answer c
    a :: s'.run cs

end Session

end RequestScript
