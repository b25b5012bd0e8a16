import RequestScript.Parser.Phase
import RequestScript.Token.Reader

/-!
# Parsing

A **walk** feeds the tokens of a stream to the phases, one after another, until a token is left
where it stands. It keeps apart what each token caused. From it come the entries and the
diagnostics of a parse, and the place where the parse stopped.

A **parser** is what is left to read and what was found before. Parsing with it again goes on
where the last parse stopped, and its diagnostics add up. A text is a script if parsing it finds
an entry and no fault (`parse`).
-/

namespace RequestScript

/-- What happened while the tokens of a stream were read. -/
structure Walk where
  /-- The actions of each token that was taken, in the order of the tokens. -/
  steps : List (List Action)
  /-- The actions of the token at which the walk stopped. -/
  last : List Action
  /-- The stream from that token on. -/
  rest : TokenStream
deriving DecidableEq, Repr, Inhabited

namespace Walk

/-- All actions in their order. -/
def actions (w : Walk) : List Action :=
  w.steps.flatten ++ w.last

/-- The entries that were closed. -/
def entries (w : Walk) : List Entry :=
  w.actions.filterMap Action.entry?

/-- The diagnostics that were reported. -/
def reports (w : Walk) : List Diagnostic :=
  w.actions.filterMap Action.diagnostic?

/-- The complaint that there is no request, if there is none. -/
def absence (w : Walk) : List Diagnostic :=
  if w.entries.isEmpty then [.noRequest w.rest.current] else []

/-- Everything that was found wrong. -/
def findings (w : Walk) : List Diagnostic :=
  w.reports ++ w.absence

/-- The walk with one more token, which caused the actions `as`, at its front. -/
def cons (as : List Action) (w : Walk) : Walk where
  steps := as :: w.steps
  last := w.last
  rest := w.rest

end Walk

/-- Feeds tokens to a phase, and the token of the end after them. The walk is over with that token,
since no phase takes it (`Phase.next_feed_of_endOfInput`). -/
def Phase.walk (p : Phase) (stop : Position) : List Token → Walk
  | [] =>
    match h : p.feed (.endOfInput stop) with
    | ⟨as, none⟩ => ⟨[], as, ⟨[], stop⟩⟩
    | ⟨_, some _⟩ => absurd (p.next_feed_of_endOfInput (t := .endOfInput stop) rfl) (by simp [h])
  | t :: ts =>
    match p.feed t with
    | ⟨as, none⟩ => ⟨[], as, ⟨t :: ts, stop⟩⟩
    | ⟨as, some q⟩ => (q.walk stop ts).cons as

namespace Phase

variable {p q : Phase} {t : Token}

theorem walk_nil (p : Phase) (stop : Position) :
    p.walk stop [] = ⟨[], (p.feed (.endOfInput stop)).actions, ⟨[], stop⟩⟩ := by
  rw [walk]
  split
  · next h => rw [h]
  · next h =>
    have hnext := p.next_feed_of_endOfInput (t := .endOfInput stop) rfl
    simp [h] at hnext

theorem walk_cons_of_stop (h : (p.feed t).next = none) (stop : Position) (ts : List Token) :
    p.walk stop (t :: ts) = ⟨[], (p.feed t).actions, ⟨t :: ts, stop⟩⟩ := by
  rw [walk]
  split
  · next hf => rw [hf]
  · next hf => simp [hf] at h

theorem walk_cons_of_next (h : (p.feed t).next = some q) (stop : Position) (ts : List Token) :
    p.walk stop (t :: ts) = (q.walk stop ts).cons (p.feed t).actions := by
  rw [walk]
  split
  · next hf => simp [hf] at h
  · next hf =>
    rw [hf] at h ⊢
    obtain rfl := Option.some.inj h
    rfl

end Phase

/-- The walk over a stream, starting between entries. -/
def TokenStream.walk (s : TokenStream) : Walk :=
  Phase.outside.walk s.stop s.tokens

/-- What is left to read, and what was found before. -/
structure Parser where
  /-- The name of the file, if there is one. -/
  file : Option String := none
  /-- The tokens left to read. -/
  stream : TokenStream
  /-- The diagnostics of the parses before. -/
  diagnostics : List Diagnostic := []
deriving DecidableEq, Repr, Inhabited

namespace Parser

/-- The parser of what a reader has left to read. -/
def ofReader (r : Reader) (file : Option String) : Parser where
  file := file
  stream := r.cursor.stream

/-- The parser of a text. -/
def ofString (source : String) (file : Option String) : Parser :=
  ofReader (.ofString source) file

/-- The parser after a parse. -/
def after (p : Parser) : Parser where
  file := p.file
  stream := p.stream.walk.rest
  diagnostics := p.diagnostics ++ p.stream.walk.findings

/-- The result of a parse: a script if nothing at all was found wrong. -/
def result (p : Parser) : Except Rejection Script :=
  if p.after.diagnostics.isEmpty then .ok (.ofEntries p.stream.walk.entries)
  else .error ⟨p.file, p.after.diagnostics⟩

end Parser

/-- Reads a text as a script. The name of the file is for the rejection alone. -/
def parse (source : String) (file : Option String := none) : Except Rejection Script :=
  (Parser.ofString source file).result

end RequestScript
