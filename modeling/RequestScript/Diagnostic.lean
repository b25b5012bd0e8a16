import RequestScript.Text.Decimal
import RequestScript.Token.Basic

/-!
# Diagnostics

What a parse complains about. A **diagnostic** names a fault and the token at which it was found,
by line and text; lines are counted from one here. A **rejection** is the list of all diagnostics
of a parse, in the order in which they were found, with the name of the file if there is one.
-/

namespace RequestScript

/-- What a parse may miss at a token. -/
inductive Expectation where
  /-- The method of a request. -/
  | method
  /-- The URL of a request. -/
  | url
  /-- The status code of a response. -/
  | status
  /-- The key of a header or a capture. -/
  | key
  /-- The value of a header or a capture. -/
  | value
deriving DecidableEq, Repr, Inhabited

/-- The words that name what is missing. -/
def Expectation.name : Expectation → String
  | .method => "HTTP method"
  | .url => "URL"
  | .status => "status code"
  | .key => "`key:`"
  | .value => "value"

/-- What is wrong at a token. -/
inductive Fault where
  /-- The character may not stand in a script. -/
  | illegalCharacter
  /-- Something else has to stand here; the words say what. -/
  | expected (what : String)
  /-- The script has no request at all. -/
  | noRequest
deriving DecidableEq, Repr, Inhabited

/-- The wording of a fault. -/
def Fault.message : Fault → String
  | .illegalCharacter => "illegal character"
  | .expected what => "expected " ++ what
  | .noRequest => "expected a request"

/-- A fault and the token at which it was found. -/
structure Diagnostic where
  /-- What is wrong. -/
  fault : Fault
  /-- The line of the token, the first one being line 1. -/
  line : Nat
  /-- The text of the token. -/
  literal : String
deriving DecidableEq, Repr, Inhabited

namespace Diagnostic

/-- The diagnostic of a fault at the token `t`. -/
def ofToken (t : Token) (f : Fault) : Diagnostic where
  fault := f
  line := t.line + 1
  literal := t.literal

/-- The complaint that the token `t` is not what it should be. An illegal character is called
that, whatever should have stood in its place. -/
def unexpected (t : Token) (e : Expectation) : Diagnostic :=
  ofToken t (if t.kind = .illegal then .illegalCharacter else .expected e.name)

/-- The complaint that no request was found up to the token `t`. -/
def noRequest (t : Token) : Diagnostic :=
  ofToken t .noRequest

/-- The text of a diagnostic. -/
def message (d : Diagnostic) : String :=
  "line " ++ String.ofList (Decimal.digits d.line) ++ ", " ++ d.fault.message ++
    ", got: " ++ d.literal

end Diagnostic

/-- The answer to a text that is no script. -/
structure Rejection where
  /-- The name of the file, if there is one. -/
  file : Option String := none
  /-- What was found, in this order. -/
  diagnostics : List Diagnostic
deriving DecidableEq, Repr, Inhabited

namespace Rejection

/-- The texts of the diagnostics. -/
def messages (r : Rejection) : List String :=
  r.diagnostics.map Diagnostic.message

/-- The text of the rejection: the diagnostics in one line, after the name of the file. -/
def message (r : Rejection) : String :=
  let joined := ", ".intercalate r.messages
  match r.file with
  | none => joined
  | some name => name ++ ": " ++ joined

end Rejection

end RequestScript
