import RequestScript.Text.Hidden

/-!
# Quoted text

The form in which the log shows a file's name: in double quotes, with what could not be told apart
there written as an escape. An escape is a backslash and a letter (`Quoted.letter?`), or a
backslash and the code point in hexadecimal digits, for all other hidden characters (`isHidden`).
-/

namespace RequestScript.Quoted

/-- The letter that stands after a backslash for `c`, if there is one. -/
def letter? : Char → Option Char
  | '"' => some '"'
  | '\\' => some '\\'
  | '\n' => some 'n'
  | '\r' => some 'r'
  | '\t' => some 't'
  | '\x00' => some '0'
  | _ => none

/-- What is written for the character `c`. -/
def escapeChar (c : Char) : List Char :=
  match letter? c with
  | some l => ['\\', l]
  | none =>
    if isHidden c then ['\\', 'u', '\x7b'] ++ Nat.toDigits 16 c.toNat ++ ['\x7d'] else [c]

/-- The characters with every escape written out. -/
def escape (cs : List Char) : List Char :=
  cs.flatMap escapeChar

/-- The text in double quotes. -/
def quote (s : String) : String :=
  String.ofList ('"' :: escape s.toList ++ ['"'])

/-- A text that may be missing. -/
def quoteOption : Option String → String
  | none => "None"
  | some s => "Some(" ++ quote s ++ ")"

end RequestScript.Quoted
