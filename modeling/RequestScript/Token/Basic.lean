import RequestScript.Text.CharClass
import RequestScript.Text.Decimal
import RequestScript.Text.Position

/-!
# Tokens

A script text is read as a sequence of **tokens**: the two request methods, the marker that
opens a response, the tag that opens its captures, numerals, other words, and single illegal
characters. The end of the text is a token too. A token carries its text, the line on which it
stands and its span.

Which role a token may play is told by its kind and its text alone: `Token.key?` is the key that
a word ending in a colon announces, `Token.isValue` holds of the values that may follow one, and
`Token.status?` is the status code that a numeral stands for.
-/

namespace RequestScript

/-- The kinds of token. -/
inductive Token.Kind where
  /-- The request method `GET`. -/
  | get
  /-- The request method `POST`. -/
  | post
  /-- The marker `HTTP`, which opens a response. -/
  | http
  /-- The tag `[Capture]`, which opens the captures of a response. -/
  | capture
  /-- Any other word. -/
  | string
  /-- A word of decimal digits. -/
  | number
  /-- The end of the text. -/
  | endOfInput
  /-- A single illegal character. -/
  | illegal
deriving DecidableEq, Repr, Inhabited

namespace Token.Kind

/-- All kinds, in the order of their declaration. -/
def all : List Kind :=
  [get, post, http, capture, string, number, endOfInput, illegal]

/-- The name under which a kind is shown. -/
def name : Kind → String
  | get => "GET"
  | post => "POST"
  | http => "HTTP"
  | capture => "CAPTURE"
  | string => "STRING"
  | number => "NUMBER"
  | endOfInput => "EOF"
  | illegal => "ILLEGAL"

/-- The kind that is shown under a name. -/
def ofName? (s : String) : Option Kind :=
  all.find? fun k => k.name == s

/-- The kinds that open a request. -/
def isMethod : Kind → Bool
  | get | post => true
  | _ => false

/-- The kind of a word: reserved words are recognised in their exact spelling, a non-empty run
of decimal digits is a numeral, and every other word is a string. -/
def ofWord (w : String) : Kind :=
  if w = "GET" then get
  else if w = "POST" then post
  else if w = "HTTP" then http
  else if w = "[Capture]" then capture
  else if w ≠ "" ∧ w.toList.all Char.isDigit then number
  else string

theorem mem_all (k : Kind) : k ∈ all := by
  cases k <;> decide

/-- A kind is found again under its `name`. -/
theorem ofName?_name (k : Kind) : ofName? k.name = some k := by
  cases k <;> decide

/-- No word is taken for the end of a text, whose kind is `endOfInput`. -/
theorem ofWord_ne_endOfInput (w : String) : ofWord w ≠ endOfInput := by
  unfold ofWord
  repeat' split
  all_goals simp

/-- No word is taken for an illegal character. -/
theorem ofWord_ne_illegal (w : String) : ofWord w ≠ illegal := by
  unfold ofWord
  repeat' split
  all_goals simp

/-- Digits are read as a numeral. -/
theorem ofWord_eq_number {w : String} (hne : w ≠ "") (hw : w.toList.all Char.isDigit = true) :
    ofWord w = number := by
  have hreserved : ∀ v : String, v.toList.all Char.isDigit = false → w ≠ v := by
    rintro v hv rfl
    simp [hw] at hv
  rw [ofWord, if_neg (hreserved "GET" (by decide)), if_neg (hreserved "POST" (by decide)),
    if_neg (hreserved "HTTP" (by decide)), if_neg (hreserved "[Capture]" (by decide)),
    if_pos ⟨hne, hw⟩]

/-- A key is read as a `string`, whatever it is. -/
theorem ofWord_append_colon (key : String) : ofWord (key ++ ":") = string := by
  have hreserved : ∀ v : String, v.toList.getLast? ≠ some ':' → key ++ ":" ≠ v := by
    rintro v hv rfl
    simp at hv
  have hdigits : ¬ (key ++ ":").toList.all Char.isDigit = true := by simp
  rw [ofWord, if_neg (hreserved "GET" (by decide)), if_neg (hreserved "POST" (by decide)),
    if_neg (hreserved "HTTP" (by decide)), if_neg (hreserved "[Capture]" (by decide)),
    if_neg fun h => hdigits h.2]

/-- Only `GET` and `POST` are read as methods. -/
theorem eq_of_isMethod_ofWord {w : String} (h : (ofWord w).isMethod = true) :
    w = "GET" ∨ w = "POST" := by
  refine Decidable.byContradiction fun hne => ?_
  obtain ⟨hget, hpost⟩ := not_or.mp hne
  rw [ofWord, if_neg hget, if_neg hpost] at h
  repeat' split at h
  all_goals simp [isMethod] at h

/-- Only `HTTP` is read as a marker. -/
theorem eq_of_ofWord_eq_http {w : String} (h : ofWord w = http) : w = "HTTP" := by
  refine Decidable.byContradiction fun hne => ?_
  rw [ofWord] at h
  simp only [if_neg hne] at h
  repeat' split at h
  all_goals simp at h

end Token.Kind

/-- A token of a script text. -/
structure Token where
  /-- The kind of the token. -/
  kind : Token.Kind
  /-- The text of the token; empty at the end of the text. -/
  literal : String
  /-- The number of line feeds before the token. -/
  line : Nat
  /-- The bytes that the token takes. -/
  span : Span
deriving DecidableEq, Repr, Inhabited

namespace Token

/-- The token at the end of a text: it takes no bytes. -/
def endOfInput (p : Position) : Token where
  kind := .endOfInput
  literal := ""
  line := p.line
  span := ⟨p.offset, p.offset⟩

/-- The token of the word `w` that starts at `p`. -/
def ofWord (p : Position) (w : List Char) : Token where
  kind := Kind.ofWord (String.ofList w)
  literal := String.ofList w
  line := p.line
  span := ⟨p.offset, p.offset + byteLength w⟩

/-- The token of an illegal character at `p`. -/
def ofIllegal (p : Position) (c : Char) : Token where
  kind := .illegal
  literal := String.singleton c
  line := p.line
  span := ⟨p.offset, p.offset + c.utf8Size⟩

/-- The text ends in a colon. -/
def endsInColon (t : Token) : Bool :=
  t.literal.toList.getLast? == some ':'

/-- The key that the text announces: what stands before its final colon, if that is not
empty. -/
def key? (t : Token) : Option String :=
  let key := t.literal.toList.dropLast
  if t.endsInColon && !key.isEmpty then some (String.ofList key) else none

/-- A value is a word or a numeral that does not end in a colon. -/
def isValue (t : Token) : Bool :=
  (t.kind == .string || t.kind == .number) && !t.endsInColon

/-- The status code that a numeral stands for, if it is one: at most 65535, with any number of
leading zeros. -/
def status? (t : Token) : Option UInt16 :=
  let n := Decimal.value t.literal.toList
  if t.kind = .number ∧ n < UInt16.size then some (UInt16.ofNat n) else none

theorem endsInColon_iff {t : Token} :
    t.endsInColon = true ↔ ∃ w, t.literal = w ++ ":" := by
  simp only [endsInColon, beq_iff_eq, List.getLast?_eq_some_iff]
  constructor
  · rintro ⟨w, hw⟩
    exact ⟨String.ofList w, by rw [← String.toList_inj]; simp [hw]⟩
  · rintro ⟨w, hw⟩
    exact ⟨w.toList, by simp [hw]⟩

/-- **The key of a word** (`key?`): the text is the key and a colon, and the key is not empty. -/
theorem key?_eq_some_iff {t : Token} {key : String} :
    t.key? = some key ↔ t.literal = key ++ ":" ∧ key ≠ "" := by
  constructor
  · intro h
    simp only [key?, Bool.and_eq_true, Bool.not_eq_true', List.isEmpty_eq_false_iff] at h
    split at h
    · next hc =>
      obtain ⟨w, hw⟩ := endsInColon_iff.mp hc.1
      simp only [hw, String.toList_append, Option.some.injEq] at h hc
      subst h
      simp_all
    · simp at h
  · rintro ⟨h, hne⟩
    have hc : t.endsInColon = true := endsInColon_iff.mpr ⟨key, h⟩
    simp [key?, hc, h, hne]

/-- **The values** (`isValue`) are the words and numerals that no key could be. -/
theorem isValue_iff {t : Token} :
    t.isValue = true ↔ (t.kind = .string ∨ t.kind = .number) ∧ ∀ w, t.literal ≠ w ++ ":" := by
  have hc : t.endsInColon = false ↔ ∀ w, t.literal ≠ w ++ ":" := by
    rw [← Bool.not_eq_true, endsInColon_iff, not_exists]
  simp [isValue, hc]

/-- **The status of a numeral** (`status?`) is its `Decimal.value`, as far as that fits into 16
bits. -/
theorem status?_eq_some_iff {t : Token} {code : UInt16} :
    t.status? = some code ↔
      t.kind = .number ∧ Decimal.value t.literal.toList = code.toNat := by
  have hlt := code.toNat_lt_size
  constructor
  · intro h
    simp only [status?] at h
    split at h
    · next hn =>
      rw [Option.some.injEq] at h
      exact ⟨hn.1, by rw [← h, UInt16.toNat_ofNat_of_lt' hn.2]⟩
    · simp at h
  · rintro ⟨hk, hv⟩
    simp [status?, hk, hv, hlt]

end Token

end RequestScript
