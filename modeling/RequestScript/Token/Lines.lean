import RequestScript.Token.Stream

/-!
# Tokens line by line

The tokens of a text read off its **lines**, each line on its own: where a line begins follows
from the lines before it, and nothing else is carried from one line to the next.

* `lines` cuts a text at its line feeds.
* A line whose first character after its blanks is `#` is a **comment** and has no tokens.
* The characters of any other line fall into **pieces**: maximal runs of word characters, and
  single characters of the other classes. Words and illegal characters are tokens.

`tokenizeByLines` says which tokens a text has without a word on how they are found one after
another.
-/

namespace RequestScript

/-- The lines of a text, without their line feeds. There is one more than there are line
feeds. -/
def lines : List Char → List (List Char)
  | [] => [[]]
  | c :: cs =>
    if c = '\n' then [] :: lines cs
    else
      match lines cs with
      | [] => [[c]]
      | l :: ls => (c :: l) :: ls

theorem lines_ne_nil (cs : List Char) : lines cs ≠ [] := by
  cases cs with
  | nil => simp [lines]
  | cons c cs =>
    simp only [lines]
    split
    · simp
    · split <;> simp

/-- **Lines lose nothing**: with line feeds between them, the `lines` of a text are the text
again. -/
theorem intercalate_lines (cs : List Char) : ['\n'].intercalate (lines cs) = cs := by
  induction cs with
  | nil => rfl
  | cons c cs ih =>
    obtain ⟨l, ls, hl⟩ := List.exists_cons_of_ne_nil (lines_ne_nil cs)
    rw [hl] at ih
    simp only [lines, hl]
    split
    · next hc => simp [List.intercalate_cons_cons, ih, hc]
    · cases ls <;> simp_all

/-- There is one line more than there are line feeds. -/
theorem length_lines (cs : List Char) : (lines cs).length = cs.count '\n' + 1 := by
  induction cs with
  | nil => rfl
  | cons c cs ih =>
    obtain ⟨l, ls, hl⟩ := List.exists_cons_of_ne_nil (lines_ne_nil cs)
    rw [hl] at ih
    simp only [lines, hl, List.count_cons]
    split
    · next hc => simp [hc, ← ih]
    · next hc => simpa [hc] using ih

/-- A comment: the first character after the blanks is `#`. -/
def isComment (line : List Char) : Bool :=
  (line.dropWhile isBlank).head? == some '#'

/-- The pieces of a line: runs of word characters, and other characters one by one. -/
def pieces (line : List Char) : List (List Char) :=
  line.splitBy fun a b => isWordChar a && isWordChar b

/-- The token of a piece that starts at `p`, if the piece is no blank. -/
def pieceToken? (p : Position) (piece : List Char) : Option Token :=
  match piece with
  | [] => none
  | c :: _ =>
    if isBlank c then none
    else if isIllegal c then some (Token.ofIllegal p c)
    else some (Token.ofWord p piece)

/-- The tokens of the pieces that follow the position `p` on a line. -/
def pieceTokens (p : Position) : List (List Char) → List Token
  | [] => []
  | piece :: ps => (pieceToken? p piece).toList ++ pieceTokens (p.afterAll piece) ps

/-- The tokens of a line that begins at `p`. -/
def lineTokens (p : Position) (line : List Char) : List Token :=
  if isComment line then [] else pieceTokens p (pieces line)

/-- Where the line with the index `i` begins: after the lines before it and their line feeds. -/
def lineStart (ls : List (List Char)) (i : Nat) : Position where
  offset := byteLength (ls.take i).flatten + i
  line := i

/-- The tokens of a text, line by line. -/
def tokenizeByLines (s : String) : TokenStream where
  tokens := (lines s.toList).zipIdx.flatMap fun (l, i) =>
    lineTokens (lineStart (lines s.toList) i) l
  stop := ⟨byteLength s.toList, (lines s.toList).length - 1⟩

end RequestScript
