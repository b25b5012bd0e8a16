/-!
# Character classes of request scripts

A script text knows four kinds of character: **blanks** separate words, the **line feed** is a
blank that also ends a line, **illegal** characters never belong to a word, and all others are
**word characters**. Blanks are the characters with the Unicode property `White_Space`, given
here as closed ranges of code points; illegal are the control characters among the rest.
-/

namespace RequestScript

/-- The code points with the Unicode property `White_Space`, as closed ranges in ascending
order. -/
def blankRanges : List (Nat × Nat) :=
  [(0x09, 0x0D), (0x20, 0x20), (0x85, 0x85), (0xA0, 0xA0), (0x1680, 0x1680),
   (0x2000, 0x200A), (0x2028, 0x2029), (0x202F, 0x202F), (0x205F, 0x205F), (0x3000, 0x3000)]

/-- A blank separates words. -/
def isBlank (c : Char) : Bool :=
  blankRanges.any fun r => decide (r.1 ≤ c.toNat ∧ c.toNat ≤ r.2)

/-- A control character: one of the code points below the space, or from the delete character
to the end of the second control block (general category `Cc`). -/
def isControl (c : Char) : Bool :=
  decide (c.toNat < 0x20 ∨ 0x7F ≤ c.toNat ∧ c.toNat ≤ 0x9F)

/-- An illegal character may stand in a script only inside a comment. -/
def isIllegal (c : Char) : Bool :=
  isControl c && !isBlank c

/-- A word character is neither a blank nor illegal. -/
def isWordChar (c : Char) : Bool :=
  !isBlank c && !isIllegal c

/-- The blanks that `Char.isWhitespace` knows are blanks. -/
theorem isBlank_of_isWhitespace {c : Char} (h : c.isWhitespace = true) : isBlank c = true := by
  simp only [Char.isWhitespace, Bool.or_eq_true, decide_eq_true_eq] at h
  rcases h with ((rfl | rfl) | rfl) | rfl <;> decide

theorem isBlank_lineFeed : isBlank '\n' = true := by decide

theorem isBlank_space : isBlank ' ' = true := by decide

/-- An illegal character is no blank. -/
theorem isBlank_of_isIllegal {c : Char} (h : isIllegal c = true) : isBlank c = false := by
  simp only [isIllegal, Bool.and_eq_true, Bool.not_eq_true'] at h
  exact h.2

theorem ne_lineFeed_of_isBlank {c : Char} (h : isBlank c = false) : c ≠ '\n' := by
  rintro rfl
  rw [isBlank_lineFeed] at h
  cases h

/-- **The classes cover all characters**: what is neither blank nor illegal satisfies
`isWordChar`. -/
theorem isWordChar_of_not {c : Char} (hb : isBlank c = false) (hi : isIllegal c = false) :
    isWordChar c = true := by
  simp [isWordChar, hb, hi]

/-- The characters with `Char.isDigit` are word characters. -/
theorem isWordChar_of_isDigit {c : Char} (h : c.isDigit = true) : isWordChar c = true := by
  have hc : 48 ≤ c.toNat ∧ c.toNat ≤ 57 := by
    simpa [Char.isDigit, UInt32.le_iff_toNat_le] using h
  have hblank : isBlank c = false := by
    simp only [isBlank, blankRanges, List.any_cons, List.any_nil, Bool.or_false,
      Bool.or_eq_false_iff, decide_eq_false_iff_not]
    omega
  have hcontrol : isControl c = false := decide_eq_false (by omega)
  exact isWordChar_of_not hblank (by simp [isIllegal, hcontrol])

theorem isBlank_of_isWordChar {c : Char} (h : isWordChar c = true) : isBlank c = false := by
  simp only [isWordChar, Bool.and_eq_true, Bool.not_eq_true'] at h
  exact h.1

theorem isIllegal_of_isWordChar {c : Char} (h : isWordChar c = true) : isIllegal c = false := by
  simp only [isWordChar, Bool.and_eq_true, Bool.not_eq_true'] at h
  exact h.2

/-- A line feed is no illegal character. -/
theorem ne_lineFeed_of_isIllegal {c : Char} (h : isIllegal c = true) : c ≠ '\n' :=
  ne_lineFeed_of_isBlank (isBlank_of_isIllegal h)

/-- A line feed is no word character. -/
theorem ne_lineFeed_of_isWordChar {c : Char} (h : isWordChar c = true) : c ≠ '\n' :=
  ne_lineFeed_of_isBlank (isBlank_of_isWordChar h)

end RequestScript
