import Mathlib.Data.List.DropRight
import RequestScript.Proofs.Token.Cutting
import RequestScript.Proofs.Token.Trivia

/-!
# The line at which a text ends

What a reader has seen of a text, as far as its margin tells, depends on the last line alone
(`Margin.afterAll_start`): that line is blank, or it is a comment (`Margin.ofLine_eq_comment_iff`),
or it has a token. So a reader that has met no token on its line stands after a line without tokens
(`Margin.afterAll_start_ne_body_iff`).
-/

namespace RequestScript

/-- The line at which a text ends, as far as the text goes. -/
def lastLine (cs : List Char) : List Char :=
  cs.rtakeWhile (· != '\n')

namespace Margin

/-! ### One more character -/

theorem afterAll_concat (m : Margin) (cs : List Char) (x : Char) :
    m.afterAll (cs ++ [x]) = (m.afterAll cs).after x := by
  rw [afterAll_append, afterAll_cons, afterAll_nil]

theorem after_lineFeed (m : Margin) : m.after '\n' = .start :=
  after_of_step?_eq_some (by simp [step?])

/-- A `comment` takes the rest of its line. -/
theorem after_comment {x : Char} (hx : x ≠ '\n') : comment.after x = .comment :=
  after_of_step?_eq_some (by simp [step?, hx])

variable {m : Margin}

/-- Where no token has been met, a `#` opens a comment or stands in one. -/
theorem after_sharp (hm : m ≠ .body) : m.after '#' = .comment := by
  have hsharp : isBlank '#' = false := by decide
  cases m with
  | start => exact after_of_step?_eq_some (by simp [step?, hsharp])
  | comment => exact after_comment (by decide)
  | body => exact absurd rfl hm

/-- Where no token has been met, a blank leaves the margin other than `body`. -/
theorem after_blank_ne_body {x : Char} (hx : x ≠ '\n') (hb : isBlank x = true) (hm : m ≠ .body) :
    m.after x ≠ .body := by
  cases m with
  | start => simp [after, step?, hx, hb]
  | comment => simp [after_comment hx]
  | body => exact absurd rfl hm

/-! ### The last line -/

/-- What a reader has seen of the line `l`. -/
def ofLine (l : List Char) : Margin :=
  match l.dropWhile isBlank with
  | [] => .start
  | x :: _ => if x = '#' then .comment else .body

theorem ofLine_eq_comment_iff {l : List Char} : ofLine l = .comment ↔ isComment l = true := by
  rw [ofLine, isComment]
  split
  · next h => simp [h]
  · next x xs h =>
    by_cases hx : x = '#' <;> simp [h, hx]

/-- A line on which no token is seen has none. -/
private theorem ofLine_ne_body_iff {l : List Char} : ofLine l ≠ .body ↔ IsTriviaLine l := by
  rw [IsTriviaLine, ← List.dropWhile_eq_nil_iff, ← ofLine_eq_comment_iff, ofLine]
  split
  · next h => simp [h]
  · next x xs h =>
    by_cases hx : x = '#' <;> simp [h, hx]

/-- One more character of a line is seen. -/
private theorem after_ofLine {x : Char} (hx : x ≠ '\n') (l : List Char) :
    (ofLine l).after x = ofLine (l ++ [x]) := by
  have hsharp : isBlank '#' = false := by decide
  rw [ofLine, ofLine, List.dropWhile_append]
  cases l.dropWhile isBlank with
  | nil =>
    by_cases hs : x = '#'
    · subst hs
      simp [after, step?, hsharp]
    · cases hb : isBlank x <;> simp [after, step?, hx, hb, hs]
  | cons y ys =>
    by_cases hy : y = '#'
    · simp [after, step?, hx, hy]
    · cases hb : isBlank x <;> simp [after, step?, hx, hy, hb]

/-- **What a reader has seen** of a text depends on its `lastLine` alone. -/
theorem afterAll_start (cs : List Char) : Margin.start.afterAll cs = ofLine (lastLine cs) := by
  induction cs using List.reverseRecOn with
  | nil => rfl
  | append_singleton cs x ih =>
    rw [afterAll_concat, ih]
    by_cases hx : x = '\n'
    · subst hx
      rw [after_lineFeed, lastLine, List.rtakeWhile_concat]
      rfl
    · rw [after_ofLine hx, lastLine, lastLine, List.rtakeWhile_concat, if_pos (by simpa using hx)]

/-- No token is seen on the `lastLine` of a text if it is a trivia line. -/
theorem afterAll_start_ne_body_iff {cs : List Char} :
    Margin.start.afterAll cs ≠ .body ↔ IsTriviaLine (lastLine cs) := by
  rw [afterAll_start, ofLine_ne_body_iff]

end Margin

end RequestScript
