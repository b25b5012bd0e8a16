import Mathlib.Logic.Relation
import RequestScript.Proofs.Token.LastLine

/-!
# Reading a token with numbers alone

A cursor carries the characters that follow it. A **mark** carries numbers only, and what follows
it has to be cut out of the text: by `Span.slice?`, which has nothing to give where an offset lies
beyond the text or inside a character. A **scan** reads a token from a mark on, one character after
another, in three loops: over trivia, over a comment, and over the characters of a word. At the
head of a loop it takes the slice from its offset to the end of the text, and at the end of a token
the slice of that token. A slice that the text does not have is a failure (`Scan.Outcome.failed`).

* **A step** goes further in the text or reads a token, and never fails (`Scan.Stands.step`). What
  carries this is how a scan stands in its text (`Scan.Stands`): its numbers are those of what it
  has passed, and where its flag is set, no token is on the line up to it.
* **A run** keeps that (`Scan.StandsIn.of_reaches`).
-/

namespace RequestScript

/-! ### Marks -/

/-- A place in a text, told by numbers alone. -/
structure Mark where
  /-- The position. -/
  pos : Position := {}
  /-- Set where a line starts, until a token is read. -/
  lineStart : Bool := true
deriving DecidableEq, Repr, Inhabited

namespace Mark

/-- What follows the mark in the text `cs`, if the mark does not stand inside or beyond it. -/
def ahead? (cs : List Char) (m : Mark) : Option (List Char) :=
  (⟨m.pos.offset, byteLength cs⟩ : Span).slice? cs

/-- The mark after the bytes of the character `x`. -/
def bump (m : Mark) (x : Char) : Mark :=
  { m with pos := { m.pos with offset := m.pos.offset + x.utf8Size } }

/-- The mark after a line feed. -/
def newLine (m : Mark) : Mark where
  pos := { (m.bump '\n').pos with line := m.pos.line + 1 }
  lineStart := true

/-- The mark after a token that ends there. -/
def close (m : Mark) : Mark :=
  { m with lineStart := false }

end Mark

/-- The mark where a cursor stands. -/
def Cursor.mark (c : Cursor) : Mark where
  pos := c.pos
  lineStart := c.margin ≠ .body

/-! ### Scans -/

/-- A token in the middle of being read, at the head of one of the loops. -/
inductive Scan where
  /-- Trivia is passed. -/
  | trivia (m : Mark)
  /-- A comment is passed. -/
  | comment (m : Mark)
  /-- A word is read that starts at the offset `start`. -/
  | word (start : Nat) (m : Mark)
deriving DecidableEq, Repr, Inhabited

namespace Scan

/-- Where the scan stands. -/
def mark : Scan → Mark
  | trivia m | comment m | word _ m => m

/-- What comes of a step. -/
inductive Outcome where
  /-- The text does not have the slice that was taken. -/
  | failed
  /-- The scan goes on, at the head of the next loop. -/
  | more (s : Scan)
  /-- A token is read, and the scan is over. -/
  | read (t : Token) (m : Mark)
deriving DecidableEq, Repr, Inhabited

/-- Where the scan stands after a step, unless it failed. -/
def Outcome.mark? : Outcome → Option Mark
  | failed => none
  | more s => some s.mark
  | read _ m => some m

/-- Reads the token from the offset `start` to the mark: its text is a slice. -/
def finish (cs : List Char) (start : Nat) (kind : String → Token.Kind) (m : Mark) : Outcome :=
  match (⟨start, m.pos.offset⟩ : Span).slice? cs with
  | none => .failed
  | some w =>
    .read ⟨kind (String.ofList w), String.ofList w, m.pos.line, ⟨start, m.pos.offset⟩⟩ m.close

/-- **A step**, on the character that follows. -/
def step (cs : List Char) : Scan → Outcome
  | trivia m =>
    match m.ahead? cs with
    | none => .failed
    | some [] => .read (.endOfInput m.pos) m.close
    | some (x :: _) =>
      if x = '\n' then .more (trivia m.newLine)
      else if isBlank x then .more (trivia (m.bump x))
      else if x = '#' ∧ m.lineStart then .more (comment m)
      else if isIllegal x then finish cs m.pos.offset (fun _ => .illegal) (m.bump x)
      else .more (word m.pos.offset m)
  | comment m =>
    match m.ahead? cs with
    | none => .failed
    | some [] => .more (trivia m)
    | some (x :: _) => if x = '\n' then .more (trivia m) else .more (comment (m.bump x))
  | word start m =>
    match m.ahead? cs with
    | none => .failed
    | some [] => finish cs start .ofWord m
    | some (x :: _) =>
      if isBlank x ∨ isIllegal x then finish cs start .ofWord m else .more (word start (m.bump x))

/-- The scan comes to stand at `s'`. -/
def Reaches (cs : List Char) : Scan → Scan → Prop :=
  Relation.ReflTransGen fun s s' => s.step cs = .more s'

/-- The scan comes to read the token `t`, and stops at `m`. -/
def Reads (cs : List Char) (s : Scan) (t : Token) (m : Mark) : Prop :=
  ∃ s', s.Reaches cs s' ∧ s'.step cs = .read t m

theorem Reaches.reads {cs : List Char} {s s' : Scan} {t : Token} {m : Mark}
    (h : s.Reaches cs s') (hs : s'.Reads cs t m) : s.Reads cs t m := by
  obtain ⟨u, hreach, hread⟩ := hs
  exact ⟨u, h.trans hreach, hread⟩

theorem reads_of_more {cs : List Char} {s s' : Scan} {t : Token} {m : Mark}
    (h : s.step cs = .more s') (hs : s'.Reads cs t m) : s.Reads cs t m :=
  Reaches.reads (.single h) hs

theorem reads_of_step {cs : List Char} {s : Scan} {t : Token} {m : Mark}
    (h : s.step cs = .read t m) : s.Reads cs t m :=
  ⟨s, .refl, h⟩

end Scan

/-! ### Marks after a part of a text -/

namespace Mark

variable {m : Mark} {before after : List Char}

/-- **What follows** a mark that stands after a part of a text is the other part
(`Mark.ahead?`). -/
theorem ahead?_append (hm : m.pos = Position.afterAll {} before) :
    m.ahead? (before ++ after) = some after := by
  refine Span.slice?_eq_some_iff.mpr ⟨before, [], by simp, ?_, by simp⟩
  rw [hm, Position.offset_afterAll]
  exact (Nat.zero_add _).symm

theorem bump_eq {x : Char} (m : Mark) (hx : x ≠ '\n') :
    m.bump x = ⟨m.pos.after x, m.lineStart⟩ := by
  simp [bump, Position.after, hx]

theorem newLine_eq (m : Mark) : m.newLine = ⟨m.pos.after '\n', true⟩ := by
  simp [newLine, bump, Position.after]

theorem pos_bump {x : Char} (hm : m.pos = Position.afterAll {} before) (hx : x ≠ '\n') :
    (m.bump x).pos = Position.afterAll {} (before ++ [x]) := by
  rw [bump_eq m hx]
  exact Position.after_eq_afterAll_concat hm x

theorem pos_newLine (hm : m.pos = Position.afterAll {} before) :
    m.newLine.pos = Position.afterAll {} (before ++ ['\n']) := by
  rw [newLine_eq]
  exact Position.after_eq_afterAll_concat hm '\n'

end Mark

/-- **The token that `finish` reads** is what lies between the start of the scan and its mark. -/
theorem Scan.finish_append {m : Mark} {start : Nat} {before w : List Char}
    (hstart : start = (Position.afterAll {} before).offset)
    (hm : m.pos = Position.afterAll {} (before ++ w)) (after : List Char)
    (kind : String → Token.Kind) :
    finish (before ++ (w ++ after)) start kind m =
      .read ⟨kind (String.ofList w), String.ofList w, m.pos.line, ⟨start, m.pos.offset⟩⟩
        m.close := by
  have hslice : (⟨start, m.pos.offset⟩ : Span).slice? (before ++ (w ++ after)) = some w := by
    refine Span.slice?_eq_some_iff.mpr ⟨before, after, by simp, ?_, ?_⟩
    · simp [hstart, Position.offset_afterAll]
    · simp [hm, Position.offset_afterAll]
  rw [finish, hslice]

/-! ### What a scan has passed -/

namespace Scan

variable {before after : List Char} {s s' : Scan}

/-- **A scan stands** between two parts of a text. Its position is that of the first part. Where it
does not read a word, its flag tells that the last line of the first part has no token; and in a
comment, the next character belongs to the comment too. -/
def Stands (before after : List Char) : Scan → Prop
  | trivia m => m.pos = Position.afterAll {} before ∧
      (m.lineStart = true → Margin.start.afterAll before ≠ .body)
  | comment m => m.pos = Position.afterAll {} before ∧ Margin.start.afterAll before ≠ .body ∧
      ∀ x ∈ after.head?, x ≠ '\n' → (Margin.start.afterAll before).after x = .comment
  | word start m => m.pos = Position.afterAll {} before ∧
      ∃ front w, before = front ++ w ∧ start = (Position.afterAll {} front).offset

theorem Stands.pos_eq (h : Stands before after s) : s.mark.pos = Position.afterAll {} before := by
  cases s with
  | trivia => exact h.1
  | comment => exact h.1
  | word => exact h.1

/-- What a step is allowed to do: it goes on further in the text, or it reads a token there. -/
def Advances (before after : List Char) : Outcome → Prop
  | .failed => False
  | .more s => ∃ part rest, after = part ++ rest ∧ Stands (before ++ part) rest s
  | .read _ m => ∃ part rest, after = part ++ rest ∧ m.pos = Position.afterAll {} (before ++ part)

private theorem advances_stay (h : Stands before after s) : Advances before after (.more s) :=
  ⟨[], after, rfl, by rwa [List.append_nil]⟩

private theorem advances_finish {m : Mark} {start : Nat} {front w rest : List Char}
    (part : List Char)
    (hsplit : before ++ part = front ++ w) (hstart : start = (Position.afterAll {} front).offset)
    (hm : m.pos = Position.afterAll {} (before ++ part)) (kind : String → Token.Kind) :
    Advances before (part ++ rest) (finish (before ++ (part ++ rest)) start kind m) := by
  rw [← List.append_assoc, hsplit, List.append_assoc, finish_append hstart (hsplit ▸ hm)]
  exact ⟨part, rest, rfl, hm⟩

/-- **A step never fails** (`Advances`): it goes further in the text, or reads a token. -/
theorem Stands.step (h : Stands before after s) :
    Advances before after (s.step (before ++ after)) := by
  cases s with
  | trivia m =>
    obtain ⟨hm, hflag⟩ := h
    rw [Scan.step, Mark.ahead?_append hm]
    cases after with
    | nil => exact ⟨[], [], rfl, by rwa [List.append_nil]⟩
    | cons x xs =>
      simp only
      split
      · next hx =>
        subst hx
        refine ⟨['\n'], xs, rfl, Mark.pos_newLine hm, fun _ => ?_⟩
        rw [Margin.afterAll_concat, Margin.after_lineFeed]
        simp
      split
      · next hx hb =>
        refine ⟨[x], xs, rfl, Mark.pos_bump hm hx, fun hl => ?_⟩
        rw [Margin.afterAll_concat]
        exact Margin.after_blank_ne_body hx hb (hflag hl)
      split
      · next hx =>
        -- the `#` itself is not passed yet
        obtain ⟨rfl, hl⟩ := hx
        refine advances_stay ⟨hm, hflag hl, fun y hy _ => ?_⟩
        obtain rfl : '#' = y := by simpa using hy
        exact Margin.after_sharp (hflag hl)
      split
      · next hx _ _ _ =>
        exact advances_finish [x] rfl (by rw [hm]) (Mark.pos_bump hm hx) _
      · exact advances_stay ⟨hm, before, [], by simp, by rw [hm]⟩
  | comment m =>
    obtain ⟨hm, hflag, hnext⟩ := h
    rw [Scan.step, Mark.ahead?_append hm]
    cases after with
    | nil => exact advances_stay ⟨hm, fun _ => hflag⟩
    | cons x xs =>
      simp only
      split
      · exact advances_stay ⟨hm, fun _ => hflag⟩
      · next hx =>
        have hcomment : Margin.start.afterAll (before ++ [x]) = .comment :=
          (Margin.afterAll_concat _ _ _).trans (hnext x rfl hx)
        refine ⟨[x], xs, rfl, Mark.pos_bump hm hx, by simp [hcomment], fun y _ hy => ?_⟩
        rw [hcomment, Margin.after_comment hy]
  | word start m =>
    obtain ⟨hm, front, w, rfl, hstart⟩ := h
    rw [Scan.step, Mark.ahead?_append hm]
    cases after with
    | nil => exact advances_finish [] (List.append_nil _) hstart (by rwa [List.append_nil]) _
    | cons x xs =>
      simp only
      split
      · exact advances_finish [] (List.append_nil _) hstart (by rwa [List.append_nil]) _
      · next hx =>
        have hline : x ≠ '\n' := by
          rintro rfl
          exact hx (.inl isBlank_lineFeed)
        exact ⟨[x], xs, rfl, Mark.pos_bump hm hline, front, w ++ [x], by simp, hstart⟩

/-- The scan stands somewhere in the text. -/
def StandsIn (cs : List Char) (s : Scan) : Prop :=
  ∃ before after, cs = before ++ after ∧ Stands before after s

/-- **A run keeps standing** in the text: `Reaches` keeps `StandsIn`. -/
theorem StandsIn.of_reaches {cs : List Char} (h : s.StandsIn cs) (hs : s.Reaches cs s') :
    s'.StandsIn cs := by
  unfold Reaches at hs
  induction hs with
  | refl => exact h
  | tail _ hstep ih =>
    obtain ⟨before, after, rfl, hstands⟩ := ih
    have hadvances := hstands.step
    rw [hstep] at hadvances
    obtain ⟨part, rest, rfl, hnext⟩ := hadvances
    exact ⟨before ++ part, rest, (List.append_assoc _ _ _).symm, hnext⟩

end Scan

end RequestScript
