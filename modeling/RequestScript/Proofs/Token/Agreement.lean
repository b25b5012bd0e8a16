import RequestScript.Proofs.Token.Scan

/-!
# Scans and cursors agree

A scan that starts where a cursor stands passes what the cursor passes when it skips trivia
(`Cursor.Skips.reaches`), comes to read the next token of the cursor, and stops where the cursor
does (`Cursor.reads_next`). It takes one step for a character, and one more where it goes from one
loop to another: at both ends of a comment (`Scan.reaches_trivia`), and at the start of a word
(`Scan.step_scan_of_step?_eq_none`).
-/

namespace RequestScript

/-! ### The next token of a cursor, from its front -/

namespace Cursor

theorem next_trivia {x : Char} {xs : List Char} {p : Position} {m m' : Margin}
    (h : m.step? x = some m') :
    (⟨x :: xs, p, m⟩ : Cursor).next = (⟨xs, p.after x, m'⟩ : Cursor).next := by
  simp [next, read?, skipTrivia, afterTrivia, h]

theorem next_illegal {x : Char} {xs : List Char} {p : Position} {m : Margin}
    (h : m.step? x = none) (hx : isIllegal x = true) :
    (⟨x :: xs, p, m⟩ : Cursor).next = (.ofIllegal p x, ⟨xs, p.after x, .body⟩) := by
  simp [next, read?, skipTrivia, afterTrivia, h, token?, hx]

theorem next_word {x : Char} {w xs : List Char} {p : Position} {m : Margin}
    (h : m.step? x = none) (hw : ∀ c ∈ x :: w, isWordChar c = true) (hx : EndsWord xs) :
    (⟨x :: w ++ xs, p, m⟩ : Cursor).next =
      (.ofWord p (x :: w), ⟨xs, p.afterAll (x :: w), .body⟩) := by
  have hill : isIllegal x = false := isIllegal_of_isWordChar (hw x (by simp))
  obtain ⟨ht, hd⟩ := takeWhile_word (fun c hc => hw c (List.mem_cons_of_mem x hc)) hx
  simp [next, read?, skipTrivia, afterTrivia, h, token?, hill, ht, hd]

/-! ### The scan of a cursor -/

/-- The scan of the next token of a cursor. -/
def scan (c : Cursor) : Scan :=
  match c.margin with
  | .comment => .comment c.mark
  | _ => .trivia c.mark

theorem scan_start (xs : List Char) (p : Position) :
    (⟨xs, p, .start⟩ : Cursor).scan = .trivia ⟨p, true⟩ := rfl

theorem scan_body (xs : List Char) (p : Position) :
    (⟨xs, p, .body⟩ : Cursor).scan = .trivia ⟨p, false⟩ := rfl

end Cursor

namespace Scan

variable {cs xs : List Char} {x : Char} {p : Position} {b : Bool}

private theorem step_trivia_lineFeed (h : (⟨p, b⟩ : Mark).ahead? cs = some ('\n' :: xs)) :
    (trivia ⟨p, b⟩).step cs = .more (trivia ⟨p.after '\n', true⟩) := by
  simp [step, h, Mark.newLine_eq]

private theorem step_trivia_blank (h : (⟨p, b⟩ : Mark).ahead? cs = some (x :: xs)) (hx : x ≠ '\n')
    (hb : isBlank x = true) : (trivia ⟨p, b⟩).step cs = .more (trivia ⟨p.after x, b⟩) := by
  simp [step, h, hx, hb, Mark.bump_eq]

private theorem step_comment_cons (h : (⟨p, b⟩ : Mark).ahead? cs = some (x :: xs))
    (hx : x ≠ '\n') : (comment ⟨p, b⟩).step cs = .more (comment ⟨p.after x, b⟩) := by
  simp [step, h, hx, Mark.bump_eq]

/-- **A character of trivia** is passed by one step of the scan, or by two at the ends of a
comment, and `Margin.step?` tells which. -/
private theorem reaches_trivia {m m' : Margin}
    (hcs : ∀ b, (⟨p, b⟩ : Mark).ahead? cs = some (x :: xs)) (h : m.step? x = some m') :
    (⟨x :: xs, p, m⟩ : Cursor).scan.Reaches cs (⟨xs, p.after x, m'⟩ : Cursor).scan := by
  by_cases hx : x = '\n'
  · subst hx
    obtain rfl : Margin.start = m' := by simpa [Margin.step?] using h
    have hline : ∀ b, (trivia ⟨p, b⟩).Reaches cs (trivia ⟨p.after '\n', true⟩) := fun b =>
      .single (step_trivia_lineFeed (hcs b))
    cases m with
    | start => exact hline true
    | body => exact hline false
    | comment =>
      have hend : (comment ⟨p, true⟩).step cs = .more (trivia ⟨p, true⟩) := by simp [step, hcs]
      exact .head hend (hline true)
  · cases m with
    | comment =>
      obtain rfl : Margin.comment = m' := by simpa [Margin.step?, hx] using h
      exact .single (step_comment_cons (hcs true) hx)
    | body =>
      cases hb : isBlank x with
      | false => simp [Margin.step?, hx, hb] at h
      | true =>
        obtain rfl : Margin.body = m' := by simpa [Margin.step?, hx, hb] using h
        exact .single (step_trivia_blank (hcs false) hx hb)
    | start =>
      cases hb : isBlank x with
      | true =>
        obtain rfl : Margin.start = m' := by simpa [Margin.step?, hx, hb] using h
        exact .single (step_trivia_blank (hcs true) hx hb)
      | false =>
        obtain ⟨rfl, rfl⟩ : x = '#' ∧ Margin.comment = m' := by
          simpa [Margin.step?, hx, hb] using h
        have hopen : (trivia ⟨p, true⟩).step cs = .more (comment ⟨p, true⟩) := by
          simp [step, hcs, hb]
        exact .head hopen (.single (step_comment_cons (hcs true) hx))

/-- Where a token starts, an illegal character is read at once (`Scan.finish`), and a word is
begun. -/
private theorem step_scan_of_step?_eq_none {m : Margin}
    (hcs : ∀ b, (⟨p, b⟩ : Mark).ahead? cs = some (x :: xs)) (h : m.step? x = none) :
    ∃ b, (⟨x :: xs, p, m⟩ : Cursor).scan.step cs =
      if isIllegal x then finish cs p.offset (fun _ => .illegal) ⟨p.after x, b⟩
      else .more (word p.offset ⟨p, b⟩) := by
  obtain ⟨hb, hm, hsharp⟩ := Margin.step?_eq_none_iff.mp h
  have hx : x ≠ '\n' := ne_lineFeed_of_isBlank hb
  cases m with
  | comment => exact absurd rfl hm
  | start => exact ⟨true, by simp [Cursor.scan_start, step, hcs, hx, hb, hsharp, Mark.bump_eq]⟩
  | body => exact ⟨false, by simp [Cursor.scan_body, step, hcs, hx, hb, Mark.bump_eq]⟩

/-- In the state `word`, a scan finishes where no word character follows. -/
private theorem step_word_of_endsWord {start : Nat} {m : Mark} (h : m.ahead? cs = some xs)
    (hx : EndsWord xs) : (word start m).step cs = finish cs start .ofWord m := by
  rw [step, h]
  cases xs with
  | nil => rfl
  | cons x xs =>
    have hend : isBlank x = true ∨ isIllegal x = true := by
      have := hx x rfl
      simpa [isWordChar, or_iff_not_imp_left] using this
    exact if_pos hend

/-- An illegal character is read as `Token.ofIllegal`. -/
private theorem finish_illegal {front : List Char} (hp : p = Position.afterAll {} front)
    (hx : isIllegal x = true) :
    finish (front ++ x :: xs) p.offset (fun _ => .illegal) ⟨p.after x, b⟩ =
      .read (.ofIllegal p x) ⟨p.after x, false⟩ := by
  have hpos : p.after x = Position.afterAll {} (front ++ [x]) :=
    Position.after_eq_afterAll_concat hp x
  refine (finish_append (w := [x]) (by rw [hp]) hpos xs fun _ => .illegal).trans ?_
  simp only [Mark.close, Token.ofIllegal, Position.after, if_neg (ne_lineFeed_of_isIllegal hx)]
  rfl

/-- The characters of a word are read as `Token.ofWord`. -/
private theorem finish_word {front w : List Char} (hp : p = Position.afterAll {} front)
    (hw : ∀ c ∈ w, isWordChar c = true) :
    finish (front ++ (w ++ xs)) p.offset .ofWord ⟨p.afterAll w, b⟩ =
      .read (.ofWord p w) ⟨p.afterAll w, false⟩ := by
  have hline : w.count '\n' = 0 :=
    List.count_eq_zero.mpr fun h => ne_lineFeed_of_isWordChar (hw _ h) rfl
  have hpos : p.afterAll w = Position.afterAll {} (front ++ w) := by
    rw [Position.afterAll_append, hp]
  refine (finish_append (by rw [hp]) hpos xs .ofWord).trans ?_
  simp [Mark.close, Token.ofWord, Position.line_afterAll, Position.offset_afterAll, hline]

/-- **A word is read** as far as it goes: `w` was passed before, and `todo` is what is left of
it. -/
private theorem reads_word {front w todo : List Char} (hp : p = Position.afterAll {} front)
    (hw : ∀ c ∈ w ++ todo, isWordChar c = true) (hx : EndsWord xs) :
    (word p.offset ⟨p.afterAll w, b⟩).Reads (front ++ (w ++ (todo ++ xs))) (.ofWord p (w ++ todo))
      ⟨p.afterAll (w ++ todo), false⟩ := by
  have hahead : ∀ w us, (⟨p.afterAll w, b⟩ : Mark).ahead? (front ++ (w ++ us)) = some us := by
    intro w us
    rw [← List.append_assoc]
    refine Mark.ahead?_append ?_
    rw [Position.afterAll_append, hp]
  induction todo generalizing w with
  | nil =>
    rw [List.append_nil] at hw ⊢
    exact reads_of_step ((step_word_of_endsWord (hahead w xs) hx).trans (finish_word hp hw))
  | cons x todo ih =>
    have hx : isWordChar x = true := hw x (by simp)
    have hstep : (word p.offset ⟨p.afterAll w, b⟩).step (front ++ (w ++ (x :: todo ++ xs))) =
        .more (word p.offset ⟨p.afterAll (w ++ [x]), b⟩) := by
      rw [step, hahead w, Position.afterAll_append]
      simp [isBlank_of_isWordChar hx, isIllegal_of_isWordChar hx,
        Mark.bump_eq _ (ne_lineFeed_of_isWordChar hx)]
    have hnext := ih (w := w ++ [x]) (by simpa using hw)
    simp only [List.append_assoc, List.singleton_append] at hnext
    exact reads_of_more hstep hnext

end Scan

/-! ### A scan follows its cursor -/

/-- The cursor passes `d` when it skips trivia. -/
def Cursor.Skips : Cursor → Cursor → Prop :=
  Relation.ReflTransGen fun c d => c.skip? = some d

/-- **A scan passes what the cursor passes** (`Cursor.Skips`) when trivia is skipped. -/
theorem Cursor.Skips.reaches {c d : Cursor} (h : c.Skips d) {before : List Char}
    (hc : c.pos = Position.afterAll {} before) : c.scan.Reaches (before ++ c.rest) d.scan := by
  unfold Skips at h
  induction h using Relation.ReflTransGen.head_induction_on generalizing before with
  | refl => exact .refl
  | @head c c' hskip _ ih =>
    obtain ⟨rest, p, m⟩ := c
    cases rest with
    | nil => cases hskip
    | cons x xs =>
      obtain ⟨m', hs, rfl⟩ := Option.map_eq_some_iff.mp hskip
      have hafter : p.after x = Position.afterAll {} (before ++ [x]) :=
        Position.after_eq_afterAll_concat hc x
      have hnext := ih hafter
      rw [List.append_assoc, List.singleton_append] at hnext
      exact (Scan.reaches_trivia (fun b => Mark.ahead?_append hc) hs).trans hnext

/-- **A scan reads the token of `Cursor.next`**, and stops where the cursor does. -/
theorem Cursor.reads_next (c : Cursor) {before : List Char}
    (hc : c.pos = Position.afterAll {} before) :
    c.scan.Reads (before ++ c.rest) c.next.1 c.next.2.mark := by
  -- whatever the flag is, what follows the position is what follows the cursor
  have hahead : ∀ b, (⟨c.pos, b⟩ : Mark).ahead? (before ++ c.rest) = some c.rest := fun b =>
    Mark.ahead?_append hc
  induction c using reading_induction generalizing before with
  | atEnd p m =>
    have hread : ∀ b,
        (Scan.trivia ⟨p, b⟩).step (before ++ []) = .read (.endOfInput p) ⟨p, false⟩ := by
      intro b
      rw [Scan.step, hahead]
      rfl
    cases m with
    | start => exact Scan.reads_of_step (hread true)
    | body => exact Scan.reads_of_step (hread false)
    | comment =>
      have hend : (Scan.comment ⟨p, true⟩).step (before ++ []) = .more (.trivia ⟨p, true⟩) := by
        rw [Scan.step, hahead]
      exact Scan.reads_of_more hend (Scan.reads_of_step (hread true))
  | trivia x xs p m m' hs ih =>
    have hafter : p.after x = Position.afterAll {} (before ++ [x]) :=
      Position.after_eq_afterAll_concat hc x
    have hnext := ih hafter fun b => Mark.ahead?_append hafter
    rw [List.append_assoc, List.singleton_append] at hnext
    rw [next_trivia hs]
    exact (Scan.reaches_trivia hahead hs).reads hnext
  | illegal x xs p m hs hx _ =>
    obtain ⟨b, hstep⟩ := Scan.step_scan_of_step?_eq_none hahead hs
    rw [if_pos hx] at hstep
    rw [next_illegal hs hx]
    exact Scan.reads_of_step (hstep.trans (Scan.finish_illegal hc hx))
  | word x w xs p m hs hw hx _ =>
    have hill : ¬ isIllegal x = true := by simp [isIllegal_of_isWordChar (hw x (by simp))]
    have hcons : ∀ b, (⟨p, b⟩ : Mark).ahead? (before ++ (x :: w ++ xs)) = some (x :: (w ++ xs)) :=
      hahead
    obtain ⟨b, hstep⟩ := Scan.step_scan_of_step?_eq_none hcons hs
    rw [if_neg hill] at hstep
    rw [next_word hs hw hx]
    exact Scan.reads_of_more hstep (Scan.reads_word (w := []) hc hw hx)

end RequestScript
