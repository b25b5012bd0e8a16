import RequestScript.Proofs.Text.Covering
import RequestScript.Proofs.Token.Agreement
import RequestScript.Proofs.Token.Simulation

/-!
# A reader stays inside its text

Whatever is asked of readers, each of them stands at a boundary of its text, and its line is the
number of line feeds before it (`Reader.sound_of_mem_machines`). The same holds in the middle of
reading a token, at the head of each loop of the scan that reads it: so no slice that the scan
takes can fail.

* **Numbers and text**: a scan that stands in a text is sound (`Scan.StandsIn.sound`), does not
  fail, and does not go back (`Scan.StandsIn.exists_offset_le`).
* **Further on**: reading leads from one cursor to a later one (`Cursor.leadsTo_next`), and so does
  every command to a reader that does not take it back (`Session.leadsTo_answer`).
* **The invariant**: reading leads to every reader from the start of its text. All calls keep that
  (`Reader.leadsTo_of_mem_machines`), since an invariant is a simulation of a machine by itself
  (`TokenSource.simulation_of_invariant`).
-/

namespace RequestScript

/-! ### Sound numbers -/

/-- **The mark stands inside the text.** -/
structure Mark.Inside (cs : List Char) (m : Mark) : Prop where
  /-- It does not stand after the end. -/
  offset_le : m.pos.offset ≤ byteLength cs
  /-- It does not stand inside a character. -/
  boundary : IsBoundary cs m.pos.offset
  /-- Its line is the number of line feeds before it. -/
  line : ∃ before, (⟨0, m.pos.offset⟩ : Span).slice? cs = some before ∧
    m.pos.line = before.count '\n'

/-- **The mark is sound**: it stands inside the text, and where its flag is set, its line is blank
up to the mark, or a comment. -/
structure Mark.Sound (cs : List Char) (m : Mark) : Prop extends m.Inside cs where
  /-- What is before the mark on its line has no token. -/
  lineStart : m.lineStart = true → ∃ before, (⟨0, m.pos.offset⟩ : Span).slice? cs = some before ∧
    IsTriviaLine (lastLine before)

namespace Scan

/-- **The scan is sound.** Inside a word the flag says nothing, but the word starts at a
boundary. -/
def Sound (cs : List Char) : Scan → Prop
  | trivia m | comment m => m.Sound cs
  | word start m => m.Inside cs ∧ (⟨start, m.pos.offset⟩ : Span).IsIn cs

variable {cs before after : List Char} {s : Scan}

/-- What is before the mark is what the scan has passed: the slice up to `m.pos` is `before`. -/
private theorem slice?_before {m : Mark} (hm : m.pos = Position.afterAll {} before) :
    (⟨0, m.pos.offset⟩ : Span).slice? (before ++ after) = some before := by
  refine Span.slice?_eq_some_iff.mpr ⟨[], after, rfl, rfl, ?_⟩
  simp [hm, Position.offset_afterAll]

private theorem inside_of_pos_eq {m : Mark} (hm : m.pos = Position.afterAll {} before) :
    m.Inside (before ++ after) := by
  have hboundary : IsBoundary (before ++ after) m.pos.offset :=
    ⟨before, after, rfl, by simp [hm, Position.offset_afterAll]⟩
  refine ⟨hboundary.le_byteLength, hboundary, before, slice?_before hm, ?_⟩
  simp [hm, Position.line_afterAll]

private theorem sound_of_pos_eq {m : Mark} (hm : m.pos = Position.afterAll {} before)
    (hflag : m.lineStart = true → Margin.start.afterAll before ≠ .body) :
    m.Sound (before ++ after) :=
  ⟨inside_of_pos_eq hm, fun hl =>
    ⟨before, slice?_before hm, Margin.afterAll_start_ne_body_iff.mp (hflag hl)⟩⟩

/-- **A scan that stands in a text is sound** (`Scan.Sound`). -/
theorem StandsIn.sound (h : s.StandsIn cs) : s.Sound cs := by
  obtain ⟨before, after, rfl, h⟩ := h
  cases s with
  | trivia m => exact sound_of_pos_eq h.1 h.2
  | comment m => exact sound_of_pos_eq h.1 fun _ => h.2.1
  | word start m =>
    obtain ⟨hm, front, w, rfl, hstart⟩ := h
    have hcovers : (⟨start, m.pos.offset⟩ : Span).Covers (front ++ w ++ after) w :=
      ⟨front, after, rfl, by simp [hstart, Position.offset_afterAll],
        by simp [hm, Position.offset_afterAll]⟩
    exact ⟨inside_of_pos_eq hm, hcovers.isIn⟩

/-- A step that is allowed (`Advances`) ends where the text goes on. -/
private theorem Advances.exists_mark {o : Outcome} (h : Advances before after o) :
    ∃ m part, o.mark? = some m ∧ m.pos = Position.afterAll {} (before ++ part) := by
  cases o with
  | failed => exact h.elim
  | more s =>
    obtain ⟨part, rest, rfl, hs⟩ := h
    exact ⟨s.mark, part, rfl, hs.pos_eq⟩
  | read t m =>
    obtain ⟨part, rest, rfl, hm⟩ := h
    exact ⟨m, part, rfl, hm⟩

/-- **A scan does not fail**, and its `mark` never goes back. -/
private theorem StandsIn.exists_offset_le (h : s.StandsIn cs) :
    ∃ m, (s.step cs).mark? = some m ∧ s.mark.pos.offset ≤ m.pos.offset := by
  obtain ⟨before, after, rfl, h⟩ := h
  obtain ⟨m, part, hmark, hm⟩ := h.step.exists_mark
  refine ⟨m, hmark, ?_⟩
  rw [hm, h.pos_eq, Position.afterAll_append]
  exact Position.offset_le_afterAll _ part

end Scan

/-! ### Further on in a text -/

/-- **Reading leads from the cursor `c` to `d`**: what lies between them was read, and unless they
are the same, a token stands before `d`. -/
structure Cursor.LeadsTo (c d : Cursor) : Prop where
  /-- What lies between the cursors. -/
  read : ∃ part, c.rest = part ++ d.rest ∧ d.pos = c.pos.afterAll part
  /-- What the second cursor has seen. -/
  margin : d = c ∨ d.margin = .body

namespace Cursor

variable {c d e : Cursor}

theorem LeadsTo.refl (c : Cursor) : c.LeadsTo c :=
  ⟨⟨[], rfl, rfl⟩, .inl rfl⟩

theorem LeadsTo.trans (h : c.LeadsTo d) (h' : d.LeadsTo e) : c.LeadsTo e := by
  obtain ⟨⟨part, hrest, hpos⟩, hmargin⟩ := h
  obtain ⟨⟨part', hrest', hpos'⟩, hmargin'⟩ := h'
  refine ⟨⟨part ++ part', by rw [hrest, hrest', List.append_assoc], ?_⟩, ?_⟩
  · rw [hpos', hpos, Position.afterAll_append]
  · rcases hmargin' with rfl | hbody
    · exact hmargin
    · exact .inr hbody

private theorem LeadsTo.offset_le (h : c.LeadsTo d) : c.pos.offset ≤ d.pos.offset := by
  obtain ⟨⟨part, -, hpos⟩, -⟩ := h
  rw [hpos]
  exact c.pos.offset_le_afterAll part

/-- **What `Cursor.next` reads**: no character at the end of the text, else some. -/
private theorem exists_read_next (c : Cursor) : c.next.2.margin = .body ∧
    ∃ part, c.rest = part ++ c.next.2.rest ∧ c.next.2.pos = c.pos.afterAll part ∧
      (c.next.1.kind ≠ .endOfInput → part ≠ []) := by
  induction c using reading_induction with
  | atEnd p m => exact ⟨rfl, [], rfl, rfl, fun hk => absurd rfl hk⟩
  | trivia x xs p m m' hs ih =>
    obtain ⟨hbody, part, hrest, hpos, -⟩ := ih
    rw [next_trivia hs]
    exact ⟨hbody, x :: part, congrArg (x :: ·) hrest, hpos, fun _ => List.cons_ne_nil x part⟩
  | illegal x xs p m hs hx _ =>
    rw [next_illegal hs hx]
    exact ⟨rfl, [x], rfl, rfl, fun _ => List.cons_ne_nil x []⟩
  | word x w xs p m hs hw hx _ =>
    rw [next_word hs hw hx]
    exact ⟨rfl, x :: w, rfl, rfl, fun _ => List.cons_ne_nil x w⟩

/-- **Reading on leads on**: `Cursor.next` keeps `LeadsTo`. -/
theorem leadsTo_next (c : Cursor) : c.LeadsTo c.next.2 := by
  obtain ⟨hbody, part, hrest, hpos, -⟩ := c.exists_read_next
  exact ⟨⟨part, hrest, hpos⟩, .inr hbody⟩

/-- **A token takes bytes**: before the end, `Cursor.next` moves the offset. -/
theorem offset_lt_next (c : Cursor) (h : c.next.1.kind ≠ .endOfInput) :
    c.pos.offset < c.next.2.pos.offset := by
  obtain ⟨-, part, -, hpos, hne⟩ := c.exists_read_next
  obtain ⟨x, xs, rfl⟩ := List.exists_cons_of_ne_nil (hne h)
  have hx := x.utf8Size_pos
  rw [hpos, Position.offset_afterAll, byteLength_cons]
  omega

end Cursor

/-! ### Further on in a session -/

namespace Reader

/-- **Reading leads from one reader to another**: they have one text, and the cursor goes on. -/
structure LeadsTo (r r' : Reader) : Prop where
  /-- The text stays. -/
  source : r'.source = r.source
  /-- The cursor goes on. -/
  cursor : r.cursor.LeadsTo r'.cursor

variable {r r' r'' : Reader}

theorem LeadsTo.refl (r : Reader) : r.LeadsTo r :=
  ⟨rfl, .refl r.cursor⟩

theorem LeadsTo.trans (h : r.LeadsTo r') (h' : r'.LeadsTo r'') : r.LeadsTo r'' :=
  ⟨h'.source.trans h.source, h.cursor.trans h'.cursor⟩

private theorem leadsTo_nextToken (r : Reader) : r.LeadsTo r.nextToken.2 :=
  ⟨rfl, r.cursor.leadsTo_next⟩

private theorem leadsTo_next? (r : Reader) : r.LeadsTo r.next?.2 := by
  rw [next?]
  split
  · exact .refl r
  · exact ⟨rfl, r.cursor.leadsTo_next⟩

private theorem leadsTo_nth? (n : Nat) (r : Reader) : r.LeadsTo (TokenSource.nth? n r).2 := by
  induction n generalizing r with
  | zero => exact r.leadsTo_next?
  | succ n ih =>
    have hnext : r.LeadsTo (TokenSource.next? r).2 := r.leadsTo_next?
    rw [TokenSource.nth?]
    rcases h : TokenSource.next? r with ⟨t, r'⟩
    rw [h] at hnext
    cases t with
    | none => exact hnext
    | some t => exact hnext.trans (ih r')

private theorem leadsTo_collect (r : Reader) : r.LeadsTo r.collect.2 := by
  induction hn : r.todo using Nat.strongRecOn generalizing r with
  | ind n ih =>
    subst hn
    have hnext := r.leadsTo_next?
    rcases h : r.next? with ⟨t, r'⟩
    rw [h] at hnext
    cases t with
    | none =>
      rw [collect_of_next?_eq_none h]
      exact hnext
    | some t =>
      rw [collect_of_next? h]
      exact hnext.trans (ih _ (todo_lt_of_next? h) r' rfl)

end Reader

/-- **A command leads on**, unless it is `reset` or `restore`, which take the reader back to the
start or to a saved state. -/
theorem Session.leadsTo_answer (s : Session Reader) {c : Command} (hreset : c ≠ .reset)
    (hrestore : c ≠ .restore) : s.machine.LeadsTo (s.answer c).2.machine := by
  cases c with
  | nextToken => exact s.machine.leadsTo_nextToken
  | next => exact s.machine.leadsTo_next?
  | nth n => exact s.machine.leadsTo_nth? n
  | collect => exact s.machine.leadsTo_collect
  | source => exact .refl _
  | save => exact .refl _
  | reset => exact absurd rfl hreset
  | restore => exact absurd rfl hrestore

/-! ### All readers of a text -/

namespace TokenSource

variable {σ : Type} [TokenSource σ]

/-- **An invariant `P` is a simulation** of a machine by itself. -/
theorem simulation_of_invariant {P : σ → Prop} (hnextToken : ∀ s, P s → P (nextToken s).2)
    (hnext : ∀ s, P s → P (next? s).2) (hcollect : ∀ s, P s → P (collect s).2)
    (hreset : ∀ s, P s → P (reset s)) : Simulation fun s t : σ => s = t ∧ P s where
  nextToken := fun ⟨hst, hs⟩ => hst ▸ ⟨rfl, rfl, hnextToken _ hs⟩
  next? := fun ⟨hst, hs⟩ => hst ▸ ⟨rfl, rfl, hnext _ hs⟩
  collect := fun ⟨hst, hs⟩ => hst ▸ ⟨rfl, rfl, hcollect _ hs⟩
  reset := fun ⟨hst, hs⟩ => hst ▸ ⟨rfl, hreset _ hs⟩
  text := fun ⟨hst, _⟩ => hst ▸ rfl

end TokenSource

namespace Session

open TokenSource

variable {σ τ : Type} [TokenSource σ] [TokenSource τ]

/-- The machine of a session and the states saved. -/
def machines (s : Session σ) : List σ :=
  s.machine :: s.saved

/-- The sessions after a sequence of calls. -/
def afterCalls (f : Nat → Session σ) (cs : List Call) : Nat → Session σ :=
  cs.foldl (fun g c => (answerCall g c).2) f

/-- **Related sessions** are related after any sequence of calls (`afterCalls`). -/
theorem related_afterCalls {R : σ → τ → Prop} (hR : Simulation R) {f : Nat → Session σ}
    {g : Nat → Session τ} (h : ∀ k, Related R (f k) (g k)) (cs : List Call) (k : Nat) :
    Related R (afterCalls f cs k) (afterCalls g cs k) := by
  induction cs generalizing f g with
  | nil => exact h k
  | cons c cs ih => exact ih (answerCall_alike hR h c).2

/-- **An invariant is kept** by all calls, for the `machines` of every session: those that run and
those that are saved. -/
theorem of_mem_machines {P : σ → Prop} (hP : Simulation fun s t : σ => s = t ∧ P s)
    {f : Nat → Session σ} (h : ∀ k, ∀ s ∈ (f k).machines, P s) {cs : List Call} {k : Nat} {s : σ}
    (hs : s ∈ (afterCalls f cs k).machines) : P s := by
  have hstart : ∀ k, Related (fun s t : σ => s = t ∧ P s) (f k) (f k) := by
    intro k
    refine ⟨⟨rfl, h k _ List.mem_cons_self⟩, List.forall₂_same.mpr fun s hs => ⟨rfl, ?_⟩⟩
    exact h k s (List.mem_cons_of_mem _ hs)
  obtain ⟨⟨-, hmachine⟩, hsaved⟩ := related_afterCalls hP hstart cs k
  rcases List.mem_cons.mp hs with rfl | hs
  · exact hmachine
  · exact (List.forall₂_same.mp hsaved s hs).2

end Session

namespace Reader

/-- To every reader of a text, reading leads from `Reader.ofString`. -/
theorem leadsTo_of_mem_machines {source : String} {calls : List Call} {k : Nat} {r : Reader}
    (hr : r ∈ (Session.afterCalls (fun _ => ⟨ofString source, []⟩) calls k).machines) :
    (ofString source).LeadsTo r := by
  refine Session.of_mem_machines (TokenSource.simulation_of_invariant ?_ ?_ ?_ ?_) ?_ hr
  · exact fun s hs => hs.trans s.leadsTo_nextToken
  · exact fun s hs => hs.trans s.leadsTo_next?
  · exact fun s hs => hs.trans s.leadsTo_collect
  · intro s hs
    have hreset : TokenSource.reset s = ofString source := congrArg ofString hs.source
    rw [hreset]
    exact .refl _
  · intro k s hs
    obtain rfl : s = ofString source := List.mem_singleton.mp hs
    exact .refl _

/-- The scan of the next token of a reader. -/
def scan (r : Reader) : Scan :=
  .trivia r.cursor.mark

/-- **A reader is sound.** Its numbers stand inside its text, and those of the scan that reads its
next token do as well, up to the end of that token. -/
structure Sound (source : String) (r : Reader) : Prop where
  /-- The reader has the text. -/
  source_eq : r.source = source
  /-- Its numbers are sound. -/
  mark : r.cursor.mark.Sound source.toList
  /-- The numbers of the scan are sound at the head of every loop. -/
  heads : ∀ s, r.scan.Reaches source.toList s → s.Sound source.toList
  /-- The text has every slice that the scan takes. -/
  slices : ∀ s, r.scan.Reaches source.toList s → s.step source.toList ≠ .failed
  /-- The scan never goes back. -/
  grows : ∀ s, r.scan.Reaches source.toList s →
    ∀ m ∈ (s.step source.toList).mark?, s.mark.pos.offset ≤ m.pos.offset
  /-- The scan passes what the cursor passes. -/
  skips : ∀ c, r.cursor.Skips c → r.scan.Reaches source.toList c.scan
  /-- The scan ends with the next token, where the cursor ends with it. -/
  reads : r.scan.Reads source.toList r.nextToken.1 r.nextToken.2.cursor.mark
  /-- A token that is not the end of the text takes bytes. -/
  offset_lt : r.nextToken.1.kind ≠ .endOfInput →
    r.cursor.pos.offset < r.nextToken.2.cursor.pos.offset
  /-- No command makes the reader go back, unless it takes it to the start or to a saved state. -/
  offset_le : ∀ saved c, c ≠ .reset → c ≠ .restore →
    r.cursor.pos.offset ≤ ((⟨r, saved⟩ : Session Reader).answer c).2.machine.cursor.pos.offset

/-- A reader to which reading leads from the start of a text stands in that text
(`Scan.Stands`). -/
private theorem LeadsTo.exists_stands {source : String} {r : Reader}
    (h : (ofString source).LeadsTo r) : ∃ before, source.toList = before ++ r.cursor.rest ∧
      r.scan.Stands before r.cursor.rest ∧ r.cursor.scan = r.scan := by
  obtain ⟨-, ⟨before, hrest, hpos⟩, hmargin⟩ := h
  rcases hmargin with hstart | hbody
  · -- nothing has been read
    have hbefore : before = [] := by
      rw [← hstart] at hrest
      exact List.self_eq_append_left.mp hrest
    subst hbefore
    refine ⟨[], hrest, ⟨hpos, fun _ => ?_⟩, ?_⟩
    · simp
    · rw [scan, hstart]
      rfl
  · refine ⟨before, hrest, ⟨hpos, fun hl => ?_⟩, by rw [Cursor.scan, hbody, scan]⟩
    simp [Cursor.mark, hbody] at hl

/-- **A reader stays inside its text** (`Reader.Sound`), whatever is asked of it, of the readers it
was cloned from and of its clones. -/
theorem sound_of_mem_machines {source : String} {calls : List Call} {k : Nat} {r : Reader}
    (hr : r ∈ (Session.afterCalls (fun _ => ⟨ofString source, []⟩) calls k).machines) :
    r.Sound source := by
  have hleads := leadsTo_of_mem_machines hr
  obtain ⟨before, hsource, hstands, hscan⟩ := hleads.exists_stands
  have hstart : r.scan.StandsIn source.toList := ⟨before, r.cursor.rest, hsource, hstands⟩
  have hheads : ∀ s, r.scan.Reaches source.toList s → s.StandsIn source.toList := fun s hs =>
    hstart.of_reaches hs
  refine ⟨hleads.source, hstart.sound, fun s hs => (hheads s hs).sound, ?slices, ?grows, ?skips,
    ?reads,
    r.cursor.offset_lt_next, ?le⟩
  case slices =>
    intro s hs hfailed
    obtain ⟨m, hm, -⟩ := (hheads s hs).exists_offset_le
    rw [hfailed] at hm
    cases hm
  case grows =>
    intro s hs m hm
    obtain ⟨n, hn, hle⟩ := (hheads s hs).exists_offset_le
    obtain rfl : n = m := Option.some.inj (hn.symm.trans hm)
    exact hle
  case skips =>
    intro c hc
    rw [← hscan, hsource]
    exact hc.reaches hstands.pos_eq
  case reads =>
    rw [← hscan, hsource]
    exact r.cursor.reads_next hstands.pos_eq
  case le =>
    intro saved c hreset hrestore
    exact (Session.leadsTo_answer ⟨r, saved⟩ hreset hrestore).cursor.offset_le

/-- A clone of a reader that has read a method after a comment. A word of two bytes is next. -/
theorem sound_of_clone_after_comment :
    (ofString " #é\nGET ü\x01").next?.2 ∈
      (Session.afterCalls (fun _ => ⟨ofString " #é\nGET ü\x01", []⟩)
        [.ask 0 .next, .clone 0 1, .ask 0 .collect, .ask 1 .save] 1).machines ∧
    (ofString " #é\nGET ü\x01").next?.2.cursor = ⟨[' ', 'ü', '\x01'], ⟨8, 1⟩, .body⟩ ∧
    (ofString " #é\nGET ü\x01").next?.2.Sound " #é\nGET ü\x01" ∧
    (ofString " #é\nGET ü\x01").next?.2.nextToken.1.kind ≠ .endOfInput := by
  have hmem : (ofString " #é\nGET ü\x01").next?.2 ∈
      (Session.afterCalls (fun _ => ⟨ofString " #é\nGET ü\x01", []⟩)
        [.ask 0 .next, .clone 0 1, .ask 0 .collect, .ask 1 .save] 1).machines := by
    decide +kernel
  exact ⟨hmem, by decide +kernel, sound_of_mem_machines hmem, by decide +kernel⟩

end Reader

end RequestScript
