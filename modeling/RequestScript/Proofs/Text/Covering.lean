import RequestScript.Text.Slice

/-!
# Slices side by side and inside each other

How the slices of spans lie in one text. Offsets are compared as numbers, and the characters
between them follow: a text before a smaller offset is the beginning of the text before a greater
one (`prefix_of_byteLength_le`). So slices with a common start are beginnings of one another
(`Span.Covers.prefix_of_stop_le`), and what lies from one slice to a later one begins with the
first and ends with the second (`Span.Covers.join`).
-/

namespace RequestScript

/-- The offset lies between two characters of the text, or at one of its ends. -/
def IsBoundary (cs : List Char) (o : Nat) : Prop :=
  ∃ before after, cs = before ++ after ∧ byteLength before = o

private theorem isBoundary_zero (cs : List Char) : IsBoundary cs 0 :=
  ⟨[], cs, rfl, rfl⟩

/-- No boundary lies beyond the end of the text. -/
theorem IsBoundary.le_byteLength {cs : List Char} {o : Nat} (h : IsBoundary cs o) :
    o ≤ byteLength cs := by
  obtain ⟨before, after, rfl, rfl⟩ := h
  rw [byteLength_append]
  omega

/-- **Fewer bytes are a beginning**: of two parts `as` and `cs` at the front of a text, the shorter
one is the beginning of the other. -/
private theorem prefix_of_byteLength_le {as bs cs ds : List Char} (h : as ++ bs = cs ++ ds)
    (hl : byteLength as ≤ byteLength cs) : as <+: cs := by
  rcases List.append_eq_append_iff.mp h with ⟨es, rfl, -⟩ | ⟨es, rfl, -⟩
  · exact List.prefix_append as es
  · cases es with
    | nil => simp
    | cons e es =>
      have := e.utf8Size_pos
      simp only [byteLength_append, byteLength_cons] at hl
      omega

/-- **As many bytes are the same part**: a text is cut in one way only after so many bytes. -/
theorem append_inj_of_byteLength_eq {as bs cs ds : List Char} (h : as ++ bs = cs ++ ds)
    (hl : byteLength as = byteLength cs) : as = cs ∧ bs = ds := by
  have hle := (prefix_of_byteLength_le h (Nat.le_of_eq hl)).length_le
  have hge := (prefix_of_byteLength_le h.symm (Nat.le_of_eq hl.symm)).length_le
  exact List.append_inj h (Nat.le_antisymm hle hge)

/-- **The span lies in the text**: it does not end before it starts or after the text, and both
its ends lie between characters. -/
structure Span.IsIn (s : Span) (cs : List Char) : Prop where
  /-- The span does not end before it starts. -/
  start_le_stop : s.start ≤ s.stop
  /-- The span does not end after the text. -/
  stop_le : s.stop ≤ byteLength cs
  /-- The start lies between characters. -/
  start : IsBoundary cs s.start
  /-- The end lies between characters. -/
  stop : IsBoundary cs s.stop

/-- The empty span at the start of a text lies in it. -/
theorem Span.isIn_empty (cs : List Char) : Span.IsIn {} cs where
  start_le_stop := Nat.le_refl 0
  stop_le := Nat.zero_le _
  start := isBoundary_zero cs
  stop := isBoundary_zero cs

/-- The text of the first span is a beginning of the text of the second. -/
def Span.Begins (s t : Span) (cs : List Char) : Prop :=
  ∃ part whole, s.slice? cs = some part ∧ t.slice? cs = some whole ∧ part <+: whole

/-- The text of the span begins with `first` and ends with `last`. -/
def Span.Shows (s : Span) (cs : List Char) (first last : String) : Prop :=
  ∃ part, s.slice? cs = some part ∧ first.toList <+: part ∧ last.toList <:+ part

namespace Span.Covers

variable {s t : Span} {cs part part' : List Char}

/-- What covers a part of a text lies in it. -/
theorem isIn (h : s.Covers cs part) : s.IsIn cs := by
  obtain ⟨before, after, rfl, hb, hp⟩ := h
  have hstop : IsBoundary (before ++ part ++ after) s.stop := ⟨before ++ part, after, rfl, hp⟩
  refine ⟨?_, hstop.le_byteLength, ⟨before, part ++ after, by simp, hb⟩, hstop⟩
  rw [byteLength_append] at hp
  omega

/-- **A slice with the same start** that stops no later is a beginning: `part` is one of
`part'`. -/
theorem prefix_of_stop_le (h : s.Covers cs part) (h' : t.Covers cs part')
    (hstart : s.start = t.start) (hstop : s.stop ≤ t.stop) : part <+: part' := by
  obtain ⟨before, after, rfl, hb, hp⟩ := h
  obtain ⟨before', after', heq, hb', hp'⟩ := h'
  rw [List.append_assoc, List.append_assoc] at heq
  obtain ⟨rfl, hafter⟩ := append_inj_of_byteLength_eq heq (by omega)
  rw [byteLength_append] at hp hp'
  exact prefix_of_byteLength_le hafter (by omega)

/-- **From one slice to a later one**: the `whole` from the start of the first to the end of the
second begins with the first and ends with the second. -/
theorem join (h : s.Covers cs part) (h' : t.Covers cs part') (hle : s.stop ≤ t.start) :
    ∃ whole, (⟨s.start, t.stop⟩ : Span).Covers cs whole ∧ part <+: whole ∧ part' <:+ whole := by
  obtain ⟨before, after, rfl, hb, hp⟩ := h
  obtain ⟨before', after', heq, hb', hp'⟩ := h'
  -- the second slice starts after the first, so something lies between them
  have hpre : before ++ part <+: before' := by
    rw [List.append_assoc before' part'] at heq
    exact prefix_of_byteLength_le heq (by omega)
  obtain ⟨between, rfl⟩ := hpre
  refine ⟨part ++ between ++ part', ⟨before, after', ?_, hb, ?_⟩, ?_, ?_⟩
  · rw [heq]
    simp
  · rw [← hp']
    simp
  · rw [List.append_assoc]
    exact List.prefix_append part _
  · exact List.suffix_append _ part'

end Span.Covers

end RequestScript
