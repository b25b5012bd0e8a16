import RequestScript.Text.Position

/-!
# Slices of a text

The part of a text that a span takes. Offsets count bytes, so not every span has one: both ends
must lie between two characters. `Span.Covers` says that a span has a given slice, `Span.slice?`
computes it, and the two agree (`slice?_eq_some_iff`).
-/

namespace RequestScript

/-- The characters cut after the first `n` bytes, if a character ends there. -/
def splitBytes? : Nat → List Char → Option (List Char × List Char)
  | 0, cs => some ([], cs)
  | _ + 1, [] => none
  | n + 1, c :: cs =>
    if c.utf8Size ≤ n + 1 then
      (splitBytes? (n + 1 - c.utf8Size) cs).map fun (as, bs) => (c :: as, bs)
    else none

/-- **Cutting a text** at an offset (`splitBytes?`): the first part takes that many bytes. -/
theorem splitBytes?_eq_some_iff {n : Nat} {cs as bs : List Char} :
    splitBytes? n cs = some (as, bs) ↔ cs = as ++ bs ∧ byteLength as = n := by
  fun_induction splitBytes? n cs generalizing as with
  | case1 cs =>
    constructor
    · intro h
      simp_all
    · rintro ⟨h, hl⟩
      cases as with
      | nil => simpa using h
      | cons a as =>
        have := a.utf8Size_pos
        simp at hl
        omega
  | case2 n => cases as <;> simp_all
  | case3 n c cs hc ih =>
    have hpos := c.utf8Size_pos
    simp only [Option.map_eq_some_iff, Prod.exists, Prod.mk.injEq]
    constructor
    · rintro ⟨as', bs', h, rfl, rfl⟩
      obtain ⟨rfl, hl⟩ := ih.mp h
      refine ⟨rfl, ?_⟩
      simp only [byteLength_cons]
      omega
    · rintro ⟨h, hl⟩
      cases as with
      | nil => simp at hl
      | cons a as =>
        simp only [List.cons_append, List.cons.injEq, byteLength_cons] at h hl
        obtain ⟨rfl, rfl⟩ := h
        exact ⟨as, bs, ih.mpr ⟨rfl, by omega⟩, rfl, rfl⟩
  | case4 n c cs hc =>
    constructor
    · simp
    · rintro ⟨h, hl⟩
      cases as with
      | nil => simp at hl
      | cons a as =>
        simp only [List.cons_append, List.cons.injEq, byteLength_cons] at h hl
        obtain ⟨rfl, rfl⟩ := h
        omega

namespace Span

/-- The span covers the characters `part` of the text `cs`. -/
def Covers (s : Span) (cs part : List Char) : Prop :=
  ∃ before after, cs = before ++ part ++ after ∧ byteLength before = s.start ∧
    byteLength (before ++ part) = s.stop

/-- The characters that the span covers, if its ends lie between characters. -/
def slice? (s : Span) (cs : List Char) : Option (List Char) :=
  if s.start ≤ s.stop then do
    let (_, rest) ← splitBytes? s.start cs
    let (part, _) ← splitBytes? (s.stop - s.start) rest
    return part
  else none

/-- The slice of a span is what the span covers: `slice?` decides `Covers`. -/
theorem slice?_eq_some_iff {s : Span} {cs part : List Char} :
    s.slice? cs = some part ↔ s.Covers cs part := by
  unfold slice? Covers
  constructor
  · intro h
    split at h
    · next hle =>
      simp only [Option.bind_eq_bind, Option.pure_def, Option.bind_eq_some_iff, Prod.exists,
        Option.some.injEq] at h
      obtain ⟨before, rest, h₁, part', after, h₂, rfl⟩ := h
      obtain ⟨rfl, hb⟩ := splitBytes?_eq_some_iff.mp h₁
      obtain ⟨rfl, hp⟩ := splitBytes?_eq_some_iff.mp h₂
      refine ⟨before, after, by simp, hb, ?_⟩
      rw [byteLength_append]
      omega
    · simp at h
  · rintro ⟨before, after, rfl, hb, hp⟩
    rw [byteLength_append] at hp
    have h₁ : splitBytes? s.start (before ++ (part ++ after)) = some (before, part ++ after) :=
      splitBytes?_eq_some_iff.mpr ⟨rfl, hb⟩
    have h₂ : splitBytes? (s.stop - s.start) (part ++ after) = some (part, after) :=
      splitBytes?_eq_some_iff.mpr ⟨rfl, by omega⟩
    rw [if_pos (by omega), List.append_assoc]
    simp [h₁, h₂]

end Span

end RequestScript
