/-!
# Positions and spans in a text

A **position** counts what lies before a place in a text: bytes of its UTF-8 form, and line
feeds. Reading a character moves a position by `Position.after`, reading several by
`Position.afterAll`. A **span** is a range of byte offsets, from its first byte to one past its
last.
-/

namespace RequestScript

/-- The number of bytes that the characters take in UTF-8. -/
def byteLength : List Char → Nat
  | [] => 0
  | c :: cs => c.utf8Size + byteLength cs

@[simp]
theorem byteLength_nil : byteLength [] = 0 := rfl

@[simp]
theorem byteLength_cons (c : Char) (cs : List Char) :
    byteLength (c :: cs) = c.utf8Size + byteLength cs := rfl

@[simp]
theorem byteLength_append (as bs : List Char) :
    byteLength (as ++ bs) = byteLength as + byteLength bs := by
  induction as with
  | nil => simp
  | cons c as ih => simp [ih, Nat.add_assoc]

/-- `byteLength` is the number of bytes of the string that the characters make up. -/
theorem utf8ByteSize_ofList (cs : List Char) :
    (String.ofList cs).utf8ByteSize = byteLength cs := by
  induction cs with
  | nil => simp
  | cons c cs ih =>
    have hs : String.ofList (c :: cs) = String.singleton c ++ String.ofList cs := by
      rw [← String.toList_inj]
      simp
    rw [hs, String.utf8ByteSize_append, ih, String.utf8ByteSize_singleton, byteLength_cons]

/-- A place in a text, told by what lies before it. -/
structure Position where
  /-- The number of bytes before the place. -/
  offset : Nat := 0
  /-- The number of line feeds before the place. -/
  line : Nat := 0
deriving DecidableEq, Repr, Inhabited

namespace Position

/-- The position after the character `c`. -/
def after (p : Position) (c : Char) : Position where
  offset := p.offset + c.utf8Size
  line := if c = '\n' then p.line + 1 else p.line

/-- The position after the characters `cs`. -/
def afterAll (p : Position) (cs : List Char) : Position :=
  cs.foldl after p

@[simp]
theorem afterAll_nil (p : Position) : p.afterAll [] = p := rfl

@[simp]
theorem afterAll_cons (p : Position) (c : Char) (cs : List Char) :
    p.afterAll (c :: cs) = (p.after c).afterAll cs := rfl

@[simp]
theorem afterAll_append (p : Position) (as bs : List Char) :
    p.afterAll (as ++ bs) = (p.afterAll as).afterAll bs := by
  simp [afterAll]

theorem afterAll_concat (p : Position) (cs : List Char) (c : Char) :
    p.afterAll (cs ++ [c]) = (p.afterAll cs).after c :=
  afterAll_append p cs [c]

/-- The position after one more character `c` of a text. -/
theorem after_eq_afterAll_concat {p : Position} {cs : List Char} (hp : p = afterAll {} cs)
    (c : Char) : p.after c = afterAll {} (cs ++ [c]) := by
  rw [hp, afterAll_concat]

/-- `afterAll` moves the offset by the bytes read. -/
theorem offset_afterAll (p : Position) (cs : List Char) :
    (p.afterAll cs).offset = p.offset + byteLength cs := by
  induction cs generalizing p with
  | nil => simp
  | cons c cs ih => simp [ih, after, Nat.add_assoc]

/-- `afterAll` moves the line by the line feeds read. -/
theorem line_afterAll (p : Position) (cs : List Char) :
    (p.afterAll cs).line = p.line + cs.count '\n' := by
  induction cs generalizing p with
  | nil => simp
  | cons c cs ih =>
    simp only [afterAll_cons, ih, after, List.count_cons, beq_iff_eq]
    split <;> omega

/-- Reading never goes back. -/
theorem offset_le_afterAll (p : Position) (cs : List Char) :
    p.offset ≤ (p.afterAll cs).offset := by
  rw [offset_afterAll]
  exact Nat.le_add_right _ _

/-- Reading never goes back a line. -/
theorem line_le_afterAll (p : Position) (cs : List Char) : p.line ≤ (p.afterAll cs).line := by
  rw [line_afterAll]
  exact Nat.le_add_right _ _

end Position

/-- A range of byte offsets. -/
structure Span where
  /-- The offset of the first byte. -/
  start : Nat := 0
  /-- The offset one past the last byte. -/
  stop : Nat := 0
deriving DecidableEq, Repr, Inhabited

/-- The span whose ends are moved by `f`. -/
def Span.map (f : Nat → Nat) (s : Span) : Span where
  start := f s.start
  stop := f s.stop

end RequestScript
