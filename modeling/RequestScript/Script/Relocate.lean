import RequestScript.Script.Basic

/-!
# Moving the offsets of a script

Scripts that differ only in where their nodes stand in a text are related by a map of offsets.
`Script.relocate` applies such a map to every span of a script but those of absent responses,
which stand nowhere. Relocating to a constant forgets all offsets (`Script.erase`).
-/

namespace RequestScript

/-- The field with its offsets moved. -/
def Field.relocate (g : Nat → Nat) (f : Field) : Field :=
  { f with span := f.span.map g }

/-- The request line with its offsets moved. -/
def Endpoint.relocate (g : Nat → Nat) (e : Endpoint) : Endpoint :=
  { e with span := e.span.map g }

/-- The request with its offsets moved. -/
def Request.relocate (g : Nat → Nat) (r : Request) : Request where
  endpoint := r.endpoint.relocate g
  headers := r.headers.map (Field.relocate g)
  span := r.span.map g

/-- The response with its offsets moved, if it is present. -/
def Response.relocate (g : Nat → Nat) (r : Response) : Response :=
  if r.isPresent then
    { r with captures := r.captures.map (Field.relocate g), span := r.span.map g }
  else r

/-- The entry with its offsets moved. -/
def Entry.relocate (g : Nat → Nat) (e : Entry) : Entry where
  request := e.request.relocate g
  response := e.response.relocate g
  span := e.span.map g

/-- The script with its offsets moved. -/
def Script.relocate (g : Nat → Nat) (s : Script) : Script where
  entries := s.entries.map (Entry.relocate g)
  span := s.span.map g

/-- The script without its offsets. -/
def Script.erase (s : Script) : Script :=
  s.relocate fun _ => 0

namespace Span

@[simp]
theorem map_map (g h : Nat → Nat) (s : Span) : (s.map h).map g = s.map (g ∘ h) := rfl

end Span

/-! ### Moving nothing -/

@[simp]
theorem Span.map_id (s : Span) : s.map id = s := rfl

@[simp]
theorem Field.relocate_id (f : Field) : f.relocate id = f := rfl

@[simp]
theorem Endpoint.relocate_id (e : Endpoint) : e.relocate id = e := rfl

private theorem map_relocate_id (fs : List Field) : fs.map (Field.relocate id) = fs :=
  List.map_id fs

@[simp]
theorem Request.relocate_id (r : Request) : r.relocate id = r := by
  rw [Request.relocate, map_relocate_id]
  rfl

@[simp]
theorem Response.relocate_id (r : Response) : r.relocate id = r := by
  rw [Response.relocate, map_relocate_id]
  split <;> rfl

/-- Where nothing is moved, an entry stays as it is. -/
@[simp]
theorem Entry.relocate_id (e : Entry) : e.relocate id = e := by
  rw [Entry.relocate, Request.relocate_id, Response.relocate_id]
  rfl

@[simp]
theorem Script.relocate_id (s : Script) : s.relocate id = s := by
  have h : Entry.relocate id = id := funext Entry.relocate_id
  rw [Script.relocate, h, List.map_id]
  rfl

/-! ### Moving twice is moving once -/

@[simp]
theorem Field.relocate_relocate (g h : Nat → Nat) (f : Field) :
    (f.relocate h).relocate g = f.relocate (g ∘ h) := rfl

@[simp]
theorem Request.relocate_relocate (g h : Nat → Nat) (r : Request) :
    (r.relocate h).relocate g = r.relocate (g ∘ h) := by
  simp [Request.relocate, Endpoint.relocate, Function.comp_def]

@[simp]
theorem Response.isPresent_relocate (g : Nat → Nat) (r : Response) :
    (r.relocate g).isPresent = r.isPresent := by
  unfold Response.relocate
  split <;> rfl

@[simp]
theorem Response.relocate_relocate (g h : Nat → Nat) (r : Response) :
    (r.relocate h).relocate g = r.relocate (g ∘ h) := by
  rw [Response.relocate, Response.isPresent_relocate]
  simp only [Response.relocate]
  split <;> simp [Function.comp_def]

@[simp]
theorem Entry.relocate_relocate (g h : Nat → Nat) (e : Entry) :
    (e.relocate h).relocate g = e.relocate (g ∘ h) := by
  simp [Entry.relocate]

@[simp]
theorem Script.relocate_relocate (g h : Nat → Nat) (s : Script) :
    (s.relocate h).relocate g = s.relocate (g ∘ h) := by
  simp [Script.relocate, Function.comp_def]

/-- Moving back (`· - o`) what was moved on (`· + o`). -/
theorem Script.relocate_sub_add (o : Nat) (s : Script) :
    (s.relocate (· + o)).relocate (· - o) = s := by
  have h : (· - o) ∘ (· + o) = (id : Nat → Nat) := funext fun n => Nat.add_sub_cancel n o
  rw [relocate_relocate, h, relocate_id]

/-- Where the nodes of a script stand does not matter to `erase`. -/
@[simp]
theorem Script.erase_relocate (g : Nat → Nat) (s : Script) : (s.relocate g).erase = s.erase := by
  simp [Script.erase, Function.comp_def]

end RequestScript
