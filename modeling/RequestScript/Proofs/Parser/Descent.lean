import Mathlib.Logic.Relation
import RequestScript.Parser.Descent

/-!
# Runs of a descent

A descent takes one step after another (`Descent.step`) until it is over. Nothing in a step says
that this will ever be; here it is told what can be said of all runs.

* **Runs**: what a descent reaches (`Descent.Reaches`), and how it ends (`Descent.Ends`). As
  `Descent.step` is a function, it ends in one way only, and nothing that it reaches leads anywhere
  else (`Descent.Ends.of_reaches`).
* **Steps**: whatever loop is running, a step records what it finds, and then it may take one token
  (`Descent.moves_of_step`); the last one records what it finds and sums up
  (`Descent.exists_conclude_of_step`).
-/

namespace RequestScript.Descent

/-! ### Runs -/

/-- The descent comes to stand at `d'`. -/
def Reaches : Descent → Descent → Prop :=
  Relation.ReflTransGen fun d d' => d.step = .more d'

/-- The descent comes to an end: it holds `m` then, and hands back `r`. -/
def Ends (d : Descent) (m : State) (r : Except Rejection Script) : Prop :=
  ∃ d', d.Reaches d' ∧ d'.step = .over m r

section Runs

variable {d d' : Descent} {m m' : State} {r r' : Except Rejection Script}

theorem Reaches.single (h : d.step = .more d') : d.Reaches d' :=
  Relation.ReflTransGen.single h

theorem Reaches.ends (h : d.Reaches d') (h' : d'.Ends m r) : d.Ends m r := by
  obtain ⟨d₀, hreach, hover⟩ := h'
  exact ⟨d₀, h.trans hreach, hover⟩

/-- What a descent reaches leads on to its end, since `step` is a function. -/
theorem Ends.of_reaches (h : d.Ends m r) (h' : d.Reaches d') : d'.Ends m r := by
  obtain ⟨d₀, hreach, hover⟩ := h
  have hunique : Relator.RightUnique fun d d' : Descent => d.step = .more d' := by
    intro a b c hb hc
    exact Outcome.more.inj (hb.symm.trans hc)
  rcases Relation.ReflTransGen.total_of_right_unique hunique h' hreach with hon | hback
  · exact ⟨d₀, hon, hover⟩
  · -- nothing comes after the end
    rcases Relation.ReflTransGen.cases_head hback with rfl | ⟨d₁, hmore, -⟩
    · exact ⟨d₀, .refl, hover⟩
    · rw [hover] at hmore
      cases hmore

/-- **A descent ends in one way only.** -/
theorem Ends.unique (h : d.Ends m r) (h' : d.Ends m' r') : m = m' ∧ r = r' := by
  obtain ⟨d₀, hreach, hover⟩ := h
  obtain ⟨d₁, hreach', hover'⟩ := Ends.of_reaches h' hreach
  rcases Relation.ReflTransGen.cases_head hreach' with rfl | ⟨d₂, hmore, -⟩
  · have heq := hover.symm.trans hover'
    exact ⟨(Outcome.over.inj heq).1, (Outcome.over.inj heq).2⟩
  · rw [hover] at hmore
    cases hmore

end Runs

/-! ### Actions on what a descent holds -/

namespace State

/-- What an action does to the state: `report` records a diagnostic, and `close` adds an entry. -/
def act (m : State) : Action → State
  | .report d => m.record d
  | .close e => m.addEntry e

/-- What actions do to the state, one after another. -/
def acts (m : State) (as : List Action) : State :=
  as.foldl act m

variable (m : State)

@[simp]
theorem current_act (a : Action) : (m.act a).current = m.current := by
  cases a <;> rfl

end State

/-! ### What a step does -/

/-- **The state is moved**: actions are done, and then a token may be taken. -/
def State.Moves (m m' : State) : Prop :=
  ∃ as, m' = m.acts as ∨ m' = (m.acts as).advance

section Moves

variable (m : State)

private theorem State.Moves.refl : m.Moves m :=
  ⟨[], .inl rfl⟩

private theorem State.Moves.advance : m.Moves m.advance :=
  ⟨[], .inr rfl⟩

private theorem State.Moves.complain (e : Expectation) : m.Moves (m.complain e) :=
  ⟨[.report (.unexpected m.current e)], .inl rfl⟩

private theorem State.Moves.complain_advance (e : Expectation) : m.Moves (m.complain e).advance :=
  ⟨[.report (.unexpected m.current e)], .inr rfl⟩

private theorem moves_lineRound (e : Endpoint) (state : LineLoop) :
    m.Moves (lineRound m e state).1 := by
  cases state with
  | method =>
    rw [lineRound]
    split
    · exact .advance m
    · exact .complain m .method
  | url =>
    rw [lineRound]
    split
    · exact .advance m
    · exact .complain m .url
  | done => exact .refl m

private theorem moves_fieldRound (f : Field) (state : FieldLoop) :
    m.Moves (fieldRound m f state).1 := by
  cases state with
  | key =>
    rw [fieldRound]
    split
    · exact .advance m
    · exact .complain_advance m .key
  | value =>
    rw [fieldRound]
    split
    · exact .advance m
    · exact .complain m .value
  | done => exact .refl m

private theorem moves_stepRequest (r : Request) (state : RequestLoop) :
    m.Moves (stepRequest m r state).state := by
  cases state with
  | method =>
    rw [stepRequest]
    split
    · exact .refl m
    · exact .complain m .method
  | line => exact .refl m
  | headers =>
    rw [stepRequest]
    split <;> exact .refl m

private theorem moves_stepResponse (s : Response) (r : Request) (state : ResponseLoop) :
    m.Moves (stepResponse m s r state).state := by
  cases state with
  | marker =>
    rw [stepResponse]
    split
    · exact .advance m
    · exact .refl m
  | status =>
    rw [stepResponse]
    split
    · split
      · exact .advance m
      · exact .complain_advance m .status
    · exact .complain m .status
  | tag =>
    rw [stepResponse]
    split
    · exact .advance m
    · exact .refl m
  | captures =>
    rw [stepResponse]
    split <;> exact .refl m

/-- A round of a loop inside another one moves the state as that round does. -/
private theorem state_stepLine (e : Endpoint) (r : Request) (state : LineLoop) :
    (stepLine m e r state).state = (lineRound m e state).1 := by
  rw [stepLine]
  split <;> simp_all

private theorem state_stepHeader (f : Field) (r : Request) (state : FieldLoop) :
    (stepHeader m f r state).state = (fieldRound m f state).1 := by
  rw [stepHeader]
  split <;> simp_all

private theorem state_stepCapture (f : Field) (s : Response) (r : Request) (state : FieldLoop) :
    (stepCapture m f s r state).state = (fieldRound m f state).1 := by
  rw [stepCapture]
  split <;> simp_all

variable {m}

/-- **What a step does**: it does actions, and then it may take a token. -/
theorem moves_of_step {l : Loop} {d : Descent} (h : step ⟨l, m⟩ = .more d) : m.Moves d.state := by
  cases l with
  | script =>
    rw [step, stepScript] at h
    split at h
    · exact Outcome.more.inj h ▸ .refl m
    · split at h <;> cases h
  | request state r => exact Outcome.more.inj h ▸ moves_stepRequest m r state
  | line state e r =>
    rw [← Outcome.more.inj h, state_stepLine]
    exact moves_lineRound m e state
  | header state f r =>
    rw [← Outcome.more.inj h, state_stepHeader]
    exact moves_fieldRound m f state
  | response state s r => exact Outcome.more.inj h ▸ moves_stepResponse m s r state
  | capture state f s r =>
    rw [← Outcome.more.inj h, state_stepCapture]
    exact moves_fieldRound m f state
  | entry r s => exact Outcome.more.inj h ▸ ⟨[.close (.ofParts r s)], .inl rfl⟩

/-- **What ends a descent**: actions are done, and it sums up. -/
theorem exists_conclude_of_step {l : Loop} {m' : State} {r : Except Rejection Script}
    (h : step ⟨l, m⟩ = .over m' r) : ∃ as, m' = (m.acts as).conclude := by
  cases l with
  | script =>
    rw [step, stepScript] at h
    split at h
    · cases h
    · split at h
      · exact ⟨[], (Outcome.over.inj h).1.symm⟩
      · exact ⟨[.report (.unexpected m.current .method)], (Outcome.over.inj h).1.symm⟩
  | request | line | header | response | capture | entry => cases h

end Moves

end RequestScript.Descent
