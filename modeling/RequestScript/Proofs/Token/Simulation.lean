import Mathlib.Data.List.Forall2
import RequestScript.Proofs.Token.Reading
import RequestScript.Token.Session

/-!
# A reader is an index into the tokens of its text

A `Reader` works on characters, and what it does next hangs on four things that change: what
follows, the position, the margin and whether the pass is over. A `Tape` knows all tokens in
advance and has an index. No sequence of calls tells one from the other.

* **Simulation**: machines that are related answer every single call alike and are related again
  (`TokenSource.Simulation`). This carries over to sessions (`Session.Related.run`) and to several
  sessions side by side that are cloned from one another (`Session.runCalls_eq`).
* **Reader and tape**: a reader is related to the tape of its text that is at the first token of
  what the reader has before it (`Reader.Follows`). Reading a token keeps that
  (`Follows.nextToken`), and so does collecting, which is reading until the pass is over on both
  sides (`Tape.collect_eq`). So the answers of a reader are those of its tape
  (`Reader.run_eq_run_tape`).
-/

namespace RequestScript

/-! ### Simulations -/

namespace TokenSource

variable {σ τ α : Type}

/-- The answers are equal, and the machines after them are related. -/
def Alike (R : σ → τ → Prop) (x : α × σ) (y : α × τ) : Prop :=
  x.1 = y.1 ∧ R x.2 y.2

variable [TokenSource σ] [TokenSource τ]

/-- **A simulation**: related machines answer alike, whatever is asked. -/
structure Simulation (R : σ → τ → Prop) : Prop where
  /-- The next token. -/
  nextToken {s : σ} {t : τ} (h : R s t) : Alike R (nextToken s) (nextToken t)
  /-- The next token of the pass. -/
  next? {s : σ} {t : τ} (h : R s t) : Alike R (next? s) (next? t)
  /-- The tokens left in the pass. -/
  collect {s : σ} {t : τ} (h : R s t) : Alike R (collect s) (collect t)
  /-- Both are taken back. -/
  reset {s : σ} {t : τ} (h : R s t) : R (reset s) (reset t)
  /-- Both have the same text. -/
  text {s : σ} {t : τ} (h : R s t) : text s = text t

variable {R : σ → τ → Prop} {s : σ} {t : τ}

/-- Skipping tokens of the pass (`nth?`) is asking for them. -/
theorem Simulation.nth? (hR : Simulation R) (n : Nat) (h : R s t) :
    Alike R (nth? n s) (nth? n t) := by
  induction n generalizing s t with
  | zero => exact hR.next? h
  | succ n ih =>
    obtain ⟨htoken, hrest⟩ := hR.next? h
    unfold TokenSource.nth?
    rcases hs : TokenSource.next? s with ⟨a, s'⟩
    rcases ht : TokenSource.next? t with ⟨b, t'⟩
    rw [hs, ht] at htoken hrest
    obtain rfl : a = b := htoken
    cases a with
    | none => exact ⟨rfl, hrest⟩
    | some a => exact ih hrest

end TokenSource

/-! ### Sessions -/

namespace Session

open TokenSource

variable {σ τ : Type} [TokenSource σ] [TokenSource τ]

/-- The machines of two sessions are related, and so are the states saved. -/
structure Related (R : σ → τ → Prop) (s : Session σ) (t : Session τ) : Prop where
  /-- The machines. -/
  machine : R s.machine t.machine
  /-- The states saved, one by one. -/
  saved : List.Forall₂ R s.saved t.saved

variable {R : σ → τ → Prop}

/-- **One command** is answered `Alike` in related sessions. -/
private theorem Related.answer (hR : Simulation R) {s : Session σ} {t : Session τ}
    (h : Related R s t) (c : Command) : Alike (Related R) (s.answer c) (t.answer c) := by
  cases c with
  | nextToken =>
    obtain ⟨htoken, hrest⟩ := hR.nextToken h.machine
    exact ⟨congrArg (Answer.token ∘ some) htoken, hrest, h.saved⟩
  | next =>
    obtain ⟨htoken, hrest⟩ := hR.next? h.machine
    exact ⟨congrArg Answer.token htoken, hrest, h.saved⟩
  | nth n =>
    obtain ⟨htoken, hrest⟩ := hR.nth? n h.machine
    exact ⟨congrArg Answer.token htoken, hrest, h.saved⟩
  | collect =>
    obtain ⟨htokens, hrest⟩ := hR.collect h.machine
    exact ⟨congrArg Answer.tokens htokens, hrest, h.saved⟩
  | reset => exact ⟨rfl, hR.reset h.machine, h.saved⟩
  | source => exact ⟨congrArg Answer.source (hR.text h.machine), h⟩
  | save =>
    refine ⟨?_, h.machine, .cons h.machine h.saved⟩
    exact congrArg (fun n => Answer.depth (some (n + 1))) h.saved.length_eq
  | restore =>
    obtain ⟨m, ms⟩ := s
    obtain ⟨n, ns⟩ := t
    obtain ⟨hmachine, hsaved⟩ := h
    cases hsaved with
    | nil => exact ⟨rfl, hmachine, .nil⟩
    | cons hm hms =>
      refine ⟨?_, hm, hms⟩
      exact congrArg (fun n => Answer.depth (some n)) hms.length_eq

/-- **Any sequence of commands** is answered alike in related sessions (`run`). -/
theorem Related.run (hR : Simulation R) {s : Session σ} {t : Session τ} (h : Related R s t)
    (cs : List Command) : s.run cs = t.run cs := by
  induction cs generalizing s t with
  | nil => rfl
  | cons c cs ih =>
    obtain ⟨hanswer, hrest⟩ := h.answer hR c
    exact congrArg₂ List.cons hanswer (ih hrest)

end Session

/-! ### Sessions side by side -/

/-- What may be asked of sessions that stand side by side, each under a number. -/
inductive Call where
  /-- A command to the session with the number `i`. -/
  | ask (i : Nat) (c : Command)
  /-- The session with the number `j` becomes a clone of the one with the number `i`. -/
  | clone (i j : Nat)
deriving DecidableEq, Repr, Inhabited

namespace Session

open TokenSource

variable {σ τ : Type} [TokenSource σ] [TokenSource τ]

/-- The answer to a call, if it is a command, and the sessions after it. No session changes but the
one that is asked or that becomes a clone. -/
def answerCall (f : Nat → Session σ) : Call → Option Answer × (Nat → Session σ)
  | .ask i c =>
    let (a, s) := (f i).answer c
    (some a, fun k => if k = i then s else f k)
  | .clone i j => (none, fun k => if k = j then f i else f k)

/-- The answers to a sequence of calls. -/
def runCalls (f : Nat → Session σ) : List Call → List (Option Answer)
  | [] => []
  | c :: cs =>
    let (a, g) := answerCall f c
    a :: runCalls g cs

variable {R : σ → τ → Prop} {f : Nat → Session σ} {g : Nat → Session τ}

/-- **One call** is answered `Alike` by related sessions. -/
theorem answerCall_alike (hR : Simulation R) (h : ∀ k, Related R (f k) (g k)) (c : Call) :
    Alike (fun f' g' => ∀ k, Related R (f' k) (g' k)) (answerCall f c) (answerCall g c) := by
  cases c with
  | ask i c =>
    obtain ⟨hanswer, hrest⟩ := (h i).answer hR c
    refine ⟨congrArg some hanswer, fun k => ?_⟩
    simp only [answerCall]
    split
    · exact hrest
    · exact h k
  | clone i j =>
    refine ⟨rfl, fun k => ?_⟩
    simp only [answerCall]
    split
    · exact h i
    · exact h k

/-- **Any sequence of calls** is answered alike by related sessions (`runCalls`). -/
theorem runCalls_eq (hR : Simulation R) (h : ∀ k, Related R (f k) (g k)) (cs : List Call) :
    runCalls f cs = runCalls g cs := by
  induction cs generalizing f g with
  | nil => rfl
  | cons c cs ih =>
    obtain ⟨hanswer, hrest⟩ := answerCall_alike hR h c
    exact congrArg₂ List.cons hanswer (ih hrest)

end Session

/-! ### Reader and tape -/

namespace TokenStream

/-- Past the tokens there is nothing to drop. -/
private theorem drop_min_length (s : TokenStream) (n : Nat) :
    s.drop (min n s.tokens.length) = s.drop n := by
  rcases Nat.le_total n s.tokens.length with h | h
  · rw [Nat.min_eq_left h]
  · rw [Nat.min_eq_right h, drop, drop, List.drop_eq_nil_of_le h, List.drop_length]

end TokenStream

namespace Tape

variable {t : Tape}

/-- Before the end, `next?` moves the `index`. -/
private theorem next?_of_lt (he : t.exhausted = false) (hi : t.index < t.stream.tokens.length)
    (hk : t.stream.tokens[t.index].kind ≠ .endOfInput) :
    t.next? = (some t.stream.tokens[t.index], { t with index := t.index + 1 }) := by
  have htoken : t.stream.get t.index = t.stream.tokens[t.index] := by
    simp [TokenStream.get, hi]
  have hmin : min (t.index + 1) t.stream.tokens.length = t.index + 1 := Nat.min_eq_left hi
  simp [next?, nextToken, he, htoken, hmin, hk]

/-- At the end, `next?` gives the `last` token, and the pass is exhausted. -/
private theorem next?_of_eq (he : t.exhausted = false) (hi : t.index = t.stream.tokens.length) :
    t.next? = (some t.stream.last, { t with exhausted := true }) := by
  obtain ⟨source, stream, index, exhausted⟩ := t
  obtain rfl : index = stream.tokens.length := hi
  obtain rfl : exhausted = false := he
  have htoken : stream.get stream.tokens.length = stream.last :=
    TokenStream.get_of_length_le (Nat.le_refl _)
  have hkind : stream.last.kind = .endOfInput := rfl
  simp [next?, nextToken, htoken, hkind]

/-- **Collecting is reading**: `collect` takes the tokens of `next?` one after another until the
pass is over. -/
private theorem collect_eq (hi : t.index ≤ t.stream.tokens.length)
    (hk : ∀ u ∈ t.stream.tokens, u.kind ≠ .endOfInput) :
    t.collect = match t.next? with
      | (none, t') => ([], t')
      | (some u, t') => (u :: t'.collect.1, t'.collect.2) := by
  cases he : t.exhausted with
  | true => simp [collect, next?, he]
  | false =>
    rcases Nat.lt_or_eq_of_le hi with hlt | heq
    · have hdrop : t.stream.toList.drop t.index =
          t.stream.tokens[t.index] :: t.stream.toList.drop (t.index + 1) := by
        rw [List.drop_eq_getElem_cons (by simp [TokenStream.toList]; omega)]
        simp [TokenStream.toList, hlt]
      simp [next?_of_lt he hlt (hk _ (List.getElem_mem hlt)), collect, he, hdrop]
    · have hdrop : t.stream.toList.drop t.stream.tokens.length = [t.stream.last] := by
        simp [TokenStream.toList]
      simp [next?_of_eq he heq, collect, he, hdrop, heq]

end Tape

namespace Reader

/-- **The reader follows the tape** of the text: it has before it what the tape has from its index
on, and both are in the same pass. -/
structure Follows (source : String) (r : Reader) (t : Tape) : Prop where
  /-- The text of the reader. -/
  source_reader : r.source = source
  /-- The text of the tape. -/
  source_tape : t.source = source
  /-- The tape has the tokens of the text. -/
  stream_tape : t.stream = tokenize source
  /-- What the reader has before it. -/
  stream_eq : r.cursor.stream = t.stream.drop t.index
  /-- The index is that of a token or of the end. -/
  index_le : t.index ≤ t.stream.tokens.length
  /-- The pass is over for both or for none. -/
  exhausted_eq : r.exhausted = t.exhausted

private theorem follows_ofString (source : String) :
    Follows source (ofString source) (.ofString source) :=
  ⟨rfl, rfl, rfl, rfl, Nat.zero_le _, rfl⟩

namespace Follows

open TokenSource

variable {source : String} {r : Reader} {t : Tape}

/-- **Reading a token** moves the cursor and the `index` alike. -/
theorem nextToken (h : Follows source r t) :
    Alike (Follows source) r.nextToken t.nextToken where
  left := by
    have htoken : r.nextToken.1 = r.cursor.stream.current := r.cursor.next_fst
    rw [htoken, h.stream_eq, TokenStream.current, TokenStream.get_drop, Nat.add_zero]
    rfl
  right := by
    refine ⟨h.source_reader, h.source_tape, h.stream_tape, ?_, Nat.min_le_right _ _,
      h.exhausted_eq⟩
    have hrest : r.nextToken.2.cursor.stream = r.cursor.stream.drop 1 := r.cursor.stream_next
    rw [hrest, h.stream_eq, TokenStream.drop_drop]
    exact (TokenStream.drop_min_length _ _).symm

/-- Reading a token of the pass leaves both exhausted, or neither. -/
theorem next? (h : Follows source r t) : Alike (Follows source) r.next? t.next? := by
  rw [Reader.next?, Tape.next?, h.exhausted_eq]
  split
  · exact ⟨rfl, h⟩
  · obtain ⟨htoken, hrest⟩ := h.nextToken
    refine ⟨congrArg some htoken, hrest.source_reader, hrest.source_tape, hrest.stream_tape,
      hrest.stream_eq, hrest.index_le, ?_⟩
    exact congrArg (fun u : Token => u.kind == .endOfInput) htoken

/-- No token of the tape before its end is taken for the end. -/
private theorem kind_ne_endOfInput (h : Follows source r t) :
    ∀ u ∈ t.stream.tokens, u.kind ≠ .endOfInput := by
  rw [h.stream_tape]
  exact fun u hu => Cursor.kind_ne_endOfInput_of_mem hu

/-- **Collecting** hands out the same tokens, and leaves both exhausted. -/
theorem collect (h : Follows source r t) : Alike (Follows source) r.collect t.collect := by
  induction hn : r.todo using Nat.strongRecOn generalizing r t with
  | ind n ih =>
    subst hn
    rw [Tape.collect_eq h.index_le h.kind_ne_endOfInput]
    obtain ⟨htoken, hrest⟩ := h.next?
    rcases hr : r.next? with ⟨a, r'⟩
    rcases ht : t.next? with ⟨b, t'⟩
    rw [hr, ht] at htoken hrest
    obtain rfl : a = b := htoken
    cases a with
    | none =>
      rw [collect_of_next?_eq_none hr]
      exact ⟨rfl, hrest⟩
    | some u =>
      obtain ⟨htokens, hend⟩ := ih _ (todo_lt_of_next? hr) hrest rfl
      rw [collect_of_next? hr]
      exact ⟨congrArg (u :: ·) htokens, hend⟩

/-- Both go back to the first token. -/
theorem reset (h : Follows source r t) : Follows source r.reset t.reset := by
  obtain ⟨rfl, htape, hstream, -, -, -⟩ := h
  exact ⟨rfl, htape, hstream, hstream.symm, Nat.zero_le _, rfl⟩

/-- **A reader follows its tape** whatever is asked of both: `Follows` is a simulation. -/
theorem simulation (source : String) : Simulation (Follows source) where
  nextToken := nextToken
  next? := next?
  collect := collect
  reset := reset
  text h := h.source_reader.trans h.source_tape.symm

end Follows

/-- At the end, `nextToken` gives the same token again and leaves the reader as it is. -/
private theorem nextToken_nextToken_of_end {r : Reader} (h : r.nextToken.1.kind = .endOfInput) :
    r.nextToken.2.nextToken = r.nextToken := by
  have hread : r.cursor.read? = none := by
    cases hr : r.cursor.read? with
    | none => rfl
    | some p =>
      have hkind := Cursor.kind_ne_of_read? (t := p.1) (d := p.2) hr
      have hnext : r.cursor.next = p := by rw [Cursor.next, hr]
      have htoken : r.cursor.next.1.kind = .endOfInput := h
      rw [hnext] at htoken
      exact absurd htoken hkind
  have hnext : r.cursor.next = (.endOfInput r.cursor.skipTrivia.pos,
      ⟨[], r.cursor.skipTrivia.pos, .body⟩) := by
    rw [Cursor.next, hread]
  have hself : r.nextToken = (.endOfInput r.cursor.skipTrivia.pos,
      { r with cursor := ⟨[], r.cursor.skipTrivia.pos, .body⟩ }) := by
    rw [nextToken, hnext]
  rw [hself]
  rfl

/-- **A reader is an index into the tokens of its text**, for every sequence of calls: one reader
gives the answers of one `Tape` (`run`), and readers that are cloned from one another give the
answers of tapes that are (`runCalls`). The tokens of the tape are those that a new reader
collects, and what the tape collects is what it hands out token by token. In particular, at the end
the same token comes again and again, and reading it does not end the pass. -/
theorem run_eq_run_tape (source : String) :
    (Tape.ofString source).stream.toList = (ofString source).collect.1 ∧
    (∀ cs, Session.run ⟨ofString source, []⟩ cs = Session.run ⟨Tape.ofString source, []⟩ cs) ∧
    (∀ calls, Session.runCalls (fun _ => ⟨ofString source, []⟩) calls =
      Session.runCalls (fun _ => ⟨Tape.ofString source, []⟩) calls) ∧
    (∀ t : Tape, t.stream = tokenize source → t.index ≤ t.stream.tokens.length →
      t.collect = match t.next? with
        | (none, t') => ([], t')
        | (some u, t') => (u :: t'.collect.1, t'.collect.2)) ∧
    ∀ r : Reader, r.nextToken.2.exhausted = r.exhausted ∧
      (r.nextToken.1.kind = .endOfInput → r.nextToken.2.nextToken = r.nextToken) := by
  have hsim := Follows.simulation source
  have hstart :
      Session.Related (Follows source) ⟨ofString source, []⟩ ⟨Tape.ofString source, []⟩ :=
    ⟨follows_ofString source, .nil⟩
  refine ⟨?_, fun cs => ?_, fun calls => ?_, fun t ht hi => ?_, fun r => ⟨rfl, ?_⟩⟩
  · exact (collect_fst (r := ofString source) rfl).symm
  · exact hstart.run hsim cs
  · exact Session.runCalls_eq hsim (fun _ => hstart) calls
  · refine Tape.collect_eq hi fun u hu => ?_
    rw [ht] at hu
    exact Cursor.kind_ne_endOfInput_of_mem hu
  · exact nextToken_nextToken_of_end

/-- Two readers of a lone method. The second is cloned from the first after that method, and it
still has the end before it when the first one has ended its pass. -/
theorem run_of_lone_method :
    Session.runCalls (fun _ => ⟨ofString "GET", []⟩)
      [.ask 0 .next, .clone 0 1, .ask 0 .collect, .ask 0 .next, .ask 0 .nextToken, .ask 1 .next,
        .ask 1 .next, .ask 1 .reset, .ask 1 (.nth 1)] =
      [some (.token (some ⟨.get, "GET", 0, ⟨0, 3⟩⟩)), none,
        some (.tokens [⟨.endOfInput, "", 0, ⟨3, 3⟩⟩]), some (.token none),
        some (.token (some ⟨.endOfInput, "", 0, ⟨3, 3⟩⟩)),
        some (.token (some ⟨.endOfInput, "", 0, ⟨3, 3⟩⟩)), some (.token none), some .atStart,
        some (.token (some ⟨.endOfInput, "", 0, ⟨3, 3⟩⟩))] ∧
    (Tape.ofString "GET").collect = (match (Tape.ofString "GET").next? with
      | (none, t') => ([], t')
      | (some u, t') => (u :: t'.collect.1, t'.collect.2)) ∧
    ((ofString "GET").discard 1).nextToken.1.kind = .endOfInput ∧
    ((ofString "GET").discard 1).nextToken.2.nextToken =
      ((ofString "GET").discard 1).nextToken := by
  obtain ⟨-, -, hcalls, htape, hreader⟩ := run_eq_run_tape "GET"
  have hend : ((ofString "GET").discard 1).nextToken.1.kind = .endOfInput := by decide +kernel
  refine ⟨?_, htape _ rfl (Nat.zero_le _), hend, (hreader _).2 hend⟩
  rw [hcalls]
  decide +kernel

end Reader

end RequestScript
