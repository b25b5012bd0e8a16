import Mathlib.Logic.Function.Iterate
import RequestScript.Proofs.Parser.Anchors

/-!
# Where a parse stops

A walk takes tokens one after another and leaves one where it stands. Which one that is, is told by
the number of tokens that were taken: what is left of the stream begins after them
(`TokenStream.rest_walk`).

* **Every token is fed once**: what it causes is what some phase does with it, and the walk goes on
  unless that phase leaves it where it stands (`TokenStream.exists_feed`).
* **Tokens that are never taken**: illegal characters (`Phase.next_feed_of_illegal`), as well as
  the end of the text (`Phase.next_feed_of_endOfInput`).
* **The token that is left** is no method, and unless it is the end it has been reported
  (`TokenStream.stop_walk`).

So a parser that is used again stands at a token that opens no entry. It takes no token any more,
and finds the same at that token each time (`Parser.result_iterate_after`).
-/

namespace RequestScript

/-! ### A walk from its first token -/

namespace Phase

variable {p q : Phase} {t : Token}

/-- **What is left** after a walk (`rest`) begins after the tokens that its `steps` took. -/
theorem rest_walk (p : Phase) (stop : Position) (ts : List Token) :
    (p.walk stop ts).steps.length ≤ ts.length ∧
      (p.walk stop ts).rest = ⟨ts.drop (p.walk stop ts).steps.length, stop⟩ := by
  induction ts generalizing p with
  | nil =>
    rw [walk_nil]
    exact ⟨Nat.le_refl 0, rfl⟩
  | cons t ts ih =>
    cases h : (p.feed t).next with
    | none =>
      rw [walk_cons_of_stop h]
      exact ⟨Nat.zero_le _, rfl⟩
    | some q =>
      rw [walk_cons_of_next h]
      obtain ⟨hlen, hrest⟩ := ih q
      exact ⟨Nat.succ_le_succ hlen, hrest⟩

end Phase

/-- What each token caused, that of the token at which the walk stopped as the last. -/
def Walk.causes (w : Walk) : List (List Action) :=
  w.steps ++ [w.last]

/-- **Every token is fed to some phase** `q`, and causes what that phase does with it. The walk
stops at the token that the phase leaves where it stands. -/
private theorem Phase.exists_feed (p : Phase) (stop : Position) {ts : List Token} {i : Nat}
    (h : i ≤ (p.walk stop ts).steps.length) :
    ∃ (q : Phase) (t : Token), (ts ++ [.endOfInput stop])[i]? = some t ∧
      (p.walk stop ts).causes[i]? = some (q.feed t).actions ∧
      ((q.feed t).next = none ↔ i = (p.walk stop ts).steps.length) := by
  induction ts generalizing p i with
  | nil =>
    rw [walk_nil] at h ⊢
    obtain rfl : i = 0 := Nat.le_zero.mp h
    exact ⟨p, .endOfInput stop, rfl, rfl, iff_of_true (p.next_feed_of_endOfInput rfl) rfl⟩
  | cons t ts ih =>
    cases hnext : (p.feed t).next with
    | none =>
      rw [walk_cons_of_stop hnext] at h ⊢
      obtain rfl : i = 0 := Nat.le_zero.mp h
      exact ⟨p, t, rfl, rfl, iff_of_true hnext rfl⟩
    | some q =>
      rw [walk_cons_of_next hnext] at h ⊢
      cases i with
      | zero => exact ⟨p, t, rfl, rfl, iff_of_false (by simp [hnext]) (Nat.succ_ne_zero _).symm⟩
      | succ i =>
        obtain ⟨r, u, hu, hcauses, hstop⟩ := ih q (Nat.le_of_succ_le_succ h)
        exact ⟨r, u, hu, hcauses, hstop.trans Nat.succ_inj.symm⟩

/-! ### Tokens that stop a parse -/

namespace Phase

variable {t : Token}

/-- **An illegal character is taken by no phase**: `next` is `none`, whatever it stands in the
place of. -/
theorem next_feed_of_illegal (p : Phase) (ht : t.kind = .illegal) : (p.feed t).next = none := by
  have houtside : (feedOutside t).next = none := by simp [feedOutside, ht, Token.Kind.isMethod]
  have hv : t.isValue = false := by simp [Token.isValue, ht]
  cases p <;>
    simp [feed, feedUrl, feedHeaders, feedResponse, feedStatus, feedTag, feedCaptures, feedClosing,
      ht, hv, houtside]

/-- A token that `feedOutside` leaves where it stands is no method, and it is reported unless it is
the end. -/
private theorem stop_feedOutside (h : (feedOutside t).next = none) :
    t.kind.isMethod = false ∧
      (t.kind ≠ .endOfInput → .report (.unexpected t .method) ∈ (feedOutside t).actions) := by
  rw [feedOutside] at h ⊢
  split at h
  · cases h
  · next hm =>
    refine ⟨by simpa using hm, fun ht => ?_⟩
    rw [if_neg hm, if_neg ht]
    exact List.mem_singleton_self _

/-- The same holds within an entry, which is closed before, for all reactions that are `Alike`. -/
theorem stop_of_alike {u : Token} {r s : Reaction} (ha : Reaction.Alike t u r s)
    (h : r.next = none) :
    t.kind.isMethod = false ∧
      (t.kind ≠ .endOfInput → .report (.unexpected t .method) ∈ r.actions) := by
  induction ha with
  | take => cases h
  | close e f =>
    obtain ⟨hm, hreport⟩ := stop_feedOutside h
    exact ⟨hm, fun ht => List.mem_cons_of_mem _ (hreport ht)⟩
  | report _ e ih =>
    obtain ⟨hm, hreport⟩ := ih h
    exact ⟨hm, fun ht => List.mem_cons_of_mem _ (hreport ht)⟩

/-- **A token that is left where it stands** is no method, and it is reported unless it is the
end. -/
theorem stop_feed {p : Phase} (h : (p.feed t).next = none) :
    t.kind.isMethod = false ∧
      (t.kind ≠ .endOfInput → .report (.unexpected t .method) ∈ (p.feed t).actions) := by
  rcases p.outside_or_alike_self t with rfl | ha
  · exact stop_feedOutside h
  · exact stop_of_alike ha h

end Phase

/-! ### The walk over a stream -/

namespace TokenStream

variable (s : TokenStream)

/-- `TokenStream.get` is indexing, with the end as the last token. -/
private theorem get_of_toList {s : TokenStream} {i : Nat} {t : Token} (h : s.toList[i]? = some t) :
    s.get i = t := by
  rw [toList, List.getElem?_append] at h
  split at h
  · rw [get, h, Option.getD_some]
  · next hi =>
    rw [get_of_length_le (Nat.le_of_not_lt hi)]
    exact (List.mem_singleton.mp (List.mem_of_getElem? h)).symm

theorem length_steps_walk_le : s.walk.steps.length ≤ s.tokens.length :=
  (Phase.rest_walk _ _ _).1

/-- **What is left of a stream** begins after the tokens that the `steps` of its walk took. -/
theorem rest_walk : s.walk.rest = s.drop s.walk.steps.length :=
  (Phase.rest_walk _ _ _).2

variable {s}

/-- **Every token of a stream is fed to some phase**, up to the one that is left where it
stands. -/
theorem exists_feed {i : Nat} (h : i ≤ s.walk.steps.length) :
    ∃ q : Phase, s.walk.causes[i]? = some (q.feed (s.get i)).actions ∧
      ((q.feed (s.get i)).next = none ↔ i = s.walk.steps.length) := by
  obtain ⟨q, t, ht, hcauses, hstop⟩ := Phase.exists_feed .outside s.stop h
  obtain rfl := get_of_toList ht
  exact ⟨q, hcauses, hstop⟩

/-- **No token that is taken** by the `steps` of a walk is the end of the text or an illegal
character. -/
theorem kind_get_of_lt {i : Nat} (h : i < s.walk.steps.length) :
    (s.get i).kind ≠ .endOfInput ∧ (s.get i).kind ≠ .illegal := by
  obtain ⟨q, -, hstop⟩ := exists_feed (Nat.le_of_lt h)
  have hnext : (q.feed (s.get i)).next ≠ none := fun hn => Nat.ne_of_lt h (hstop.mp hn)
  exact ⟨fun hk => hnext (q.next_feed_of_endOfInput hk),
    fun hk => hnext (q.next_feed_of_illegal hk)⟩

/-- **The token at which a walk stops** (`rest`) is no method, and it is reported unless it is the
end. -/
theorem stop_walk :
    s.walk.rest.current.kind.isMethod = false ∧
      (s.walk.rest.current.kind ≠ .endOfInput →
        .report (.unexpected s.walk.rest.current .method) ∈ s.walk.last) := by
  obtain ⟨q, hcauses, hstop⟩ := exists_feed (Nat.le_refl s.walk.steps.length)
  have hlast : s.walk.last = (q.feed (s.get s.walk.steps.length)).actions := by
    simpa [Walk.causes] using hcauses
  rw [rest_walk, current_drop, hlast]
  exact Phase.stop_feed (hstop.mpr rfl)

end TokenStream

/-! ### Parsing again -/

namespace Parser

/-- What a parse finds at the token `t` if no entry is opened there. -/
def findingsAt (t : Token) : List Diagnostic :=
  if t.kind = .endOfInput then [.noRequest t] else [.unexpected t .method, .noRequest t]

/-- At a token that opens no entry, a parse takes no token and has only the `findingsAt` that
token. -/
private theorem after_of_not_isMethod {p : Parser} (h : p.stream.current.kind.isMethod = false) :
    p.after = ⟨p.file, p.stream, p.diagnostics ++ findingsAt p.stream.current⟩ := by
  have hfindings : p.stream.walk.findings = findingsAt p.stream.current := by
    rw [TokenStream.findings_walk_of_not_isMethod h, findingsAt]
    split <;> rfl
  rw [after, hfindings, TokenStream.walk_of_not_isMethod h]

/-- **A parser that is used again** stays where `after` has left it, and each time finds what there
is at that token (`findingsAt`). -/
theorem iterate_after (p : Parser) (m : Nat) :
    after^[m + 1] p = ⟨p.file, p.after.stream, p.after.diagnostics ++
      (List.replicate m (findingsAt p.after.stream.current)).flatten⟩ := by
  induction m with
  | zero =>
    rw [List.replicate_zero, List.flatten_nil, List.append_nil]
    rfl
  | succ m ih =>
    rw [Function.iterate_succ_apply', ih, after_of_not_isMethod TokenStream.stop_walk.1,
      List.replicate_succ', List.flatten_concat, List.append_assoc]

/-- A parse that finds something wrong is rejected with the diagnostics that it has `after`. -/
private theorem result_eq_error {p : Parser} (h : p.after.diagnostics ≠ []) :
    p.result = .error ⟨p.file, p.after.diagnostics⟩ :=
  if_neg (by simpa using h)

/-- **Only the first parse can succeed.** Whatever text a parser reads, and however much of it was
read before, its first parse (`after`) ends at a token that is no method. Every later one takes no
token (its `steps` are empty) and is rejected with all diagnostics so far: to those of the first,
each adds the `findingsAt` this token, namely that it is no method, unless it is the end, and that
there is no request. -/
theorem result_iterate_after (p : Parser) :
    p.after.stream.current.kind.isMethod = false ∧
      ∀ m, (after^[m + 1] p).stream = p.after.stream ∧
        (after^[m + 1] p).stream.walk.steps = [] ∧
        (after^[m + 1] p).diagnostics = p.after.diagnostics ++
          (List.replicate m (findingsAt p.after.stream.current)).flatten ∧
        (after^[m + 1] p).result = .error ⟨p.file, (after^[m + 2] p).diagnostics⟩ := by
  have hstop : p.after.stream.current.kind.isMethod = false := TokenStream.stop_walk.1
  refine ⟨hstop, fun m => ?_⟩
  have hiterate := p.iterate_after m
  have hstream : (after^[m + 1] p).stream = p.after.stream := by rw [hiterate]
  refine ⟨hstream, ?_, by rw [hiterate], ?_⟩
  · rw [hstream, TokenStream.walk_of_not_isMethod hstop]
  · have hfile : (after^[m + 1] p).file = p.file := by rw [hiterate]
    have hnext : after^[m + 2] p = (after^[m + 1] p).after :=
      Function.iterate_succ_apply' after _ p
    have hne : (after^[m + 1] p).after.diagnostics ≠ [] := by
      rw [after_of_not_isMethod (hstream ▸ hstop), findingsAt]
      split <;> simp
    rw [result_eq_error hne, hfile, hnext]

end Parser

end RequestScript
