import Mathlib.Order.Bounds.Basic
import RequestScript.Proofs.Grammar.Recognition

/-!
# The first diagnostic

A parse finds the first fault of a text at the earliest token at which it can be found, and it
names something that could have stood there. Both are said in terms of the grammar: tokens are
`Viable` if they begin a script that is followed by the end of the text.

* Tokens that are passed are viable, since every phase can be brought to an end
  (`Phase.exists_completion`, `Phase.Passes.viable`).
* Tokens up to one that is complained of are not, since the phases accept all scripts and a token
  that is taken is not complained of (`Phase.ComplainsAfter.not_viable`).
-/

namespace RequestScript

open Grammar

namespace Phase

/-! ### Every phase can be brought to an end -/

/-- A word that can stand wherever a URL, a value or a method may. -/
private def sample (w : String) : Token :=
  .ofWord {} w.toList

/-- **A completion** of each phase: tokens after which an entry is complete. -/
def completion : Phase → List Token
  | .outside => [sample "GET", sample "url"]
  | .url _ => [sample "url"]
  | .headerValue .. | .captureValue .. => [sample "value"]
  | .status .. => [sample "200"]
  | .headers _ | .tag .. | .captures .. | .closing _ => []

/-- The `completion` of a phase is passed, and an entry is then complete. -/
private theorem exists_completion (p : Phase) :
    ∃ es q es', p.Passes p.completion es q ∧ q.Ends es' ∧ es' ≠ [] := by
  have hvalue : IsValue (sample "value") := isValue_iff.mpr (by decide)
  have hurl : Meets (sample "url") .url := by simp only [Meets]; decide
  cases p with
  | outside =>
    have hm : Meets (sample "GET") .method := by simp only [Meets]; decide
    exact ⟨_, _, _, (Takes.method .outside hm).passes.append (Takes.url hurl).passes, .headers,
      by simp⟩
  | url m => exact ⟨_, _, _, (Takes.url hurl).passes, .headers, by simp⟩
  | headers r => exact ⟨_, _, _, .nil, .headers, by simp⟩
  | headerValue r key start =>
    exact ⟨_, _, _, (Takes.headerValue hvalue).passes, .headers, by simp⟩
  | status r m =>
    have hs : IsStatus (sample "200") 200 := isStatus_iff.mpr (by decide)
    exact ⟨_, _, _, (Takes.status hs).passes, .tag, by simp⟩
  | tag r s => exact ⟨_, _, _, .nil, .tag, by simp⟩
  | captures r s => exact ⟨_, _, _, .nil, .captures, by simp⟩
  | captureValue r s key start =>
    exact ⟨_, _, _, (Takes.captureValue hvalue).passes, .captures, by simp⟩
  | closing e => exact ⟨_, _, _, .nil, .closing, by simp⟩

/-! ### Viable tokens -/

variable {p q : Phase} {t : Token} {ts us : List Token} {es : List Entry}

/-- Scripts are accepted by the phase `outside`. -/
private theorem exists_accepts {s : Script} (h : IsScript ts s) :
    ∃ fs, Phase.outside.Accepts ts fs := by
  obtain ⟨fs, hfs, -⟩ := isScript_iff.mp h
  exact ⟨_, accepts_outside_iff.mpr ⟨fs, hfs, rfl⟩⟩

/-- **Tokens that are passed are viable** (`Viable`): their `completion` makes a script of them. -/
theorem Passes.viable (h : Phase.outside.Passes ts es q) : Viable ts := by
  obtain ⟨es₁, r, es₂, hc, hr, hne⟩ := q.exists_completion
  obtain ⟨fs, hfs, heq⟩ := accepts_outside_iff.mp ⟨_, r, es₂, h.append hc, hr, rfl⟩
  refine ⟨ts ++ q.completion, .ofEntries fs, {}, isScript_iff.mpr ⟨fs, hfs, ?_, rfl⟩, ?_⟩
  · rintro rfl
    simp [hne] at heq
  · rw [List.append_assoc]
    exact List.prefix_append ..

private theorem Passes.takes (h : p.Passes [t] es q) : p.Takes t es q := by
  cases h with
  | cons ht hts =>
    cases hts
    simpa using ht

/-- **Tokens up to one that is complained of** (`ComplainsAfter`) **are not viable.** -/
theorem ComplainsAfter.not_viable {e : Expectation} (h : Phase.outside.ComplainsAfter us t e) :
    ¬ Viable (us ++ [t]) := by
  obtain ⟨es, q, hp, hc, -⟩ := h
  rintro ⟨ws, s, stop, hs, hpre⟩
  obtain ⟨fs, es₁, r, es₂, hws, hr, -⟩ := exists_accepts hs
  rcases List.prefix_concat_iff.mp hpre with heq | ⟨rest, rfl⟩
  · -- the script ends before the token
    obtain ⟨rfl, ht⟩ := List.append_inj' heq rfl
    obtain ⟨-, rfl⟩ := hp.unique hws
    obtain rfl := List.singleton_inj.mp ht
    exact hc.not_ends rfl hr
  · -- the script goes on with the token
    obtain ⟨_, _, _, hut, -, -⟩ := hws.exists_of_append
    obtain ⟨_, q', _, hu, ht, -⟩ := hut.exists_of_append
    obtain ⟨-, rfl⟩ := hp.unique hu
    exact hc.not_takes ht.takes

/-- No script is empty. -/
private theorem not_viable_endOfInput (stop : Position) : ¬ Viable [.endOfInput stop] := by
  rintro ⟨ws, s, stop', hs, hpre⟩
  obtain ⟨fs, es₁, q, es₂, hws, -⟩ := exists_accepts hs
  obtain ⟨w, ws, rfl⟩ := List.exists_cons_of_ne_nil hs.ne_nil
  cases hws with
  | @cons _ r _ _ _ es _ hw _ =>
    obtain ⟨rfl, -⟩ := List.cons_prefix_cons.mp hpre
    have hnext := Phase.outside.next_feed_of_endOfInput (t := .endOfInput stop) rfl
    simp [hw.feed_eq] at hnext

end Phase

/-! ### The first diagnostic of a parse -/

namespace Phase.ComplainsAfter

variable {us vs : List Token} {t u : Token} {e : Expectation}

/-- **The first token complained of** is the first up to which the tokens are not `Viable`. -/
private theorem isLeast (h : Phase.outside.ComplainsAfter us t e) :
    IsLeast {i | ¬ Viable ((us ++ t :: vs).take (i + 1))} us.length := by
  constructor
  · have hut : (us ++ t :: vs).take (us.length + 1) = us ++ [t] := by
      rw [List.take_length_add_append]
      rfl
    rw [Set.mem_ofPred_eq, hut]
    exact h.not_viable
  · intro j hj
    obtain ⟨es, q, hp, -⟩ := h
    rcases Nat.lt_or_ge j us.length with hlt | hge
    · rw [Set.mem_ofPred_eq, List.take_append_of_le_length hlt] at hj
      rw [← List.take_append_drop (j + 1) us] at hp
      obtain ⟨_, _, _, hpre, -, -⟩ := hp.exists_of_append
      exact absurd hpre.viable hj
    · exact hge

/-- **What is expected could have stood there**: any token that `Meets` the expectation `e` leaves
the tokens viable. -/
private theorem viable_of_meets (h : Phase.outside.ComplainsAfter us t e) (hu : Meets u e) :
    Viable (us ++ [u]) := by
  obtain ⟨es, q, hp, -, ht⟩ := h
  obtain ⟨es', r, hu⟩ := ht u hu
  exact (hp.append hu.passes).viable

end Phase.ComplainsAfter

/-- Without a report, `absence` is found only in a text without tokens. -/
private theorem tokens_eq_nil_of_absence {s : TokenStream} {es : List Entry}
    (ha : Phase.outside.Accepts s.tokens es) (hne : s.walk.absence ≠ []) : s.tokens = [] := by
  have hes : s.walk.entries = es := ha.entries_walk s.stop
  obtain ⟨fs, hfs, heq⟩ := Phase.accepts_outside_iff.mp ha
  have hnil : s.walk.entries = [] := by
    by_contra h
    simp [Walk.absence, h] at hne
  rw [hes, heq, List.map_eq_nil_iff] at hnil
  exact hfs.eq_nil_iff.mpr hnil

/-- **The first diagnostic of a parse** is on the first token that no script of the grammar can
have in its place: the tokens up to it are not `Viable`, counting the end of the text as the last
token. If it says what should have stood there, then the tokens before with any token that `Meets`
it are viable. -/
theorem head_diagnostic_of_parse_eq_error {source : String} {file : Option String}
    {r : Rejection} (h : parse source file = .error r) :
    ∃ (i : Nat) (t : Token) (d : Diagnostic) (ds : List Diagnostic),
      (tokenize source).toList[i]? = some t ∧ r.diagnostics = d :: ds ∧
      IsLeast {i | ¬ Viable ((tokenize source).toList.take (i + 1))} i ∧
      d.line = t.line + 1 ∧ d.literal = t.literal ∧
      ∀ what, d.fault = .expected what → ∃ e : Expectation, e.name = what ∧
        ∀ u, Meets u e → Viable ((tokenize source).toList.take i ++ [u]) := by
  obtain ⟨hd, hne⟩ := Parser.diagnostics_of_result_eq_error rfl h
  change r.diagnostics = (tokenize source).walk.reports ++ (tokenize source).walk.absence at hd
  have hend : ∀ t ∈ (tokenize source).tokens, t.kind ≠ .endOfInput := fun t ht =>
    (Cursor.genuine_of_mem_stream ht).kind_ne_endOfInput
  generalize tokenize source = s at hd hend ⊢
  rcases Phase.outside.accepts_or_complains s.stop hend with
    ⟨es, ha⟩ | ⟨us, t, vs, e, hts, hc⟩
  · -- nothing is reported, so there is no entry, and hence no token
    have hr : s.walk.reports = [] := (Phase.reports_walk_eq_nil_iff hend).mpr ⟨es, ha⟩
    rw [hr, List.nil_append] at hd
    have hnil := tokens_eq_nil_of_absence ha (hd ▸ hne)
    obtain ⟨_, stop⟩ := s
    obtain rfl := hnil
    refine ⟨0, .endOfInput stop, .noRequest (.endOfInput stop), [], rfl, hd, ⟨?_, ?_⟩, rfl, rfl,
      ?_⟩
    · exact Phase.not_viable_endOfInput stop
    · exact fun j _ => Nat.zero_le j
    · intro what hwhat
      cases hwhat
  · -- the first report is on the token that is complained of
    obtain ⟨ds, hr⟩ := hc.exists_reports_walk hts
    have hfirst : r.diagnostics = .unexpected t e :: (ds ++ s.walk.absence) := by
      rw [hd, TokenStream.walk, hr]
      rfl
    have hlist : s.toList = us ++ t :: vs := hts
    rw [hlist]
    refine ⟨us.length, t, _, _, by simp, hfirst, hc.isLeast, rfl, rfl, ?_⟩
    intro what hwhat
    refine ⟨e, ?_, fun u hu => ?_⟩
    · simp only [Diagnostic.unexpected, Diagnostic.ofToken] at hwhat
      split at hwhat
      · cases hwhat
      · exact Fault.expected.inj hwhat
    · rw [List.take_left']
      · exact hc.viable_of_meets hu
      · rfl

/-- A method at the end of a text: the URL is missing there, and any word could have been it. -/
theorem head_diagnostic_of_lone_method :
    ∃ (i : Nat) (t : Token) (d : Diagnostic) (ds : List Diagnostic),
      (tokenize "GET").toList[i]? = some t ∧ [⟨.expected "URL", 1, ""⟩] = d :: ds ∧
      IsLeast {i | ¬ Viable ((tokenize "GET").toList.take (i + 1))} i ∧
      d.line = t.line + 1 ∧ d.literal = t.literal ∧
      ∀ what, d.fault = .expected what → ∃ e : Expectation, e.name = what ∧
        ∀ u, Meets u e → Viable ((tokenize "GET").toList.take i ++ [u]) :=
  have h : parse "GET" none = .error ⟨none, [⟨.expected "URL", 1, ""⟩]⟩ := by decide +kernel
  head_diagnostic_of_parse_eq_error h

end RequestScript
