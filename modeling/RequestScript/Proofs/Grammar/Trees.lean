import Mathlib.Data.List.Forall2
import RequestScript.Grammar

/-!
# The trees of the grammar

How the nodes of a script hang together with their tokens.

* Only an absent response has no tokens, and every other node spans its tokens
  (`IsRequest.span_eq`, `IsEntry.span_eq`, `AreEntries.ofEntries_eq`).
* A node grows at its end, as it does while a text is read (`IsRequest.addHeader`,
  `AreFields.concat`, `AreEntries.concat`).
* An entry is its request and its response put together, where no token is empty
  (`IsEntry.rejoin_eq`). Without that condition the two differ in their spans alone, so a
  marker without a text does not matter to what is derived.
-/

namespace RequestScript

namespace Span

variable {ts us : List Token}

theorem start_ofTokens_append (h : ts ≠ []) (us : List Token) :
    (ofTokens (ts ++ us)).start = (ofTokens ts).start := by
  obtain ⟨t, ts, rfl⟩ := List.exists_cons_of_ne_nil h
  rfl

theorem stop_ofTokens_append (ts : List Token) (h : us ≠ []) :
    (ofTokens (ts ++ us)).stop = (ofTokens us).stop := by
  obtain ⟨u, hu⟩ := Option.isSome_iff_exists.mp (List.getLast?_isSome.mpr h)
  simp [ofTokens, List.getLast?_append, hu]

/-- Two runs of tokens together span from the `start` of the first to the `stop` of the second. -/
theorem ofTokens_append (ht : ts ≠ []) (hu : us ≠ []) :
    ofTokens (ts ++ us) = ⟨(ofTokens ts).start, (ofTokens us).stop⟩ := by
  rw [← start_ofTokens_append ht us, ← stop_ofTokens_append ts hu]

end Span

/-- The entry put together anew from its request and its response. -/
def Entry.rejoin (e : Entry) : Entry :=
  .ofParts e.request e.response

namespace Grammar

variable {ts us : List Token}

/-! ### Tokens and spans of nodes -/

theorem IsField.ne_nil {f : Field} (h : IsField ts f) : ts ≠ [] := by
  cases h
  simp

theorem IsField.span_eq {f : Field} (h : IsField ts f) : f.span = .ofTokens ts := by
  cases h
  rfl

theorem IsRequest.ne_nil {r : Request} (h : IsRequest ts r) : ts ≠ [] := by
  cases h
  simp

theorem IsRequest.span_eq {r : Request} (h : IsRequest ts r) : r.span = .ofTokens ts := by
  cases h
  rfl

theorem IsEntry.ne_nil {e : Entry} (h : IsEntry ts e) : ts ≠ [] := by
  cases h with
  | intro hr => simp [hr.ne_nil]

theorem IsEntry.span_eq {e : Entry} (h : IsEntry ts e) : e.span = .ofTokens ts := by
  cases h
  rfl

/-- Without tokens there are no entries, and the other way round. -/
theorem AreEntries.eq_nil_iff {es : List Entry} (h : AreEntries ts es) : ts = [] ↔ es = [] := by
  cases h with
  | nil => simp
  | cons he => simp [he.ne_nil]

/-- The first token of entries is where the first entry has its `start`. -/
private theorem AreEntries.map_start_head? {es : List Entry} (h : AreEntries ts es) :
    es.head?.map (·.span.start) = ts.head?.map (·.span.start) := by
  cases h with
  | nil => rfl
  | @cons ts us e es he hes =>
    obtain ⟨t, ts, rfl⟩ := List.exists_cons_of_ne_nil he.ne_nil
    simp [he.span_eq, Span.ofTokens]

/-- The last token of entries is where the last entry has its `stop`. -/
private theorem AreEntries.map_stop_getLast? {es : List Entry} (h : AreEntries ts es) :
    es.getLast?.map (·.span.stop) = ts.getLast?.map (·.span.stop) := by
  induction h with
  | nil => rfl
  | @cons ts us e es he hes ih =>
    obtain ⟨t, ht⟩ := Option.isSome_iff_exists.mp (List.getLast?_isSome.mpr he.ne_nil)
    rw [List.getLast?_append, ← List.singleton_append, List.getLast?_append]
    by_cases hn : us = []
    · obtain rfl := hes.eq_nil_iff.mp hn
      simp [hn, he.span_eq, Span.ofTokens, ht]
    · obtain ⟨u, hu⟩ := Option.isSome_iff_exists.mp (List.getLast?_isSome.mpr hn)
      obtain ⟨f, hf⟩ :=
        Option.isSome_iff_exists.mp (List.getLast?_isSome.mpr (mt hes.eq_nil_iff.mpr hn))
      rw [hu, hf] at ih
      simpa [hu, hf] using ih

/-- **Entries span their tokens**: `Script.ofEntries` goes from the first of them to the last. -/
theorem AreEntries.ofEntries_eq {es : List Entry} (h : AreEntries ts es) :
    Script.ofEntries es = ⟨es, .ofTokens ts⟩ := by
  rw [Script.ofEntries, h.map_start_head?, h.map_stop_getLast?]
  rfl

/-- **A script is its entries**: at least one, and the span that `Script.ofEntries` gives them. -/
theorem isScript_iff {s : Script} :
    IsScript ts s ↔ ∃ es, AreEntries ts es ∧ es ≠ [] ∧ s = .ofEntries es := by
  constructor
  · rintro ⟨h, hne⟩
    exact ⟨_, h, hne, h.ofEntries_eq.symm⟩
  · rintro ⟨es, h, hne, rfl⟩
    rw [h.ofEntries_eq]
    exact ⟨h, hne⟩

/-- A script has tokens. -/
theorem IsScript.ne_nil {s : Script} (h : IsScript ts s) : ts ≠ [] := by
  obtain ⟨es, hes, hne, -⟩ := isScript_iff.mp h
  exact mt hes.eq_nil_iff.mp hne

/-! ### The kinds of the tokens of a node -/

/-- The tokens of fields are of the kinds `string` and `number`. -/
private theorem AreFields.kind_of_mem {fs : List Field} (h : AreFields ts fs) {t : Token}
    (ht : t ∈ ts) : t.kind = .string ∨ t.kind = .number := by
  induction h with
  | nil => simp at ht
  | cons hf _ ih =>
    rcases List.mem_append.mp ht with ht | ht
    · cases hf with
      | intro hk hv =>
        simp only [List.mem_cons, List.not_mem_nil, or_false] at ht
        rcases ht with rfl | rfl
        · exact .inl hk.1
        · exact hv.1
    · exact ih ht

/-- The tokens of a response are markers, tags, words and numerals. -/
private theorem IsResponse.kind_of_mem {s : Response} (h : IsResponse ts s) {t : Token}
    (ht : t ∈ ts) : t.kind = .http ∨ t.kind = .capture ∨ t.kind = .string ∨ t.kind = .number := by
  cases h with
  | absent => simp at ht
  | plain hm hs =>
    simp only [List.mem_cons, List.not_mem_nil, or_false] at ht
    rcases ht with rfl | rfl
    · exact .inl hm
    · exact .inr (.inr (.inr hs.1))
  | capturing hm hs hc hf =>
    simp only [List.mem_cons] at ht
    rcases ht with rfl | rfl | rfl | ht
    · exact .inl hm
    · exact .inr (.inr (.inr hs.1))
    · exact .inr (.inl hc)
    · exact .inr (.inr (hf.kind_of_mem ht))

/-- **An entry begins with its only method** `m`, and none of its tokens is illegal. -/
theorem IsEntry.exists_method {e : Entry} (h : IsEntry ts e) :
    ∃ m us, ts = m :: us ∧ Meets m .method ∧
      ∀ u ∈ us, ¬ Meets u .method ∧ u.kind ≠ .illegal := by
  cases h with
  | intro hr hs =>
    cases hr with
    | intro hm hu hf =>
      refine ⟨_, _, rfl, hm, fun t ht => ?_⟩
      rcases List.mem_cons.mp ht with rfl | ht
      · simp only [Meets] at hu
        simp [Meets, hu]
      · rcases List.mem_append.mp ht with ht | ht
        · rcases hf.kind_of_mem ht with hk | hk <;> simp [Meets, hk]
        · rcases hs.kind_of_mem ht with hk | hk | hk | hk <;> simp [Meets, hk]

/-- No token of entries is illegal. -/
theorem AreEntries.kind_ne_illegal {es : List Entry} (h : AreEntries ts es) {t : Token}
    (ht : t ∈ ts) : t.kind ≠ .illegal := by
  induction h with
  | nil => simp at ht
  | cons he _ ih =>
    rcases List.mem_append.mp ht with ht | ht
    · obtain ⟨m, us, rfl, hm, hus⟩ := he.exists_method
      rcases List.mem_cons.mp ht with rfl | ht
      · rcases hm with hk | hk <;> simp [hk]
      · exact (hus t ht).2
    · exact ih ht

/-! ### Parts of the tokens -/

/-- The tokens of fields fall into parts `tss`, one for each field. -/
theorem AreFields.exists_parts {fs : List Field} (h : AreFields ts fs) :
    ∃ tss : List (List Token), tss.flatten = ts ∧ (∀ us ∈ tss, us ≠ []) ∧
      fs.map (·.span) = tss.map .ofTokens := by
  induction h with
  | nil => exact ⟨[], rfl, by simp, rfl⟩
  | cons hf _ ih =>
    obtain ⟨tss, rfl, hne, hspan⟩ := ih
    refine ⟨_ :: tss, rfl, ?_, ?_⟩
    · simpa using ⟨hf.ne_nil, hne⟩
    · rw [List.map_cons, List.map_cons, hf.span_eq, hspan]

/-- **The tokens of entries fall into `blocks`**, one for each entry. -/
theorem AreEntries.exists_blocks {es : List Entry} (h : AreEntries ts es) :
    ∃ blocks : List (List Token), blocks.flatten = ts ∧ (∀ us ∈ blocks, us ≠ []) ∧
      es.map (·.span) = blocks.map .ofTokens ∧ List.Forall₂ IsEntry blocks es := by
  induction h with
  | nil => exact ⟨[], rfl, by simp, rfl, .nil⟩
  | cons he _ ih =>
    obtain ⟨blocks, rfl, hne, hspan, hb⟩ := ih
    refine ⟨_ :: blocks, rfl, ?_, ?_, .cons he hb⟩
    · simpa using ⟨he.ne_nil, hne⟩
    · rw [List.map_cons, List.map_cons, he.span_eq, hspan]

/-! ### Nodes grow at their end -/

theorem AreFields.concat {fs : List Field} {f : Field} (h : AreFields ts fs)
    (hf : IsField us f) : AreFields (ts ++ us) (fs ++ [f]) := by
  induction h with
  | nil => simpa using AreFields.cons hf .nil
  | cons hg _ ih =>
    rw [List.append_assoc]
    exact .cons hg ih

theorem AreEntries.concat {es : List Entry} {e : Entry} (h : AreEntries ts es)
    (he : IsEntry us e) : AreEntries (ts ++ us) (es ++ [e]) := by
  induction h with
  | nil => simpa using AreEntries.cons he .nil
  | cons hg _ ih =>
    rw [List.append_assoc]
    exact .cons hg ih

/-- **A request with one more header** (`Request.addHeader`) is a request. -/
theorem IsRequest.addHeader {r : Request} {f : Field} (h : IsRequest ts r) (hf : IsField us f) :
    IsRequest (ts ++ us) (r.addHeader f) := by
  cases h with
  | @intro m u vs headers hm hu hs =>
    have hspan : (⟨(Span.ofTokens (m :: u :: vs)).start, f.span.stop⟩ : Span) =
        .ofTokens (m :: u :: (vs ++ us)) := by
      rw [hf.span_eq, ← Span.ofTokens_append (by simp) hf.ne_nil]
      rfl
    have := IsRequest.intro hm hu (hs.concat hf)
    rwa [← hspan] at this

/-- A response with a tag spans its tokens after one more capture, too. -/
theorem IsResponse.addCapture_eq {h s c : Token} {code : UInt16} {fs : List Field} {f : Field}
    (hf : IsField us f) :
    ({ protocol := h.literal, status := code, captures := fs,
        span := .ofTokens (h :: s :: c :: ts) } : Response).addCapture f =
      { protocol := h.literal, status := code, captures := fs ++ [f],
        span := .ofTokens (h :: s :: c :: (ts ++ us)) } := by
  have hspan : (⟨(Span.ofTokens (h :: s :: c :: ts)).start, f.span.stop⟩ : Span) =
      .ofTokens (h :: s :: c :: (ts ++ us)) := by
    rw [hf.span_eq, ← Span.ofTokens_append (by simp) hf.ne_nil]
    rfl
  rw [Response.addCapture, hspan]

/-! ### Entries and their parts -/

/-- A response is present (`isPresent`) if it has tokens, and a marker that is not empty. -/
theorem IsResponse.isPresent_iff {s : Response} (h : IsResponse ts s)
    (hl : ∀ t ∈ ts, t.literal ≠ "") : s.isPresent = true ↔ ts ≠ [] := by
  cases h with
  | absent => simp [Response.isPresent]
  | @plain m => simpa [Response.isPresent] using hl m (by simp)
  | @capturing m => simpa [Response.isPresent] using hl m (by simp)

theorem IsResponse.span_eq {s : Response} (h : IsResponse ts s) : s.span = .ofTokens ts := by
  cases h <;> rfl

/-- **An entry is its parts put together** (`Entry.rejoin`), where no token is empty. -/
theorem IsEntry.rejoin_eq {e : Entry} (h : IsEntry ts e) (hl : ∀ t ∈ ts, t.literal ≠ "") :
    e.rejoin = e := by
  cases h with
  | @intro ts us r s hr hs =>
    have hp := hs.isPresent_iff fun t ht => hl t (List.mem_append_right ts ht)
    rw [Entry.rejoin, Entry.ofParts, Entry.mk.injEq]
    refine ⟨rfl, rfl, ?_⟩
    rw [hr.span_eq, hs.span_eq]
    -- the entry stops with its response if there is one, and with its request otherwise
    by_cases hu : us = []
    · rw [if_neg (by simpa [hp] using hu), hu, List.append_nil]
    · rw [if_pos (hp.mpr hu), Span.ofTokens_append hr.ne_nil hu]

theorem AreEntries.map_rejoin_eq {es : List Entry} (h : AreEntries ts es)
    (hl : ∀ t ∈ ts, t.literal ≠ "") : es.map Entry.rejoin = es := by
  induction h with
  | nil => rfl
  | cons he _ ih =>
    rw [List.map_cons, he.rejoin_eq fun t ht => hl t (List.mem_append_left _ ht),
      ih fun t ht => hl t (List.mem_append_right _ ht)]

end Grammar

end RequestScript
