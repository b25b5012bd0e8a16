import RequestScript.Proofs.Grammar.Trees
import RequestScript.Proofs.Token.Shift
import RequestScript.Script.Relocate

/-!
# The grammar does not look at positions

Moving the tokens of a node moves its spans, and nothing else. This holds in both directions:

* **moved tokens make up the moved node** (`IsField.relocate` up to `IsScript.relocate`), and
* **what moved tokens make up is a moved node** (`IsField.exists_of_map` up to
  `IsScript.exists_of_map`).

Tokens must not be empty, since a response whose marker is empty counts as absent, and absent
responses are not moved.
-/

namespace RequestScript

/-- Moved tokens span what their span is moved to: `Span.ofTokens` commutes with
`Token.relocate`. -/
theorem Span.ofTokens_map (g l : Nat → Nat) {ts : List Token} (h : ts ≠ []) :
    ofTokens (ts.map (Token.relocate g l)) = (ofTokens ts).map g := by
  have hfirst := List.head?_eq_some_head h
  have hlast := List.getLast?_eq_some_getLast h
  simp [ofTokens, Span.map, List.head?_map, List.getLast?_map, hfirst, hlast]

namespace Grammar

variable {g l : Nat → Nat} {t : Token} {ts us : List Token}

/-! ### Single tokens -/

private theorem isKey_relocate_iff {key : String} :
    IsKey (t.relocate g l) key ↔ IsKey t key := Iff.rfl

private theorem isValue_relocate_iff : IsValue (t.relocate g l) ↔ IsValue t := Iff.rfl

private theorem isStatus_relocate_iff {code : UInt16} :
    IsStatus (t.relocate g l) code ↔ IsStatus t code :=
  Iff.rfl

private theorem meets_relocate_iff {e : Expectation} : Meets (t.relocate g l) e ↔ Meets t e := by
  cases e <;> rfl

/-- A present response is moved: its marker, the `literal` of a token, is not empty. -/
private theorem relocate_present {m : Token} {code : UInt16} {captures : List Field} {span : Span}
    (hm : m.literal ≠ "") :
    (⟨m.literal, code, captures, span⟩ : Response).relocate g =
      ⟨m.literal, code, captures.map (Field.relocate g), span.map g⟩ :=
  if_pos (by simpa [Response.isPresent] using hm)

/-! ### Moved tokens make up moved nodes -/

theorem IsField.relocate {f : Field} (h : IsField ts f) :
    IsField (ts.map (Token.relocate g l)) (f.relocate g) := by
  cases h with
  | intro hk hv => exact .intro (isKey_relocate_iff.mpr hk) (isValue_relocate_iff.mpr hv)

theorem AreFields.relocate {fs : List Field} (h : AreFields ts fs) :
    AreFields (ts.map (Token.relocate g l)) (fs.map (Field.relocate g)) := by
  induction h with
  | nil => exact .nil
  | cons hf _ ih =>
    rw [List.map_append]
    exact .cons hf.relocate ih

theorem IsRequest.relocate {r : Request} (h : IsRequest ts r) :
    IsRequest (ts.map (Token.relocate g l)) (r.relocate g) := by
  cases h with
  | @intro m u us headers hm hu hs =>
    rw [Request.relocate, ← Span.ofTokens_map g l (List.cons_ne_nil m (u :: us))]
    exact .intro (meets_relocate_iff.mpr hm) (meets_relocate_iff.mpr hu) hs.relocate

theorem IsResponse.relocate {s : Response} (h : IsResponse ts s) (hl : ∀ t ∈ ts, t.literal ≠ "") :
    IsResponse (ts.map (Token.relocate g l)) (s.relocate g) := by
  cases h with
  | absent => exact .absent
  | @plain m c code hm hc =>
    rw [relocate_present (hl m (by simp)), ← Span.ofTokens_map g l (List.cons_ne_nil m [c])]
    exact .plain hm (isStatus_relocate_iff.mpr hc)
  | @capturing m c a code us captures hm hc ha hf =>
    rw [relocate_present (hl m (by simp)),
      ← Span.ofTokens_map g l (List.cons_ne_nil m (c :: a :: us))]
    exact .capturing hm (isStatus_relocate_iff.mpr hc) ha hf.relocate

theorem IsEntry.relocate {e : Entry} (h : IsEntry ts e) (hl : ∀ t ∈ ts, t.literal ≠ "") :
    IsEntry (ts.map (Token.relocate g l)) (e.relocate g) := by
  cases h with
  | @intro us vs r s hr hs =>
    have hne : us ++ vs ≠ [] := List.append_ne_nil_of_left_ne_nil hr.ne_nil vs
    rw [Entry.relocate, ← Span.ofTokens_map g l hne, List.map_append]
    exact .intro hr.relocate (hs.relocate fun t ht => hl t (List.mem_append_right us ht))

theorem AreEntries.relocate {es : List Entry} (h : AreEntries ts es)
    (hl : ∀ t ∈ ts, t.literal ≠ "") :
    AreEntries (ts.map (Token.relocate g l)) (es.map (Entry.relocate g)) := by
  induction h with
  | nil => exact .nil
  | cons he _ ih =>
    rw [List.map_append]
    exact .cons (he.relocate fun t ht => hl t (List.mem_append_left _ ht))
      (ih fun t ht => hl t (List.mem_append_right _ ht))

/-- **Moved tokens make up the moved script**: `IsScript` is kept by `Token.relocate`. -/
theorem IsScript.relocate {s : Script} (h : IsScript ts s) (hl : ∀ t ∈ ts, t.literal ≠ "") :
    IsScript (ts.map (Token.relocate g l)) (s.relocate g) := by
  have hts := h.ne_nil
  cases h with
  | intro hes hne =>
    rw [Script.relocate, ← Span.ofTokens_map g l hts]
    exact .intro (hes.relocate hl) (by simpa using hne)

/-! ### What moved tokens make up is moved -/

private theorem IsField.exists_of_map {f : Field} (h : IsField (ts.map (Token.relocate g l)) f) :
    ∃ f', IsField ts f' ∧ f = f'.relocate g := by
  generalize hus : ts.map (Token.relocate g l) = us at h
  cases h with
  | @intro k v key hk hv =>
    obtain ⟨k, ts, rfl, rfl, hts⟩ := List.map_eq_cons_iff.mp hus
    obtain ⟨v, rfl, rfl⟩ := List.map_eq_singleton_iff.mp hts
    exact ⟨_, .intro (isKey_relocate_iff.mp hk) (isValue_relocate_iff.mp hv), rfl⟩

private theorem AreFields.exists_of_map {fs : List Field}
    (h : AreFields (ts.map (Token.relocate g l)) fs) :
    ∃ fs', AreFields ts fs' ∧ fs = fs'.map (Field.relocate g) := by
  generalize hus : ts.map (Token.relocate g l) = us at h
  induction h generalizing ts with
  | nil =>
    obtain rfl := List.map_eq_nil_iff.mp hus
    exact ⟨[], .nil, rfl⟩
  | cons hf _ ih =>
    obtain ⟨as, bs, rfl, rfl, rfl⟩ := List.map_eq_append_iff.mp hus
    obtain ⟨f', hf', rfl⟩ := hf.exists_of_map
    obtain ⟨fs', hfs', rfl⟩ := ih rfl
    exact ⟨f' :: fs', .cons hf' hfs', rfl⟩

private theorem IsRequest.exists_of_map {r : Request}
    (h : IsRequest (ts.map (Token.relocate g l)) r) :
    ∃ r', IsRequest ts r' ∧ r = r'.relocate g := by
  generalize hus : ts.map (Token.relocate g l) = us at h
  cases h with
  | @intro m u vs headers hm hu hs =>
    obtain ⟨m, ts, rfl, rfl, hts⟩ := List.map_eq_cons_iff.mp hus
    obtain ⟨u, ts, rfl, rfl, rfl⟩ := List.map_eq_cons_iff.mp hts
    obtain ⟨headers, hs', rfl⟩ := hs.exists_of_map
    refine ⟨_, .intro (meets_relocate_iff.mp hm) (meets_relocate_iff.mp hu) hs', ?_⟩
    rw [Request.relocate, ← Span.ofTokens_map g l (List.cons_ne_nil m (u :: ts))]
    rfl

private theorem IsResponse.exists_of_map {s : Response}
    (h : IsResponse (ts.map (Token.relocate g l)) s) (hl : ∀ t ∈ ts, t.literal ≠ "") :
    ∃ s', IsResponse ts s' ∧ s = s'.relocate g := by
  generalize hus : ts.map (Token.relocate g l) = us at h
  cases h with
  | absent =>
    obtain rfl := List.map_eq_nil_iff.mp hus
    exact ⟨{}, .absent, rfl⟩
  | @plain m c code hm hc =>
    obtain ⟨m, ts, rfl, rfl, hts⟩ := List.map_eq_cons_iff.mp hus
    obtain ⟨c, rfl, rfl⟩ := List.map_eq_singleton_iff.mp hts
    refine ⟨_, .plain hm (isStatus_relocate_iff.mp hc), ?_⟩
    rw [relocate_present (hl m (by simp)), ← Span.ofTokens_map g l (List.cons_ne_nil m [c])]
    rfl
  | @capturing m c a code vs captures hm hc ha hf =>
    obtain ⟨m, ts, rfl, rfl, hrest⟩ := List.map_eq_cons_iff.mp hus
    obtain ⟨c, ts, rfl, rfl, htag⟩ := List.map_eq_cons_iff.mp hrest
    obtain ⟨a, ts, rfl, rfl, rfl⟩ := List.map_eq_cons_iff.mp htag
    obtain ⟨captures, hf', rfl⟩ := hf.exists_of_map
    refine ⟨_, .capturing hm (isStatus_relocate_iff.mp hc) ha hf', ?_⟩
    rw [relocate_present (hl m (by simp)),
      ← Span.ofTokens_map g l (List.cons_ne_nil m (c :: a :: ts))]
    rfl

private theorem IsEntry.exists_of_map {e : Entry} (h : IsEntry (ts.map (Token.relocate g l)) e)
    (hl : ∀ t ∈ ts, t.literal ≠ "") : ∃ e', IsEntry ts e' ∧ e = e'.relocate g := by
  generalize hus : ts.map (Token.relocate g l) = us at h
  cases h with
  | intro hr hs =>
    obtain ⟨as, bs, rfl, rfl, rfl⟩ := List.map_eq_append_iff.mp hus
    obtain ⟨r', hr', rfl⟩ := hr.exists_of_map
    obtain ⟨s', hs', rfl⟩ := hs.exists_of_map fun t ht => hl t (List.mem_append_right as ht)
    have hne : as ++ bs ≠ [] := List.append_ne_nil_of_left_ne_nil hr'.ne_nil bs
    refine ⟨_, .intro hr' hs', ?_⟩
    rw [Entry.relocate, ← Span.ofTokens_map g l hne, List.map_append]

theorem AreEntries.exists_of_map {es : List Entry}
    (h : AreEntries (ts.map (Token.relocate g l)) es) (hl : ∀ t ∈ ts, t.literal ≠ "") :
    ∃ es', AreEntries ts es' ∧ es = es'.map (Entry.relocate g) := by
  generalize hus : ts.map (Token.relocate g l) = us at h
  induction h generalizing ts with
  | nil =>
    obtain rfl := List.map_eq_nil_iff.mp hus
    exact ⟨[], .nil, rfl⟩
  | cons he _ ih =>
    obtain ⟨as, bs, rfl, rfl, rfl⟩ := List.map_eq_append_iff.mp hus
    obtain ⟨e', he', rfl⟩ := he.exists_of_map fun t ht => hl t (List.mem_append_left bs ht)
    obtain ⟨es', hes', rfl⟩ := ih (fun t ht => hl t (List.mem_append_right as ht)) rfl
    exact ⟨e' :: es', .cons he' hes', rfl⟩

/-- **What moved tokens make up is a moved script**, the converse of `IsScript.relocate`. -/
theorem IsScript.exists_of_map {s : Script} (h : IsScript (ts.map (Token.relocate g l)) s)
    (hl : ∀ t ∈ ts, t.literal ≠ "") : ∃ s', IsScript ts s' ∧ s = s'.relocate g := by
  have hts : ts ≠ [] := fun hnil => h.ne_nil (by rw [hnil]; rfl)
  cases h with
  | intro hes hne =>
    obtain ⟨es', hes', rfl⟩ := hes.exists_of_map hl
    refine ⟨_, .intro hes' (by simpa using hne), ?_⟩
    rw [Script.relocate, ← Span.ofTokens_map g l hts]

end Grammar

end RequestScript
