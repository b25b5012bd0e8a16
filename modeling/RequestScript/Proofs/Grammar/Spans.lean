import RequestScript.Proofs.Grammar.Trees
import RequestScript.Proofs.Token.Layout

/-!
# Spans of runs of tokens

The nodes of a script span runs of tokens. Tokens that are **laid out** in a text are ordered, and
each covers its own text (`LaidOut`). Then the same holds of runs of them: a run encloses its
tokens and no others (`LaidOut.enclosed`, `LaidOut.filter_encloses`), runs that follow each other
have ordered spans (`LaidOut.ordered_runs`), and a run shows the text from its first token to its
last (`LaidOut.shows`).
-/

namespace RequestScript

namespace Span

/-- The span `t` lies inside the span `s`. -/
def encloses (s t : Span) : Bool :=
  decide (s.start ≤ t.start ∧ t.stop ≤ s.stop)

theorem encloses_iff {s t : Span} : s.encloses t = true ↔ s.start ≤ t.start ∧ t.stop ≤ s.stop :=
  decide_eq_true_iff

theorem ordered_append_iff {ss ts : List Span} :
    Ordered (ss ++ ts) ↔ Ordered ss ∧ Ordered ts ∧ ∀ s ∈ ss, ∀ t ∈ ts, s.stop < t.start := by
  simp only [Ordered, List.mem_append, List.pairwise_append]
  constructor
  · rintro ⟨hne, hs, ht, hst⟩
    exact ⟨⟨fun s hs => hne s (.inl hs), hs⟩, ⟨fun t ht => hne t (.inr ht), ht⟩, hst⟩
  · rintro ⟨⟨hs, hss⟩, ⟨ht, htt⟩, hst⟩
    exact ⟨fun s h => h.elim (hs s) (ht s), hss, htt, hst⟩

theorem ordered_cons_iff {s : Span} {ts : List Span} :
    Ordered (s :: ts) ↔ s.start < s.stop ∧ Ordered ts ∧ ∀ t ∈ ts, s.stop < t.start := by
  rw [← List.singleton_append, ordered_append_iff]
  simp [Ordered]

theorem start_ofTokens_cons (t : Token) (ts : List Token) :
    (ofTokens (t :: ts)).start = t.span.start := rfl

theorem stop_ofTokens_concat (ts : List Token) (t : Token) :
    (ofTokens (ts ++ [t])).stop = t.span.stop := by
  simp [ofTokens]

/-- Several runs `tss` after `ts` stop with the last of them. -/
theorem stop_ofTokens_flatten (ts : List Token) {tss : List (List Token)}
    (h : ∀ us ∈ tss, us ≠ []) :
    (ofTokens (ts ++ tss.flatten)).stop =
      ((tss.map ofTokens).getLast?.map (·.stop)).getD (ofTokens ts).stop := by
  rcases List.eq_nil_or_concat tss with rfl | ⟨tss, us, rfl⟩
  · simp
  · rw [List.concat_eq_append] at h ⊢
    have hu : us ≠ [] := h us (by simp)
    rw [List.flatten_append, List.flatten_singleton, ← List.append_assoc,
      stop_ofTokens_append _ hu]
    simp

end Span

/-- **Tokens laid out in a text**: they are ordered, and each covers its own text. -/
structure LaidOut (cs : List Char) (ts : List Token) : Prop where
  /-- Each token covers its text. -/
  covers : ∀ t ∈ ts, t.span.Covers cs t.literal.toList
  /-- The tokens are ordered. -/
  ordered : Span.Ordered (ts.map (·.span))

namespace LaidOut

variable {cs : List Char} {ts us : List Token} {t u : Token}

/-- Any `Sublist` of the tokens is laid out too. -/
theorem sublist (h : LaidOut cs ts) (hs : us.Sublist ts) : LaidOut cs us where
  covers t ht := h.covers t (hs.subset ht)
  ordered := by
    have hmap := hs.map (·.span)
    exact ⟨fun s hs => h.ordered.1 s (hmap.subset hs), h.ordered.2.sublist hmap⟩

theorem left (h : LaidOut cs (ts ++ us)) : LaidOut cs ts :=
  h.sublist (List.sublist_append_left ts us)

theorem right (h : LaidOut cs (ts ++ us)) : LaidOut cs us :=
  h.sublist (List.sublist_append_right ts us)

private theorem stop_lt_start (h : LaidOut cs (ts ++ us)) (ht : t ∈ ts) (hu : u ∈ us) :
    t.span.stop < u.span.start := by
  have hord := h.ordered
  rw [List.map_append, Span.ordered_append_iff] at hord
  exact hord.2.2 t.span (List.mem_map_of_mem ht) u.span (List.mem_map_of_mem hu)

private theorem cons_stop_lt_start (h : LaidOut cs (t :: ts)) (hu : u ∈ ts) :
    t.span.stop < u.span.start := by
  have h' : LaidOut cs ([t] ++ ts) := h
  exact h'.stop_lt_start (List.mem_singleton_self t) hu

private theorem token_start_lt_stop (h : LaidOut cs ts) (ht : t ∈ ts) :
    t.span.start < t.span.stop :=
  h.ordered.1 t.span (List.mem_map_of_mem ht)

/-! ### One run -/

/-- `Span.ofTokens` starts with its first token. -/
private theorem start_le (h : LaidOut cs ts) (ht : t ∈ ts) :
    (Span.ofTokens ts).start ≤ t.span.start := by
  cases ts with
  | nil => simp at ht
  | cons a ts =>
    rw [Span.start_ofTokens_cons]
    rcases List.mem_cons.mp ht with rfl | ht
    · exact Nat.le_refl _
    · have ha := h.token_start_lt_stop List.mem_cons_self
      have hat := h.cons_stop_lt_start ht
      omega

/-- `Span.ofTokens` stops with its last token. -/
private theorem le_stop (h : LaidOut cs ts) (ht : t ∈ ts) :
    t.span.stop ≤ (Span.ofTokens ts).stop := by
  obtain ⟨us, z, rfl⟩ := (List.eq_nil_or_concat ts).resolve_left (List.ne_nil_of_mem ht)
  rw [List.concat_eq_append] at h ht ⊢
  rw [Span.stop_ofTokens_concat]
  rcases List.mem_append.mp ht with ht | ht
  · have htz := h.stop_lt_start ht (List.mem_singleton_self z)
    have hz := h.right.token_start_lt_stop (List.mem_singleton_self z)
    omega
  · rw [List.mem_singleton] at ht
    exact ht ▸ Nat.le_refl _

/-- **A run encloses its tokens** (`Span.encloses`). -/
private theorem enclosed (h : LaidOut cs ts) (ht : t ∈ ts) :
    (Span.ofTokens ts).encloses t.span = true :=
  Span.encloses_iff.mpr ⟨h.start_le ht, h.le_stop ht⟩

/-- A run is not empty. -/
theorem start_lt_stop (h : LaidOut cs ts) (hne : ts ≠ []) :
    (Span.ofTokens ts).start < (Span.ofTokens ts).stop := by
  obtain ⟨t, ht⟩ := List.exists_mem_of_ne_nil ts hne
  have hle := Span.encloses_iff.mp (h.enclosed ht)
  have hlt := h.token_start_lt_stop ht
  omega

/-- **A run shows the text** from its first token `t` to its last one `u` (`Span.Shows`). -/
theorem shows (h : LaidOut cs ts) (ht : ts.head? = some t) (hu : ts.getLast? = some u) :
    (Span.ofTokens ts).Shows cs t.literal u.literal := by
  have hspan : Span.ofTokens ts = ⟨t.span.start, u.span.stop⟩ := by simp [Span.ofTokens, ht, hu]
  have hct := h.covers t (List.mem_of_mem_head? ht)
  have hcu := h.covers u (List.mem_of_getLast? hu)
  cases ts with
  | nil => simp at ht
  | cons a ts =>
    obtain rfl : a = t := by simpa using ht
    rw [hspan]
    -- a run of one token shows the token, and a longer one what lies between two of them
    cases ts with
    | nil =>
      obtain rfl : a = u := by simpa using hu
      exact ⟨_, Span.slice?_eq_some_iff.mpr hct, List.prefix_refl _, List.suffix_refl _⟩
    | cons b ts =>
      have hmem : u ∈ b :: ts := List.mem_of_getLast? (by simpa using hu)
      obtain ⟨whole, hw, hpre, hsuf⟩ := hct.join hcu (Nat.le_of_lt (h.cons_stop_lt_start hmem))
      exact ⟨whole, Span.slice?_eq_some_iff.mpr hw, hpre, hsuf⟩

/-- A run covers a part of the text. -/
private theorem exists_covers (h : LaidOut cs ts) (hne : ts ≠ []) :
    ∃ part, (Span.ofTokens ts).Covers cs part := by
  obtain ⟨part, hpart, -⟩ :=
    h.shows (List.head?_eq_some_head hne) (List.getLast?_eq_some_getLast hne)
  exact ⟨part, Span.slice?_eq_some_iff.mp hpart⟩

/-- A run lies in the text; without tokens, `Span.ofTokens` is the empty span at the start. -/
theorem isIn (h : LaidOut cs ts) : (Span.ofTokens ts).IsIn cs := by
  by_cases hne : ts = []
  · subst hne
    exact Span.isIn_empty cs
  · obtain ⟨part, hpart⟩ := h.exists_covers hne
    exact hpart.isIn

/-! ### Runs inside runs -/

/-- **A run encloses** every shorter run `us` of its tokens. -/
theorem encloses_sublist (h : LaidOut cs ts) (hs : us.Sublist ts) (hne : us ≠ []) :
    (Span.ofTokens ts).encloses (Span.ofTokens us) = true := by
  obtain ⟨u, us, rfl⟩ := List.exists_cons_of_ne_nil hne
  have hfirst := Span.encloses_iff.mp (h.enclosed (hs.subset List.mem_cons_self))
  have hlast : (Span.ofTokens (u :: us)).stop ≤ (Span.ofTokens ts).stop := by
    obtain ⟨vs, z, hz⟩ := (List.eq_nil_or_concat (u :: us)).resolve_left hne
    rw [hz, List.concat_eq_append] at hs ⊢
    rw [Span.stop_ofTokens_concat]
    have hmem : z ∈ ts := hs.subset (by simp)
    exact (Span.encloses_iff.mp (h.enclosed hmem)).2
  exact Span.encloses_iff.mpr ⟨hfirst.1, hlast⟩

/-- **A run begins** (`Span.Begins`) every longer run from the same token. -/
theorem begins (h : LaidOut cs (ts ++ us)) (hne : ts ≠ []) :
    (Span.ofTokens ts).Begins (Span.ofTokens (ts ++ us)) cs := by
  obtain ⟨part, hpart⟩ := h.left.exists_covers hne
  obtain ⟨whole, hwhole⟩ := h.exists_covers (List.append_ne_nil_of_left_ne_nil hne us)
  have hstart := Span.start_ofTokens_append hne us
  have hle := h.encloses_sublist (List.sublist_append_left ts us) hne
  have hpre := hpart.prefix_of_stop_le hwhole hstart.symm (Span.encloses_iff.mp hle).2
  exact ⟨part, whole, Span.slice?_eq_some_iff.mpr hpart, Span.slice?_eq_some_iff.mpr hwhole, hpre⟩

/-! ### Runs side by side -/

/-- A run stops before all later tokens. -/
theorem ofTokens_stop_lt (h : LaidOut cs (ts ++ us)) (ht : ts ≠ []) (hu : u ∈ us) :
    (Span.ofTokens ts).stop < u.span.start := by
  obtain ⟨vs, z, rfl⟩ := (List.eq_nil_or_concat ts).resolve_left ht
  rw [List.concat_eq_append] at h ⊢
  rw [Span.stop_ofTokens_concat]
  exact h.stop_lt_start (by simp) hu

/-- A run starts after all earlier tokens. -/
private theorem stop_lt_ofTokens (h : LaidOut cs (ts ++ us)) (ht : t ∈ ts) (hu : us ≠ []) :
    t.span.stop < (Span.ofTokens us).start := by
  obtain ⟨u, us, rfl⟩ := List.exists_cons_of_ne_nil hu
  exact h.stop_lt_start ht List.mem_cons_self

/-- **Runs that follow each other are ordered** (`Span.Ordered`). -/
theorem ordered_runs {tss : List (List Token)} (h : LaidOut cs tss.flatten)
    (hne : ∀ ts ∈ tss, ts ≠ []) : Span.Ordered (tss.map .ofTokens) := by
  induction tss with
  | nil => exact ⟨by simp, .nil⟩
  | cons ts tss ih =>
    rw [List.flatten_cons] at h
    have hts := hne ts (by simp)
    have htss : ∀ us ∈ tss, us ≠ [] := fun us hu => hne us (List.mem_cons_of_mem ts hu)
    rw [List.map_cons, Span.ordered_cons_iff]
    refine ⟨h.left.start_lt_stop hts, ih h.right htss, fun s hs => ?_⟩
    obtain ⟨us, hus, rfl⟩ := List.mem_map.mp hs
    obtain ⟨u, vs, rfl⟩ := List.exists_cons_of_ne_nil (htss us hus)
    exact h.ofTokens_stop_lt hts (List.mem_flatten_of_mem hus List.mem_cons_self)

/-- **A run encloses no other tokens**: filtering by its span gives back `run`. -/
theorem filter_encloses {before run after : List Token}
    (h : LaidOut cs (before ++ run ++ after)) (hne : run ≠ []) :
    (before ++ run ++ after).filter (fun t => (Span.ofTokens run).encloses t.span) = run := by
  have hbefore : before.filter (fun t => (Span.ofTokens run).encloses t.span) = [] := by
    refine List.filter_eq_nil_iff.mpr fun t ht henc => ?_
    have hle := (Span.encloses_iff.mp henc).1
    have hlt := h.left.stop_lt_ofTokens ht hne
    have hpos := h.left.left.token_start_lt_stop ht
    omega
  -- a later token that is enclosed would stop with the run or before it
  have hafter : after.filter (fun t => (Span.ofTokens run).encloses t.span) = [] := by
    refine List.filter_eq_nil_iff.mpr fun t ht henc => ?_
    have hle := (Span.encloses_iff.mp henc).2
    have hlt := (List.append_assoc before run after ▸ h).right.ofTokens_stop_lt hne ht
    have hpos := h.right.token_start_lt_stop ht
    omega
  rw [List.filter_append, List.filter_append, hbefore, hafter, List.append_nil, List.nil_append]
  exact List.filter_eq_self.mpr fun t ht => h.left.right.enclosed ht

end LaidOut

end RequestScript
