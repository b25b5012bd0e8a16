import RequestScript.Proofs.Grammar.Recognition
import RequestScript.Script.Printer
import RequestScript.Script.Relocate

/-!
# What is read can be written

The parts of a script that was read are words of its text, so they can be written as words again:
the script is **well formed** (`Script.WellFormed`), its offsets forgotten. Each node is well
formed because the grammar derives it from genuine tokens, which are words of their kind.
-/

namespace RequestScript

open Grammar

/-- The `literal` of a legal token is a word. -/
private theorem Token.Genuine.isWord {t : Token} (h : t.Genuine) (hk : t.kind ≠ .illegal) :
    IsWord t.literal :=
  ⟨h.literal_ne_empty, h.isWordChar_of_kind_ne hk⟩

namespace Grammar

variable {ts : List Token}

theorem IsField.wellFormed {f : Field} (h : IsField ts f) (hg : ∀ t ∈ ts, t.Genuine) :
    f.WellFormed := by
  cases h with
  | @intro k v key hk hv =>
    have hkey := (hg k (by simp)).isWord (by simp [hk.1])
    have hlegal : v.kind ≠ .illegal := by
      rcases hv.1 with hv | hv <;> simp [hv]
    have hvalue := hg v (by simp)
    rw [hk.2.1] at hkey
    refine ⟨⟨hk.2.2, fun c hc => hkey.2 c (by simp [hc])⟩, hvalue.isWord hlegal, hv.2, ?_⟩
    have hkind := hv.1
    rwa [hvalue.kind_eq_ofWord hlegal] at hkind

theorem AreFields.wellFormed {fs : List Field} (h : AreFields ts fs) (hg : ∀ t ∈ ts, t.Genuine) :
    ∀ f ∈ fs, f.WellFormed := by
  induction h with
  | nil => simp
  | cons hf _ ih =>
    intro f hmem
    rcases List.mem_cons.mp hmem with rfl | hmem
    · exact hf.wellFormed fun t ht => hg t (List.mem_append_left _ ht)
    · exact ih (fun t ht => hg t (List.mem_append_right _ ht)) f hmem

theorem IsRequest.wellFormed {r : Request} (h : IsRequest ts r) (hg : ∀ t ∈ ts, t.Genuine) :
    r.WellFormed := by
  cases h with
  | @intro m u us headers hm hu hs =>
    have hmethod : (Token.Kind.ofWord m.literal).isMethod = true := by
      have hk := meets_method_iff.mp hm
      rwa [(hg m (by simp)).kind_eq_ofWord fun h => by simp [h, Token.Kind.isMethod] at hk] at hk
    have hurl : u.kind ≠ .illegal := by
      simp only [Meets] at hu
      simp [hu]
    have hkind := (hg u (by simp)).kind_eq_ofWord hurl
    refine ⟨Token.Kind.eq_of_isMethod_ofWord hmethod, ⟨(hg u (by simp)).isWord hurl, ?_⟩, ?_⟩
    · exact hkind.symm.trans hu
    · exact hs.wellFormed fun t ht => hg t (by simp [ht])

theorem IsResponse.wellFormed {s : Response} (h : IsResponse ts s) (hg : ∀ t ∈ ts, t.Genuine) :
    s.WellFormed := by
  have hmarker : ∀ {m : Token}, m ∈ ts → m.kind = .http → m.literal = "HTTP" := by
    intro m hmem hm
    have hk := (hg m hmem).kind_eq_ofWord (by simp [hm])
    exact Token.Kind.eq_of_ofWord_eq_http (hk.symm.trans hm)
  cases h with
  | absent => exact .inl rfl
  | plain hm hc => exact .inr ⟨hmarker (by simp) hm, by simp⟩
  | capturing hm hc ha hf =>
    exact .inr ⟨hmarker (by simp) hm, hf.wellFormed fun t ht => hg t (by simp [ht])⟩

theorem AreEntries.wellFormed {es : List Entry} (h : AreEntries ts es)
    (hg : ∀ t ∈ ts, t.Genuine) : ∀ e ∈ es, e.WellFormed := by
  induction h with
  | nil => simp
  | cons he _ ih =>
    intro e hmem
    rcases List.mem_cons.mp hmem with rfl | hmem
    · cases he with
      | intro hr hs =>
        refine ⟨hr.wellFormed fun t ht => hg t ?_, hs.wellFormed fun t ht => hg t ?_⟩
        · simp [ht]
        · simp [ht]
    · exact ih (fun t ht => hg t (List.mem_append_right _ ht)) e hmem

end Grammar

/-! ### Forgetting offsets -/

/-- Where nothing stands does not matter to a response. -/
private theorem Response.WellFormed.relocate {r : Response} (h : r.WellFormed) (g : Nat → Nat) :
    (r.relocate g).WellFormed := by
  rcases h with rfl | ⟨hp, hc⟩
  · exact .inl rfl
  · have hpresent : r.isPresent = true := by simp [Response.isPresent, hp]
    rw [Response.relocate, if_pos hpresent]
    refine .inr ⟨hp, fun f hf => ?_⟩
    obtain ⟨f', hf', rfl⟩ := List.mem_map.mp hf
    exact hc f' hf'

private theorem Entry.WellFormed.relocate {e : Entry} (h : e.WellFormed) (g : Nat → Nat) :
    (e.relocate g).WellFormed := by
  refine ⟨⟨h.1.1, h.1.2.1, fun f hf => ?_⟩, h.2.relocate g⟩
  obtain ⟨f', hf', rfl⟩ := List.mem_map.mp hf
  exact h.1.2.2 f' hf'

private theorem Script.WellFormed.relocate {s : Script} (h : s.WellFormed) (g : Nat → Nat) :
    (s.relocate g).WellFormed := by
  refine ⟨by simpa [Script.relocate] using h.1, fun e he => ?_⟩
  obtain ⟨e', he', rfl⟩ := List.mem_map.mp he
  exact (h.2 e' he').relocate g

/-- **What is read is well formed** (`Script.WellFormed`), wherever its nodes are said to stand. -/
theorem wellFormed_relocate_of_parse {source : String} {file : Option String} {s : Script}
    (h : parse source file = .ok s) (g : Nat → Nat) : (s.relocate g).WellFormed := by
  obtain ⟨es, hes, hne, rfl⟩ := isScript_iff.mp (parse_eq_ok_iff.mp h)
  have hentries := hes.wellFormed fun t ht => Cursor.genuine_of_mem_stream ht
  have hscript : (Script.ofEntries es).WellFormed := ⟨hne, hentries⟩
  exact hscript.relocate g

end RequestScript
