import RequestScript.Proofs.Grammar.Recognition
import RequestScript.Proofs.Grammar.Relocation
import RequestScript.Proofs.Parser.Reports
import RequestScript.Proofs.Token.Cutting

/-!
# Scripts one after another

A method ends whatever comes before it, as the end of a text does. So a text that begins with a
method can be put after any other text, on a line of its own, and the two are parsed as they are
parsed alone:

* **Diagnostics**: if the first text is read to its end, its diagnostics come first, and then those
  of the second text, further down. What the first text misses at its end is reported at the first
  token of the second one (`exists_complaints_append`).
* **Scripts**: the entries of two scripts come one after another, those of the second one further
  on (`parse_append_eq_ok`).
* **Both or none**: the two texts together are a script only if each of them is, or the first one
  has no tokens (`exists_parse_append_eq_ok_iff`).
-/

namespace RequestScript

open Grammar

/-! ### Entries one after another -/

namespace Grammar

variable {ts us : List Token} {es fs : List Entry}

theorem AreEntries.append (h : AreEntries ts es) (h' : AreEntries us fs) :
    AreEntries (ts ++ us) (es ++ fs) := by
  induction h with
  | nil => exact h'
  | cons he _ ih =>
    rw [List.append_assoc]
    exact .cons he ih

/-- Two scripts one after another are one script: `IsScript` is kept by `++`. -/
theorem IsScript.append {s s' : Script} (h : IsScript ts s) (h' : IsScript us s') :
    IsScript (ts ++ us) ⟨s.entries ++ s'.entries, ⟨s.span.start, s'.span.stop⟩⟩ := by
  have hts := h.ne_nil
  have hus := h'.ne_nil
  cases h with
  | intro hes hne =>
    cases h' with
    | intro hfs _ =>
      rw [← Span.ofTokens_append hts hus]
      exact .intro (hes.append hfs) (by simp [hne])

/-- **Entries fall apart at a method** `m`: it begins one of them. -/
private theorem AreEntries.exists_of_append_method {m : Token} (hm : Meets m .method)
    (h : AreEntries (ts ++ m :: us) es) :
    ∃ fs gs, es = fs ++ gs ∧ AreEntries ts fs ∧ AreEntries (m :: us) gs := by
  generalize hvs : ts ++ m :: us = vs at h
  induction h generalizing ts with
  | nil => simp at hvs
  | @cons as bs e es he hes ih =>
    rcases List.append_eq_append_iff.mp hvs with ⟨rest, has, hrest⟩ | ⟨rest, hts, hbs⟩
    · cases rest with
      | nil =>
        -- the entry ends right before the method
        rw [List.append_nil] at has
        rw [List.nil_append] at hrest
        subst has hrest
        exact ⟨[e], es, rfl, by simpa using AreEntries.cons he .nil, hes⟩
      | cons r rest =>
        -- the method is in the entry, and so it is its first token
        obtain ⟨rfl, -⟩ := List.cons.inj hrest
        obtain ⟨m', others, hentry, -, hothers⟩ := he.exists_method
        cases ts with
        | nil =>
          rw [List.nil_append] at has
          rw [hrest, ← has]
          exact ⟨[], e :: es, rfl, .nil, .cons he hes⟩
        | cons t ts =>
          have hmem : m ∈ others := by
            rw [hentry, List.cons_append] at has
            rw [(List.cons.inj has).2]
            simp
          exact absurd hm (hothers m hmem).1
    · obtain ⟨fs, gs, rfl, hfs, hgs⟩ := ih hbs.symm
      subst hts
      exact ⟨e :: fs, gs, rfl, .cons he hfs, hgs⟩

end Grammar

/-! ### Texts one after another -/

variable {a b : String} {file : Option String}

/-- A text with tokens that is read to its end begins with a method, and what follows it is
reported from the phase that it ends in. -/
private theorem exists_reports_of_rest (ha : (tokenize a).tokens ≠ [])
    (hrest : (Parser.ofString a file).after.stream.current.kind = .endOfInput) :
    ∃ m ts q, (tokenize a).tokens = m :: ts ∧ m.kind.isMethod = true ∧
      ∀ us, Phase.outside.reports ((tokenize a).tokens ++ us) =
        Phase.outside.reports (tokenize a).tokens ++ Phase.reports q us := by
  obtain ⟨m, ts, hts⟩ := List.exists_cons_of_ne_nil ha
  have hend : ∀ t ∈ (tokenize a).tokens, t.kind ≠ .endOfInput := fun t ht =>
    Cursor.kind_ne_endOfInput_of_mem ht
  have hwalk : (Phase.outside.walk (tokenize a).stop (tokenize a).tokens).rest.current.kind =
      .endOfInput := hrest
  obtain ⟨q, hq⟩ := Phase.exists_reports_append hend hwalk
  rw [hts] at hwalk
  obtain ⟨q', hq', -⟩ := Phase.exists_next_of_walk_rest (hend m (by simp [hts])) hwalk
  exact ⟨m, ts, q, hts, Phase.isMethod_of_next_feedOutside hq', hq⟩

/-- **Diagnostics one after another**: what the first text misses at its end, if anything
(`fault`), is reported at the first token of the second text, and the diagnostics of the second
text are found further down. -/
theorem exists_complaints_append (ha : (tokenize a).tokens ≠ [])
    (hrest : (Parser.ofString a file).after.stream.current.kind = .endOfInput)
    (hb : (tokenize b).current.kind.isMethod = true) :
    ∃ (ds : List Diagnostic) (fault : Option Fault), (∀ d ∈ ds, d.literal ≠ "") ∧
      complaints (parse a file) =
        ds ++ (fault.map (Diagnostic.ofToken (tokenize a).last)).toList ∧
      complaints (parse (a ++ "\n" ++ b) file) =
        ds ++
          (fault.map (Diagnostic.ofToken ((tokenize b).current.shift (.afterLine a)))).toList ++
          (complaints (parse b file)).map
            (Diagnostic.relocate (· + (a.toList.count '\n' + 1))) := by
  obtain ⟨m, ts, q, hts, hm, hq⟩ := exists_reports_of_rest ha hrest
  obtain ⟨us, hus⟩ := TokenStream.exists_tokens_eq_cons hb
  have hsecond : Phase.outside.reports ((tokenize b).toList.map (Token.shift (.afterLine a))) =
      (complaints (parse b file)).map (Diagnostic.relocate (· + (a.toList.count '\n' + 1))) := by
    rw [complaints_parse_of_isMethod hus hb]
    exact Phase.reports_relocate (fun n => Nat.add_right_comm n 1 _) rfl _
  refine ⟨Phase.outside.reports (tokenize a).tokens,
    q.place.lacks.map fun e => .expected e.name, fun d hd => ?_, ?_, ?_⟩
  · obtain ⟨t, ht, e, rfl⟩ := Phase.exists_unexpected_of_mem_reports hd
    exact literal_ne_empty_of_mem_tokenize ht
  · rw [complaints_parse_of_isMethod hts hm, TokenStream.toList, hq,
      Phase.reports_of_endsEntry (.inr rfl), Option.map_map]
    exact congrArg (_ ++ ·) (List.append_nil _)
  · have hjoined : (tokenize (a ++ "\n" ++ b)).tokens =
        m :: (ts ++ (tokenize b).tokens.map (Token.shift (.afterLine a))) := by
      rw [tokens_tokenize_append_lineFeed, hts, List.cons_append]
    have hcons : (tokenize b).toList = (tokenize b).current :: (us ++ [(tokenize b).last]) := by
      rw [TokenStream.toList, hus, List.cons_append]
    have hends : ((tokenize b).current.shift (.afterLine a)).EndsEntry := .inl hb
    rw [complaints_parse_of_isMethod hjoined hm, toList_tokenize_append_lineFeed, hq, ← hsecond,
      hcons, List.map_cons, Phase.reports_of_endsEntry hends, Option.map_map, List.append_assoc]
    rfl

/-- **Two scripts** one after another are read as one: its entries are those of `p` and then those
of `q`, moved on by the bytes of the first text. -/
theorem parse_append_eq_ok {p q : Script} (ha : parse a file = .ok p) (hb : parse b file = .ok q) :
    parse (a ++ "\n" ++ b) file = .ok
      ⟨p.entries ++ q.entries.map (Entry.relocate (· + (byteLength a.toList + 1))),
        ⟨p.span.start, q.span.stop + (byteLength a.toList + 1)⟩⟩ := by
  rw [parse_eq_ok_iff] at ha hb ⊢
  rw [tokens_tokenize_append_lineFeed]
  exact ha.append (hb.relocate fun t ht => literal_ne_empty_of_mem_tokenize ht)

/-- A text is a script if it has tokens and they make up entries (`AreEntries`). -/
private theorem exists_parse_eq_ok_iff_areEntries :
    (∃ s, parse a file = .ok s) ↔
      (tokenize a).tokens ≠ [] ∧ ∃ es, AreEntries (tokenize a).tokens es := by
  simp only [parse_eq_ok_iff]
  constructor
  · rintro ⟨s, hs⟩
    obtain ⟨es, hes, -⟩ := isScript_iff.mp hs
    exact ⟨hs.ne_nil, es, hes⟩
  · rintro ⟨hne, es, hes⟩
    exact ⟨_, isScript_iff.mpr ⟨es, hes, fun h => hne (hes.eq_nil_iff.mpr h), rfl⟩⟩

/-- **Both or none**: before a text that begins with a method, only a script or a text without
tokens leaves it a script. -/
theorem exists_parse_append_eq_ok_iff (hb : (tokenize b).current.kind.isMethod = true) :
    (∃ s, parse (a ++ "\n" ++ b) file = .ok s) ↔
      (∃ q, parse b file = .ok q) ∧
        ((∃ p, parse a file = .ok p) ∨ (tokenize a).tokens = []) := by
  obtain ⟨us, hus⟩ := TokenStream.exists_tokens_eq_cons hb
  have hne : (tokenize b).tokens ≠ [] := by simp [hus]
  have hliteral : ∀ t ∈ (tokenize b).tokens, t.literal ≠ "" := fun t ht =>
    literal_ne_empty_of_mem_tokenize ht
  simp only [exists_parse_eq_ok_iff_areEntries, tokens_tokenize_append_lineFeed]
  constructor
  · rintro ⟨-, es, hes⟩
    have hm : Meets ((tokenize b).current.shift (.afterLine a)) .method := meets_method_iff.mpr hb
    rw [hus, List.map_cons] at hes
    obtain ⟨fs, gs, -, hfs, hgs⟩ := hes.exists_of_append_method hm
    rw [← List.map_cons, ← hus] at hgs
    obtain ⟨gs, hgs, -⟩ := hgs.exists_of_map hliteral
    refine ⟨⟨hne, gs, hgs⟩, ?_⟩
    by_cases ha : (tokenize a).tokens = []
    · exact .inr ha
    · exact .inl ⟨ha, fs, hfs⟩
  · rintro ⟨⟨-, gs, hgs⟩, ha⟩
    have hfs : ∃ fs, AreEntries (tokenize a).tokens fs := by
      rcases ha with ⟨-, hfs⟩ | ha
      · exact hfs
      · rw [ha]
        exact ⟨[], .nil⟩
    obtain ⟨fs, hfs⟩ := hfs
    exact ⟨by simp [hne], _, hfs.append (hgs.relocate hliteral)⟩

/-- **A method separates two texts** as the end of a text does. Where `a` is read to its end and
`b` begins with a method, the `complaints` are those about `a` and then those about `b`, and what
`a` misses at its end is missed at the method. Two scripts together are one script; and before a
method, only a script or a text without tokens leaves `b` a script. -/
theorem parse_append_lineFeed (a b : String) (file : Option String) :
    ((tokenize a).tokens ≠ [] →
      (Parser.ofString a file).after.stream.current.kind = .endOfInput →
      (tokenize b).current.kind.isMethod = true →
      ∃ (ds : List Diagnostic) (fault : Option Fault), (∀ d ∈ ds, d.literal ≠ "") ∧
        complaints (parse a file) =
          ds ++ (fault.map (Diagnostic.ofToken (tokenize a).last)).toList ∧
        complaints (parse (a ++ "\n" ++ b) file) =
          ds ++
            (fault.map (Diagnostic.ofToken ((tokenize b).current.shift (.afterLine a)))).toList ++
            (complaints (parse b file)).map
              (Diagnostic.relocate (· + (a.toList.count '\n' + 1)))) ∧
    (∀ p q, parse a file = .ok p → parse b file = .ok q →
      parse (a ++ "\n" ++ b) file = .ok
        ⟨p.entries ++ q.entries.map (Entry.relocate (· + (byteLength a.toList + 1))),
          ⟨p.span.start, q.span.stop + (byteLength a.toList + 1)⟩⟩) ∧
    ((tokenize b).current.kind.isMethod = true →
      ((∃ s, parse (a ++ "\n" ++ b) file = .ok s) ↔
        (∃ q, parse b file = .ok q) ∧
          ((∃ p, parse a file = .ok p) ∨ (tokenize a).tokens = []))) :=
  ⟨exists_complaints_append, fun _ _ => parse_append_eq_ok, exists_parse_append_eq_ok_iff⟩

/-- A key at the end of the first text, which misses its value there; and two scripts, the first
with a character of two bytes. -/
theorem parse_append_lineFeed_of_lone_key :
    (∃ (ds : List Diagnostic) (fault : Option Fault), (∀ d ∈ ds, d.literal ≠ "") ∧
      [⟨.expected "`key:`", 1, "j"⟩, ⟨.expected "value", 1, ""⟩] =
        ds ++ (fault.map (Diagnostic.ofToken (tokenize "GET u j k:").last)).toList ∧
      complaints (parse "GET u j k:\nPOST v w" none) =
        ds ++ (fault.map (Diagnostic.ofToken ⟨.post, "POST", 1, ⟨11, 15⟩⟩)).toList ++
          [⟨.expected "`key:`", 2, "w"⟩]) ∧
    parse "GET é\nGET v HTTP 7" none = .ok
      ⟨[⟨⟨⟨"GET", "é", ⟨0, 6⟩⟩, [], ⟨0, 6⟩⟩, {}, ⟨0, 6⟩⟩,
        ⟨⟨⟨"GET", "v", ⟨7, 12⟩⟩, [], ⟨7, 12⟩⟩, ⟨"HTTP", 7, [], ⟨13, 19⟩⟩, ⟨7, 19⟩⟩], ⟨0, 19⟩⟩ ∧
    ((∃ s, parse "GET é\nGET v HTTP 7" none = .ok s) ↔
      (∃ q, parse "GET v HTTP 7" none = .ok q) ∧
        ((∃ p, parse "GET é" none = .ok p) ∨ (tokenize "GET é").tokens = [])) := by
  have hfirst : parse "GET é" none = .ok
      ⟨[⟨⟨⟨"GET", "é", ⟨0, 6⟩⟩, [], ⟨0, 6⟩⟩, {}, ⟨0, 6⟩⟩], ⟨0, 6⟩⟩ := by
    decide +kernel
  have hsecond : parse "GET v HTTP 7" none = .ok
      ⟨[⟨⟨⟨"GET", "v", ⟨0, 5⟩⟩, [], ⟨0, 5⟩⟩, ⟨"HTTP", 7, [], ⟨6, 12⟩⟩, ⟨0, 12⟩⟩], ⟨0, 12⟩⟩ := by
    decide +kernel
  obtain ⟨hcomplaints, -, -⟩ := parse_append_lineFeed "GET u j k:" "POST v w" none
  obtain ⟨-, hscripts, hboth⟩ := parse_append_lineFeed "GET é" "GET v HTTP 7" none
  refine ⟨?_, hscripts _ _ hfirst hsecond, hboth (by decide +kernel)⟩
  obtain ⟨ds, fault, hds, ha, hab⟩ := hcomplaints (by decide +kernel) (by decide +kernel)
    (by decide +kernel)
  have hlone : complaints (parse "GET u j k:" none) =
      [⟨.expected "`key:`", 1, "j"⟩, ⟨.expected "value", 1, ""⟩] := by
    decide +kernel
  have hmoved : (complaints (parse "POST v w" none)).map (Diagnostic.relocate (· + 1)) =
      [⟨.expected "`key:`", 2, "w"⟩] := by
    decide +kernel
  have htoken : (tokenize "POST v w").current.shift (.afterLine "GET u j k:") =
      ⟨.post, "POST", 1, ⟨11, 15⟩⟩ := by
    decide +kernel
  have hline : "GET u j k:".toList.count '\n' + 1 = 1 := by decide
  rw [hlone] at ha
  rw [htoken, hline, hmoved] at hab
  exact ⟨ds, fault, hds, ha, hab⟩

end RequestScript
