import RequestScript.Proofs.Grammar.Recognition
import RequestScript.Proofs.Grammar.Relocation
import RequestScript.Proofs.Token.Cutting

/-!
# Parts of a script

A script can be taken apart at its entries. The text from the start of one entry to the end of
another one is a script of its own, with the entries between them (`parse_slice_eq_ok`): it has no
tokens but theirs, whatever stands between them or around them, and their spans are the same but
for the start of the part.
-/

namespace RequestScript

open Grammar

namespace Grammar

/-- **Entries fall apart** where their list `es ++ fs` does. -/
private theorem AreEntries.exists_of_append {ts : List Token} {es fs : List Entry}
    (h : AreEntries ts (es ++ fs)) :
    ∃ us vs, ts = us ++ vs ∧ AreEntries us es ∧ AreEntries vs fs := by
  induction es generalizing ts with
  | nil => exact ⟨[], ts, rfl, .nil, h⟩
  | cons e es ih =>
    cases h with
    | @cons us vs _ _ he hes =>
      obtain ⟨as, bs, rfl, has, hbs⟩ := ih hes
      exact ⟨us ++ as, bs, by rw [List.append_assoc], .cons he has, hbs⟩

/-- Entries begin with a method. -/
private theorem AreEntries.isMethod_head {ts : List Token} {es : List Entry} (h : AreEntries ts es)
    {t : Token} (ht : t ∈ ts.head?) : t.kind.isMethod = true := by
  cases h with
  | nil => simp at ht
  | cons he _ =>
    obtain ⟨m, us, rfl, hm, -⟩ := he.exists_method
    obtain rfl : m = t := by simpa using ht
    exact meets_method_iff.mp hm

end Grammar

/-- From the first to the last of the entries with the indices `i` to `j`. -/
private theorem span_ofEntries_drop_take {es : List Entry} {i j : Nat} (hij : i ≤ j)
    (hj : j < es.length) :
    (Script.ofEntries ((es.take (j + 1)).drop i)).span = ⟨es[i].span.start, es[j].span.stop⟩ := by
  have hfirst : ((es.take (j + 1)).drop i).head? = some es[i] := by
    rw [List.head?_drop, List.getElem?_take_of_lt (by omega), List.getElem?_eq_getElem]
  have hlast : ((es.take (j + 1)).drop i).getLast? = some es[j] := by
    rw [List.getLast?_drop, if_neg (by rw [List.length_take]; omega), List.getLast?_take,
      if_neg (by omega), Nat.add_sub_cancel, List.getElem?_eq_getElem hj, Option.some_or]
  simp [Script.ofEntries, hfirst, hlast]

/-- **A part of a text** that some entries `es` span is the script of these entries, moved to its
start. -/
private theorem exists_isScript_part {source : String} {ts us vs : List Token} {es : List Entry}
    (h : (tokenize source).tokens = ts ++ us ++ vs) (hes : AreEntries us es) (hne : es ≠ []) :
    ∃ part, (Script.ofEntries es).span.Covers source.toList part ∧
      IsScript (tokenize (String.ofList part)).tokens
        ((Script.ofEntries es).relocate (· - (Script.ofEntries es).span.start)) := by
  have hus : us ≠ [] := mt hes.eq_nil_iff.mp hne
  have hspan : (Script.ofEntries es).span = .ofTokens us := by rw [hes.ofEntries_eq]
  obtain ⟨part, p, hpart, hp, htokens⟩ := exists_covers_of_tokens_eq h hus fun u hu => by
    have hmem : u ∈ (tokenize source).tokens := by
      rw [h]
      simp [List.mem_of_mem_head? hu]
    exact (Cursor.genuine_of_mem_stream hmem).head?_ne_of_isMethod (hes.isMethod_head hu)
  -- the tokens of the part make up a script, which is moved on among the tokens of the whole
  have hscript : IsScript us (.ofEntries es) := isScript_iff.mpr ⟨es, hes, hne, rfl⟩
  rw [htokens] at hscript
  obtain ⟨q, hq, heq⟩ := hscript.exists_of_map fun t ht => literal_ne_empty_of_mem_tokenize ht
  refine ⟨part, hspan ▸ hpart, ?_⟩
  rw [hspan, ← hp, heq, Script.relocate_sub_add]
  exact hq

/-- **Parts of a script are scripts.** The text from the start of the entry `i` to the end of the
entry `j`, the same or a later one, is read as the entries from the one to the other, with offsets
that count from the start of the part. -/
theorem parse_slice_eq_ok {source : String} {file : Option String} {s : Script}
    (h : parse source file = .ok s) {i j : Nat} (hij : i ≤ j) (hj : j < s.entries.length)
    (file' : Option String) :
    ∃ part, (⟨s.entries[i].span.start, s.entries[j].span.stop⟩ : Span).slice? source.toList =
        some part ∧
      parse (String.ofList part) file' = .ok
        ⟨((s.entries.take (j + 1)).drop i).map (Entry.relocate (· - s.entries[i].span.start)),
          ⟨0, s.entries[j].span.stop - s.entries[i].span.start⟩⟩ := by
  obtain ⟨es, hes, -, rfl⟩ := isScript_iff.mp (parse_eq_ok_iff.mp h)
  have hlen : j < es.length := hj
  have hspan := span_ofEntries_drop_take hij hlen
  -- the entries before, those asked for, and those after
  have hsplit : es = es.take i ++ ((es.take (j + 1)).drop i ++ es.drop (j + 1)) := by
    have htake : es.take i = (es.take (j + 1)).take i := by
      rw [List.take_take, Nat.min_eq_left (by omega)]
    rw [htake, ← List.append_assoc, List.take_append_drop, List.take_append_drop]
  have hne : (es.take (j + 1)).drop i ≠ [] := by
    rw [ne_eq, List.drop_eq_nil_iff, List.length_take]
    omega
  obtain ⟨ts, _, htokens, -, hrest⟩ := (hsplit ▸ hes).exists_of_append
  obtain ⟨us, vs, rfl, hus, -⟩ := hrest.exists_of_append
  rw [← List.append_assoc] at htokens
  obtain ⟨part, hpart, hscript⟩ := exists_isScript_part htokens hus hne
  rw [hspan] at hpart hscript
  refine ⟨part, Span.slice?_eq_some_iff.mpr hpart, parse_eq_ok_iff.mpr ?_⟩
  have hmoved : (Script.ofEntries ((es.take (j + 1)).drop i)).relocate (· - es[i].span.start) =
      ⟨((es.take (j + 1)).drop i).map (Entry.relocate (· - es[i].span.start)),
        ⟨0, es[j].span.stop - es[i].span.start⟩⟩ := by
    rw [Script.relocate, hspan, Span.map, Nat.sub_self]
    rfl
  exact hmoved ▸ hscript

/-- The last two of three entries, with a comment between them. The response of the first is there
without captures, and that of the second is absent. -/
theorem parse_slice_of_three_entries :
    ∃ part, (⟨10, 52⟩ : Span).slice?
        "GET a\n# c\nPOST é k: v\nHTTP 200 [Capture]\n # d\nGET b".toList = some part ∧
      parse (String.ofList part) none = .ok
        ⟨[⟨⟨⟨"POST", "é", ⟨0, 7⟩⟩, [⟨"k", "v", ⟨8, 12⟩⟩], ⟨0, 12⟩⟩,
            ⟨"HTTP", 200, [], ⟨13, 31⟩⟩, ⟨0, 31⟩⟩,
          ⟨⟨⟨"GET", "b", ⟨37, 42⟩⟩, [], ⟨37, 42⟩⟩, {}, ⟨37, 42⟩⟩], ⟨0, 42⟩⟩ :=
  have h : parse "GET a\n# c\nPOST é k: v\nHTTP 200 [Capture]\n # d\nGET b" none = .ok
      ⟨[⟨⟨⟨"GET", "a", ⟨0, 5⟩⟩, [], ⟨0, 5⟩⟩, {}, ⟨0, 5⟩⟩,
        ⟨⟨⟨"POST", "é", ⟨10, 17⟩⟩, [⟨"k", "v", ⟨18, 22⟩⟩], ⟨10, 22⟩⟩,
          ⟨"HTTP", 200, [], ⟨23, 41⟩⟩, ⟨10, 41⟩⟩,
        ⟨⟨⟨"GET", "b", ⟨47, 52⟩⟩, [], ⟨47, 52⟩⟩, {}, ⟨47, 52⟩⟩], ⟨0, 52⟩⟩ := by
    decide +kernel
  parse_slice_eq_ok h (i := 1) (j := 2) (by decide) (by decide) none

end RequestScript
