import RequestScript.Proofs.Grammar.Relocation
import RequestScript.Proofs.Script.WellFormed
import RequestScript.Proofs.Token.Words

/-!
# What is written can be read

A well-formed script is read back from its written form (`parse_written_forms`).

* In **one line** all of it comes back. The line begins with a method, so it is no comment.
* With **a construct to a line** the headers and captures whose key begins with `#` are lost: their
  lines are comments. All else comes back, so the whole script does if there is no such key.

The proof goes from the words to the tree. The tokens of a written script are its words
(`bareTokens_render`, `bareTokens_renderLines`), and the words of a node, without those of some
fields, make up the node without these fields (`Script.WellFormed.isScript_kept`). The grammar does
not look at places, so the same tree is read from the text.
-/

namespace RequestScript

open Grammar

/-! ### Leaving out fields -/

/-- The key begins with `#`. -/
def Field.startsWithHash (f : Field) : Bool :=
  f.key.toList.head? == some '#'

/-- The request without the headers that are not kept. -/
def Request.filterFields (keep : Field → Bool) (r : Request) : Request :=
  { r with headers := r.headers.filter keep }

/-- The response without the captures that are not kept. -/
def Response.filterFields (keep : Field → Bool) (r : Response) : Response :=
  { r with captures := r.captures.filter keep }

/-- The entry without the fields that are not kept. -/
def Entry.filterFields (keep : Field → Bool) (e : Entry) : Entry :=
  { e with request := e.request.filterFields keep, response := e.response.filterFields keep }

/-- The script without the fields that are not kept. -/
def Script.filterFields (keep : Field → Bool) (s : Script) : Script :=
  { s with entries := s.entries.map (Entry.filterFields keep) }

/-- The headers and captures of an entry. -/
def Entry.fields (e : Entry) : List Field :=
  e.request.headers ++ e.response.captures

/-! ### The words of well-formed nodes -/

/-- The words with a meaning of their own are words. -/
private theorem isWord_of_mem_reserved {w : String}
    (hw : w ∈ ["GET", "POST", "HTTP", "[Capture]"]) : IsWord w := by
  simp only [List.mem_cons, List.not_mem_nil, or_false] at hw
  rcases hw with rfl | rfl | rfl | rfl <;> exact ⟨by decide, List.all_eq_true.mp (by decide)⟩

private theorem isWord_digits (n : Nat) : IsWord (String.ofList (Decimal.digits n)) := by
  refine ⟨by simpa [← String.toList_inj] using Decimal.digits_ne_nil n, fun c hc => ?_⟩
  rw [String.toList_ofList] at hc
  exact isWordChar_of_isDigit (Decimal.isDigit_of_mem_digits hc)

private theorem Field.WellFormed.isWord {f : Field} (h : f.WellFormed) :
    ∀ w ∈ f.words, IsWord w := by
  obtain ⟨hkey, hvalue, -⟩ := h
  intro w hw
  rcases List.mem_cons.mp hw with rfl | hw
  · refine ⟨fun h => by simpa using congrArg String.toList h, fun c hc => ?_⟩
    rw [String.toList_append, List.mem_append] at hc
    rcases hc with hc | hc
    · exact hkey.2 c hc
    · obtain rfl : c = ':' := by simpa using hc
      decide
  · obtain rfl : w = f.value := by simpa using hw
    exact hvalue

private theorem Request.WellFormed.isWord {r : Request} (h : r.WellFormed) :
    ∀ ws ∈ r.constructs, ∀ w ∈ ws, IsWord w := by
  obtain ⟨hmethod, ⟨hurl, -⟩, hheaders⟩ := h
  intro ws hws w hw
  rcases List.mem_cons.mp hws with rfl | hws
  · simp only [List.mem_cons, List.not_mem_nil, or_false] at hw
    rcases hw with rfl | rfl
    · rcases hmethod with hm | hm <;> exact isWord_of_mem_reserved (by simp [hm])
    · exact hurl
  · obtain ⟨f, hf, rfl⟩ := List.mem_map.mp hws
    exact (hheaders f hf).isWord w hw

private theorem Response.WellFormed.isWord {r : Response} (h : r.WellFormed) :
    ∀ ws ∈ r.constructs, ∀ w ∈ ws, IsWord w := by
  intro ws hws w hw
  rcases h with rfl | ⟨hp, hc⟩
  · simp [constructs, isPresent] at hws
  · have hpresent : r.isPresent = true := by simp [isPresent, hp]
    rw [constructs, if_pos hpresent] at hws
    rcases List.mem_cons.mp hws with rfl | hws
    · simp only [List.mem_cons, List.not_mem_nil, or_false] at hw
      rcases hw with rfl | rfl
      · exact isWord_of_mem_reserved (by simp [hp])
      · exact isWord_digits _
    · split at hws
      · simp at hws
      · rcases List.mem_cons.mp hws with rfl | hws
        · exact isWord_of_mem_reserved (by simp_all)
        · obtain ⟨f, hf, rfl⟩ := List.mem_map.mp hws
          exact (hc f hf).isWord w hw

private theorem Script.WellFormed.isWord {s : Script} (h : s.WellFormed) :
    ∀ ws ∈ s.constructs, ∀ w ∈ ws, IsWord w := by
  intro ws hws
  obtain ⟨e, he, hws⟩ := List.mem_flatMap.mp hws
  rcases List.mem_append.mp hws with hws | hws
  · exact (h.2 e he).1.isWord ws hws
  · exact (h.2 e he).2.isWord ws hws

/-! ### The words of a node make up the node -/

/-- Words that stand nowhere (`Token.ofText`) span nothing. -/
private theorem ofTokens_map_ofText (ws : List String) :
    Span.ofTokens (ws.map Token.ofText) = {} := by
  by_cases hws : ws = []
  · rw [hws]
    rfl
  · have hne : ws.map Token.ofText ≠ [] := mt List.map_eq_nil_iff.mp hws
    have h := Span.ofTokens_map (fun _ => 0) (fun _ => 0) hne
    rw [List.map_map] at h
    exact h

private theorem Field.WellFormed.isField {f : Field} (h : f.WellFormed) :
    IsField (f.words.map Token.ofText) (f.relocate fun _ => 0) := by
  obtain ⟨hkey, -, hcolon, hkind⟩ := h
  have hk : IsKey (Token.ofText (f.key ++ ":")) f.key :=
    ⟨Token.Kind.ofWord_append_colon f.key, rfl, hkey.1⟩
  have hv : IsValue (Token.ofText f.value) := ⟨hkind, hcolon⟩
  exact .intro hk hv

private theorem areFields_of_wellFormed {fs : List Field} (h : ∀ f ∈ fs, f.WellFormed) :
    AreFields ((fs.flatMap Field.words).map Token.ofText)
      (fs.map (Field.relocate fun _ => 0)) := by
  induction fs with
  | nil => exact .nil
  | cons f fs ih =>
    rw [List.flatMap_cons, List.map_append]
    exact .cons (h f (by simp)).isField (ih fun g hg => h g (List.mem_cons_of_mem f hg))

/-- The `Decimal.digits` of a status code are read as the status code. -/
private theorem isStatus_digits (code : UInt16) :
    IsStatus (Token.ofText (String.ofList (Decimal.digits code.toNat))) code := by
  refine ⟨Token.Kind.ofWord_eq_number (isWord_digits _).1
    (List.all_eq_true.mpr fun c hc => ?_), ?_⟩
  · rw [String.toList_ofList] at hc
    exact Decimal.isDigit_of_mem_digits hc
  · rw [Token.ofText, String.toList_ofList, Decimal.value_digits]

section Kept

/-! Some constructs are left out: fields, but no others. -/

variable {k : List String → Bool}
  (hk : ∀ w ∈ ["GET", "POST", "HTTP", "[Capture]"], ∀ ws, k (w :: ws) = true)

/-- The constructs of the fields that are kept. -/
private theorem flatten_filter_words (fs : List Field) :
    ((fs.map Field.words).filter k).flatten =
      (fs.filter fun f => k f.words).flatMap Field.words := by
  rw [List.filter_map, List.flatMap_def]
  rfl

private theorem areFields_kept {fs : List Field} (h : ∀ f ∈ fs, f.WellFormed) :
    AreFields (((fs.map Field.words).filter k).flatten.map Token.ofText)
      ((fs.filter fun f => k f.words).map (Field.relocate fun _ => 0)) := by
  rw [flatten_filter_words]
  exact areFields_of_wellFormed fun f hf => h f (List.mem_filter.mp hf).1

include hk

private theorem Request.WellFormed.isRequest_kept {r : Request} (h : r.WellFormed) :
    IsRequest ((r.constructs.filter k).flatten.map Token.ofText)
      ((r.filterFields fun f => k f.words).relocate fun _ => 0) := by
  obtain ⟨hmethod, ⟨-, hurl⟩, hheaders⟩ := h
  have hline : k [r.endpoint.method, r.endpoint.url] = true := by
    rcases hmethod with hm | hm <;> rw [hm] <;> exact hk _ (by simp) _
  have hm : Meets (Token.ofText r.endpoint.method) .method := by
    refine meets_method_iff.mpr ?_
    rcases hmethod with hm | hm <;> rw [Token.ofText, hm] <;> decide
  have hnode := IsRequest.intro hm (u := Token.ofText r.endpoint.url) hurl
    (areFields_kept (k := k) hheaders)
  rw [← List.map_cons, ← List.map_cons, ofTokens_map_ofText] at hnode
  rw [constructs, List.filter_cons_of_pos hline, List.flatten_cons]
  exact hnode

private theorem Response.WellFormed.isResponse_kept {r : Response} (h : r.WellFormed) :
    IsResponse ((r.constructs.filter k).flatten.map Token.ofText)
      ((r.filterFields fun f => k f.words).relocate fun _ => 0) := by
  rcases h with rfl | ⟨hp, hc⟩
  · exact .absent
  have hpresent : r.isPresent = true := by simp [isPresent, hp]
  have hm : (Token.ofText "HTTP").kind = .http := by decide
  have hmoved : (r.filterFields fun f => k f.words).relocate (fun _ => 0) =
      ⟨"HTTP", r.status, (r.captures.filter fun f => k f.words).map (Field.relocate fun _ => 0),
        {}⟩ := by
    have hkept : (r.filterFields fun f => k f.words).isPresent = true := hpresent
    rw [Response.relocate, if_pos hkept, ← hp]
    rfl
  rw [constructs, if_pos hpresent, hp, List.filter_cons_of_pos (hk _ (by simp) _),
    List.flatten_cons, hmoved]
  split
  · next hnil =>
    have hnode := IsResponse.plain hm (isStatus_digits r.status)
    rw [List.isEmpty_iff.mp hnil]
    exact hnode
  · -- the tag is written if there are captures, even if none of them is kept
    have hnode := IsResponse.capturing hm (isStatus_digits r.status)
      (c := Token.ofText "[Capture]") (by decide) (areFields_kept (k := k) hc)
    rw [← List.map_cons, ← List.map_cons, ← List.map_cons, ofTokens_map_ofText] at hnode
    rw [List.filter_cons_of_pos (hk _ (by simp) _)]
    exact hnode

private theorem areEntries_kept {es : List Entry} (h : ∀ e ∈ es, e.WellFormed) :
    AreEntries (((es.flatMap Entry.constructs).filter k).flatten.map Token.ofText)
      (es.map fun e => (e.filterFields fun f => k f.words).relocate fun _ => 0) := by
  induction es with
  | nil => exact .nil
  | cons e es ih =>
    have hnode := IsEntry.intro ((h e (by simp)).1.isRequest_kept hk)
      ((h e (by simp)).2.isResponse_kept hk)
    rw [← List.map_append, ofTokens_map_ofText] at hnode
    rw [List.flatMap_cons, List.filter_append, List.flatten_append, List.map_append]
    rw [Entry.constructs, List.filter_append, List.flatten_append]
    exact .cons hnode (ih fun f hf => h f (List.mem_cons_of_mem e hf))

/-- **The words of a script**, without those of some fields, make up the script without these
fields (`filterFields`). -/
private theorem Script.WellFormed.isScript_kept {s : Script} (h : s.WellFormed) :
    IsScript ((s.constructs.filter k).flatten.map Token.ofText)
      (s.filterFields fun f => k f.words).erase := by
  have hnode := IsScript.intro (areEntries_kept hk h.2) (by simpa using h.1)
  rw [ofTokens_map_ofText] at hnode
  rw [Script.erase, Script.relocate, Script.filterFields, List.map_map]
  exact hnode

end Kept

/-! ### Written texts -/

/-- A text is read as the script that its `bareTokens` make up, places apart. -/
private theorem exists_parse_eq_ok {text : String} {s : Script}
    (h : IsScript (bareTokens text) s.erase) (file : Option String) :
    ∃ t, parse text file = .ok t ∧ t.erase = s.erase := by
  have hmap : IsScript
      ((tokenize text).tokens.map (Token.relocate (fun _ => 0) (fun _ => 0))) s.erase := h
  obtain ⟨t, ht, heq⟩ := hmap.exists_of_map fun t ht => literal_ne_empty_of_mem_tokenize ht
  exact ⟨t, parse_eq_ok_iff.mpr ht, heq.symm⟩

/-- The words of a script begin with a method, so they open no comment. -/
private theorem opensComment_words {s : Script} (h : s.WellFormed) :
    opensComment s.words = false := by
  obtain ⟨e, es, hes⟩ := List.exists_cons_of_ne_nil h.1
  have hwords : ∃ ws, s.words = e.request.endpoint.method :: ws := by
    rw [Script.words, Script.constructs, hes]
    exact ⟨_, rfl⟩
  obtain ⟨ws, hws⟩ := hwords
  rw [hws]
  rcases (h.2 e (by simp [hes])).1.1 with hm | hm <;> rw [hm] <;> rfl

/-- **The tokens of a script in one line** (`Script.render`) are its `words`. -/
private theorem bareTokens_render {s : Script} (h : s.WellFormed) :
    bareTokens s.render = s.words.map Token.ofText := by
  refine bareTokens_intercalate_space (fun w hw => ?_) (opensComment_words h)
  obtain ⟨ws, hws, hw⟩ := List.mem_flatten.mp hw
  exact h.isWord ws hws w hw

/-- **The tokens of a script with a construct to a line** (`Script.renderLines`) are the words of
the `constructs` that do not open comments. -/
private theorem bareTokens_renderLines {s : Script} (h : s.WellFormed) :
    bareTokens s.renderLines =
      (s.constructs.filter fun ws => !opensComment ws).flatten.map Token.ofText := by
  have hlines : ∀ wss : List (List String), (∀ ws ∈ wss, ∀ w ∈ ws, IsWord w) →
      (wss.map (" ".intercalate ·)).flatMap bareTokens =
        (wss.filter fun ws => !opensComment ws).flatten.map Token.ofText := by
    intro wss hwss
    induction wss with
    | nil => rfl
    | cons ws wss ih =>
      rw [List.map_cons, List.flatMap_cons, ih fun us hus => hwss us (List.mem_cons_of_mem ws hus),
        bareTokens_line (hwss ws (by simp))]
      cases hc : opensComment ws <;> simp [hc]
  rw [Script.renderLines, bareTokens_intercalate_lineFeed, hlines s.constructs h.isWord]

/-- A field opens a comment if its key begins with `#`. -/
private theorem Field.opensComment_words (f : Field) :
    opensComment f.words = f.startsWithHash := by
  rw [opensComment, startsWithHash, words, List.head?_cons, Option.bind_some, String.toList_append]
  cases f.key.toList <;> rfl

/-! ### What is lost -/

private theorem Response.length_captures_relocate (g : Nat → Nat) (r : Response) :
    (r.relocate g).captures.length = r.captures.length := by
  rw [Response.relocate]
  split
  · exact List.length_map _
  · rfl

private theorem Entry.relocate_filterFields_eq_iff {keep : Field → Bool} {e : Entry}
    (g : Nat → Nat) :
    (e.filterFields keep).relocate g = e.relocate g ↔ ∀ f ∈ e.fields, keep f = true := by
  constructor
  · intro h f hf
    have hheaders := congrArg (fun e => e.request.headers.length) h
    have hcaptures := congrArg (fun e => e.response.captures.length) h
    simp only [Entry.relocate, Request.relocate, List.length_map,
      Response.length_captures_relocate] at hheaders hcaptures
    rcases List.mem_append.mp hf with hf | hf
    · exact List.length_filter_eq_length_iff.mp hheaders f hf
    · exact List.length_filter_eq_length_iff.mp hcaptures f hf
  · intro h
    have hheaders : e.request.headers.filter keep = e.request.headers :=
      List.filter_eq_self.mpr fun f hf => h f (List.mem_append_left _ hf)
    have hcaptures : e.response.captures.filter keep = e.response.captures :=
      List.filter_eq_self.mpr fun f hf => h f (List.mem_append_right _ hf)
    rw [Entry.filterFields, Request.filterFields, Response.filterFields, hheaders, hcaptures]

/-- A script is the same without some fields (`filterFields`) only if it has none of them. -/
private theorem Script.erase_filterFields_eq_iff {keep : Field → Bool} {s : Script} :
    (s.filterFields keep).erase = s.erase ↔
      ∀ e ∈ s.entries, ∀ f ∈ e.fields, keep f = true := by
  have hentries : (s.filterFields keep).erase = s.erase ↔
      s.entries.map (fun e => (e.filterFields keep).relocate fun _ => 0) =
        s.entries.map (Entry.relocate fun _ => 0) := by
    rw [Script.erase, Script.erase, Script.relocate, Script.relocate, Script.filterFields,
      List.map_map, Script.mk.injEq]
    exact and_iff_left rfl
  rw [hentries, List.map_inj_left]
  exact forall₂_congr fun e _ => Entry.relocate_filterFields_eq_iff _

/-! ### Round trips -/

/-- **What is read can be written, and what is written can be read.** Every script that is read is
well formed. A well-formed script is read back whole from one line. From a construct to a line it
is read back without the fields whose key begins with `#`, and so as a whole only if it has
none. -/
theorem parse_written_forms :
    (∀ (source : String) (file : Option String) (s : Script),
      parse source file = .ok s → s.erase.WellFormed) ∧
    (∀ (s : Script) (file : Option String), s.WellFormed →
      ∃ t, parse s.render file = .ok t ∧ t.erase = s.erase) ∧
    ∀ (s : Script) (file : Option String), s.WellFormed →
      ∃ t, parse s.renderLines file = .ok t ∧
        t.erase = (s.filterFields fun f => !f.startsWithHash).erase ∧
        (t.erase = s.erase ↔ ∀ e ∈ s.entries, ∀ f ∈ e.fields, f.startsWithHash = false) := by
  refine ⟨fun source file s h => wellFormed_relocate_of_parse h _, fun s file h => ?_,
    fun s file h => ?_⟩
  · have hscript := h.isScript_kept (k := fun _ => true) (by simp)
    have hall : (s.filterFields fun _ => true).erase = s.erase :=
      Script.erase_filterFields_eq_iff.mpr (by simp)
    rw [List.filter_true, hall] at hscript
    refine exists_parse_eq_ok ?_ file
    rw [bareTokens_render h]
    exact hscript
  · have hreserved : ∀ w ∈ ["GET", "POST", "HTTP", "[Capture]"], ∀ ws,
        (!opensComment (w :: ws)) = true := by
      simp [opensComment]
    have hscript := h.isScript_kept (k := fun ws => !opensComment ws) hreserved
    simp only [Field.opensComment_words] at hscript
    rw [← bareTokens_renderLines h] at hscript
    obtain ⟨t, ht, heq⟩ := exists_parse_eq_ok hscript file
    refine ⟨t, ht, heq, ?_⟩
    rw [heq, Script.erase_filterFields_eq_iff]
    simp

/-- A header whose key begins with `#` is read back from one line, and lost from a line of its
own. -/
theorem parse_written_forms_of_hash_key :
    ∃ s t u, parse "GET é #k: v k: 1 HTTP 007 [Capture] c: d" none = .ok s ∧
      s.erase.WellFormed ∧
      parse s.erase.render none = .ok t ∧ t.erase = s.erase ∧
      parse s.erase.renderLines none = .ok u ∧ u.erase ≠ s.erase ∧
      u.erase = ⟨[⟨⟨⟨"GET", "é", {}⟩, [⟨"k", "1", {}⟩], {}⟩,
        ⟨"HTTP", 7, [⟨"c", "d", {}⟩], {}⟩, {}⟩], {}⟩ := by
  have h : parse "GET é #k: v k: 1 HTTP 007 [Capture] c: d" none = .ok
      ⟨[⟨⟨⟨"GET", "é", ⟨0, 6⟩⟩, [⟨"#k", "v", ⟨7, 12⟩⟩, ⟨"k", "1", ⟨13, 17⟩⟩], ⟨0, 17⟩⟩,
        ⟨"HTTP", 7, [⟨"c", "d", ⟨37, 41⟩⟩], ⟨18, 41⟩⟩, ⟨0, 41⟩⟩], ⟨0, 41⟩⟩ := by
    decide +kernel
  obtain ⟨hread, hline, hlines⟩ := parse_written_forms
  have hw := hread _ _ _ h
  obtain ⟨t, ht, heq⟩ := hline _ none hw
  obtain ⟨u, hu, hkept, -⟩ := hlines _ none hw
  refine ⟨_, t, u, h, hw, ht, heq, hu, ?_, hkept⟩
  rw [hkept]
  decide

end RequestScript
