import RequestScript.Proofs.Parser.Reports

/-!
# Rejections can be read back

The text of a rejection has all diagnostics in one line, and the text of each token in it as it was
found. Still it tells the diagnostics apart: they can be read back from it
(`Rejection.readMessage?_message`), so texts that are rejected in the same words are rejected with
the same diagnostics (`message_determines_diagnostics`).

A text is cut wherever a comma is followed by a space (`cutAtCommas`). Each diagnostic gives three
pieces then, one for its line, one for its fault and one for its token, provided that none of them
is cut further. So a diagnostic is **legible** if its fault is one of those that a parse can find,
whose words have no comma, and the text of its token has no space. Other diagnostics may look like
several ones, but a parse finds legible ones only (`legible_of_mem_complaints`).
-/

namespace RequestScript

/-! ### Cutting at commas -/

/-- The pieces of a text between its separators, which are a comma and a space each. -/
def cutAtCommas : List Char → List (List Char)
  | [] => [[]]
  | ',' :: ' ' :: cs => [] :: cutAtCommas cs
  | c :: cs => (cutAtCommas cs).modifyHead (c :: ·)

/-- A text is **uncut** if it is all one piece. -/
def Uncut (p : List Char) : Prop :=
  cutAtCommas p = [p]

/-- A comma is needed for a cut: any other character in front leaves the piece `Uncut`. -/
theorem Uncut.cons {c : Char} {p : List Char} (hc : c ≠ ',') (hp : Uncut p) : Uncut (c :: p) := by
  rw [Uncut, cutAtCommas, hp, List.modifyHead_cons]
  exact fun _ h => absurd h hc

/-- Characters other than commas may come first: they leave the piece `Uncut`. -/
theorem Uncut.append {as p : List Char} (has : ',' ∉ as) (hp : Uncut p) : Uncut (as ++ p) := by
  induction as with
  | nil => exact hp
  | cons a as ih =>
    rw [List.mem_cons, not_or] at has
    exact (ih has.2).cons (Ne.symm has.1)

private theorem uncut_of_not_mem_comma {p : List Char} (h : ',' ∉ p) : Uncut p :=
  List.append_nil p ▸ Uncut.append h rfl

/-- A space is needed for a cut. -/
private theorem uncut_of_not_mem_space {p : List Char} (h : ' ' ∉ p) : Uncut p := by
  induction p with
  | nil => rfl
  | cons c p ih =>
    rw [List.mem_cons, not_or] at h
    rw [Uncut, cutAtCommas, ih h.2, List.modifyHead_cons]
    rintro cs - rfl
    simp at h

/-- **A piece is cut off** at the first separator after it. Commas at its own end stay with it, as
`Uncut` allows. -/
private theorem Uncut.cutAtCommas_append {p : List Char} (h : Uncut p) (cs : List Char) :
    cutAtCommas (p ++ ',' :: ' ' :: cs) = p :: cutAtCommas cs := by
  unfold Uncut at h
  fun_induction cutAtCommas p with
  | case1 => rfl
  | case2 => simp at h
  | case3 c p hne ih =>
    have hp : cutAtCommas p = [p] := by
      cases hcut : cutAtCommas p with
      | nil => simp [hcut] at h
      | cons q qs => simpa [hcut] using h
    rw [List.cons_append, cutAtCommas, ih hp, List.modifyHead_cons]
    -- no separator starts at `c`: what follows `c` is a piece, or it is a comma
    rintro ds rfl hds
    cases p with
    | nil => simp at hds
    | cons d p =>
      obtain ⟨rfl, -⟩ := List.cons.inj hds
      exact hne p rfl rfl

/-! ### Legible diagnostics -/

namespace Fault

/-- The faults that a parse can find. -/
def known : List Fault :=
  [.illegalCharacter, .noRequest, .expected Expectation.method.name,
    .expected Expectation.url.name, .expected Expectation.status.name,
    .expected Expectation.key.name, .expected Expectation.value.name]

/-- The known fault with these words. -/
def ofMessage? (cs : List Char) : Option Fault :=
  known.find? fun f => f.message.toList == cs

private theorem expected_mem_known (e : Expectation) : .expected e.name ∈ known := by
  cases e <;> decide

/-- A `known` fault is found again by its words. -/
theorem ofMessage?_message {f : Fault} (h : f ∈ known) : ofMessage? f.message.toList = some f := by
  have hall : ∀ f ∈ known, ofMessage? f.message.toList = some f := by decide +kernel
  exact hall f h

/-- The words of a known fault have no comma. -/
private theorem not_mem_message {f : Fault} (h : f ∈ known) : ',' ∉ f.message.toList := by
  have hall : ∀ f ∈ known, ',' ∉ f.message.toList := by decide +kernel
  exact hall f h

end Fault

namespace Diagnostic

/-- **A diagnostic is legible** if its text can be read back. -/
structure Legible (d : Diagnostic) : Prop where
  /-- The words of the fault are known. -/
  fault : d.fault ∈ Fault.known
  /-- The token has no space in its text. -/
  literal : ' ' ∉ d.literal.toList

/-- What comes before the line in the text of a diagnostic. -/
def lineLabel : List Char :=
  ['l', 'i', 'n', 'e', ' ']

/-- What comes before the token in the text of a diagnostic. -/
def tokenLabel : List Char :=
  ['g', 'o', 't', ':', ' ']

/-- The piece for the line of a diagnostic. -/
def linePiece (d : Diagnostic) : List Char :=
  lineLabel ++ Decimal.digits d.line

/-- The piece for the token of a diagnostic. -/
def tokenPiece (d : Diagnostic) : List Char :=
  tokenLabel ++ d.literal.toList

/-- The pieces of the text of a diagnostic. -/
def pieces (d : Diagnostic) : List (List Char) :=
  [d.linePiece, d.fault.message.toList, d.tokenPiece]

/-- The text of a diagnostic consists of its `linePiece`, its fault and its `tokenPiece`. -/
private theorem toList_message (d : Diagnostic) :
    d.message.toList =
      d.linePiece ++ ',' :: ' ' :: (d.fault.message.toList ++ ',' :: ' ' :: d.tokenPiece) := by
  simp [message, linePiece, lineLabel, tokenPiece, tokenLabel]

/-- The diagnostic with these pieces. -/
def ofPieces? (line fault token : List Char) : Option Diagnostic :=
  (Fault.ofMessage? fault).map fun f =>
    ⟨f, Decimal.value (line.drop lineLabel.length), String.ofList (token.drop tokenLabel.length)⟩

/-- The diagnostics with these pieces. -/
def ofAllPieces? : List (List Char) → Option (List Diagnostic)
  | [] => some []
  | line :: fault :: token :: ps => do
    let d ← ofPieces? line fault token
    let ds ← ofAllPieces? ps
    return d :: ds
  | _ => none

private theorem uncut_linePiece (d : Diagnostic) : Uncut d.linePiece := by
  refine Uncut.append (by decide) (uncut_of_not_mem_comma fun h => ?_)
  exact absurd (Decimal.isDigit_of_mem_digits h) (by decide)

namespace Legible

variable {d : Diagnostic}

/-- A legible diagnostic is found again by its pieces (`ofPieces?`). -/
private theorem ofPieces?_eq (h : d.Legible) :
    ofPieces? d.linePiece d.fault.message.toList d.tokenPiece = some d := by
  rw [ofPieces?, Fault.ofMessage?_message h.fault, linePiece, List.drop_left, Decimal.value_digits,
    tokenPiece, List.drop_left, String.ofList_toList]
  rfl

private theorem uncut_tokenPiece (h : d.Legible) : Uncut d.tokenPiece :=
  Uncut.append (by decide) (uncut_of_not_mem_space h.literal)

/-- The pieces before the token are cut off, whatever comes next. -/
private theorem cutAtCommas_line_fault (h : d.Legible) (cs : List Char) :
    cutAtCommas (d.linePiece ++ ',' :: ' ' :: (d.fault.message.toList ++ ',' :: ' ' :: cs)) =
      d.linePiece :: d.fault.message.toList :: cutAtCommas cs := by
  have hfault : Uncut d.fault.message.toList :=
    uncut_of_not_mem_comma (Fault.not_mem_message h.fault)
  rw [d.uncut_linePiece.cutAtCommas_append, hfault.cutAtCommas_append]

/-- **The text of a legible diagnostic is cut into its `pieces`.** -/
private theorem cutAtCommas_message (h : d.Legible) : cutAtCommas d.message.toList = d.pieces := by
  rw [toList_message, h.cutAtCommas_line_fault, h.uncut_tokenPiece, pieces]

/-- The pieces of a legible diagnostic are cut off, whatever comes next. -/
private theorem cutAtCommas_message_append (h : d.Legible) (cs : List Char) :
    cutAtCommas (d.message.toList ++ ',' :: ' ' :: cs) = d.pieces ++ cutAtCommas cs := by
  simp only [toList_message, List.append_assoc, List.cons_append]
  rw [h.cutAtCommas_line_fault, h.uncut_tokenPiece.cutAtCommas_append]
  rfl

end Legible

/-- **Legible diagnostics are found again by their `pieces`.** -/
private theorem ofAllPieces?_flatMap_pieces {ds : List Diagnostic} (h : ∀ d ∈ ds, d.Legible) :
    ofAllPieces? (ds.flatMap pieces) = some ds := by
  induction ds with
  | nil => rfl
  | cons d ds ih =>
    obtain ⟨hd, hds⟩ := List.forall_mem_cons.mp h
    rw [List.flatMap_cons, pieces]
    simp only [List.cons_append, List.nil_append, ofAllPieces?]
    rw [hd.ofPieces?_eq, ih hds]
    rfl

/-- **The joined texts of legible diagnostics are cut into their `pieces`.** -/
private theorem cutAtCommas_intercalate {ds : List Diagnostic} (hne : ds ≠ [])
    (h : ∀ d ∈ ds, d.Legible) :
    cutAtCommas (", ".intercalate (ds.map message)).toList = ds.flatMap pieces := by
  induction ds with
  | nil => exact absurd rfl hne
  | cons d ds ih =>
    obtain ⟨hd, hds⟩ := List.forall_mem_cons.mp h
    cases ds with
    | nil => simpa using hd.cutAtCommas_message
    | cons e es =>
      rw [List.flatMap_cons, ← ih (by simp) hds, ← hd.cutAtCommas_message_append]
      simp [String.intercalate_cons_cons]

end Diagnostic

/-- **What a parse complains of is legible** (`Diagnostic.Legible`). -/
theorem legible_of_mem_complaints {source : String} {file : Option String} {d : Diagnostic}
    (h : d ∈ complaints (parse source file)) : d.Legible := by
  have hspace {t : Token} (ht : t ∈ (tokenize source).toList) : ' ' ∉ t.literal.toList :=
    Cursor.not_mem_of_isBlank ht isBlank_space
  rw [complaints_parse, TokenStream.findings_walk, List.mem_append] at h
  rcases h with h | h
  · obtain ⟨t, ht, e, rfl⟩ := Phase.exists_unexpected_of_mem_reports h
    refine ⟨?_, hspace ht⟩
    rw [Diagnostic.unexpected, Diagnostic.ofToken]
    split
    · simp [Fault.known]
    · exact Fault.expected_mem_known e
  · split at h
    · cases h
    · obtain rfl := List.mem_singleton.mp h
      obtain ⟨ts, hts⟩ := (tokenize source).exists_toList_eq_cons
      exact ⟨by simp [Diagnostic.noRequest, Diagnostic.ofToken, Fault.known],
        hspace (by simp [hts])⟩

/-! ### Reading back -/

namespace Rejection

/-- What stands before the diagnostics in the text of a rejection. -/
def heading : Option String → List Char
  | none => []
  | some name => name.toList ++ [':', ' ']

/-- The diagnostics in the text of a rejection. -/
def readMessage? (file : Option String) (text : String) : Option (List Diagnostic) :=
  Diagnostic.ofAllPieces? (cutAtCommas (text.toList.drop (heading file).length))

private theorem toList_message (r : Rejection) :
    r.message.toList = heading r.file ++ (", ".intercalate r.messages).toList := by
  obtain ⟨file, ds⟩ := r
  cases file <;> simp [message, heading]

/-- **A rejection with legible diagnostics is read back**: `readMessage?` takes back
`Rejection.message`. -/
theorem readMessage?_message {r : Rejection} (hne : r.diagnostics ≠ [])
    (h : ∀ d ∈ r.diagnostics, d.Legible) : readMessage? r.file r.message = some r.diagnostics := by
  rw [readMessage?, toList_message, List.drop_left, messages,
    Diagnostic.cutAtCommas_intercalate hne h, Diagnostic.ofAllPieces?_flatMap_pieces h]

/-- Not every rejection is read back: one diagnostic may look like two. -/
example :
    (⟨none, [⟨.noRequest, 1, "u, line 2, expected URL, got: v"⟩]⟩ : Rejection).message =
      (⟨none, [⟨.noRequest, 1, "u"⟩, ⟨.expected "URL", 2, "v"⟩]⟩ : Rejection).message := by
  decide +kernel

end Rejection

/-- **The text of a rejection can be read back** by `readMessage?`, given the name of the file: it
tells what the parse found. So if two parses are rejected in the same words, they found the
same. -/
theorem message_determines_diagnostics (file : Option String) :
    (∀ source r, parse source file = .error r →
      Rejection.readMessage? file r.message = some r.diagnostics) ∧
    ∀ a b r s, parse a file = .error r → parse b file = .error s →
      r.message = s.message → r.diagnostics = s.diagnostics := by
  have hread : ∀ source r, parse source file = .error r →
      Rejection.readMessage? file r.message = some r.diagnostics := by
    intro source r hr
    obtain ⟨hne, rfl⟩ := eq_of_parse_eq_error hr
    exact Rejection.readMessage?_message (r := ⟨file, complaints (parse source file)⟩) hne
      fun d hd => legible_of_mem_complaints hd
  refine ⟨hread, fun a b r s hr hs hmessage => ?_⟩
  have hsome : some r.diagnostics = some s.diagnostics := by
    rw [← hread a r hr, hmessage, hread b s hs]
  exact Option.some.inj hsome

/-- Words with colons and commas, in a file with a comma in its name. -/
theorem message_determines_diagnostics_of_commas :
    (∃ r, parse "GET u\n  HTTP got:,\n POST" (some "x, y") = .error r ∧
      r.message = "x, y: line 2, expected status code, got: got:,, " ++
        "line 2, expected HTTP method, got: got:," ∧
      Rejection.readMessage? (some "x, y") r.message =
        some [⟨.expected "status code", 2, "got:,"⟩, ⟨.expected "HTTP method", 2, "got:,"⟩]) ∧
    ∃ r s, parse "GET u\n  HTTP got:,\n POST" (some "x, y") = .error r ∧
      parse "# GET\nPOST v HTTP got:," (some "x, y") = .error s ∧ r.message = s.message ∧
        r.diagnostics = s.diagnostics := by
  obtain ⟨hread, hsame⟩ := message_determines_diagnostics (some "x, y")
  have herror : ∀ source, complaints (parse source (some "x, y")) =
      [⟨.expected "status code", 2, "got:,"⟩, ⟨.expected "HTTP method", 2, "got:,"⟩] →
        parse source (some "x, y") = .error ⟨some "x, y",
          [⟨.expected "status code", 2, "got:,"⟩, ⟨.expected "HTTP method", 2, "got:,"⟩]⟩ :=
    fun source h => h ▸ parse_eq_error (by simp [h])
  have ha := herror "GET u\n  HTTP got:,\n POST" (by decide +kernel)
  have hb := herror "# GET\nPOST v HTTP got:," (by decide +kernel)
  exact ⟨⟨_, ha, by decide +kernel, hread _ _ ha⟩, _, _, ha, hb, rfl, hsame _ _ _ _ ha hb rfl⟩

end RequestScript
