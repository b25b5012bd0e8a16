import RequestScript.Proofs.Script.Likeness
import RequestScript.Proofs.Token.Cutting
import RequestScript.Proofs.Token.Layout
import RequestScript.Proofs.Token.Trivia

/-!
# Lines that say nothing

A blank line or a comment can be put anywhere between two lines of a text, within an entry or
within a field. It has no tokens, so nothing changes but where the rest of the text stands
(`parse_insert_line`):

* tokens before the new line stay where they are (`Token.relocate_raiseAbove_eq_self`), and
* tokens after it are moved on by its bytes and its line feed, and by one line
  (`Token.relocate_raiseAbove_shift`).

Whether a token stands before or after is told by its place alone, so one map of offsets and one
map of lines do for all of them (`toList_tokenize_insert_line`).
-/

namespace RequestScript

/-- The number `n`, with `d` added to it if it is greater than `bound`. -/
def raiseAbove (bound d n : Nat) : Nat :=
  if bound < n then n + d else n

private theorem raiseAbove_of_le {bound d n : Nat} (h : n ≤ bound) : raiseAbove bound d n = n :=
  if_neg (Nat.not_lt.mpr h)

private theorem raiseAbove_of_lt {bound d n : Nat} (h : bound < n) :
    raiseAbove bound d n = n + d :=
  if_pos h

/-- `raiseAbove` with a higher bound for higher numbers. -/
private theorem raiseAbove_add_one (bound d n : Nat) :
    raiseAbove (bound + 1) d (n + 1) = raiseAbove bound d n + 1 := by
  simp only [raiseAbove, Nat.add_lt_add_iff_right]
  split <;> omega

/-- **Tokens before the bounds stay where they are** (`raiseAbove`). -/
private theorem Token.relocate_raiseAbove_eq_self {t : Token} {source : String}
    (ht : t ∈ (tokenize source).toList) (d e : Nat) :
    t.relocate (raiseAbove (byteLength source.toList) d)
      (raiseAbove (source.toList.count '\n') e) =
      t := by
  obtain ⟨before, after, hsource, hline, hspan⟩ := exists_place_of_mem_tokenize ht
  have hlines : t.line ≤ source.toList.count '\n' := by
    rw [hline, hsource, List.count_append, List.count_append]
    omega
  have hstop : t.span.stop ≤ byteLength source.toList := by
    rw [hspan, hsource, byteLength_append _ after]
    exact Nat.le_add_right _ _
  have hstart : t.span.start ≤ t.span.stop := by
    rw [hspan, byteLength_append]
    exact Nat.le_add_right _ _
  rw [relocate, Span.map, raiseAbove_of_le hlines, raiseAbove_of_le hstop,
    raiseAbove_of_le (Nat.le_trans hstart hstop)]

/-- **Tokens after the bounds are moved on** (`raiseAbove`), by `d` bytes and `e` lines. -/
private theorem Token.relocate_raiseAbove_shift (t : Token) (p : Position) (d e : Nat) :
    (t.shift ⟨p.offset + 1, p.line + 1⟩).relocate (raiseAbove p.offset d) (raiseAbove p.line e) =
      t.shift ⟨p.offset + 1 + d, p.line + 1 + e⟩ := by
  have hraise : ∀ bound d n, raiseAbove bound d (n + (bound + 1)) = n + (bound + 1 + d) :=
    fun bound d n => (raiseAbove_of_lt (by omega)).trans (Nat.add_assoc n (bound + 1) d)
  simp only [shift, relocate, Span.map, hraise]

section

variable {a b x : String} (hx : '\n' ∉ x.toList) (hline : IsTriviaLine x.toList)

include hx hline

/-- **The tokens of a text with a new line** `x` are those that it had before, moved. -/
theorem toList_tokenize_insert_line :
    (tokenize (a ++ "\n" ++ x ++ "\n" ++ b)).toList =
      (tokenize (a ++ "\n" ++ b)).toList.map
        (Token.relocate (raiseAbove (byteLength a.toList) (byteLength x.toList + 1))
          (raiseAbove (a.toList.count '\n') 1)) := by
  have hbefore : (tokenize a).tokens.map
      (Token.relocate (raiseAbove (byteLength a.toList) (byteLength x.toList + 1))
        (raiseAbove (a.toList.count '\n') 1)) = (tokenize a).tokens := by
    refine (List.map_congr_left fun t ht => ?_).trans (List.map_id _)
    exact Token.relocate_raiseAbove_eq_self (List.mem_append_left _ ht) _ _
  have hafter : Position.afterLine (a ++ "\n" ++ x) =
      ⟨byteLength a.toList + 1 + (byteLength x.toList + 1), a.toList.count '\n' + 1 + 1⟩ := by
    have hcount : x.toList.count '\n' = 0 := List.count_eq_zero.mpr hx
    have hsize : '\n'.utf8Size = 1 := by decide
    simp [Position.afterLine, hcount, hsize, Nat.add_assoc]
  rw [toList_tokenize_append_lineFeed, toList_tokenize_append_lineFeed,
    tokens_tokenize_append_lineFeed, tokens_tokenize_of_isTriviaLine hx hline, List.map_nil,
    List.append_nil, List.map_append, hbefore, List.map_map, hafter]
  refine congrArg _ (List.map_congr_left fun t _ => ?_)
  exact (Token.relocate_raiseAbove_shift t ⟨byteLength a.toList, a.toList.count '\n'⟩ _ _).symm

/-- **A blank line or a comment changes nothing but positions.** If it is put between two lines of
a text, offsets after the first part are moved on by its bytes and its line feed (`raiseAbove`),
and lines after the first part by one. All else stays as it is. -/
theorem parse_insert_line (file : Option String) :
    (∃ p, parse (a ++ "\n" ++ b) file = .ok p ∧
      parse (a ++ "\n" ++ x ++ "\n" ++ b) file =
        .ok (p.relocate (raiseAbove (byteLength a.toList) (byteLength x.toList + 1)))) ∨
    ∃ r, parse (a ++ "\n" ++ b) file = .error r ∧
      parse (a ++ "\n" ++ x ++ "\n" ++ b) file = .error { r with
        diagnostics := r.diagnostics.map
          (Diagnostic.relocate (raiseAbove (a.toList.count '\n' + 1) 1)) } :=
  parse_of_toList_eq_map (raiseAbove_add_one _ 1) (toList_tokenize_insert_line hx hline) file

end

/-- A comment with a method and an illegal character, between a marker and its status code; and a
blank line between a key and what stands in the place of its value. -/
theorem parse_insert_line_of_split_fields :
    ('\n' ∉ " # GET \x01 é".toList ∧ IsTriviaLine " # GET \x01 é".toList ∧
      parse "GET é\nHTTP\n # GET \x01 é\n200" none = .ok
        ⟨[⟨⟨⟨"GET", "é", ⟨0, 6⟩⟩, [], ⟨0, 6⟩⟩, ⟨"HTTP", 200, [], ⟨7, 27⟩⟩, ⟨0, 27⟩⟩], ⟨0, 27⟩⟩) ∧
    '\n' ∉ "\t ".toList ∧ IsTriviaLine "\t ".toList ∧
      parse "GET u x k:\n\t \n:" none = .error ⟨none,
        [⟨.expected "`key:`", 1, "x"⟩, ⟨.expected "value", 3, ":"⟩,
          ⟨.expected "`key:`", 3, ":"⟩]⟩ := by
  have hcomment : '\n' ∉ " # GET \x01 é".toList := by decide
  have hblank : '\n' ∉ "\t ".toList := by decide
  have hcommentLine : IsTriviaLine " # GET \x01 é".toList := .inr (by decide)
  have hblankLine : IsTriviaLine "\t ".toList :=
    .inl (List.all_eq_true.mp (by decide))
  have hok : parse "GET é\nHTTP\n200" none = .ok
      ⟨[⟨⟨⟨"GET", "é", ⟨0, 6⟩⟩, [], ⟨0, 6⟩⟩, ⟨"HTTP", 200, [], ⟨7, 15⟩⟩, ⟨0, 15⟩⟩], ⟨0, 15⟩⟩ := by
    decide +kernel
  have herror : parse "GET u x k:\n:" none = .error ⟨none,
      [⟨.expected "`key:`", 1, "x"⟩, ⟨.expected "value", 2, ":"⟩,
        ⟨.expected "`key:`", 2, ":"⟩]⟩ := by
    decide +kernel
  refine ⟨⟨hcomment, hcommentLine, ?_⟩, hblank, hblankLine, ?_⟩
  · obtain ⟨p, hp, hmoved⟩ | ⟨r, hr, -⟩ :=
      parse_insert_line (a := "GET é\nHTTP") (b := "200") hcomment hcommentLine none
    · obtain rfl := Except.ok.inj (hok.symm.trans hp)
      exact hmoved
    · cases hok.symm.trans hr
  · obtain ⟨p, hp, -⟩ | ⟨r, hr, hmoved⟩ :=
      parse_insert_line (a := "GET u x k:") (b := ":") hblank hblankLine none
    · cases herror.symm.trans hp
    · obtain rfl := Except.error.inj (herror.symm.trans hr)
      exact hmoved

end RequestScript
