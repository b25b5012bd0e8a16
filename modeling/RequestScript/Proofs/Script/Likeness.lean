import RequestScript.Proofs.Grammar.Recognition
import RequestScript.Proofs.Grammar.Relocation
import RequestScript.Proofs.Parser.Reports

/-!
# Texts with the same tokens elsewhere

No decision of a parse looks at a place. So two texts are parsed alike if their tokens, the end of
the text among them, are the same once they are moved:

* their diagnostics are the same once their lines are moved (`map_relocate_complaints_eq`), and
* if one text is a script, then so is the other, with the same nodes once their offsets are moved
  (`exists_parse_eq_ok_of_alike`).

Where the tokens of one text are those of the other, moved, the two laws together tell the parse of
the one by that of the other (`parse_of_toList_eq_map`).

The lines of diagnostics are moved by `k` where those of tokens are moved by `l`: diagnostics count
lines from one, and tokens from zero.
-/

namespace RequestScript

open Grammar

/-! ### Findings -/

/-- The `findings` of a stream are told by its tokens and its end alone. -/
private theorem TokenStream.findings_walk_of_toList {s : TokenStream} {t : Token} {ts : List Token}
    (h : s.toList = t :: ts) :
    s.walk.findings =
      Phase.outside.reports (t :: ts) ++ if t.kind.isMethod then [] else [.noRequest t] := by
  obtain ⟨us, hus⟩ := s.exists_toList_eq_cons
  obtain ⟨rfl, -⟩ := List.cons.inj (h.symm.trans hus)
  rw [findings_walk, h]

section

variable {g l k : Nat → Nat} (hk : ∀ n, k (n + 1) = l n + 1)

include hk

theorem Diagnostic.noRequest_relocate (t : Token) :
    noRequest (t.relocate g l) = (noRequest t).relocate k := by
  simp only [noRequest, ofToken, relocate, Token.line_relocate, hk]
  rfl

/-- **Moved `findings`** are those of the moved tokens. -/
theorem TokenStream.map_relocate_findings {s : TokenStream} {t : Token} {ts : List Token}
    (h : s.toList.map (Token.relocate g l) = t :: ts) :
    s.walk.findings.map (Diagnostic.relocate k) =
      Phase.outside.reports (t :: ts) ++ if t.kind.isMethod then [] else [.noRequest t] := by
  obtain ⟨u, us, hus, rfl, rfl⟩ := List.map_eq_cons_iff.mp h
  rw [findings_walk_of_toList hus, List.map_append, ← Phase.reports_relocate (g := g) hk rfl,
    List.map_cons, Token.kind_relocate]
  split
  · rfl
  · rw [List.map_singleton, Diagnostic.noRequest_relocate hk]

end

/-! ### Texts with the same tokens elsewhere -/

section Alike

variable {a b : String} {file : Option String} {g l g' l' : Nat → Nat}
  (h : (tokenize a).toList.map (Token.relocate g l) =
    (tokenize b).toList.map (Token.relocate g' l'))

include h

/-- **The diagnostics are the same** on lines that are moved with the tokens, by `k` and `k'`. -/
theorem map_relocate_complaints_eq (k k' : Nat → Nat) (hk : ∀ n, k (n + 1) = l n + 1)
    (hk' : ∀ n, k' (n + 1) = l' n + 1) :
    (complaints (parse a file)).map (Diagnostic.relocate k) =
      (complaints (parse b file)).map (Diagnostic.relocate k') := by
  obtain ⟨t, ht⟩ := (tokenize a).exists_toList_eq_cons
  have ha := congrArg (List.map (Token.relocate g l)) ht
  rw [List.map_cons] at ha
  rw [complaints_parse, complaints_parse, TokenStream.map_relocate_findings hk ha,
    TokenStream.map_relocate_findings hk' (h.symm.trans ha)]

/-- **If one text is a script, then so is the other**, and the scripts are the same at offsets that
are moved with the tokens, by `g` and `g'`. -/
theorem exists_parse_eq_ok_of_alike {p : Script} (hp : parse a file = .ok p) :
    ∃ q, parse b file = .ok q ∧ q.relocate g' = p.relocate g := by
  have htokens : (tokenize a).tokens.map (Token.relocate g l) =
      (tokenize b).tokens.map (Token.relocate g' l') := by
    rw [TokenStream.toList, TokenStream.toList, List.map_append, List.map_append] at h
    exact (List.append_inj' h rfl).1
  have hmoved := (parse_eq_ok_iff.mp hp).relocate (g := g) (l := l) fun t ht =>
    literal_ne_empty_of_mem_tokenize ht
  rw [htokens] at hmoved
  obtain ⟨q, hq, hpq⟩ := hmoved.exists_of_map fun t ht => literal_ne_empty_of_mem_tokenize ht
  exact ⟨q, parse_eq_ok_iff.mpr hq, hpq.symm⟩

end Alike

/-- **A text `b` with the tokens of another one, moved**, is the same script with its offsets moved
by `g`, or it is rejected with the same diagnostics on lines that are moved by `k`. -/
theorem parse_of_toList_eq_map {a b : String} {g l k : Nat → Nat}
    (hk : ∀ n, k (n + 1) = l n + 1)
    (h : (tokenize b).toList = (tokenize a).toList.map (Token.relocate g l))
    (file : Option String) :
    (∃ p, parse a file = .ok p ∧ parse b file = .ok (p.relocate g)) ∨
      ∃ r, parse a file = .error r ∧
        parse b file =
          .error { r with diagnostics := r.diagnostics.map (Diagnostic.relocate k) } := by
  have halike : (tokenize a).toList.map (Token.relocate g l) =
      (tokenize b).toList.map (Token.relocate id id) :=
    h.symm.trans (List.map_id _).symm
  by_cases hnone : complaints (parse a file) = []
  · obtain ⟨p, hp⟩ := exists_parse_eq_ok_iff.mpr hnone
    obtain ⟨q, hq, hpq⟩ := exists_parse_eq_ok_of_alike halike hp
    rw [Script.relocate_id] at hpq
    exact .inl ⟨p, hp, hpq ▸ hq⟩
  · have hcomplaints : (complaints (parse a file)).map (Diagnostic.relocate k) =
        complaints (parse b file) :=
      (map_relocate_complaints_eq halike k id hk fun _ => rfl).trans (List.map_id _)
    have hb : complaints (parse b file) ≠ [] := by
      rw [← hcomplaints]
      exact mt List.map_eq_nil_iff.mp hnone
    refine .inr ⟨_, parse_eq_error hnone, ?_⟩
    rw [hcomplaints]
    exact parse_eq_error hb

end RequestScript
