import RequestScript.Proofs.Parser.Passing
import RequestScript.Proofs.Token.Shift

/-!
# Places: what bears on the reports of a parse

Tokens are reported on one after another (`Phase.reports`), with the end of the text as the last
token (`Phase.reports_walk`). Only a small part of a phase bears on that: its **place**, which says
what may come next but not what was read before.

All that is shown of reactions within an entry is drawn from one relation: phases of one place
**react alike** to a token and to the same token elsewhere (`Phase.alike_feed`). It follows that
they report the same of the same tokens (`Phase.reports_congr`), and the same on other lines of
tokens that are moved (`Phase.reports_relocate`).
-/

namespace RequestScript

/-! ### The reports of one token -/

/-- The diagnostics that a reaction reports. -/
def Reaction.reports (r : Reaction) : List Diagnostic :=
  r.actions.filterMap Action.diagnostic?

namespace Reaction

@[simp]
theorem reports_take (p : Phase) : (take p).reports = [] := rfl

@[simp]
theorem next_take (p : Phase) : (take p).next = some p := rfl

@[simp]
theorem reports_precededBy_report (r : Reaction) (d : Diagnostic) :
    (r.precededBy (.report d)).reports = d :: r.reports := rfl

@[simp]
theorem reports_precededBy_close (r : Reaction) (e : Entry) :
    (r.precededBy (.close e)).reports = r.reports := rfl

@[simp]
theorem next_precededBy (r : Reaction) (a : Action) : (r.precededBy a).next = r.next := rfl

end Reaction

/-! ### The reports of many tokens -/

/-- The diagnostics that tokens cause, up to the token that is left where it stands. -/
def Phase.reports (p : Phase) : List Token → List Diagnostic
  | [] => []
  | t :: ts =>
    (p.feed t).reports ++
      match (p.feed t).next with
      | none => []
      | some q => q.reports ts

namespace Phase

theorem reports_cons_of_next {p q : Phase} {t : Token} (h : (p.feed t).next = some q)
    (ts : List Token) : p.reports (t :: ts) = (p.feed t).reports ++ q.reports ts := by
  rw [reports, h]

theorem reports_cons_of_stop {p : Phase} {t : Token} (h : (p.feed t).next = none)
    (ts : List Token) : p.reports (t :: ts) = (p.feed t).reports := by
  rw [reports, h, List.append_nil]

/-- **The `reports` of a walk** are those of its tokens and of the end. -/
theorem reports_walk (p : Phase) (stop : Position) (ts : List Token) :
    (p.walk stop ts).reports = p.reports (ts ++ [.endOfInput stop]) := by
  induction ts generalizing p with
  | nil =>
    rw [List.nil_append, reports_cons_of_stop (p.next_feed_of_endOfInput rfl), walk_nil]
    rfl
  | cons t ts ih =>
    rw [walk, List.cons_append]
    split
    · next as hf =>
      rw [reports_cons_of_stop (by rw [hf]), hf]
      rfl
    · next as q hf =>
      rw [reports_cons_of_next (q := q) (by rw [hf]), hf, Walk.reports, actions_cons,
        List.filterMap_append, ← ih q]
      rfl

end Phase

/-! ### Places -/

/-- What may come next, whatever was read of the current entry. -/
inductive Place where
  /-- A method, or the end of the text. -/
  | outside
  /-- A URL. -/
  | url
  /-- A header, or what may follow the request. -/
  | headers
  /-- The value of a header. -/
  | headerValue
  /-- A status code. -/
  | status
  /-- The tag of the captures, or another entry. -/
  | tag
  /-- A capture, or another entry. -/
  | captures
  /-- The value of a capture. -/
  | captureValue
  /-- Another entry. -/
  | closing
deriving DecidableEq, Repr, Inhabited

/-- The place of a phase. -/
def Phase.place : Phase → Place
  | .outside => .outside
  | .url _ => .url
  | .headers _ => .headers
  | .headerValue .. => .headerValue
  | .status .. => .status
  | .tag .. => .tag
  | .captures .. => .captures
  | .captureValue .. => .captureValue
  | .closing _ => .closing

/-- What is missing at a place, if the entry ends there. -/
def Place.lacks : Place → Option Expectation
  | .url => some .url
  | .headerValue | .captureValue => some .value
  | .status => some .status
  | .outside | .headers | .tag | .captures | .closing => none

/-! ### Reactions within an entry -/

section Alike

variable (t u : Token)

/-- **Two reactions are alike**, one to `t` and one to `u`: both tokens are taken, to phases of one
place; or they close an entry and are then read as between entries; and the same was missing at
both before. No reaction within an entry is of any other form. -/
inductive Reaction.Alike : Reaction → Reaction → Prop where
  /-- The tokens are taken, and an entry is open. -/
  | take {p q : Phase} (h : p.place = q.place) (hp : p.place ≠ .outside) :
      Alike (.take p) (.take q)
  /-- The entry is over. -/
  | close (e f : Entry) : Alike (Phase.feedClosing e t) (Phase.feedClosing f u)
  /-- Something is missing at the tokens. -/
  | report {r s : Reaction} (h : Alike r s) (e : Expectation) :
      Alike (r.precededBy (.report (.unexpected t e))) (s.precededBy (.report (.unexpected u e)))

variable {t u} (hu : ∃ g l, u = t.relocate g l)

namespace Phase

include hu

private theorem alike_feedResponse (r s : Request) :
    (feedResponse r t).Alike t u (feedResponse s u) := by
  obtain ⟨g, l, rfl⟩ := hu
  rw [feedResponse, feedResponse, Token.kind_relocate]
  split
  · exact .take rfl (by simp [place])
  · exact .close _ _

private theorem alike_feedHeaders (r s : Request) :
    (feedHeaders r t).Alike t u (feedHeaders s u) := by
  have hresponse := alike_feedResponse hu r s
  obtain ⟨g, l, rfl⟩ := hu
  rw [feedHeaders, feedHeaders, Token.kind_relocate, Token.key?_relocate]
  split
  · split
    · exact .take rfl (by simp [place])
    · refine .report ?_ .key
      exact .take rfl (by simp [place])
  · exact hresponse

private theorem alike_feedCaptures (r r' : Request) (s s' : Response) :
    (feedCaptures r s t).Alike t u (feedCaptures r' s' u) := by
  obtain ⟨g, l, rfl⟩ := hu
  rw [feedCaptures, feedCaptures, Token.kind_relocate, Token.key?_relocate]
  split
  · split
    · exact .take rfl (by simp [place])
    · refine .report ?_ .key
      exact .take rfl (by simp [place])
  · exact .close _ _

private theorem alike_feedUrl (m m' : Token) : (feedUrl m t).Alike t u (feedUrl m' u) := by
  have hresponse := alike_feedResponse hu { span := m.span } { span := m'.span }
  obtain ⟨g, l, rfl⟩ := hu
  rw [feedUrl, feedUrl, Token.kind_relocate]
  split
  · exact .take rfl (by simp [place])
  · exact .report hresponse .url

private theorem alike_feedStatus (r r' : Request) (m m' : Token) :
    (feedStatus r m t).Alike t u (feedStatus r' m' u) := by
  obtain ⟨g, l, rfl⟩ := hu
  rw [feedStatus, feedStatus, Token.kind_relocate, Token.status?_relocate]
  split
  · split
    · exact .take rfl (by simp [place])
    · refine .report ?_ .status
      exact .take rfl (by simp [place])
  · exact .report (.close _ _) .status

private theorem alike_feedTag (r r' : Request) (s s' : Response) :
    (feedTag r s t).Alike t u (feedTag r' s' u) := by
  obtain ⟨g, l, rfl⟩ := hu
  rw [feedTag, feedTag, Token.kind_relocate]
  split
  · exact .take rfl (by simp [place])
  · exact .close _ _

/-- **Phases of one `place` react alike**, within an entry, to a token and to the same token
elsewhere. -/
theorem alike_feed {p q : Phase} (h : p.place = q.place) (hp : p.place ≠ .outside) :
    (p.feed t).Alike t u (q.feed u) := by
  match p, q, h with
  | .outside, .outside, _ => exact absurd rfl hp
  | .closing e, .closing f, _ => exact .close e f
  | .url m, .url m', _ => exact alike_feedUrl hu m m'
  | .headers r, .headers s, _ => exact alike_feedHeaders hu r s
  | .headerValue r _ _, .headerValue s _ _, _ =>
    have hheaders := alike_feedHeaders hu r s
    obtain ⟨g, l, rfl⟩ := hu
    rw [feed, feed, Token.isValue_relocate]
    split
    · exact .take rfl (by simp [place])
    · exact .report hheaders .value
  | .status r m, .status r' m', _ => exact alike_feedStatus hu r r' m m'
  | .tag r s, .tag r' s', _ => exact alike_feedTag hu r r' s s'
  | .captures r s, .captures r' s', _ => exact alike_feedCaptures hu r r' s s'
  | .captureValue r s _ _, .captureValue r' s' _ _, _ =>
    have hcaptures := alike_feedCaptures hu r r' s s'
    obtain ⟨g, l, rfl⟩ := hu
    rw [feed, feed, Token.isValue_relocate]
    split
    · exact .take rfl (by simp [place])
    · exact .report hcaptures .value

/-- Phases of one `place` are both `outside`, or they react alike. -/
private theorem outside_or_alike_feed {p q : Phase} (h : p.place = q.place) :
    p = .outside ∧ q = .outside ∨ (p.feed t).Alike t u (q.feed u) := by
  by_cases hp : p.place = .outside
  · cases p <;> cases hp
    cases q <;> cases h
    exact .inl ⟨rfl, rfl⟩
  · exact .inr (alike_feed hu h hp)

end Phase

end Alike

/-- A phase is between entries, or it reacts to a token as all phases of its place do. -/
theorem Phase.outside_or_alike_self (p : Phase) (t : Token) :
    p = .outside ∨ (p.feed t).Alike t t (p.feed t) :=
  (outside_or_alike_feed ⟨id, id, rfl⟩ rfl).imp_left And.left

/-! ### Moved tokens -/

/-- The diagnostic with its line moved. -/
def Diagnostic.relocate (k : Nat → Nat) (d : Diagnostic) : Diagnostic :=
  { d with line := k d.line }

section Relocation

/-! Diagnostics count lines from one, and tokens from zero. -/

variable {g l k : Nat → Nat} (hk : ∀ n, k (n + 1) = l n + 1) (t : Token)

include hk in
theorem Diagnostic.unexpected_relocate (e : Expectation) :
    unexpected (t.relocate g l) e = (unexpected t e).relocate k := by
  simp only [unexpected, ofToken, relocate, Token.line_relocate, hk]
  rfl

private theorem Phase.place_next_feedOutside :
    (feedOutside (t.relocate g l)).next.map place = (feedOutside t).next.map place := by
  rw [feedOutside, feedOutside, Token.kind_relocate]
  split
  · rfl
  · split <;> rfl

include hk in
private theorem Phase.reports_feedOutside :
    (feedOutside (t.relocate g l)).reports =
      (feedOutside t).reports.map (Diagnostic.relocate k) := by
  rw [feedOutside, feedOutside, Token.kind_relocate]
  split
  · rfl
  · split
    · rfl
    · exact congrArg (· :: []) (Diagnostic.unexpected_relocate hk t .method)

namespace Reaction.Alike

variable {t} {r s : Reaction}

private theorem place_next_eq (h : Alike t (t.relocate g l) r s) :
    s.next.map Phase.place = r.next.map Phase.place := by
  induction h with
  | take h => exact congrArg some h.symm
  | close e f => exact Phase.place_next_feedOutside t
  | report _ e ih => exact ih

include hk in
private theorem reports_eq (h : Alike t (t.relocate g l) r s) :
    s.reports = r.reports.map (Diagnostic.relocate k) := by
  induction h with
  | take => rfl
  | close e f => exact Phase.reports_feedOutside hk t
  | report _ e ih =>
    rw [reports_precededBy_report, reports_precededBy_report, List.map_cons, ih,
      Diagnostic.unexpected_relocate hk]

end Reaction.Alike

namespace Phase

variable {p q : Phase}

private theorem place_next_feed (h : p.place = q.place) :
    (q.feed (t.relocate g l)).next.map place = (p.feed t).next.map place := by
  rcases outside_or_alike_feed ⟨g, l, rfl⟩ h with ⟨rfl, rfl⟩ | ha
  · exact place_next_feedOutside t
  · exact ha.place_next_eq

include hk in
private theorem reports_feed (h : p.place = q.place) :
    (q.feed (t.relocate g l)).reports = (p.feed t).reports.map (Diagnostic.relocate k) := by
  rcases outside_or_alike_feed ⟨g, l, rfl⟩ h with ⟨rfl, rfl⟩ | ha
  · exact reports_feedOutside hk t
  · exact ha.reports_eq hk

include hk in
/-- **The reports of moved tokens** are those of the tokens, on lines that are moved with them
(`Diagnostic.relocate`). -/
theorem reports_relocate (h : p.place = q.place) (ts : List Token) :
    q.reports (ts.map (Token.relocate g l)) = (p.reports ts).map (Diagnostic.relocate k) := by
  induction ts generalizing p q with
  | nil => rfl
  | cons t ts ih =>
    have hplace := place_next_feed (g := g) (l := l) t h
    have hreports := reports_feed (g := g) hk t h
    rw [List.map_cons]
    cases hp : (p.feed t).next with
    | none =>
      rw [hp, Option.map_none, Option.map_eq_none_iff] at hplace
      rw [reports_cons_of_stop hplace, reports_cons_of_stop hp, hreports]
    | some p' =>
      rw [hp, Option.map_some, Option.map_eq_some_iff] at hplace
      obtain ⟨q', hq, hplace⟩ := hplace
      rw [reports_cons_of_next hq, reports_cons_of_next hp, hreports, List.map_append,
        ih hplace.symm]

end Phase

end Relocation

/-- **Only the `place` of a phase bears on its reports.** -/
theorem Phase.reports_congr {p q : Phase} (h : p.place = q.place) (ts : List Token) :
    p.reports ts = q.reports ts := by
  have hr := reports_relocate (g := id) (l := id) (k := id) (fun _ => rfl) h.symm ts
  have ht : Token.relocate id id = id := funext fun _ => rfl
  have hd : Diagnostic.relocate id = id := funext fun _ => rfl
  rwa [ht, hd, List.map_id, List.map_id] at hr

end RequestScript
