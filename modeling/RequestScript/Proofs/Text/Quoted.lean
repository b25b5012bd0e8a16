import RequestScript.Text.CharClass
import RequestScript.Text.Quoted

/-!
# Quotations

What the log shows of a file's name tells the name (`Quoted.quoteOption_injective`), and it stands
on one line, since it has no control character (`Quoted.isControl_eq_false_of_mem_quote`).

A name is told by reading it back, one character after another: `Quoted.readChar?` undoes
`Quoted.escapeChar`, whatever follows (`Quoted.readChar?_escapeChar_append`).
-/

namespace RequestScript

/-- **Control characters are hidden**: what `isControl` holds of, `isHidden` holds of. -/
theorem isHidden_of_isControl {c : Char} (h : isControl c = true) : isHidden c = true := by
  have hlow : (0x0, 0x1F) ∈ hiddenRanges := by decide +kernel
  have hhigh : (0x7F, 0xA0) ∈ hiddenRanges := by decide +kernel
  rw [isControl, decide_eq_true_eq] at h
  rcases h with h | h
  · exact List.any_eq_true.mpr ⟨_, hlow, decide_eq_true (by omega)⟩
  · exact List.any_eq_true.mpr ⟨_, hhigh, decide_eq_true (by omega)⟩

namespace Quoted

/-! ### Code points in hexadecimal digits -/

/-- The value of a hexadecimal digit. -/
def hexDigitValue (c : Char) : Nat :=
  if c.isDigit then c.toNat - '0'.toNat else c.toNat - 'a'.toNat + 10

/-- The value of a run of hexadecimal digits, the most significant first. -/
def hexValue (cs : List Char) : Nat :=
  cs.foldl (fun n c => 16 * n + hexDigitValue c) 0

private theorem digitChar_lt_sixteen {d : Nat} (h : d < 16) :
    hexDigitValue d.digitChar = d ∧ d.digitChar ≠ '\x7d' ∧ isControl d.digitChar = false := by
  have hall : ∀ e : Fin 16, hexDigitValue e.val.digitChar = e.val ∧ e.val.digitChar ≠ '\x7d' ∧
      isControl e.val.digitChar = false := by
    decide
  exact hall ⟨d, h⟩

/-- The digits of a number are neither the brace that ends an escape nor control characters. -/
private theorem ne_of_mem_toDigits {n : Nat} {c : Char} (h : c ∈ Nat.toDigits 16 n) :
    c ≠ '\x7d' ∧ isControl c = false := by
  induction n using Nat.strongRecOn with
  | ind n ih =>
    rw [Nat.toDigits_eq_if (by decide)] at h
    split at h
    · next hn =>
      rw [List.mem_singleton] at h
      exact h ▸ (digitChar_lt_sixteen hn).2
    · next hn =>
      rcases List.mem_append.mp h with h | h
      · exact ih (n / 16) (by omega) h
      · rw [List.mem_singleton] at h
        exact h ▸ (digitChar_lt_sixteen (Nat.mod_lt n (by decide))).2

/-- **Reading what was written**: `hexValue` undoes `Nat.toDigits`. -/
private theorem hexValue_toDigits (n : Nat) : hexValue (Nat.toDigits 16 n) = n := by
  induction n using Nat.strongRecOn with
  | ind n ih =>
    rw [Nat.toDigits_eq_if (by decide)]
    split
    · next hn => simp [hexValue, (digitChar_lt_sixteen hn).1]
    · next hn =>
      have hdiv := ih (n / 16) (by omega)
      have hmod := (digitChar_lt_sixteen (Nat.mod_lt n (by decide))).1
      rw [hexValue] at hdiv ⊢
      rw [List.foldl_append, hdiv, List.foldl_cons, List.foldl_nil, hmod]
      omega

/-! ### Reading a quotation back -/

/-- The character for which a letter stands after a backslash. -/
def ofLetter : Char → Char
  | 'n' => '\n'
  | 'r' => '\r'
  | 't' => '\t'
  | '0' => '\x00'
  | l => l

/-- Reads the character that was written first, and what follows it. -/
def readChar? : List Char → Option (Char × List Char)
  | '\\' :: 'u' :: cs =>
    some (Char.ofNat (hexValue ((cs.drop 1).takeWhile (· != '\x7d'))),
      ((cs.drop 1).dropWhile (· != '\x7d')).drop 1)
  | '\\' :: l :: cs => some (ofLetter l, cs)
  | c :: cs => some (c, cs)
  | [] => none

private theorem ofLetter_of_letter? {c l : Char} (h : letter? c = some l) :
    ofLetter l = c ∧ l ≠ 'u' ∧ isControl l = false := by
  unfold letter? at h
  split at h <;> cases h <;> decide

/-- **What is written for a character is read back**: `readChar?` undoes `escapeChar`. -/
theorem readChar?_escapeChar_append (c : Char) (cs : List Char) :
    readChar? (escapeChar c ++ cs) = some (c, cs) := by
  rw [escapeChar]
  split
  · next l hl =>
    obtain ⟨hc, hu, -⟩ := ofLetter_of_letter? hl
    simp [readChar?, hc]
  · next hl =>
    split
    · -- the digits end at the brace
      have hdigits : ∀ d ∈ Nat.toDigits 16 c.toNat, (d != '\x7d') = true := fun d hd =>
        bne_iff_ne.mpr (ne_of_mem_toDigits hd).1
      have hrest : ['\\', 'u', '\x7b'] ++ Nat.toDigits 16 c.toNat ++ ['\x7d'] ++ cs =
          '\\' :: 'u' :: '\x7b' :: (Nat.toDigits 16 c.toNat ++ '\x7d' :: cs) := by
        simp
      have htake : ('\x7d' :: cs).takeWhile (· != '\x7d') = [] := rfl
      have hdrop : ('\x7d' :: cs).dropWhile (· != '\x7d') = '\x7d' :: cs := rfl
      rw [hrest, readChar?, List.drop_one, List.tail_cons, List.takeWhile_append_of_pos hdigits,
        htake, List.append_nil, hexValue_toDigits, Char.ofNat_toNat,
        List.dropWhile_append_of_pos hdigits, hdrop, List.drop_one, List.tail_cons]
    · have hc : c ≠ '\\' := by
        rintro rfl
        cases hl
      rw [List.singleton_append]
      simp [readChar?, hc]

theorem escape_cons (c : Char) (cs : List Char) :
    escape (c :: cs) = escapeChar c ++ escape cs := rfl

/-- **`escape` tells the text.** -/
theorem escape_injective : Function.Injective escape := by
  intro cs ds h
  induction cs generalizing ds with
  | nil =>
    cases ds with
    | nil => rfl
    | cons d ds =>
      have hread := readChar?_escapeChar_append d (escape ds)
      rw [← escape_cons, ← h] at hread
      cases hread
  | cons c cs ih =>
    have hread := readChar?_escapeChar_append c (escape cs)
    rw [← escape_cons, h] at hread
    cases ds with
    | nil => cases hread
    | cons d ds =>
      rw [escape_cons, readChar?_escapeChar_append] at hread
      obtain ⟨rfl, hrest⟩ := Prod.mk.inj (Option.some.inj hread)
      rw [ih hrest.symm]

theorem quote_injective : Function.Injective quote := by
  intro s t h
  have hlist := List.append_cancel_right (List.cons.inj (String.ofList_injective h)).2
  exact String.toList_injective (escape_injective hlist)

/-- **`quoteOption` tells the name** that is shown, and whether there is one. -/
theorem quoteOption_injective : Function.Injective quoteOption := by
  have hnone : ∀ s : String, quoteOption none ≠ quoteOption (some s) := by
    intro s h
    have hhead := congrArg (fun t => t.toList.head?) h
    simp [quoteOption] at hhead
  intro s t h
  cases s with
  | none =>
    cases t with
    | none => rfl
    | some t => exact absurd h (hnone t)
  | some s =>
    cases t with
    | none => exact absurd h.symm (hnone s)
    | some t =>
      have hlist := congrArg String.toList h
      simp only [quoteOption, String.toList_append, List.append_cancel_left_eq,
        List.append_cancel_right_eq] at hlist
      rw [quote_injective (String.toList_injective hlist)]

/-! ### One line -/

private theorem isControl_eq_false_of_mem_escapeChar {c d : Char} (h : d ∈ escapeChar c) :
    isControl d = false := by
  rw [escapeChar] at h
  split at h
  · next l hl =>
    simp only [List.mem_cons, List.not_mem_nil, or_false] at h
    rcases h with rfl | rfl
    · decide
    · exact (ofLetter_of_letter? hl).2.2
  · split at h
    · simp only [List.mem_append, List.mem_cons, List.not_mem_nil, or_false] at h
      rcases h with ((rfl | rfl | rfl) | h) | rfl
      · decide
      · decide
      · decide
      · exact (ne_of_mem_toDigits h).2
      · decide
    · next hhidden =>
      obtain rfl := List.mem_singleton.mp h
      exact Bool.eq_false_iff.mpr fun hd => hhidden (isHidden_of_isControl hd)

/-- **A quotation has no control characters** (`isControl`), so it stands on one line. -/
theorem isControl_eq_false_of_mem_quote {s : String} {c : Char} (h : c ∈ (quote s).toList) :
    isControl c = false := by
  rw [quote, String.toList_ofList] at h
  rcases List.mem_cons.mp h with rfl | h
  · decide
  · rcases List.mem_append.mp h with h | h
    · obtain ⟨x, -, hx⟩ := List.mem_flatMap.mp h
      exact isControl_eq_false_of_mem_escapeChar hx
    · obtain rfl := List.mem_singleton.mp h
      decide

/-- A tab has a letter, and a combining mark only its code point. -/
example : quote "a\tb'\u0301é" = "\"a\\tb'\\u\x7b301\x7dé\"" := by decide +kernel

end Quoted

end RequestScript
