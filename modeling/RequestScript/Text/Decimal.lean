/-!
# Decimal numerals

The value of a run of decimal digits and the digits of a number. A run may be of any length and
may start with zeros; `digits` writes the shortest one. Main statement: reading the digits of a
number gives the number back (`value_digits`).
-/

namespace RequestScript.Decimal

/-- The value of a decimal digit. -/
def digitValue (c : Char) : Nat :=
  c.toNat - '0'.toNat

/-- The value of a run of decimal digits, the most significant first. -/
def value (cs : List Char) : Nat :=
  cs.foldl (fun n c => 10 * n + digitValue c) 0

/-- The digit of a value below ten. -/
def digit (d : Nat) : Char :=
  Char.ofNat ('0'.toNat + d)

/-- The decimal digits of `n`, the most significant first and without leading zeros. -/
def digits (n : Nat) : List Char :=
  if n < 10 then [digit n] else digits (n / 10) ++ [digit (n % 10)]

/-- Below ten, `digitValue` takes back `digit`. -/
theorem digitValue_digit {d : Nat} (h : d < 10) : digitValue (digit d) = d := by
  have : ∀ e : Fin 10, digitValue (digit e.val) = e.val := by decide
  exact this ⟨d, h⟩

/-- The digits of values below ten are decimal digits. -/
theorem isDigit_digit {d : Nat} (h : d < 10) : (digit d).isDigit = true := by
  have : ∀ e : Fin 10, (digit e.val).isDigit = true := by decide
  exact this ⟨d, h⟩

private theorem value_append_singleton (cs : List Char) (c : Char) :
    value (cs ++ [c]) = 10 * value cs + digitValue c := by
  simp [value]

/-- **Reading what was written**: the digits of `n` have the value `n`. -/
theorem value_digits (n : Nat) : value (digits n) = n := by
  fun_induction digits n with
  | case1 n h => simp [value, digitValue_digit h]
  | case2 n h ih =>
    rw [value_append_singleton, ih, digitValue_digit (Nat.mod_lt n (by omega))]
    omega

theorem digits_ne_nil (n : Nat) : digits n ≠ [] := by
  unfold digits
  split <;> simp

/-- What `digits` writes for a number consists of decimal digits. -/
theorem isDigit_of_mem_digits {n : Nat} {c : Char} (h : c ∈ digits n) : c.isDigit = true := by
  fun_induction digits n with
  | case1 n hn =>
    rw [List.mem_singleton] at h
    exact h ▸ isDigit_digit hn
  | case2 n hn ih =>
    rcases List.mem_append.mp h with h | h
    · exact ih h
    · rw [List.mem_singleton] at h
      exact h ▸ isDigit_digit (Nat.mod_lt n (by omega))

end RequestScript.Decimal
