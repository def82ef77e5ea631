/-!
# Numerals

Natural numbers written in a base between two and sixteen, most significant
digit first, with upper-case letters for the digits from ten on. Everything
the machine prints that is a number goes through `digits` (as many digits as
needed) or `padded` (zeros in front up to a width).

`value?` reads a numeral back. It takes letters of either case, because the
settings file admits both.
-/

namespace Chip8.Numeral

/-- The character of a digit below sixteen; larger digits have none and give `?`. -/
def digitChar (d : Nat) : Char :=
  ['0', '1', '2', '3', '4', '5', '6', '7',
   '8', '9', 'A', 'B', 'C', 'D', 'E', 'F'].getD d '?'

/-- The value of a digit character in bases up to sixteen. -/
def digitValue? (c : Char) : Option Nat :=
  if '0' ≤ c ∧ c ≤ '9' then some (c.toNat - '0'.toNat)
  else if 'A' ≤ c ∧ c ≤ 'F' then some (c.toNat - 'A'.toNat + 10)
  else if 'a' ≤ c ∧ c ≤ 'f' then some (c.toNat - 'a'.toNat + 10)
  else none

theorem digitValue?_digitChar {d : Nat} (hd : d < 16) :
    digitValue? (digitChar d) = some d := by
  have hAll : ∀ k : Fin 16, digitValue? (digitChar k) = some k.val := by decide
  exact hAll ⟨d, hd⟩

/-- The digits of a number below `base ^ places`, without leading zeros. -/
def digitsWithin (base : Nat) : (places n : Nat) → List Char
  | 0, _ => []
  | places + 1, n =>
      if n < base then [digitChar n]
      else digitsWithin base places (n / base) ++ [digitChar (n % base)]

/-- The digits of a number without leading zeros; zero is the single digit `0`. -/
def digits (base n : Nat) : List Char := digitsWithin base (n + 1) n

/-- Room for more digits than a number has changes nothing. -/
theorem digitsWithin_eq {base : Nat} (hBase : 2 ≤ base) {places n : Nat} (hn : n < places) :
    digitsWithin base places n = digits base n := by
  suffices hAny : ∀ (p q m : Nat), m < p → m < q →
      digitsWithin base p m = digitsWithin base q m from hAny _ _ n hn (by omega)
  intro p
  induction p with
  | zero => intro q m hp; omega
  | succ p ih =>
      intro q m hp hq
      cases q with
      | zero => omega
      | succ q =>
          by_cases hm : m < base
          · simp [digitsWithin, hm]
          · have hLess : m / base < m := Nat.div_lt_self (by omega) (by omega)
            simp only [digitsWithin, hm, if_false]
            rw [ih q (m / base) (by omega) (by omega)]

theorem digits_of_lt {base n : Nat} (hn : n < base) : digits base n = [digitChar n] := by
  simp [digits, digitsWithin, hn]

theorem digits_of_le {base n : Nat} (hBase : 2 ≤ base) (hn : base ≤ n) :
    digits base n = digits base (n / base) ++ [digitChar (n % base)] := by
  have hLess : n / base < n := Nat.div_lt_self (by omega) (by omega)
  rw [digits, digitsWithin, if_neg (by omega), digitsWithin_eq hBase hLess]

/-- The digits of a number with zeros in front up to the given width. -/
def padded (base width n : Nat) : List Char :=
  let ds := digits base n
  List.replicate (width - ds.length) '0' ++ ds

/-- One more digit on the right of a number that was read so far. -/
def appendDigit? (base acc : Nat) (c : Char) : Option Nat :=
  match digitValue? c with
  | some d => if d < base then some (base * acc + d) else none
  | none => none

/-- The number a nonempty list of digit characters denotes in the given base. -/
def value? (base : Nat) : List Char → Option Nat
  | [] => none
  | cs => cs.foldlM (appendDigit? base) 0

/-- **Reading what was written**: the digits of a number denote that number. -/
theorem foldlM_digits {base : Nat} (hLow : 2 ≤ base) (hHigh : base ≤ 16) (n : Nat) :
    (digits base n).foldlM (appendDigit? base) 0 = some n := by
  induction n using Nat.strongRecOn with
  | ind n ih =>
      by_cases hn : base ≤ n
      · have hDigit := digitValue?_digitChar (d := n % base)
          (Nat.lt_of_lt_of_le (Nat.mod_lt n (by omega)) hHigh)
        have hMod : n % base < base := Nat.mod_lt n (by omega)
        rw [digits_of_le hLow hn, List.foldlM_append,
          ih (n / base) (Nat.div_lt_self (by omega) (by omega))]
        simp [appendDigit?, hDigit, hMod, Nat.div_add_mod]
      · have hDigit := digitValue?_digitChar (d := n) (by omega)
        rw [digits_of_lt (by omega)]
        simp [appendDigit?, hDigit]
        omega

theorem digits_ne_nil {base : Nat} (hLow : 2 ≤ base) (n : Nat) : digits base n ≠ [] := by
  by_cases hn : base ≤ n
  · simp [digits_of_le hLow hn]
  · simp [digits_of_lt (Nat.lt_of_not_le hn)]

private theorem foldlM_zeros {base : Nat} (hLow : 2 ≤ base) (count : Nat) (cs : List Char) :
    (List.replicate count '0' ++ cs).foldlM (appendDigit? base) 0 =
      cs.foldlM (appendDigit? base) 0 := by
  have hZero : appendDigit? base 0 '0' = some 0 := by
    have hDigit : digitValue? '0' = some 0 := by decide
    have hPos : 0 < base := by omega
    simp [appendDigit?, hDigit, hPos]
  induction count with
  | zero => rfl
  | succ count ih =>
      rw [List.replicate_succ, List.cons_append, List.foldlM_cons, hZero]
      exact ih

/-- Zeros in front of a number change nothing. -/
theorem value?_padded {base : Nat} (hLow : 2 ≤ base) (hHigh : base ≤ 16) (width n : Nat) :
    value? base (padded base width n) = some n := by
  have hFold : (padded base width n).foldlM (appendDigit? base) 0 = some n := by
    rw [padded, foldlM_zeros hLow, foldlM_digits hLow hHigh]
  have hSome : padded base width n ≠ [] := by simp [padded, digits_ne_nil hLow]
  unfold value?
  split
  · contradiction
  · exact hFold

/-- The digits of a number are the characters of digits of the base. -/
theorem mem_digits_lt {base : Nat} (hLow : 2 ≤ base) {n : Nat} {c : Char} (hc : c ∈ digits base n) :
    ∃ d, d < base ∧ c = digitChar d := by
  induction n using Nat.strongRecOn with
  | ind n ih =>
      by_cases hn : base ≤ n
      · rw [digits_of_le hLow hn, List.mem_append, List.mem_singleton] at hc
        rcases hc with hc | rfl
        · exact ih (n / base) (Nat.div_lt_self (by omega) (by omega)) hc
        · exact ⟨n % base, Nat.mod_lt n (by omega), rfl⟩
      · rw [digits_of_lt (by omega), List.mem_singleton] at hc
        exact ⟨n, by omega, hc⟩

/-- The digits of a number in a base up to sixteen are digit characters. -/
theorem mem_digits {base : Nat} (hLow : 2 ≤ base) (hHigh : base ≤ 16) {n : Nat} {c : Char}
    (hc : c ∈ digits base n) : ∃ d, d < 16 ∧ c = digitChar d := by
  obtain ⟨d, hd, hChar⟩ := mem_digits_lt hLow hc
  exact ⟨d, Nat.lt_of_lt_of_le hd hHigh, hChar⟩

/-- A number has a zero in front only when it is zero. -/
theorem exists_digits {base : Nat} (hLow : 2 ≤ base) (n : Nat) :
    ∃ d rest, d < base ∧ digits base n = digitChar d :: rest ∧ (d = 0 → n = 0 ∧ rest = []) := by
  induction n using Nat.strongRecOn with
  | ind n ih =>
      by_cases hn : base ≤ n
      · obtain ⟨d, rest, hd, hDigits, hZero⟩ :=
          ih (n / base) (Nat.div_lt_self (by omega) (by omega))
        have hPos : 0 < n / base := Nat.div_pos hn (by omega)
        refine ⟨d, rest ++ [digitChar (n % base)], hd, ?_, fun hd => ?_⟩
        · rw [digits_of_le hLow hn, hDigits, List.cons_append]
        · have hNone := (hZero hd).1
          omega
      · exact ⟨n, [], by omega, digits_of_lt (by omega), fun hZero => ⟨hZero, rfl⟩⟩

theorem value?_digits {base : Nat} (hLow : 2 ≤ base) (hHigh : base ≤ 16) (n : Nat) :
    value? base (digits base n) = some n := by
  have hFold := foldlM_digits hLow hHigh n
  unfold value?
  split
  · next hNil => exact absurd hNil (digits_ne_nil hLow n)
  · exact hFold

theorem mem_padded {base : Nat} (hLow : 2 ≤ base) (hHigh : base ≤ 16) {width n : Nat} {c : Char}
    (hc : c ∈ padded base width n) : ∃ d, d < 16 ∧ c = digitChar d := by
  simp only [padded, List.mem_append, List.mem_replicate] at hc
  rcases hc with ⟨_, rfl⟩ | hc
  · exact ⟨0, by decide, rfl⟩
  · exact mem_digits hLow hHigh hc

/-- A character that is no digit is in no number. -/
theorem notMem_padded {base : Nat} (hLow : 2 ≤ base) (hHigh : base ≤ 16) {c : Char}
    (hc : ∀ k : Fin 16, digitChar k ≠ c) (width n : Nat) : c ∉ padded base width n := by
  intro hMem
  obtain ⟨d, hd, rfl⟩ := mem_padded hLow hHigh hMem
  exact hc ⟨d, hd⟩ rfl

/-- Padding to no width changes nothing. -/
theorem padded_zero (base n : Nat) : padded base 0 n = digits base n := by
  simp [padded]

theorem padded_of_lt {base n : Nat} (hn : n < base) : padded base 1 n = [digitChar n] := by
  rw [padded, digits_of_lt hn]
  rfl

/-- The last digit of a number, and the number in front of it. -/
theorem padded_succ {base width : Nat} (hBase : 2 ≤ base) (hWidth : 1 ≤ width) (n : Nat) :
    padded base (width + 1) n = padded base width (n / base) ++ [digitChar (n % base)] := by
  by_cases hn : base ≤ n
  · simp [padded, digits_of_le hBase hn]
  · have hLess : n < base := Nat.lt_of_not_le hn
    obtain ⟨more, rfl⟩ : ∃ more, width = more + 1 := ⟨width - 1, by omega⟩
    rw [Nat.div_eq_of_lt hLess, Nat.mod_eq_of_lt hLess, padded, padded, digits_of_lt hLess,
      digits_of_lt (by omega)]
    exact congrArg (· ++ [digitChar n]) (List.replicate_succ' ..)

/-- The text without one plus sign in front. -/
def dropPlus : List Char → List Char
  | '+' :: cs => cs
  | cs => cs

/-- Numbers from here on do not fit into 64 bits. -/
def wordLimit : Nat := 18446744073709551616

/-- A decimal number of 64 bits, with or without a plus sign. -/
def word? (text : List Char) : Option Nat :=
  match value? 10 (dropPlus text) with
  | some n => if n < wordLimit then some n else none
  | none => none

/-- A number in decimal. -/
def decimal (n : Nat) : String := String.ofList (digits 10 n)

/-- A number in upper-case hexadecimal, padded with zeros to a width. -/
def hex (width n : Nat) : String := String.ofList (padded 16 width n)

end Chip8.Numeral
