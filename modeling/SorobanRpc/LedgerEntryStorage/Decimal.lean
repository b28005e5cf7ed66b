import SorobanRpc.Basic
import Mathlib.Data.Nat.Digits
import Mathlib.Tactic.IntervalCases

set_option autoImplicit false

/-! # Decimal text of ledger sequences

The entry store keeps `LatestLedgerSequence` as text: `upsertLatestLedgerSequence` writes
`fmt.Sprintf("%d", sequence)` and `getLatestLedgerSequence` reads it back with
`strconv.ParseUint(latestLedgerStr, 10, 32)`. `sprintfDecimal` is the former (the digits of
`Nat.toDigits 10`, which is what `Nat.repr` prints) and `parseUint` the latter, in base 10.

`ParseUint` keeps its value `n` in a `uint64` and checks two overflows per digit, of `n * 10` and
of `n * 10 + d`. It returns a range error as soon as a digit takes `n` above
`maxVal = 2 ^ bitSize - 1`, so for `bitSize ≤ 32` the value never exceeds `maxVal` when a digit
is read and neither `uint64` check can fire: the loop is modelled over `Nat` with the `maxVal`
check only. The quoting of the input in the error texts (`strconv.Quote`) is modelled for inputs
without characters to escape.

`parseUint_sprintfDecimal` is the round trip: every `uint32` reads back as itself. -/

namespace SorobanRpc

/-- `fmt.Sprintf("%d", v)` for a `uint32`. -/
def sprintfDecimal (v : UInt32) : String := Nat.repr v.toNat

/-- `strconv.Quote` on a string with nothing to escape. -/
def quote (s : String) : String := "\"" ++ s ++ "\""

/-- The `ErrSyntax` error of `ParseUint`. -/
def syntaxError (s : String) : GoError :=
  .err ("strconv.ParseUint: parsing " ++ quote s ++ ": invalid syntax")

/-- The `ErrRange` error of `ParseUint`. -/
def rangeError (s : String) : GoError :=
  .err ("strconv.ParseUint: parsing " ++ quote s ++ ": value out of range")

/-- The digit loop of `ParseUint` in base 10 on the input `s`; `n` is the value read so far. -/
def parseDigits (maxVal : Nat) (s : String) : List Char → Nat → Except GoError Nat
  | [], n => .ok n
  | c :: cs, n =>
    if '0' ≤ c ∧ c ≤ '9' then
      let n1 := n * 10 + (c.toNat - '0'.toNat)
      if n1 > maxVal then .error (rangeError s) else parseDigits maxVal s cs n1
    else .error (syntaxError s)

/-- `strconv.ParseUint(s, 10, bitSize)`. -/
def parseUint (s : String) (bitSize : Nat) : Except GoError Nat :=
  if s = "" then .error (syntaxError s) else parseDigits (2 ^ bitSize - 1) s s.toList 0

/-! ## The round trip -/

theorem digitChar_isDigit {d : Nat} (h : d < 10) :
    '0' ≤ Nat.digitChar d ∧ Nat.digitChar d ≤ '9' := by
  interval_cases d <;> decide

theorem toNat_digitChar {d : Nat} (h : d < 10) : (Nat.digitChar d).toNat - '0'.toNat = d := by
  interval_cases d <;> rfl

/-- One decimal digit that keeps the value within `maxVal`. -/
theorem parseDigits_digitChar (maxVal : Nat) (s : String) (cs : List Char) {d n : Nat}
    (hd : d < 10) (hn : n * 10 + d ≤ maxVal) :
    parseDigits maxVal s (Nat.digitChar d :: cs) n = parseDigits maxVal s cs (n * 10 + d) := by
  rw [parseDigits, if_pos (digitChar_isDigit hd), toNat_digitChar hd, if_neg (Nat.not_lt.2 hn)]

/-- `toDigitsCore` writes the digits of `n` in front of `acc`: reading them from a value `p`
    reads `n` after `p`'s digits, as long as the result stays within `maxVal`. -/
theorem parseDigits_toDigitsCore (maxVal : Nat) (s : String) :
    ∀ (fuel n : Nat) (acc : List Char) (p : Nat), n < fuel → ∃ k, p * 10 ^ k + n ≤ maxVal →
      parseDigits maxVal s (Nat.toDigitsCore 10 fuel n acc) p =
        parseDigits maxVal s acc (p * 10 ^ k + n)
  | 0, _, _, _, h => absurd h (Nat.not_lt_zero _)
  | fuel + 1, n, acc, p, h => by
    simp only [Nat.toDigitsCore]
    split
    · rename_i h0
      refine ⟨1, fun hle => ?_⟩
      rw [parseDigits_digitChar maxVal s acc (Nat.mod_lt n (by decide)) (by omega)]
      congr 1
      omega
    · rename_i h0
      obtain ⟨k, hk⟩ := parseDigits_toDigitsCore maxVal s fuel (n / 10)
        (Nat.digitChar (n % 10) :: acc) p (by omega)
      refine ⟨k + 1, fun hle => ?_⟩
      have hpow : p * 10 ^ (k + 1) = p * 10 ^ k * 10 := by rw [pow_succ, Nat.mul_assoc]
      rw [hpow] at hle ⊢
      rw [hk (by omega), parseDigits_digitChar maxVal s acc (Nat.mod_lt n (by decide)) (by omega)]
      congr 1
      omega

theorem toDigitsCore_ne_nil (fuel n : Nat) (c : Char) (acc : List Char) :
    Nat.toDigitsCore 10 fuel n (c :: acc) ≠ [] := by
  induction fuel generalizing n c acc with
  | zero => simp [Nat.toDigitsCore]
  | succ fuel ih => simp only [Nat.toDigitsCore]; split <;> simp [ih]

theorem sprintfDecimal_ne_empty (v : UInt32) : sprintfDecimal v ≠ "" := by
  intro h
  have h' := congrArg String.toList h
  simp only [sprintfDecimal, Nat.repr, Nat.toDigits, Nat.toDigitsCore, List.asString] at h'
  split at h' <;> simp_all [toDigitsCore_ne_nil]

/-- `ParseUint(fmt.Sprintf("%d", v), 10, 32)` is `v`. -/
theorem parseUint_sprintfDecimal (v : UInt32) : parseUint (sprintfDecimal v) 32 = .ok v.toNat := by
  rw [parseUint, if_neg (sprintfDecimal_ne_empty v)]
  obtain ⟨k, hk⟩ := parseDigits_toDigitsCore (2 ^ 32 - 1) (sprintfDecimal v) (v.toNat + 1)
    v.toNat [] 0 (Nat.lt_succ_self _)
  have hrun := hk (by have := v.toNat_lt; omega)
  simp only [Nat.zero_mul, Nat.zero_add] at hrun
  exact hrun

end SorobanRpc
