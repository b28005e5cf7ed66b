import SorobanRpc.Basic
import Mathlib.Tactic.SplitIfs

set_option autoImplicit false

/-! # Event cursors

A `Cursor` is the position `(ledger, tx, op, event)` of an event in the stream. `cursor.go` is
not among the sources, so `Cursor.cmp` is modelled from the spec (§3, "totally ordered
lexicographically"), written as the nested comparison the package's callers rely on
(`Cmp` returns `-1`, `0` or `1`).

Every field is a `uint32`, so the lexicographic order is the numeric order of the four fields
packed into one number, `Cursor.toNat`. The order instances on `Cursor` are defined through it
and `Cursor.cmp_eq` ties `cmp` to them: every later comparison is a `Nat` comparison that
`omega` decides. -/

namespace SorobanRpc.Events

/-- Modelled from the spec: a position in the event stream. A field left out of a literal is
    zero, as in Go (`Cursor{Ledger: l}`). -/
structure Cursor where
  ledger : UInt32 := 0
  tx : UInt32 := 0
  op : UInt32 := 0
  event : UInt32 := 0
  deriving DecidableEq, Repr

/-- Modelled from the spec: three-way comparison of two `uint32`s. -/
def cmpUint32 (a b : UInt32) : Int :=
  if a < b then -1 else if a > b then 1 else 0

/-- Modelled from the spec: `Cursor.Cmp`, lexicographic on `(ledger, tx, op, event)`. -/
def Cursor.cmp (c other : Cursor) : Int :=
  if c.ledger = other.ledger then
    if c.tx = other.tx then
      if c.op = other.op then cmpUint32 c.event other.event
      else cmpUint32 c.op other.op
    else cmpUint32 c.tx other.tx
  else cmpUint32 c.ledger other.ledger

/-- The four fields packed into one number, most significant first. -/
def Cursor.toNat (c : Cursor) : Nat :=
  c.ledger.toNat * 2 ^ 96 + c.tx.toNat * 2 ^ 64 + c.op.toNat * 2 ^ 32 + c.event.toNat

instance : LT Cursor := ⟨fun c d => c.toNat < d.toNat⟩
instance : LE Cursor := ⟨fun c d => c.toNat ≤ d.toNat⟩

instance (c d : Cursor) : Decidable (c < d) := inferInstanceAs (Decidable (c.toNat < d.toNat))
instance (c d : Cursor) : Decidable (c ≤ d) := inferInstanceAs (Decidable (c.toNat ≤ d.toNat))

namespace Cursor

theorem lt_def {c d : Cursor} : c < d ↔ c.toNat < d.toNat := Iff.rfl

theorem le_def {c d : Cursor} : c ≤ d ↔ c.toNat ≤ d.toNat := Iff.rfl

/-! ## The packed number -/

/-- Two numbers with a low base-`2 ^ 32` digit compare by their high part, then by that digit. -/
theorem digits_lt_iff {a b x y : Nat} (hx : x < 2 ^ 32) (hy : y < 2 ^ 32) :
    a * 2 ^ 32 + x < b * 2 ^ 32 + y ↔ a < b ∨ a = b ∧ x < y := by
  omega

theorem digits_eq_iff {a b x y : Nat} (hx : x < 2 ^ 32) (hy : y < 2 ^ 32) :
    a * 2 ^ 32 + x = b * 2 ^ 32 + y ↔ a = b ∧ x = y := by
  omega

/-- The fields are the base-`2 ^ 32` digits of `toNat`. -/
theorem toNat_eq_digits (c : Cursor) :
    c.toNat = ((c.ledger.toNat * 2 ^ 32 + c.tx.toNat) * 2 ^ 32 + c.op.toNat) * 2 ^ 32 +
      c.event.toNat := by
  unfold toNat
  omega

theorem toNat_inj {c d : Cursor} : c.toNat = d.toNat ↔ c = d := by
  rw [toNat_eq_digits c, toNat_eq_digits d, digits_eq_iff c.event.toNat_lt d.event.toNat_lt,
    digits_eq_iff c.op.toNat_lt d.op.toNat_lt, digits_eq_iff c.tx.toNat_lt d.tx.toNat_lt]
  obtain ⟨l, t, o, e⟩ := c
  obtain ⟨l', t', o', e'⟩ := d
  simp only [mk.injEq, UInt32.ext_iff, and_assoc]

/-- Three-way comparison of two numbers, `cmpUint32` on `Nat`. -/
def cmpNat (a b : Nat) : Int := if a < b then -1 else if b < a then 1 else 0

theorem cmpUint32_eq (a b : UInt32) : cmpUint32 a b = cmpNat a.toNat b.toNat := by
  simp only [cmpUint32, cmpNat, GT.gt, UInt32.lt_iff_toNat_lt]

theorem cmpNat_digits {a b x y : Nat} (hx : x < 2 ^ 32) (hy : y < 2 ^ 32) :
    cmpNat (a * 2 ^ 32 + x) (b * 2 ^ 32 + y) = if a = b then cmpNat x y else cmpNat a b := by
  unfold cmpNat
  simp only [digits_lt_iff hx hy, digits_lt_iff hy hx]
  by_cases h : a = b
  · simp [h]
  · simp [h, Ne.symm h]

/-- `Cmp` is the three-way comparison of the packed numbers: peeling off the digits from the
    least significant one gives its nested comparisons. -/
theorem cmp_eq (c d : Cursor) :
    c.cmp d = if c.toNat < d.toNat then -1 else if d.toNat < c.toNat then 1 else 0 := by
  show _ = cmpNat _ _
  rw [toNat_eq_digits c, toNat_eq_digits d, cmpNat_digits c.event.toNat_lt d.event.toNat_lt,
    cmpNat_digits c.op.toNat_lt d.op.toNat_lt, cmpNat_digits c.tx.toNat_lt d.tx.toNat_lt]
  simp only [cmp, cmpUint32_eq, UInt32.ext_iff, digits_eq_iff c.op.toNat_lt d.op.toNat_lt,
    digits_eq_iff c.tx.toNat_lt d.tx.toNat_lt]
  split_ifs <;> simp_all

@[simp] theorem cmp_lt_zero {c d : Cursor} : c.cmp d < 0 ↔ c < d := by
  rw [cmp_eq, lt_def]; split_ifs <;> omega

@[simp] theorem cmp_le_zero {c d : Cursor} : c.cmp d ≤ 0 ↔ c ≤ d := by
  rw [cmp_eq, le_def]; split_ifs <;> omega

@[simp] theorem zero_le_cmp {c d : Cursor} : 0 ≤ c.cmp d ↔ d ≤ c := by
  rw [cmp_eq, le_def]; split_ifs <;> omega

@[simp] theorem zero_lt_cmp {c d : Cursor} : 0 < c.cmp d ↔ d < c := by
  rw [cmp_eq, lt_def]; split_ifs <;> omega

/-- The first cursor of a ledger. -/
@[simp] theorem toNat_ledger (l : UInt32) : ({ ledger := l } : Cursor).toNat = l.toNat * 2 ^ 96 := by
  simp [toNat]

/-- A cursor lies in ledger `l` exactly when it is between the first cursors of `l` and `l + 1`. -/
theorem ledger_eq_iff (c : Cursor) (l : Nat) :
    c.ledger.toNat = l ↔ l * 2 ^ 96 ≤ c.toNat ∧ c.toNat < (l + 1) * 2 ^ 96 := by
  have := c.tx.toNat_lt; have := c.op.toNat_lt; have := c.event.toNat_lt
  simp only [toNat]
  omega

end Cursor

end SorobanRpc.Events
