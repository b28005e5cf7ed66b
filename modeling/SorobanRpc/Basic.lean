import Mathlib.Data.String.Basic

set_option autoImplicit false

/-! # Go outcomes and `uint32` arithmetic

The Go functions modelled in this development return `(value, error)` pairs, and a few of them
panic. A modelled function returns `Except GoError α`: `.err msg` is a returned error and
`.panic msg` a panic, which ends the process. `uint32` values are `UInt32`, so sums wrap exactly
as in Go; the lemmas below move comparisons and sums to `Nat`, where `omega` decides them. A Go
loop that stops at the first error is `List.mapM` in `Except`; two lemmas take a successful one
apart. -/

theorem UInt32.lt_iff_toNat_lt {a b : UInt32} : a < b ↔ a.toNat < b.toNat := Iff.rfl

theorem UInt32.le_iff_toNat_le {a b : UInt32} : a ≤ b ↔ a.toNat ≤ b.toNat := Iff.rfl

theorem UInt32.size_eq : UInt32.size = 2 ^ 32 := rfl

theorem UInt32.toNat_ofNat_eq (n : Nat) : (UInt32.ofNat n).toNat = n % 2 ^ 32 := rfl

theorem UInt32.ofNat_toNat_eq (v : UInt32) : UInt32.ofNat v.toNat = v :=
  UInt32.ext (by rw [UInt32.toNat_ofNat_eq, Nat.mod_eq_of_lt v.toNat_lt])

theorem UInt32.ofNat_succ (i : Nat) : UInt32.ofNat (i + 1) = UInt32.ofNat i + 1 := by
  apply UInt32.ext
  rw [UInt32.toNat_add, UInt32.toNat_ofNat_eq, UInt32.toNat_ofNat_eq, UInt32.size_eq]
  show (i + 1) % 2 ^ 32 = (i % 2 ^ 32 + 1) % 2 ^ 32
  omega

/-- `a + 1` does not wrap below the largest `uint32`. -/
theorem UInt32.toNat_add_one {a : UInt32} (h : a.toNat + 1 < 2 ^ 32) :
    (a + 1).toNat = a.toNat + 1 := by
  rw [UInt32.toNat_add]; exact Nat.mod_eq_of_lt h

namespace SorobanRpc

/-- What a Go call does instead of returning normally: return an error, or panic. -/
inductive GoError where
  | err (msg : String)
  | panic (msg : String)
  deriving DecidableEq, Repr

/-- A loop that succeeded on `l ++ [a]` succeeded on `l`, then on `a`. -/
theorem mapM_concat_eq_ok {α β ε : Type} {f : α → Except ε β} {l : List α} {a : α}
    {r : List β} :
    (l ++ [a]).mapM f = .ok r ↔ ∃ r₁ b, l.mapM f = .ok r₁ ∧ f a = .ok b ∧ r = r₁ ++ [b] := by
  constructor
  · intro h
    rw [List.mapM_append] at h
    cases hl : l.mapM f with
    | error e => rw [hl] at h; cases h
    | ok r₁ =>
      cases ha : f a with
      | error e => rw [hl, List.mapM_cons, ha] at h; cases h
      | ok b =>
        rw [hl, List.mapM_cons, ha] at h
        cases h
        exact ⟨r₁, b, rfl, rfl, rfl⟩
  · rintro ⟨r₁, b, hl, ha, rfl⟩
    rw [List.mapM_append, hl, List.mapM_cons, ha]
    rfl

/-- Each result of a successful loop is the result of one of its steps. -/
theorem exists_of_mem_mapM_ok {α β ε : Type} {f : α → Except ε β} :
    ∀ {l : List α} {r : List β}, l.mapM f = .ok r → ∀ {b}, b ∈ r → ∃ a ∈ l, f a = .ok b
  | [], r, h, b, hb => by cases h; cases hb
  | a :: l, r, h, b, hb => by
    rw [List.mapM_cons] at h
    cases ha : f a with
    | error e => rw [ha] at h; cases h
    | ok b₀ =>
      cases hl : l.mapM f with
      | error e => rw [ha] at h; dsimp only [bind, Except.bind] at h; rw [hl] at h; cases h
      | ok r₁ =>
        rw [ha] at h; dsimp only [bind, Except.bind] at h; rw [hl] at h
        cases h
        rcases List.mem_cons.1 hb with rfl | hb
        · exact ⟨a, List.mem_cons_self _ _, ha⟩
        · obtain ⟨a', ha', hfa'⟩ := exists_of_mem_mapM_ok hl hb
          exact ⟨a', List.mem_cons_of_mem _ ha', hfa'⟩

/-- A Go call that ended in a panic. -/
def GoError.isPanic : GoError → Bool
  | .panic _ => true
  | .err _ => false

end SorobanRpc
