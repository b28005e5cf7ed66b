import SorobanRpc.Basic
import Mathlib.Data.List.Rotate
import Mathlib.Data.List.Chain

set_option autoImplicit false

/-! # Ledger bucket windows

The `ledgerbucketwindow` package is not among the sources; this module models it from the spec
(§4.B). A window holds at most `retentionWindow` per-ledger buckets in a ring buffer: `buckets`
is the backing slice and `start` the head offset, so `Get(i)` reads `buckets[(start + i) % len]`.
While the slice is not full `Append` adds at its end; once it is full, `Append` overwrites the
head and moves the head one slot on.

The structure carries the ring's invariants (the slice fits the capacity; the head is in range,
and stays at `0` until the slice is full) and I3: read from the head, successive buckets hold
successive ledgers, which `Append` enforces by panicking. `toList` is the window read from the
head. `get_of_lt` and `toList_append` show that the ring implements the FIFO the spec describes:
`Get(i)` is the `i`-th element of `toList`, and `Append` adds at the end, dropping the oldest
bucket when the window is full. -/

/-- Overwriting the head of a ring and moving the head on drops the oldest element and adds the
    new one at the end. -/
theorem List.rotate_set_succ {α : Type} (l : List α) (s : Nat) (hs : s < l.length) (b : α) :
    (l.set s b).rotate ((s + 1) % l.length) = (l.rotate s).tail ++ [b] := by
  have hset : l.set s b = (l.take s ++ [b]) ++ l.drop (s + 1) := by
    rw [List.set_eq_take_append_cons_drop, if_pos hs, List.append_assoc, List.singleton_append]
  rw [List.rotate_eq_drop_append_take hs.le, List.drop_eq_getElem_cons hs, List.cons_append,
    List.tail_cons, hset]
  rcases Nat.lt_or_ge (s + 1) l.length with h | h
  · have hrot := List.rotate_append_length_eq (l.take s ++ [b]) (l.drop (s + 1))
    rw [List.length_append, List.length_take_of_le hs.le, List.length_singleton] at hrot
    rw [Nat.mod_eq_of_lt h, hrot, List.append_assoc]
  · rw [List.drop_eq_nil_of_le h, show s + 1 = l.length by omega, Nat.mod_self, List.rotate_zero]
    simp

namespace SorobanRpc

/-- Modelled from the spec: one ledger's data in a window. -/
structure LedgerBucket (T : Type) where
  ledgerSeq : UInt32
  ledgerCloseTimestamp : Int
  bucketContent : T
  deriving DecidableEq, Repr

/-- I3: successive buckets hold successive ledgers (`uint32` successor). -/
def Contiguous {T : Type} (bs : List (LedgerBucket T)) : Prop :=
  bs.Chain' fun a b => b.ledgerSeq = a.ledgerSeq + 1

/-- `bucket` may be appended to `bs`: `bs` is empty or `bucket` holds the ledger after its last. -/
def Follows {T : Type} (bs : List (LedgerBucket T)) (bucket : LedgerBucket T) : Bool :=
  bs.getLast?.all fun last => bucket.ledgerSeq == last.ledgerSeq + 1

theorem Contiguous.append {T : Type} {bs : List (LedgerBucket T)} {bucket : LedgerBucket T}
    (h : Contiguous bs) (hf : Follows bs bucket) : Contiguous (bs ++ [bucket]) :=
  List.Chain'.append h (List.chain'_singleton _) fun x hx y hy => by
    rw [Option.mem_def] at hx hy
    simp only [Follows, hx, Option.all_some, beq_iff_eq] at hf
    simp only [List.head?_cons, Option.some.injEq] at hy
    exact hy ▸ hf

theorem Follows.tail {T : Type} {bs : List (LedgerBucket T)} {bucket : LedgerBucket T}
    (h : Follows bs bucket) : Follows bs.tail bucket := by
  match bs, h with
  | [], _ => rfl
  | [_], _ => rfl
  | _ :: b :: bs, h => simpa [Follows, List.getLast?_cons_cons] using h

/-- Modelled from the spec: a ring buffer of at most `retentionWindow` buckets (see the module
    docstring for the invariants). -/
structure LedgerBucketWindow (T : Type) where
  retentionWindow : UInt32
  buckets : List (LedgerBucket T)
  start : Nat
  retentionWindow_pos : 0 < retentionWindow.toNat
  length_le : buckets.length ≤ retentionWindow.toNat
  start_lt : start = 0 ∨ start < buckets.length
  start_of_lt : buckets.length < retentionWindow.toNat → start = 0
  contiguous : Contiguous (buckets.rotate start)

namespace LedgerBucketWindow

variable {T : Type}

/-- Modelled from the spec: `NewLedgerBucketWindow`, an empty window; the retention window must
    be positive. -/
def newLedgerBucketWindow (retentionWindow : UInt32) : Except GoError (LedgerBucketWindow T) :=
  if h : 0 < retentionWindow.toNat then
    .ok ⟨retentionWindow, [], 0, h, Nat.zero_le _, .inl rfl, fun _ => rfl, List.chain'_nil⟩
  else .error (.panic "retention window must be positive")

/-- The window read from the head: the FIFO of buckets, oldest first. -/
def toList (w : LedgerBucketWindow T) : List (LedgerBucket T) := w.buckets.rotate w.start

/-- `Len()`. -/
def len (w : LedgerBucketWindow T) : UInt32 := UInt32.ofNat w.buckets.length

/-- `Get(i)`: the `i`-th bucket from the head; panics when `i` is out of range. -/
def get (w : LedgerBucketWindow T) (i : UInt32) : Except GoError (LedgerBucket T) :=
  if h : i.toNat < w.buckets.length then
    .ok (w.buckets.get ⟨(w.start + i.toNat) % w.buckets.length, Nat.mod_lt _ (by omega)⟩)
  else .error (.panic "index out of range")

theorem toList_push (w : LedgerBucketWindow T) (bucket : LedgerBucket T)
    (hl : w.buckets.length < w.retentionWindow.toNat) :
    (w.buckets ++ [bucket]).rotate w.start = w.toList ++ [bucket] := by
  simp [toList, w.start_of_lt hl]

theorem toList_overwrite (w : LedgerBucketWindow T) (bucket : LedgerBucket T)
    (hl : ¬ w.buckets.length < w.retentionWindow.toNat) :
    (w.buckets.set w.start bucket).rotate ((w.start + 1) % w.buckets.length)
      = w.toList.tail ++ [bucket] := by
  have := w.retentionWindow_pos
  have := w.length_le
  exact List.rotate_set_succ _ _ (by rcases w.start_lt with h | h <;> omega) _

/-- Modelled from the spec: `Append`. The bucket must hold the ledger after the newest one
    (unless the window is empty), else the window panics; a full window evicts its oldest
    bucket. -/
def append (w : LedgerBucketWindow T) (bucket : LedgerBucket T) :
    Except GoError (LedgerBucketWindow T) :=
  if hf : Follows w.toList bucket then
    if hl : w.buckets.length < w.retentionWindow.toNat then
      .ok { w with
        buckets := w.buckets ++ [bucket]
        length_le := by simp only [List.length_append, List.length_singleton]; omega
        start_lt := .inl (w.start_of_lt hl)
        start_of_lt := fun _ => w.start_of_lt hl
        contiguous := w.toList_push bucket hl ▸ w.contiguous.append hf }
    else
      .ok { w with
        buckets := w.buckets.set w.start bucket
        start := (w.start + 1) % w.buckets.length
        length_le := by simpa using w.length_le
        start_lt := .inr (by simp only [List.length_set]; exact Nat.mod_lt _ (by
          have := w.retentionWindow_pos; omega))
        start_of_lt := fun h => absurd (by simpa using h) hl
        contiguous := w.toList_overwrite bucket hl ▸ Contiguous.append (List.Chain'.tail w.contiguous) (Follows.tail hf) }
  else .error (.panic "ledgers not contiguous")

/-! ## The ring implements the FIFO -/

@[simp] theorem length_toList (w : LedgerBucketWindow T) : w.toList.length = w.buckets.length :=
  List.length_rotate _ _

theorem len_toNat (w : LedgerBucketWindow T) : w.len.toNat = w.toList.length := by
  have := w.length_le
  have := w.retentionWindow.toNat_lt
  simp only [len, UInt32.toNat_ofNat_eq, length_toList]
  omega

theorem get_of_lt (w : LedgerBucketWindow T) (i : UInt32) (h : i.toNat < w.toList.length) :
    w.get i = .ok (w.toList[i.toNat]) := by
  simp only [length_toList] at h
  simp [get, h, toList, List.getElem_rotate, Nat.add_comm]

theorem get_zero (w : LedgerBucketWindow T) (h : 0 < w.toList.length) :
    w.get 0 = .ok (w.toList[0]) :=
  get_of_lt w 0 h

theorem get_of_le (w : LedgerBucketWindow T) (i : UInt32) (h : w.toList.length ≤ i.toNat) :
    w.get i = .error (.panic "index out of range") := by
  simp only [length_toList] at h
  simp [get, Nat.not_lt.2 h]

theorem append_of_not_follows (w : LedgerBucketWindow T) (bucket : LedgerBucket T)
    (h : Follows w.toList bucket = false) :
    w.append bucket = .error (.panic "ledgers not contiguous") := by
  simp [append, h]

/-- `Append` on the FIFO: it keeps the retention window, drops the oldest bucket when full, and
    adds `bucket` at the end. -/
theorem toList_append {w w' : LedgerBucketWindow T} {bucket : LedgerBucket T}
    (h : w.append bucket = .ok w') :
    Follows w.toList bucket ∧ w'.retentionWindow = w.retentionWindow ∧
      w'.toList = (if w.toList.length < w.retentionWindow.toNat then w.toList
        else w.toList.tail) ++ [bucket] := by
  unfold append at h
  split at h
  · rename_i hf
    split at h <;> cases h
    · rename_i hl
      exact ⟨hf, rfl, by simp only [length_toList, hl, if_true]; exact w.toList_push bucket hl⟩
    · rename_i hl
      exact ⟨hf, rfl, by simp only [length_toList, hl, if_false]; exact w.toList_overwrite bucket hl⟩
  · cases h

theorem append_ok_of_follows (w : LedgerBucketWindow T) (bucket : LedgerBucket T)
    (h : Follows w.toList bucket) : ∃ w', w.append bucket = .ok w' := by
  unfold append
  split_ifs <;> exact ⟨_, rfl⟩

/-- A window holds no more buckets than its retention window. -/
theorem length_toList_le (w : LedgerBucketWindow T) : w.toList.length ≤ w.retentionWindow.toNat := by
  simpa using w.length_le

/-! ## Ledger sequences of a window -/

/-- Without wrapping past the largest `uint32`, the `i`-th bucket of a contiguous list holds
    ledger `first + i`. -/
theorem Contiguous.ledgerSeq_getElem {bs : List (LedgerBucket T)} (h : Contiguous bs)
    (hne : 0 < bs.length) (hw : (bs[0]).ledgerSeq.toNat + bs.length ≤ 2 ^ 32) :
    ∀ i (hi : i < bs.length), (bs[i]).ledgerSeq.toNat = (bs[0]).ledgerSeq.toNat + i := by
  intro i hi
  induction i with
  | zero => rfl
  | succ i ih =>
    have hstep := List.chain'_iff_get.1 h i (by omega)
    simp only [List.get_eq_getElem] at hstep
    rw [hstep, UInt32.toNat_add_one (by rw [ih (by omega)]; omega), ih (by omega)]
    omega

end LedgerBucketWindow

end SorobanRpc
