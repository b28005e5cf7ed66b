import SorobanRpc.Events.Seek
import SorobanRpc.LedgerBucketWindow

set_option autoImplicit false

/-! # The in-memory event store

`MemoryStore` keeps the events of the last `retentionWindow` ledgers in a `LedgerBucketWindow`,
one bucket per ledger. `IngestEvents` reads a ledger's events and appends its bucket; `Scan`
validates a `Range` against the window and calls a visitor on the events of the range in cursor
order.

The visitor of `Scan` is a Go closure `f(contents, cursor, timestamp) bool`; it is modelled as a
function of an explicit state `σ`, which covers every closure whose behaviour depends on what it
has seen so far (a collector with a limit, for instance). The lock of the store only serialises
`Scan` and `IngestEvents`, so each is one function here. The network passphrase only reaches
`readEvents` through the reader of the ledger close meta, so the store does not hold it.

The clamping blocks of `validateRange` are the named steps `checkStart` and `checkEnd`, each with
its own inversion lemma; `validateRange_ok` collects what a successful validation says about the
range. -/

namespace SorobanRpc.Events

open LedgerBucketWindow

variable {α σ : Type}

/-- `MemoryStore`: the event store. -/
structure MemoryStore (α : Type) where
  eventsByLedger : LedgerBucketWindow (List (Event α))

/-- `NewMemoryStore`: an empty store with the given retention window (in ledgers). -/
def newMemoryStore (retentionWindow : UInt32) : Except GoError (MemoryStore α) := do
  let window ← newLedgerBucketWindow retentionWindow
  pure ⟨window⟩

/-- `Range`: the events in `[start, end_)`; a bound whose clamp flag is set is clamped to the
    window instead of failing the validation. -/
structure Range where
  start : Cursor
  clampStart : Bool
  end_ : Cursor
  clampEnd : Bool
  deriving DecidableEq, Repr

/-- The `ClampStart` block of `validateRange`. -/
def checkStart (min : Cursor) (eventRange : Range) : Except GoError Range :=
  if eventRange.start.cmp min < 0 then
    if eventRange.clampStart then .ok { eventRange with start := min }
    else .error (.err "start is before oldest ledger")
  else .ok eventRange

/-- The `ClampEnd` block of `validateRange`. -/
def checkEnd (max : Cursor) (eventRange : Range) : Except GoError Range :=
  if eventRange.end_.cmp max > 0 then
    if eventRange.clampEnd then .ok { eventRange with end_ := max }
    else .error (.err "end is after latest ledger")
  else .ok eventRange

/-- `validateRange`: checks the range against the window and clamps it where asked to. `max` is
    computed in `uint32` arithmetic, as in Go. -/
def MemoryStore.validateRange (m : MemoryStore α) (eventRange : Range) : Except GoError Range :=
  if m.eventsByLedger.len = 0 then .error (.err "event store is empty") else do
  let firstBucket ← m.eventsByLedger.get 0
  let min : Cursor := { ledger := firstBucket.ledgerSeq }
  let eventRange ← checkStart min eventRange
  let max : Cursor := { ledger := min.ledger + m.eventsByLedger.len }
  if eventRange.start.cmp max ≥ 0 then .error (.err "start is after newest ledger") else do
  let eventRange ← checkEnd max eventRange
  if eventRange.start.cmp eventRange.end_ ≥ 0 then .error (.err "start is not before end")
  else .ok eventRange

/-- A visitor of `Scan` with state `σ`: it returns its new state and whether to go on. -/
def Visitor (σ α : Type) := σ → α → Cursor → Int → σ × Bool

/-- The loop of `Scan` over one bucket's events; `false` when `Scan` returns. -/
def scanEvents (f : Visitor σ α) (end_ : Cursor) (ledgerSeq : UInt32) (timestamp : Int) :
    List (Event α) → σ → σ × Bool
  | [], s => (s, true)
  | event :: events, s =>
    let cur := event.cursor ledgerSeq
    if end_.cmp cur ≤ 0 then (s, false)
    else match f s event.contents cur timestamp with
      | (s, true) => scanEvents f end_ ledgerSeq timestamp events s
      | (s, false) => (s, false)

/-- The loop of `Scan` over the buckets `i, i + 1, …` of the window; only the first bucket of the
    range is sought into. -/
def scanBuckets (m : MemoryStore α) (eventRange : Range) (f : Visitor σ α) (i : UInt32)
    (s : σ) : Except GoError σ :=
  if i < m.eventsByLedger.len then do
    let bucket ← m.eventsByLedger.get i
    let events := if bucket.ledgerSeq = eventRange.start.ledger then
        seek bucket.bucketContent eventRange.start
      else bucket.bucketContent
    match scanEvents f eventRange.end_ bucket.ledgerSeq bucket.ledgerCloseTimestamp events s with
    | (s, true) => scanBuckets m eventRange f (i + 1) s
    | (s, false) => .ok s
  else .ok s
termination_by (m.eventsByLedger.len - i).toNat
decreasing_by
  have h : i.toNat < m.eventsByLedger.len.toNat := ‹_›
  have := m.eventsByLedger.len.toNat_lt
  rw [UInt32.toNat_sub_of_le _ _ (by rw [UInt32.le_iff_toNat_le, UInt32.toNat_add_one (by omega)]; omega),
    UInt32.toNat_sub_of_le _ _ (UInt32.le_iff_toNat_le.2 (by omega)), UInt32.toNat_add_one (by omega)]
  omega

/-- `Scan`: validates the range, then visits its events in cursor order until the visitor
    returns `false`; returns the newest ledger of the window. -/
def MemoryStore.scan (m : MemoryStore α) (eventRange : Range) (f : Visitor σ α) (s : σ) :
    Except GoError (UInt32 × σ) := do
  let eventRange ← m.validateRange eventRange
  let firstLedgerInRange := eventRange.start.ledger
  let firstLedgerInWindow := (← m.eventsByLedger.get 0).ledgerSeq
  let lastLedgerInWindow := firstLedgerInWindow + (m.eventsByLedger.len - 1)
  let s ← scanBuckets m eventRange f (firstLedgerInRange - firstLedgerInWindow) s
  pure (lastLedgerInWindow, s)

/-- `int64(t)` for a `uint64` close time. -/
def toInt64 (t : UInt64) : Int :=
  if t.toNat < UInt64.size / 2 then t.toNat else t.toNat - UInt64.size

/-- `IngestEvents`: reads the ledger's events and appends its bucket. A read error leaves the
    store as it was; a ledger that does not follow the window makes the window panic. -/
def MemoryStore.ingestEvents (m : MemoryStore α) (ledgerCloseMeta : LedgerCloseMeta α) :
    Except GoError (MemoryStore α) := do
  let events ← (readEvents ledgerCloseMeta).mapError GoError.err
  let bucket : LedgerBucket (List (Event α)) :=
    { ledgerSeq := ledgerCloseMeta.ledgerSequence,
      ledgerCloseTimestamp := toInt64 ledgerCloseMeta.closeTime,
      bucketContent := events }
  let eventsByLedger ← m.eventsByLedger.append bucket
  pure { m with eventsByLedger }

/-- The bucket `IngestEvents` appends for a ledger whose events are `events`. -/
def bucketOf (ledgerCloseMeta : LedgerCloseMeta α) (events : List (Event α)) :
    LedgerBucket (List (Event α)) :=
  { ledgerSeq := ledgerCloseMeta.ledgerSequence,
    ledgerCloseTimestamp := toInt64 ledgerCloseMeta.closeTime, bucketContent := events }

/-- A successful `IngestEvents` read the ledger's events and appended its bucket. -/
theorem MemoryStore.ingestEvents_eq_ok {m m' : MemoryStore α}
    {ledgerCloseMeta : LedgerCloseMeta α} (h : m.ingestEvents ledgerCloseMeta = .ok m') :
    ∃ events eventsByLedger, readEvents ledgerCloseMeta = .ok events ∧
      m.eventsByLedger.append (bucketOf ledgerCloseMeta events) = .ok eventsByLedger ∧
      m' = ⟨eventsByLedger⟩ := by
  simp only [MemoryStore.ingestEvents, bind, Except.bind, Except.mapError] at h
  split at h
  · cases h
  · rename_i events hread
    split at h
    · cases h
    · rename_i w hw
      cases h
      refine ⟨events, w, ?_, hw, rfl⟩
      split at hread <;> cases hread
      assumption

/-! ## Validation -/

theorem checkStart_ok {min : Cursor} {r r' : Range} (h : checkStart min r = .ok r') :
    r'.start = (if r.start < min then min else r.start) ∧ (r.start < min → r.clampStart) ∧
      r'.end_ = r.end_ ∧ r'.clampEnd = r.clampEnd := by
  unfold checkStart at h
  simp only [Cursor.cmp_lt_zero] at h
  split_ifs at h with h1 h2 <;> cases h
  · exact ⟨by simp [h1], fun _ => h2, rfl, rfl⟩
  · exact ⟨by simp [h1], fun h => absurd h h1, rfl, rfl⟩

theorem checkEnd_ok {max : Cursor} {r r' : Range} (h : checkEnd max r = .ok r') :
    r'.end_ = (if max < r.end_ then max else r.end_) ∧ (max < r.end_ → r.clampEnd) ∧
      r'.start = r.start := by
  unfold checkEnd at h
  simp only [gt_iff_lt, Cursor.zero_lt_cmp] at h
  split_ifs at h with h1 h2 <;> cases h
  · exact ⟨by simp [h1], fun _ => h2, rfl⟩
  · exact ⟨by simp [h1], fun h => absurd h h1, rfl⟩

/-- What a successful validation says: the window is not empty, the start was clamped up to the
    window's first ledger or was in it, the end was clamped down to `max` or was below it, and the
    range is not empty. `max` is the `uint32` cursor of `validateRange`. -/
theorem validateRange_ok {m : MemoryStore α} {r r' : Range} (h : m.validateRange r = .ok r') :
    ∃ (hne : 0 < m.eventsByLedger.toList.length),
      let first := (m.eventsByLedger.toList[0]).ledgerSeq
      let max : Cursor := { ledger := first + m.eventsByLedger.len }
      r'.start = (if r.start < { ledger := first } then { ledger := first } else r.start) ∧
      (r.start < { ledger := first } → r.clampStart) ∧ r'.start < max ∧
      r'.end_ = (if max < r.end_ then max else r.end_) ∧ (max < r.end_ → r.clampEnd) ∧
      r'.start < r'.end_ := by
  unfold MemoryStore.validateRange at h
  split_ifs at h with hlen
  have hne : 0 < m.eventsByLedger.toList.length := by
    rw [← len_toNat]; rw [UInt32.ext_iff] at hlen; simpa [Nat.pos_iff_ne_zero] using hlen
  refine ⟨hne, ?_⟩
  simp only [get_of_lt _ 0 hne, UInt32.toNat_zero, bind, Except.bind] at h
  split at h
  · cases h
  · rename_i r1 h1
    split_ifs at h with hmax
    split at h
    · cases h
    · rename_i r2 h2
      split_ifs at h with hse
      cases h
      obtain ⟨hs1, hc1, he1, hce⟩ := checkStart_ok h1
      obtain ⟨he2, hc2, hs2⟩ := checkEnd_ok h2
      simp only [ge_iff_le, Cursor.zero_le_cmp, Cursor.le_def, Cursor.lt_def, not_le] at hmax hse
      refine ⟨hs2 ▸ hs1, hc1, ?_, he1 ▸ he2, hce ▸ he1 ▸ hc2, ?_⟩
      · rw [Cursor.lt_def, hs2]; exact hmax
      · rw [Cursor.lt_def]; exact hse

/-- The bounds a successful validation gives, in `Nat`: the window's ledgers `[f, f + n)` do not
    wrap, the start lies among them, the end is at most the first cursor of ledger `f + n`, and
    the start is below the end. -/
theorem validateRange_bounds {m : MemoryStore α} {r r' : Range} (h : m.validateRange r = .ok r') :
    ∃ (hne : 0 < m.eventsByLedger.toList.length),
      let f := (m.eventsByLedger.toList[0]).ledgerSeq.toNat
      let n := m.eventsByLedger.toList.length
      f + n < 2 ^ 32 ∧ f * 2 ^ 96 ≤ r'.start.toNat ∧ r'.start.toNat < (f + n) * 2 ^ 96 ∧
        r'.end_.toNat ≤ (f + n) * 2 ^ 96 ∧ r'.start < r'.end_ := by
  obtain ⟨hne, hs, -, hmax, he, -, hse⟩ := validateRange_ok h
  refine ⟨hne, ?_⟩
  have hlen := len_toNat m.eventsByLedger
  have hmaxN : ({ ledger := (m.eventsByLedger.toList[0]).ledgerSeq + m.eventsByLedger.len } :
      Cursor).toNat = ((m.eventsByLedger.toList[0]).ledgerSeq.toNat +
        m.eventsByLedger.toList.length) % 2 ^ 32 * 2 ^ 96 := by
    rw [Cursor.toNat_ledger, UInt32.toNat_add, hlen, UInt32.size_eq]
  have hstart : (m.eventsByLedger.toList[0]).ledgerSeq.toNat * 2 ^ 96 ≤ r'.start.toNat := by
    rw [hs]; split_ifs with h1
    · simp
    · rw [Cursor.lt_def, Cursor.toNat_ledger] at h1; omega
  have hend : r'.end_.toNat ≤ ((m.eventsByLedger.toList[0]).ledgerSeq.toNat +
      m.eventsByLedger.toList.length) % 2 ^ 32 * 2 ^ 96 := by
    rw [he]; split_ifs with h1
    · rw [hmaxN]
    · rw [Cursor.lt_def, hmaxN] at h1; omega
  rw [Cursor.lt_def, hmaxN] at hmax
  have hwrap : (m.eventsByLedger.toList[0]).ledgerSeq.toNat + m.eventsByLedger.toList.length
      < 2 ^ 32 := by
    by_contra hw
    have := (m.eventsByLedger.toList[0]).ledgerSeq.toNat_lt
    have := m.eventsByLedger.len.toNat_lt
    rw [Nat.mod_eq_sub_mod (by omega), Nat.mod_eq_of_lt (by omega)] at hmax
    omega
  rw [Nat.mod_eq_of_lt hwrap] at hmax hend
  exact ⟨hwrap, hstart, hmax, hend, hse⟩

/-- A store whose only bucket is the ledger `4294967295`, the largest `uint32`. -/
def lastLedgerStore : MemoryStore Unit :=
  ⟨⟨1, [⟨4294967295, 0, []⟩], 0, by decide, by decide, .inl rfl, fun _ => rfl,
    List.chain'_singleton _⟩⟩

/-- At the largest ledger `f = 4294967295` with `n = 1`, `f + n` wraps to `0` in `max`, and
    `validateRange` rejects a range that starts in the window and ends inside it. -/
theorem validateRange_lastLedger_rejected :
    lastLedgerStore.validateRange
        { start := { ledger := 4294967295 }, clampStart := false,
          end_ := { ledger := 4294967295, tx := 1 }, clampEnd := false } =
      .error (.err "start is after newest ledger") := rfl

end SorobanRpc.Events
