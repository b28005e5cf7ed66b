import SorobanRpc.Events.Cursor
import Mathlib.Data.List.Pairwise
import Mathlib.Data.List.Chain

set_option autoImplicit false

/-! # Reading the events of a ledger

`readEvents` walks the transactions of a ledger close meta with a `LedgerTransactionReader`,
skips the failed ones, and tags every event of every operation with its position
`(txIndex, opIndex, eventIndex)`. The reader, the transactions and the XDR values come from the
`stellar/go` packages; the model keeps only what `readEvents` reads of them: the transactions the
reader yields and the error it ends with (`io.EOF` or another), what `Close` returns, and for each
transaction its `Index`, whether it succeeded, the length of its envelope's operations and what
`GetOperationEvents` returns for each operation.

`readEvents_spec` shows that the result is the concatenation of the tagged events of the
successful transactions, strictly ascending in position when the transaction indices increase:
the order `seek` and `Scan` rely on (I5). -/

namespace SorobanRpc.Events

/-- A variable-length XDR array: its length is encoded as a `uint32`. -/
def XdrArray (α : Type) := { l : List α // l.length < 2 ^ 32 }

/-- `event`: a contract event and its position in its ledger. -/
structure Event (α : Type) where
  contents : α
  txIndex : UInt32
  opIndex : UInt32
  eventIndex : UInt32
  deriving DecidableEq, Repr

variable {α : Type}

/-- `event.cursor`: the event's cursor in ledger `ledgerSeq`. -/
def Event.cursor (e : Event α) (ledgerSeq : UInt32) : Cursor :=
  { ledger := ledgerSeq, tx := e.txIndex, op := e.opIndex, event := e.eventIndex }

/-- The position `(txIndex, opIndex, eventIndex)` packed into one number. -/
def Event.position (e : Event α) : Nat :=
  e.txIndex.toNat * 2 ^ 64 + e.opIndex.toNat * 2 ^ 32 + e.eventIndex.toNat

@[simp] theorem Event.toNat_cursor (e : Event α) (ledgerSeq : UInt32) :
    (e.cursor ledgerSeq).toNat = ledgerSeq.toNat * 2 ^ 96 + e.position := by
  simp only [cursor, Cursor.toNat, position]; omega

@[simp] theorem Event.ledger_cursor (e : Event α) (ledgerSeq : UInt32) :
    (e.cursor ledgerSeq).ledger = ledgerSeq := rfl

theorem Event.position_lt (e : Event α) : e.position < 2 ^ 96 := by
  have := e.txIndex.toNat_lt; have := e.opIndex.toNat_lt; have := e.eventIndex.toNat_lt
  simp only [position]; omega

/-- Events strictly ascending in `(txIndex, opIndex, eventIndex)`. -/
def Ascending (es : List (Event α)) : Prop :=
  es.Pairwise fun a b => a.position < b.position

instance (es : List (Event α)) : Decidable (Ascending es) :=
  inferInstanceAs (Decidable (es.Pairwise _))

/-- The part of `ingest.LedgerTransaction` that `readEvents` reads. -/
structure LedgerTransaction (α : Type) where
  index : UInt32
  /-- `tx.Result.Successful()` -/
  successful : Bool
  /-- `len(tx.Envelope.Operations())`, the length of an XDR array -/
  operationCount : UInt32
  getOperationEvents : UInt32 → Except String (XdrArray α)

/-- What an `ingest.LedgerTransactionReader` does: `Read` yields `transactions`, then returns
    `readErr` (or `io.EOF` when it is `none`); `Close` returns `closeErr`. -/
structure LedgerTransactionReader (α : Type) where
  transactions : List (LedgerTransaction α)
  readErr : Option String
  closeErr : Option String

/-- The part of an `xdr.LedgerCloseMeta` the event store reads: the ledger's sequence and close
    time, and the result of `NewLedgerTransactionReaderFromLedgerCloseMeta` on it. -/
structure LedgerCloseMeta (α : Type) where
  ledgerSequence : UInt32
  closeTime : UInt64
  transactionReader : Except String (LedgerTransactionReader α)

/-! ## `readEvents` -/

/-- The innermost loop: `opEvents` tagged with the transaction, operation and event index. -/
def tagEvents (tx : LedgerTransaction α) (opIndex : UInt32) (opEvents : List α) :
    List (Event α) :=
  opEvents.enum.map fun (eventIndex, opEvent) =>
    { contents := opEvent, txIndex := tx.index, opIndex := opIndex,
      eventIndex := UInt32.ofNat eventIndex }

/-- The loop over a transaction's operations, appending to `events`. -/
def readOperations (tx : LedgerTransaction α) :
    List Nat → List (Event α) → Except String (List (Event α))
  | [], events => .ok events
  | i :: is, events => do
    let opEvents ← tx.getOperationEvents (UInt32.ofNat i)
    readOperations tx is (events ++ tagEvents tx (UInt32.ofNat i) opEvents.val)

/-- The loop over the reader's transactions; failed transactions are skipped. -/
def readTransactions (readErr : Option String) :
    List (LedgerTransaction α) → List (Event α) → Except String (List (Event α))
  | [], events => match readErr with
    | some err => .error err
    | none => .ok events
  | tx :: txs, events =>
    if !tx.successful then readTransactions readErr txs events
    else do
      let events ← readOperations tx (List.range tx.operationCount.toNat) events
      readTransactions readErr txs events

/-- `readEvents`. The deferred `Close` replaces the result by its error only when the loop
    succeeded. -/
def readEvents (ledgerCloseMeta : LedgerCloseMeta α) : Except String (List (Event α)) := do
  let txReader ← ledgerCloseMeta.transactionReader
  match readTransactions txReader.readErr txReader.transactions [], txReader.closeErr with
  | .ok _, some closeErr => .error closeErr
  | result, _ => result

/-! ## What `readEvents` returns -/

/-- The events `GetOperationEvents(i)` returns for operation `i` of `tx`, tagged
    `(tx.Index, i, j)` with `j` their place. -/
def LedgerTransaction.operationEvents (tx : LedgerTransaction α) (i : Nat) : List (Event α) :=
  match tx.getOperationEvents (UInt32.ofNat i) with
  | .ok opEvents => tagEvents tx (UInt32.ofNat i) opEvents.val
  | .error _ => []

/-- The tagged events of all operations of `tx`, in operation order. -/
def LedgerTransaction.taggedEvents (tx : LedgerTransaction α) : List (Event α) :=
  (List.range tx.operationCount.toNat).flatMap tx.operationEvents

theorem readOperations_eq {tx : LedgerTransaction α} :
    ∀ {is : List Nat} {events result : List (Event α)},
      readOperations tx is events = .ok result → result = events ++ is.flatMap tx.operationEvents
  | [], _, _, h => by cases h; simp
  | i :: is, events, result, h => by
    simp only [readOperations] at h
    cases hg : tx.getOperationEvents (UInt32.ofNat i) with
    | error e => simp [hg] at h; cases h
    | ok opEvents =>
      simp only [hg, bind, Except.bind] at h
      rw [readOperations_eq h, List.flatMap_cons, LedgerTransaction.operationEvents, hg,
        List.append_assoc]

theorem readTransactions_eq {readErr : Option String} :
    ∀ {txs : List (LedgerTransaction α)} {events result : List (Event α)},
      readTransactions readErr txs events = .ok result →
      result = events ++ (txs.filter (·.successful)).flatMap LedgerTransaction.taggedEvents
  | [], events, result, h => by
    cases readErr <;> simp only [readTransactions] at h <;> cases h
    simp
  | tx :: txs, events, result, h => by
    simp only [readTransactions] at h
    by_cases hs : tx.successful
    · simp only [hs, Bool.not_true, Bool.false_eq_true, if_false, bind, Except.bind] at h
      split at h
      · cases h
      · rename_i events' hops
        rw [readTransactions_eq h, readOperations_eq hops, List.filter_cons_of_pos hs,
          List.flatMap_cons, List.append_assoc]
        rfl
    · simp only [hs, Bool.not_false, if_true] at h
      rw [readTransactions_eq h, List.filter_cons_of_neg hs]

/-- An event of operation `i` of `tx` carries `tx`'s index, `i` as operation index, and an event
    index below `2 ^ 32`. -/
theorem LedgerTransaction.position_of_mem_operationEvents {tx : LedgerTransaction α} {i : Nat}
    {e : Event α} (h : e ∈ tx.operationEvents i) :
    e.position = tx.index.toNat * 2 ^ 64 + i % 2 ^ 32 * 2 ^ 32 + e.eventIndex.toNat := by
  unfold operationEvents at h
  split at h
  · simp only [tagEvents, List.mem_map] at h
    obtain ⟨⟨j, x⟩, -, rfl⟩ := h
    simp [Event.position, UInt32.toNat_ofNat_eq]
  · simp at h

/-- Within one operation, tagged events ascend. -/
theorem LedgerTransaction.ascending_operationEvents (tx : LedgerTransaction α) (i : Nat) :
    Ascending (tx.operationEvents i) := by
  unfold operationEvents
  split
  · rename_i opEvents _
    have hlen := opEvents.property
    simp only [Ascending, tagEvents, List.pairwise_map]
    refine List.pairwise_iff_getElem.2 fun a b ha hb hab => ?_
    simp only [List.enum_length] at ha hb
    simp only [List.getElem_enum, Event.position, UInt32.toNat_ofNat_eq]
    rw [Nat.mod_eq_of_lt (show a < 2 ^ 32 by omega), Nat.mod_eq_of_lt (show b < 2 ^ 32 by omega)]
    omega
  · exact List.Pairwise.nil

/-- Within one transaction, tagged events ascend. -/
theorem LedgerTransaction.ascending_taggedEvents (tx : LedgerTransaction α) :
    Ascending tx.taggedEvents := by
  have hops := tx.operationCount.toNat_lt
  refine List.pairwise_flatMap.2 ⟨fun i _ => tx.ascending_operationEvents i, ?_⟩
  refine (List.pairwise_iff_getElem.2 fun a b ha hb hab x hx y hy => ?_)
  simp only [List.length_range] at ha hb
  simp only [List.getElem_range] at hx hy
  rw [tx.position_of_mem_operationEvents hx, tx.position_of_mem_operationEvents hy,
    Nat.mod_eq_of_lt (by omega), Nat.mod_eq_of_lt (by omega)]
  have := x.eventIndex.toNat_lt
  omega

/-- Every tagged event of `tx` carries `tx`'s index as its transaction index. -/
theorem LedgerTransaction.txIndex_of_mem_taggedEvents {tx : LedgerTransaction α} {e : Event α}
    (h : e ∈ tx.taggedEvents) : e.txIndex = tx.index := by
  simp only [taggedEvents, List.mem_flatMap] at h
  obtain ⟨i, -, he⟩ := h
  unfold operationEvents at he
  split at he
  · simp only [tagEvents, List.mem_map] at he
    obtain ⟨_, -, rfl⟩ := he
    rfl
  · simp at he

/-- A ledger whose events were read has a transaction reader, and its events are the tagged
    events of the reader's successful transactions, in reader order. -/
theorem readEvents_ok {ledgerCloseMeta : LedgerCloseMeta α} {events : List (Event α)}
    (h : readEvents ledgerCloseMeta = .ok events) :
    ∃ txReader, ledgerCloseMeta.transactionReader = .ok txReader ∧
      events = (txReader.transactions.filter (·.successful)).flatMap
        LedgerTransaction.taggedEvents := by
  cases hr : ledgerCloseMeta.transactionReader with
  | error e => simp [readEvents, hr, bind, Except.bind] at h
  | ok txReader =>
    simp only [readEvents, hr, bind, Except.bind] at h
    have hloop : readTransactions txReader.readErr txReader.transactions [] = .ok events := by
      split at h <;> first | cases h | exact h
    exact ⟨txReader, rfl, by simpa only [List.nil_append] using readTransactions_eq hloop⟩

/-- The tagged events of the successful ones of transactions with strictly increasing indices
    are strictly ascending in position: the transaction index is their most significant part. -/
theorem ascending_taggedEvents_of_chain {txs : List (LedgerTransaction α)}
    (hindex : txs.Chain' fun t t' => t.index < t'.index) :
    Ascending ((txs.filter (·.successful)).flatMap LedgerTransaction.taggedEvents) := by
  refine List.pairwise_flatMap.2 ⟨fun tx _ => tx.ascending_taggedEvents, ?_⟩
  haveI : IsTrans (LedgerTransaction α) fun t t' => t.index < t'.index :=
    ⟨fun _ _ _ => UInt32.lt_trans⟩
  refine ((List.chain'_iff_pairwise.1 hindex).filter _).imp fun {t t'} hlt x hx y hy => ?_
  have hx' := LedgerTransaction.txIndex_of_mem_taggedEvents hx
  have hy' := LedgerTransaction.txIndex_of_mem_taggedEvents hy
  have := x.opIndex.toNat_lt; have := x.eventIndex.toNat_lt
  rw [UInt32.lt_iff_toNat_lt] at hlt
  simp only [Event.position, hx', hy']
  omega

/-- I5 for `readEvents`: the events of a ledger whose transactions come with strictly increasing
    indices are the tagged events of its successful transactions, in reader order; they are
    strictly ascending in position, so no two share one. -/
theorem readEvents_spec (ledgerCloseMeta : LedgerCloseMeta α) (txReader : LedgerTransactionReader α)
    (hreader : ledgerCloseMeta.transactionReader = .ok txReader)
    (hindex : txReader.transactions.Chain' fun t t' => t.index < t'.index)
    {events : List (Event α)} (h : readEvents ledgerCloseMeta = .ok events) :
    events = (txReader.transactions.filter (·.successful)).flatMap LedgerTransaction.taggedEvents ∧
      Ascending events ∧ (events.map Event.position).Nodup := by
  obtain ⟨r, hr, heq⟩ := readEvents_ok h
  rw [hreader] at hr
  cases hr
  have hasc : Ascending events := heq ▸ ascending_taggedEvents_of_chain hindex
  exact ⟨heq, hasc, List.pairwise_map.2 (hasc.imp Nat.ne_of_lt)⟩

/-- A ledger with a failed transaction 1 and a successful transaction 2 of two operations, the
    first emitting events `10, 11` and the second `12`. -/
def twoTransactionMeta : LedgerCloseMeta Nat :=
  { ledgerSequence := 5, closeTime := 0,
    transactionReader := .ok
      { transactions :=
          [{ index := 1, successful := false, operationCount := 1,
             getOperationEvents := fun _ => .ok ⟨[9], by decide⟩ },
           { index := 2, successful := true, operationCount := 2,
             getOperationEvents := fun i =>
               if i = 0 then .ok ⟨[10, 11], by decide⟩ else .ok ⟨[12], by decide⟩ }],
        readErr := none, closeErr := none } }

theorem readEvents_twoTransactions :
    (∃ txReader, twoTransactionMeta.transactionReader = .ok txReader ∧
      txReader.transactions.Chain' (fun t t' => t.index < t'.index) ∧
      readEvents twoTransactionMeta = .ok [⟨10, 2, 0, 0⟩, ⟨11, 2, 0, 1⟩, ⟨12, 2, 1, 0⟩] ∧
      ([⟨10, 2, 0, 0⟩, ⟨11, 2, 0, 1⟩, ⟨12, 2, 1, 0⟩] : List (Event Nat)) =
        (txReader.transactions.filter (·.successful)).flatMap LedgerTransaction.taggedEvents ∧
      Ascending ([⟨10, 2, 0, 0⟩, ⟨11, 2, 0, 1⟩, ⟨12, 2, 1, 0⟩] : List (Event Nat)) ∧
      (([⟨10, 2, 0, 0⟩, ⟨11, 2, 0, 1⟩, ⟨12, 2, 1, 0⟩] : List (Event Nat)).map Event.position).Nodup) :=
  ⟨_, rfl, .cons (by decide) .nil, rfl,
    readEvents_spec twoTransactionMeta _ rfl (.cons (by decide) .nil) rfl⟩

end SorobanRpc.Events
