import SorobanRpc.Events.MemoryStore
import Mathlib.Data.UInt

set_option autoImplicit false

/-! # The ingestion service

`NewService` starts one goroutine that runs `backoff.RetryNotify` around `run`. `run` calls
`maybeFillEntriesFromCheckpoint`, which on an empty DB asks the history archive for its root and
starts a goroutine running `fillEntriesFromCheckpoint` on that checkpoint; `run` then prepares the
ledger backend, waits on `checkPointFillErr` and calls `ingest` on one ledger after the other.

The model is a step relation over `Sys`: the state of the DB, of the two in-memory stores, of the
goroutine of `NewService` (`MainPc`, the call it makes next) and of every fill goroutine started so
far. An `Action` is one goroutine taking its next call, with the `Outcome` the environment picks
for it (a backend, archive or DB call may fail at any time, a root names any checkpoint), or
`Close` cancelling the context. Each goroutine's calls are atomic steps, so runs of the model are
the interleavings of the goroutines. The return of `RetryNotify` and the goroutine's test of the
error it returned are two steps (`retryNotify`, `fatalUnlessCanceled`): `Close` can come between
them.

Two calls are computed and not chosen: `eventStore.IngestEvents` is `MemoryStore.ingestEvents` of
the event store, run on the ledger the backend holds (`backend sequence`), and
`transactionStore.IngestTransactions` appends the ledger's bucket to the transaction store's
window. Both panic when the ledger does not follow the window's newest bucket; the panic, like
`Fatal`, ends the process.

The DB package (`db.ReadWriter`) and the transaction store are not in the sources; both are
modelled from the spec. The DB is the list of `LatestLedgerSequence` values its committed
transactions wrote (`Db.commits`, oldest first; the newest one is what `GetLatestLedgerSequence`
returns). A commit may fail before it commits, or commit and then fail in its post-commit hook
(`Outcome.hookErr`), as `Done` of the ledger-entry storage does. -/

namespace SorobanRpc.Ingest

open Events LedgerBucketWindow

variable {α : Type}

/-! ## The stores -/

/-- Modelled from the spec: the ledger-entry DB, through the `LatestLedgerSequence` values its
    committed write transactions wrote, oldest first. -/
structure Db where
  commits : List UInt32
  deriving DecidableEq, Repr

namespace Db

/-- `GetLatestLedgerSequence`; `none` is `ErrEmptyDB`. -/
def getLatestLedgerSequence (db : Db) : Option UInt32 := db.commits.getLast?

/-- A committed `WriteTx` with `Commit(sequence)`. -/
def commit (db : Db) (sequence : UInt32) : Db := ⟨db.commits ++ [sequence]⟩

@[simp] theorem commits_commit (db : Db) (sequence : UInt32) :
    (db.commit sequence).commits = db.commits ++ [sequence] := rfl

@[simp] theorem getLatestLedgerSequence_commit (db : Db) (sequence : UInt32) :
    (db.commit sequence).getLatestLedgerSequence = some sequence := by
  simp [getLatestLedgerSequence]

end Db

/-- Modelled from the spec: `transactions.MemoryStore`, the transactions of the last ledgers in a
    window of buckets like the event store's. -/
structure TransactionStore (α : Type) where
  transactionsByLedger : LedgerBucketWindow (List (LedgerTransaction α))

/-- Modelled from the spec: `IngestTransactions` reads the ledger's transactions and appends their
    bucket. -/
def TransactionStore.ingestTransactions (m : TransactionStore α)
    (ledgerCloseMeta : LedgerCloseMeta α) : Except GoError (TransactionStore α) := do
  let reader ← ledgerCloseMeta.transactionReader.mapError GoError.err
  let bucket : LedgerBucket (List (LedgerTransaction α)) :=
    { ledgerSeq := ledgerCloseMeta.ledgerSequence
      ledgerCloseTimestamp := toInt64 ledgerCloseMeta.closeTime
      bucketContent := reader.transactions }
  let transactionsByLedger ← m.transactionsByLedger.append bucket
  pure { m with transactionsByLedger }

/-- The newest ledger of a window, `none` when it is empty. -/
def newestLedger {T : Type} (w : LedgerBucketWindow T) : Option UInt32 :=
  w.toList.getLast?.map LedgerBucket.ledgerSeq

/-! ## The goroutines -/

/-- The calls of `ingest(sequence)`, in order; `ingestEvents` and `ingestTransactions` are the
    calls of `ingestLedgerCloseMeta` after `InsertLedger`. -/
inductive IngestStep where
  | getLedger
  | newLedgerChangeReader
  | newTx
  | ingestLedgerEntryChanges
  | closeReader
  | insertLedger
  | ingestEvents
  | ingestTransactions
  | commit
  deriving DecidableEq, Repr

/-- The call after `step`; after `Commit` the loop of `run` goes on with the next ledger. -/
def IngestStep.next : IngestStep → IngestStep
  | .getLedger => .newLedgerChangeReader
  | .newLedgerChangeReader => .newTx
  | .newTx => .ingestLedgerEntryChanges
  | .ingestLedgerEntryChanges => .closeReader
  | .closeReader => .insertLedger
  | .insertLedger => .ingestEvents
  | .ingestEvents => .ingestTransactions
  | .ingestTransactions => .commit
  | .commit => .getLedger

/-- The calls of `fillEntriesFromCheckpoint`, in order. -/
inductive FillStep where
  | newCheckpointChangeReader
  | newTx
  | ingestLedgerEntryChanges
  | closeReader
  | commit
  deriving DecidableEq, Repr

/-- The call after `step`; `Commit` is the last one, whose `next` is never taken. -/
def FillStep.next : FillStep → FillStep
  | .newCheckpointChangeReader => .newTx
  | .newTx => .ingestLedgerEntryChanges
  | .ingestLedgerEntryChanges => .closeReader
  | .closeReader => .commit
  | .commit => .commit

/-- Where a fill goroutine is: at a call, or done, having sent its result (`ok` for `nil`) on
    `checkPointFillErr`. -/
inductive FillPc where
  | running (step : FillStep)
  | sent (ok : Bool)
  deriving DecidableEq, Repr

/-- A goroutine running `fillEntriesFromCheckpoint(checkpointLedger)`. -/
structure Fill where
  checkpointLedger : UInt32
  pc : FillPc
  deriving DecidableEq, Repr

/-- The fill has not sent its result yet. -/
def Fill.running (f : Fill) : Bool :=
  match f.pc with
  | .running _ => true
  | .sent _ => false

/-- Where the goroutine of `NewService` is: the call it makes next. -/
inductive MainPc where
  /-- `maybeFillEntriesFromCheckpoint` calls `GetLatestLedgerSequence`: `run` starts. -/
  | getLatestLedgerSequence
  /-- The DB was empty: `archive.GetRootHAS()`. -/
  | getRootHAS
  /-- `PrepareRange` from `nextLedgerSeq`. `fill` is the fill goroutine whose result
      `checkPointFillErr` gets, `none` when `nil` was put on it already. -/
  | prepareRange (nextLedgerSeq : UInt32) (fill : Option Nat)
  /-- `<-checkPointFillErr`. -/
  | receive (nextLedgerSeq : UInt32) (fill : Option Nat)
  /-- `ingest(sequence)`, at `step`. -/
  | ingest (sequence : UInt32) (step : IngestStep)
  /-- `run` returned an error: `RetryNotify` asks the back-off whether to go on. -/
  | nextBackOff
  /-- The one-second wait before `run` is called again. -/
  | sleep
  /-- `RetryNotify` returned: `context.Canceled` when `canceled`, `run`'s error otherwise. The
      goroutine tests it next. -/
  | returned (canceled : Bool)
  /-- The goroutine has ended; with `fatal` it called `Fatal`. -/
  | exited (fatal : Bool)
  /-- A store panicked with `msg`. -/
  | panicked (msg : String)
  deriving DecidableEq, Repr

/-- The fill goroutine that `checkPointFillErr` of the current `run` is fed by. -/
def MainPc.waitsOn : MainPc → Option Nat
  | .prepareRange _ fill | .receive _ fill => fill
  | _ => none

/-- What a call returns, as the environment picks it. -/
inductive Outcome where
  | ok
  | err
  /-- `GetRootHAS` returns a root at `checkpointLedger`. -/
  | root (checkpointLedger : UInt32)
  /-- `Commit` commits, then its post-commit hook fails. -/
  | hookErr
  deriving DecidableEq, Repr

/-- A step of the system: the goroutine of `NewService`, or fill goroutine `i`, makes its next
    call; or `Close` cancels the context. -/
inductive Action where
  | main (o : Outcome)
  | fill (i : Nat) (o : Outcome)
  | close
  deriving DecidableEq, Repr

/-- The service and the stores it writes. -/
structure Sys (α : Type) where
  db : Db
  eventStore : MemoryStore α
  transactionStore : TransactionStore α
  main : MainPc
  /-- The fill goroutines started so far, in the order they were started. -/
  fills : List Fill
  /-- `numTries` of `WithMaxRetries`. -/
  retries : Nat
  /-- The context was cancelled by `Close`. -/
  cancelled : Bool

namespace Sys

variable (backend : UInt32 → LedgerCloseMeta α)

/-- `NewService`: `run` about to start, no fill goroutine, no retry yet. -/
def start (db : Db) (eventStore : MemoryStore α) (transactionStore : TransactionStore α) :
    Sys α where
  db := db
  eventStore := eventStore
  transactionStore := transactionStore
  main := .getLatestLedgerSequence
  fills := []
  retries := 0
  cancelled := false

/-- `run` returns an error. -/
def fail (s : Sys α) : Sys α := { s with main := .nextBackOff }

/-- The calls of `maybeFillEntriesFromCheckpoint`. An empty DB (`ErrEmptyDB`) leads to
    `GetRootHAS`, whose root starts a fill goroutine on its checkpoint; a DB at `curLedgerSeq` puts
    `nil` on `checkPointFillErr` and streams from `curLedgerSeq + 1`. -/
def maybeFillEntriesFromCheckpoint (s : Sys α) (o : Outcome) : Option (Sys α) :=
  match s.main, o with
  | .getLatestLedgerSequence, .ok => some <|
    match s.db.getLatestLedgerSequence with
    | none => { s with main := .getRootHAS }
    | some curLedgerSeq => { s with main := .prepareRange (curLedgerSeq + 1) none }
  | .getRootHAS, .root checkpointLedger => some
    { s with
      main := .prepareRange (checkpointLedger + 1) (some s.fills.length)
      fills := s.fills ++ [⟨checkpointLedger, .running .newCheckpointChangeReader⟩] }
  | .getLatestLedgerSequence, .err => some s.fail
  | .getRootHAS, .err => some s.fail
  | _, _ => none

/-- The rest of `run` before its loop: `PrepareRange`, then `<-checkPointFillErr`, which blocks
    until the fill goroutine has sent its result. -/
def run (s : Sys α) (o : Outcome) : Option (Sys α) :=
  match s.main, o with
  | .prepareRange nextLedgerSeq fill, .ok => some { s with main := .receive nextLedgerSeq fill }
  | .prepareRange _ _, .err => some s.fail
  | .receive nextLedgerSeq none, .ok => some { s with main := .ingest nextLedgerSeq .getLedger }
  | .receive nextLedgerSeq (some i), .ok =>
    match (s.fills[i]?).map Fill.pc with
    | some (.sent true) => some { s with main := .ingest nextLedgerSeq .getLedger }
    | some (.sent false) => some s.fail
    | _ => none
  | _, _ => none

/-- One call of `ingest(sequence)`, with `ingestLedgerCloseMeta` inlined. Its `IngestEvents` and
    `IngestTransactions` run on the ledger `GetLedger` returned; a `Commit` that fails in its hook
    has committed. -/
def ingest (s : Sys α) (sequence : UInt32) : IngestStep → Outcome → Option (Sys α)
  | .ingestEvents, .ok =>
    match s.eventStore.ingestEvents (backend sequence) with
    | .ok eventStore => some { s with eventStore, main := .ingest sequence .ingestTransactions }
    | .error (.err _) => some s.fail
    | .error (.panic msg) => some { s with main := .panicked msg }
  | .ingestTransactions, .ok =>
    match s.transactionStore.ingestTransactions (backend sequence) with
    | .ok transactionStore =>
      some { s with transactionStore, main := .ingest sequence .commit }
    | .error (.err _) => some s.fail
    | .error (.panic msg) => some { s with main := .panicked msg }
  | .commit, .ok =>
    some { s with db := s.db.commit sequence, main := .ingest (sequence + 1) .getLedger }
  | .commit, .hookErr => some { s with db := s.db.commit sequence, main := .nextBackOff }
  | .ingestEvents, _ => none
  | step, .ok => some { s with main := .ingest sequence step.next }
  | _, .err => some s.fail
  | _, _ => none

/-- `RetryNotify` with `WithContext(WithMaxRetries(NewConstantBackOff(1s), 5), ctx)` after `run`
    failed: a cancelled context makes it return `context.Canceled`; after 5 retries it returns
    `run`'s error; otherwise it waits a second, or returns `context.Canceled` if the context is
    cancelled meanwhile, and calls `run` again. -/
def retryNotify (s : Sys α) (o : Outcome) : Option (Sys α) :=
  match s.main, o with
  | .nextBackOff, .ok => some <|
    if s.cancelled then { s with main := .returned true }
    else if s.retries < 5 then { s with main := .sleep, retries := s.retries + 1 }
    else { s with main := .returned false }
  | .sleep, .ok => some <|
    if s.cancelled then { s with main := .returned true }
    else { s with main := .getLatestLedgerSequence }
  | _, _ => none

/-- The goroutine of `NewService` after `RetryNotify` returned `err`: it calls `Fatal` when
    `err != nil && !errors.Is(err, context.Canceled)`, and ends. -/
def fatalUnlessCanceled (s : Sys α) (o : Outcome) : Option (Sys α) :=
  match s.main, o with
  | .returned canceled, .ok => some { s with main := .exited !canceled }
  | _, _ => none

/-- One call of the goroutine of `NewService`. -/
def stepMain (s : Sys α) (o : Outcome) : Option (Sys α) :=
  match s.main with
  | .getLatestLedgerSequence | .getRootHAS => s.maybeFillEntriesFromCheckpoint o
  | .prepareRange _ _ | .receive _ _ => s.run o
  | .ingest sequence step => s.ingest backend sequence step o
  | .nextBackOff | .sleep => s.retryNotify o
  | .returned _ => s.fatalUnlessCanceled o
  | .exited _ | .panicked _ => none

/-- One call of fill goroutine `i`, in `fillEntriesFromCheckpoint`; its last act is to send its
    result on `checkPointFillErr`. -/
def fillEntriesFromCheckpoint (s : Sys α) (i : Nat) (o : Outcome) : Option (Sys α) :=
  match s.fills[i]?, o with
  | some ⟨c, .running .commit⟩, .ok =>
    some { s with db := s.db.commit c, fills := s.fills.set i ⟨c, .sent true⟩ }
  | some ⟨c, .running .commit⟩, .hookErr =>
    some { s with db := s.db.commit c, fills := s.fills.set i ⟨c, .sent false⟩ }
  | some ⟨c, .running step⟩, .ok => some { s with fills := s.fills.set i ⟨c, .running step.next⟩ }
  | some ⟨c, .running _⟩, .err => some { s with fills := s.fills.set i ⟨c, .sent false⟩ }
  | _, _ => none

/-- The process is gone: a store panicked, or `Fatal` was called. -/
def dead (s : Sys α) : Bool :=
  match s.main with
  | .panicked _ | .exited true => true
  | _ => false

/-- One step of the system; `Close` may come at any time and more than once. -/
def step (s : Sys α) (a : Action) : Option (Sys α) :=
  if s.dead then none else
  match a with
  | .main o => s.stepMain backend o
  | .fill i o => s.fillEntriesFromCheckpoint i o
  | .close => some { s with cancelled := true }

end Sys

variable (backend : UInt32 → LedgerCloseMeta α)

/-- The states reached from `s₀` by steps that `allowed` admits. -/
inductive Reachable (allowed : Sys α → Action → Prop) (s₀ : Sys α) : Sys α → Prop
  | init : Reachable allowed s₀ s₀
  | step {s s' : Sys α} {a : Action} :
      Reachable allowed s₀ s → allowed s a → s.step backend a = some s' → Reachable allowed s₀ s'

/-- What holds at `s₀` and is kept by every allowed step holds in every state reached. -/
theorem Reachable.induction {allowed : Sys α → Action → Prop} {s₀ : Sys α} (P : Sys α → Prop)
    (h0 : P s₀) (hstep : ∀ s a s', P s → allowed s a → s.step backend a = some s' → P s')
    {s : Sys α} (h : Reachable backend allowed s₀ s) : P s := by
  induction h with
  | init => exact h0
  | step _ ha hs ih => exact hstep _ _ _ ih ha hs

/-- The steps of a trace, one after the other. -/
def Sys.steps (s : Sys α) : List Action → Option (Sys α)
  | [] => some s
  | a :: as => (s.step backend a).bind fun s' => s'.steps as

theorem Sys.steps_append (s : Sys α) (as bs : List Action) :
    s.steps backend (as ++ bs) = (s.steps backend as).bind fun s' => s'.steps backend bs := by
  induction as generalizing s with
  | nil => rfl
  | cons a as ih =>
    simp only [List.cons_append, Sys.steps]
    cases s.step backend a with
    | none => rfl
    | some s' => exact ih s'

/-- A run whose every action the restriction admits, in any state, continues a reachable state. -/
theorem Reachable.steps_of_allowed {allowed : Sys α → Action → Prop} {s₀ s₁ s : Sys α}
    {as : List Action} (h : Reachable backend allowed s₀ s₁) (hs : s₁.steps backend as = some s)
    (hall : ∀ a ∈ as, ∀ s, allowed s a) : Reachable backend allowed s₀ s := by
  induction as generalizing s₁ with
  | nil => cases hs; exact h
  | cons a as ih =>
    obtain ⟨s', ha, hs⟩ := Option.bind_eq_some.1 hs
    exact ih (.step h (hall a (.head _) s₁) ha) hs fun b hb => hall b (.tail _ hb)

/-- A trace that runs to its end from a reachable state reaches its last state. -/
theorem Reachable.steps {s₀ s₁ s : Sys α} {as : List Action}
    (h : Reachable backend (fun _ _ => True) s₀ s₁) (hs : s₁.steps backend as = some s) :
    Reachable backend (fun _ _ => True) s₀ s :=
  h.steps_of_allowed backend hs fun _ _ _ => trivial

theorem reachable_of_steps {s₀ s : Sys α} (as : List Action) (h : s₀.steps backend as = some s) :
    Reachable backend (fun _ _ => True) s₀ s :=
  Reachable.steps backend .init h

end SorobanRpc.Ingest
