import SorobanRpc.Ingest.Invariants

set_option autoImplicit false

/-! # Runs without faults

When no call fails, the goroutine of `NewService` started on a DB at ledger `L` goes through
`GetLatestLedgerSequence`, `PrepareRange(L + 1)` and the receive on `checkPointFillErr`, and then
the loop of `run` commits `L + 1, L + 2, …`, nine calls per ledger (`start_streams`). Each
`ingest` appends the ledger to both stores, so they stay at the ledger the DB has committed. On an
empty DB the fill goroutine first commits the archive's checkpoint `c`, in whatever order its calls
interleave with `PrepareRange`, and the stream goes on from `c + 1` (`empty_db_bootstraps`). In
the runs where the stores agree with the DB, every failed `run` with a retry left is followed by a
call of `run` that goes on from the ledger after the DB's newest (`reachable_failure_resumes`).

The run is computed, not assumed: one lemma per call of `ingest` gives the state after it
(`Sys.step_ingestEvents`, …), `Sys.steps_ingest` chains the nine calls, and `Sys.steps_stream`
repeats that by induction on the number of ledgers. The backend's ledgers must be readable by
`readEvents` and carry their own sequence; nothing else is assumed of them. -/

namespace SorobanRpc.Ingest

open Events LedgerBucketWindow

variable {α : Type} (backend : UInt32 → LedgerCloseMeta α) {s : Sys α} {seq : UInt32}

/-! ## One call after the other -/

theorem Sys.steps_cons_of_step {s' : Sys α} {a : Action} (as : List Action)
    (h : s.step backend a = some s') : s.steps backend (a :: as) = s'.steps backend as := by
  simp only [Sys.steps, h, Option.some_bind]

theorem Sys.step_main_of_ingest {step : IngestStep} (hm : s.main = .ingest seq step)
    (o : Outcome) : s.step backend (.main o) = s.ingest backend seq step o := by
  simp only [Sys.step, Sys.dead, Sys.stepMain, hm, Bool.false_eq_true, if_false]

theorem Sys.step_ingestEvents {es : MemoryStore α} (hm : s.main = .ingest seq .ingestEvents)
    (hes : s.eventStore.ingestEvents (backend seq) = .ok es) :
    s.step backend (.main .ok) =
      some { s with eventStore := es, main := .ingest seq .ingestTransactions } := by
  rw [Sys.step_main_of_ingest backend hm]
  simp only [Sys.ingest, hes]

theorem Sys.step_ingestTransactions {ts : TransactionStore α}
    (hm : s.main = .ingest seq .ingestTransactions)
    (hts : s.transactionStore.ingestTransactions (backend seq) = .ok ts) :
    s.step backend (.main .ok) = some { s with transactionStore := ts, main := .ingest seq .commit } := by
  rw [Sys.step_main_of_ingest backend hm]
  simp only [Sys.ingest, hts]

theorem Sys.step_commit (hm : s.main = .ingest seq .commit) :
    s.step backend (.main .ok) =
      some { s with db := s.db.commit seq, main := .ingest (seq + 1) .getLedger } := by
  rw [Sys.step_main_of_ingest backend hm]
  rfl

/-- The six calls of `ingest` before `IngestEvents` change nothing but the place. -/
theorem Sys.steps_to_ingestEvents (hm : s.main = .ingest seq .getLedger) :
    s.steps backend (List.replicate 6 (.main .ok)) =
      some { s with main := .ingest seq .ingestEvents } := by
  obtain ⟨db, e, t, main, fills, r, c⟩ := s
  subst hm
  rfl

/-- `ingest(seq)` without a failure: both stores append the ledger and the DB commits it. -/
theorem Sys.steps_ingest {es : MemoryStore α} {ts : TransactionStore α}
    (hm : s.main = .ingest seq .getLedger)
    (hes : s.eventStore.ingestEvents (backend seq) = .ok es)
    (hts : s.transactionStore.ingestTransactions (backend seq) = .ok ts) :
    s.steps backend (List.replicate 9 (.main .ok)) =
      some { s with db := s.db.commit seq, eventStore := es, transactionStore := ts,
                    main := .ingest (seq + 1) .getLedger } := by
  rw [show List.replicate 9 (Action.main .ok) =
      List.replicate 6 (.main .ok) ++ [.main .ok, .main .ok, .main .ok] from rfl,
    Sys.steps_append, Sys.steps_to_ingestEvents backend hm, Option.some_bind,
    Sys.steps_cons_of_step backend _ (Sys.step_ingestEvents backend
      (s := { s with main := .ingest seq .ingestEvents }) rfl hes),
    Sys.steps_cons_of_step backend _ (Sys.step_ingestTransactions backend
      (s := { s with eventStore := es, main := .ingest seq .ingestTransactions }) rfl hts),
    Sys.steps_cons_of_step backend _ (Sys.step_commit backend
      (s := { s with eventStore := es, transactionStore := ts, main := .ingest seq .commit }) rfl)]
  rfl

/-- The start of `run` on a DB at `L`: `GetLatestLedgerSequence`, `PrepareRange(L + 1)` and the
    receive of the `nil` it put on `checkPointFillErr`. -/
theorem Sys.steps_start {L : UInt32} (hm : s.main = .getLatestLedgerSequence)
    (hL : s.db.getLatestLedgerSequence = some L) :
    s.steps backend (List.replicate 3 (.main .ok)) =
      some { s with main := .ingest (L + 1) .getLedger } := by
  have h₁ : s.step backend (.main .ok) = some { s with main := .prepareRange (L + 1) none } := by
    simp only [Sys.step, Sys.dead, Sys.stepMain, Sys.maybeFillEntriesFromCheckpoint, hm, hL,
      Bool.false_eq_true, if_false]
  rw [List.replicate_succ, Sys.steps_cons_of_step backend _ h₁]
  rfl

/-! ## Ledger after ledger -/

/-- `L, L + 1, …`: the `k` ledgers from `L` on, in `uint32`. -/
def ledgersFrom (L : UInt32) : Nat → List UInt32
  | 0 => []
  | k + 1 => L :: ledgersFrom (L + 1) k

/-- A store whose newest ledger is `seq - 1`, or that is empty, appends ledger `seq`. -/
theorem MemoryStore.ingestEvents_ok_of_follows {m : MemoryStore α} {meta : LedgerCloseMeta α}
    {events : List (Event α)} (hread : readEvents meta = .ok events)
    (h : newestLedger m.eventsByLedger = none ∨
      newestLedger m.eventsByLedger = some (meta.ledgerSequence - 1)) :
    ∃ m', m.ingestEvents meta = .ok m' := by
  obtain ⟨w', hw'⟩ := append_ok_of_follows m.eventsByLedger
    { ledgerSeq := meta.ledgerSequence, ledgerCloseTimestamp := toInt64 meta.closeTime,
      bucketContent := events } (follows_of_newestLedger h)
  simp [MemoryStore.ingestEvents, hread, bind, Except.bind, Except.mapError, hw', pure,
    Except.pure]

/-- After a list whose last ledger is `L`, the last of the `k` ledgers from `L + 1` is `L + k`. -/
theorem getLast?_append_ledgersFrom (k : Nat) :
    ∀ {l : List UInt32} {L : UInt32}, l.getLast? = some L →
      (l ++ ledgersFrom (L + 1) k).getLast? = some (L + UInt32.ofNat k) := by
  induction k with
  | zero => intro l L h; simpa [ledgersFrom] using h
  | succ k ih =>
    intro l L _
    have h := ih (l := l ++ [L + 1]) (List.getLast?_concat l)
    rw [UInt32.ofNat_succ, add_comm (UInt32.ofNat k), ← add_assoc]
    simpa [ledgersFrom] using h

section Stream

variable (hbackend : ∀ n, (backend n).ledgerSequence = n)
  (hread : ∀ n, ∃ events, readEvents (backend n) = .ok events)
include hbackend hread

/-- From `ingest(seq)` with both stores empty or at `seq - 1`, `9 k` calls without a failure
    commit the `k` ledgers from `seq` on and leave the loop at `seq + k`, with both stores empty
    or at `seq + k - 1`. -/
theorem Sys.steps_stream (k : Nat) : ∀ (s : Sys α) (seq : UInt32),
    s.main = .ingest seq .getLedger →
    (newestLedger s.eventStore.eventsByLedger = none ∨
      newestLedger s.eventStore.eventsByLedger = some (seq - 1)) →
    (newestLedger s.transactionStore.transactionsByLedger = none ∨
      newestLedger s.transactionStore.transactionsByLedger = some (seq - 1)) →
    ∃ s', s.steps backend (List.replicate (9 * k) (.main .ok)) = some s' ∧
      s'.db.commits = s.db.commits ++ ledgersFrom seq k ∧
      s'.main = .ingest (seq + UInt32.ofNat k) .getLedger ∧
      (newestLedger s'.eventStore.eventsByLedger = none ∨
        newestLedger s'.eventStore.eventsByLedger = some (seq + UInt32.ofNat k - 1)) ∧
      (newestLedger s'.transactionStore.transactionsByLedger = none ∨
        newestLedger s'.transactionStore.transactionsByLedger = some (seq + UInt32.ofNat k - 1)) := by
  induction k with
  | zero =>
    intro s seq hm he ht
    have h0 : seq + UInt32.ofNat 0 = seq := add_zero seq
    refine ⟨s, rfl, by simp [ledgersFrom], ?_, ?_, ?_⟩ <;> rwa [h0]
  | succ k ih =>
    intro s seq hm he ht
    obtain ⟨events, hev⟩ := hread seq
    obtain ⟨reader, hr⟩ := readEvents_reader hev
    obtain ⟨es, hes⟩ := MemoryStore.ingestEvents_ok_of_follows hev (by rwa [hbackend])
    obtain ⟨ts, hts⟩ := TransactionStore.ingestTransactions_ok_of_follows hr (by rwa [hbackend])
    have hseq : seq + 1 - 1 = seq := add_sub_cancel_right seq 1
    obtain ⟨s', hs', hcommits, hmain, he', ht'⟩ :=
      ih { s with db := s.db.commit seq, eventStore := es, transactionStore := ts,
                  main := .ingest (seq + 1) .getLedger } (seq + 1) rfl
        (.inr (by rw [hseq, (MemoryStore.ingestEvents_ok hes).1, hbackend]))
        (.inr (by rw [hseq, TransactionStore.ingestTransactions_ok hts, hbackend]))
    have hk : seq + 1 + UInt32.ofNat k = seq + UInt32.ofNat (k + 1) := by
      rw [UInt32.ofNat_succ, add_assoc, add_comm 1]
    refine ⟨s', ?_, ?_, hk ▸ hmain, hk ▸ he', hk ▸ ht'⟩
    · rw [show 9 * (k + 1) = 9 + 9 * k by omega, List.replicate_add, Sys.steps_append,
        Sys.steps_ingest backend hm hes hts, Option.some_bind, hs']
    · rw [hcommits]
      simp [ledgersFrom]

/-- `Sys.steps_stream` from a DB whose newest ledger is `L`: both stores end empty or at the DB's
    newest ledger. -/
theorem Sys.steps_stream_of_latest {L : UInt32} (hm : s.main = .ingest (L + 1) .getLedger)
    (hL : s.db.getLatestLedgerSequence = some L)
    (he : newestLedger s.eventStore.eventsByLedger = none ∨
      newestLedger s.eventStore.eventsByLedger = some L)
    (ht : newestLedger s.transactionStore.transactionsByLedger = none ∨
      newestLedger s.transactionStore.transactionsByLedger = some L) (k : Nat) :
    ∃ s', s.steps backend (List.replicate (9 * k) (.main .ok)) = some s' ∧
      s'.db.commits = s.db.commits ++ ledgersFrom (L + 1) k ∧
      s'.main = .ingest (L + 1 + UInt32.ofNat k) .getLedger ∧
      (newestLedger s'.eventStore.eventsByLedger = none ∨
        newestLedger s'.eventStore.eventsByLedger = s'.db.getLatestLedgerSequence) ∧
      (newestLedger s'.transactionStore.transactionsByLedger = none ∨
        newestLedger s'.transactionStore.transactionsByLedger = s'.db.getLatestLedgerSequence) := by
  have hL1 : L + 1 - 1 = L := add_sub_cancel_right L 1
  obtain ⟨s', hs', hcommits, hmain, he', ht'⟩ :=
    Sys.steps_stream backend hbackend hread k s (L + 1) hm (by rwa [hL1]) (by rwa [hL1])
  have hlatest : s'.db.getLatestLedgerSequence = some (L + 1 + UInt32.ofNat k - 1) := by
    rw [Db.getLatestLedgerSequence, hcommits, add_right_comm, add_sub_cancel_right]
    exact getLast?_append_ledgersFrom k hL
  exact ⟨s', hs', hcommits, hmain, hlatest ▸ he', hlatest ▸ ht'⟩

end Stream

/-- A call of `run` on a DB at `L`, with stores that are empty or at `L`, without a failure: after
    `3 + 9 k` calls it has committed `L + 1, …, L + k` and is about to fetch the next ledger, and
    both stores are empty or at the DB's newest ledger. -/
theorem Sys.steps_run (hbackend : ∀ n, (backend n).ledgerSequence = n)
    (hread : ∀ n, ∃ events, readEvents (backend n) = .ok events) {L : UInt32}
    (hm : s.main = .getLatestLedgerSequence) (hL : s.db.getLatestLedgerSequence = some L)
    (he : newestLedger s.eventStore.eventsByLedger = none ∨
      newestLedger s.eventStore.eventsByLedger = some L)
    (ht : newestLedger s.transactionStore.transactionsByLedger = none ∨
      newestLedger s.transactionStore.transactionsByLedger = some L) (k : Nat) :
    ∃ s', s.steps backend (List.replicate (3 + 9 * k) (.main .ok)) = some s' ∧
      s'.db.commits = s.db.commits ++ ledgersFrom (L + 1) k ∧
      s'.main = .ingest (L + 1 + UInt32.ofNat k) .getLedger ∧
      (newestLedger s'.eventStore.eventsByLedger = none ∨
        newestLedger s'.eventStore.eventsByLedger = s'.db.getLatestLedgerSequence) ∧
      (newestLedger s'.transactionStore.transactionsByLedger = none ∨
        newestLedger s'.transactionStore.transactionsByLedger = s'.db.getLatestLedgerSequence) := by
  obtain ⟨s', hs', h⟩ := Sys.steps_stream_of_latest backend hbackend hread
    (s := { s with main := .ingest (L + 1) .getLedger }) rfl hL he ht k
  refine ⟨s', ?_, h⟩
  rw [List.replicate_add, Sys.steps_append, Sys.steps_start backend hm hL, Option.some_bind, hs']

/-- Started on a DB whose newest ledger is `L`, with stores that are empty or at `L`, on a backend
    whose ledgers are readable and carry their own sequence, the service without a failure
    commits `L + 1, L + 2, …`: after `3 + 9 k` calls it has committed `k` more ledgers, is about to
    fetch the next one, and both stores are empty or at the DB's newest ledger. -/
theorem start_streams (hbackend : ∀ n, (backend n).ledgerSequence = n)
    (hread : ∀ n, ∃ events, readEvents (backend n) = .ok events) {db : Db}
    {eventStore : MemoryStore α} {transactionStore : TransactionStore α} {L : UInt32}
    (hL : db.getLatestLedgerSequence = some L)
    (he : newestLedger eventStore.eventsByLedger = none ∨
      newestLedger eventStore.eventsByLedger = some L)
    (ht : newestLedger transactionStore.transactionsByLedger = none ∨
      newestLedger transactionStore.transactionsByLedger = some L) (k : Nat) :
    ∃ s, (Sys.start db eventStore transactionStore).steps backend
        (List.replicate (3 + 9 * k) (.main .ok)) = some s ∧
      s.db.commits = db.commits ++ ledgersFrom (L + 1) k ∧
      s.main = .ingest (L + 1 + UInt32.ofNat k) .getLedger ∧
      (newestLedger s.eventStore.eventsByLedger = none ∨
        newestLedger s.eventStore.eventsByLedger = s.db.getLatestLedgerSequence) ∧
      (newestLedger s.transactionStore.transactionsByLedger = none ∨
        newestLedger s.transactionStore.transactionsByLedger = s.db.getLatestLedgerSequence) :=
  Sys.steps_run backend (s := Sys.start db eventStore transactionStore) hbackend hread rfl hL he
    ht k

theorem start_streams_dbAt4 :
    (∀ n, (emptyLedgers n).ledgerSequence = n) ∧
      (∀ n, ∃ events, readEvents (emptyLedgers n) = .ok events) ∧
      (⟨[4]⟩ : Db).getLatestLedgerSequence = some 4 ∧
      newestLedger (emptyWindow : LedgerBucketWindow (List (Event Unit))) = none ∧
      newestLedger (emptyWindow : LedgerBucketWindow (List (LedgerTransaction Unit))) = none ∧
      ∃ s, dbAt4Start.steps emptyLedgers (List.replicate (3 + 9 * 2) (.main .ok)) = some s ∧
        s.db.commits = [4] ++ ledgersFrom (4 + 1) 2 ∧
        s.main = .ingest (4 + 1 + UInt32.ofNat 2) .getLedger ∧
        (newestLedger s.eventStore.eventsByLedger = none ∨
          newestLedger s.eventStore.eventsByLedger = s.db.getLatestLedgerSequence) ∧
        (newestLedger s.transactionStore.transactionsByLedger = none ∨
          newestLedger s.transactionStore.transactionsByLedger = s.db.getLatestLedgerSequence) :=
  ⟨fun _ => rfl, fun _ => ⟨_, rfl⟩, rfl, rfl, rfl,
    start_streams emptyLedgers (fun _ => rfl) (fun _ => ⟨_, rfl⟩)
      (rfl : (⟨[4]⟩ : Db).getLatestLedgerSequence = some 4) (.inl (by rfl)) (.inl (by rfl)) 2⟩

/-! ## After a failure

In the runs of `reachable_stores_agree`, however the run before it ended, a failed `run` with a
retry left leaves both stores empty or at the DB's newest ledger, so the next call of `run` that
does not fail goes on from the ledger after it: no ledger is committed twice and none is
skipped. -/

/-- From every reachable state where `run` has just failed, the context is not cancelled, a retry
    is left and the DB holds ledger `L`: `RetryNotify` waits and calls `run` again, which without
    a failure commits `L + 1, …, L + k` in `5 + 9 k` calls, with both stores empty or at the DB's
    newest ledger. -/
theorem reachable_failure_resumes (hbackend : ∀ n, (backend n).ledgerSequence = n)
    (hread : ∀ n, ∃ events, readEvents (backend n) = .ok events) {db : Db}
    {eventStore : MemoryStore α} {transactionStore : TransactionStore α}
    (hdb : db.commits.Chain' fun a b => b = a + 1)
    (he : newestLedger eventStore.eventsByLedger = none ∨
      newestLedger eventStore.eventsByLedger = db.getLatestLedgerSequence)
    (ht : newestLedger transactionStore.transactionsByLedger = none ∨
      newestLedger transactionStore.transactionsByLedger = db.getLatestLedgerSequence)
    (h : Reachable backend (fun s a => JoinsFill s a ∧ NoFailureAfterIngestEvents s a)
      (Sys.start db eventStore transactionStore) s)
    (hm : s.main = .nextBackOff) (hc : s.cancelled = false) (hr : s.retries < 5) {L : UInt32}
    (hL : s.db.getLatestLedgerSequence = some L) (k : Nat) :
    ∃ s', s.steps backend (List.replicate (5 + 9 * k) (.main .ok)) = some s' ∧
      s'.db.commits = s.db.commits ++ ledgersFrom (L + 1) k ∧
      s'.main = .ingest (L + 1 + UInt32.ofNat k) .getLedger ∧
      (newestLedger s'.eventStore.eventsByLedger = none ∨
        newestLedger s'.eventStore.eventsByLedger = s'.db.getLatestLedgerSequence) ∧
      (newestLedger s'.transactionStore.transactionsByLedger = none ∨
        newestLedger s'.transactionStore.transactionsByLedger = s'.db.getLatestLedgerSequence) := by
  have hinv : StoreInv backend s := Reachable.induction backend (StoreInv backend)
    (StoreInv.start hdb he ht) (fun _ _ _ hinv ha hs => hinv.step hbackend ha hs) h
  have hevents := hinv.events
  have htransactions := hinv.transactions
  rw [hm, hL] at hevents htransactions
  let retried : Sys α := { s with main := .getLatestLedgerSequence, retries := s.retries + 1 }
  have hretry : s.steps backend (List.replicate 2 (.main .ok)) = some retried := by
    show s.steps backend [.main .ok, .main .ok] = _
    simp only [Sys.steps, Sys.step, Sys.dead, Sys.stepMain, Sys.retryNotify, hm, hc, hr,
      Bool.false_eq_true, if_false, if_true, Option.some_bind, retried]
  obtain ⟨s', hs', hcommits, hmain, he', ht'⟩ :=
    Sys.steps_run backend (s := retried) hbackend hread rfl hL hevents htransactions k
  refine ⟨s', ?_, hcommits, hmain, he', ht'⟩
  rw [show 5 + 9 * k = 2 + (3 + 9 * k) by omega, List.replicate_add, Sys.steps_append, hretry,
    Option.some_bind, hs']

theorem reachable_failure_resumes_dbAt4 :
    (∀ n, (emptyLedgers n).ledgerSequence = n) ∧
      (∀ n, ∃ events, readEvents (emptyLedgers n) = .ok events) ∧
      ([4] : List UInt32).Chain' (fun a b => b = a + 1) ∧
      newestLedger (emptyWindow : LedgerBucketWindow (List (Event Unit))) = none ∧
      newestLedger (emptyWindow : LedgerBucketWindow (List (LedgerTransaction Unit))) = none ∧
      Reachable emptyLedgers (fun s a => JoinsFill s a ∧ NoFailureAfterIngestEvents s a)
        dbAt4Start dbAt4Start.fail ∧
      dbAt4Start.fail.main = .nextBackOff ∧ dbAt4Start.fail.cancelled = false ∧
      dbAt4Start.fail.retries < 5 ∧ dbAt4Start.fail.db.getLatestLedgerSequence = some 4 ∧
      ∃ s', dbAt4Start.fail.steps emptyLedgers (List.replicate (5 + 9 * 2) (.main .ok)) = some s' ∧
        s'.db.commits = dbAt4Start.fail.db.commits ++ ledgersFrom (4 + 1) 2 ∧
        s'.main = .ingest (4 + 1 + UInt32.ofNat 2) .getLedger ∧
        (newestLedger s'.eventStore.eventsByLedger = none ∨
          newestLedger s'.eventStore.eventsByLedger = s'.db.getLatestLedgerSequence) ∧
        (newestLedger s'.transactionStore.transactionsByLedger = none ∨
          newestLedger s'.transactionStore.transactionsByLedger = s'.db.getLatestLedgerSequence) :=
  have hreach : Reachable emptyLedgers (fun s a => JoinsFill s a ∧ NoFailureAfterIngestEvents s a)
      dbAt4Start dbAt4Start.fail :=
    .step (a := .main .err) .init ⟨(fun _ _ _ h => by cases h), rfl⟩ rfl
  ⟨fun _ => rfl, fun _ => ⟨_, rfl⟩, List.chain'_singleton 4, rfl, rfl, hreach, rfl, rfl,
    by decide, rfl,
    reachable_failure_resumes emptyLedgers (fun _ => rfl) (fun _ => ⟨_, rfl⟩)
      (List.chain'_singleton 4) (.inl (by rfl)) (.inl (by rfl)) hreach rfl rfl (by decide)
      (rfl : dbAt4Start.fail.db.getLatestLedgerSequence = some 4) 2⟩

/-! ## From an empty DB

On an empty DB, `run` asks the archive for its root, starts the fill goroutine on its checkpoint
`c` and calls `PrepareRange(c + 1)`; the receive on `checkPointFillErr` then blocks until the fill
has committed `c` and sent `nil`. The fill's calls and `PrepareRange` touch different parts of the
state, so the two goroutines may interleave in any order: `Sys.bootstrapping` is the state after
the fill's first `j` calls, whatever the goroutine of `NewService` is at, and
`empty_db_bootstraps` runs the six interleavings. -/

/-- Where the fill goroutine is after `j` calls without a failure. -/
def fillPcAfter : Nat → FillPc
  | 0 => .running .newCheckpointChangeReader
  | 1 => .running .newTx
  | 2 => .running .ingestLedgerEntryChanges
  | 3 => .running .closeReader
  | 4 => .running .commit
  | _ => .sent true

/-- The service on an empty DB with the goroutine of `NewService` at `main` and its one fill
    goroutine, on checkpoint `c`, after `j` calls: the DB holds `c` once the fill has committed. -/
def Sys.bootstrapping (s : Sys α) (c : UInt32) (main : MainPc) (j : Nat) : Sys α :=
  { s with main, fills := [⟨c, fillPcAfter j⟩], db := ⟨if j < 5 then [] else [c]⟩ }

section Bootstrap

variable {c : UInt32} {main : MainPc}

/-- One call of the fill goroutine, wherever the goroutine of `NewService` is. -/
theorem Sys.step_fill_bootstrapping (hdead : ∀ j, (s.bootstrapping c main j).dead = false)
    {j : Nat} (hj : j < 5) :
    (s.bootstrapping c main j).step backend (.fill 0 .ok) = some (s.bootstrapping c main (j + 1)) := by
  simp only [Sys.step, hdead, Bool.false_eq_true, if_false]
  rcases j with _ | _ | _ | _ | _ | j <;> first | rfl | omega

theorem Sys.steps_fill_bootstrapping (hdead : ∀ j, (s.bootstrapping c main j).dead = false) :
    ∀ {j n : Nat}, j + n ≤ 5 → (s.bootstrapping c main j).steps backend
      (List.replicate n (.fill 0 .ok)) = some (s.bootstrapping c main (j + n))
  | _, 0, _ => rfl
  | j, n + 1, h => by
    rw [List.replicate_succ, Sys.steps_cons_of_step backend _
      (Sys.step_fill_bootstrapping backend hdead (by omega)), Sys.steps_fill_bootstrapping hdead
      (by omega), Nat.add_right_comm, Nat.add_assoc]

end Bootstrap

/-- Started on an empty DB whose archive's root is at checkpoint `c`, with stores that are empty
    or at `c`, on a backend whose ledgers are readable and carry their own sequence, the service
    without a failure commits `c` from the fill goroutine and then `c + 1, c + 2, …`, however the
    fill's five calls interleave with `PrepareRange`: after `k` ledgers it is about to fetch the
    next one, and both stores are empty or at the DB's newest ledger. -/
theorem empty_db_bootstraps (hbackend : ∀ n, (backend n).ledgerSequence = n)
    (hread : ∀ n, ∃ events, readEvents (backend n) = .ok events) {eventStore : MemoryStore α}
    {transactionStore : TransactionStore α} {c : UInt32}
    (he : newestLedger eventStore.eventsByLedger = none ∨
      newestLedger eventStore.eventsByLedger = some c)
    (ht : newestLedger transactionStore.transactionsByLedger = none ∨
      newestLedger transactionStore.transactionsByLedger = some c) (p : Nat) (hp : p ≤ 5)
    (k : Nat) :
    ∃ s, (Sys.start ⟨[]⟩ eventStore transactionStore).steps backend
        ([.main .ok, .main (.root c)] ++ List.replicate p (.fill 0 .ok) ++
          .main .ok :: List.replicate (5 - p) (.fill 0 .ok) ++
          .main .ok :: List.replicate (9 * k) (.main .ok)) = some s ∧
      s.db.commits = c :: ledgersFrom (c + 1) k ∧
      s.main = .ingest (c + 1 + UInt32.ofNat k) .getLedger ∧
      (newestLedger s.eventStore.eventsByLedger = none ∨
        newestLedger s.eventStore.eventsByLedger = s.db.getLatestLedgerSequence) ∧
      (newestLedger s.transactionStore.transactionsByLedger = none ∨
        newestLedger s.transactionStore.transactionsByLedger = s.db.getLatestLedgerSequence) := by
  let s₀ := Sys.start ⟨[]⟩ eventStore transactionStore
  obtain ⟨s', hs', h⟩ := Sys.steps_stream_of_latest backend hbackend hread
    (s := s₀.bootstrapping c (.ingest (c + 1) .getLedger) 5) rfl rfl he ht k
  refine ⟨s', ?_, h⟩
  have hstart : s₀.steps backend [.main .ok, .main (.root c)] =
      some (s₀.bootstrapping c (.prepareRange (c + 1) (some 0)) 0) := rfl
  have hprepare : (s₀.bootstrapping c (.prepareRange (c + 1) (some 0)) p).step backend (.main .ok) =
      some (s₀.bootstrapping c (.receive (c + 1) (some 0)) p) := rfl
  have hreceive : (s₀.bootstrapping c (.receive (c + 1) (some 0)) 5).step backend (.main .ok) =
      some (s₀.bootstrapping c (.ingest (c + 1) .getLedger) 5) := rfl
  have hprepareAlive : ∀ j, (s₀.bootstrapping c (.prepareRange (c + 1) (some 0)) j).dead = false :=
    fun _ => rfl
  have hreceiveAlive : ∀ j, (s₀.bootstrapping c (.receive (c + 1) (some 0)) j).dead = false :=
    fun _ => rfl
  rw [Sys.steps_append, Sys.steps_append, Sys.steps_append, hstart, Option.some_bind,
    Sys.steps_fill_bootstrapping backend hprepareAlive (by omega), Option.some_bind,
    Nat.zero_add, Sys.steps_cons_of_step backend _ hprepare,
    Sys.steps_fill_bootstrapping backend hreceiveAlive (by omega), Option.some_bind,
    Nat.add_sub_cancel' hp, Sys.steps_cons_of_step backend _ hreceive, hs']

theorem empty_db_bootstraps_at63 :
    (∀ n, (emptyLedgers n).ledgerSequence = n) ∧
      (∀ n, ∃ events, readEvents (emptyLedgers n) = .ok events) ∧
      newestLedger (emptyWindow : LedgerBucketWindow (List (Event Unit))) = none ∧
      newestLedger (emptyWindow : LedgerBucketWindow (List (LedgerTransaction Unit))) = none ∧
      2 ≤ 5 ∧
      ∃ s, emptyDbStart.steps emptyLedgers
          ([.main .ok, .main (.root 63)] ++ List.replicate 2 (.fill 0 .ok) ++
            .main .ok :: List.replicate (5 - 2) (.fill 0 .ok) ++
            .main .ok :: List.replicate (9 * 1) (.main .ok)) = some s ∧
        s.db.commits = 63 :: ledgersFrom (63 + 1) 1 ∧
        s.main = .ingest (63 + 1 + UInt32.ofNat 1) .getLedger ∧
        (newestLedger s.eventStore.eventsByLedger = none ∨
          newestLedger s.eventStore.eventsByLedger = s.db.getLatestLedgerSequence) ∧
        (newestLedger s.transactionStore.transactionsByLedger = none ∨
          newestLedger s.transactionStore.transactionsByLedger = s.db.getLatestLedgerSequence) :=
  ⟨fun _ => rfl, fun _ => ⟨_, rfl⟩, rfl, rfl, by decide,
    empty_db_bootstraps emptyLedgers (fun _ => rfl) (fun _ => ⟨_, rfl⟩) (.inl (by rfl))
      (.inl (by rfl)) 2 (by decide) 1⟩

end SorobanRpc.Ingest
