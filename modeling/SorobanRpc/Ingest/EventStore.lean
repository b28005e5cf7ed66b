import SorobanRpc.Ingest.Invariants
import SorobanRpc.Events.Retention

set_option autoImplicit false

/-! # The service's event store

Only `IngestEvents` writes the event store: every other call of the service leaves it as it was
(`Sys.eventStore_step`). So in every state reached, whatever the environment did, the event store
is what a run of `IngestEvents` over ledgers of the backend made of the one the service started
with (`Reachable.eventStore_ingestAll`), and the results about such runs carry over: the store
keeps the last `retentionWindow` buckets, each with the events `readEvents` read
(`reachable_eventStore_keepLast`), and every bucket stays sorted by position, which is what
`Scan` relies on to visit the events in cursor order (`reachable_eventStore_ascending`).

In the runs where the stores agree with the DB, the ledgers of that run are pinned down: they are
the ones the stream committed, each once and in order, and the ledger `ingest` is in the middle of
(`reachable_eventStore_ingestedOnce`). -/

namespace SorobanRpc.Ingest

open Events LedgerBucketWindow

variable {α : Type} (backend : UInt32 → LedgerCloseMeta α)

/-- A step leaves the event store as it was, or is an `IngestEvents` on a ledger of the backend
    that succeeded. -/
theorem Sys.eventStore_step {s s' : Sys α} {a : Action} (h : s.step backend a = some s') :
    s'.eventStore = s.eventStore ∨
      ∃ seq, s.eventStore.ingestEvents (backend seq) = .ok s'.eventStore := by
  rcases Sys.step_cases h with ⟨o, -, -, hm | hm | hm | hm⟩ | ⟨o, seq, step, -, -, hi⟩ |
    ⟨i, o, -, hf⟩ | ⟨-, rfl⟩
  · exact .inl (Sys.maybeFillEntriesFromCheckpoint_quiet hm).eventStore
  · exact .inl (Sys.run_quiet hm).eventStore
  · exact .inl (Sys.retryNotify_quiet hm).eventStore
  · exact .inl (Sys.fatalUnlessCanceled_quiet hm).eventStore
  · rcases Sys.ingest_cases hi with ⟨-, rfl⟩ | ⟨rfl, -⟩ | ⟨msg, rfl, -⟩ | ⟨es, -, hes, rfl⟩ |
      ⟨ts, -, -, rfl⟩ | ⟨-, rfl | rfl⟩
    all_goals first | exact .inl rfl | exact .inr ⟨seq, hes⟩
  · obtain ⟨c, step, -, ⟨pc, -, rfl⟩ | ⟨-, ok, rfl⟩⟩ := Sys.fillEntriesFromCheckpoint_cases hf <;>
      exact .inl rfl
  · exact .inl rfl

/-- The run: the event store of a state reached is a run of `IngestEvents` over ledgers of the
    backend from the one the service started with. -/
theorem Reachable.eventStore_ingestAll {allowed : Sys α → Action → Prop} {s₀ s : Sys α}
    (h : Reachable backend allowed s₀ s) :
    ∃ seqs : List UInt32, s₀.eventStore.ingestAll (seqs.map backend) = .ok s.eventStore := by
  refine Reachable.induction backend
    (fun s => ∃ seqs : List UInt32, s₀.eventStore.ingestAll (seqs.map backend) = .ok s.eventStore)
    ⟨[], rfl⟩ (fun s a s' ⟨seqs, hrun⟩ _ hs => ?_) h
  rcases Sys.eventStore_step backend hs with he | ⟨seq, hes⟩
  · exact ⟨seqs, he ▸ hrun⟩
  · exact ⟨seqs ++ [seq], by rw [List.map_append]; exact MemoryStore.ingestAll_concat hrun hes⟩

/-- In every state reached, the event store holds the last `retentionWindow` of the buckets it
    started with followed by the buckets of ledgers of the backend, each with the events
    `readEvents` read. -/
theorem reachable_eventStore_keepLast {allowed : Sys α → Action → Prop} {s₀ s : Sys α}
    (h : Reachable backend allowed s₀ s) :
    ∃ (seqs : List UInt32) (buckets : List (LedgerBucket (List (Event α)))),
      bucketsOf (seqs.map backend) = .ok buckets ∧
      s.eventStore.eventsByLedger.retentionWindow = s₀.eventStore.eventsByLedger.retentionWindow ∧
      s.eventStore.eventsByLedger.toList = keepLast
        s₀.eventStore.eventsByLedger.retentionWindow.toNat
        (s₀.eventStore.eventsByLedger.toList ++ buckets) := by
  obtain ⟨seqs, hrun⟩ := h.eventStore_ingestAll
  obtain ⟨buckets, hbs, hret, hlist⟩ := ingestAll_toList hrun
  exact ⟨seqs, buckets, hbs, hret, hlist⟩

theorem reachable_eventStore_keepLast_bootstrap :
    ∃ s, eventDbStart.steps eventLedgers bootstrapRun = some s ∧
      (s.eventStore.eventsByLedger.toList.map fun b => (b.ledgerSeq, b.bucketContent.map (·.contents)))
        = [(64, [64, 65, 66]), (65, [65, 66, 67])] ∧
      Reachable eventLedgers (fun _ _ => True) eventDbStart s ∧
      ∃ (seqs : List UInt32) (buckets : List (LedgerBucket (List (Event Nat)))),
        bucketsOf (seqs.map eventLedgers) = .ok buckets ∧
        s.eventStore.eventsByLedger.retentionWindow =
          eventDbStart.eventStore.eventsByLedger.retentionWindow ∧
        s.eventStore.eventsByLedger.toList = keepLast
          eventDbStart.eventStore.eventsByLedger.retentionWindow.toNat
          (eventDbStart.eventStore.eventsByLedger.toList ++ buckets) := by
  refine ⟨_, rfl, rfl, ?h, reachable_eventStore_keepLast eventLedgers ?h⟩
  exact reachable_bootstrapRun trivial (fun _ _ _ => trivial) rfl

/-- In every state reached, every bucket of the event store is sorted by position, so `Scan`
    visits its events in cursor order: the backend's ledgers carry their transactions in strictly
    increasing index, and the store the service started with was sorted. -/
theorem reachable_eventStore_ascending
    (hindex : ∀ seq txReader, (backend seq).transactionReader = .ok txReader →
      txReader.transactions.Chain' fun t t' => t.index < t'.index)
    {allowed : Sys α → Action → Prop} {s₀ s : Sys α}
    (h₀ : ∀ b ∈ s₀.eventStore.eventsByLedger.toList, Ascending b.bucketContent)
    (h : Reachable backend allowed s₀ s) :
    ∀ b ∈ s.eventStore.eventsByLedger.toList, Ascending b.bucketContent := by
  obtain ⟨seqs, hrun⟩ := h.eventStore_ingestAll
  refine ingestAll_ascending h₀ (fun _ hmem => ?_) hrun
  obtain ⟨seq, -, rfl⟩ := List.mem_map.1 hmem
  exact hindex seq

/-- `eventLedgers` carry one transaction each, so trivially in increasing index. -/
theorem eventLedgers_ordered (seq : UInt32) (txReader : LedgerTransactionReader Nat)
    (h : (eventLedgers seq).transactionReader = .ok txReader) :
    txReader.transactions.Chain' fun t t' => t.index < t'.index := by
  cases h
  exact List.chain'_singleton _

theorem reachable_eventStore_ascending_bootstrap :
    (∀ seq txReader, (eventLedgers seq).transactionReader = .ok txReader →
      txReader.transactions.Chain' fun t t' => t.index < t'.index) ∧
    (∀ b ∈ eventDbStart.eventStore.eventsByLedger.toList, Ascending b.bucketContent) ∧
    ∃ s, eventDbStart.steps eventLedgers bootstrapRun = some s ∧
      (s.eventStore.eventsByLedger.toList.map fun b => b.bucketContent.map (·.contents))
        = [[64, 65, 66], [65, 66, 67]] ∧
      Reachable eventLedgers (fun _ _ => True) eventDbStart s ∧
      ∀ b ∈ s.eventStore.eventsByLedger.toList, Ascending b.bucketContent := by
  refine ⟨eventLedgers_ordered, ?h₀, _, rfl, rfl, ?h,
    reachable_eventStore_ascending eventLedgers eventLedgers_ordered ?h₀ ?h⟩
  case h₀ => exact nofun
  exact reachable_bootstrapRun trivial (fun _ _ _ => trivial) rfl

/-! ## Exactly once

In the runs of `reachable_stores_agree` (fills joined, no failure in `ingest` after
`IngestEvents`), the event store is not just some run of `IngestEvents`: it is the run over exactly
the ledgers the stream has committed since the start, each once and in order, followed by the
ledger `ingest` is in the middle of. The DB's only other new commit is the checkpoint of one fill,
on a DB that started empty. -/

/-- The DB's commits since `s₀` are at most one checkpoint, on a DB that started empty, followed by
    the ledgers `seqs` the stream committed; the event store is `s₀`'s after `IngestEvents` of
    `seqs` and of the ledger `ingest` has added beyond the DB. -/
def IngestedOnce (s₀ s : Sys α) : Prop :=
  ∃ fill seqs : List UInt32, (fill = [] ∨ s₀.db.commits = [] ∧ fill.length = 1) ∧
    s.db.commits = s₀.db.commits ++ fill ++ seqs ∧
    s₀.eventStore.ingestAll ((seqs ++ s.main.eventsAhead.toList).map backend) = .ok s.eventStore

section Once

variable {backend} {s₀ s s' : Sys α}

/-- A step that keeps the DB, the event store and the ledger ahead of the DB keeps the history. -/
theorem IngestedOnce.of_eq (h : IngestedOnce backend s₀ s) (hdb : s'.db = s.db)
    (he : s'.eventStore = s.eventStore) (hm : s'.main.eventsAhead = s.main.eventsAhead) :
    IngestedOnce backend s₀ s' := by
  rw [IngestedOnce, hdb, he, hm]
  exact h

/-- A call of `run` outside `ingest` keeps the history. -/
theorem IngestedOnce.of_quiet (h : IngestedOnce backend s₀ s) (hq : s.Quiet s')
    (hm : ∀ seq step, s.main ≠ .ingest seq step) : IngestedOnce backend s₀ s' :=
  h.of_eq hq.db hq.eventStore (hq.eventsAhead.trans (MainPc.eventsAhead_of_not_ingest hm).symm)

/-- A call of `ingest` appends to the history exactly what it adds to the DB or the event store. -/
theorem IngestedOnce.ingest (hbackend : ∀ n, (backend n).ledgerSequence = n)
    (hinv : StoreInv backend s) (hinv' : StoreInv backend s') {seq : UInt32} {step : IngestStep}
    {o : Outcome} (hm : s.main = .ingest seq step) (ha : NoFailureAfterIngestEvents s (.main o))
    (hi : s.ingest backend seq step o = some s') (h : IngestedOnce backend s₀ s) :
    IngestedOnce backend s₀ s' := by
  rcases Sys.ingest_cases hi with ⟨hb, rfl⟩ | ⟨rfl, hfail⟩ | ⟨msg, rfl, -⟩ |
    ⟨es, rfl, hes, rfl⟩ | ⟨ts, rfl, -, rfl⟩ | ⟨rfl, rfl | rfl⟩
  · -- a call before `IngestEvents`
    obtain ⟨h1, h2, -⟩ := IngestStep.eventsAhead_of_beforeEvents hb seq
    exact h.of_eq rfl rfl (by rw [hm, h1]; exact h2)
  · -- a failure before `IngestEvents` has returned: `run` returns
    have hahead : s.main.eventsAhead = none := by
      rcases hfail with rfl | ⟨e, rfl, -⟩ | ⟨e, rfl, herr⟩
      · exact ha
      · rw [hm]; rfl
      · obtain ⟨ts, hts⟩ := hinv.ingestTransactions_ok hbackend hm
        rw [hts] at herr
        cases herr
    exact h.of_eq rfl rfl hahead.symm
  · exact absurd rfl (hinv'.alive msg)
  · -- `IngestEvents` adds the ledger ahead of the DB
    obtain ⟨fill, seqs, hfill, hcommits, hrun⟩ := h
    rw [hm] at hrun
    refine ⟨fill, seqs, hfill, hcommits, ?_⟩
    simp only [MainPc.eventsAhead, Option.toList_none, List.append_nil] at hrun
    show s₀.eventStore.ingestAll ((seqs ++ [seq]).map backend) = .ok es
    rw [List.map_append]
    exact MemoryStore.ingestAll_concat hrun hes
  · exact h.of_eq rfl rfl (by rw [hm]; rfl)
  all_goals
    -- `Commit` commits the ledger ahead of the DB
    obtain ⟨fill, seqs, hfill, hcommits, hrun⟩ := h
    rw [hm] at hrun
    refine ⟨fill, seqs ++ [seq], hfill, ?_, ?_⟩
    · rw [Db.commits_commit, hcommits, List.append_assoc]
    · simpa only [MainPc.eventsAhead, Option.toList_none, Option.toList_some, List.append_nil]
        using hrun

/-- The commit of a fill is the DB's first: the fill runs while the DB is empty. -/
theorem IngestedOnce.fillEntriesFromCheckpoint (hinv : StoreInv backend s) {i : Nat} {o : Outcome}
    (hf : s.fillEntriesFromCheckpoint i o = some s') (h : IngestedOnce backend s₀ s) :
    IngestedOnce backend s₀ s' := by
  obtain ⟨c, step, hfi, ⟨pc, -, rfl⟩ | ⟨-, ok, rfl⟩⟩ := Sys.fillEntriesFromCheckpoint_cases hf
  · exact h.of_eq rfl rfl rfl
  · obtain ⟨hw, hempty⟩ := hinv.fillInv.running i _ hfi rfl
    obtain ⟨fill, seqs, -, hcommits, hrun⟩ := h
    rw [hempty, eq_comm, List.append_eq_nil, List.append_eq_nil] at hcommits
    obtain ⟨⟨h₀, rfl⟩, rfl⟩ := hcommits
    refine ⟨[c], [], .inr ⟨h₀, rfl⟩, ?_, hrun⟩
    rw [Db.commits_commit, hempty, h₀]
    rfl

/-- Every step that the two restrictions admit keeps the history. -/
theorem IngestedOnce.step (hbackend : ∀ n, (backend n).ledgerSequence = n)
    (hinv : StoreInv backend s) {a : Action}
    (ha : JoinsFill s a ∧ NoFailureAfterIngestEvents s a) (hs : s.step backend a = some s')
    (h : IngestedOnce backend s₀ s) : IngestedOnce backend s₀ s' := by
  have hinv' := hinv.step hbackend ha hs
  rcases Sys.step_cases hs with ⟨o, rfl, hm, hq | hq | hq | hq⟩ | ⟨o, seq, step, rfl, hm, hi⟩ |
    ⟨i, o, rfl, hf⟩ | ⟨rfl, rfl⟩
  · exact h.of_quiet (Sys.maybeFillEntriesFromCheckpoint_quiet hq) hm
  · exact h.of_quiet (Sys.run_quiet hq) hm
  · exact h.of_quiet (Sys.retryNotify_quiet hq) hm
  · exact h.of_quiet (Sys.fatalUnlessCanceled_quiet hq) hm
  · exact h.ingest hbackend hinv hinv' hm ha.2 hi
  · exact h.fillEntriesFromCheckpoint hinv hf
  · exact h.of_eq rfl rfl rfl

end Once

/-- In runs that join their fills and have no failure after `IngestEvents`, on a backend that
    serves each ledger under its own sequence, from a DB with contiguous commits and stores that
    hold nothing beyond it, every ledger the stream commits is added to the event store exactly
    once, in order, and nothing else is: in every state reached, the DB's new commits are at most
    one checkpoint (on a DB that started empty) followed by ledgers `seqs`, and the event store is
    the one the service started with after `IngestEvents` of `seqs` and of the ledger `ingest` is
    in the middle of. -/
theorem reachable_eventStore_ingestedOnce (hbackend : ∀ n, (backend n).ledgerSequence = n)
    {db : Db} {eventStore : MemoryStore α} {transactionStore : TransactionStore α}
    (hdb : db.commits.Chain' fun a b => b = a + 1)
    (he : newestLedger eventStore.eventsByLedger = none ∨
      newestLedger eventStore.eventsByLedger = db.getLatestLedgerSequence)
    (ht : newestLedger transactionStore.transactionsByLedger = none ∨
      newestLedger transactionStore.transactionsByLedger = db.getLatestLedgerSequence)
    {s : Sys α}
    (h : Reachable backend (fun s a => JoinsFill s a ∧ NoFailureAfterIngestEvents s a)
      (Sys.start db eventStore transactionStore) s) :
    ∃ fill seqs : List UInt32, (fill = [] ∨ db.commits = [] ∧ fill.length = 1) ∧
      s.db.commits = db.commits ++ fill ++ seqs ∧
      eventStore.ingestAll ((seqs ++ s.main.eventsAhead.toList).map backend) = .ok s.eventStore :=
  (Reachable.induction backend
    (fun s => StoreInv backend s ∧ IngestedOnce backend (Sys.start db eventStore transactionStore) s)
    ⟨StoreInv.start hdb he ht, [], [], .inl rfl, by simp [Sys.start], rfl⟩
    (fun _ _ _ hinv ha hs => ⟨hinv.1.step hbackend ha hs, hinv.2.step hbackend hinv.1 ha hs⟩)
    h).2

theorem reachable_eventStore_ingestedOnce_bootstrap :
    (∀ n, (eventLedgers n).ledgerSequence = n) ∧ ([] : List UInt32).Chain' (fun a b => b = a + 1) ∧
      newestLedger (emptyWindow : LedgerBucketWindow (List (Event Nat))) = none ∧
      newestLedger (emptyWindow : LedgerBucketWindow (List (LedgerTransaction Nat))) = none ∧
      ∃ s, eventDbStart.steps eventLedgers bootstrapRun = some s ∧
        s.db.commits = [63, 64, 65] ∧ s.main = .ingest 66 .ingestEvents ∧
        Reachable eventLedgers (fun s a => JoinsFill s a ∧ NoFailureAfterIngestEvents s a)
          eventDbStart s ∧
        ∃ fill seqs : List UInt32, (fill = [] ∨ ([] : List UInt32) = [] ∧ fill.length = 1) ∧
          s.db.commits = [] ++ fill ++ seqs ∧
          (⟨emptyWindow⟩ : MemoryStore Nat).ingestAll
            ((seqs ++ s.main.eventsAhead.toList).map eventLedgers) = .ok s.eventStore := by
  refine ⟨fun _ => rfl, List.chain'_nil, rfl, rfl, _, rfl, rfl, rfl, ?h,
    reachable_eventStore_ingestedOnce eventLedgers (fun _ => rfl) List.chain'_nil (.inl ?e) (.inl ?t)
      ?h⟩
  case e | t => rfl
  exact reachable_bootstrapRun_restricted rfl

end SorobanRpc.Ingest
