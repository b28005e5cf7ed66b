import SorobanRpc.Ingest.Service

set_option autoImplicit false

/-! # Invariants of the ingestion service, and where they fail

Two properties of runs of the service, each with the restriction on the environment it needs and
a run that breaks it without the restriction:

* The DB commits contiguous sequences, and at most one fill goroutine runs at a time
  (`reachable_commits_contiguous`), in runs where `PrepareRange` does not fail while the fill that
  `run` started is still running (`JoinsFill`). `run` returns on that failure without waiting for
  its fill; the retry finds the DB still empty and starts a second fill on the same checkpoint, and
  the first one can commit after the stream has moved on (`stale_fill_commits_after_stream`).
* The event and transaction stores never hold a ledger the DB has not committed, outside `ingest`,
  and `IngestEvents` is always given the ledger after the event store's newest one
  (`reachable_stores_agree`), in runs that also have no failure in `ingest` after `IngestEvents`
  (`NoFailureAfterIngestEvents`). Such a failure leaves the ledger in both stores and not in the
  DB, and the retry ingests it again: the window panics (`ingest_failure_after_events_panics`).

Each invariant is a structure whose fields are what it says; `FillInv` is about the DB's commits
and the fill goroutines, `StoreInv` adds the stores. A step lemma per function of the service
proves that a step keeps the invariant, and `Reachable.induction` extends it to runs. -/

namespace SorobanRpc.Ingest

open Events LedgerBucketWindow

variable {α : Type}

/-! ## Lists and windows -/

theorem getElem?_set_of_getElem? {β : Type} {l : List β} {i j : Nat} {x y : β}
    (h : l[i]? = some y) : (l.set i x)[j]? = if i = j then some x else l[j]? := by
  obtain ⟨hi, -⟩ := List.getElem?_eq_some_iff.1 h
  rw [List.getElem?_set]
  split_ifs <;> rfl

theorem chain'_append_succ {l : List UInt32} {a : UInt32}
    (hc : l.Chain' fun a b => b = a + 1) (h : l.getLast? = some (a - 1) ∨ l = []) :
    (l ++ [a]).Chain' fun a b => b = a + 1 := by
  rcases h with h | rfl
  · exact hc.append (List.chain'_singleton a) fun x hx y hy => by
      simp only [Option.mem_def, h, List.head?_cons, Option.some.injEq] at hx hy
      rw [← hx, ← hy, sub_add_cancel]
  · exact List.chain'_singleton a

theorem newestLedger_append {T : Type} {w w' : LedgerBucketWindow T} {bucket : LedgerBucket T}
    (h : w.append bucket = .ok w') : newestLedger w' = some bucket.ledgerSeq := by
  simp [newestLedger, (toList_append h).2.2]

/-- A bucket follows a window whose newest ledger is the one before it, or that is empty. -/
theorem follows_of_newestLedger {T : Type} {w : LedgerBucketWindow T} {bucket : LedgerBucket T}
    (h : newestLedger w = none ∨ newestLedger w = some (bucket.ledgerSeq - 1)) :
    Follows w.toList bucket = true := by
  unfold newestLedger at h
  unfold Follows
  cases hl : w.toList.getLast? with
  | none => rfl
  | some last =>
    simp only [hl, Option.map_some', reduceCtorEq, Option.some.injEq, false_or] at h
    simp [h]

/-- `readEvents` only succeeds on a ledger with a transaction reader. -/
theorem readEvents_reader {meta : LedgerCloseMeta α} {events : List (Event α)}
    (h : readEvents meta = .ok events) : ∃ reader, meta.transactionReader = .ok reader :=
  (readEvents_ok h).imp fun _ h => h.1

/-- `IngestEvents` appends the ledger it is given, which has a transaction reader. -/
theorem MemoryStore.ingestEvents_ok {m m' : MemoryStore α} {meta : LedgerCloseMeta α}
    (h : m.ingestEvents meta = .ok m') :
    newestLedger m'.eventsByLedger = some meta.ledgerSequence ∧
      ∃ reader, meta.transactionReader = .ok reader := by
  obtain ⟨events, w, hev, hw, rfl⟩ := MemoryStore.ingestEvents_eq_ok h
  exact ⟨newestLedger_append hw, readEvents_reader hev⟩

theorem MemoryStore.ingestEvents_ne_panic {m : MemoryStore α} {meta : LedgerCloseMeta α}
    (h : newestLedger m.eventsByLedger = none ∨
      newestLedger m.eventsByLedger = some (meta.ledgerSequence - 1)) (msg : String) :
    m.ingestEvents meta ≠ .error (.panic msg) := by
  cases hr : readEvents meta with
  | error e => simp [MemoryStore.ingestEvents, hr, bind, Except.bind, Except.mapError]
  | ok events =>
    obtain ⟨w', hw'⟩ := append_ok_of_follows m.eventsByLedger
      { ledgerSeq := meta.ledgerSequence, ledgerCloseTimestamp := toInt64 meta.closeTime,
        bucketContent := events } (follows_of_newestLedger h)
    simp [MemoryStore.ingestEvents, hr, bind, Except.bind, Except.mapError, hw', pure,
      Except.pure]

/-- `IngestTransactions` on a ledger with a reader, that follows the window, succeeds. -/
theorem TransactionStore.ingestTransactions_ok_of_follows {m : TransactionStore α}
    {meta : LedgerCloseMeta α} {reader : LedgerTransactionReader α}
    (hr : meta.transactionReader = .ok reader)
    (h : newestLedger m.transactionsByLedger = none ∨
      newestLedger m.transactionsByLedger = some (meta.ledgerSequence - 1)) :
    ∃ m', m.ingestTransactions meta = .ok m' := by
  obtain ⟨w', hw'⟩ := append_ok_of_follows m.transactionsByLedger
    { ledgerSeq := meta.ledgerSequence, ledgerCloseTimestamp := toInt64 meta.closeTime,
      bucketContent := reader.transactions } (follows_of_newestLedger h)
  simp [TransactionStore.ingestTransactions, hr, bind, Except.bind, Except.mapError, hw', pure,
    Except.pure]

theorem TransactionStore.ingestTransactions_ok {m m' : TransactionStore α}
    {meta : LedgerCloseMeta α} (h : m.ingestTransactions meta = .ok m') :
    newestLedger m'.transactionsByLedger = some meta.ledgerSequence := by
  simp only [TransactionStore.ingestTransactions, bind, Except.bind, Except.mapError] at h
  split at h
  · cases h
  · split at h
    · cases h
    · rename_i w hw
      cases h
      exact newestLedger_append hw

/-! ## What a call does -/

/-- The calls of `ingest` before `IngestEvents`, which change nothing when they return. -/
def IngestStep.beforeEvents : IngestStep → Bool
  | .ingestEvents | .ingestTransactions | .commit => false
  | _ => true

section Calls

variable {backend : UInt32 → LedgerCloseMeta α} {s s' : Sys α} {o : Outcome}

/-- What one call of `ingest(seq)` does: a call before `IngestEvents` returns; a call fails and
    `ingest` returns its error; a store panics; `IngestEvents` or `IngestTransactions` appends the
    ledger; `Commit` commits it, and its hook succeeds or fails. -/
theorem Sys.ingest_cases {seq : UInt32} {step : IngestStep}
    (h : s.ingest backend seq step o = some s') :
    (step.beforeEvents ∧ s' = { s with main := .ingest seq step.next }) ∨
    (s' = s.fail ∧ (o = .err ∨
      (∃ e, step = .ingestEvents ∧ s.eventStore.ingestEvents (backend seq) = .error (.err e)) ∨
      (∃ e, step = .ingestTransactions ∧
        s.transactionStore.ingestTransactions (backend seq) = .error (.err e)))) ∨
    (∃ msg, s' = { s with main := .panicked msg } ∧
      ((step = .ingestEvents ∧ s.eventStore.ingestEvents (backend seq) = .error (.panic msg)) ∨
       (step = .ingestTransactions ∧
        s.transactionStore.ingestTransactions (backend seq) = .error (.panic msg)))) ∨
    (∃ es, step = .ingestEvents ∧ s.eventStore.ingestEvents (backend seq) = .ok es ∧
      s' = { s with eventStore := es, main := .ingest seq .ingestTransactions }) ∨
    (∃ ts, step = .ingestTransactions ∧ s.transactionStore.ingestTransactions (backend seq) = .ok ts ∧
      s' = { s with transactionStore := ts, main := .ingest seq .commit }) ∨
    (step = .commit ∧ (s' = { s with db := s.db.commit seq, main := .ingest (seq + 1) .getLedger } ∨
      s' = { s with db := s.db.commit seq, main := .nextBackOff })) := by
  cases step <;> cases o <;> dsimp only [Sys.ingest] at h
  case ingestEvents.ok =>
    split at h <;> cases h
    · exact .inr (.inr (.inr (.inl ⟨_, rfl, ‹_›, rfl⟩)))
    · exact .inr (.inl ⟨rfl, .inr (.inl ⟨_, rfl, ‹_›⟩)⟩)
    · exact .inr (.inr (.inl ⟨_, rfl, .inl ⟨rfl, ‹_›⟩⟩))
  case ingestTransactions.ok =>
    split at h <;> cases h
    · exact .inr (.inr (.inr (.inr (.inl ⟨_, rfl, ‹_›, rfl⟩))))
    · exact .inr (.inl ⟨rfl, .inr (.inr ⟨_, rfl, ‹_›⟩)⟩)
    · exact .inr (.inr (.inl ⟨_, rfl, .inr ⟨rfl, ‹_›⟩⟩))
  case commit.ok => cases h; exact .inr (.inr (.inr (.inr (.inr ⟨rfl, .inl rfl⟩))))
  case commit.hookErr => cases h; exact .inr (.inr (.inr (.inr (.inr ⟨rfl, .inr rfl⟩))))
  all_goals cases h
  all_goals first
    | exact .inl ⟨rfl, rfl⟩
    | exact .inr (.inl ⟨rfl, .inl rfl⟩)

/-- What one call of a fill goroutine does: it moves on or reports a failure, or its `Commit`
    commits the checkpoint and it reports the result of the hook. -/
theorem Sys.fillEntriesFromCheckpoint_cases {i : Nat}
    (h : s.fillEntriesFromCheckpoint i o = some s') :
    ∃ c step, s.fills[i]? = some ⟨c, .running step⟩ ∧
      ((∃ pc, pc ≠ .sent true ∧ s' = { s with fills := s.fills.set i ⟨c, pc⟩ }) ∨
       (step = .commit ∧
        ∃ ok, s' = { s with db := s.db.commit c, fills := s.fills.set i ⟨c, .sent ok⟩ })) := by
  unfold Sys.fillEntriesFromCheckpoint at h
  split at h <;> cases h
  · exact ⟨_, _, ‹_›, .inr ⟨rfl, _, rfl⟩⟩
  · exact ⟨_, _, ‹_›, .inr ⟨rfl, _, rfl⟩⟩
  all_goals exact ⟨_, _, ‹_›, .inl ⟨_, by nofun, rfl⟩⟩

/-- Which function a step runs: a call of the goroutine of `NewService` outside `ingest`, a call
    of `ingest`, a call of a fill goroutine, or `Close`. -/
theorem Sys.step_cases {a : Action} (h : s.step backend a = some s') :
    (∃ o, a = .main o ∧ (∀ seq step, s.main ≠ .ingest seq step) ∧
      (s.maybeFillEntriesFromCheckpoint o = some s' ∨ s.run o = some s' ∨
        s.retryNotify o = some s' ∨ s.fatalUnlessCanceled o = some s')) ∨
    (∃ o seq step, a = .main o ∧ s.main = .ingest seq step ∧
      s.ingest backend seq step o = some s') ∨
    (∃ i o, a = .fill i o ∧ s.fillEntriesFromCheckpoint i o = some s') ∨
    (a = .close ∧ s' = { s with cancelled := true }) := by
  cases hd : s.dead <;> simp only [Sys.step, hd, Bool.false_eq_true, if_false, if_true,
    reduceCtorEq] at h
  cases a with
  | main o =>
    simp only [Sys.stepMain] at h
    cases hm : s.main <;> simp only [hm] at h
    case ingest seq step => exact .inr (.inl ⟨o, seq, step, rfl, rfl, h⟩)
    all_goals first
      | cases h
      | exact .inl ⟨o, rfl, (fun _ _ he => nomatch he), by simp [h]⟩
  | fill i o => exact .inr (.inr (.inl ⟨i, o, rfl, h⟩))
  | close => exact .inr (.inr (.inr ⟨rfl, (Option.some.inj h).symm⟩))

end Calls

/-! ## Commits and fill goroutines -/

/-- What the DB's commits and the fills are at each place of the goroutine of `NewService`. -/
def PcOk (fills : List Fill) (commits : List UInt32) : MainPc → Prop
  | .getRootHAS => commits = []
  | .prepareRange n (some i) | .receive n (some i) =>
    ∃ f, fills[i]? = some f ∧ n = f.checkpointLedger + 1 ∧
      (f.pc = .sent true → commits.getLast? = some f.checkpointLedger)
  | .prepareRange n none | .receive n none | .ingest n _ => commits.getLast? = some (n - 1)
  | _ => True

/-- The invariant of runs that join their fills. -/
structure FillInv (s : Sys α) : Prop where
  /-- The DB's commits are contiguous. -/
  contiguous : s.db.commits.Chain' fun a b => b = a + 1
  /-- A running fill is the one `run` waits for, and the DB is empty. -/
  running : ∀ i f, s.fills[i]? = some f → f.running → s.main.waitsOn = some i ∧ s.db.commits = []
  pcOk : PcOk s.fills s.db.commits s.main

/-- `run` does not fail `PrepareRange` while the fill it is to wait for is running. -/
def JoinsFill (s : Sys α) : Action → Prop
  | .main .err => ∀ n i f, s.main = .prepareRange n (some i) → s.fills[i]? = some f →
      f.running = false
  | _ => True

section Fills

variable {backend : UInt32 → LedgerCloseMeta α} {s s' : Sys α} {o : Outcome}

theorem FillInv.not_running (hinv : FillInv s) (hw : s.main.waitsOn = none) (i : Nat) (f : Fill)
    (hf : s.fills[i]? = some f) : f.running = false :=
  Bool.eq_false_iff.2 fun hr => by simpa [hw] using (hinv.running i f hf hr).1

/-- With no fill running, a state is in the invariant when its commits are contiguous and its
    place is right. -/
theorem FillInv.of_none_running (hnone : ∀ (i : Nat) (f : Fill), s'.fills[i]? = some f → f.running = false)
    (hc : s'.db.commits.Chain' fun a b => b = a + 1) (hpc : PcOk s'.fills s'.db.commits s'.main) :
    FillInv s' :=
  ⟨hc, fun i f hf hr => by simp [hnone i f hf] at hr, hpc⟩

/-- When the fill `run` waits for is not running, no fill is. -/
theorem FillInv.none_running (hinv : FillInv s) {i : Nat} (hw : s.main.waitsOn = some i)
    (hi : ∀ f, s.fills[i]? = some f → f.running = false) (j : Nat) (g : Fill)
    (hg : s.fills[j]? = some g) : g.running = false := by
  cases hr : g.running
  · rfl
  · have hj := (hinv.running j g hg hr).1
    rw [hw, Option.some.injEq] at hj
    subst hj
    rw [hi g hg] at hr
    cases hr

theorem FillInv.maybeFillEntriesFromCheckpoint (hinv : FillInv s)
    (h : s.maybeFillEntriesFromCheckpoint o = some s') : FillInv s' := by
  unfold Sys.maybeFillEntriesFromCheckpoint at h
  split at h
  · -- `GetLatestLedgerSequence` returned
    rename_i hm
    have hnone := hinv.not_running (by rw [hm]; rfl)
    cases h
    cases hl : s.db.getLatestLedgerSequence with
    | none => exact .of_none_running hnone hinv.contiguous (List.getLast?_eq_none_iff.1 hl)
    | some cur =>
      refine .of_none_running hnone hinv.contiguous ?_
      show s.db.commits.getLast? = some (cur + 1 - 1)
      rw [add_sub_cancel_right]
      exact hl
  · -- a root at `c`: a fill starts
    rename_i c hm
    cases h
    have hempty : PcOk s.fills s.db.commits .getRootHAS := hm ▸ hinv.pcOk
    refine ⟨hinv.contiguous, fun i f hf hr => ⟨?_, hempty⟩, ⟨_, List.getElem?_concat_length .., rfl, nofun⟩⟩
    rcases Nat.lt_or_ge i s.fills.length with hi | hi
    · rw [List.getElem?_append_left hi] at hf
      rw [hinv.not_running (by rw [hm]; rfl) i f hf] at hr
      cases hr
    · have : i = s.fills.length := by
        by_contra hne
        rw [List.getElem?_eq_none (by simp only [List.length_append, List.length_singleton]; omega)] at hf
        cases hf
      rw [this]
      rfl
  all_goals rename_i hm; cases h
  all_goals exact .of_none_running (hinv.not_running (by rw [hm]; rfl)) hinv.contiguous trivial

theorem FillInv.run (hinv : FillInv s) (hj : JoinsFill s (.main o)) (h : s.run o = some s') :
    FillInv s' := by
  unfold Sys.run at h
  split at h
  · -- `PrepareRange` returned
    rename_i n fill hm
    cases h
    refine ⟨hinv.contiguous, fun i f hf hr => ?_, ?_⟩
    · have := hinv.running i f hf hr
      rwa [hm] at this
    have hpc : PcOk s.fills s.db.commits (.prepareRange n fill) := hm ▸ hinv.pcOk
    cases fill <;> exact hpc
  · -- `PrepareRange` failed: by `JoinsFill`, no fill is running
    rename_i n fill hm
    cases h
    cases fill with
    | none => exact .of_none_running (hinv.not_running (by rw [hm]; rfl)) hinv.contiguous trivial
    | some i =>
      exact .of_none_running (hinv.none_running (by rw [hm]; rfl) (hj n i · hm)) hinv.contiguous
        trivial
  · -- `checkPointFillErr` held `nil`
    rename_i n hm
    cases h
    have hpc : PcOk s.fills s.db.commits (.receive n none) := hm ▸ hinv.pcOk
    exact .of_none_running (hinv.not_running (by rw [hm]; rfl)) hinv.contiguous hpc
  · -- fill `i` sent its result
    rename_i n i hm
    obtain ⟨f, hf, hn, hsent⟩ : PcOk s.fills s.db.commits (.receive n (some i)) := hm ▸ hinv.pcOk
    rw [hf] at h
    obtain ⟨c, pc⟩ := f
    cases pc with
    | running => cases h
    | sent ok =>
      have hnone := hinv.none_running (by rw [hm]; rfl) fun g hg => by
        rw [hf] at hg
        cases hg
        rfl
      cases ok <;> cases h
      · exact .of_none_running hnone hinv.contiguous trivial
      · refine .of_none_running hnone hinv.contiguous ?_
        show s.db.commits.getLast? = some (n - 1)
        rw [hn, add_sub_cancel_right]
        exact hsent rfl
  · cases h

theorem FillInv.ingest (hinv : FillInv s) {seq : UInt32} {step : IngestStep}
    (hm : s.main = .ingest seq step) (h : s.ingest backend seq step o = some s') : FillInv s' := by
  have hnone := hinv.not_running (by rw [hm]; rfl)
  have hlast : PcOk s.fills s.db.commits (.ingest seq step) := hm ▸ hinv.pcOk
  have hcommit := chain'_append_succ hinv.contiguous (.inl hlast)
  rcases Sys.ingest_cases h with ⟨-, rfl⟩ | ⟨rfl, -⟩ | ⟨msg, rfl, -⟩ | ⟨es, -, -, rfl⟩ |
    ⟨ts, -, -, rfl⟩ | ⟨-, rfl | rfl⟩
  · exact .of_none_running hnone hinv.contiguous hlast
  · exact .of_none_running hnone hinv.contiguous trivial
  · exact .of_none_running hnone hinv.contiguous trivial
  · exact .of_none_running hnone hinv.contiguous hlast
  · exact .of_none_running hnone hinv.contiguous hlast
  · refine .of_none_running hnone hcommit ?_
    show (s.db.commits ++ [seq]).getLast? = some (seq + 1 - 1)
    simp
  · exact .of_none_running hnone hcommit trivial

theorem FillInv.retryNotify (hinv : FillInv s) (h : s.retryNotify o = some s') : FillInv s' := by
  unfold Sys.retryNotify at h
  split at h
  all_goals rename_i hm; cases h
  all_goals split_ifs <;>
    exact .of_none_running (hinv.not_running (by rw [hm]; rfl)) hinv.contiguous trivial

theorem FillInv.fatalUnlessCanceled (hinv : FillInv s) (h : s.fatalUnlessCanceled o = some s') :
    FillInv s' := by
  unfold Sys.fatalUnlessCanceled at h
  split at h <;> cases h
  rename_i hm
  exact .of_none_running (hinv.not_running (by rw [hm]; rfl)) hinv.contiguous trivial

/-- A step of the fill that `run` waits for keeps the place right when it keeps the checkpoint
    and has committed it if it reports success. -/
theorem pcOk_set {fills : List Fill} {commits commits' : List UInt32} {m : MainPc} {i : Nat}
    {f f' : Fill} (hpc : PcOk fills commits m) (hw : m.waitsOn = some i)
    (hf : fills[i]? = some f) (hc : f'.checkpointLedger = f.checkpointLedger)
    (hsent : f'.pc = .sent true → commits'.getLast? = some f.checkpointLedger) :
    PcOk (fills.set i f') commits' m := by
  have hset : (fills.set i f')[i]? = some f' := by rw [getElem?_set_of_getElem? hf, if_pos rfl]
  cases m <;> simp only [MainPc.waitsOn, reduceCtorEq] at hw <;> subst hw <;>
    obtain ⟨g, hg, hn, -⟩ := hpc <;> rw [hf] at hg <;> cases hg <;>
    exact ⟨f', hset, hc ▸ hn, hc ▸ hsent⟩

/-- A fill that moves on, or reports a failure, keeps the invariant. -/
theorem FillInv.set_running (hinv : FillInv s) {i : Nat} {c : UInt32} {step : FillStep}
    {pc : FillPc} (hf : s.fills[i]? = some ⟨c, .running step⟩) (hpc : pc ≠ .sent true) :
    FillInv { s with fills := s.fills.set i ⟨c, pc⟩ } := by
  obtain ⟨hw, hempty⟩ := hinv.running i _ hf rfl
  refine ⟨hinv.contiguous, fun j g hg hr => ?_, pcOk_set hinv.pcOk hw hf rfl (absurd · hpc)⟩
  rw [getElem?_set_of_getElem? hf] at hg
  split_ifs at hg with hij
  · exact hij ▸ ⟨hw, hempty⟩
  · exact hinv.running j g hg hr

/-- A fill that commits its checkpoint keeps the invariant: the DB was empty, and no other fill
    runs. -/
theorem FillInv.set_commit (hinv : FillInv s) {i : Nat} {c : UInt32} {ok : Bool}
    (hf : s.fills[i]? = some ⟨c, .running .commit⟩) :
    FillInv { s with db := s.db.commit c, fills := s.fills.set i ⟨c, .sent ok⟩ } := by
  obtain ⟨hw, hempty⟩ := hinv.running i _ hf rfl
  refine ⟨chain'_append_succ hinv.contiguous (.inr hempty), fun j g hg hr => ?_,
    pcOk_set hinv.pcOk hw hf rfl fun _ => by simp [hempty]⟩
  rw [getElem?_set_of_getElem? hf] at hg
  split_ifs at hg with hij
  · cases hg
    cases hr
  · have hw' := (hinv.running j g hg hr).1
    rw [hw] at hw'
    exact absurd (Option.some.inj hw') hij

theorem FillInv.fillEntriesFromCheckpoint (hinv : FillInv s) {i : Nat}
    (h : s.fillEntriesFromCheckpoint i o = some s') : FillInv s' := by
  obtain ⟨c, step, hf, ⟨pc, hpc, rfl⟩ | ⟨rfl, ok, rfl⟩⟩ := Sys.fillEntriesFromCheckpoint_cases h
  · exact hinv.set_running hf hpc
  · exact hinv.set_commit hf

/-- Two running fills are the same one. -/
theorem FillInv.running_eq (hinv : FillInv s) (i j : Nat) (f g : Fill) (hf : s.fills[i]? = some f)
    (hfr : f.running) (hg : s.fills[j]? = some g) (hgr : g.running) : i = j := by
  have hi := (hinv.running i f hf hfr).1
  rw [(hinv.running j g hg hgr).1] at hi
  exact (Option.some.inj hi).symm

/-- Every step that `JoinsFill` admits keeps the invariant. -/
theorem FillInv.step (hinv : FillInv s) {a : Action} (ha : JoinsFill s a)
    (h : s.step backend a = some s') : FillInv s' := by
  rcases Sys.step_cases h with ⟨o, rfl, -, hs | hs | hs | hs⟩ | ⟨o, seq, step, rfl, hm, hs⟩ |
    ⟨i, o, rfl, hs⟩ | ⟨rfl, rfl⟩
  · exact hinv.maybeFillEntriesFromCheckpoint hs
  · exact hinv.run ha hs
  · exact hinv.retryNotify hs
  · exact hinv.fatalUnlessCanceled hs
  · exact hinv.ingest hm hs
  · exact hinv.fillEntriesFromCheckpoint hs
  · exact ⟨hinv.1, hinv.2, hinv.3⟩

end Fills

theorem FillInv.start {db : Db} {eventStore : MemoryStore α} {transactionStore : TransactionStore α}
    (hdb : db.commits.Chain' fun a b => b = a + 1) :
    FillInv (Sys.start db eventStore transactionStore) :=
  ⟨hdb, fun _ _ hf => by simp [Sys.start] at hf, trivial⟩

/-- In runs that join their fills, from a DB whose commits are contiguous, the DB's commits stay
    contiguous, and at most one fill goroutine runs at a time. -/
theorem reachable_commits_contiguous {backend : UInt32 → LedgerCloseMeta α} {db : Db}
    {eventStore : MemoryStore α} {transactionStore : TransactionStore α}
    (hdb : db.commits.Chain' fun a b => b = a + 1) {s : Sys α}
    (h : Reachable backend JoinsFill (Sys.start db eventStore transactionStore) s) :
    s.db.commits.Chain' (fun a b => b = a + 1) ∧
      ∀ (i j : Nat) (f g : Fill), s.fills[i]? = some f → f.running → s.fills[j]? = some g →
        g.running → i = j := by
  have hinv : FillInv s := Reachable.induction backend FillInv (FillInv.start hdb)
    (fun _ _ _ hinv ha hs => hinv.step ha hs) h
  exact ⟨hinv.contiguous, hinv.running_eq⟩

/-! ## Runs from a fresh start -/

/-- An empty window of 10 ledgers. -/
def emptyWindow {T : Type} : LedgerBucketWindow T :=
  ⟨10, [], 0, by decide, Nat.zero_le _, .inl rfl, fun _ => rfl, List.chain'_nil⟩

/-- A backend whose ledgers close at time 0 with no transaction. -/
def emptyLedgers (sequence : UInt32) : LedgerCloseMeta Unit :=
  ⟨sequence, 0, .ok ⟨[], none, none⟩⟩

/-- The service on a DB at ledger 4, with empty stores. -/
def dbAt4Start : Sys Unit := Sys.start ⟨[4]⟩ ⟨emptyWindow⟩ ⟨emptyWindow⟩

/-- The service on an empty DB, with empty stores. -/
def emptyDbStart : Sys Unit := Sys.start ⟨[]⟩ ⟨emptyWindow⟩ ⟨emptyWindow⟩

/-- A backend whose ledger `n` holds one successful transaction of two operations, the first
    emitting events `n` and `n + 1`, the second `n + 2`. -/
def eventLedgers (sequence : UInt32) : LedgerCloseMeta Nat :=
  { ledgerSequence := sequence, closeTime := 0,
    transactionReader := .ok
      { transactions :=
          [{ index := 1, successful := true, operationCount := 2,
             getOperationEvents := fun i =>
               if i = 0 then .ok ⟨[sequence.toNat, sequence.toNat + 1], (by decide : 2 < 2 ^ 32)⟩
               else .ok ⟨[sequence.toNat + 2], (by decide : 1 < 2 ^ 32)⟩ }],
        readErr := none, closeErr := none } }

/-- The service on an empty DB, with empty stores, over `eventLedgers`. -/
def eventDbStart : Sys Nat := Sys.start ⟨[]⟩ ⟨emptyWindow⟩ ⟨emptyWindow⟩

/-- From an empty DB: `GetLatestLedgerSequence` fails and `RetryNotify` calls `run` again; the DB
    is still empty, the root is at 63 and fill 0 starts; `PrepareRange(64)` returns, the fill
    commits checkpoint 63 and sends, `run` receives it and streams ledgers 64 and 65, and goes
    through `ingest(66)` up to `IngestEvents`. -/
def bootstrapRun : List Action :=
  .main .err :: ([.main .ok, .main .ok, .main .ok, .main (.root 63), .main .ok] ++
    List.replicate 5 (.fill 0 .ok) ++ List.replicate (1 + 9 * 2 + 6) (.main .ok))

/-- `JoinsFill` admits every call but a failure. -/
theorem joinsFill_of_ne_err {a : Action} (ha : a ≠ .main .err) (s : Sys α) : JoinsFill s a := by
  cases a with
  | main o => cases o <;> first | exact absurd rfl ha | trivial
  | _ => trivial

/-- `bootstrapRun` is a run of every restriction that admits its first failure and every other
    call. -/
theorem reachable_bootstrapRun {backend : UInt32 → LedgerCloseMeta α}
    {allowed : Sys α → Action → Prop} {eventStore : MemoryStore α}
    {transactionStore : TransactionStore α}
    (herr : allowed (Sys.start ⟨[]⟩ eventStore transactionStore) (.main .err))
    (hall : ∀ s a, a ≠ .main .err → allowed s a) {s : Sys α}
    (h : (Sys.start ⟨[]⟩ eventStore transactionStore).steps backend bootstrapRun = some s) :
    Reachable backend allowed (Sys.start ⟨[]⟩ eventStore transactionStore) s := by
  rw [bootstrapRun, Sys.steps] at h
  obtain ⟨s₁, h₁, h⟩ := Option.bind_eq_some.1 h
  exact (Reachable.step .init herr h₁).steps_of_allowed backend h
    fun a ha s => hall s a fun he => absurd (he ▸ ha) (by decide)

theorem reachable_commits_contiguous_bootstrap :
    ([] : List UInt32).Chain' (fun a b => b = a + 1) ∧
      ∃ s, eventDbStart.steps eventLedgers bootstrapRun = some s ∧ s.db.commits = [63, 64, 65] ∧
        s.fills.length = 1 ∧ Reachable eventLedgers JoinsFill eventDbStart s ∧
        (s.db.commits.Chain' (fun a b => b = a + 1) ∧
          ∀ (i j : Nat) (f g : Fill), s.fills[i]? = some f → f.running → s.fills[j]? = some g →
            g.running → i = j) := by
  refine ⟨List.chain'_nil, _, rfl, rfl, rfl, ?h, reachable_commits_contiguous List.chain'_nil ?h⟩
  exact reachable_bootstrapRun (fun _ _ _ h => by cases h) (fun s _ ha => joinsFill_of_ne_err ha s) rfl

/-- From an empty DB: the root is at 63 and fill 0 starts; `PrepareRange` fails; the retry finds
    the DB still empty and starts fill 1 on 63, which commits it; `run` streams ledger 64; then
    fill 0 commits 63. -/
def staleFillRun : List Action :=
  [.main .ok, .main (.root 63), .main .err, .main .ok, .main .ok, .main .ok, .main (.root 63)] ++
    List.replicate 5 (.fill 1 .ok) ++ List.replicate 11 (.main .ok) ++
    List.replicate 5 (.fill 0 .ok)

/-- Without `JoinsFill`, two fills run at once, and the DB's commits go 63, 64, 63. -/
theorem stale_fill_commits_after_stream :
    ∃ s₁ s₂, Reachable emptyLedgers (fun _ _ => True) emptyDbStart s₁ ∧
      s₁.fills.map Fill.running = [true, true] ∧
      Reachable emptyLedgers (fun _ _ => True) emptyDbStart s₂ ∧ s₂.db.commits = [63, 64, 63] :=
  ⟨_, _, reachable_of_steps emptyLedgers (staleFillRun.take 7) rfl, rfl,
    reachable_of_steps emptyLedgers staleFillRun rfl, rfl⟩

/-! ## The stores and the DB -/

/-- The ledger the event store holds beyond the DB: inside `ingest(seq)`, after `IngestEvents`. -/
def MainPc.eventsAhead : MainPc → Option UInt32
  | .ingest seq .ingestTransactions | .ingest seq .commit => some seq
  | _ => none

/-- The ledger the transaction store holds beyond the DB: inside `ingest(seq)`, after
    `IngestTransactions`. -/
def MainPc.transactionsAhead : MainPc → Option UInt32
  | .ingest seq .commit => some seq
  | _ => none

/-- A store's newest ledger is the one `ingest` has added if there is one, else the DB's newest
    one, or the store is empty. -/
def StoreOk (latest ahead newest : Option UInt32) : Prop :=
  match ahead with
  | some seq => newest = some seq
  | none => newest = none ∨ newest = latest

/-- The invariant of runs that join their fills and have no failure after `IngestEvents`. -/
structure StoreInv (backend : UInt32 → LedgerCloseMeta α) (s : Sys α) : Prop where
  fillInv : FillInv s
  alive : ∀ msg, s.main ≠ .panicked msg
  events : StoreOk s.db.getLatestLedgerSequence s.main.eventsAhead
    (newestLedger s.eventStore.eventsByLedger)
  transactions : StoreOk s.db.getLatestLedgerSequence s.main.transactionsAhead
    (newestLedger s.transactionStore.transactionsByLedger)
  /-- The ledger `IngestEvents` has read has a transaction reader. -/
  reader : ∀ seq, s.main.eventsAhead = some seq → ∃ r, (backend seq).transactionReader = .ok r

/-- Nothing in `ingest` fails once `IngestEvents` has returned. -/
def NoFailureAfterIngestEvents (s : Sys α) : Action → Prop
  | .main .err => s.main.eventsAhead = none
  | _ => True

/-- `NoFailureAfterIngestEvents` admits every call but a failure. -/
theorem noFailureAfterIngestEvents_of_ne_err {a : Action} (ha : a ≠ .main .err) (s : Sys α) :
    NoFailureAfterIngestEvents s a := by
  cases a with
  | main o => cases o <;> first | exact absurd rfl ha | trivial
  | _ => trivial

/-- The bootstrap run is a run of the service that joins its fills and has no failure after
    `IngestEvents`: its one failure comes before any fill or ledger. -/
theorem reachable_bootstrapRun_restricted {s : Sys Nat}
    (h : eventDbStart.steps eventLedgers bootstrapRun = some s) :
    Reachable eventLedgers (fun s a => JoinsFill s a ∧ NoFailureAfterIngestEvents s a)
      eventDbStart s :=
  reachable_bootstrapRun ⟨(fun _ _ _ h => by cases h), rfl⟩
    (fun s _ ha => ⟨joinsFill_of_ne_err ha s, noFailureAfterIngestEvents_of_ne_err ha s⟩) h

theorem MainPc.transactionsAhead_eq_none {m : MainPc} (h : m.eventsAhead = none) :
    m.transactionsAhead = none := by
  cases m with
  | ingest seq step => cases step <;> first | rfl | cases h
  | _ => rfl

theorem MainPc.eventsAhead_of_not_ingest {m : MainPc} (h : ∀ seq step, m ≠ .ingest seq step) :
    m.eventsAhead = none := by
  cases m <;> first | rfl | exact absurd rfl (h _ _)

theorem MainPc.eventsAhead_of_waitsOn {m : MainPc} {i : Nat} (h : m.waitsOn = some i) :
    m.eventsAhead = none ∧ m.transactionsAhead = none := by
  cases m <;> first | exact ⟨rfl, rfl⟩ | cases h

theorem IngestStep.eventsAhead_of_beforeEvents {step : IngestStep} (h : step.beforeEvents)
    (seq : UInt32) :
    (MainPc.ingest seq step).eventsAhead = none ∧ (MainPc.ingest seq step.next).eventsAhead = none ∧
      (MainPc.ingest seq step.next).transactionsAhead = none := by
  cases step <;> first | exact ⟨rfl, rfl, rfl⟩ | cases h

/-- A step that changes neither the DB nor the stores, and ends neither after `IngestEvents` nor
    in a panic. -/
structure Sys.Quiet (s s' : Sys α) : Prop where
  db : s'.db = s.db
  eventStore : s'.eventStore = s.eventStore
  transactionStore : s'.transactionStore = s.transactionStore
  eventsAhead : s'.main.eventsAhead = none
  alive : ∀ msg, s'.main ≠ .panicked msg

section Stores

variable {backend : UInt32 → LedgerCloseMeta α} {s s' : Sys α} {o : Outcome}

theorem Sys.maybeFillEntriesFromCheckpoint_quiet
    (h : s.maybeFillEntriesFromCheckpoint o = some s') : s.Quiet s' := by
  unfold Sys.maybeFillEntriesFromCheckpoint at h
  split at h <;> cases h
  · split <;> exact ⟨rfl, rfl, rfl, rfl, fun _ => nofun⟩
  all_goals exact ⟨rfl, rfl, rfl, rfl, fun _ => nofun⟩

theorem Sys.run_quiet (h : s.run o = some s') : s.Quiet s' := by
  unfold Sys.run at h
  split at h
  case h_4 => split at h <;> cases h <;> exact ⟨rfl, rfl, rfl, rfl, fun _ => nofun⟩
  all_goals cases h <;> exact ⟨rfl, rfl, rfl, rfl, fun _ => nofun⟩

theorem Sys.retryNotify_quiet (h : s.retryNotify o = some s') : s.Quiet s' := by
  unfold Sys.retryNotify at h
  split at h <;> cases h
  all_goals split_ifs <;> exact ⟨rfl, rfl, rfl, rfl, fun _ => nofun⟩

theorem Sys.fatalUnlessCanceled_quiet (h : s.fatalUnlessCanceled o = some s') : s.Quiet s' := by
  unfold Sys.fatalUnlessCanceled at h
  split at h <;> cases h
  exact ⟨rfl, rfl, rfl, rfl, fun _ => nofun⟩

theorem StoreInv.of_quiet (hinv : StoreInv backend s) (hq : s.Quiet s') (hfill : FillInv s')
    (hm : s.main.eventsAhead = none) : StoreInv backend s' := by
  have he := hinv.events
  have ht := hinv.transactions
  rw [hm] at he
  rw [MainPc.transactionsAhead_eq_none hm] at ht
  refine ⟨hfill, hq.alive, ?_, ?_, fun seq h => by rw [hq.eventsAhead] at h; cases h⟩
  · rw [hq.eventsAhead, hq.db, hq.eventStore]; exact he
  · rw [MainPc.transactionsAhead_eq_none hq.eventsAhead, hq.db, hq.transactionStore]; exact ht

theorem StoreInv.fillEntriesFromCheckpoint (hinv : StoreInv backend s) {i : Nat}
    (h : s.fillEntriesFromCheckpoint i o = some s') (hfill : FillInv s') : StoreInv backend s' := by
  obtain ⟨c, step, hf, ⟨pc, -, rfl⟩ | ⟨rfl, ok, rfl⟩⟩ := Sys.fillEntriesFromCheckpoint_cases h
  · exact ⟨hfill, hinv.alive, hinv.events, hinv.transactions, hinv.reader⟩
  · -- the fill commits on an empty DB, so both stores are empty
    obtain ⟨hw, hempty⟩ := hinv.fillInv.running i _ hf rfl
    obtain ⟨he, ht⟩ := MainPc.eventsAhead_of_waitsOn hw
    have hl : s.db.getLatestLedgerSequence = none := by simp [Db.getLatestLedgerSequence, hempty]
    have hev := hinv.events
    have htr := hinv.transactions
    rw [he, hl] at hev
    rw [ht, hl] at htr
    refine ⟨hfill, hinv.alive, ?_, ?_, hinv.reader⟩
    · show StoreOk (s.db.commit c).getLatestLedgerSequence s.main.eventsAhead _
      rw [he]
      exact .inl (hev.elim id id)
    · show StoreOk (s.db.commit c).getLatestLedgerSequence s.main.transactionsAhead _
      rw [ht]
      exact .inl (htr.elim id id)

/-- Inside `ingest(seq)`, the DB is at `seq - 1`. -/
theorem FillInv.latest_of_ingest (hinv : FillInv s) {seq : UInt32} {step : IngestStep}
    (hm : s.main = .ingest seq step) : s.db.getLatestLedgerSequence = some (seq - 1) := by
  have := hinv.pcOk
  rw [hm] at this
  exact this

/-- `IngestTransactions` of `ingest(seq)` appends the ledger: it has a reader, and it follows the
    store's newest one. -/
theorem StoreInv.ingestTransactions_ok (hbackend : ∀ n, (backend n).ledgerSequence = n)
    (hinv : StoreInv backend s) {seq : UInt32} (hm : s.main = .ingest seq .ingestTransactions) :
    ∃ ts, s.transactionStore.ingestTransactions (backend seq) = .ok ts := by
  have ht := hinv.transactions
  rw [hm] at ht
  obtain ⟨r, hr⟩ := hinv.reader seq (by rw [hm]; rfl)
  refine TransactionStore.ingestTransactions_ok_of_follows hr ?_
  rw [hbackend, ← hinv.fillInv.latest_of_ingest hm]
  exact ht

theorem StoreInv.ingest (hbackend : ∀ n, (backend n).ledgerSequence = n)
    (hinv : StoreInv backend s) {seq : UInt32} {step : IngestStep}
    (hm : s.main = .ingest seq step) (ha : NoFailureAfterIngestEvents s (.main o))
    (h : s.ingest backend seq step o = some s') (hfill : FillInv s') : StoreInv backend s' := by
  have hlast := hinv.fillInv.latest_of_ingest hm
  have he := hinv.events
  have ht := hinv.transactions
  have hr := hinv.reader
  rw [hm] at he ht hr
  rcases Sys.ingest_cases h with ⟨hb, rfl⟩ | ⟨rfl, hfail⟩ | ⟨msg, rfl, hpanic⟩ |
    ⟨es, rfl, hes, rfl⟩ | ⟨ts, rfl, hts, rfl⟩ | ⟨rfl, rfl | rfl⟩
  · -- a call before `IngestEvents` returns
    obtain ⟨h1, h2, h3⟩ := IngestStep.eventsAhead_of_beforeEvents hb seq
    rw [h1] at he
    rw [MainPc.transactionsAhead_eq_none h1] at ht
    refine ⟨hfill, fun _ => nofun, ?_, ?_, fun _ h => ?_⟩
    · dsimp only
      rw [h2]
      exact he
    · dsimp only
      rw [h3]
      exact ht
    · dsimp only at h
      rw [h2] at h
      cases h
  · -- a call fails: `run` returns, and the stores are as they were
    have hahead : (MainPc.ingest seq step).eventsAhead = none := by
      rcases hfail with rfl | ⟨e, rfl, -⟩ | ⟨e, rfl, herr⟩
      · rw [← hm]
        exact ha
      · rfl
      · obtain ⟨ts, hts⟩ := hinv.ingestTransactions_ok hbackend hm
        rw [hts] at herr
        cases herr
    rw [hahead] at he
    rw [MainPc.transactionsAhead_eq_none hahead] at ht
    exact ⟨hfill, fun _ => nofun, he, ht, fun _ => nofun⟩
  · -- no store panics: the ledger follows both windows
    exfalso
    rcases hpanic with ⟨rfl, hp⟩ | ⟨rfl, hp⟩
    · refine MemoryStore.ingestEvents_ne_panic ?_ msg hp
      rw [hbackend, ← hlast]
      exact he
    · obtain ⟨ts, hts⟩ := hinv.ingestTransactions_ok hbackend hm
      rw [hts] at hp
      cases hp
  · -- `IngestEvents` appends the ledger
    obtain ⟨hnew, reader, hreader⟩ := MemoryStore.ingestEvents_ok hes
    refine ⟨hfill, fun _ => nofun, ?_, ht, fun seq' h => ?_⟩
    · show newestLedger es.eventsByLedger = some seq
      rw [hnew, hbackend]
    · cases h
      exact ⟨reader, hreader⟩
  · -- `IngestTransactions` appends the ledger
    refine ⟨hfill, fun _ => nofun, he, ?_, hr⟩
    show newestLedger ts.transactionsByLedger = some seq
    rw [TransactionStore.ingestTransactions_ok hts, hbackend]
  all_goals
    -- `Commit` commits the ledger both stores hold
    refine ⟨hfill, fun _ => nofun, ?_, ?_, fun _ h => by cases h⟩
    · show StoreOk (s.db.commit seq).getLatestLedgerSequence none _
      rw [Db.getLatestLedgerSequence_commit]
      exact .inr he
    · show StoreOk (s.db.commit seq).getLatestLedgerSequence none _
      rw [Db.getLatestLedgerSequence_commit]
      exact .inr ht

/-- Every step that the two restrictions admit keeps the invariant. -/
theorem StoreInv.step (hbackend : ∀ n, (backend n).ledgerSequence = n)
    (hinv : StoreInv backend s) {a : Action}
    (ha : JoinsFill s a ∧ NoFailureAfterIngestEvents s a) (h : s.step backend a = some s') :
    StoreInv backend s' := by
  have hfill := hinv.fillInv.step ha.1 h
  rcases Sys.step_cases h with ⟨o, rfl, hm, hs | hs | hs | hs⟩ | ⟨o, seq, step, rfl, hm, hs⟩ |
    ⟨i, o, rfl, hs⟩ | ⟨rfl, rfl⟩
  · exact hinv.of_quiet (Sys.maybeFillEntriesFromCheckpoint_quiet hs) hfill
      (MainPc.eventsAhead_of_not_ingest hm)
  · exact hinv.of_quiet (Sys.run_quiet hs) hfill (MainPc.eventsAhead_of_not_ingest hm)
  · exact hinv.of_quiet (Sys.retryNotify_quiet hs) hfill (MainPc.eventsAhead_of_not_ingest hm)
  · exact hinv.of_quiet (Sys.fatalUnlessCanceled_quiet hs) hfill
      (MainPc.eventsAhead_of_not_ingest hm)
  · exact hinv.ingest hbackend hm ha.2 hs hfill
  · exact hinv.fillEntriesFromCheckpoint hs hfill
  · exact ⟨hfill, hinv.alive, hinv.events, hinv.transactions, hinv.reader⟩

end Stores

theorem StoreInv.start {backend : UInt32 → LedgerCloseMeta α} {db : Db}
    {eventStore : MemoryStore α} {transactionStore : TransactionStore α}
    (hdb : db.commits.Chain' fun a b => b = a + 1)
    (he : newestLedger eventStore.eventsByLedger = none ∨
      newestLedger eventStore.eventsByLedger = db.getLatestLedgerSequence)
    (ht : newestLedger transactionStore.transactionsByLedger = none ∨
      newestLedger transactionStore.transactionsByLedger = db.getLatestLedgerSequence) :
    StoreInv backend (Sys.start db eventStore transactionStore) :=
  ⟨FillInv.start hdb, fun _ => nofun, he, ht, fun _ => nofun⟩

/-- What `reachable_stores_agree` says of a state. -/
structure StoresAgree (s : Sys α) : Prop where
  /-- No store has panicked. -/
  alive : ∀ msg, s.main ≠ .panicked msg
  /-- `IngestEvents` is about to be given the ledger after the event store's newest one. -/
  follows : ∀ seq, s.main = .ingest seq .ingestEvents →
    newestLedger s.eventStore.eventsByLedger = none ∨
      newestLedger s.eventStore.eventsByLedger = some (seq - 1)
  /-- Outside `ingest`, each store is empty or ends at the DB's ledger. -/
  agree : (∀ seq step, s.main ≠ .ingest seq step) →
    (newestLedger s.eventStore.eventsByLedger = none ∨
      newestLedger s.eventStore.eventsByLedger = s.db.getLatestLedgerSequence) ∧
    (newestLedger s.transactionStore.transactionsByLedger = none ∨
      newestLedger s.transactionStore.transactionsByLedger = s.db.getLatestLedgerSequence)

theorem StoreInv.storesAgree {backend : UInt32 → LedgerCloseMeta α} {s : Sys α}
    (hinv : StoreInv backend s) : StoresAgree s := by
  refine ⟨hinv.alive, fun seq hm => ?_, fun hm => ?_⟩
  · have he := hinv.events
    rw [hm] at he
    rw [← hinv.fillInv.latest_of_ingest hm]
    exact he
  · have hahead := MainPc.eventsAhead_of_not_ingest hm
    have he := hinv.events
    have ht := hinv.transactions
    rw [hahead] at he
    rw [MainPc.transactionsAhead_eq_none hahead] at ht
    exact ⟨he, ht⟩

/-- In runs that join their fills and have no failure after `IngestEvents`, on a backend that
    serves each ledger under its own sequence, from a DB with contiguous commits and stores that
    hold nothing beyond it, the stores agree with the DB in every state reached. -/
theorem reachable_stores_agree {backend : UInt32 → LedgerCloseMeta α}
    (hbackend : ∀ n, (backend n).ledgerSequence = n) {db : Db} {eventStore : MemoryStore α}
    {transactionStore : TransactionStore α} (hdb : db.commits.Chain' fun a b => b = a + 1)
    (he : newestLedger eventStore.eventsByLedger = none ∨
      newestLedger eventStore.eventsByLedger = db.getLatestLedgerSequence)
    (ht : newestLedger transactionStore.transactionsByLedger = none ∨
      newestLedger transactionStore.transactionsByLedger = db.getLatestLedgerSequence)
    {s : Sys α}
    (h : Reachable backend (fun s a => JoinsFill s a ∧ NoFailureAfterIngestEvents s a)
      (Sys.start db eventStore transactionStore) s) :
    StoresAgree s :=
  (Reachable.induction backend (StoreInv backend) (StoreInv.start hdb he ht)
    (fun _ _ _ hinv ha hs => hinv.step hbackend ha hs) h).storesAgree

theorem reachable_stores_agree_bootstrap :
    (∀ n, (eventLedgers n).ledgerSequence = n) ∧ ([] : List UInt32).Chain' (fun a b => b = a + 1) ∧
      newestLedger (emptyWindow : LedgerBucketWindow (List (Event Nat))) = none ∧
      newestLedger (emptyWindow : LedgerBucketWindow (List (LedgerTransaction Nat))) = none ∧
      ∃ s, eventDbStart.steps eventLedgers bootstrapRun = some s ∧
        s.main = .ingest 66 .ingestEvents ∧ newestLedger s.eventStore.eventsByLedger = some 65 ∧
        Reachable eventLedgers (fun s a => JoinsFill s a ∧ NoFailureAfterIngestEvents s a)
          eventDbStart s ∧ StoresAgree s := by
  refine ⟨fun _ => rfl, List.chain'_nil, rfl, rfl, _, rfl, rfl, rfl, ?h,
    reachable_stores_agree (fun _ => rfl) List.chain'_nil (.inl ?e) (.inl ?t) ?h⟩
  case e | t => rfl
  exact reachable_bootstrapRun_restricted rfl

/-- From a DB at ledger 4: `run` ingests ledger 5 up to `Commit`, which fails. -/
def commitFailsRun : List Action := List.replicate 11 (.main .ok) ++ [.main .err]

/-- `commitFailsRun`, then the retry, which streams from ledger 5 again up to `IngestEvents`. -/
def retryAfterCommitFailsRun : List Action := commitFailsRun ++ List.replicate 12 (.main .ok)

/-- Without `NoFailureAfterIngestEvents`: once `Commit(5)` has failed, `run` has returned with
    both stores at ledger 5 and the DB at 4; the retry gives ledger 5 to `IngestEvents` again, and
    the window panics. -/
theorem ingest_failure_after_events_panics :
    ∃ s₁ s₂, Reachable emptyLedgers (fun _ _ => True) dbAt4Start s₁ ∧ s₁.main = .nextBackOff ∧
      newestLedger s₁.eventStore.eventsByLedger = some 5 ∧
      newestLedger s₁.transactionStore.transactionsByLedger = some 5 ∧
      s₁.db.getLatestLedgerSequence = some 4 ∧
      Reachable emptyLedgers (fun _ _ => True) dbAt4Start s₂ ∧
      s₂.main = .panicked "ledgers not contiguous" :=
  ⟨_, _, reachable_of_steps emptyLedgers commitFailsRun rfl, rfl, rfl, rfl, rfl,
    reachable_of_steps emptyLedgers retryAfterCommitFailsRun rfl, rfl⟩

end SorobanRpc.Ingest
