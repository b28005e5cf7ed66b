import SorobanRpc.Ingest.Invariants

set_option autoImplicit false

/-! # The older service: `run` called once

`ingest/service.go` holds an older `NewService`. Its `run`, `maybeFillEntriesFromCheckpoint`,
`fillEntriesFromCheckpoint`, `ingest` and `ingestLedgerCloseMeta` are those of the newer one; its
goroutine calls `run` once, with no `RetryNotify` around it, and calls `Fatal` on the error unless
it is `context.Canceled`. That is what `RetryNotify` comes to once its retries are spent: it returns
`run`'s error, or `context.Canceled` if the context was cancelled (`Sys.retryNotify_spent`), so the
older service is `Sys.step` from `Sys.startOnce`, a start with no retry left.

Without the retry, neither failure of the newer service happens, in any run:

* the DB's commits stay contiguous and at most one fill runs (`reachable_once_commits_contiguous`;
  the newer service needs `JoinsFill` for this);
* no store panics, and `IngestEvents` is always given the ledger after the event store's newest one
  (`reachable_once_no_panic`; the newer service needs `NoFailureAfterIngestEvents` as well).

While `run` runs, a state is in one of the newer service's invariants (`FillInv`, `StoreInv`),
which every step they admit keeps. The one step they do not admit is a failure of `run`, after which
the goroutine only stops (`Stopped`): a fill still running is then the only one, and started on
the empty DB. `OnceInv` is the disjunction of the two phases, over either invariant. -/

namespace SorobanRpc.Ingest

open Events LedgerBucketWindow

variable {α : Type}

/-- The older `NewService`: `run` about to start, with no retry left. -/
def Sys.startOnce (db : Db) (eventStore : MemoryStore α) (transactionStore : TransactionStore α) :
    Sys α :=
  { Sys.start db eventStore transactionStore with retries := 5 }

/-- After `run` has returned: the goroutine only stops, the DB's commits are contiguous, and a fill
    still running is the only one and started on the empty DB. -/
structure Stopped (s : Sys α) : Prop where
  main : s.main = .nextBackOff ∨ (∃ canceled, s.main = .returned canceled) ∨
    ∃ fatal, s.main = .exited fatal
  contiguous : s.db.commits.Chain' fun a b => b = a + 1
  running : ∀ (i : Nat) (f : Fill), s.fills[i]? = some f → f.running →
    s.db.commits = [] ∧ ∀ (j : Nat) (g : Fill), s.fills[j]? = some g → g.running → j = i

/-- The invariant of the older service, over an invariant `Inv` of the newer one while `run` runs. -/
structure OnceInv (Inv : Sys α → Prop) (s : Sys α) : Prop where
  spent : 5 ≤ s.retries
  awake : s.main ≠ .sleep
  phase : Inv s ∨ Stopped s

section Once

variable {backend : UInt32 → LedgerCloseMeta α} {s s' : Sys α} {o : Outcome}

/-- With its retries spent, `RetryNotify` returns at `run`'s error, as the older `NewService`'s
    call of `run` does: with `context.Canceled` if the context was cancelled. -/
theorem Sys.retryNotify_spent (hr : 5 ≤ s.retries) (hs : s.main ≠ .sleep)
    (h : s.retryNotify o = some s') :
    s.main = .nextBackOff ∧ s' = { s with main := .returned s.cancelled } := by
  unfold Sys.retryNotify at h
  split at h
  · rename_i hm
    cases h
    refine ⟨hm, ?_⟩
    cases s.cancelled <;> simp [Nat.not_lt.2 hr]
  · rename_i hm
    exact absurd hm hs
  · cases h

/-- A step from a state with no retry left leaves none, and does not sleep. -/
theorem Sys.spent_step (hr : 5 ≤ s.retries) (hs : s.main ≠ .sleep) {a : Action}
    (h : s.step backend a = some s') : 5 ≤ s'.retries ∧ s'.main ≠ .sleep := by
  rcases Sys.step_cases h with ⟨o, rfl, -, hf | hf | hf | hf⟩ | ⟨o, seq, step, rfl, -, hf⟩ |
    ⟨i, o, rfl, hf⟩ | ⟨rfl, rfl⟩
  · unfold Sys.maybeFillEntriesFromCheckpoint at hf
    split at hf <;> cases hf
    · split <;> exact ⟨hr, nofun⟩
    all_goals exact ⟨hr, nofun⟩
  · unfold Sys.run at hf
    split at hf
    case h_4 => split at hf <;> cases hf <;> exact ⟨hr, nofun⟩
    all_goals cases hf <;> exact ⟨hr, nofun⟩
  · obtain ⟨-, rfl⟩ := Sys.retryNotify_spent hr hs hf
    exact ⟨hr, nofun⟩
  · unfold Sys.fatalUnlessCanceled at hf
    split at hf <;> cases hf
    exact ⟨hr, nofun⟩
  · rcases Sys.ingest_cases hf with ⟨-, rfl⟩ | ⟨rfl, -⟩ | ⟨msg, rfl, -⟩ | ⟨es, -, -, rfl⟩ |
      ⟨ts, -, -, rfl⟩ | ⟨-, rfl | rfl⟩ <;> exact ⟨hr, nofun⟩
  · obtain ⟨c, step, -, ⟨pc, -, rfl⟩ | ⟨-, ok, rfl⟩⟩ := Sys.fillEntriesFromCheckpoint_cases hf <;>
      exact ⟨hr, hs⟩
  · exact ⟨hr, hs⟩

/-- A call of the goroutine of `NewService` that fails makes `run` return its error. -/
theorem Sys.step_err (h : s.step backend (.main .err) = some s') : s' = s.fail := by
  rcases Sys.step_cases h with ⟨o, ho, -, hf | hf | hf | hf⟩ | ⟨o, seq, step, ho, -, hf⟩ |
    ⟨i, o, ho, -⟩ | ⟨ho, -⟩ <;> cases ho
  · unfold Sys.maybeFillEntriesFromCheckpoint at hf
    split at hf <;> (try cases hf) <;> first | rfl | contradiction
  · unfold Sys.run at hf
    split at hf <;> (try cases hf) <;> first | rfl | contradiction
  · unfold Sys.retryNotify at hf
    split at hf <;> (try cases hf) <;> contradiction
  · unfold Sys.fatalUnlessCanceled at hf
    split at hf <;> contradiction
  · cases step <;> dsimp only [Sys.ingest] at hf <;> cases hf <;> rfl

/-- When `run` returns, the one fill it waited for may still run, on the empty DB. -/
theorem FillInv.stopped_fail (hinv : FillInv s) : Stopped s.fail :=
  ⟨.inl rfl, hinv.contiguous, fun i f hf hfr =>
    ⟨(hinv.running i f hf hfr).2, fun j g hg hgr => hinv.running_eq j i g f hg hgr hf hfr⟩⟩

/-- Once stopped, the goroutine of `NewService` only exits, and a fill still running commits its
    checkpoint on the empty DB. -/
theorem Stopped.step (hst : Stopped s) (hr : 5 ≤ s.retries) {a : Action}
    (h : s.step backend a = some s') : Stopped s' := by
  have hs : s.main ≠ .sleep := by
    rcases hst.main with hm | ⟨_, hm⟩ | ⟨_, hm⟩ <;> rw [hm] <;> nofun
  rcases Sys.step_cases h with ⟨o, rfl, -, hc | hc | hc | hc⟩ | ⟨o, seq, step, rfl, hm, -⟩ |
    ⟨i, o, rfl, hc⟩ | ⟨rfl, rfl⟩
  · rcases hst.main with hm | ⟨_, hm⟩ | ⟨_, hm⟩ <;>
      simp [Sys.maybeFillEntriesFromCheckpoint, hm] at hc
  · rcases hst.main with hm | ⟨_, hm⟩ | ⟨_, hm⟩ <;> simp [Sys.run, hm] at hc
  · obtain ⟨-, rfl⟩ := Sys.retryNotify_spent hr hs hc
    exact ⟨.inr (.inl ⟨_, rfl⟩), hst.contiguous, hst.running⟩
  · unfold Sys.fatalUnlessCanceled at hc
    split at hc <;> cases hc
    exact ⟨.inr (.inr ⟨_, rfl⟩), hst.contiguous, hst.running⟩
  · rcases hst.main with hm' | ⟨_, hm'⟩ | ⟨_, hm'⟩ <;> rw [hm'] at hm <;> cases hm
  · obtain ⟨c, step, hf, ⟨pc, -, rfl⟩ | ⟨rfl, ok, rfl⟩⟩ := Sys.fillEntriesFromCheckpoint_cases hc
    · -- the fill moves on or fails: the running fills are among those before
      obtain ⟨hempty, hone⟩ := hst.running i _ hf rfl
      have hat : ∀ k g', (s.fills.set i ⟨c, pc⟩)[k]? = some g' → g'.running → k = i :=
        fun k g' hg' hr' => by
          rw [getElem?_set_of_getElem? hf] at hg'
          split_ifs at hg' with hik
          · exact hik.symm
          · exact hone k g' hg' hr'
      exact ⟨hst.main, hst.contiguous, fun j g hg hgr =>
        ⟨hempty, fun k g' hg' hr' => (hat k g' hg' hr').trans (hat j g hg hgr).symm⟩⟩
    · -- the fill commits on the empty DB, and no fill runs any more
      obtain ⟨hempty, hone⟩ := hst.running i _ hf rfl
      refine ⟨hst.main, chain'_append_succ hst.contiguous (.inr hempty), fun j g hg hgr => ?_⟩
      rw [getElem?_set_of_getElem? hf] at hg
      split_ifs at hg with hij
      · cases hg
        cases hgr
      · exact absurd (hone j g hg hgr) (Ne.symm hij)
  · exact ⟨hst.main, hst.contiguous, hst.running⟩

end Once

section Phases

variable {backend : UInt32 → LedgerCloseMeta α} (Inv : Sys α → Prop)
  (hfill : ∀ s, Inv s → FillInv s)
  (hstep : ∀ s a s', Inv s → JoinsFill s a ∧ NoFailureAfterIngestEvents s a →
    s.step backend a = some s' → Inv s')
include hfill hstep

/-- Every step of the older service keeps `OnceInv`: a step the newer invariant admits keeps it,
    and the only other one is a failure of `run`. -/
theorem OnceInv.step {s s' : Sys α} (hinv : OnceInv Inv s) {a : Action}
    (h : s.step backend a = some s') : OnceInv Inv s' := by
  obtain ⟨hr, hs⟩ := Sys.spent_step hinv.spent hinv.awake h
  refine ⟨hr, hs, ?_⟩
  rcases hinv.phase with hi | hst
  · by_cases ha : JoinsFill s a ∧ NoFailureAfterIngestEvents s a
    · exact .inl (hstep s a s' hi ha h)
    · have herr : a = .main .err := by
        cases a with
        | main o => cases o <;> first | rfl | exact (ha ⟨trivial, trivial⟩).elim
        | _ => exact (ha ⟨trivial, trivial⟩).elim
      subst herr
      rw [Sys.step_err h]
      exact .inr (hfill s hi).stopped_fail
  · exact .inr (hst.step hinv.spent h)

end Phases

theorem FillInv.startOnce {db : Db} {eventStore : MemoryStore α}
    {transactionStore : TransactionStore α} (hdb : db.commits.Chain' fun a b => b = a + 1) :
    FillInv (Sys.startOnce db eventStore transactionStore) :=
  ⟨hdb, fun _ _ hf => by simp [Sys.startOnce, Sys.start] at hf, trivial⟩

/-- In every run of the older service, from a DB whose commits are contiguous, the DB's commits
    stay contiguous, and at most one fill goroutine runs at a time. -/
theorem reachable_once_commits_contiguous {backend : UInt32 → LedgerCloseMeta α} {db : Db}
    {eventStore : MemoryStore α} {transactionStore : TransactionStore α}
    (hdb : db.commits.Chain' fun a b => b = a + 1) {s : Sys α}
    (h : Reachable backend (fun _ _ => True) (Sys.startOnce db eventStore transactionStore) s) :
    s.db.commits.Chain' (fun a b => b = a + 1) ∧
      ∀ (i j : Nat) (f g : Fill), s.fills[i]? = some f → f.running → s.fills[j]? = some g →
        g.running → i = j := by
  have hinv : OnceInv FillInv s := Reachable.induction backend _
    ⟨le_refl 5, nofun, .inl (FillInv.startOnce hdb)⟩
    (fun _ _ _ hinv _ hs => hinv.step FillInv (fun _ => id)
      (fun _ _ _ hi ha hs => hi.step ha.1 hs) hs) h
  rcases hinv.phase with hi | hst
  · exact ⟨hi.contiguous, hi.running_eq⟩
  · exact ⟨hst.contiguous, fun i j f g hf hfr hg hgr => ((hst.running i f hf hfr).2 j g hg hgr).symm⟩

/-- The older service on an empty DB, with empty stores, over `eventLedgers`. -/
def eventDbStartOnce : Sys Nat := Sys.startOnce ⟨[]⟩ ⟨emptyWindow⟩ ⟨emptyWindow⟩

/-- The root is at 63 and fill 0 starts; `PrepareRange(64)` fails, so `run` returns; the fill then
    commits checkpoint 63, and the goroutine calls `Fatal`. -/
def failedPrepareRun : List Action :=
  [.main .ok, .main (.root 63), .main .err] ++ List.replicate 5 (.fill 0 .ok) ++
    [.main .ok, .main .ok]

theorem reachable_once_commits_contiguous_failedPrepare :
    ([] : List UInt32).Chain' (fun a b => b = a + 1) ∧
      ∃ s, eventDbStartOnce.steps eventLedgers failedPrepareRun = some s ∧
        s.main = .exited true ∧ s.db.commits = [63] ∧
        Reachable eventLedgers (fun _ _ => True) eventDbStartOnce s ∧
        (s.db.commits.Chain' (fun a b => b = a + 1) ∧
          ∀ (i j : Nat) (f g : Fill), s.fills[i]? = some f → f.running → s.fills[j]? = some g →
            g.running → i = j) := by
  refine ⟨List.chain'_nil, _, rfl, rfl, rfl, ?h, reachable_once_commits_contiguous List.chain'_nil ?h⟩
  exact reachable_of_steps eventLedgers failedPrepareRun rfl

/-- In every run of the older service, on a backend that serves each ledger under its own
    sequence, from a DB with contiguous commits and stores that hold nothing beyond it, no store
    panics, and `IngestEvents` is always given the ledger after the event store's newest one. -/
theorem reachable_once_no_panic {backend : UInt32 → LedgerCloseMeta α}
    (hbackend : ∀ n, (backend n).ledgerSequence = n) {db : Db} {eventStore : MemoryStore α}
    {transactionStore : TransactionStore α} (hdb : db.commits.Chain' fun a b => b = a + 1)
    (he : newestLedger eventStore.eventsByLedger = none ∨
      newestLedger eventStore.eventsByLedger = db.getLatestLedgerSequence)
    (ht : newestLedger transactionStore.transactionsByLedger = none ∨
      newestLedger transactionStore.transactionsByLedger = db.getLatestLedgerSequence)
    {s : Sys α}
    (h : Reachable backend (fun _ _ => True) (Sys.startOnce db eventStore transactionStore) s) :
    (∀ msg, s.main ≠ .panicked msg) ∧
      ∀ seq, s.main = .ingest seq .ingestEvents →
        newestLedger s.eventStore.eventsByLedger = none ∨
          newestLedger s.eventStore.eventsByLedger = some (seq - 1) := by
  have hinv : OnceInv (StoreInv backend) s := Reachable.induction backend _
    ⟨le_refl 5, nofun, .inl ⟨FillInv.startOnce hdb, fun _ => nofun, he, ht, fun _ => nofun⟩⟩
    (fun _ _ _ hinv _ hs => hinv.step (StoreInv backend) (fun _ hi => hi.fillInv)
      (fun _ _ _ hi ha hs => hi.step hbackend ha hs) hs) h
  rcases hinv.phase with hi | hst
  · exact ⟨hi.storesAgree.alive, hi.storesAgree.follows⟩
  · refine ⟨fun msg hm => ?_, fun seq hm => ?_⟩ <;>
      rcases hst.main with hm' | ⟨_, hm'⟩ | ⟨_, hm'⟩ <;> rw [hm'] at hm <;> cases hm

/-- Where the newer service retries after `Commit` fails and then panics, the older one stops with
    `Fatal`. -/
example : ((Sys.startOnce ⟨[4]⟩ ⟨emptyWindow⟩ ⟨emptyWindow⟩ : Sys Unit).steps emptyLedgers
    (List.replicate 11 (.main .ok) ++ [.main .err, .main .ok, .main .ok])).map Sys.main =
      some (.exited true) := rfl

/-- The root is at 63 and fill 0 starts; `PrepareRange(64)` returns, the fill commits checkpoint 63
    and sends, and `run` streams ledgers 64 and 65 and goes through `ingest(66)` up to
    `IngestEvents`. -/
def onceStreamRun : List Action :=
  [.main .ok, .main (.root 63), .main .ok] ++ List.replicate 5 (.fill 0 .ok) ++
    List.replicate (1 + 9 * 2 + 6) (.main .ok)

theorem reachable_once_no_panic_stream :
    (∀ n, (eventLedgers n).ledgerSequence = n) ∧ ([] : List UInt32).Chain' (fun a b => b = a + 1) ∧
      newestLedger (emptyWindow : LedgerBucketWindow (List (Event Nat))) = none ∧
      newestLedger (emptyWindow : LedgerBucketWindow (List (LedgerTransaction Nat))) = none ∧
      ∃ s, eventDbStartOnce.steps eventLedgers onceStreamRun = some s ∧
        s.main = .ingest 66 .ingestEvents ∧ s.db.commits = [63, 64, 65] ∧
        Reachable eventLedgers (fun _ _ => True) eventDbStartOnce s ∧
        ((∀ msg, s.main ≠ .panicked msg) ∧
          ∀ seq, s.main = .ingest seq .ingestEvents →
            newestLedger s.eventStore.eventsByLedger = none ∨
              newestLedger s.eventStore.eventsByLedger = some (seq - 1)) := by
  refine ⟨fun _ => rfl, List.chain'_nil, rfl, rfl, _, rfl, rfl, rfl, ?h,
    reachable_once_no_panic (fun _ => rfl) List.chain'_nil (.inl ?e) (.inl ?t) ?h⟩
  case e | t => rfl
  exact reachable_of_steps eventLedgers onceStreamRun rfl

end SorobanRpc.Ingest
