import SorobanRpc.Ingest.Invariants

set_option autoImplicit false

/-! # Retries and `Close`

`NewService` runs `run` under `RetryNotify` with `WithMaxRetries(NewConstantBackOff(1s), 5)` and
`WithContext(…, ctx)`; once `RetryNotify` has returned `err`, its goroutine calls `Fatal` when
`err` is not `context.Canceled`. `RetryNotify` returns `run`'s error only when its five retries are
made and the context is live; it returns `context.Canceled` once the context is cancelled. So the
service stops the process with `Fatal` only after five retries, and only if `Close` was not called
before `RetryNotify` gave up: a run that ends in `Fatal` is a run without `Close` up to the return
of `RetryNotify`, followed by anything, `Close` included (`steps_fatal_retries_spent`). `Close` can
still come between the return and `Fatal`. This holds in every run, whatever the calls return and
however the fill goroutines interleave.

Only `RetryNotify` reads or changes the retries, and only `Close` changes the context: every other
call keeps both (`Sys.KeepsRetries`). `Sys.step_retries` says once what a step can do to them, and
the run lemmas `RetryBudget.steps` and `Sys.steps_split_returned` follow by induction on the
calls. -/

namespace SorobanRpc.Ingest

open Events LedgerBucketWindow

variable {α : Type} {backend : UInt32 → LedgerCloseMeta α} {s s' : Sys α} {o : Outcome}

/-! ## One step -/

/-- A call that leaves the retries and the context as they are, and neither returns from
    `RetryNotify` nor ends the goroutine. -/
structure Sys.KeepsRetries (s s' : Sys α) : Prop where
  retries : s'.retries = s.retries
  cancelled : s'.cancelled = s.cancelled
  not_returned : ∀ canceled, s'.main ≠ .returned canceled
  not_exited : ∀ fatal, s'.main ≠ .exited fatal

theorem Sys.maybeFillEntriesFromCheckpoint_keepsRetries
    (h : s.maybeFillEntriesFromCheckpoint o = some s') : s.KeepsRetries s' := by
  unfold Sys.maybeFillEntriesFromCheckpoint at h
  split at h <;> cases h <;> (try split) <;> exact ⟨rfl, rfl, fun _ => nofun, fun _ => nofun⟩

theorem Sys.run_keepsRetries (h : s.run o = some s') : s.KeepsRetries s' := by
  unfold Sys.run at h
  split at h <;> (try split at h) <;> cases h <;>
    exact ⟨rfl, rfl, fun _ => nofun, fun _ => nofun⟩

theorem Sys.ingest_keepsRetries {seq : UInt32} {step : IngestStep}
    (h : s.ingest backend seq step o = some s') : s.KeepsRetries s' := by
  rcases Sys.ingest_cases h with ⟨-, rfl⟩ | ⟨rfl, -⟩ | ⟨_, rfl, -⟩ | ⟨_, -, -, rfl⟩ |
    ⟨_, -, -, rfl⟩ | ⟨-, rfl | rfl⟩ <;> exact ⟨rfl, rfl, fun _ => nofun, fun _ => nofun⟩

/-- `RetryNotify` after a failure: a retry while fewer than five were made and the context is live;
    `run`'s error returned once five were made and the context is live. -/
theorem Sys.retryNotify_retries (h : s.retryNotify o = some s') :
    s'.cancelled = s.cancelled ∧
      (s'.retries = s.retries ∨ s.retries < 5 ∧ s'.retries = s.retries + 1) ∧
      (s'.main = .returned false → 5 ≤ s.retries ∧ s.cancelled = false) ∧
      ∀ fatal, s'.main ≠ .exited fatal := by
  unfold Sys.retryNotify at h
  split at h <;> cases h
  · split_ifs with hc hr
    · exact ⟨rfl, .inl rfl, nofun, fun _ => nofun⟩
    · exact ⟨rfl, .inr ⟨hr, rfl⟩, nofun, fun _ => nofun⟩
    · exact ⟨rfl, .inl rfl, fun _ => ⟨Nat.le_of_not_lt hr, Bool.eq_false_iff.2 hc⟩,
        fun _ => nofun⟩
  · split <;> exact ⟨rfl, .inl rfl, nofun, fun _ => nofun⟩

/-- The goroutine ends after `RetryNotify` has returned, with `Fatal` when it returned `run`'s
    error. -/
theorem Sys.fatalUnlessCanceled_retries (h : s.fatalUnlessCanceled o = some s') :
    s'.retries = s.retries ∧ s'.cancelled = s.cancelled ∧ (∀ canceled, s'.main ≠ .returned canceled) ∧
      (s'.main = .exited true → s.main = .returned false) := by
  unfold Sys.fatalUnlessCanceled at h
  split at h <;> cases h
  rename_i canceled hm
  refine ⟨rfl, rfl, fun _ => nofun, fun he => ?_⟩
  cases canceled
  · exact hm
  · cases he

/-- What one step does to the retries and the context: `Close` cancels the context, the retry
    after a failure adds one retry while fewer than five were made, `RetryNotify` returns `run`'s
    error only with five retries made and the context live, and `Fatal` is called only after that
    return. -/
theorem Sys.step_retries {a : Action} (h : s.step backend a = some s') :
    s'.cancelled = (s.cancelled || decide (a = .close)) ∧
      (s'.retries = s.retries ∨ s.retries < 5 ∧ s'.retries = s.retries + 1) ∧
      (s'.main = .returned false → s.main = .returned false ∨ 5 ≤ s.retries ∧ s'.cancelled = false) ∧
      (s'.main = .exited true → s.main = .returned false) := by
  have halive : s.main ≠ .exited true := fun hm => by
    simp only [Sys.step, Sys.dead, hm, if_true, reduceCtorEq] at h
  have keeps (hk : s.KeepsRetries s') (ha : a ≠ .close) :
      s'.cancelled = (s.cancelled || decide (a = .close)) ∧
        (s'.retries = s.retries ∨ s.retries < 5 ∧ s'.retries = s.retries + 1) ∧
        (s'.main = .returned false → s.main = .returned false ∨
          5 ≤ s.retries ∧ s'.cancelled = false) ∧
        (s'.main = .exited true → s.main = .returned false) :=
    ⟨by simp only [hk.cancelled, ha, decide_False, Bool.or_false], .inl hk.retries,
      fun hm => absurd hm (hk.not_returned false), fun hm => absurd hm (hk.not_exited true)⟩
  rcases Sys.step_cases h with ⟨o, rfl, -, hmf | hrun | hretry | hfatal⟩ | ⟨o, _, _, rfl, -, hi⟩ |
    ⟨i, o, rfl, hf⟩ | ⟨rfl, rfl⟩
  · exact keeps (Sys.maybeFillEntriesFromCheckpoint_keepsRetries hmf) nofun
  · exact keeps (Sys.run_keepsRetries hrun) nofun
  · obtain ⟨hc, hr, hret, hexit⟩ := Sys.retryNotify_retries hretry
    refine ⟨by simp only [hc, decide_False, Bool.or_false, reduceCtorEq], hr,
      fun hm => .inr ?_, fun hm => absurd hm (hexit true)⟩
    obtain ⟨h5, hc'⟩ := hret hm
    exact ⟨h5, hc.trans hc'⟩
  · obtain ⟨hr, hc, hret, hexit⟩ := Sys.fatalUnlessCanceled_retries hfatal
    exact ⟨by simp only [hc, decide_False, Bool.or_false, reduceCtorEq], .inl hr,
      fun hm => absurd hm (hret false), hexit⟩
  · exact keeps (Sys.ingest_keepsRetries hi) nofun
  · obtain ⟨c, step, -, ⟨pc, -, rfl⟩ | ⟨-, ok, rfl⟩⟩ := Sys.fillEntriesFromCheckpoint_cases hf <;>
      exact ⟨by simp only [decide_False, Bool.or_false, reduceCtorEq], .inl rfl, .inl,
        fun hm => absurd hm halive⟩
  · exact ⟨by simp only [decide_True, Bool.or_true], .inl rfl, .inl, fun hm => absurd hm halive⟩

/-! ## Whole runs -/

/-- At most five retries are made, and `RetryNotify` has returned `run`'s error, or `Fatal` been
    called, only with five made. -/
structure RetryBudget (s : Sys α) : Prop where
  retries_le : s.retries ≤ 5
  returned : s.main = .returned false → s.retries = 5
  fatal : s.main = .exited true → s.retries = 5

theorem RetryBudget.start (db : Db) (eventStore : MemoryStore α)
    (transactionStore : TransactionStore α) :
    RetryBudget (Sys.start db eventStore transactionStore) :=
  ⟨Nat.zero_le _, nofun, nofun⟩

theorem RetryBudget.step {a : Action} (hb : RetryBudget s) (h : s.step backend a = some s') :
    RetryBudget s' := by
  obtain ⟨-, hr, hret, hexit⟩ := Sys.step_retries h
  -- the retries never pass five, and stay at five once there
  obtain ⟨hle, hkeep⟩ : s'.retries ≤ 5 ∧ (s.retries = 5 → s'.retries = 5) := by
    have := hb.retries_le
    rcases hr with hr | ⟨_, hr⟩ <;> omega
  refine ⟨hle, fun hm => ?_, fun hm => hkeep (hb.returned (hexit hm))⟩
  rcases hret hm with hm | ⟨h5, -⟩
  · exact hkeep (hb.returned hm)
  · exact hkeep (le_antisymm hb.retries_le h5)

theorem RetryBudget.steps {as : List Action} (hb : RetryBudget s)
    (h : s.steps backend as = some s') : RetryBudget s' := by
  induction as generalizing s with
  | nil => cases h; exact hb
  | cons a as ih =>
    obtain ⟨s₁, h₁, h⟩ := Option.bind_eq_some.1 h
    exact ih (hb.step h₁) h

/-- A run that reaches the return of `run`'s error by `RetryNotify`, or `Fatal`, from a state
    before them, passes through that return: up to it, the context was live and `Close` was not
    called. -/
theorem Sys.steps_split_returned {as : List Action} (h : s.steps backend as = some s')
    (hs : s.main ≠ .returned false ∧ s.main ≠ .exited true)
    (hs' : s'.main = .returned false ∨ s'.main = .exited true) :
    ∃ pre post r, as = pre ++ post ∧ s.steps backend pre = some r ∧ r.main = .returned false ∧
      s.cancelled = false ∧ .close ∉ pre := by
  induction as generalizing s with
  | nil => cases h; exact hs'.elim (absurd · hs.1) (absurd · hs.2)
  | cons a as ih =>
    obtain ⟨s₁, h₁, h⟩ := Option.bind_eq_some.1 h
    obtain ⟨hc, -, hret, hexit⟩ := Sys.step_retries h₁
    have hlive (hc₁ : s₁.cancelled = false) : s.cancelled = false ∧ a ≠ .close := by
      rw [hc, Bool.or_eq_false_iff, decide_eq_false_iff_not] at hc₁
      exact hc₁
    by_cases hr₁ : s₁.main = .returned false
    · obtain ⟨hc₀, ha⟩ := hlive ((hret hr₁).resolve_left hs.1).2
      refine ⟨[a], as, s₁, rfl, ?_, hr₁, hc₀, by simpa using Ne.symm ha⟩
      simp only [Sys.steps, h₁, Option.some_bind]
    · have he₁ : s₁.main ≠ .exited true := fun he => hs.1 (hexit he)
      obtain ⟨pre, post, r, rfl, hpre, hr, hc₁, hclose⟩ := ih h ⟨hr₁, he₁⟩
      obtain ⟨hc₀, ha⟩ := hlive hc₁
      refine ⟨a :: pre, post, r, rfl, ?_, hr, hc₀, ?_⟩
      · simp only [Sys.steps, h₁, Option.some_bind, hpre]
      · simpa [Ne.symm ha] using hclose

/-- In every run of the service, whatever its calls return and however its goroutines
    interleave: if the goroutine of `NewService` has stopped the process with `Fatal`, five retries
    were made, and the run is a part without `Close` that ends with `RetryNotify` returning `run`'s
    error, followed by the rest. -/
theorem steps_fatal_retries_spent (backend : UInt32 → LedgerCloseMeta α) {db : Db}
    {eventStore : MemoryStore α} {transactionStore : TransactionStore α} {as : List Action}
    (h : (Sys.start db eventStore transactionStore).steps backend as = some s)
    (hfatal : s.main = .exited true) :
    s.retries = 5 ∧ ∃ pre post r, as = pre ++ post ∧ .close ∉ pre ∧
      (Sys.start db eventStore transactionStore).steps backend pre = some r ∧
      r.main = .returned false := by
  refine ⟨((RetryBudget.start db eventStore transactionStore).steps h).fatal hfatal, ?_⟩
  obtain ⟨pre, post, r, hsplit, hpre, hr, -, hclose⟩ :=
    Sys.steps_split_returned h ⟨nofun, nofun⟩ (.inr hfatal)
  exact ⟨pre, post, r, hsplit, hclose, hpre, hr⟩

/-- From a DB at ledger 4, `run` fails at its first call six times in a row; `Close` is called
    after `RetryNotify` has returned the sixth error, and before the goroutine calls `Fatal`. -/
def closeBeforeFatal : List Action :=
  (List.replicate 5 [.main .err, .main .ok, .main .ok]).flatten ++
    [.main .err, .main .ok, .close, .main .ok]

theorem steps_fatal_retries_spent_closeBeforeFatal :
    dbAt4Start.steps emptyLedgers closeBeforeFatal =
        some { dbAt4Start with main := .exited true, retries := 5, cancelled := true } ∧
      Action.close ∈ closeBeforeFatal ∧
      ({ dbAt4Start with main := .exited true, retries := 5, cancelled := true } : Sys Unit).main =
        .exited true ∧
      (({ dbAt4Start with main := .exited true, retries := 5, cancelled := true } : Sys Unit).retries =
          5 ∧ ∃ pre post r, closeBeforeFatal = pre ++ post ∧ .close ∉ pre ∧
        dbAt4Start.steps emptyLedgers pre = some r ∧ r.main = .returned false) :=
  ⟨rfl, by decide, rfl, steps_fatal_retries_spent emptyLedgers
    (rfl : dbAt4Start.steps emptyLedgers closeBeforeFatal =
      some { dbAt4Start with main := .exited true, retries := 5, cancelled := true }) rfl⟩

end SorobanRpc.Ingest
