import SorobanRpc.LedgerEntryStorage.Batching

set_option autoImplicit false

/-! # The updater implements the table update

A writer's calls on an updater, then `Done`, are meant to update the `ledger_entries` table as
the calls say, one after the other, and to set `LatestLedgerSequence`, all at once or not at all.
The abstract model is `applyChanges`: encoded changes applied to a table in order, so that the
last change on a key wins; `expectedTables` adds the new ledger sequence.

The updater is tied to it by `pending`: the `ledger_entries` table the transaction sees,
overridden by the buffered batch. Buffering a change updates `pending` as the abstract model
does (`pending_insert`), and a flush writes exactly `pending` whatever the map's iteration order
(`view_flush`). So each successful call is one abstract step (`Call.run_pending`), a run of calls
is a run of the abstract model (`runCalls_pending`), and `Done` commits `pending` with the new
sequence (`Done_committed`). Every method but the commit only runs statements inside the
transaction (`KeepsTx`), so an error before the commit leaves the database as it was.
`updateLedgerEntries_spec` puts the two together. -/

namespace SorobanRpc.LedgerEntryStorage

variable {K E : Type}

/-! ## The abstract update -/

/-- The change a call asks for: the encoded key and the encoded entry, `none` for a delete. -/
def Call.encode (env : Env K E) : Call K E → Except GoError (String × Option String)
  | .upsert key entry => do
    let encodedKey ← encodeLedgerKey env key
    let encodedEntry ← env.marshalEntry entry
    pure (encodedKey, some encodedEntry)
  | .delete key => do
    let encodedKey ← encodeLedgerKey env key
    pure (encodedKey, none)

/-- The abstract update of a table: the changes applied in order. -/
def applyChanges (t : Table) (changes : List (String × Option String)) : Table :=
  changes.foldl (fun t change => Function.update t change.1 change.2) t

/-- The database after an update at ledger `sequence` that made `changes`. -/
def expectedTables (db : Tables) (changes : List (String × Option String)) (sequence : UInt32) :
    Tables :=
  Function.update
    (Function.update db ledgerEntriesTableName (applyChanges (db ledgerEntriesTableName) changes))
    metaTableName
    (Function.update (db metaTableName) latestLedgerSequenceMetaKey (some (sprintfDecimal sequence)))

/-- The `ledger_entries` table the updater will write: the view overridden by the batch. -/
def LedgerUpdaterTx.pending (l : LedgerUpdaterTx) : Table :=
  fun k => (l.keyToEntryBatch.lookup k).getD (l.tx.view ledgerEntriesTableName k)

theorem metaTableName_ne : metaTableName ≠ ledgerEntriesTableName := by decide

/-! ## Flushes write `pending` -/

/-- The `REPLACE` and the `DELETE` of a flush, on a map whose keys are distinct, write the map
    over the table. -/
theorem deleteRows_replaceRows (order : List (Σ _ : String, Option String))
    (hnd : order.NodupKeys) (t : Table) :
    deleteRows (replaceRows t (upsertRowsOf order)) (deleteKeysOf order) =
      fun k => (order.dlookup k).getD (t k) := by
  induction order generalizing t with
  | nil => funext k; simp
  | cons e order ih =>
    obtain ⟨k₀, _ | v⟩ := e
    · obtain ⟨-, hnd⟩ := List.nodupKeys_cons.1 hnd
      funext k
      have := congrFun (ih hnd t) k
      simp only [upsertRowsOf_cons_none, deleteKeysOf_cons_none]
      by_cases hk₀ : k = k₀
      · subst hk₀; simp [deleteRows, List.dlookup_cons_eq]
      · rw [List.dlookup_cons_ne _ _ hk₀, ← this]
        simp [deleteRows, hk₀]
    · obtain ⟨hk, hnd⟩ := List.nodupKeys_cons.1 hnd
      funext k
      have := congrFun (ih hnd (Function.update t k₀ (some v))) k
      simp only [upsertRowsOf_cons_some, deleteKeysOf_cons_some, replaceRows_cons]
      rw [this]
      by_cases hk₀ : k = k₀
      · subst hk₀; simp [List.dlookup_cons_eq, List.dlookup_eq_none.2 hk]
      · rw [List.dlookup_cons_ne _ _ hk₀, Function.update_noteq hk₀]

theorem view_run_flushStmts (tx : SqlTx) (order : List (Σ _ : String, Option String)) :
    (tx.run (flushStmts order)).view =
      Function.update tx.view ledgerEntriesTableName
        (deleteRows (replaceRows (tx.view ledgerEntriesTableName) (upsertRowsOf order))
          (deleteKeysOf order)) := by
  simp only [flushStmts, SqlTx.run, List.foldl_append]
  split_ifs with h₁ h₂ h₂ <;>
    simp_all [Stmt.apply, List.length_eq_zero, replaceRows, Function.update_idem]

section Updater

variable (env : Env K E) (hperm : ∀ log batch, (env.mapOrder log batch).Perm batch.entries)
include hperm

/-- Whatever the map's iteration order, a flush writes `pending` into `ledger_entries` and
    changes no other table. -/
theorem view_flush (l : LedgerUpdaterTx) :
    (l.tx.run (flushStmts (env.mapOrder l.tx.log l.keyToEntryBatch))).view =
      Function.update l.tx.view ledgerEntriesTableName l.pending := by
  have hp := hperm l.tx.log l.keyToEntryBatch
  have hnd := (List.perm_nodupKeys hp).2 l.keyToEntryBatch.nodupKeys
  rw [view_run_flushStmts, deleteRows_replaceRows _ hnd]
  exact congrArg _ (funext fun k => by rw [List.perm_dlookup k hnd l.keyToEntryBatch.nodupKeys hp]; rfl)

omit hperm in
theorem pending_insert (l : LedgerUpdaterTx) (key : String) (entry : Option String) :
    { l with keyToEntryBatch := l.keyToEntryBatch.insert key entry }.pending =
      Function.update l.pending key entry := by
  funext k
  by_cases hk : k = key
  · subst hk; simp [LedgerUpdaterTx.pending, AList.lookup_insert]
  · simp [LedgerUpdaterTx.pending, AList.lookup_insert_ne hk, hk]

/-- A flush that empties the map keeps `pending`. -/
theorem pending_flush (l : LedgerUpdaterTx) :
    { l with
      tx := l.tx.run (flushStmts (env.mapOrder l.tx.log l.keyToEntryBatch))
      keyToEntryBatch := ∅ }.pending = l.pending := by
  funext k
  simp [LedgerUpdaterTx.pending, view_flush env hperm l, AList.lookup_empty]

/-! ## Calls are steps of the abstract update -/

omit hperm in
/-- `l'` differs from `l` at most in its batch and in the `ledger_entries` table it sees. -/
structure LedgerUpdaterTx.Agrees (l l' : LedgerUpdaterTx) : Prop where
  view_ne : ∀ t, t ≠ ledgerEntriesTableName → l'.tx.view t = l.tx.view t
  committed : l'.tx.committed = l.tx.committed
  status : l'.tx.status = l.tx.status
  forLedgerSequence : l'.forLedgerSequence = l.forLedgerSequence

omit hperm in
theorem LedgerUpdaterTx.Agrees.refl (l : LedgerUpdaterTx) : l.Agrees l :=
  ⟨fun _ _ => rfl, rfl, rfl, rfl⟩

omit hperm in
theorem LedgerUpdaterTx.Agrees.trans {l₁ l₂ l₃ : LedgerUpdaterTx} (h₁ : l₁.Agrees l₂)
    (h₂ : l₂.Agrees l₃) : l₁.Agrees l₃ :=
  ⟨fun t ht => (h₂.view_ne t ht).trans (h₁.view_ne t ht), h₂.committed.trans h₁.committed,
    h₂.status.trans h₁.status, h₂.forLedgerSequence.trans h₁.forLedgerSequence⟩

/-- Buffering `(key, entry)`, then flushing and emptying the map or not, is the abstract step at
    `key`. -/
theorem pending_buffer (l : LedgerUpdaterTx) (key : String) (entry : Option String) (flush : Prop)
    [Decidable flush] :
    let batch := l.keyToEntryBatch.insert key entry
    let l' := if flush then
        { l with tx := l.tx.run (flushStmts (env.mapOrder l.tx.log batch)), keyToEntryBatch := ∅ }
      else { l with keyToEntryBatch := batch }
    l'.pending = Function.update l.pending key entry ∧ l.Agrees l' := by
  dsimp only
  split_ifs
  · have hl := view_flush env hperm { l with keyToEntryBatch := l.keyToEntryBatch.insert key entry }
    refine ⟨(pending_flush env hperm _).trans (pending_insert l key entry), fun t ht => ?_,
      rfl, rfl, rfl⟩
    exact (congrFun hl t).trans (Function.update_noteq ht _ _)
  · exact ⟨pending_insert l key entry, fun _ _ => rfl, rfl, rfl, rfl⟩

/-- A successful call is one step of the abstract update at the key it encodes. -/
theorem Call.run_pending {call : Call K E} {l l' : LedgerUpdaterTx}
    (h : call.run env l = .ok () l') :
    ∃ change, call.encode env = .ok change ∧
      l'.pending = Function.update l.pending change.1 change.2 ∧ l.Agrees l' := by
  cases call with
  | upsert key entry =>
    obtain ⟨k, v, hk, hv, rfl⟩ := upsertLedgerEntry_ok env (withRollback_ok h)
    exact ⟨(k, some v), by simp [Call.encode, hk, hv, bind, Except.bind, pure, Except.pure],
      pending_buffer env hperm l k (some v) _⟩
  | delete key =>
    obtain ⟨k, hk, rfl⟩ := deleteLedgerEntry_ok env (withRollback_ok h)
    exact ⟨(k, none), by simp [Call.encode, hk, bind, Except.bind, pure, Except.pure],
      pending_buffer env hperm l k none _⟩

/-- A successful run of calls is a run of the abstract update. -/
theorem runCalls_pending (calls : List (Call K E)) {l l' : LedgerUpdaterTx}
    (h : runCalls env calls l = .ok () l') :
    ∃ changes, calls.mapM (Call.encode env) = .ok changes ∧
      l'.pending = applyChanges l.pending changes ∧ l.Agrees l' := by
  induction calls generalizing l with
  | nil => cases h; exact ⟨[], rfl, rfl, .refl _⟩
  | cons call calls ih =>
    obtain ⟨l₁, h₁, h₂⟩ := runCalls_cons_ok env h
    obtain ⟨change, hc, hp₁, ha₁⟩ := Call.run_pending env hperm h₁
    obtain ⟨changes, hcs, hp₂, ha₂⟩ := ih h₂
    refine ⟨change :: changes, ?_, by rw [hp₂, hp₁]; rfl, ha₁.trans ha₂⟩
    rw [List.mapM_cons, hc, hcs]
    rfl

/-! ## `Done` commits `pending` -/

omit hperm in
theorem commit_ok {l l' : LedgerUpdaterTx} {u : Unit} (h : commit env l = .ok u l') :
    l'.tx.committed = l.tx.view ∧ l'.tx.status = .committed := by
  unfold commit SqlTx.commit at h
  split_ifs at h
  cases he : env.engine l.tx.log .commit l.tx.view <;> simp only [he] at h <;> cases h
  exact ⟨rfl, rfl⟩

omit hperm in
/-- A failed commit of an open transaction rolls it back and leaves the database as it was. -/
theorem commit_error {l l' : LedgerUpdaterTx} {err : GoError} (hs : l.tx.status = .active)
    (h : commit env l = .error err l') :
    l'.tx.committed = l.tx.committed ∧ l'.tx.status = .rolledBack := by
  unfold commit SqlTx.commit at h
  rw [if_pos hs] at h
  cases he : env.engine l.tx.log .commit l.tx.view <;> simp only [he] at h <;> cases h
  exact ⟨rfl, rfl⟩

omit hperm in
theorem postWriteCommitHook_state {l : LedgerUpdaterTx} :
    (postWriteCommitHook env l).state = l := by
  unfold postWriteCommitHook
  split <;> rfl

omit hperm in
/-- A successful `done` leaves the transaction open. -/
theorem done_ok_active {l l' : LedgerUpdaterTx} {u : Unit} (h : done env l = .ok u l') :
    l'.tx.committed = l.tx.committed ∧ l'.tx.status = .active := by
  obtain ⟨_, l₁, h₁, h₂⟩ := EStateM.bind_eq_ok.1 h
  obtain ⟨_, l₂, ⟨⟩, h₃⟩ := EStateM.bind_eq_ok.1 h₂
  obtain ⟨hs, rfl⟩ := exec_ok env h₃
  have hc := (keepsTx_flushLedgerEntryBatch env l).1
  rw [h₁] at hc
  exact ⟨hc, hs⟩

/-- `done` writes `pending` and the new ledger sequence in the transaction. -/
theorem done_ok {l l' : LedgerUpdaterTx} {u : Unit} (h : done env l = .ok u l') :
    l'.tx.view = Function.update (Function.update l.tx.view ledgerEntriesTableName l.pending)
      metaTableName (Function.update (l.tx.view metaTableName) latestLedgerSequenceMetaKey
        (some (sprintfDecimal l.forLedgerSequence))) := by
  obtain ⟨_, l₁, h₁, h₂⟩ := EStateM.bind_eq_ok.1 h
  obtain ⟨_, l₂, ⟨⟩, h₃⟩ := EStateM.bind_eq_ok.1 h₂
  obtain ⟨-, rfl⟩ := exec_ok env h₃
  obtain rfl := flushLedgerEntryBatch_ok env h₁
  dsimp only
  rw [SqlTx.view_run_singleton, view_flush env hperm l]
  simp [Stmt.apply, Function.update_noteq metaTableName_ne]

/-- A successful `Done` has committed `pending` and the new ledger sequence. -/
theorem Done_ok {l l' : LedgerUpdaterTx} {u : Unit} (h : Done env l = .ok u l') :
    l'.tx.committed = Function.update (Function.update l.tx.view ledgerEntriesTableName l.pending)
      metaTableName (Function.update (l.tx.view metaTableName) latestLedgerSequenceMetaKey
        (some (sprintfDecimal l.forLedgerSequence))) ∧ l'.tx.status = .committed := by
  obtain ⟨_, l₁, h₁, h₂⟩ := EStateM.bind_eq_ok.1 h
  obtain ⟨_, l₂, h₂, h₃⟩ := EStateM.bind_eq_ok.1 h₂
  have hv := done_ok env hperm (withRollback_ok h₁)
  have hl' : l' = l₂ := by
    have := postWriteCommitHook_state env (l := l₂)
    rwa [h₃] at this
  rw [hl', (commit_ok env h₂).1, hv]
  exact ⟨rfl, (commit_ok env h₂).2⟩

/-! ## Nothing is committed before the commit -/

omit hperm in
/-- `x` never commits: it keeps the committed tables, and a transaction that was not committed
    is still not committed after it, whatever it returns. -/
def NoCommit {α : Type} (x : UpdaterM α) : Prop :=
  ∀ l, (x l).state.tx.committed = l.tx.committed ∧
    (l.tx.status ≠ .committed → (x l).state.tx.status ≠ .committed)

omit hperm in
theorem KeepsTx.noCommit {α : Type} {x : UpdaterM α} (hx : KeepsTx x) : NoCommit x :=
  fun l => ⟨(hx l).1, fun hs => (hx l).2 ▸ hs⟩

omit hperm in
theorem NoCommit.withRollback {x : UpdaterM Unit} (hx : NoCommit x) : NoCommit (withRollback x) := by
  intro l
  unfold LedgerEntryStorage.withRollback
  have := hx l
  revert this
  cases x l with
  | ok _ t => exact id
  | error e t =>
    rintro ⟨h₁, h₂⟩
    show t.tx.rollback.committed = l.tx.committed ∧
      (l.tx.status ≠ .committed → t.tx.rollback.status ≠ .committed)
    exact ⟨(SqlTx.rollback_committed t.tx).trans h₁, fun hs => SqlTx.rollback_status_ne (h₂ hs)⟩

omit hperm in
theorem NoCommit.bind {α β : Type} {x : UpdaterM α} {f : α → UpdaterM β} (hx : NoCommit x)
    (hf : ∀ a, NoCommit (f a)) : NoCommit (x >>= f) := by
  intro l
  show (EStateM.bind x f l).state.tx.committed = _ ∧ (_ → (EStateM.bind x f l).state.tx.status ≠ _)
  obtain ⟨h₁, h₂⟩ := hx l
  unfold EStateM.bind
  rcases hxl : x l with ⟨a, t⟩ | ⟨e, t⟩
  · rw [hxl] at h₁ h₂
    exact ⟨(hf a t).1.trans h₁, fun hs => (hf a t).2 (h₂ hs)⟩
  · rw [hxl] at h₁ h₂
    exact ⟨h₁, h₂⟩

omit hperm in
theorem noCommit_runCalls (calls : List (Call K E)) : NoCommit (runCalls env calls) := by
  induction calls with
  | nil => exact (keepsTx_pure ()).noCommit
  | cons call calls ih =>
    refine NoCommit.bind ?_ fun _ => ih
    cases call with
    | upsert key entry => exact (keepsTx_upsertLedgerEntry env key entry).noCommit.withRollback
    | delete key => exact (keepsTx_deleteLedgerEntry env key).noCommit.withRollback

omit hperm in
/-- A `Done` that fails and has not committed leaves the database as it was. -/
theorem Done_error {l l' : LedgerUpdaterTx} {err : GoError} (h : Done env l = .error err l')
    (hs : l'.tx.status ≠ .committed) : l'.tx.committed = l.tx.committed := by
  rcases EStateM.bind_eq_error.1 h with h₁ | ⟨_, l₁, h₁, h₂⟩
  · have := ((keepsTx_done env).noCommit.withRollback l).1
    rwa [h₁] at this
  · obtain ⟨hc₁, hs₁⟩ := done_ok_active env (withRollback_ok h₁)
    rcases EStateM.bind_eq_error.1 h₂ with h₂ | ⟨_, l₂, h₂, h₃⟩
    · exact (commit_error env hs₁ h₂).1.trans hc₁
    · have hl' : l' = l₂ := by
        have := postWriteCommitHook_state env (l := l₂)
        rwa [h₃] at this
      exact absurd (hl' ▸ (commit_ok env h₂).2) hs

/-- A `Done` that has committed, even if its hook failed afterwards, has committed `pending` and
    the new ledger sequence. -/
theorem Done_committed {l : LedgerUpdaterTx} (hs : l.tx.status ≠ .committed)
    (h : (Done env l).state.tx.status = .committed) :
    (Done env l).state.tx.committed = Function.update
      (Function.update l.tx.view ledgerEntriesTableName l.pending) metaTableName
      (Function.update (l.tx.view metaTableName) latestLedgerSequenceMetaKey
        (some (sprintfDecimal l.forLedgerSequence))) := by
  rcases hD : Done env l with ⟨u, l'⟩ | ⟨err, l'⟩
  · exact (Done_ok env hperm hD).1
  · rw [hD] at h
    rcases EStateM.bind_eq_error.1 hD with h₁ | ⟨_, l₁, h₁, h₂⟩
    · -- `done` failed and rolled back
      have hn := ((keepsTx_done env).noCommit.withRollback l).2 hs
      rw [h₁] at hn
      exact absurd h hn
    · rcases EStateM.bind_eq_error.1 h₂ with h₂ | ⟨_, l₂, h₂, h₃⟩
      · -- the commit failed and rolled back
        change l'.tx.status = .committed at h
        rw [(commit_error env (done_ok_active env (withRollback_ok h₁)).2 h₂).2] at h
        cases h
      · -- the hook failed after the commit
        have hl' : l' = l₂ := by
          have := postWriteCommitHook_state env (l := l₂)
          rwa [h₃] at this
        subst hl'
        rw [EStateM.Result.state, (commit_ok env h₂).1, done_ok env hperm (withRollback_ok h₁)]

/-! ## The update -/

omit hperm in
theorem NewLedgerEntryUpdaterTx_ok {db : Tables} {forLedgerSequence : UInt32} {maxBatchSize : Int}
    {l : LedgerUpdaterTx} (h : NewLedgerEntryUpdaterTx env db forLedgerSequence maxBatchSize = .ok l) :
    l = { tx := ⟨db, db, .active, []⟩
          forLedgerSequence := forLedgerSequence
          maxBatchSize := maxBatchSize
          keyToEntryBatch := ∅ } := by
  unfold NewLedgerEntryUpdaterTx at h
  split at h <;> cases h
  rfl

omit hperm in
/-- After the update, `GetLatestLedgerSequence` reads the new sequence back, whenever the engine
    answers the read. -/
theorem GetLatestLedgerSequence_expectedTables (engine : Engine) (db : Tables)
    (changes : List (String × Option String)) (sequence : UInt32)
    (hbegin : engine [] (.begin true) (expectedTables db changes sequence) = none)
    (hselect : engine [] (.select "value" metaTableName latestLedgerSequenceMetaKey)
      (expectedTables db changes sequence) = none) :
    GetLatestLedgerSequence engine (expectedTables db changes sequence) = .ok sequence := by
  rw [GetLatestLedgerSequence, hbegin]
  simp only [getLatestLedgerSequence, hselect]
  simp only [expectedTables, Function.update_same, parseUint_sprintfDecimal, bind, Except.bind,
    pure, Except.pure, UInt32.ofNat_toNat_eq]

/-- What an update leaves in the database, whatever it returns: once it has committed, the calls
    applied in order and the new sequence; otherwise the database as it was. -/
theorem updateLedgerEntries_committed {db : Tables} {forLedgerSequence : UInt32}
    {maxBatchSize : Int} {l₀ : LedgerUpdaterTx}
    (hnew : NewLedgerEntryUpdaterTx env db forLedgerSequence maxBatchSize = .ok l₀)
    (calls : List (Call K E)) :
    ((updateLedgerEntries env calls l₀).state.tx.status = .committed →
      ∃ changes, calls.mapM (Call.encode env) = .ok changes ∧
        (updateLedgerEntries env calls l₀).state.tx.committed =
          expectedTables db changes forLedgerSequence) ∧
    ((updateLedgerEntries env calls l₀).state.tx.status ≠ .committed →
      (updateLedgerEntries env calls l₀).state.tx.committed = db) := by
  obtain rfl := NewLedgerEntryUpdaterTx_ok env hnew
  have hcalls := noCommit_runCalls env calls ⟨⟨db, db, .active, []⟩, forLedgerSequence,
    maxBatchSize, ∅⟩
  rcases hr : runCalls env calls ⟨⟨db, db, .active, []⟩, forLedgerSequence, maxBatchSize, ∅⟩ with
    ⟨⟨⟩, l₁⟩ | ⟨err, l₁⟩ <;> rw [hr] at hcalls
  · -- the calls returned: `Done` decides
    have hu : updateLedgerEntries env calls ⟨⟨db, db, .active, []⟩, forLedgerSequence,
        maxBatchSize, ∅⟩ = Done env l₁ := by
      simp only [updateLedgerEntries, bind, EStateM.bind, hr]
    obtain ⟨changes, hcs, hp, ha⟩ := runCalls_pending env hperm calls hr
    have hactive : l₁.tx.status ≠ .committed := by rw [ha.status]; nofun
    rw [hu]
    refine ⟨fun hc => ⟨changes, hcs, ?_⟩, fun hc => ?_⟩
    · rw [Done_committed env hperm hactive hc, hp, ha.forLedgerSequence]
      funext t
      by_cases hm : t = metaTableName
      · subst hm
        simp [expectedTables, ha.view_ne _ metaTableName_ne]
      · by_cases hl : t = ledgerEntriesTableName
        · subst hl
          simp [expectedTables, Function.update_noteq (Ne.symm metaTableName_ne)]
          rfl
        · simp [expectedTables, hm, hl, ha.view_ne t hl]
    · rcases hD : Done env l₁ with ⟨u, l'⟩ | ⟨err, l'⟩ <;> rw [hD] at hc
      · exact absurd (Done_ok env hperm hD).2 hc
      · exact (Done_error env hD hc).trans hcalls.1
  · -- a call failed: nothing was committed
    have hu : updateLedgerEntries env calls ⟨⟨db, db, .active, []⟩, forLedgerSequence,
        maxBatchSize, ∅⟩ = .error err l₁ := by
      simp only [updateLedgerEntries, bind, EStateM.bind, hr]
    rw [hu]
    exact ⟨fun hc => absurd hc (hcalls.2 nofun), fun _ => hcalls.1⟩

/-- A writer's calls on an updater opened at ledger `forLedgerSequence`, then `Done`, for every
    batch size, every fault of the engine and every iteration order of the batch map: if the
    update succeeds, the database holds the calls applied in order and the new sequence, which
    `GetLatestLedgerSequence` reads back; if it fails before committing, the database is as it
    was before the updater was opened. -/
theorem updateLedgerEntries_spec {db : Tables} {forLedgerSequence : UInt32} {maxBatchSize : Int}
    {l₀ : LedgerUpdaterTx}
    (hnew : NewLedgerEntryUpdaterTx env db forLedgerSequence maxBatchSize = .ok l₀)
    (calls : List (Call K E)) :
    (∀ l, updateLedgerEntries env calls l₀ = .ok () l →
      ∃ changes, calls.mapM (Call.encode env) = .ok changes ∧
        l.tx.committed = expectedTables db changes forLedgerSequence ∧
        ∀ engine : Engine, engine [] (.begin true) l.tx.committed = none →
          engine [] (.select "value" metaTableName latestLedgerSequenceMetaKey) l.tx.committed =
            none →
          GetLatestLedgerSequence engine l.tx.committed = .ok forLedgerSequence) ∧
    (∀ err l, updateLedgerEntries env calls l₀ = .error err l →
      l.tx.status ≠ .committed → l.tx.committed = db) := by
  obtain ⟨hcommitted, hkept⟩ := updateLedgerEntries_committed env hperm hnew calls
  refine ⟨fun l h => ?_, fun err l h hs => ?_⟩
  · obtain ⟨_, l₁, -, h₂⟩ := EStateM.bind_eq_ok.1 h
    rw [h] at hcommitted
    obtain ⟨changes, hcs, hdb⟩ := hcommitted (Done_ok env hperm h₂).2
    exact ⟨changes, hcs, hdb, fun engine h₁ h₂ => hdb ▸
      GetLatestLedgerSequence_expectedTables engine db changes forLedgerSequence (hdb ▸ h₁) (hdb ▸ h₂)⟩
  · rw [h] at hkept
    exact hkept hs

end Updater

/-- An upsert then a delete of one key, committed at ledger 10: the update succeeds, and the
    committed tables hold no row for the key and ledger 10 as the latest. -/
theorem updateLedgerEntries_spec_upsertThenDelete :
    NewLedgerEntryUpdaterTx plainEnv (fun _ _ => none) 10 1 = .ok (freshUpdater 10 1) ∧
    (∃ l, updateLedgerEntries plainEnv [.upsert "a" "x", .delete "a"] (freshUpdater 10 1) = .ok () l ∧
      l.tx.status = .committed ∧ l.tx.committed ledgerEntriesTableName "a" = none ∧
      l.tx.committed metaTableName latestLedgerSequenceMetaKey = some "10") ∧
    ((∀ l, updateLedgerEntries plainEnv [.upsert "a" "x", .delete "a"] (freshUpdater 10 1) =
          .ok () l →
        ∃ changes, [Call.upsert "a" "x", .delete "a"].mapM (Call.encode plainEnv) = .ok changes ∧
          l.tx.committed = expectedTables (fun _ _ => none) changes 10 ∧
          ∀ engine : Engine, engine [] (.begin true) l.tx.committed = none →
            engine [] (.select "value" metaTableName latestLedgerSequenceMetaKey) l.tx.committed =
              none →
            GetLatestLedgerSequence engine l.tx.committed = .ok 10) ∧
      (∀ err l, updateLedgerEntries plainEnv [.upsert "a" "x", .delete "a"] (freshUpdater 10 1) =
          .error err l →
        l.tx.status ≠ .committed → l.tx.committed = fun _ _ => none)) :=
  ⟨rfl, ⟨_, rfl, rfl, rfl, rfl⟩, updateLedgerEntries_spec plainEnv plainEnv_mapOrder_perm rfl _⟩

end SorobanRpc.LedgerEntryStorage
