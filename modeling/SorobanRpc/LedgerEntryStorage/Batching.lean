import SorobanRpc.LedgerEntryStorage.Db

set_option autoImplicit false

/-! # Batch sizes of the updater

`upsertLedgerEntry` flushes the batch map once it holds `maxBatchSize` keys or more, and
`deleteLedgerEntry` only once it holds more than `maxBatchSize`. With `m = maxBatchSize ≥ 1`:

* a delete that brings the map to exactly `m` keys does not flush it, so a call can return with
  `m` keys buffered, and the next call that adds a key flushes `m + 1` of them
  (`deleteLedgerEntry_overfills`, with `m = 1`);
* that is the worst case: from a map of at most `m` keys every call leaves at most `m`, and every
  statement a flush runs writes at most `m + 1` rows (`runCalls_batch_le`);
* without deletes the map stays below `m` keys and every flush writes at most `m` rows
  (`runCalls_upserts_batch_lt`).

The rows a flush writes are counted on the `REPLACE` and `DELETE` statements in the transaction's
log. -/

namespace SorobanRpc.LedgerEntryStorage

variable {K E : Type} (env : Env K E)

theorem length_insert_le (batch : Batch) (key : String) (entry : Option String) :
    (batch.insert key entry).entries.length ≤ batch.entries.length + 1 := by
  have h := congrArg List.length (AList.keys_insert (a := key) (b := entry) batch)
  have := List.length_erase_le key batch.keys
  simp only [AList.keys, List.keys, List.length_map, List.length_cons] at h this
  omega

/-- Each statement of a flush writes at most one row per entry of the map it visits. -/
theorem rowCount_le_of_mem_flushStmts {order : List (Σ _ : String, Option String)} {stmt : Stmt}
    (h : stmt ∈ flushStmts order) : stmt.rowCount ≤ order.length := by
  simp only [flushStmts, List.mem_append] at h
  rcases h with h | h <;> split_ifs at h <;> simp only [List.mem_singleton, List.not_mem_nil] at h
  · subst h; exact List.length_filterMap_le _ _
  · subst h; exact List.length_filterMap_le _ _

section Bounds

variable (hperm : ∀ log batch, (env.mapOrder log batch).Perm batch.entries)
include hperm

/-- A flush of the map `batch` writes at most one row per key of `batch` in each statement. -/
theorem rowCount_le_of_flush {log : List Stmt} {batch : Batch} {stmt : Stmt}
    (h : stmt ∈ flushStmts (env.mapOrder log batch)) : stmt.rowCount ≤ batch.entries.length :=
  (hperm log batch).length_eq ▸ rowCount_le_of_mem_flushStmts h

/-- One successful call with `m = maxBatchSize ≥ 1`: it leaves at most `m` keys, fewer after an
    upsert, and what it runs writes at most one row more than the map held. -/
theorem Call.run_batch_le {call : Call K E} {l l' : LedgerUpdaterTx}
    (hm : 1 ≤ l.maxBatchSize) (h : call.run env l = .ok () l') :
    l'.maxBatchSize = l.maxBatchSize ∧
      (l'.keyToEntryBatch.entries.length : Int) ≤ l.maxBatchSize ∧
      ((∃ key entry, call = .upsert key entry) →
        (l'.keyToEntryBatch.entries.length : Int) < l.maxBatchSize) ∧
      ∃ stmts, l'.tx.log = l.tx.log ++ stmts ∧
        ∀ stmt ∈ stmts, stmt.rowCount ≤ l.keyToEntryBatch.entries.length + 1 := by
  cases call with
  | upsert key entry =>
    obtain ⟨k, v, -, -, hl⟩ := upsertLedgerEntry_ok env (withRollback_ok h)
    have hins := length_insert_le l.keyToEntryBatch k (some v)
    dsimp only at hl
    split_ifs at hl with hflush <;> subst hl
    · refine ⟨rfl, by simp; omega, fun _ => by simp; omega, _, rfl, fun stmt hs => ?_⟩
      exact (rowCount_le_of_flush env hperm hs).trans hins
    · exact ⟨rfl, by dsimp only; omega, fun _ => by dsimp only; omega, [], by simp, by simp⟩
  | delete key =>
    obtain ⟨k, -, hl⟩ := deleteLedgerEntry_ok env (withRollback_ok h)
    have hins := length_insert_le l.keyToEntryBatch k none
    dsimp only at hl
    split_ifs at hl with hflush <;> subst hl
    · refine ⟨rfl, by simp; omega, nofun, _, rfl, fun stmt hs => ?_⟩
      exact (rowCount_le_of_flush env hperm hs).trans hins
    · exact ⟨rfl, by dsimp only; omega, nofun, [], by simp, by simp⟩

/-- From a map of at most `m = maxBatchSize ≥ 1` keys, every sequence of successful calls keeps
    at most `m` keys buffered, and every `REPLACE` or `DELETE` it runs writes at most `m + 1`
    rows. -/
theorem runCalls_batch_le (calls : List (Call K E)) {l l' : LedgerUpdaterTx}
    (hm : 1 ≤ l.maxBatchSize) (hb : (l.keyToEntryBatch.entries.length : Int) ≤ l.maxBatchSize)
    (h : runCalls env calls l = .ok () l') :
    (l'.keyToEntryBatch.entries.length : Int) ≤ l.maxBatchSize ∧
      ∃ stmts, l'.tx.log = l.tx.log ++ stmts ∧
        ∀ stmt ∈ stmts, (stmt.rowCount : Int) ≤ l.maxBatchSize + 1 := by
  induction calls generalizing l with
  | nil => cases h; exact ⟨hb, [], by simp, by simp⟩
  | cons call calls ih =>
    obtain ⟨l₁, h₁, h₂⟩ := runCalls_cons_ok env h
    obtain ⟨hm₁, hb₁, -, stmts₁, hlog₁, hrows₁⟩ := Call.run_batch_le env hperm hm h₁
    obtain ⟨hb', stmts₂, hlog₂, hrows₂⟩ := ih (hm₁ ▸ hm) (hm₁ ▸ hb₁) h₂
    refine ⟨hm₁ ▸ hb', stmts₁ ++ stmts₂, by rw [hlog₂, hlog₁, List.append_assoc], ?_⟩
    intro stmt hs
    rcases List.mem_append.1 hs with hs | hs
    · have := hrows₁ stmt hs; omega
    · have := hrows₂ stmt hs; omega

/-- Without deletes, from a map of fewer than `m = maxBatchSize` keys, every successful call
    leaves fewer than `m` keys and every flush writes at most `m` rows per statement. -/
theorem runCalls_upserts_batch_lt (calls : List (Call K E)) {l l' : LedgerUpdaterTx}
    (hup : ∀ call ∈ calls, ∃ key entry, call = .upsert key entry)
    (hb : (l.keyToEntryBatch.entries.length : Int) < l.maxBatchSize)
    (h : runCalls env calls l = .ok () l') :
    (l'.keyToEntryBatch.entries.length : Int) < l.maxBatchSize ∧
      ∃ stmts, l'.tx.log = l.tx.log ++ stmts ∧
        ∀ stmt ∈ stmts, (stmt.rowCount : Int) ≤ l.maxBatchSize := by
  induction calls generalizing l with
  | nil => cases h; exact ⟨hb, [], by simp, by simp⟩
  | cons call calls ih =>
    obtain ⟨l₁, h₁, h₂⟩ := runCalls_cons_ok env h
    obtain ⟨hm₁, -, hlt₁, stmts₁, hlog₁, hrows₁⟩ :=
      Call.run_batch_le env hperm (by omega) h₁
    have hb₁ := hlt₁ (hup call (List.mem_cons_self _ _))
    obtain ⟨hb', stmts₂, hlog₂, hrows₂⟩ :=
      ih (fun c hc => hup c (List.mem_cons_of_mem _ hc)) (hm₁ ▸ hb₁) h₂
    refine ⟨hm₁ ▸ hb', stmts₁ ++ stmts₂, by rw [hlog₂, hlog₁, List.append_assoc], ?_⟩
    intro stmt hs
    rcases List.mem_append.1 hs with hs | hs
    · have := hrows₁ stmt hs; omega
    · have := hrows₂ stmt hs; omega

end Bounds

/-! ## Two deletes with `maxBatchSize = 1` -/

/-- Keys and entries that are their own encoding, an engine that never fails, and the map
    visited in insertion order. -/
def plainEnv : Env String String where
  marshalKey := .ok
  marshalEntry := .ok
  unmarshalEntry := .ok
  engine := fun _ _ _ => none
  mapOrder := fun _ batch => batch.entries

theorem plainEnv_mapOrder_perm (log : List Stmt) (batch : Batch) :
    (plainEnv.mapOrder log batch).Perm batch.entries :=
  List.Perm.refl _

/-- An updater just opened on an empty database. -/
def freshUpdater (forLedgerSequence : UInt32) (maxBatchSize : Int) : LedgerUpdaterTx where
  tx := ⟨fun _ _ => none, fun _ _ => none, .active, []⟩
  forLedgerSequence := forLedgerSequence
  maxBatchSize := maxBatchSize
  keyToEntryBatch := ∅

/-- With `maxBatchSize = 1`, `DeleteLedgerEntry(a)` returns with one key buffered, and
    `DeleteLedgerEntry(b)` then flushes a `DELETE` of two keys. -/
theorem deleteLedgerEntry_overfills :
    ∃ l₁ l₂, DeleteLedgerEntry plainEnv "a" (freshUpdater 10 1) = .ok () l₁ ∧
      l₁.keyToEntryBatch.entries.length = 1 ∧
      DeleteLedgerEntry plainEnv "b" l₁ = .ok () l₂ ∧
      l₂.tx.log = [.delete ledgerEntriesTableName ["b", "a"]] :=
  ⟨_, _, rfl, rfl, rfl, rfl⟩

/-- The two deletes stay within the bounds of `runCalls_batch_le`: one key buffered at most, and
    two rows per statement. -/
theorem runCalls_batch_le_twoDeletes :
    ∃ l', runCalls plainEnv [.delete "a", .delete "b"] (freshUpdater 10 1) = .ok () l' ∧
      ((l'.keyToEntryBatch.entries.length : Int) ≤ (freshUpdater 10 1).maxBatchSize ∧
        ∃ stmts, l'.tx.log = (freshUpdater 10 1).tx.log ++ stmts ∧
          ∀ stmt ∈ stmts, (stmt.rowCount : Int) ≤ (freshUpdater 10 1).maxBatchSize + 1) :=
  ⟨_, rfl, runCalls_batch_le plainEnv plainEnv_mapOrder_perm [.delete "a", .delete "b"]
    (by decide) (by decide) rfl⟩

/-- Two upserts with `maxBatchSize = 2` stay below the bounds of `runCalls_upserts_batch_lt`. -/
theorem runCalls_upserts_batch_lt_twoUpserts :
    ∃ l', runCalls plainEnv [.upsert "a" "x", .upsert "b" "y"] (freshUpdater 10 2) = .ok () l' ∧
      ((l'.keyToEntryBatch.entries.length : Int) < (freshUpdater 10 2).maxBatchSize ∧
        ∃ stmts, l'.tx.log = (freshUpdater 10 2).tx.log ++ stmts ∧
          ∀ stmt ∈ stmts, (stmt.rowCount : Int) ≤ (freshUpdater 10 2).maxBatchSize) :=
  ⟨_, rfl, runCalls_upserts_batch_lt plainEnv plainEnv_mapOrder_perm [.upsert "a" "x", .upsert "b" "y"]
    (by simp only [List.mem_cons, List.mem_singleton, List.not_mem_nil, or_false]
        rintro _ (rfl | rfl) <;> exact ⟨_, _, rfl⟩)
    (by decide) rfl⟩

end SorobanRpc.LedgerEntryStorage
