import SorobanRpc.LedgerEntryStorage.Decimal
import Mathlib.Data.List.AList

set_option autoImplicit false

/-! # The SQL ledger-entry store

`db.go` keeps the ledger entries in SQLite: table `ledger_entries` maps the XDR encoding of a
ledger key to the encoding of its entry, and table `metadata` holds the text of the
`LatestLedgerSequence`. A `ledgerUpdaterTx` holds one write transaction open, buffers upserts and
deletes in the map `keyToEntryBatch` (a `nil` entry is a delete), flushes the map with one
multi-row `REPLACE` and one multi-row `DELETE`, and on `Done` writes the ledger sequence, commits
and runs the WAL checkpoint.

The database is a function from table names to tables and a table a function from primary keys
to rows, so a key has at most one row (I2) and the "multiple entries" panics of the reads cannot
happen. An open transaction (`SqlTx`) has the committed tables, its own view of them, its status
and the statements it ran (`log`, which only the bounds on flushes read).

What the store gets from outside `db.go` is an `Env`: the XDR encoders of the encoding buffer,
the SQL engine's failures and the order in which Go's `range` visits the batch map. Both the
engine and the order may depend on every statement the transaction ran before, so that a theorem
over every `Env` is a theorem over every fault pattern and every iteration order.

The updater's methods are `EStateM GoError LedgerUpdaterTx` actions: a Go method that mutates
the updater and returns an `error` returns the mutated updater on both outcomes. The exported
methods (`UpsertLedgerEntry`, `DeleteLedgerEntry`, `Done`) keep Go's capitalisation to tell them
from the unexported ones they wrap. `OpenSQLiteDB`, the migrations, `Close` and the prepared
statement cache are not modelled; the post-commit hook is the one `OpenSQLiteDB` installs. -/

theorem EStateM.bind_eq_ok {ε σ α β : Type} {x : EStateM ε σ α} {f : α → EStateM ε σ β}
    {s s' : σ} {b : β} :
    (x >>= f) s = .ok b s' ↔ ∃ a t, x s = .ok a t ∧ f a t = .ok b s' := by
  show (match x s with | .ok a t => f a t | .error e t => .error e t) = _ ↔ _
  cases x s with
  | ok a t => exact ⟨fun h => ⟨a, t, rfl, h⟩, fun ⟨_, _, h1, h2⟩ => by cases h1; exact h2⟩
  | error e t => simp

theorem EStateM.bind_eq_error {ε σ α β : Type} {x : EStateM ε σ α} {f : α → EStateM ε σ β}
    {s s' : σ} {e : ε} :
    (x >>= f) s = .error e s' ↔ x s = .error e s' ∨ ∃ a t, x s = .ok a t ∧ f a t = .error e s' := by
  show (match x s with | .ok a t => f a t | .error e t => .error e t) = _ ↔ _
  cases x s with
  | ok a t =>
    exact ⟨fun h => .inr ⟨a, t, rfl, h⟩, fun h => h.elim nofun fun ⟨_, _, h1, h2⟩ => by
      cases h1; exact h2⟩
  | error e t => simp

/-- The state an `EStateM` action leaves, whatever it returns. -/
def EStateM.Result.state {ε σ α : Type} : EStateM.Result ε σ α → σ
  | .ok _ s => s
  | .error _ s => s

namespace SorobanRpc.LedgerEntryStorage

/-! ## Tables, statements and transactions -/

/-- A table: the row stored under each primary key, if any. -/
abbrev Table := String → Option String

/-- The database: its tables by name. -/
abbrev Tables := String → Table

def ledgerEntriesTableName : String := "ledger_entries"

def metaTableName : String := "metadata"

def latestLedgerSequenceMetaKey : String := "LatestLedgerSequence"

/-- `ErrEmptyDB`. -/
def errEmptyDB : GoError := .err "DB is empty"

/-- `sql.ErrTxDone`. -/
def errTxDone : GoError := .err "sql: transaction has already been committed or rolled back"

/-- `sql.ErrNoRows`. -/
def errNoRows : GoError := .err "sql: no rows in result set"

/-- What the store asks SQLite to do, as `squirrel` and `database/sql` build it. -/
inductive Stmt where
  /-- `BeginTxx`, read-only or not. -/
  | begin (readOnly : Bool)
  /-- `SELECT column FROM table WHERE key = ?`. -/
  | select (column table key : String)
  /-- `REPLACE INTO table VALUES (k₁, v₁), (k₂, v₂), …`. -/
  | replace (table : String) (rows : List (String × String))
  /-- `DELETE FROM table WHERE key IN (k₁, k₂, …)`. -/
  | delete (table : String) (keys : List String)
  | commit
  /-- `PRAGMA wal_checkpoint(TRUNCATE)`, the post-commit hook. -/
  | walCheckpoint
  deriving DecidableEq, Repr

/-- `REPLACE` of several rows: each row replaces the one under its key, in order. -/
def replaceRows (t : Table) (rows : List (String × String)) : Table :=
  rows.foldl (fun t row => Function.update t row.1 (some row.2)) t

/-- `DELETE … WHERE key IN keys`. -/
def deleteRows (t : Table) (keys : List String) : Table :=
  fun k => if k ∈ keys then none else t k

/-- What a statement that succeeds does to the tables. -/
def Stmt.apply : Stmt → Tables → Tables
  | .replace table rows, db => Function.update db table (replaceRows (db table) rows)
  | .delete table keys, db => Function.update db table (deleteRows (db table) keys)
  | _, db => db

/-- The number of rows a `REPLACE` or a `DELETE` writes. -/
def Stmt.rowCount : Stmt → Nat
  | .replace _ rows => rows.length
  | .delete _ keys => keys.length
  | _ => 0

/-- The SQL engine: `engine history stmt t` is the error SQLite returns for `stmt` on the tables
    `t`, after the statements `history` of the same transaction, or `none` if it succeeds. -/
abbrev Engine := List Stmt → Stmt → Tables → Option String

inductive TxStatus where
  | active
  | committed
  | rolledBack
  deriving DecidableEq, Repr

/-- A write transaction (`*sqlx.Tx`) with the database it runs on. -/
structure SqlTx where
  /-- The tables as the database holds them. -/
  committed : Tables
  /-- The tables as this transaction sees them. -/
  view : Tables
  status : TxStatus
  /-- The statements the transaction ran, oldest first. -/
  log : List Stmt

/-- `tx.Exec(stmt)`. A statement that fails changes nothing, and a transaction that is over
    refuses every statement. -/
def SqlTx.exec (engine : Engine) (tx : SqlTx) (stmt : Stmt) : Except GoError SqlTx :=
  if tx.status = .active then
    match engine tx.log stmt tx.view with
    | some msg => .error (.err msg)
    | none => .ok { tx with view := stmt.apply tx.view, log := tx.log ++ [stmt] }
  else .error errTxDone

/-- `tx.Commit()`. A failed commit rolls the transaction back: `database/sql` marks it done and
    the SQLite driver issues `ROLLBACK`. -/
def SqlTx.commit (engine : Engine) (tx : SqlTx) : SqlTx × Option GoError :=
  if tx.status = .active then
    match engine tx.log .commit tx.view with
    | some msg => ({ tx with status := .rolledBack, view := tx.committed }, some (.err msg))
    | none => ({ tx with committed := tx.view, status := .committed, log := tx.log ++ [.commit] },
        none)
  else (tx, some errTxDone)

/-- `tx.Rollback()`, whose error the updater ignores. -/
def SqlTx.rollback (tx : SqlTx) : SqlTx :=
  if tx.status = .active then { tx with status := .rolledBack, view := tx.committed } else tx

@[simp] theorem SqlTx.rollback_committed (tx : SqlTx) : tx.rollback.committed = tx.committed := by
  unfold SqlTx.rollback; split_ifs <;> rfl

theorem SqlTx.rollback_status_ne {tx : SqlTx} (h : tx.status ≠ .committed) :
    tx.rollback.status ≠ .committed := by
  unfold SqlTx.rollback; split_ifs
  · exact nofun
  · exact h

/-! ## Reads -/

/-- `getLatestLedgerSequence(tx)` on the tables `t` the transaction sees. -/
def getLatestLedgerSequence (engine : Engine) (t : Tables) : Except GoError UInt32 :=
  match engine [] (.select "value" metaTableName latestLedgerSequenceMetaKey) t with
  | some msg => .error (.err msg)
  | none =>
    match t metaTableName latestLedgerSequenceMetaKey with
    | none => .error errEmptyDB
    | some latestLedgerStr => do
      let latestLedger ← parseUint latestLedgerStr 32
      pure (UInt32.ofNat latestLedger)

/-- `(*sqlDB).GetLatestLedgerSequence`: a read-only transaction on the database `db`. -/
def GetLatestLedgerSequence (engine : Engine) (db : Tables) : Except GoError UInt32 :=
  match engine [] (.begin true) db with
  | some msg => .error (.err msg)
  | none => getLatestLedgerSequence engine db

/-- The batch map `keyToEntryBatch`: encoded key to encoded entry, `none` for a delete. -/
abbrev Batch := AList fun _ : String => Option String

/-- What `db.go` gets from outside: the encoding buffer's XDR encoders and decoder for ledger
    keys `K` and entries `E`, the SQL engine, and the order in which `range` visits the batch map
    after the transaction's statements so far. -/
structure Env (K E : Type) where
  marshalKey : K → Except GoError String
  marshalEntry : E → Except GoError String
  unmarshalEntry : String → Except GoError E
  engine : Engine
  mapOrder : List Stmt → Batch → List (Σ _ : String, Option String)

variable {K E : Type}

/-- `encodeLedgerKey`: the compressed XDR encoding of a key. -/
def encodeLedgerKey (env : Env K E) (key : K) : Except GoError String := env.marshalKey key

/-- `getLedgerEntry(tx, buffer, key)` on the tables `t` the transaction sees. -/
def getLedgerEntry (env : Env K E) (t : Tables) (key : K) : Except GoError E := do
  let encodedKey ← encodeLedgerKey env key
  match env.engine [] (.select "entry" ledgerEntriesTableName encodedKey) t with
  | some msg => .error (.err msg)
  | none =>
    match t ledgerEntriesTableName encodedKey with
    | none => .error errNoRows
    | some ledgerEntryBin => env.unmarshalEntry ledgerEntryBin

/-- `(*sqlDB).GetLedgerEntry`: the entry under `key` if there is one, and the latest ledger
    sequence, read in one read-only transaction. -/
def GetLedgerEntry (env : Env K E) (db : Tables) (key : K) : Except GoError (Option E × UInt32) :=
  match env.engine [] (.begin true) db with
  | some msg => .error (.err msg)
  | none => do
    let seq ← getLatestLedgerSequence env.engine db
    match getLedgerEntry env db key with
    | .error err => if err = errNoRows then pure (none, seq) else .error err
    | .ok entry => pure (some entry, seq)

/-! ## The updater -/

/-- `ledgerUpdaterTx`; `tx` includes the database it writes to. -/
structure LedgerUpdaterTx where
  tx : SqlTx
  forLedgerSequence : UInt32
  maxBatchSize : Int
  keyToEntryBatch : Batch

/-- A method of the updater. -/
abbrev UpdaterM := EStateM GoError LedgerUpdaterTx

/-- `(*sqlDB).NewLedgerEntryUpdaterTx`: opens a write transaction on `db`. -/
def NewLedgerEntryUpdaterTx (env : Env K E) (db : Tables) (forLedgerSequence : UInt32)
    (maxBatchSize : Int) : Except GoError LedgerUpdaterTx :=
  match env.engine [] (.begin false) db with
  | some msg => .error (.err msg)
  | none => .ok {
      tx := ⟨db, db, .active, []⟩
      forLedgerSequence := forLedgerSequence
      maxBatchSize := maxBatchSize
      keyToEntryBatch := ∅ }

/-- A call that returns `(value, error)` and leaves the updater as it is. -/
def liftExcept {α : Type} : Except GoError α → UpdaterM α
  | .ok a => fun l => .ok a l
  | .error err => fun l => .error err l

/-- `Exec` of a statement on the updater's transaction. -/
def exec (env : Env K E) (stmt : Stmt) : UpdaterM Unit := fun l =>
  match l.tx.exec env.engine stmt with
  | .ok tx => .ok () { l with tx }
  | .error err => .error err l

/-- The loop of `flushLedgerEntryBatch` over the batch in iteration order: the rows of the
    upsert, their count, and the keys to delete. -/
def splitBatch : List (Σ _ : String, Option String) → List (String × String) × Nat × List String
  | [] => ([], 0, [])
  | ⟨key, some entry⟩ :: rest =>
    let (upsertRows, upsertCount, deleteKeys) := splitBatch rest
    ((key, entry) :: upsertRows, upsertCount + 1, deleteKeys)
  | ⟨key, none⟩ :: rest =>
    let (upsertRows, upsertCount, deleteKeys) := splitBatch rest
    (upsertRows, upsertCount, key :: deleteKeys)

/-- `if cond { Exec(stmt) }`. -/
def execIf (env : Env K E) (cond : Bool) (stmt : Stmt) : UpdaterM Unit :=
  if cond then exec env stmt else pure ()

/-- `flushLedgerEntryBatch`: one `REPLACE` of the upserts, then one `DELETE` of the deletes. -/
def flushLedgerEntryBatch (env : Env K E) : UpdaterM Unit := do
  let l ← get
  let (upsertRows, upsertCount, deleteKeys) :=
    splitBatch (env.mapOrder l.tx.log l.keyToEntryBatch)
  execIf env (upsertCount > 0) (.replace ledgerEntriesTableName upsertRows)
  execIf env (deleteKeys.length > 0) (.delete ledgerEntriesTableName deleteKeys)

/-- Empties the batch map after a flush (`make(map[string]*string, maxBatchSize)`). -/
def resetBatch : UpdaterM Unit := modify fun l => { l with keyToEntryBatch := ∅ }

/-- `upsertLedgerEntry`: buffers the entry, and flushes once the map holds `maxBatchSize` keys. -/
def upsertLedgerEntry (env : Env K E) (key : K) (entry : E) : UpdaterM Unit := do
  let encodedKey ← liftExcept (encodeLedgerKey env key)
  let encodedEntry ← liftExcept (env.marshalEntry entry)
  modify fun l => { l with keyToEntryBatch := l.keyToEntryBatch.insert encodedKey (some encodedEntry) }
  let l ← get
  if (l.keyToEntryBatch.entries.length : Int) ≥ l.maxBatchSize then
    flushLedgerEntryBatch env
    resetBatch

/-- `deleteLedgerEntry`: buffers the delete, and flushes once the map holds more than
    `maxBatchSize` keys. -/
def deleteLedgerEntry (env : Env K E) (key : K) : UpdaterM Unit := do
  let encodedKey ← liftExcept (encodeLedgerKey env key)
  modify fun l => { l with keyToEntryBatch := l.keyToEntryBatch.insert encodedKey none }
  let l ← get
  if (l.keyToEntryBatch.entries.length : Int) > l.maxBatchSize then
    flushLedgerEntryBatch env
    resetBatch

/-- The shape of the exported methods: on an error, roll the transaction back and return it. -/
def withRollback (x : UpdaterM Unit) : UpdaterM Unit := fun l =>
  match x l with
  | .ok () l => .ok () l
  | .error err l => .error err { l with tx := l.tx.rollback }

/-- `UpsertLedgerEntry`. -/
def UpsertLedgerEntry (env : Env K E) (key : K) (entry : E) : UpdaterM Unit :=
  withRollback (upsertLedgerEntry env key entry)

/-- `DeleteLedgerEntry`. -/
def DeleteLedgerEntry (env : Env K E) (key : K) : UpdaterM Unit :=
  withRollback (deleteLedgerEntry env key)

/-- `upsertLatestLedgerSequence(tx, sequence)`. -/
def upsertLatestLedgerSequence (env : Env K E) (sequence : UInt32) : UpdaterM Unit :=
  exec env (.replace metaTableName [(latestLedgerSequenceMetaKey, sprintfDecimal sequence)])

/-- `done`: the last flush and the new ledger sequence. -/
def done (env : Env K E) : UpdaterM Unit := do
  flushLedgerEntryBatch env
  upsertLatestLedgerSequence env (← get).forLedgerSequence

/-- `l.tx.Commit()`. -/
def commit (env : Env K E) : UpdaterM Unit := fun l =>
  match l.tx.commit env.engine with
  | (tx, none) => .ok () { l with tx }
  | (tx, some err) => .error err { l with tx }

/-- `postWriteCommitHook`: the WAL checkpoint, which changes no data. -/
def postWriteCommitHook (env : Env K E) : UpdaterM Unit := fun l =>
  match env.engine l.tx.log .walCheckpoint l.tx.committed with
  | some msg => .error (.err msg) l
  | none => .ok () l

/-- `Done`: `done` under rollback, then the commit and the post-commit hook. -/
def Done (env : Env K E) : UpdaterM Unit := do
  withRollback (done env)
  commit env
  postWriteCommitHook env

/-! ## One lemma per step -/

/-- Running statements that all succeed. -/
def SqlTx.run (tx : SqlTx) (stmts : List Stmt) : SqlTx :=
  { tx with view := stmts.foldl (fun v stmt => stmt.apply v) tx.view, log := tx.log ++ stmts }

@[simp] theorem SqlTx.run_nil (tx : SqlTx) : tx.run [] = tx := by simp [SqlTx.run]

theorem SqlTx.run_append (tx : SqlTx) (s₁ s₂ : List Stmt) :
    tx.run (s₁ ++ s₂) = (tx.run s₁).run s₂ := by
  simp [SqlTx.run, List.foldl_append, List.append_assoc]

@[simp] theorem SqlTx.view_run_singleton (tx : SqlTx) (stmt : Stmt) :
    (tx.run [stmt]).view = stmt.apply tx.view := rfl

@[simp] theorem SqlTx.run_committed (tx : SqlTx) (stmts : List Stmt) :
    (tx.run stmts).committed = tx.committed := rfl

@[simp] theorem SqlTx.run_status (tx : SqlTx) (stmts : List Stmt) :
    (tx.run stmts).status = tx.status := rfl

theorem SqlTx.exec_eq_ok {engine : Engine} {tx tx' : SqlTx} {stmt : Stmt} :
    tx.exec engine stmt = .ok tx' ↔
      tx.status = .active ∧ engine tx.log stmt tx.view = none ∧ tx' = tx.run [stmt] := by
  unfold SqlTx.exec
  split_ifs with hs
  · cases engine tx.log stmt tx.view <;> simp [hs, SqlTx.run, eq_comm]
  · simp [hs]

/-- The rows an upsert flush writes, in iteration order. -/
def upsertRowsOf (order : List (Σ _ : String, Option String)) : List (String × String) :=
  order.filterMap fun e => e.2.map (e.1, ·)

/-- The keys a delete flush removes, in iteration order. -/
def deleteKeysOf (order : List (Σ _ : String, Option String)) : List String :=
  order.filterMap fun e => if e.2.isNone then some e.1 else none

@[simp] theorem upsertRowsOf_nil : upsertRowsOf [] = [] := rfl

@[simp] theorem upsertRowsOf_cons_some (key entry : String) (order : List (Σ _ : String, Option String)) :
    upsertRowsOf (⟨key, some entry⟩ :: order) = (key, entry) :: upsertRowsOf order := rfl

@[simp] theorem upsertRowsOf_cons_none (key : String) (order : List (Σ _ : String, Option String)) :
    upsertRowsOf (⟨key, none⟩ :: order) = upsertRowsOf order := rfl

@[simp] theorem deleteKeysOf_nil : deleteKeysOf [] = [] := rfl

@[simp] theorem deleteKeysOf_cons_some (key entry : String) (order : List (Σ _ : String, Option String)) :
    deleteKeysOf (⟨key, some entry⟩ :: order) = deleteKeysOf order := rfl

@[simp] theorem deleteKeysOf_cons_none (key : String) (order : List (Σ _ : String, Option String)) :
    deleteKeysOf (⟨key, none⟩ :: order) = key :: deleteKeysOf order := rfl

@[simp] theorem replaceRows_nil (t : Table) : replaceRows t [] = t := rfl

@[simp] theorem replaceRows_cons (t : Table) (row : String × String) (rows : List (String × String)) :
    replaceRows t (row :: rows) = replaceRows (Function.update t row.1 (some row.2)) rows := rfl

@[simp] theorem deleteRows_nil (t : Table) : deleteRows t [] = t := by
  funext k; simp [deleteRows]

theorem splitBatch_eq (order : List (Σ _ : String, Option String)) :
    splitBatch order = (upsertRowsOf order, (upsertRowsOf order).length, deleteKeysOf order) := by
  induction order with
  | nil => rfl
  | cons e order ih =>
    obtain ⟨key, _ | entry⟩ := e <;> simp [splitBatch, ih]

/-- The statements a flush of the batch visited in `order` runs. -/
def flushStmts (order : List (Σ _ : String, Option String)) : List Stmt :=
  (if (upsertRowsOf order).length > 0 then [.replace ledgerEntriesTableName (upsertRowsOf order)]
    else []) ++
  (if (deleteKeysOf order).length > 0 then [.delete ledgerEntriesTableName (deleteKeysOf order)]
    else [])

section Steps

variable (env : Env K E)

theorem exec_ok {stmt : Stmt} {l l' : LedgerUpdaterTx} {u : Unit} (h : exec env stmt l = .ok u l') :
    l.tx.status = .active ∧ l' = { l with tx := l.tx.run [stmt] } := by
  unfold exec at h
  split at h
  · rename_i tx htx
    cases h
    obtain ⟨hs, -, rfl⟩ := SqlTx.exec_eq_ok.1 htx
    exact ⟨hs, rfl⟩
  · cases h

theorem exec_error {stmt : Stmt} {l l' : LedgerUpdaterTx} {err : GoError}
    (h : exec env stmt l = .error err l') : l' = l := by
  unfold exec at h
  split at h <;> cases h
  rfl

theorem execIf_ok {cond : Bool} {stmt : Stmt} {l l' : LedgerUpdaterTx} {u : Unit}
    (h : execIf env cond stmt l = .ok u l') :
    l' = { l with tx := l.tx.run (if cond then [stmt] else []) } ∧
      (cond → l.tx.status = .active) := by
  unfold execIf at h
  cases cond
  · cases h; exact ⟨by simp, nofun⟩
  · obtain ⟨hs, rfl⟩ := exec_ok env h
    exact ⟨by simp, fun _ => hs⟩

theorem execIf_error {cond : Bool} {stmt : Stmt} {l l' : LedgerUpdaterTx} {err : GoError}
    (h : execIf env cond stmt l = .error err l') : l' = l := by
  unfold execIf at h
  cases cond
  · cases h
  · exact exec_error env h

@[simp] theorem liftExcept_ok {α : Type} (a : α) (l : LedgerUpdaterTx) :
    liftExcept (.ok a) l = .ok a l := rfl

@[simp] theorem liftExcept_error {α : Type} (err : GoError) (l : LedgerUpdaterTx) :
    (liftExcept (.error err) : UpdaterM α) l = .error err l := rfl

/-- A flush runs the statements of `flushStmts` and changes nothing else. -/
theorem flushLedgerEntryBatch_ok {l l' : LedgerUpdaterTx} {u : Unit}
    (h : flushLedgerEntryBatch env l = .ok u l') :
    l' = { l with tx := l.tx.run (flushStmts (env.mapOrder l.tx.log l.keyToEntryBatch)) } := by
  simp only [flushLedgerEntryBatch, splitBatch_eq, bind, get, getThe, MonadStateOf.get,
    EStateM.get, EStateM.bind] at h
  split at h
  · rename_i l₁ h₁
    obtain ⟨rfl, -⟩ := execIf_ok env h₁
    obtain ⟨rfl, -⟩ := execIf_ok env h
    simp only [flushStmts, SqlTx.run_append, decide_eq_true_eq]
  · cases h

/-- A failed flush leaves the batch as it was. -/
theorem flushLedgerEntryBatch_error {l l' : LedgerUpdaterTx} {err : GoError}
    (h : flushLedgerEntryBatch env l = .error err l') :
    ∃ stmts, l' = { l with tx := l.tx.run stmts } := by
  simp only [flushLedgerEntryBatch, splitBatch_eq, bind, get, getThe, MonadStateOf.get,
    EStateM.get, EStateM.bind] at h
  split at h
  · rename_i l₁ h₁
    obtain ⟨rfl, -⟩ := execIf_ok env h₁
    exact ⟨_, (execIf_error env h).trans rfl⟩
  · rename_i l₁ h₁
    cases h
    exact ⟨[], by rw [execIf_error env h₁]; simp⟩

theorem flushThenReset_ok {l l' : LedgerUpdaterTx} {u : Unit}
    (h : (flushLedgerEntryBatch env >>= fun _ => resetBatch) l = .ok u l') :
    l' = { l with
      tx := l.tx.run (flushStmts (env.mapOrder l.tx.log l.keyToEntryBatch))
      keyToEntryBatch := ∅ } := by
  obtain ⟨_, l₁, h₁, h₂⟩ := EStateM.bind_eq_ok.1 h
  rw [flushLedgerEntryBatch_ok env h₁] at h₂
  cases h₂
  rfl

/-- A successful `upsertLedgerEntry` buffers the encoded entry, then flushes and empties the map
    if it holds `maxBatchSize` keys or more. -/
theorem upsertLedgerEntry_ok {key : K} {entry : E} {l l' : LedgerUpdaterTx} {u : Unit}
    (h : upsertLedgerEntry env key entry l = .ok u l') :
    ∃ encodedKey encodedEntry, encodeLedgerKey env key = .ok encodedKey ∧
      env.marshalEntry entry = .ok encodedEntry ∧
      let batch := l.keyToEntryBatch.insert encodedKey (some encodedEntry)
      l' = if (batch.entries.length : Int) ≥ l.maxBatchSize then
          { l with tx := l.tx.run (flushStmts (env.mapOrder l.tx.log batch)), keyToEntryBatch := ∅ }
        else { l with keyToEntryBatch := batch } := by
  cases hk : encodeLedgerKey env key with
  | error err => simp [upsertLedgerEntry, hk, bind, EStateM.bind] at h
  | ok encodedKey =>
    cases he : env.marshalEntry entry with
    | error err => simp [upsertLedgerEntry, hk, he, bind, EStateM.bind] at h
    | ok encodedEntry =>
      refine ⟨encodedKey, encodedEntry, rfl, rfl, ?_⟩
      simp only [upsertLedgerEntry, hk, he, liftExcept_ok, bind, EStateM.bind, modify, modifyGet,
        MonadStateOf.modifyGet, EStateM.modifyGet, get, getThe, MonadStateOf.get, EStateM.get] at h
      dsimp only
      split_ifs at h ⊢
      · exact flushThenReset_ok env h
      · cases h; rfl

/-- A successful `deleteLedgerEntry` buffers the delete, then flushes and empties the map if it
    holds more than `maxBatchSize` keys. -/
theorem deleteLedgerEntry_ok {key : K} {l l' : LedgerUpdaterTx} {u : Unit}
    (h : deleteLedgerEntry env key l = .ok u l') :
    ∃ encodedKey, encodeLedgerKey env key = .ok encodedKey ∧
      let batch := l.keyToEntryBatch.insert encodedKey none
      l' = if (batch.entries.length : Int) > l.maxBatchSize then
          { l with tx := l.tx.run (flushStmts (env.mapOrder l.tx.log batch)), keyToEntryBatch := ∅ }
        else { l with keyToEntryBatch := batch } := by
  cases hk : encodeLedgerKey env key with
  | error err => simp [deleteLedgerEntry, hk, bind, EStateM.bind] at h
  | ok encodedKey =>
    refine ⟨encodedKey, rfl, ?_⟩
    simp only [deleteLedgerEntry, hk, liftExcept_ok, bind, EStateM.bind, modify, modifyGet,
      MonadStateOf.modifyGet, EStateM.modifyGet, get, getThe, MonadStateOf.get, EStateM.get] at h
    dsimp only
    split_ifs at h ⊢
    · exact flushThenReset_ok env h
    · cases h; rfl

theorem withRollback_ok {x : UpdaterM Unit} {l l' : LedgerUpdaterTx} {u : Unit}
    (h : withRollback x l = .ok u l') : x l = .ok () l' := by
  unfold withRollback at h
  split at h <;> cases h
  assumption

theorem withRollback_error {x : UpdaterM Unit} {l l' : LedgerUpdaterTx} {err : GoError}
    (h : withRollback x l = .error err l') :
    ∃ l₁, x l = .error err l₁ ∧ l' = { l₁ with tx := l₁.tx.rollback } := by
  unfold withRollback at h
  split at h <;> cases h
  exact ⟨_, ‹_›, rfl⟩

end Steps

/-! ## Methods that keep the transaction open

Every method but `commit` and the rollbacks only runs statements: it keeps the committed tables
and the status of the transaction, whatever it returns. -/

/-- `x` keeps the committed tables and the status of the transaction, whatever it returns. -/
def KeepsTx {α : Type} (x : UpdaterM α) : Prop :=
  ∀ l, (x l).state.tx.committed = l.tx.committed ∧ (x l).state.tx.status = l.tx.status

section KeepsTx

variable {α β : Type} (env : Env K E)

theorem KeepsTx.bind {x : UpdaterM α} {f : α → UpdaterM β} (hx : KeepsTx x)
    (hf : ∀ a, KeepsTx (f a)) : KeepsTx (x >>= f) := by
  intro l
  show (EStateM.bind x f l).state.tx.committed = _ ∧ (EStateM.bind x f l).state.tx.status = _
  obtain ⟨h1, h2⟩ := hx l
  unfold EStateM.bind
  rcases hxl : x l with ⟨a, t⟩ | ⟨e, t⟩
  · rw [hxl] at h1 h2
    exact ⟨(hf a t).1.trans h1, (hf a t).2.trans h2⟩
  · rw [hxl] at h1 h2
    exact ⟨h1, h2⟩

theorem KeepsTx.ite {p : Prop} [Decidable p] {x y : UpdaterM α} (hx : KeepsTx x)
    (hy : KeepsTx y) : KeepsTx (if p then x else y) := by
  split <;> assumption

theorem keepsTx_pure (a : α) : KeepsTx (pure a : UpdaterM α) := fun _ => ⟨rfl, rfl⟩

theorem keepsTx_get : KeepsTx (get : UpdaterM LedgerUpdaterTx) := fun _ => ⟨rfl, rfl⟩

theorem keepsTx_liftExcept (r : Except GoError α) : KeepsTx (liftExcept r) := by
  intro l; cases r <;> exact ⟨rfl, rfl⟩

theorem keepsTx_modifyBatch (f : LedgerUpdaterTx → Batch) :
    KeepsTx (modify fun l => { l with keyToEntryBatch := f l } : UpdaterM Unit) :=
  fun _ => ⟨rfl, rfl⟩

theorem keepsTx_exec (stmt : Stmt) : KeepsTx (exec env stmt) := by
  intro l
  unfold exec
  split
  · rename_i tx htx
    obtain ⟨-, -, rfl⟩ := SqlTx.exec_eq_ok.1 htx
    exact ⟨rfl, rfl⟩
  · exact ⟨rfl, rfl⟩

theorem keepsTx_execIf (cond : Bool) (stmt : Stmt) : KeepsTx (execIf env cond stmt) :=
  KeepsTx.ite (keepsTx_exec env stmt) (keepsTx_pure ())

theorem keepsTx_flushLedgerEntryBatch : KeepsTx (flushLedgerEntryBatch env) :=
  KeepsTx.bind keepsTx_get fun _ =>
    KeepsTx.bind (keepsTx_execIf env _ _) fun _ => keepsTx_execIf env _ _

theorem keepsTx_resetBatch : KeepsTx resetBatch := keepsTx_modifyBatch fun _ => ∅

theorem keepsTx_upsertLedgerEntry (key : K) (entry : E) :
    KeepsTx (upsertLedgerEntry env key entry) :=
  KeepsTx.bind (keepsTx_liftExcept _) fun _ => KeepsTx.bind (keepsTx_liftExcept _) fun _ =>
    KeepsTx.bind (keepsTx_modifyBatch _) fun _ => KeepsTx.bind keepsTx_get fun _ =>
      KeepsTx.ite (KeepsTx.bind (keepsTx_flushLedgerEntryBatch env) fun _ => keepsTx_resetBatch)
        (keepsTx_pure ())

theorem keepsTx_deleteLedgerEntry (key : K) : KeepsTx (deleteLedgerEntry env key) :=
  KeepsTx.bind (keepsTx_liftExcept _) fun _ =>
    KeepsTx.bind (keepsTx_modifyBatch _) fun _ => KeepsTx.bind keepsTx_get fun _ =>
      KeepsTx.ite (KeepsTx.bind (keepsTx_flushLedgerEntryBatch env) fun _ => keepsTx_resetBatch)
        (keepsTx_pure ())

theorem keepsTx_done : KeepsTx (done env) :=
  KeepsTx.bind (keepsTx_flushLedgerEntryBatch env) fun _ =>
    KeepsTx.bind keepsTx_get fun _ => keepsTx_exec env _

end KeepsTx

/-! ## A writer's calls -/

/-- A call a writer makes on an updater. -/
inductive Call (K E : Type) where
  | upsert (key : K) (entry : E)
  | delete (key : K)

/-- The exported method a call runs. -/
def Call.run (env : Env K E) : Call K E → UpdaterM Unit
  | .upsert key entry => UpsertLedgerEntry env key entry
  | .delete key => DeleteLedgerEntry env key

/-- A writer's loop: the calls in order, stopping at the first error. -/
def runCalls (env : Env K E) : List (Call K E) → UpdaterM Unit
  | [] => pure ()
  | call :: calls => do
    call.run env
    runCalls env calls

theorem runCalls_cons_ok (env : Env K E) {call : Call K E} {calls : List (Call K E)}
    {l l' : LedgerUpdaterTx} {u : Unit} (h : runCalls env (call :: calls) l = .ok u l') :
    ∃ l₁, call.run env l = .ok () l₁ ∧ runCalls env calls l₁ = .ok () l' := by
  obtain ⟨⟨⟩, l₁, h₁, h₂⟩ := EStateM.bind_eq_ok.1 h
  exact ⟨l₁, h₁, h₂⟩

/-- A writer's update: the calls, then `Done`. -/
def updateLedgerEntries (env : Env K E) (calls : List (Call K E)) : UpdaterM Unit := do
  runCalls env calls
  Done env

end SorobanRpc.LedgerEntryStorage
