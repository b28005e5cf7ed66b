import SorobanRpc.LedgerEntryStorage.Refinement

set_option autoImplicit false

/-! # The entry store over many updates

What the ledger-entry database is for: a store of encoded entries by encoded key, with the ledger
sequence it was last written at (`EntryStore`, held by a database as `EntryStore.tables`). A
writer's update (`update`: an updater opened on the database, its calls, then `Done`) either
commits, and is then one step of the store, which applies the calls' changes in order and sets the
sequence, or leaves the database as it was (`update_cases`). This holds whatever the update returns:
a commit whose post-commit hook fails has still committed (`updateLedgerEntries_committed`). By
induction, every run of updates is a run of the store in which some updates are skipped
(`runUpdates_refines`).

`GetLedgerEntry` reads the store back (`GetLedgerEntry_tables`), so after an update that has
committed, reading the key of its last call returns what that call wrote, with the update's
sequence (`update_readLastWrite`). -/

namespace SorobanRpc.LedgerEntryStorage

variable {K E : Type}

/-! ## The abstract store -/

/-- What the database holds: the encoded entries by encoded key, and the ledger sequence it was
    last written at. -/
structure EntryStore where
  entries : Table
  latestLedgerSequence : UInt32

/-- The database `db` with its entry table and its `LatestLedgerSequence` taken from the store. -/
def EntryStore.tables (s : EntryStore) (db : Tables) : Tables :=
  Function.update (Function.update db ledgerEntriesTableName s.entries) metaTableName
    (Function.update (db metaTableName) latestLedgerSequenceMetaKey
      (some (sprintfDecimal s.latestLedgerSequence)))

/-- One update of the store: the changes in order, then the new sequence. -/
def EntryStore.apply (s : EntryStore) (changes : List (String × Option String))
    (sequence : UInt32) : EntryStore :=
  ⟨applyChanges s.entries changes, sequence⟩

/-- Runs of the store along writers' updates `(sequence, calls)`: each update is applied with its
    calls' changes, or skipped. -/
inductive EntryStore.Run (env : Env K E) :
    EntryStore → List (UInt32 × List (Call K E)) → EntryStore → Prop
  | nil (s : EntryStore) : Run env s [] s
  | skip {s s' : EntryStore} {sequence : UInt32} {calls : List (Call K E)}
      {us : List (UInt32 × List (Call K E))} :
      Run env s us s' → Run env s ((sequence, calls) :: us) s'
  | apply {s s' : EntryStore} {sequence : UInt32} {calls : List (Call K E)}
      {changes : List (String × Option String)} {us : List (UInt32 × List (Call K E))} :
      calls.mapM (Call.encode env) = .ok changes → Run env (s.apply changes sequence) us s' →
      Run env s ((sequence, calls) :: us) s'

theorem EntryStore.tables_entries (s : EntryStore) (db : Tables) :
    s.tables db ledgerEntriesTableName = s.entries := by
  simp [EntryStore.tables, Function.update_noteq (Ne.symm metaTableName_ne)]

/-- `getLatestLedgerSequence` on a database that holds a store, when the engine answers: the store's
    sequence. -/
theorem getLatestLedgerSequence_tables (engine : Engine) (s : EntryStore) (db : Tables)
    (h : engine [] (.select "value" metaTableName latestLedgerSequenceMetaKey) (s.tables db) =
      none) :
    getLatestLedgerSequence engine (s.tables db) = .ok s.latestLedgerSequence := by
  simp only [getLatestLedgerSequence, h]
  simp only [EntryStore.tables, Function.update_same, parseUint_sprintfDecimal, bind, Except.bind,
    pure, Except.pure, UInt32.ofNat_toNat_eq]

/-- An update of a database that holds a store is the update of the store. -/
theorem expectedTables_tables (s : EntryStore) (db : Tables)
    (changes : List (String × Option String)) (sequence : UInt32) :
    expectedTables (s.tables db) changes sequence = (s.apply changes sequence).tables db := by
  funext t
  by_cases hm : t = metaTableName
  · subst hm
    simp [expectedTables, EntryStore.tables, EntryStore.apply]
  · by_cases hl : t = ledgerEntriesTableName
    · subst hl
      simp [expectedTables, EntryStore.tables_entries, EntryStore.tables, EntryStore.apply,
        Function.update_noteq (Ne.symm metaTableName_ne)]
    · simp [expectedTables, EntryStore.tables, hm, hl]

/-- The last change on a key wins. -/
theorem applyChanges_concat (t : Table) (changes : List (String × Option String))
    (change : String × Option String) :
    applyChanges t (changes ++ [change]) = Function.update (applyChanges t changes) change.1
      change.2 := by
  simp [applyChanges, List.foldl_append]

/-! ## Updates -/

/-- A writer's update of the database `db` at ledger `sequence`: an updater opened on it, the
    calls, then `Done`. The database after it is what the transaction has left committed. -/
def update (env : Env K E) (maxBatchSize : Int) (db : Tables) (sequence : UInt32)
    (calls : List (Call K E)) : Tables :=
  match NewLedgerEntryUpdaterTx env db sequence maxBatchSize with
  | .ok l => (updateLedgerEntries env calls l).state.tx.committed
  | .error _ => db

/-- Writers' updates `(sequence, calls)` one after the other, each on the database the one before
    left. -/
def runUpdates (env : Env K E) (maxBatchSize : Int) :
    Tables → List (UInt32 × List (Call K E)) → Tables
  | db, [] => db
  | db, (sequence, calls) :: us =>
    runUpdates env maxBatchSize (update env maxBatchSize db sequence calls) us

section Updates

variable (env : Env K E) (hperm : ∀ log batch, (env.mapOrder log batch).Perm batch.entries)
include hperm

/-- An update leaves the database as it was, or applies its calls' changes and the new sequence. -/
theorem update_cases (maxBatchSize : Int) (db : Tables) (sequence : UInt32)
    (calls : List (Call K E)) :
    update env maxBatchSize db sequence calls = db ∨
      ∃ changes, calls.mapM (Call.encode env) = .ok changes ∧
        update env maxBatchSize db sequence calls = expectedTables db changes sequence := by
  unfold update
  split
  · rename_i l hnew
    obtain ⟨hcommitted, hkept⟩ := updateLedgerEntries_committed env hperm hnew calls
    by_cases hs : (updateLedgerEntries env calls l).state.tx.status = .committed
    · exact .inr (hcommitted hs)
    · exact .inl (hkept hs)
  · exact .inl rfl

/-- Every run of writers' updates, on a database that holds a store, with every batch size, every
    fault of the engine and every iteration order of the batch map, is a run of the store. -/
theorem runUpdates_refines (maxBatchSize : Int) (db : Tables)
    (us : List (UInt32 × List (Call K E))) (s : EntryStore) :
    ∃ s', s.Run env us s' ∧ runUpdates env maxBatchSize (s.tables db) us = s'.tables db := by
  induction us generalizing s with
  | nil => exact ⟨s, .nil s, rfl⟩
  | cons u us ih =>
    obtain ⟨sequence, calls⟩ := u
    rcases update_cases env hperm maxBatchSize (s.tables db) sequence calls with
      h | ⟨changes, hcs, h⟩
    · obtain ⟨s', hrun, hdb⟩ := ih s
      exact ⟨s', .skip hrun, by rw [runUpdates, h, hdb]⟩
    · obtain ⟨s', hrun, hdb⟩ := ih (s.apply changes sequence)
      exact ⟨s', .apply hcs hrun, by rw [runUpdates, h, expectedTables_tables, hdb]⟩

end Updates

/-- The empty store at ledger 0, on a database with no other table. -/
def emptyStore : EntryStore := ⟨fun _ => none, 0⟩

/-- A database with no table. -/
def noTables : Tables := fun _ _ => none

/-- One update of the empty store at ledger 10, with one upsert: the run of the store applies it,
    so the store holds the upserted entry at ledger 10. -/
theorem runUpdates_refines_oneUpsert :
    (∀ log batch, (plainEnv.mapOrder log batch).Perm batch.entries) ∧
      ∃ s', emptyStore.Run plainEnv [(10, [.upsert "a" "x"])] s' ∧
        runUpdates plainEnv 1 (emptyStore.tables noTables) [(10, [.upsert "a" "x"])] =
          s'.tables noTables ∧ s'.entries "a" = some "x" ∧ s'.latestLedgerSequence = 10 := by
  obtain ⟨s', hrun, hdb⟩ :=
    runUpdates_refines plainEnv plainEnv_mapOrder_perm 1 noTables [(10, [.upsert "a" "x"])] emptyStore
  refine ⟨plainEnv_mapOrder_perm, s', hrun, hdb, ?entries, ?sequence⟩
  case entries =>
    rw [← EntryStore.tables_entries s' noTables, ← hdb]
    rfl
  case sequence =>
    have h := getLatestLedgerSequence_tables plainEnv.engine s' noTables rfl
    rw [← hdb] at h
    exact Except.ok.inj (h.symm.trans rfl)

/-! ## Reading the store back -/

/-- `GetLedgerEntry` on a database that holds a store, when the engine answers: the decoded entry
    under the encoded key, or none, and the store's sequence. -/
theorem GetLedgerEntry_tables (env : Env K E) (s : EntryStore) (db : Tables) {key : K}
    {k : String} (hk : env.marshalKey key = .ok k)
    (hbegin : env.engine [] (.begin true) (s.tables db) = none)
    (hseq : env.engine [] (.select "value" metaTableName latestLedgerSequenceMetaKey)
      (s.tables db) = none)
    (hentry : env.engine [] (.select "entry" ledgerEntriesTableName k) (s.tables db) = none) :
    GetLedgerEntry env (s.tables db) key =
      match s.entries k with
      | none => .ok (none, s.latestLedgerSequence)
      | some bin =>
        match env.unmarshalEntry bin with
        | .ok entry => .ok (some entry, s.latestLedgerSequence)
        | .error err => if err = errNoRows then .ok (none, s.latestLedgerSequence) else .error err := by
  simp only [GetLedgerEntry, hbegin, getLatestLedgerSequence_tables env.engine s db hseq,
    getLedgerEntry, encodeLedgerKey, hk, hentry, EntryStore.tables_entries, bind, Except.bind]
  cases s.entries k with
  | none => rfl
  | some bin =>
    dsimp only
    cases env.unmarshalEntry bin <;> rfl

/-- The key a call writes. -/
def Call.key : Call K E → K
  | .upsert key _ => key
  | .delete key => key

/-- The entry a call leaves under its key. -/
def Call.entry : Call K E → Option E
  | .upsert _ entry => some entry
  | .delete _ => none

/-- A call's change is on its encoded key, and holds the encoding of its entry. -/
theorem Call.encode_ok {env : Env K E} {c : Call K E} {change : String × Option String} {k : String}
    (hk : env.marshalKey c.key = .ok k) (h : c.encode env = .ok change) :
    change.1 = k ∧ (change.2 = none ↔ c.entry = none) ∧
      ∀ entry bin, c.entry = some entry → change.2 = some bin → env.marshalEntry entry = .ok bin := by
  cases c with
  | upsert key entry =>
    simp only [Call.key] at hk
    cases hm : env.marshalEntry entry with
    | error e => simp [Call.encode, encodeLedgerKey, hk, hm, bind, Except.bind] at h
    | ok bin =>
      simp only [Call.encode, encodeLedgerKey, hk, hm, bind, Except.bind, pure, Except.pure,
        Except.ok.injEq] at h
      subst h
      refine ⟨rfl, by simp [Call.entry], fun e b he hb => ?_⟩
      simp only [Call.entry, Option.some.injEq] at he hb
      rw [← he, ← hb, hm]
  | delete key =>
    simp only [Call.key] at hk
    simp only [Call.encode, encodeLedgerKey, hk, bind, Except.bind, pure, Except.pure,
      Except.ok.injEq] at h
    subst h
    exact ⟨rfl, by simp [Call.entry], fun _ _ he => by cases he⟩

section Reads

variable (env : Env K E) (hperm : ∀ log batch, (env.mapOrder log batch).Perm batch.entries)
include hperm

/-- Read your writes: after an update whose last call is on `key`, the database is as it was, or
    `GetLedgerEntry(key)` returns what that call left under the key and the update's sequence,
    when the entry codec round-trips and the engine answers the reads. -/
theorem update_readLastWrite (maxBatchSize : Int) (s : EntryStore) (db : Tables)
    (sequence : UInt32) (calls : List (Call K E)) (c : Call K E) {k : String}
    (hk : env.marshalKey c.key = .ok k)
    (hcodec : ∀ entry bin, env.marshalEntry entry = .ok bin → env.unmarshalEntry bin = .ok entry)
    {db' : Tables} (hdb' : update env maxBatchSize (s.tables db) sequence (calls ++ [c]) = db')
    (hbegin : env.engine [] (.begin true) db' = none)
    (hseq : env.engine [] (.select "value" metaTableName latestLedgerSequenceMetaKey) db' = none)
    (hentry : env.engine [] (.select "entry" ledgerEntriesTableName k) db' = none) :
    db' = s.tables db ∨ GetLedgerEntry env db' c.key = .ok (c.entry, sequence) := by
  subst hdb'
  rcases update_cases env hperm maxBatchSize (s.tables db) sequence (calls ++ [c]) with
    h | ⟨changes, hcs, h⟩
  · exact .inl h
  · right
    rw [h, expectedTables_tables] at hbegin hseq hentry ⊢
    rw [GetLedgerEntry_tables env _ db hk hbegin hseq hentry]
    obtain ⟨changes₁, change, -, hc, rfl⟩ := mapM_concat_eq_ok.1 hcs
    obtain ⟨hkey, hnone, hbin⟩ := Call.encode_ok hk hc
    have hlast : (s.apply (changes₁ ++ [change]) sequence).entries k = change.2 := by
      show applyChanges s.entries (changes₁ ++ [change]) k = change.2
      rw [applyChanges_concat, ← hkey, Function.update_same]
    rw [hlast]
    cases hv : change.2 with
    | none => rw [hnone.1 hv]; rfl
    | some bin =>
      cases he : c.entry with
      | none => rw [hnone.2 he] at hv; cases hv
      | some entry =>
        dsimp only
        rw [hcodec entry bin (hbin entry bin he hv)]
        rfl

end Reads

/-- Three calls on an empty database at ledger 10: the key written by an upsert alone reads back. -/
example : GetLedgerEntry plainEnv (update plainEnv 1
    ((⟨fun _ => none, 0⟩ : EntryStore).tables fun _ _ => none) 10
    [.upsert "a" "x", .upsert "b" "y", .delete "a"]) "b" = .ok (some "y", 10) := rfl

theorem update_readLastWrite_upsert :
    (∀ log batch, (plainEnv.mapOrder log batch).Perm batch.entries) ∧
      plainEnv.marshalKey (Call.upsert "a" "x").key = .ok "a" ∧
      (∀ entry bin, plainEnv.marshalEntry entry = .ok bin →
        plainEnv.unmarshalEntry bin = .ok entry) ∧
      (update plainEnv 1 (emptyStore.tables noTables) 10 ([] ++ [.upsert "a" "x"]) ≠
          emptyStore.tables noTables ∧
        GetLedgerEntry plainEnv (update plainEnv 1 (emptyStore.tables noTables) 10
          ([] ++ [.upsert "a" "x"])) (Call.upsert "a" "x").key =
            .ok ((Call.upsert "a" "x").entry, 10)) :=
  have hne : update plainEnv 1 (emptyStore.tables noTables) 10 ([] ++ [.upsert "a" "x"]) ≠
      emptyStore.tables noTables :=
    fun h => absurd (congrFun (congrFun h ledgerEntriesTableName) "a") (by decide)
  ⟨plainEnv_mapOrder_perm, rfl, fun _ _ h => by cases h; rfl, hne,
    (update_readLastWrite plainEnv plainEnv_mapOrder_perm 1 _ _ 10 [] (.upsert "a" "x") rfl
      (fun _ _ h => by cases h; rfl) rfl rfl rfl rfl).resolve_left hne⟩

end SorobanRpc.LedgerEntryStorage
