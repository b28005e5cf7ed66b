import SorobanRpc.Events.MemoryStore

set_option autoImplicit false

/-! # What the event store holds after a run of `IngestEvents`

The event store exists to answer `Scan` over the events of the last `retentionWindow` ledgers it
was given. This module states that purpose over whole runs. `MemoryStore.ingestAll` is
`IngestEvents` of ledgers one after the other, stopping at the first error, and `keepLast n l`,
the last `n` buckets of everything ingested, oldest first, is the abstract store.

`MemoryStore.ingestEvents_toList` is the step: a successful call read the ledger's events and
left the window at `keepLast` of one more bucket (`keepLast_concat` is the FIFO `Append`
implements). `ingestAll_toList` is the run: after any successful run the window holds
`keepLast retentionWindow` of the buckets it held followed by the buckets of the ingested
ledgers, each with the events `readEvents` read (`bucketsOf`). `ingestAll_ascending` gives the
invariant `Scan` relies on: every bucket is sorted by position when the store's buckets were and
the ledgers' transactions come in strictly increasing index. -/

namespace SorobanRpc.Events

open LedgerBucketWindow

variable {α : Type}

/-! ## The abstract store -/

/-- The last `n` elements of `l`. -/
def keepLast {β : Type} (n : Nat) (l : List β) : List β :=
  l.drop (l.length - n)

section KeepLast

variable {β : Type} {n : Nat}

theorem keepLast_of_length_le {l : List β} (h : l.length ≤ n) : keepLast n l = l := by
  rw [keepLast, Nat.sub_eq_zero_of_le h, List.drop_zero]

theorem length_keepLast (l : List β) : (keepLast n l).length = min n l.length := by
  rw [keepLast, List.length_drop]
  omega

theorem mem_of_mem_keepLast {l : List β} {b : β} (h : b ∈ keepLast n l) : b ∈ l :=
  List.mem_of_mem_drop h

/-- Adding one element keeps the last `n` elements, dropping the oldest when there were `n` of
    them: the FIFO that `Append` implements. -/
theorem keepLast_concat (hn : 0 < n) (l : List β) (b : β) :
    keepLast n (l ++ [b]) =
      (if (keepLast n l).length < n then keepLast n l else (keepLast n l).tail) ++ [b] := by
  rw [length_keepLast]
  by_cases h : l.length < n
  · rw [if_pos (by omega), keepLast_of_length_le h.le,
      keepLast_of_length_le (by rw [List.length_append, List.length_singleton]; omega)]
  · rw [if_neg (by omega), keepLast, keepLast, List.tail_drop, List.length_append,
      List.length_singleton, List.drop_append_of_le_length (by omega)]
    congr 2
    omega

/-- Keeping the last `n` elements of a prefix first changes nothing. -/
theorem keepLast_keepLast_append (l r : List β) :
    keepLast n (keepLast n l ++ r) = keepLast n (l ++ r) := by
  unfold keepLast
  rw [← List.drop_append_of_le_length (Nat.sub_le l.length n), List.drop_drop, List.length_drop,
    List.length_append]
  congr 1
  omega

end KeepLast

/-- The buckets of the ledgers, each with the events `readEvents` reads, or the first read
    error. -/
def bucketsOf (metas : List (LedgerCloseMeta α)) :
    Except String (List (LedgerBucket (List (Event α)))) :=
  metas.mapM fun ledgerCloseMeta => (readEvents ledgerCloseMeta).map (bucketOf ledgerCloseMeta)

theorem bucketsOf_cons {ledgerCloseMeta : LedgerCloseMeta α} {metas : List (LedgerCloseMeta α)}
    {events : List (Event α)} {buckets : List (LedgerBucket (List (Event α)))}
    (hev : readEvents ledgerCloseMeta = .ok events) (h : bucketsOf metas = .ok buckets) :
    bucketsOf (ledgerCloseMeta :: metas) = .ok (bucketOf ledgerCloseMeta events :: buckets) := by
  unfold bucketsOf at h ⊢
  rw [List.mapM_cons, hev, h]
  rfl

/-! ## Runs of `IngestEvents` -/

/-- `IngestEvents` of the ledgers one after the other, stopping at the first error. -/
def MemoryStore.ingestAll (m : MemoryStore α) :
    List (LedgerCloseMeta α) → Except GoError (MemoryStore α)
  | [] => .ok m
  | ledgerCloseMeta :: metas => do
    let m ← m.ingestEvents ledgerCloseMeta
    m.ingestAll metas

theorem MemoryStore.ingestAll_cons {m m' : MemoryStore α} {ledgerCloseMeta : LedgerCloseMeta α}
    {metas : List (LedgerCloseMeta α)} (h : m.ingestAll (ledgerCloseMeta :: metas) = .ok m') :
    ∃ m₁, m.ingestEvents ledgerCloseMeta = .ok m₁ ∧ m₁.ingestAll metas = .ok m' := by
  rw [ingestAll] at h
  cases h₁ : m.ingestEvents ledgerCloseMeta with
  | error e => rw [h₁] at h; cases h
  | ok m₁ => rw [h₁] at h; exact ⟨m₁, rfl, h⟩

/-- A run followed by one more successful `IngestEvents` is a run. -/
theorem MemoryStore.ingestAll_concat {m m₁ m' : MemoryStore α} {metas : List (LedgerCloseMeta α)}
    {ledgerCloseMeta : LedgerCloseMeta α} (h : m.ingestAll metas = .ok m₁)
    (h' : m₁.ingestEvents ledgerCloseMeta = .ok m') :
    m.ingestAll (metas ++ [ledgerCloseMeta]) = .ok m' := by
  induction metas generalizing m with
  | nil => cases h; rw [List.nil_append, ingestAll, h']; rfl
  | cons meta metas ih =>
    obtain ⟨m₂, h₂, h⟩ := ingestAll_cons h
    rw [List.cons_append, ingestAll, h₂]
    exact ih h

/-- The step: a successful `IngestEvents` read the ledger's events and keeps the last
    `retentionWindow` buckets of the window followed by the ledger's. -/
theorem MemoryStore.ingestEvents_toList {m m' : MemoryStore α}
    {ledgerCloseMeta : LedgerCloseMeta α} (h : m.ingestEvents ledgerCloseMeta = .ok m') :
    ∃ events, readEvents ledgerCloseMeta = .ok events ∧
      m'.eventsByLedger.retentionWindow = m.eventsByLedger.retentionWindow ∧
      m'.eventsByLedger.toList = keepLast m.eventsByLedger.retentionWindow.toNat
        (m.eventsByLedger.toList ++ [bucketOf ledgerCloseMeta events]) := by
  obtain ⟨events, w, hev, hw, rfl⟩ := ingestEvents_eq_ok h
  obtain ⟨-, hret, hlist⟩ := toList_append hw
  refine ⟨events, hev, hret, ?_⟩
  rw [hlist, keepLast_concat m.eventsByLedger.retentionWindow_pos,
    keepLast_of_length_le (length_toList_le _)]

/-- The run: after ingesting `metas` the window holds the last `retentionWindow` of the buckets it
    held followed by the buckets of `metas`, each with the events `readEvents` read. -/
theorem ingestAll_toList {m m' : MemoryStore α} {metas : List (LedgerCloseMeta α)}
    (h : m.ingestAll metas = .ok m') :
    ∃ buckets, bucketsOf metas = .ok buckets ∧
      m'.eventsByLedger.retentionWindow = m.eventsByLedger.retentionWindow ∧
      m'.eventsByLedger.toList = keepLast m.eventsByLedger.retentionWindow.toNat
        (m.eventsByLedger.toList ++ buckets) := by
  induction metas generalizing m with
  | nil =>
    cases h
    exact ⟨[], rfl, rfl, by rw [List.append_nil, keepLast_of_length_le (length_toList_le _)]⟩
  | cons ledgerCloseMeta metas ih =>
    obtain ⟨m₁, h₁, h⟩ := MemoryStore.ingestAll_cons h
    obtain ⟨events, hev, hret₁, hlist₁⟩ := MemoryStore.ingestEvents_toList h₁
    obtain ⟨buckets, hbs, hret, hlist⟩ := ih h
    refine ⟨_, bucketsOf_cons hev hbs, hret.trans hret₁, ?_⟩
    rw [hlist, hret₁, hlist₁, keepLast_keepLast_append, List.append_assoc, List.singleton_append]

/-- An empty store that keeps two ledgers. -/
def twoLedgerStore : MemoryStore Unit :=
  ⟨⟨2, [], 0, by decide, Nat.zero_le _, .inl rfl, fun _ => rfl, List.chain'_nil⟩⟩

/-- Ledgers 5, 6 and 7 into a store of two: ledger 5 has been dropped. -/
example : ((twoLedgerStore.ingestAll ([5, 6, 7].map fun sequence =>
    (⟨sequence, 0, .ok ⟨[], none, none⟩⟩ : LedgerCloseMeta Unit))).map fun m =>
      m.eventsByLedger.toList.map LedgerBucket.ledgerSeq) = .ok [6, 7] := rfl

/-- A bucket of the store after a run was in the store before or is the bucket of one of the
    ingested ledgers. -/
theorem MemoryStore.mem_ingestAll {m m' : MemoryStore α} {metas : List (LedgerCloseMeta α)}
    (h : m.ingestAll metas = .ok m') {b : LedgerBucket (List (Event α))}
    (hb : b ∈ m'.eventsByLedger.toList) :
    b ∈ m.eventsByLedger.toList ∨ ∃ ledgerCloseMeta ∈ metas, ∃ events,
      readEvents ledgerCloseMeta = .ok events ∧ b = bucketOf ledgerCloseMeta events := by
  obtain ⟨buckets, hbs, -, hlist⟩ := ingestAll_toList h
  rw [hlist] at hb
  rcases List.mem_append.1 (mem_of_mem_keepLast hb) with hb | hb
  · exact .inl hb
  · obtain ⟨meta, hmeta, hb⟩ := exists_of_mem_mapM_ok hbs hb
    cases hev : readEvents meta with
    | error e => rw [hev] at hb; cases hb
    | ok events => rw [hev] at hb; cases hb; exact .inr ⟨meta, hmeta, events, hev, rfl⟩

/-- Every bucket of the store after a run is sorted by position when the store's buckets were
    and each ingested ledger's transactions come in strictly increasing index. -/
theorem ingestAll_ascending {m m' : MemoryStore α} {metas : List (LedgerCloseMeta α)}
    (hm : ∀ b ∈ m.eventsByLedger.toList, Ascending b.bucketContent)
    (hindex : ∀ ledgerCloseMeta ∈ metas, ∀ txReader,
      ledgerCloseMeta.transactionReader = .ok txReader →
        txReader.transactions.Chain' fun t t' => t.index < t'.index)
    (h : m.ingestAll metas = .ok m') :
    ∀ b ∈ m'.eventsByLedger.toList, Ascending b.bucketContent := by
  intro b hb
  rcases MemoryStore.mem_ingestAll h hb with hb | ⟨meta, hmeta, events, hev, rfl⟩
  · exact hm b hb
  · obtain ⟨txReader, hr, heq⟩ := readEvents_ok hev
    exact heq ▸ ascending_taggedEvents_of_chain (hindex meta hmeta txReader hr)

end SorobanRpc.Events
