import SorobanRpc.Events.MemoryStore

set_option autoImplicit false

/-! # What `Scan` visits

`Scan` walks the window bucket by bucket from the bucket of the range's start ledger, seeks into
that first bucket, and stops at the first cursor at or past the end of the range or when the
visitor returns `false`. The spec says it more simply: take every stored event whose cursor lies in
`[start, end)`, in cursor order, and hand them to the visitor until it returns `false`
(`MemoryStore.eventsIn`, `visitAll`). `scan_eq` proves the two agree on every window and every
accepted range, provided each bucket is sorted (I5, which `readEvents_spec` gives).

The proof flattens the two nested loops into one loop over a list (`scanList`,
`scanBuckets_eq`), shows that on a sorted list the end check is a filter (`scanList_sorted`), and
identifies the list the loop starts from: buckets before the start ledger lie below `start`, `seek`
drops exactly the events below `start` in its bucket, and later buckets lie above it
(`visible_eq_filter`, `filter_range_eq_drop`). -/

namespace SorobanRpc.Events

open LedgerBucketWindow

variable {α σ : Type}

/-- A bucket's events, each with its cursor in the bucket's ledger and the bucket's close time. -/
def bucketEvents (b : LedgerBucket (List (Event α))) : List (α × Cursor × Int) :=
  b.bucketContent.map fun e => (e.contents, e.cursor b.ledgerSeq, b.ledgerCloseTimestamp)

/-- Every stored event, bucket after bucket. -/
def MemoryStore.allEvents (m : MemoryStore α) : List (α × Cursor × Int) :=
  m.eventsByLedger.toList.flatMap bucketEvents

/-- The stored events whose cursor lies in `[start, end_)`. -/
def MemoryStore.eventsIn (m : MemoryStore α) (start end_ : Cursor) : List (α × Cursor × Int) :=
  m.allEvents.filter fun x => decide (start ≤ x.2.1) && decide (x.2.1 < end_)

/-- The visitor called on each element in order, stopping right after the first `false`. -/
def visitAll (f : Visitor σ α) : List (α × Cursor × Int) → σ → σ × Bool
  | [], s => (s, true)
  | (a, cur, t) :: rest, s => match f s a cur t with
    | (s, true) => visitAll f rest s
    | (s, false) => (s, false)

/-! ## One loop instead of two -/

/-- The loop of `Scan` over a flat list of events: end check, then visitor. -/
def scanList (f : Visitor σ α) (end_ : Cursor) : List (α × Cursor × Int) → σ → σ × Bool
  | [], s => (s, true)
  | (a, cur, t) :: rest, s =>
    if end_.cmp cur ≤ 0 then (s, false)
    else match f s a cur t with
      | (s, true) => scanList f end_ rest s
      | (s, false) => (s, false)

theorem scanEvents_eq (f : Visitor σ α) (end_ : Cursor) (ledgerSeq : UInt32) (timestamp : Int) :
    ∀ (events : List (Event α)) (s : σ), scanEvents f end_ ledgerSeq timestamp events s =
      scanList f end_ (events.map fun e => (e.contents, e.cursor ledgerSeq, timestamp)) s
  | [], _ => rfl
  | e :: events, s => by
    simp only [scanEvents, List.map_cons, scanList]
    split_ifs
    · rfl
    · match f s e.contents (e.cursor ledgerSeq) timestamp with
      | (s', true) => exact scanEvents_eq f end_ ledgerSeq timestamp events s'
      | (_, false) => rfl

theorem scanList_append (f : Visitor σ α) (end_ : Cursor) :
    ∀ (xs ys : List (α × Cursor × Int)) (s : σ), scanList f end_ (xs ++ ys) s =
      match scanList f end_ xs s with
      | (s, true) => scanList f end_ ys s
      | (s, false) => (s, false)
  | [], _, _ => rfl
  | (a, cur, t) :: xs, ys, s => by
    simp only [List.cons_append, scanList]
    split_ifs
    · rfl
    · match f s a cur t with
      | (s', true) => exact scanList_append f end_ xs ys s'
      | (_, false) => rfl

/-- On a list sorted by cursor, stopping at the first cursor at or past `end_` visits exactly the
    elements below `end_`. -/
theorem scanList_sorted (f : Visitor σ α) (end_ : Cursor) :
    ∀ (xs : List (α × Cursor × Int)) (s : σ), xs.Pairwise (fun x y => x.2.1 < y.2.1) →
      (scanList f end_ xs s).1 = (visitAll f (xs.filter fun x => decide (x.2.1 < end_)) s).1
  | [], _, _ => rfl
  | (a, cur, t) :: xs, s, hxs => by
    rw [List.pairwise_cons] at hxs
    simp only [scanList, List.filter_cons, Cursor.cmp_le_zero]
    by_cases hend : end_ ≤ cur
    · have hnil : xs.filter (fun x => decide (x.2.1 < end_)) = [] :=
        List.filter_eq_nil_iff.2 fun x hx => by
          have := hxs.1 x hx
          simp only [Cursor.le_def, Cursor.lt_def] at hend this
          simp only [decide_eq_true_eq, Cursor.lt_def]; omega
      have hcur : ¬ cur < end_ := by simp only [Cursor.le_def, Cursor.lt_def] at hend ⊢; omega
      simp [hend, hcur, hnil, visitAll]
    · have hcur : cur < end_ := by simp only [Cursor.le_def, Cursor.lt_def] at hend ⊢; omega
      simp only [hend, if_false, hcur, decide_True, if_true, visitAll]
      split <;> simp only [scanList_sorted f end_ xs _ hxs.2]

/-- A bucket as the bucket loop of `Scan` sees it: sought into when it holds `start`'s ledger. -/
def visible (start : Cursor) (b : LedgerBucket (List (Event α))) : List (α × Cursor × Int) :=
  (if b.ledgerSeq = start.ledger then seek b.bucketContent start else b.bucketContent).map
    fun e => (e.contents, e.cursor b.ledgerSeq, b.ledgerCloseTimestamp)

/-- The bucket loop of `Scan` from bucket `i` is the flat loop over the visible events of the
    buckets from `i` on. -/
theorem scanBuckets_eq (m : MemoryStore α) (r : Range) (f : Visitor σ α) :
    ∀ (i : UInt32) (s : σ), scanBuckets m r f i s =
      .ok (scanList f r.end_ ((m.eventsByLedger.toList.drop i.toNat).flatMap (visible r.start)) s).1 := by
  intro i s
  induction i, s using scanBuckets.induct m r f with
  | case1 i s hi ih =>
    have hi' : i.toNat < m.eventsByLedger.toList.length := by
      rw [← len_toNat]; exact hi
    have hsucc : (i + 1).toNat = i.toNat + 1 := UInt32.toNat_add_one (by
      have := m.eventsByLedger.len.toNat_lt; rw [← len_toNat] at hi'; omega)
    rw [scanBuckets, if_pos hi, get_of_lt _ _ hi', List.drop_eq_getElem_cons hi',
      List.flatMap_cons, scanList_append]
    simp only [bind, Except.bind, visible, scanEvents_eq]
    split <;> rename_i s' h <;> simp only [h, ih, hsucc]
  | case2 i s hi =>
    have hi' : m.eventsByLedger.toList.length ≤ i.toNat := by
      rw [← len_toNat]; exact Nat.not_lt.1 hi
    rw [scanBuckets, if_neg hi, List.drop_eq_nil_of_le hi']
    rfl

/-! ## Cursor order of the stored events -/

/-- With no wrap past the largest `uint32`, bucket `i` of the window holds ledger `f + i`. -/
theorem ledgerSeq_toList (m : MemoryStore α) (hne : 0 < m.eventsByLedger.toList.length)
    (hw : (m.eventsByLedger.toList[0]).ledgerSeq.toNat + m.eventsByLedger.toList.length ≤ 2 ^ 32)
    (i : Nat) (hi : i < m.eventsByLedger.toList.length) :
    (m.eventsByLedger.toList[i]).ledgerSeq.toNat =
      (m.eventsByLedger.toList[0]).ledgerSeq.toNat + i :=
  Contiguous.ledgerSeq_getElem m.eventsByLedger.contiguous hne hw i hi

theorem cursor_of_mem_bucketEvents {b : LedgerBucket (List (Event α))} {x : α × Cursor × Int}
    (hx : x ∈ bucketEvents b) :
    b.ledgerSeq.toNat * 2 ^ 96 ≤ x.2.1.toNat ∧ x.2.1.toNat < (b.ledgerSeq.toNat + 1) * 2 ^ 96 := by
  simp only [bucketEvents, List.mem_map] at hx
  obtain ⟨e, -, rfl⟩ := hx
  have := e.position_lt
  simp only [Event.toNat_cursor]
  omega

theorem sorted_bucketEvents {b : LedgerBucket (List (Event α))} (h : Ascending b.bucketContent) :
    (bucketEvents b).Pairwise fun x y => x.2.1 < y.2.1 := by
  simp only [bucketEvents, List.pairwise_map, Cursor.lt_def, Event.toNat_cursor]
  exact h.imp fun hab => by omega

/-- The stored events are sorted by cursor: each bucket is sorted, and the buckets hold increasing
    ledgers. -/
theorem sorted_allEvents (m : MemoryStore α)
    (hsorted : ∀ b ∈ m.eventsByLedger.toList, Ascending b.bucketContent)
    (hne : 0 < m.eventsByLedger.toList.length)
    (hw : (m.eventsByLedger.toList[0]).ledgerSeq.toNat + m.eventsByLedger.toList.length ≤ 2 ^ 32) :
    m.allEvents.Pairwise fun x y => x.2.1 < y.2.1 := by
  refine List.pairwise_flatMap.2 ⟨fun b hb => sorted_bucketEvents (hsorted b hb), ?_⟩
  refine List.pairwise_iff_getElem.2 fun i j hi hj hij x hx y hy => ?_
  have := cursor_of_mem_bucketEvents hx
  have := cursor_of_mem_bucketEvents hy
  rw [ledgerSeq_toList m hne hw] at *
  rw [Cursor.lt_def]
  omega

/-! ## The events `Scan` starts from -/

/-- A bucket at or after `start`'s ledger, as the bucket loop sees it, holds exactly its events at
    or after `start`: `seek` drops the events below `start` in `start`'s own ledger, and a later
    ledger lies wholly above `start`. -/
theorem visible_eq_filter (start : Cursor) (b : LedgerBucket (List (Event α)))
    (hasc : Ascending b.bucketContent) (hge : start.ledger.toNat ≤ b.ledgerSeq.toNat) :
    visible start b = (bucketEvents b).filter fun x => decide (start ≤ x.2.1) := by
  unfold visible bucketEvents
  rw [List.filter_map]
  split_ifs with hl
  · rw [(seek_eq _ _ hasc).2, hl]; rfl
  · congr 1
    refine (List.filter_eq_self.2 fun e _ => ?_).symm
    have hlt : start.ledger.toNat < b.ledgerSeq.toNat :=
      Nat.lt_of_le_of_ne hge fun h => hl (UInt32.ext h.symm)
    have := (Cursor.ledger_eq_iff start _).1 rfl
    simp only [Function.comp_apply, decide_eq_true_eq, Cursor.le_def, Event.toNat_cursor]
    omega

/-- Buckets before `start`'s ledger hold only events below `start`. -/
theorem lt_of_mem_bucketEvents {start : Cursor} {b : LedgerBucket (List (Event α))}
    (hlt : b.ledgerSeq.toNat < start.ledger.toNat) {x : α × Cursor × Int}
    (hx : x ∈ bucketEvents b) : x.2.1 < start := by
  have := cursor_of_mem_bucketEvents hx
  have := (Cursor.ledger_eq_iff start _).1 rfl
  rw [Cursor.lt_def]
  omega

/-- Buckets at or after `start`'s ledger, as the bucket loop sees them, hold exactly their events
    at or after `start`. -/
theorem flatMap_visible_eq_filter (start : Cursor) (bs : List (LedgerBucket (List (Event α))))
    (hsorted : ∀ b ∈ bs, Ascending b.bucketContent)
    (hfrom : ∀ b ∈ bs, start.ledger.toNat ≤ b.ledgerSeq.toNat) :
    bs.flatMap (visible start) = (bs.flatMap bucketEvents).filter fun x => decide (start ≤ x.2.1) := by
  rw [List.filter_flatMap]
  exact List.flatMap_congr fun b hb => visible_eq_filter _ _ (hsorted b hb) (hfrom b hb)

/-- Cut at the bucket `i` of `start`'s ledger, the events in `[start, end_)` are the events the
    bucket loop sees from bucket `i` on that lie below `end_`. -/
theorem filter_range_eq_drop (start end_ : Cursor) (bs : List (LedgerBucket (List (Event α))))
    (i : Nat) (hsorted : ∀ b ∈ bs, Ascending b.bucketContent)
    (hbefore : ∀ b ∈ bs.take i, b.ledgerSeq.toNat < start.ledger.toNat)
    (hfrom : ∀ b ∈ bs.drop i, start.ledger.toNat ≤ b.ledgerSeq.toNat) :
    (bs.flatMap bucketEvents).filter (fun x => decide (start ≤ x.2.1) && decide (x.2.1 < end_)) =
      ((bs.drop i).flatMap (visible start)).filter fun x => decide (x.2.1 < end_) := by
  have hnil : ((bs.take i).flatMap bucketEvents).filter
      (fun x => decide (start ≤ x.2.1) && decide (x.2.1 < end_)) = [] :=
    List.filter_eq_nil_iff.2 fun x hx => by
      obtain ⟨b, hb, hxb⟩ := List.mem_flatMap.1 hx
      simp [Cursor.le_def, Nat.not_le.2 (Cursor.lt_def.1 (lt_of_mem_bucketEvents (hbefore b hb) hxb))]
  rw [flatMap_visible_eq_filter start _ (fun b hb => hsorted b (List.mem_of_mem_drop hb)) hfrom,
    List.filter_filter]
  conv_lhs => rw [← List.take_append_drop i bs, List.flatMap_append, List.filter_append, hnil,
    List.nil_append]
  congr 1; funext x; exact Bool.and_comm _ _

/-- `Scan`, on a window whose buckets are sorted and a range `validateRange` accepts as `r`,
    calls the visitor on the stored events with cursor in `[r.start, r.end_)`, in ascending
    cursor order, until it returns `false`, and returns `Get(0).LedgerSeq + Len - 1`, which
    does not wrap. -/
theorem scan_eq (m : MemoryStore α) (eventRange r : Range) (f : Visitor σ α) (s : σ)
    (hsorted : ∀ b ∈ m.eventsByLedger.toList, Ascending b.bucketContent)
    (hvalid : m.validateRange eventRange = .ok r) :
    ∃ first, m.eventsByLedger.get 0 = .ok first ∧
      m.scan eventRange f s = .ok (first.ledgerSeq + (m.eventsByLedger.len - 1),
        (visitAll f (m.eventsIn r.start r.end_) s).1) ∧
      (first.ledgerSeq + (m.eventsByLedger.len - 1)).toNat =
        first.ledgerSeq.toNat + m.eventsByLedger.len.toNat - 1 ∧
      (m.eventsIn r.start r.end_).Pairwise fun x y => x.2.1 < y.2.1 := by
  obtain ⟨hne, hwrap, hstart, hstartlt, -, -⟩ := validateRange_bounds hvalid
  have hlen := len_toNat m.eventsByLedger
  have hledger := ledgerSeq_toList m hne hwrap.le
  have hsl := (Cursor.ledger_eq_iff r.start _).1 rfl
  have hle : (m.eventsByLedger.toList[0]).ledgerSeq ≤ r.start.ledger := by
    rw [UInt32.le_iff_toNat_le]; omega
  -- the window index of the start ledger
  generalize hi : r.start.ledger.toNat - (m.eventsByLedger.toList[0]).ledgerSeq.toNat = i
  have hfrom : ∀ b ∈ m.eventsByLedger.toList.drop i,
      r.start.ledger.toNat ≤ b.ledgerSeq.toNat := fun b hb => by
    obtain ⟨j, hj, rfl⟩ := List.mem_iff_getElem.1 hb
    rw [List.getElem_drop, hledger]; omega
  have hevents : m.eventsIn r.start r.end_ =
      ((m.eventsByLedger.toList.drop i).flatMap (visible r.start)).filter
        fun x => decide (x.2.1 < r.end_) :=
    filter_range_eq_drop _ _ _ i hsorted (fun b hb => by
      obtain ⟨j, hj, rfl⟩ := List.mem_iff_getElem.1 hb
      simp only [List.length_take] at hj
      rw [List.getElem_take, hledger]; omega) hfrom
  have hsortedFrom : ((m.eventsByLedger.toList.drop i).flatMap (visible r.start)).Pairwise
      fun x y => x.2.1 < y.2.1 := by
    have hall := sorted_allEvents m hsorted hne hwrap.le
    rw [MemoryStore.allEvents, ← List.take_append_drop i m.eventsByLedger.toList,
      List.flatMap_append] at hall
    rw [flatMap_visible_eq_filter _ _ (fun b hb => hsorted b (List.mem_of_mem_drop hb)) hfrom]
    exact (List.pairwise_append.1 hall).2.1.filter _
  refine ⟨_, get_zero _ hne, ?_, ?_, hevents ▸ hsortedFrom.filter _⟩
  · simp only [MemoryStore.scan, hvalid, get_zero _ hne, bind, Except.bind, scanBuckets_eq, pure,
      Except.pure]
    rw [UInt32.toNat_sub_of_le _ _ hle, hi, scanList_sorted _ _ _ _ hsortedFrom, ← hevents]
  · have h1 : (1 : UInt32).toNat = 1 := rfl
    rw [UInt32.toNat_add, UInt32.toNat_sub_of_le _ _ (by rw [UInt32.le_iff_toNat_le, h1]; omega),
      h1, UInt32.size_eq, Nat.mod_eq_of_lt (by omega)]
    omega

/-- The store of the `with cursor` test: ledger 5 holds events `5/1/0/0`, `5/1/0/1`,
    `5/1/1/0` and `5/1/1/1`, with contents `0` to `3`. -/
def withCursorStore : MemoryStore Nat :=
  ⟨⟨100, [⟨5, 0, [⟨0, 1, 0, 0⟩, ⟨1, 1, 0, 1⟩, ⟨2, 1, 1, 0⟩, ⟨3, 1, 1, 1⟩]⟩], 0, by decide,
    by decide, .inl rfl, fun _ => rfl, List.chain'_singleton _⟩⟩

/-- A visitor that collects the contents it is given and never stops. -/
def collect : Visitor (List Nat) Nat := fun acc a _ _ => (acc ++ [a], true)

/-- Scanning the `with cursor` store from `5/1/0/1` to the start of ledger 6 visits the last three
    events. -/
theorem scan_withCursor :
    (∀ b ∈ withCursorStore.eventsByLedger.toList, Ascending b.bucketContent) ∧
    withCursorStore.validateRange ⟨{ ledger := 5, tx := 1, event := 1 }, true, { ledger := 6 }, true⟩ =
      .ok ⟨{ ledger := 5, tx := 1, event := 1 }, true, { ledger := 6 }, true⟩ ∧
    ∃ first, withCursorStore.eventsByLedger.get 0 = .ok first ∧
      withCursorStore.scan ⟨{ ledger := 5, tx := 1, event := 1 }, true, { ledger := 6 }, true⟩
          collect [] = .ok (first.ledgerSeq + (withCursorStore.eventsByLedger.len - 1),
        (visitAll collect (withCursorStore.eventsIn { ledger := 5, tx := 1, event := 1 }
          { ledger := 6 }) []).1) ∧
      (first.ledgerSeq + (withCursorStore.eventsByLedger.len - 1)).toNat =
        first.ledgerSeq.toNat + withCursorStore.eventsByLedger.len.toNat - 1 ∧
      (withCursorStore.eventsIn { ledger := 5, tx := 1, event := 1 } { ledger := 6 }).Pairwise
        fun x y => x.2.1 < y.2.1 :=
  ⟨by decide, rfl, scan_eq withCursorStore
    ⟨{ ledger := 5, tx := 1, event := 1 }, true, { ledger := 6 }, true⟩
    ⟨{ ledger := 5, tx := 1, event := 1 }, true, { ledger := 6 }, true⟩ collect [] (by decide) rfl⟩

end SorobanRpc.Events
