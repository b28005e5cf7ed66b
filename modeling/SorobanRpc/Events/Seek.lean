import SorobanRpc.Events.ReadEvents

set_option autoImplicit false

/-! # Seeking the first event of a range

`seek` finds, with `sort.Search`, the first event of a bucket whose cursor is at least a given
cursor, and returns the events from there on. `search` is Go's `sort.Search`: a halving loop over
`[i, j)` that keeps two invariants, "every index below `i` fails" and "`j` is `n` or succeeds"
(`searchLoop_spec`). For a predicate that fails and then succeeds, `search` therefore returns the
first index that succeeds (`search_spec`).

On events strictly ascending in position, "`c` is at most the event's cursor in `c`'s ledger" is
such a predicate, so `seek` drops exactly the events below `c` (`seek_eq`). -/

namespace SorobanRpc.Events

/-- The halving loop of `sort.Search` on `[i, j)`; `f` is only called inside `[0, n)`. -/
def searchLoop {n : Nat} (f : Fin n → Bool) (i j : Nat) (hj : j ≤ n) : Nat :=
  if hij : i < j then
    let h := (i + j) / 2
    if !f ⟨h, by omega⟩ then searchLoop f (h + 1) j hj else searchLoop f i h (by omega)
  else i
termination_by j - i

/-- `sort.Search(n, f)`: the smallest index in `[0, n)` at which `f` is true, or `n`, provided `f`
    is false and then true. -/
def search (n : Nat) (f : Fin n → Bool) : Nat := searchLoop f 0 n (Nat.le_refl n)

/-- The loop invariants of `sort.Search`: everything below `i` fails, and `j` is `n` or succeeds.
    The loop keeps them and ends with `i = j`. -/
theorem searchLoop_spec {n : Nat} (f : Fin n → Bool)
    (hmono : ∀ (a b : Fin n), a ≤ b → f a = true → f b = true) (i j : Nat) (hj : j ≤ n) :
    i ≤ j → (∀ k : Fin n, k.val < i → f k = false) → (∀ hjn : j < n, f ⟨j, hjn⟩ = true) →
      searchLoop f i j hj ≤ j ∧ (∀ k : Fin n, k.val < searchLoop f i j hj → f k = false) ∧
        (∀ hr : searchLoop f i j hj < n, f ⟨searchLoop f i j hj, hr⟩ = true) := by
  induction i, j, hj using searchLoop.induct f with
  | case1 i j hj hij h hf ih =>
    intro _ hlo hhi
    rw [searchLoop, dif_pos hij, if_pos hf]
    refine ih (by omega) (fun k hk => ?_) hhi
    rcases Nat.lt_or_ge k.val i with hki | hki
    · exact hlo k hki
    · simp only [Bool.not_eq_true'] at hf
      cases hk' : f k
      · rfl
      · exact absurd (hmono k ⟨h, by omega⟩ (Fin.mk_le_mk.2 (by omega)) hk') (by simp [hf])
  | case2 i j hj hij h hf ih =>
    intro _ hlo _
    rw [searchLoop, dif_pos hij, if_neg hf]
    obtain ⟨hle, hbelow, hat⟩ := ih (by omega) hlo (fun _ => by simpa using hf)
    exact ⟨Nat.le_trans hle (show (i + j) / 2 ≤ j by omega), hbelow, hat⟩
  | case3 i j hj hij =>
    intro hle hlo hhi
    rw [searchLoop, dif_neg hij]
    obtain rfl : i = j := by omega
    exact ⟨le_rfl, hlo, hhi⟩

/-- `sort.Search` on a predicate that fails and then succeeds returns the first index at which it
    succeeds, or `n`. -/
theorem search_spec {n : Nat} (f : Fin n → Bool)
    (hmono : ∀ (a b : Fin n), a ≤ b → f a = true → f b = true) :
    search n f ≤ n ∧ (∀ k : Fin n, k.val < search n f → f k = false) ∧
      (∀ k : Fin n, search n f ≤ k.val → f k = true) := by
  unfold search
  obtain ⟨hle, hbelow, hat⟩ :=
    searchLoop_spec f hmono 0 n (Nat.le_refl n) (Nat.zero_le n) (fun k hk => absurd hk (by omega))
      (fun h => absurd h (Nat.lt_irrefl n))
  exact ⟨hle, hbelow, fun k hk => hmono _ k (Fin.mk_le_mk.2 hk) (hat (by omega))⟩

variable {α : Type}

/-- `seek`: the events from the first one whose cursor is at least `cursor` on. `events` must be
    sorted in ascending order. -/
def seek (events : List (Event α)) (cursor : Cursor) : List (Event α) :=
  let j := search events.length fun i => decide (cursor.cmp (events[i].cursor cursor.ledger) ≤ 0)
  events.drop j

/-- Splitting a list at `k` where `p` turns from false to true: the suffix is what `p` keeps,
    and what `dropWhile` leaves. -/
theorem List.drop_eq_filter_of_split {β : Type} (p : β → Bool) :
    ∀ (l : List β) (k : Nat), (∀ i (hi : i < l.length), i < k → p l[i] = false) →
      (∀ i (hi : i < l.length), k ≤ i → p l[i] = true) →
      l.drop k = l.filter p ∧ l.drop k = l.dropWhile (fun x => !p x)
  | [], _, _, _ => by simp
  | x :: l, 0, _, hafter => by
    have hall : ∀ y ∈ x :: l, p y = true := fun y hy => by
      obtain ⟨i, hi, rfl⟩ := List.mem_iff_getElem.1 hy
      exact hafter i hi (Nat.zero_le i)
    refine ⟨(List.filter_eq_self.2 hall).symm, ?_⟩
    simp [List.dropWhile_cons, hall x (List.mem_cons_self x l)]
  | x :: l, k + 1, hbefore, hafter => by
    have hx : p x = false := hbefore 0 (by simp) (by omega)
    obtain ⟨h1, h2⟩ := List.drop_eq_filter_of_split p l k
      (fun i hi hik => hbefore (i + 1) (by simp; omega) (by omega))
      (fun i hi hik => hafter (i + 1) (by simp; omega) (by omega))
    simp only [List.drop_succ_cons, List.filter_cons, hx, List.dropWhile_cons, Bool.not_false,
      if_true, Bool.false_eq_true, if_false]
    exact ⟨h1, h2⟩

/-- `seek` on events strictly ascending in position returns the suffix from the first event whose
    cursor in `cursor`'s ledger is at least `cursor`, and this suffix is what is left after
    dropping exactly the events below `cursor`. -/
theorem seek_eq (events : List (Event α)) (cursor : Cursor) (hasc : Ascending events) :
    seek events cursor = events.dropWhile (fun e => e.cursor cursor.ledger < cursor) ∧
      seek events cursor = events.filter (fun e => cursor ≤ e.cursor cursor.ledger) := by
  have hmono : ∀ (a b : Fin events.length), a ≤ b →
      decide (cursor.cmp (events[a].cursor cursor.ledger) ≤ 0) = true →
      decide (cursor.cmp (events[b].cursor cursor.ledger) ≤ 0) = true := by
    intro a b hab ha
    simp only [decide_eq_true_eq, Cursor.cmp_le_zero, Cursor.le_def, Event.toNat_cursor,
      Fin.getElem_fin] at ha ⊢
    rcases Nat.lt_or_eq_of_le (Fin.le_def.1 hab) with h | h
    · have := List.pairwise_iff_getElem.1 hasc a b a.isLt b.isLt h
      omega
    · rw [show b = a from Fin.ext h.symm]; exact ha
  obtain ⟨-, hbelow, hat⟩ := search_spec _ hmono
  obtain ⟨h1, h2⟩ := List.drop_eq_filter_of_split (fun e => decide (cursor ≤ e.cursor cursor.ledger))
    events (search events.length fun i => decide (cursor.cmp (events[i].cursor cursor.ledger) ≤ 0))
    (fun i hi hik => by simpa using hbelow ⟨i, hi⟩ hik)
    (fun i hi hik => by simpa using hat ⟨i, hi⟩ hik)
  refine ⟨h2.trans ?_, h1⟩
  congr 1
  funext e
  rw [← decide_not]
  exact decide_eq_decide.2 Nat.not_le

/-- The events of the `with cursor` test (ledger 5, transaction 1, operations 0 and 1, two events
    each), seeking from `5/1/0/1`: the first event is dropped. -/
theorem seek_withCursor :
    Ascending ([⟨0, 1, 0, 0⟩, ⟨1, 1, 0, 1⟩, ⟨2, 1, 1, 0⟩, ⟨3, 1, 1, 1⟩] : List (Event Nat)) ∧
      (seek [⟨0, 1, 0, 0⟩, ⟨1, 1, 0, 1⟩, ⟨2, 1, 1, 0⟩, ⟨3, 1, 1, 1⟩]
          { ledger := 5, tx := 1, event := 1 } =
        ([⟨0, 1, 0, 0⟩, ⟨1, 1, 0, 1⟩, ⟨2, 1, 1, 0⟩, ⟨3, 1, 1, 1⟩] : List (Event Nat)).dropWhile
          (fun e => e.cursor 5 < { ledger := 5, tx := 1, event := 1 }) ∧
        seek [⟨0, 1, 0, 0⟩, ⟨1, 1, 0, 1⟩, ⟨2, 1, 1, 0⟩, ⟨3, 1, 1, 1⟩]
          { ledger := 5, tx := 1, event := 1 } =
        ([⟨0, 1, 0, 0⟩, ⟨1, 1, 0, 1⟩, ⟨2, 1, 1, 0⟩, ⟨3, 1, 1, 1⟩] : List (Event Nat)).filter
          (fun e => { ledger := 5, tx := 1, event := 1 } ≤ e.cursor 5)) :=
  ⟨by decide, seek_eq _ _ (by decide)⟩

end SorobanRpc.Events
