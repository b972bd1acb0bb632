import Mathlib.Data.List.DropRight
import Mathlib.Tactic

/-!
# Drop-oldest rings

A circular buffer of fixed capacity that makes room by giving up its oldest item, counts
what it has given up, and is emptied as a whole by a drain.  Its purpose is a bounded
queue: between two drains it holds the last items that were recorded, as many as fit.
This file is independent of any particular component.
-/

namespace NativeInterop

/-- A circular buffer whose live items stand at `start`, `start + 1`, ..., modulo the
capacity. -/
structure Ring (α : Type*) where
  capacity : ℕ
  slots : List (Option α)
  start : ℕ
  count : ℕ
  length_slots : slots.length = capacity
  start_lt : start < capacity
  count_le : count ≤ capacity
  live : ∀ i < count, (slots[(start + i) % capacity]?.join).isSome

namespace Ring

variable {α : Type*}

def create (capacity : ℕ) (hpos : 0 < capacity) : Ring α where
  capacity := capacity
  slots := List.replicate capacity none
  start := 0
  count := 0
  length_slots := List.length_replicate
  start_lt := hpos
  count_le := Nat.zero_le capacity
  live := by
    intro i hi
    exact absurd hi (Nat.not_lt_zero i)

/-- The item at an offset from the oldest one. -/
def item? (ring : Ring α) (i : ℕ) : Option α :=
  ring.slots[(ring.start + i) % ring.capacity]?.join

/-- The live items, the oldest first. -/
def items (ring : Ring α) : List α :=
  (List.range ring.count).filterMap ring.item?

theorem capacity_pos (ring : Ring α) : 0 < ring.capacity :=
  Nat.zero_lt_of_lt ring.start_lt

theorem mod_add_mod (ring : Ring α) (i : ℕ) :
    ((ring.start + 1) % ring.capacity + i) % ring.capacity =
      (ring.start + (i + 1)) % ring.capacity := by
  rw [Nat.mod_add_mod]
  congr 1
  omega

def dropOldest (ring : Ring α) : Ring α :=
  { ring with
    start := (ring.start + 1) % ring.capacity
    count := ring.count - 1
    start_lt := Nat.mod_lt _ ring.capacity_pos
    count_le := (Nat.sub_le _ _).trans ring.count_le
    live := by
      intro i hi
      rw [ring.mod_add_mod]
      exact ring.live (i + 1) (by omega) }

theorem slot_ne (ring : Ring α) {i : ℕ} (hi : i < ring.count)
    (hroom : ring.count < ring.capacity) :
    (ring.start + i) % ring.capacity ≠ (ring.start + ring.count) % ring.capacity := by
  intro hsame
  have hmod : i ≡ ring.count [MOD ring.capacity] := Nat.ModEq.add_left_cancel' ring.start hsame
  have hlt : i < ring.capacity := hi.trans hroom
  rw [Nat.ModEq, Nat.mod_eq_of_lt hlt, Nat.mod_eq_of_lt hroom] at hmod
  omega

def append (ring : Ring α) (item : α) (hroom : ring.count < ring.capacity) : Ring α :=
  { ring with
    slots := ring.slots.set ((ring.start + ring.count) % ring.capacity) (some item)
    count := ring.count + 1
    length_slots := by rw [List.length_set, ring.length_slots]
    count_le := hroom
    live := by
      intro i hi
      rcases Nat.lt_succ_iff_lt_or_eq.mp hi with hold | rfl
      · rw [List.getElem?_set_ne (ring.slot_ne hold hroom).symm]
        exact ring.live i hold
      · rw [List.getElem?_set_self (by
          rw [ring.length_slots]
          exact Nat.mod_lt _ ring.capacity_pos)]
        rfl }

theorem dropOldest_count_lt (ring : Ring α) : ring.dropOldest.count < ring.dropOldest.capacity := by
  have hle := ring.count_le
  have hpos := ring.capacity_pos
  simp only [dropOldest]
  omega

/-- A full ring gives up its oldest item first. -/
def push (ring : Ring α) (item : α) : Ring α :=
  if hfull : ring.count = ring.capacity then
    ring.dropOldest.append item ring.dropOldest_count_lt
  else ring.append item (lt_of_le_of_ne ring.count_le hfull)

def isFull (ring : Ring α) : Bool := ring.count = ring.capacity

def clear (ring : Ring α) : Ring α := create ring.capacity ring.capacity_pos

/-! ## The live items -/

theorem length_items (ring : Ring α) : ring.items.length = ring.count := by
  have hall : ∀ i ∈ List.range ring.count, (ring.item? i).isSome := fun i hi =>
    ring.live i (List.mem_range.mp hi)
  rw [items, List.length_filterMap_eq_countP, List.countP_eq_length.mpr hall, List.length_range]

@[simp] theorem items_create (capacity : ℕ) (hpos : 0 < capacity) :
    (create capacity hpos : Ring α).items = [] := rfl

theorem items_append (ring : Ring α) (item : α) (hroom : ring.count < ring.capacity) :
    (ring.append item hroom).items = ring.items ++ [item] := by
  have hold : ∀ i ∈ List.range ring.count, (ring.append item hroom).item? i = ring.item? i := by
    intro i hi
    have hne := (ring.slot_ne (List.mem_range.mp hi) hroom).symm
    simp only [item?, append, List.getElem?_set_ne hne]
  have hnew : (ring.append item hroom).item? ring.count = some item := by
    have hlt : (ring.start + ring.count) % ring.capacity < ring.slots.length := by
      rw [ring.length_slots]
      exact Nat.mod_lt _ ring.capacity_pos
    simp only [item?, append, List.getElem?_set_self hlt, Option.join_some]
  have hcount : (ring.append item hroom).count = ring.count + 1 := rfl
  rw [items, hcount, List.range_succ, List.filterMap_append, List.filterMap_congr hold]
  simp [items, hnew]

theorem items_dropOldest (ring : Ring α) : ring.dropOldest.items = ring.items.tail := by
  have hshift : ∀ i, ring.dropOldest.item? i = ring.item? (i + 1) := by
    intro i
    simp only [item?, dropOldest, ring.mod_add_mod]
  cases hcount : ring.count with
  | zero =>
      have hempty : ring.dropOldest.count = 0 := by simp [dropOldest, hcount]
      simp [items, hempty, hcount]
  | succ n =>
      obtain ⟨oldest, holdest⟩ := Option.isSome_iff_exists.mp (ring.live 0 (by omega))
      have hfirst : ring.item? 0 = some oldest := holdest
      have hrest : ring.dropOldest.count = n := by simp [dropOldest, hcount]
      rw [items, items, hrest, hcount, List.range_succ_eq_map, List.filterMap_cons, hfirst,
        List.tail_cons, List.filterMap_map]
      exact List.filterMap_congr fun i _ => hshift i

/-- One more item is held at the end, and no more than fit. -/
theorem items_push (ring : Ring α) (item : α) :
    (ring.push item).items = (ring.items ++ [item]).rtake ring.capacity := by
  have hlength := ring.length_items
  unfold push
  split_ifs with hfull
  · rw [items_append, items_dropOldest, List.rtake]
    cases hitems : ring.items with
    | nil =>
        have hpos := ring.capacity_pos
        rw [hitems, List.length_nil] at hlength
        omega
    | cons oldest rest =>
        rw [hitems] at hlength
        have hdrop : (oldest :: rest ++ [item]).length - ring.capacity = 1 := by
          simp only [List.length_append, List.length_cons, List.length_nil] at hlength ⊢
          omega
        rw [hdrop]
        rfl
  · have hroom := lt_of_le_of_ne ring.count_le hfull
    have hdrop : (ring.items ++ [item]).length - ring.capacity = 0 := by
      rw [List.length_append, hlength, List.length_singleton]
      omega
    rw [items_append, List.rtake, hdrop, List.drop_zero]

end Ring

/-! ## Recording and draining -/

/-- A ring with the counters that are kept beside it. -/
structure DrainRing (α : Type*) where
  ring : Ring α
  droppedSinceDrain : ℕ := 0
  droppedTotal : ℕ := 0
  recordedTotal : ℕ := 0

structure Drained (α : Type*) where
  dropped : ℕ
  items : List α
  deriving DecidableEq, Repr

namespace DrainRing

variable {α : Type*}

inductive Op (α : Type*) where
  | record (item : α)
  | drain
  deriving DecidableEq, Repr

def create (capacity : ℕ) (hpos : 0 < capacity) : DrainRing α where
  ring := Ring.create capacity hpos

def record (log : DrainRing α) (item : α) : DrainRing α where
  ring := log.ring.push item
  droppedSinceDrain := log.droppedSinceDrain + log.ring.isFull.toNat
  droppedTotal := log.droppedTotal + log.ring.isFull.toNat
  recordedTotal := log.recordedTotal + 1

def drained (log : DrainRing α) : Drained α where
  dropped := log.droppedSinceDrain
  items := log.ring.items

def drain (log : DrainRing α) : DrainRing α :=
  { log with
    ring := log.ring.clear
    droppedSinceDrain := 0 }

/-! ## The bounded queue -/

/-- What has been recorded between drains, and since the last one. -/
def cut (since : List α) : List (Op α) → List (List α) × List α
  | [] => ([], since)
  | .record item :: ops => cut (since ++ [item]) ops
  | .drain :: ops => (since :: (cut [] ops).1, (cut [] ops).2)

/-- For each drain, what has been recorded since the drain before it. -/
def segments (ops : List (Op α)) : List (List α) := (cut [] ops).1

def sinceDrain (ops : List (Op α)) : List α := (cut [] ops).2

def Op.item? : Op α → Option α
  | .record item => some item
  | .drain => none

def recorded (ops : List (Op α)) : List α := ops.filterMap Op.item?

/-- The abstract queue: a drain returns the last items that fit and counts the others. -/
def queueDrained (capacity : ℕ) (segment : List α) : Drained α where
  dropped := segment.length - capacity
  items := segment.rtake capacity

theorem cut_record (since : List α) (ops : List (Op α)) (item : α) :
    cut since (ops ++ [.record item]) = ((cut since ops).1, (cut since ops).2 ++ [item]) := by
  induction ops generalizing since with
  | nil => rfl
  | cons op ops ih =>
      cases op with
      | record first => exact ih (since ++ [first])
      | drain => simp [cut, ih]

theorem cut_drain (since : List α) (ops : List (Op α)) :
    cut since (ops ++ [.drain]) = ((cut since ops).1 ++ [(cut since ops).2], []) := by
  induction ops generalizing since with
  | nil => rfl
  | cons op ops ih =>
      cases op with
      | record first => exact ih (since ++ [first])
      | drain => simp [cut, ih]

theorem flatten_cut (since : List α) (ops : List (Op α)) :
    (cut since ops).1.flatten ++ (cut since ops).2 = since ++ recorded ops := by
  induction ops generalizing since with
  | nil => simp [cut, recorded]
  | cons op ops ih =>
      cases op with
      | record first =>
          rw [cut, ih, List.append_assoc]
          rfl
      | drain =>
          have hrest := ih []
          rw [List.nil_append] at hrest
          rw [cut, List.flatten_cons, List.append_assoc, hrest]
          rfl

theorem segments_record (ops : List (Op α)) (item : α) :
    segments (ops ++ [.record item]) = segments ops := by
  rw [segments, cut_record, segments]

theorem sinceDrain_record (ops : List (Op α)) (item : α) :
    sinceDrain (ops ++ [.record item]) = sinceDrain ops ++ [item] := by
  rw [sinceDrain, cut_record, sinceDrain]

theorem segments_drain (ops : List (Op α)) :
    segments (ops ++ [.drain]) = segments ops ++ [sinceDrain ops] := by
  rw [segments, cut_drain, segments, sinceDrain]

theorem sinceDrain_drain (ops : List (Op α)) : sinceDrain (ops ++ [.drain]) = [] := by
  rw [sinceDrain, cut_drain]

theorem flatten_segments (ops : List (Op α)) :
    (segments ops).flatten ++ sinceDrain ops = recorded ops :=
  flatten_cut [] ops

/-! ## The refinement -/

/-- The ring after a sequence of operations, and what its drains have returned. -/
structure Refines (capacity : ℕ) (ops : List (Op α)) (drains : List (Drained α))
    (log : DrainRing α) : Prop where
  capacity_eq : log.ring.capacity = capacity
  items : log.ring.items = (sinceDrain ops).rtake capacity
  drains_eq : drains = (segments ops).map (queueDrained capacity)
  droppedSinceDrain : log.droppedSinceDrain = (sinceDrain ops).length - capacity
  droppedTotal : log.droppedTotal = (drains.map Drained.dropped).sum + log.droppedSinceDrain
  recordedTotal : log.recordedTotal = (recorded ops).length

theorem rtake_rtake_append (items more : List α) (n : ℕ) :
    (items.rtake n ++ more).rtake n = (items ++ more).rtake n := by
  simp only [List.rtake, List.length_append, List.length_drop]
  rw [List.drop_append, List.drop_append, List.drop_drop, List.length_drop]
  congr 1
  · congr 1
    omega
  · congr 1
    omega

theorem length_rtake (items : List α) (n : ℕ) :
    (items.rtake n).length = min items.length n := by
  rw [List.rtake, List.length_drop]
  omega

theorem refines_create (capacity : ℕ) (hpos : 0 < capacity) :
    Refines capacity [] [] (create capacity hpos : DrainRing α) where
  capacity_eq := rfl
  items := by simp [create, sinceDrain, cut, List.rtake]
  drains_eq := rfl
  droppedSinceDrain := by simp [create, sinceDrain, cut]
  droppedTotal := rfl
  recordedTotal := rfl

section Steps

variable {capacity : ℕ} {ops : List (Op α)} {drains : List (Drained α)} {log : DrainRing α}

/-- The ring is full exactly when as many items as fit have come since the last drain. -/
theorem Refines.isFull_iff (hrefines : Refines capacity ops drains log) :
    log.ring.isFull = true ↔ capacity ≤ (sinceDrain ops).length := by
  have hcount : log.ring.count = min (sinceDrain ops).length capacity := by
    rw [← log.ring.length_items, hrefines.items, length_rtake]
  rw [Ring.isFull, decide_eq_true_iff, hcount, hrefines.capacity_eq]
  omega

theorem push_capacity (ring : Ring α) (item : α) : (ring.push item).capacity = ring.capacity := by
  unfold Ring.push
  split_ifs <;> rfl

theorem Refines.record (hrefines : Refines capacity ops drains log) (item : α) :
    Refines capacity (ops ++ [.record item]) drains (log.record item) := by
  have hdropped : (log.record item).droppedSinceDrain =
      (sinceDrain ops ++ [item]).length - capacity := by
    have hfull := hrefines.isFull_iff
    simp only [DrainRing.record, hrefines.droppedSinceDrain, List.length_append,
      List.length_singleton]
    cases hcase : log.ring.isFull with
    | true =>
        rw [hcase] at hfull
        have hle := hfull.mp rfl
        simp only [Bool.toNat_true]
        omega
    | false =>
        rw [hcase] at hfull
        have hlt : ¬ capacity ≤ (sinceDrain ops).length := fun hle => by
          cases hfull.mpr hle
        simp only [Bool.toNat_false]
        omega
  constructor
  · rw [← hrefines.capacity_eq]
    exact push_capacity log.ring item
  · simp only [DrainRing.record]
    rw [Ring.items_push, hrefines.items, hrefines.capacity_eq, sinceDrain_record,
      rtake_rtake_append]
  · rw [segments_record]
    exact hrefines.drains_eq
  · rw [sinceDrain_record]
    exact hdropped
  · have htotal := hrefines.droppedTotal
    simp only [DrainRing.record]
    omega
  · simp [DrainRing.record, hrefines.recordedTotal, recorded, Op.item?]

theorem Refines.drain (hrefines : Refines capacity ops drains log) :
    Refines capacity (ops ++ [.drain]) (drains ++ [log.drained]) log.drain := by
  have hdrained : log.drained = queueDrained capacity (sinceDrain ops) := by
    simp only [drained, queueDrained, hrefines.items, hrefines.droppedSinceDrain]
  constructor
  · exact hrefines.capacity_eq
  · rw [sinceDrain_drain, List.rtake_nil]
    rfl
  · rw [segments_drain, List.map_append, hrefines.drains_eq, hdrained]
    rfl
  · rw [sinceDrain_drain]
    exact (Nat.zero_sub capacity).symm
  · simp only [DrainRing.drain, hrefines.droppedTotal, List.map_append, List.sum_append, drained,
      List.map_cons, List.map_nil, List.sum_cons, List.sum_nil, Nat.add_zero]
  · simp [DrainRing.drain, hrefines.recordedTotal, recorded, Op.item?]

/-- Everything recorded has been returned, is still held, or has been counted as dropped. -/
theorem Refines.conservation (hrefines : Refines capacity ops drains log) :
    log.recordedTotal =
      (drains.map fun drain => drain.items.length).sum + log.ring.count + log.droppedTotal := by
  have hcount : log.ring.count = min (sinceDrain ops).length capacity := by
    rw [← log.ring.length_items, hrefines.items, length_rtake]
  have hsplit : ∀ segments : List (List α), segments.flatten.length =
      ((segments.map (queueDrained capacity)).map fun drain => drain.items.length).sum +
        ((segments.map (queueDrained capacity)).map Drained.dropped).sum := by
    intro segments
    induction segments with
    | nil => rfl
    | cons segment segments ih =>
        simp only [List.flatten_cons, List.length_append, ih, List.map_cons, List.sum_cons,
          queueDrained, length_rtake]
        omega
  have hall := congrArg List.length (flatten_segments ops)
  rw [List.length_append, hsplit, ← hrefines.drains_eq] at hall
  rw [hrefines.recordedTotal, ← hall, hcount, hrefines.droppedTotal, hrefines.droppedSinceDrain]
  omega

/-- The drains return items in the order of their recording, each recording at most once. -/
theorem Refines.sublist (hrefines : Refines capacity ops drains log) :
    (drains.flatMap Drained.items).Sublist (recorded ops) := by
  have hsegments : ∀ segments : List (List α),
      ((segments.map (queueDrained capacity)).flatMap Drained.items).Sublist
        segments.flatten := by
    intro segments
    induction segments with
    | nil => exact List.Sublist.refl _
    | cons segment segments ih =>
        rw [List.map_cons, List.flatMap_cons, List.flatten_cons]
        exact (List.drop_sublist _ segment).append ih
  rw [← flatten_segments ops, hrefines.drains_eq]
  exact (hsegments (segments ops)).trans (List.sublist_append_left _ _)

/-- A ring of the given capacity is a bounded queue that drops its oldest items. -/
structure IsBoundedQueue (capacity : ℕ) (ops : List (Op α)) (drains : List (Drained α))
    (log : DrainRing α) : Prop where
  returns : drains = (segments ops).map (queueDrained capacity)
  once : (drains.flatMap Drained.items).Sublist (recorded ops)
  conservation : log.recordedTotal =
    (drains.map fun drain => drain.items.length).sum + log.ring.count + log.droppedTotal

theorem Refines.isBoundedQueue (hrefines : Refines capacity ops drains log) :
    IsBoundedQueue capacity ops drains log where
  returns := hrefines.drains_eq
  once := hrefines.sublist
  conservation := hrefines.conservation

end Steps

end DrainRing

end NativeInterop
