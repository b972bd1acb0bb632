import NativeInterop.ShowcaseCommand
import NativeInterop.Threads
import Mathlib.Data.List.Perm.Basic

/-!
# The collector's lab

`Run` puts one storm of allocations at a time behind a compare-and-exchange.  The storm reads a
stopwatch, allocates what it owes for the time that has passed, takes a sample each tenth of a
second, and lets its pins go at the end, whatever has been thrown.
-/

namespace NativeInterop

namespace GcLab

open ShowcaseCommand (Preset)

/-- What the command's caller hands over, after clamping. -/
structure Request where
  preset : Preset
  mb : ℕ
  secs : ℕ
  clamped : Bool
  mb_bounds : 1 ≤ mb ∧ mb ≤ 256
  secs_bounds : 1 ≤ secs ∧ secs ≤ 30

def chunkBytes : Preset → ℕ
  | .gen0 => 256
  | .loh => 128 * 1024
  | .pinned => 64 * 1024

def Request.chunksPerSecond (r : Request) : ℕ :=
  max 1 (r.mb * 1024 * 1024 / chunkBytes r.preset)

def Request.duration (r : Request) : ℕ := r.secs * 10000000

/-- Every storm that a command asks for is within these bounds. -/
theorem exists_request {tryParseDouble : ShowcaseCommand.Text → Option Double}
    {id : ShowcaseCommand.Text} {preset : Preset} {mb secs : ℤ} {clamped : Bool}
    (hcall : ShowcaseCommand.callOf tryParseDouble id = .gcLab preset mb secs clamped) :
    ∃ r : Request, r.preset = preset ∧ r.mb = mb ∧ r.secs = secs ∧ r.clamped = clamped := by
  have hbounded := ShowcaseCommand.callOf_bounded tryParseDouble id
  rw [hcall] at hbounded
  obtain ⟨⟨hmb, hmb'⟩, ⟨hsecs, hsecs'⟩⟩ := hbounded
  refine ⟨⟨preset, mb.toNat, secs.toNat, clamped, ?_, ?_⟩, rfl, ?_, ?_, rfl⟩
  · omega
  · omega
  · exact Int.toNat_of_nonneg (by omega)
  · exact Int.toNat_of_nonneg (by omega)

/-- `(long)(stopwatch.Elapsed.TotalSeconds * chunksPerSecond)`, for a rate and the ticks of the
stopwatch. -/
structure Pace where
  budget : ℕ → ℕ → ℕ
  monotone : ∀ rate, Monotone (budget rate)

/-- The gate, and the handles of the process by their number. -/
structure Shared where
  running : ℕ := 0
  issued : ℕ := 0
  live : List ℕ := []
  freed : List ℕ := []
  /-- Handles that were made and not kept, because the list could not grow. -/
  lost : List ℕ := []

def Shared.free (s : Shared) (handle : ℕ) : Option Shared :=
  if handle ∈ s.live then
    some { s with live := s.live.erase handle, freed := s.freed ++ [handle] }
  else none

/-- The storm's variables; the buffers of a queue are all alike, so that it is their number. -/
structure Locals where
  elapsed : ℕ := 0
  chunksAllocated : ℕ := 0
  nextSampleMs : ℕ := 0
  gen0Recent : ℕ := 0
  lohPool : ℕ := 0
  pinnedHandles : List ℕ := []
  heapSamples : List (ℕ × ℕ) := []
  committedSamples : List (ℕ × ℕ) := []

def allocGen0 (recent : ℕ) : ℕ := if recent + 1 > 4 then recent else recent + 1

/-- The `while` that dequeues. -/
def dequeueOver (capacity : ℕ) : ℕ → ℕ
  | 0 => 0
  | count + 1 => if count + 1 > capacity then dequeueOver capacity count else count + 1

def allocLoh (capacity pool : ℕ) : ℕ := dequeueOver capacity (pool + 1)

structure Report where
  request : Request
  heapSamples : List (ℕ × ℕ)
  committedSamples : List (ℕ × ℕ)

inductive Result where
  | payload (report : Report)
  | thrown
  | inFlight

inductive Place where
  | outside (result : Option Result)
  | preparing (r : Request)
  | looping (r : Request) (l : Locals)
  | budgeting (r : Request) (l : Locals)
  | filling (r : Request) (l : Locals) (budget : ℕ)
  | evicting (r : Request) (l : Locals) (budget : ℕ)
  | sampling (r : Request) (l : Locals)
  | unpinning (handles : List ℕ) (report : Option Report)
  | reporting (report : Report)
  | leaving (result : Result)

/-- `read` and `sample` carry what the stopwatch and the collector answer.  With `fail` an
allocation is refused, with `lose` that of the list which is to keep a handle. -/
inductive Act where
  | call (r : Request)
  | go
  | read (now : ℕ)
  | sample (now heap committed : ℕ)
  | fail
  | lose

def Locals.report (l : Locals) (r : Request) : Report where
  request := r
  heapSamples := l.heapSamples
  committedSamples := l.committedSamples

def fill (r : Request) (l : Locals) (budget : ℕ) (s : Shared) : Shared × Place :=
  match r.preset with
  | .gen0 =>
      (s, .filling r { l with
        gen0Recent := allocGen0 l.gen0Recent, chunksAllocated := l.chunksAllocated + 1 } budget)
  | .loh =>
      (s, .filling r { l with
        lohPool := allocLoh r.chunksPerSecond l.lohPool
        chunksAllocated := l.chunksAllocated + 1 } budget)
  | .pinned =>
      ({ s with issued := s.issued + 1, live := s.live ++ [s.issued] },
        .evicting r { l with pinnedHandles := l.pinnedHandles ++ [s.issued] } budget)

/-- A round of `AllocPinned`'s `while`; a `Free` that throws ends the storm. -/
def evict (r : Request) (l : Locals) (budget : ℕ) (s : Shared) : Shared × Place :=
  if l.pinnedHandles.length > r.chunksPerSecond then
    match l.pinnedHandles.head?.bind s.free with
    | some s => (s, .evicting r { l with pinnedHandles := l.pinnedHandles.tail } budget)
    | none => (s, .unpinning l.pinnedHandles none)
  else (s, .filling r { l with chunksAllocated := l.chunksAllocated + 1 } budget)

def takeSample (l : Locals) (now heap committed : ℕ) : Locals :=
  if now ≥ l.nextSampleMs * 10000 then
    { l with
      elapsed := now
      heapSamples := l.heapSamples ++ [(now, heap)]
      committedSamples := l.committedSamples ++ [(now, committed)]
      nextSampleMs := l.nextSampleMs + 100 }
  else { l with elapsed := now }

/-- The `foreach` in the storm's `finally`. -/
def unpin (report : Option Report) (s : Shared) : List ℕ → Shared × Place
  | [] => (s, report.elim (.leaving .thrown) .reporting)
  | handle :: handles =>
      match s.free handle with
      | some s => (s, .unpinning handles report)
      | none => (s, .leaving .thrown)

variable (pace : Pace)

def code : Threads.Code Shared Place Act
  | _, .call r, s, .outside _ =>
      if s.running ≠ 0 then some (s, .outside (some .inFlight))
      else some ({ s with running := 1 }, .preparing r)
  | _, .go, s, .preparing r => some (s, .looping r {})
  | _, .read now, s, .looping r l =>
      if now < l.elapsed then none
      else if now < r.duration then some (s, .budgeting r { l with elapsed := now })
      else some (s, .unpinning l.pinnedHandles (some (l.report r)))
  | _, .read now, s, .budgeting r l =>
      if now < l.elapsed then none
      else some (s, .filling r { l with elapsed := now } (pace.budget r.chunksPerSecond now))
  | _, .go, s, .filling r l budget =>
      some (if l.chunksAllocated < budget then fill r l budget s else (s, .sampling r l))
  | _, .go, s, .evicting r l budget => some (evict r l budget s)
  | _, .sample now heap committed, s, .sampling r l =>
      if now < l.elapsed then none else some (s, .looping r (takeSample l now heap committed))
  | _, .go, s, .unpinning handles report => some (unpin report s handles)
  | _, .go, s, .reporting report => some (s, .leaving (.payload report))
  | _, .go, s, .leaving result => some ({ s with running := 0 }, .outside (some result))
  | _, .fail, s, .preparing _ => some (s, .leaving .thrown)
  | _, .fail, s, .filling _ l _ => some (s, .unpinning l.pinnedHandles none)
  | _, .fail, s, .sampling _ l => some (s, .unpinning l.pinnedHandles none)
  | _, .fail, s, .reporting _ => some (s, .leaving .thrown)
  | _, .lose, s, .filling r l budget =>
      if l.chunksAllocated < budget ∧ r.preset = .pinned then
        some ({ s with
          issued := s.issued + 1, live := s.live ++ [s.issued], lost := s.lost ++ [s.issued] },
          .unpinning l.pinnedHandles none)
      else none
  | _, _, _, _ => none

def start : Threads Shared Place := ⟨{}, fun _ => .outside none⟩

def Place.inside : Place → Bool
  | .outside _ => false
  | _ => true

/-! ## Handles -/

/-- Every handle that was made is alive or was freed, once; alive are the ones that the storm
still has in its list. -/
structure Handles (s : Shared) (held : List ℕ) : Prop where
  issued : (s.live ++ s.freed).Perm (List.range s.issued)
  live : s.live.Perm (s.lost ++ held)

section Handles

variable {s : Shared} {held : List ℕ} {handle : ℕ}

theorem Handles.setRunning (hhandles : Handles s held) (running : ℕ) :
    Handles { s with running := running } held :=
  ⟨hhandles.issued, hhandles.live⟩

theorem Handles.free (hhandles : Handles s (handle :: held)) :
    ∃ after, s.free handle = some after ∧ after.running = s.running ∧ Handles after held := by
  have hmem : handle ∈ s.live := hhandles.live.mem_iff.mpr (by simp)
  refine ⟨_, if_pos hmem, rfl, ?_, ?_⟩
  · have hback : (s.live.erase handle ++ (s.freed ++ [handle])).Perm (s.live ++ s.freed) := by
      rw [← List.append_assoc]
      exact (List.perm_append_singleton _ _).trans
        ((List.perm_cons_erase hmem).symm.append_right s.freed)
    exact hback.trans hhandles.issued
  · have hfront : (handle :: s.live.erase handle).Perm (handle :: (s.lost ++ held)) :=
      (List.perm_cons_erase hmem).symm.trans (hhandles.live.trans List.perm_middle)
    exact hfront.cons_inv

theorem Handles.issue (hhandles : Handles s held) :
    Handles { s with issued := s.issued + 1, live := s.live ++ [s.issued] }
      (held ++ [s.issued]) where
  issued := by
    show (s.live ++ [s.issued] ++ s.freed).Perm (List.range (s.issued + 1))
    rw [List.range_succ, List.append_assoc]
    refine ((@List.perm_append_comm _ [s.issued] _).append_left s.live).trans ?_
    rw [← List.append_assoc]
    exact hhandles.issued.append_right _
  live := by
    rw [← List.append_assoc]
    exact hhandles.live.append_right _

theorem Handles.lose (hhandles : Handles s held) :
    Handles { s with
      issued := s.issued + 1, live := s.live ++ [s.issued], lost := s.lost ++ [s.issued] }
      held where
  issued := hhandles.issue.issued
  live := by
    show (s.live ++ [s.issued]).Perm (s.lost ++ [s.issued] ++ held)
    rw [List.append_assoc]
    refine (hhandles.live.append_right _).trans ?_
    rw [List.append_assoc]
    exact List.perm_append_comm.append_left s.lost

end Handles

/-! ## Samples -/

/-- Both series have the same instants, in order and one in each tenth of a second at most. -/
structure Series (heapSamples committedSamples : List (ℕ × ℕ)) (elapsed : ℕ) : Prop where
  instants : heapSamples.map Prod.fst = committedSamples.map Prod.fst
  ordered : (heapSamples.map Prod.fst).Pairwise (· ≤ ·)
  spaced : ∀ k t, (heapSamples.map Prod.fst)[k]? = some t → k * 1000000 ≤ t
  past : ∀ t ∈ heapSamples.map Prod.fst, t ≤ elapsed

section Series

variable {heapSamples committedSamples : List (ℕ × ℕ)} {elapsed now : ℕ}

theorem series_nil (elapsed : ℕ) : Series [] [] elapsed :=
  ⟨rfl, .nil, nofun, nofun⟩

theorem Series.later (hseries : Series heapSamples committedSamples elapsed)
    (hnow : elapsed ≤ now) : Series heapSamples committedSamples now :=
  { hseries with past := fun t ht => (hseries.past t ht).trans hnow }

theorem Series.add (hseries : Series heapSamples committedSamples elapsed) (hnow : elapsed ≤ now)
    (hdue : heapSamples.length * 1000000 ≤ now) (heap committed : ℕ) :
    Series (heapSamples ++ [(now, heap)]) (committedSamples ++ [(now, committed)]) now := by
  have hpast : ∀ t ∈ heapSamples.map Prod.fst, t ≤ now := fun t ht =>
    (hseries.past t ht).trans hnow
  constructor
  · rw [List.map_append, List.map_append, hseries.instants]
    rfl
  · rw [List.map_append, List.pairwise_append]
    refine ⟨hseries.ordered, List.pairwise_singleton _ _, fun t ht u hu => ?_⟩
    rw [List.mem_singleton.mp hu]
    exact hpast t ht
  · intro k t hk
    rw [List.map_append] at hk
    rcases Nat.lt_or_ge k (heapSamples.map Prod.fst).length with hlt | hge
    · rw [List.getElem?_append_left hlt] at hk
      exact hseries.spaced k t hk
    · rw [List.getElem?_append_right hge, List.map_singleton, List.getElem?_singleton] at hk
      split_ifs at hk with hzero
      rw [List.length_map] at hzero hge
      obtain rfl := Option.some.inj hk
      exact (Nat.mul_le_mul_right _ (by omega)).trans hdue
  · intro t ht
    rw [List.map_append, List.mem_append] at ht
    rcases ht with ht | ht
    · exact hpast t ht
    · rw [List.mem_singleton.mp ht]

/-- There are no more samples than tenths of a second that have passed, and one. -/
theorem Series.length_le (hseries : Series heapSamples committedSamples elapsed) :
    heapSamples.length ≤ elapsed / 1000000 + 1 := by
  rcases Nat.eq_zero_or_pos heapSamples.length with hzero | hpos
  · omega
  · have hlast : heapSamples.length - 1 < (heapSamples.map Prod.fst).length := by
      rw [List.length_map]
      omega
    have hspaced := hseries.spaced _ _ (List.getElem?_eq_getElem hlast)
    have hpast := hseries.past _ (List.getElem_mem hlast)
    omega

end Series

/-! ## The storm -/

/-- What holds of the variables; `spare` pins are over the pool's capacity, and `late` samples may
have been taken behind the last look at the duration. -/
structure Locals.Kept (r : Request) (spare late : ℕ) (l : Locals) : Prop where
  recent : l.gen0Recent ≤ if r.preset = .gen0 then 4 else 0
  pool : l.lohPool ≤ if r.preset = .loh then r.chunksPerSecond else 0
  pins : l.pinnedHandles.length ≤ if r.preset = .pinned then r.chunksPerSecond + spare else 0
  allocated : l.chunksAllocated ≤ pace.budget r.chunksPerSecond l.elapsed
  series : Series l.heapSamples l.committedSamples l.elapsed
  ticks : l.nextSampleMs = 100 * l.heapSamples.length
  count : l.heapSamples.length ≤ 10 * r.secs + late

def Locals.retained (l : Locals) : ℕ :=
  256 * l.gen0Recent + 128 * 1024 * l.lohPool + 64 * 1024 * l.pinnedHandles.length

structure Report.Kept (report : Report) : Prop where
  series : ∃ elapsed, Series report.heapSamples report.committedSamples elapsed
  count : report.heapSamples.length ≤ 10 * report.request.secs + 1

def Result.Kept : Result → Prop
  | .payload report => report.Kept
  | _ => True

/-- The handles that the storm still has to free. -/
def Place.held : Place → List ℕ
  | .looping _ l | .budgeting _ l | .filling _ l _ | .evicting _ l _ | .sampling _ l =>
      l.pinnedHandles
  | .unpinning handles _ => handles
  | _ => []

def Storm : Place → Prop
  | .outside result => ∀ r ∈ result, r.Kept
  | .preparing _ => True
  | .looping r l => l.Kept pace r 0 1
  | .budgeting r l | .sampling r l => l.Kept pace r 0 0
  | .filling r l budget => l.Kept pace r 0 0 ∧ budget ≤ pace.budget r.chunksPerSecond l.elapsed
  | .evicting r l budget =>
      l.Kept pace r 1 0 ∧ budget ≤ pace.budget r.chunksPerSecond l.elapsed ∧
        l.chunksAllocated < budget ∧ r.preset = .pinned
  | .unpinning _ report => ∀ r ∈ report, r.Kept
  | .reporting report => report.Kept
  | .leaving result => result.Kept

structure Free (s : Shared) : Prop where
  running : s.running = 0
  handles : Handles s []

structure Held (s : Shared) (place : Place) : Prop where
  running : s.running = 1
  handles : Handles s place.held
  storm : Storm pace place

section Storm

variable {pace} {r : Request} {l : Locals} {s : Shared} {budget spare late now : ℕ}

theorem allocGen0_le {recent : ℕ} (hrecent : recent ≤ 4) : allocGen0 recent ≤ 4 := by
  unfold allocGen0
  split_ifs
  · exact hrecent
  · omega

theorem dequeueOver_le (capacity count : ℕ) : dequeueOver capacity count ≤ capacity := by
  induction count with
  | zero => exact Nat.zero_le _
  | succ count ih =>
      rw [dequeueOver]
      split_ifs with hover
      · exact ih
      · omega

theorem kept_start (r : Request) : Locals.Kept pace r 0 1 {} where
  recent := Nat.zero_le _
  pool := Nat.zero_le _
  pins := Nat.zero_le _
  allocated := Nat.zero_le _
  series := series_nil 0
  ticks := rfl
  count := Nat.zero_le _

theorem Locals.Kept.later (hkept : l.Kept pace r spare late) (hnow : l.elapsed ≤ now) :
    Locals.Kept pace r spare late { l with elapsed := now } where
  recent := hkept.recent
  pool := hkept.pool
  pins := hkept.pins
  allocated := hkept.allocated.trans (pace.monotone _ hnow)
  series := hkept.series.later hnow
  ticks := hkept.ticks
  count := hkept.count

/-- A look at the duration before its end: the samples so far are no more than it has tenths. -/
theorem Locals.Kept.inTime (hkept : l.Kept pace r 0 1) (hnow : l.elapsed ≤ now)
    (hduration : now < r.duration) : Locals.Kept pace r 0 0 { l with elapsed := now } := by
  have hcount := hkept.series.length_le
  have htenths : l.elapsed / 1000000 < 10 * r.secs := by
    unfold Request.duration at hduration
    omega
  refine { hkept.later hnow with count := ?_ }
  show l.heapSamples.length ≤ 10 * r.secs
  omega

theorem Locals.Kept.report (hkept : l.Kept pace r spare 1) : (l.report r).Kept :=
  ⟨⟨_, hkept.series⟩, hkept.count⟩

theorem Locals.Kept.takeSample (hkept : l.Kept pace r 0 0) (hnow : l.elapsed ≤ now)
    (heap committed : ℕ) : (takeSample l now heap committed).Kept pace r 0 1 := by
  have hlater := hkept.later hnow
  unfold GcLab.takeSample
  split_ifs with hdue
  · have hticks := hkept.ticks
    have hpassed : l.heapSamples.length * 1000000 ≤ now := by
      rw [ge_iff_le, hticks, Nat.mul_comm 100, Nat.mul_assoc] at hdue
      exact hdue
    have hseries := hkept.series.add hnow hpassed heap committed
    refine { hlater with series := hseries, ticks := ?_, count := ?_ }
    · show l.nextSampleMs + 100 = 100 * (l.heapSamples ++ [(now, heap)]).length
      rw [List.length_append, List.length_singleton, hticks]
      omega
    · show (l.heapSamples ++ [(now, heap)]).length ≤ 10 * r.secs + 1
      have hcount := hkept.count
      rw [List.length_append, List.length_singleton]
      omega
  · refine { hlater with count := ?_ }
    exact hkept.count.trans (Nat.le_succ _)

/-- The pools hold what the request names, and one pin more while the oldest is let go. -/
theorem Locals.Kept.retained_le (hkept : l.Kept pace r spare late) :
    l.retained ≤ r.mb * 1024 * 1024 + 64 * 1024 * spare := by
  obtain ⟨hrecent, hpool, hpins, _, _, _, _⟩ := hkept
  have hmb := r.mb_bounds
  unfold Request.chunksPerSecond at hpool hpins
  unfold Locals.retained
  cases hpreset : r.preset with
  | gen0 =>
      simp only [hpreset, reduceCtorEq, if_true, if_false] at hrecent hpool hpins
      omega
  | loh =>
      have hchunk : chunkBytes .loh = 131072 := rfl
      simp only [hpreset, hchunk, reduceCtorEq, if_true, if_false] at hrecent hpool hpins
      omega
  | pinned =>
      have hchunk : chunkBytes .pinned = 65536 := rfl
      simp only [hpreset, hchunk, reduceCtorEq, if_true, if_false] at hrecent hpool hpins
      omega

/-- One buffer more, in the queue or behind a handle. -/
theorem fill_held (hkept : l.Kept pace r 0 0)
    (hbudget : budget ≤ pace.budget r.chunksPerSecond l.elapsed)
    (howed : l.chunksAllocated < budget) (hrunning : s.running = 1)
    (hhandles : Handles s l.pinnedHandles) :
    (fill r l budget s).2.inside = true ∧
      Held pace (fill r l budget s).1 (fill r l budget s).2 := by
  have hallocated : l.chunksAllocated + 1 ≤ pace.budget r.chunksPerSecond l.elapsed := by omega
  unfold fill
  split <;> rename_i hpreset
  case h_1 =>
      refine ⟨rfl, hrunning, hhandles,
        { hkept with recent := ?_, allocated := hallocated }, hbudget⟩
      have hrecent := hkept.recent
      rw [if_pos hpreset] at hrecent ⊢
      exact allocGen0_le hrecent
  case h_2 =>
      refine ⟨rfl, hrunning, hhandles,
        { hkept with pool := ?_, allocated := hallocated }, hbudget⟩
      rw [if_pos hpreset]
      exact dequeueOver_le _ _
  case h_3 =>
      refine ⟨rfl, hrunning, hhandles.issue, { hkept with pins := ?_ }, hbudget, howed, hpreset⟩
      have hpins := hkept.pins
      rw [if_pos hpreset] at hpins ⊢
      rw [List.length_append, List.length_singleton]
      omega

/-- The oldest pin is let go, or the pool is within its capacity. -/
theorem evict_held (hkept : l.Kept pace r 1 0)
    (hbudget : budget ≤ pace.budget r.chunksPerSecond l.elapsed)
    (howed : l.chunksAllocated < budget) (hpreset : r.preset = .pinned) (hrunning : s.running = 1)
    (hhandles : Handles s l.pinnedHandles) :
    (evict r l budget s).2.inside = true ∧
      Held pace (evict r l budget s).1 (evict r l budget s).2 := by
  have hpins := hkept.pins
  rw [if_pos hpreset] at hpins
  unfold evict
  split_ifs with hover
  · obtain ⟨handle, pool, hpool⟩ : ∃ handle pool, l.pinnedHandles = handle :: pool :=
      List.exists_cons_of_length_pos (by omega)
    rw [hpool] at hhandles hpins
    obtain ⟨after, hfree, hstill, hback⟩ := hhandles.free
    rw [hpool, List.head?_cons, Option.bind_some, hfree]
    refine ⟨rfl, hstill.trans hrunning, hback, { hkept with pins := ?_ }, hbudget, howed, hpreset⟩
    rw [if_pos hpreset]
    rw [List.length_cons] at hpins
    show pool.length ≤ _
    omega
  · refine ⟨rfl, hrunning, hhandles, { hkept with pins := ?_, allocated := ?_ }, hbudget⟩
    · rw [if_pos hpreset]
      show l.pinnedHandles.length ≤ _
      omega
    · show l.chunksAllocated + 1 ≤ pace.budget r.chunksPerSecond l.elapsed
      omega

/-- Each pin of the list is let go. -/
theorem unpin_held {handles : List ℕ} {report : Option Report}
    (hreport : ∀ r ∈ report, r.Kept) (hrunning : s.running = 1) (hhandles : Handles s handles) :
    (unpin report s handles).2.inside = true ∧
      Held pace (unpin report s handles).1 (unpin report s handles).2 := by
  cases handles with
  | nil =>
      cases report with
      | none => exact ⟨rfl, hrunning, hhandles, trivial⟩
      | some report => exact ⟨rfl, hrunning, hhandles, hreport _ rfl⟩
  | cons handle handles =>
      obtain ⟨after, hfree, hstill, hback⟩ := hhandles.free
      rw [unpin, hfree]
      exact ⟨rfl, hstill.trans hrunning, hback, hreport⟩

end Storm

/-! ## The gate -/

section Gate

variable {pace}

theorem gate : Threads.Gate (code pace) Place.inside Free (Held pace) (Storm pace) where
  outside := by
    intro i a s place next hcode hinside hout
    cases place with
    | outside result =>
        cases a with
        | call r =>
            rw [code] at hcode
            split_ifs at hcode with hrunning
            · obtain rfl := Option.some.inj hcode
              exact .inl ⟨rfl, rfl, fun result hresult => by cases hresult; trivial⟩
            · obtain rfl := Option.some.inj hcode
              refine .inr ⟨rfl, fun place hheld => hrunning ?_, fun hfree => ?_⟩
              · rw [hheld.running]
                exact Nat.one_ne_zero
              · exact ⟨rfl, hfree.handles.setRunning 1, trivial⟩
        | _ => cases hcode
    | _ => cases hinside
  inside := by
    intro i a s place next hcode hinside hheld
    obtain ⟨hrunning, hhandles, hstorm⟩ := hheld
    cases place with
    | outside result => cases hinside
    | preparing r =>
        cases a with
        | go =>
            obtain rfl := Option.some.inj hcode
            exact .inl ⟨rfl, hrunning, hhandles, kept_start r⟩
        | fail =>
            obtain rfl := Option.some.inj hcode
            exact .inl ⟨rfl, hrunning, hhandles, trivial⟩
        | _ => cases hcode
    | looping r l =>
        cases a with
        | read now =>
            rw [code] at hcode
            split_ifs at hcode with hback hduration
            · obtain rfl := Option.some.inj hcode
              exact .inl ⟨rfl, hrunning, hhandles,
                Locals.Kept.inTime hstorm (Nat.le_of_not_lt hback) hduration⟩
            · obtain rfl := Option.some.inj hcode
              refine .inl ⟨rfl, hrunning, hhandles, fun report hreport => ?_⟩
              cases hreport
              exact Locals.Kept.report hstorm
        | _ => cases hcode
    | budgeting r l =>
        cases a with
        | read now =>
            rw [code] at hcode
            split_ifs at hcode with hback
            obtain rfl := Option.some.inj hcode
            exact .inl ⟨rfl, hrunning, hhandles,
              Locals.Kept.later hstorm (Nat.le_of_not_lt hback), le_rfl⟩
        | _ => cases hcode
    | filling r l budget =>
        obtain ⟨hkept, hbudget⟩ := hstorm
        cases a with
        | go =>
            rw [code, Option.some.injEq] at hcode
            split_ifs at hcode with howed
            · exact .inl (hcode ▸ fill_held hkept hbudget howed hrunning hhandles)
            · exact .inl (hcode ▸ ⟨rfl, hrunning, hhandles, hkept⟩)
        | fail =>
            obtain rfl := Option.some.inj hcode
            exact .inl ⟨rfl, hrunning, hhandles, nofun⟩
        | lose =>
            rw [code] at hcode
            split_ifs at hcode with hpin
            obtain rfl := Option.some.inj hcode
            exact .inl ⟨rfl, hrunning, hhandles.lose, nofun⟩
        | _ => cases hcode
    | evicting r l budget =>
        obtain ⟨hkept, hbudget, howed, hpreset⟩ := hstorm
        cases a with
        | go =>
            rw [code, Option.some.injEq] at hcode
            exact .inl (hcode ▸ evict_held hkept hbudget howed hpreset hrunning hhandles)
        | _ => cases hcode
    | sampling r l =>
        cases a with
        | sample now heap committed =>
            rw [code] at hcode
            split_ifs at hcode with hback
            obtain rfl := Option.some.inj hcode
            refine .inl ⟨rfl, hrunning, ?_,
              Locals.Kept.takeSample hstorm (Nat.le_of_not_lt hback) heap committed⟩
            have hpins : (takeSample l now heap committed).pinnedHandles = l.pinnedHandles := by
              unfold takeSample
              split_ifs <;> rfl
            rw [Place.held, hpins]
            exact hhandles
        | fail =>
            obtain rfl := Option.some.inj hcode
            exact .inl ⟨rfl, hrunning, hhandles, nofun⟩
        | _ => cases hcode
    | unpinning handles report =>
        cases a with
        | go =>
            rw [code, Option.some.injEq] at hcode
            exact .inl (hcode ▸ unpin_held hstorm hrunning hhandles)
        | _ => cases hcode
    | reporting report =>
        cases a with
        | go =>
            obtain rfl := Option.some.inj hcode
            exact .inl ⟨rfl, hrunning, hhandles, hstorm⟩
        | fail =>
            obtain rfl := Option.some.inj hcode
            exact .inl ⟨rfl, hrunning, hhandles, trivial⟩
        | _ => cases hcode
    | leaving result =>
        cases a with
        | go =>
            obtain rfl := Option.some.inj hcode
            refine .inr ⟨rfl, ⟨rfl, hhandles.setRunning 0⟩, fun r hr => ?_⟩
            cases hr
            exact hstorm
        | _ => cases hcode

theorem start_gated : Threads.Gated Place.inside Free (Held pace) (Storm pace) start where
  out _ _ := nofun
  gate := .inl ⟨⟨rfl, .nil, .nil⟩, fun _ => rfl⟩

/-- In a system of calls: one storm at a time, and the gate is closed exactly while there is one;
each handle that was made is alive or was freed once, and with no storm under way none is alive
but those that the list did not take. -/
structure Contained (pace : Pace) (t : Threads Shared Place) : Prop where
  alone : ∀ i j, (t.pc i).inside = true → (t.pc j).inside = true → i = j
  closed : t.shared.running ≠ 0 ↔ ∃ i, (t.pc i).inside = true
  handles : (t.shared.live ++ t.shared.freed).Perm (List.range t.shared.issued)
  unpinned : (∀ i, (t.pc i).inside = false) → t.shared.live.Perm t.shared.lost
  /-- A storm keeps to its rate and to the memory that it was given. -/
  storm : ∀ i r l budget, t.pc i = .filling r l budget →
    l.chunksAllocated ≤ pace.budget r.chunksPerSecond l.elapsed ∧
      l.retained ≤ r.mb * 1024 * 1024
  evicting : ∀ i r l budget, t.pc i = .evicting r l budget →
    l.retained ≤ r.mb * 1024 * 1024 + 64 * 1024
  reported : ∀ i report, t.pc i = .outside (some (.payload report)) → report.Kept
  /-- The thread that closed the gate can go on. -/
  goes : ∀ i, (t.pc i).inside = true →
    ∃ act next, act ≠ .fail ∧ (Threads.machine (code pace)).step t (i, act) = some next

theorem inside_goes {place : Place} (hinside : place.inside = true) (s : Shared) (i : ℕ) :
    ∃ act next, act ≠ .fail ∧ code pace i act s place = some next := by
  cases place with
  | outside result => cases hinside
  | looping r l =>
      refine ⟨.read l.elapsed, ?_⟩
      rw [code, if_neg (Nat.lt_irrefl _)]
      split_ifs <;> exact ⟨_, nofun, rfl⟩
  | budgeting r l => exact ⟨.read l.elapsed, _, nofun, if_neg (Nat.lt_irrefl _)⟩
  | sampling r l => exact ⟨.sample l.elapsed 0 0, _, nofun, if_neg (Nat.lt_irrefl _)⟩
  | _ => exact ⟨.go, _, nofun, rfl⟩

theorem free_lost {s after : Shared} {handle : ℕ} (hfree : s.free handle = some after) :
    after.lost = s.lost := by
  unfold Shared.free at hfree
  split_ifs at hfree
  obtain rfl := Option.some.inj hfree
  rfl

theorem fill_lost (r : Request) (l : Locals) (budget : ℕ) (s : Shared) :
    (fill r l budget s).1.lost = s.lost := by
  unfold fill
  split <;> rfl

theorem evict_lost (r : Request) (l : Locals) (budget : ℕ) (s : Shared) :
    (evict r l budget s).1.lost = s.lost := by
  unfold evict
  split_ifs
  · split
    · rename_i hfree
      obtain ⟨handle, _, hfree⟩ := Option.bind_eq_some_iff.mp hfree
      exact free_lost hfree
    · rfl
  · rfl

theorem unpin_lost (report : Option Report) (s : Shared) (handles : List ℕ) :
    (unpin report s handles).1.lost = s.lost := by
  cases handles with
  | nil => rfl
  | cons handle handles =>
      rw [unpin]
      split
      · exact free_lost ‹_›
      · rfl

/-- Only a list that cannot grow loses a handle. -/
theorem code_lost {i : ℕ} {act : Act} {s : Shared} {place : Place} {next : Shared × Place}
    (hcode : code pace i act s place = some next) (hgrows : act ≠ .lose) :
    next.1.lost = s.lost := by
  unfold code at hcode
  split at hcode <;> (try split_ifs at hcode) <;> (try cases hcode)
  all_goals first
    | rfl
    | exact absurd rfl hgrows
    | exact evict_lost ..
    | exact unpin_lost ..
    | exact fill_lost ..

theorem lost_eq_nil {acts : List (ℕ × Act)} {t : Threads Shared Place}
    (hgrows : ∀ act ∈ acts, act.2 ≠ .lose)
    (hrun : (Threads.machine (code pace)).run start acts = some t) : t.shared.lost = [] := by
  have hstep : ∀ (s : Threads Shared Place) (act : ℕ × Act) next, s.shared.lost = [] →
      act.2 ≠ .lose → (Threads.machine (code pace)).step s act = some next →
      next.shared.lost = [] := by
    intro s act next hnone hkeeps hstep
    obtain ⟨after, hcode, rfl⟩ := Threads.step_eq_some.mp hstep
    exact (code_lost hcode hkeeps).trans hnone
  exact (Threads.machine (code pace)).run_invariant hstep rfl
    ((Threads.machine (code pace)).runMeets_of_forall hgrows start) hrun

theorem run_contained (pace : Pace) {acts : List (ℕ × Act)} {t : Threads Shared Place}
    (hrun : (Threads.machine (code pace)).run start acts = some t) :
    Contained pace t ∧ ((∀ act ∈ acts, act.2 ≠ .lose) → t.shared.lost = []) := by
  have hgated := gate.run start_gated hrun
  refine ⟨?_, fun hgrows => lost_eq_nil hgrows hrun⟩
  have hclosed : t.shared.running ≠ 0 ↔ ∃ i, (t.pc i).inside = true := by
    constructor
    · intro hrunning
      by_contra hnone
      exact hrunning (hgated.free fun i => Bool.eq_false_iff.mpr fun hi => hnone ⟨i, hi⟩).running
    · rintro ⟨i, hi⟩
      rw [(hgated.held hi).running]
      exact Nat.one_ne_zero
  constructor
  · exact fun i j hi hj => hgated.alone hi hj
  · exact hclosed
  · rcases hgated.gate with ⟨hfree, _⟩ | ⟨i, _, hheld, _⟩
    · exact hfree.handles.issued
    · exact hheld.handles.issued
  · intro hnone
    simpa using (hgated.free hnone).handles.live
  · intro i r l budget hpc
    have hstorm := (hgated.held (show (t.pc i).inside = true by rw [hpc]; rfl)).storm
    rw [hpc] at hstorm
    have hretained := hstorm.1.retained_le
    rw [Nat.mul_zero, Nat.add_zero] at hretained
    exact ⟨hstorm.1.allocated, hretained⟩
  · intro i r l budget hpc
    have hstorm := (hgated.held (show (t.pc i).inside = true by rw [hpc]; rfl)).storm
    rw [hpc] at hstorm
    have hretained := hstorm.1.retained_le
    rwa [Nat.mul_one] at hretained
  · intro i report hpc
    have hout := hgated.out i (by rw [hpc]; rfl)
    rw [hpc] at hout
    exact hout _ rfl
  · intro i hi
    obtain ⟨act, next, hact, hcode⟩ := inside_goes hi t.shared i
    exact ⟨act, _, hact, Threads.step_eq_some.mpr ⟨next, hcode, rfl⟩⟩

end Gate

/-- The stopwatch's ticks times the rate. -/
def evenPace : Pace where
  budget rate elapsed := elapsed * rate / 10000000
  monotone _ := fun _ _ hle => Nat.div_le_div_right (Nat.mul_le_mul_right _ hle)

def small : Request := ⟨.pinned, 1, 1, false, by decide, by decide⟩

theorem run_contained_refused :
    let t : Threads Shared Place := ⟨{ running := 1 }, Function.update (Function.update
      (fun _ => .outside none) 0 (.preparing small)) 1 (.outside (some .inFlight))⟩
    Contained evenPace t ∧
      ((∀ act ∈ [(0, Act.call small), (1, Act.call small)], act.2 ≠ .lose) →
        t.shared.lost = []) :=
  run_contained evenPace rfl

end GcLab

end NativeInterop
