import NativeInterop.BrokerLoops
import NativeInterop.LlamaLanguageModel
import Mathlib.Tactic

/-!
# Faults of one request in the SQLite broker

One call of `ProcessNextPendingAsync` as a whole, with the exceptions that come from reading
the row, from the engine and from the loop's point of view.  The broker's token is not
cancelled and every statement succeeds; what the engine does is any function of the request.
-/

namespace NativeInterop.SqliteBroker

open LlamaLanguageModel (InferenceRequest)

/-- `operationCanceled` is thrown by the engine on an account of its own. -/
inductive Exception where
  | overflow
  | operationCanceled
  | other
  deriving DecidableEq, Repr

/-- The fragments that a request is answered with, and the exception they end in. -/
abbrev Engine : Type :=
  InferenceRequest (BitVec 32) → List String × Option Exception

/-- The two tables; the column `temperature` by the key of its row. -/
structure Database where
  requests : List RequestRow
  temperature : ℤ → BitVec 64
  rows : List TokenRow

def Database.mark (db : Database) (requestId : ℤ) (status : RequestStatus) : Database :=
  { db with requests := markStatus db.requests requestId status }

/-- The status of a request. -/
def Database.status (db : Database) (requestId : ℤ) : Option RequestStatus :=
  (db.requests.find? fun row => row.id = requestId).map RequestRow.status

/-- The columns as the engine is given them; `GetFloat` rounds a double. -/
def requestOf (getFloat : BitVec 64 → BitVec 32) (db : Database) (row : RequestRow) :
    InferenceRequest (BitVec 32) where
  prompt := row.prompt
  maxTokens := BitVec.ofInt 32 row.maxTokens
  temperature := getFloat (db.temperature row.id)
  grammar := none

variable (getFloat : BitVec 64 → BitVec 32) (engine : Engine)

def processNextPending (db : Database) : Except Exception Unit × Database :=
  match selectPending db.requests with
  | none => (.ok (), db)
  | some row =>
      -- `GetInt32` throws before there is a `catch`
      if isInt32 row.maxTokens then
        let running := db.mark row.id .running
        let (fragments, thrown) := engine (requestOf getFloat db row)
        let tokens := InferenceOrchestrator.run ⟨fragments, thrown.isSome⟩
        let answered := { running with rows := running.rows ++ tokens.map (rowOf row.id) }
        match thrown with
        | none => (.ok (), answered.mark row.id .done)
        | some .operationCanceled => (.error .operationCanceled, answered)
        | some _ => (.ok (), answered.mark row.id .error)
      else (.error .overflow, db)

/-- So many passes of `PollLoopAsync`, or as many as there are before an exception ends it. -/
def pollLoop : ℕ → Database → Except Exception Unit × Database
  | 0, db => (.ok (), db)
  | passes + 1, db =>
      match processNextPending getFloat engine db with
      | (.ok (), next) => pollLoop passes next
      | (.error exception, next) => (.error exception, next)

/-- A row that is read, and that the engine does not answer with a cancellation. -/
def Harmless (db : Database) (row : RequestRow) : Prop :=
  isInt32 row.maxTokens = true ∧
    (engine (requestOf getFloat db row)).2 ≠ some .operationCanceled

/-- The call returns, and the row has come to an end. -/
def Settled (db : Database) (row : RequestRow) : Prop :=
  (processNextPending getFloat engine db).1 = .ok () ∧
    ((processNextPending getFloat engine db).2.status row.id = some .done ∨
      (processNextPending getFloat engine db).2.status row.id = some .error)

variable {getFloat : BitVec 64 → BitVec 32} {engine : Engine} {db : Database} {row : RequestRow}

/-! ## One call -/

theorem status_mark (hmem : ∃ other ∈ db.requests, other.id = row.id) (status : RequestStatus) :
    (db.mark row.id status).status row.id = some status := by
  unfold Database.status Database.mark
  simp only [markStatus_eq]
  generalize db.requests = requests at *
  induction requests with
  | nil => simp at hmem
  | cons first requests ih =>
      by_cases hid : first.id = row.id
      · rw [List.map_cons, List.find?_cons_of_pos (by simpa using hid), Option.map_some,
          marked_of_id hid]
      · rw [List.map_cons, List.find?_cons_of_neg (by simpa using hid)]
        apply ih
        simpa [hid] using hmem

/-- What a call does to a row that is harmless. -/
theorem processNextPending_harmless (hrow : selectPending db.requests = some row)
    (hharmless : Harmless getFloat engine db row) :
    ∃ status rows, (status = .done ∨ status = .error) ∧
      processNextPending getFloat engine db =
        (.ok (), { db with
          requests := markStatus (markStatus db.requests row.id .running) row.id status
          rows := rows }) := by
  obtain ⟨hfits, hcancel⟩ := hharmless
  rw [processNextPending, hrow]
  simp only [hfits, if_true]
  cases hthrown : (engine (requestOf getFloat db row)).2 with
  | none => exact ⟨.done, _, .inl rfl, rfl⟩
  | some exception =>
      cases exception with
      | operationCanceled => exact absurd hthrown hcancel
      | overflow => exact ⟨.error, _, .inr rfl, rfl⟩
      | other => exact ⟨.error, _, .inr rfl, rfl⟩

theorem processNextPending_harmful (hrow : selectPending db.requests = some row)
    (hharmful : ¬ Harmless getFloat engine db row) :
    ∃ exception next, processNextPending getFloat engine db = (.error exception, next) := by
  rw [processNextPending, hrow]
  by_cases hfits : isInt32 row.maxTokens = true
  · have hcancel : (engine (requestOf getFloat db row)).2 = some .operationCanceled := by
      by_contra hother
      exact hharmful ⟨hfits, hother⟩
    simp only [hfits, if_true, hcancel]
    exact ⟨_, _, rfl⟩
  · simp only [hfits]
    exact ⟨_, _, rfl⟩

/-- A call comes to an end with its request exactly if the request's `max_tokens` fits in 32
bits and the engine does not cancel of its own accord. -/
theorem processNextPending_settled_iff (hrow : selectPending db.requests = some row) :
    Settled getFloat engine db row ↔ Harmless getFloat engine db row := by
  constructor
  · intro hsettled
    by_contra hharmful
    obtain ⟨exception, next, hcall⟩ := processNextPending_harmful hrow hharmful
    have hok := hsettled.1
    rw [hcall] at hok
    cases hok
  · intro hharmless
    obtain ⟨status, rows, hstatus, hcall⟩ := processNextPending_harmless hrow hharmless
    have hmem := (selectPending_eq_some hrow).1
    have hrunning : ∃ other ∈ (db.mark row.id .running).requests, other.id = row.id :=
      ⟨marked row.id .running row, List.mem_map_of_mem hmem, marked_id _ _ _⟩
    have hafter : Database.status { db with
        requests := markStatus (markStatus db.requests row.id .running) row.id status
        rows := rows } row.id = some status :=
      status_mark hrunning status
    rw [Settled, hcall, hafter]
    exact ⟨rfl, by simpa using hstatus⟩

/-- An engine that faults behind one fragment. -/
def faulting (exception : Exception) : Engine :=
  fun _ => (["Hi"], some exception)

def queued (maxTokens : ℤ) : Database where
  requests := [⟨1, "hello", maxTokens, .pending⟩, ⟨2, "next", 256, .pending⟩]
  temperature := fun _ => 0
  rows := []

theorem processNextPending_settled_fault :
    Settled (fun _ => 0) (faulting .other) (queued 256) ⟨1, "hello", 256, .pending⟩ :=
  (processNextPending_settled_iff rfl).mpr ⟨by decide, by decide⟩

/-- A number of tokens that has no place in an `Int32`, and an engine that gives up by itself:
the loop ends, and the request behind is never looked at. -/
theorem processNextPending_escapes :
    ¬ Settled (fun _ => 0) (faulting .other) (queued (2 ^ 31))
        ⟨1, "hello", 2 ^ 31, .pending⟩ ∧
      ¬ Settled (fun _ => 0) (faulting .operationCanceled) (queued 256)
        ⟨1, "hello", 256, .pending⟩ ∧
      (∀ passes, (pollLoop (fun _ => 0) (faulting .other) (passes + 1) (queued (2 ^ 31))).2 =
        queued (2 ^ 31)) ∧
      ∀ passes, ((pollLoop (fun _ => 0) (faulting .operationCanceled) (passes + 1)
        (queued 256)).2.status 1, (pollLoop (fun _ => 0) (faulting .operationCanceled)
          (passes + 1) (queued 256)).2.status 2) = (some .running, some .pending) := by
  refine ⟨?_, ?_, fun passes => rfl, fun passes => rfl⟩
  · rintro ⟨hok, -⟩
    cases hok
  · rintro ⟨hok, -⟩
    cases hok

/-! ## The loop -/

/-- The rows still pending after a call are those before it, but for its own. -/
theorem pending_of_marked {requests : List RequestRow} {requestId : ℤ} {status : RequestStatus}
    (hstatus : status ≠ .pending) {other : RequestRow}
    (hmem : other ∈ markStatus requests requestId status) (hpending : other.status = .pending) :
    other ∈ requests ∧ other.id ≠ requestId := by
  obtain ⟨row, hrow, rfl⟩ := List.mem_map.mp hmem
  by_cases hid : row.id = requestId
  · rw [if_pos hid] at hpending
    exact absurd hpending hstatus
  · rw [if_neg hid]
    exact ⟨hrow, hid⟩

def pendingIds (requests : List RequestRow) : Finset ℤ :=
  ((requests.filter fun row => row.status = .pending).map RequestRow.id).toFinset

theorem mem_pendingIds {requests : List RequestRow} {requestId : ℤ} :
    requestId ∈ pendingIds requests ↔
      ∃ row ∈ requests, row.status = .pending ∧ row.id = requestId := by
  simp [pendingIds, and_assoc]

theorem card_pendingIds_mark_lt {requests : List RequestRow} {status : RequestStatus}
    (hstatus : status ≠ .pending) (hmem : row ∈ requests) (hpending : row.status = .pending) :
    (pendingIds (markStatus requests row.id status)).card < (pendingIds requests).card := by
  apply Finset.card_lt_card
  constructor
  · intro requestId hin
    obtain ⟨other, hother, hwaits, rfl⟩ := mem_pendingIds.mp hin
    exact mem_pendingIds.mpr ⟨other, (pending_of_marked hstatus hother hwaits).1, hwaits, rfl⟩
  · intro hsubset
    have hin := hsubset (mem_pendingIds.mpr ⟨row, hmem, hpending, rfl⟩)
    obtain ⟨other, hother, hwaits, hid⟩ := mem_pendingIds.mp hin
    exact (pending_of_marked hstatus hother hwaits).2 hid

theorem card_pendingIds_mark_le (requests : List RequestRow) (requestId : ℤ)
    {status : RequestStatus} (hstatus : status ≠ .pending) :
    (pendingIds (markStatus requests requestId status)).card ≤ (pendingIds requests).card := by
  apply Finset.card_le_card
  intro other hin
  obtain ⟨row, hrow, hwaits, rfl⟩ := mem_pendingIds.mp hin
  exact mem_pendingIds.mpr ⟨row, (pending_of_marked hstatus hrow hwaits).1, hwaits, rfl⟩

theorem ids_markStatus (requests : List RequestRow) (requestId : ℤ) (status : RequestStatus) :
    (markStatus requests requestId status).map RequestRow.id = requests.map RequestRow.id := by
  rw [markStatus_eq, List.map_map]
  exact List.map_congr_left fun row _ => marked_id _ _ row

theorem pollLoop_harmless {passes : ℕ}
    (hharmless : ∀ row ∈ db.requests, row.status = .pending → Harmless getFloat engine db row) :
    (pollLoop getFloat engine passes db).1 = .ok () := by
  induction passes generalizing db with
  | zero => rfl
  | succ passes ih =>
      rw [pollLoop]
      cases hrow : selectPending db.requests with
      | none =>
          have hidle : processNextPending getFloat engine db = (.ok (), db) := by
            rw [processNextPending, hrow]
          rw [hidle]
          exact ih hharmless
      | some row =>
          obtain ⟨hmem, hpending, -⟩ := selectPending_eq_some hrow
          obtain ⟨status, rows, hstatus, hcall⟩ :=
            processNextPending_harmless hrow (hharmless row hmem hpending)
          have hended : status ≠ .pending := by rcases hstatus with rfl | rfl <;> decide
          rw [hcall]
          apply ih
          intro other hother hwaits
          have hthen := (pending_of_marked hended hother hwaits).1
          exact hharmless other (pending_of_marked (by decide) hthen hwaits).1 hwaits

/-- The poll loop goes on for ever exactly if every request that is pending is harmless. -/
theorem pollLoop_ok_iff (hids : (db.requests.map RequestRow.id).Nodup) :
    (∀ passes, (pollLoop getFloat engine passes db).1 = .ok ()) ↔
      ∀ row ∈ db.requests, row.status = .pending → Harmless getFloat engine db row := by
  constructor
  · intro hok
    -- each pass leaves one request less that is pending
    induction hcount : (pendingIds db.requests).card using Nat.strong_induction_on
      generalizing db with
    | _ count ih =>
        intro other hother hwaits
        cases hrow : selectPending db.requests with
        | none => exact absurd hwaits (selectPending_eq_none hrow other hother)
        | some row =>
            obtain ⟨hmem, hpending, -⟩ := selectPending_eq_some hrow
            have hharmless : Harmless getFloat engine db row := by
              by_contra hharmful
              obtain ⟨exception, next, hcall⟩ := processNextPending_harmful hrow hharmful
              have hone := hok 1
              rw [pollLoop, hcall] at hone
              cases hone
            by_cases hid : other.id = row.id
            · rw [List.inj_on_of_nodup_map hids hother hmem hid]
              exact hharmless
            · obtain ⟨status, rows, hstatus, hcall⟩ := processNextPending_harmless hrow hharmless
              have hended : status ≠ .pending := by rcases hstatus with rfl | rfl <;> decide
              have hlater : ∀ passes, (pollLoop getFloat engine passes { db with
                  requests := markStatus (markStatus db.requests row.id .running) row.id status
                  rows := rows }).1 = .ok () := by
                intro passes
                have hnext := hok (passes + 1)
                rwa [pollLoop, hcall] at hnext
              have hless := Nat.lt_of_le_of_lt
                (card_pendingIds_mark_le (markStatus db.requests row.id .running) row.id hended)
                (card_pendingIds_mark_lt (by decide) hmem hpending)
              have hstays : other ∈ markStatus (markStatus db.requests row.id .running)
                  row.id status := by
                have hfirst : other ∈ markStatus db.requests row.id .running :=
                  List.mem_map.mpr ⟨other, hother, if_neg hid⟩
                exact List.mem_map.mpr ⟨other, hfirst, if_neg hid⟩
              have hthere := ih _ (hcount ▸ hless) (by rwa [ids_markStatus, ids_markStatus])
                hlater rfl other hstays hwaits
              exact hthere
  · intro hharmless passes
    exact pollLoop_harmless hharmless

theorem pollLoop_ok_iff_fault :
    (∀ passes, (pollLoop (fun _ => 0) (faulting .other) passes (queued 256)).1 = .ok ()) ∧
      ¬ ∀ passes, (pollLoop (fun _ => 0) (faulting .operationCanceled) passes
        (queued 256)).1 = .ok () := by
  have hids : ((queued 256).requests.map RequestRow.id).Nodup := by decide
  constructor
  · apply (pollLoop_ok_iff hids).mpr
    intro row hmem _
    rcases List.mem_pair.mp hmem with rfl | rfl <;> exact ⟨by decide, by decide⟩
  · intro hok
    exact ((pollLoop_ok_iff hids).mp hok _ (List.mem_cons_self ..) rfl).2 rfl

end NativeInterop.SqliteBroker
