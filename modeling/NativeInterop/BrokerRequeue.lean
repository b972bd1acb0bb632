import NativeInterop.BrokerFaults
import Mathlib.Tactic

/-!
# Requests that are requeued

A stop or a crash of the broker leaves the claimed request in `running`, with the rows that
have been inserted; the host may set it back to `pending` for a later call of
`ProcessNextPendingAsync`.  Calls follow one another here, and each of them may be cut off
behind any of its inserts.
-/

namespace NativeInterop.SqliteBroker

open LlamaLanguageModel (InferenceRequest)

/-- A deterministic model: the fragments of its answer to a request. -/
abbrev Model : Type := InferenceRequest (BitVec 32) → List String

/-- A call comes to its end, meets a fault of the engine behind so many fragments, or is cut
off by a stop or a crash behind so many inserts. -/
inductive Ending where
  | whole
  | fault (n : ℕ)
  | cut (n : ℕ)
  deriving DecidableEq, Repr

/-- The rows and the status that a call leaves to the request it has marked as running. -/
def outcome (rows : List TokenRow) (requestId : ℤ) (answer : List String) :
    Ending → List TokenRow × RequestStatus
  | .whole => processPending rows requestId ⟨answer, false⟩
  | .fault n => processPending rows requestId ⟨answer.take n, true⟩
  | .cut n =>
      match insertTokens requestId rows ((InferenceOrchestrator.run ⟨answer, false⟩).take n) with
      | (rows, inserted) => (rows, if inserted then .running else .error)

/-- The tables with the `AUTOINCREMENT` sequence. -/
structure BrokerFile extends Database where
  nextId : ℤ

def BrokerFile.empty : BrokerFile where
  requests := []
  temperature := fun _ => 0
  rows := []
  nextId := 1

def BrokerFile.insert (file : BrokerFile) (prompt : String) (maxTokens : ℤ)
    (temperature : BitVec 64) : BrokerFile where
  requests := file.requests ++ [⟨file.nextId, prompt, maxTokens, .pending⟩]
  temperature := Function.update file.temperature file.nextId temperature
  rows := file.rows
  nextId := file.nextId + 1

/-- `UPDATE requests SET status = 'pending'`, by the host. -/
def BrokerFile.requeue (file : BrokerFile) (requestId : ℤ) : BrokerFile :=
  { file with toDatabase := file.mark requestId .pending }

section

variable (getFloat : BitVec 64 → BitVec 32) (model : Model)

/-- `ProcessNextPendingAsync`, where `GetInt32` may throw before the row is marked. -/
def BrokerFile.poll (file : BrokerFile) (ending : Ending) : BrokerFile :=
  match selectPending file.requests with
  | none => file
  | some row =>
      if isInt32 row.maxTokens then
        let running := file.mark row.id .running
        let (rows, status) :=
          outcome running.rows row.id (model (requestOf getFloat file.toDatabase row)) ending
        { file with toDatabase := Database.mark { running with rows := rows } row.id status }
      else file

inductive QueueAct where
  | insert (prompt : String) (maxTokens : ℤ) (temperature : BitVec 64)
  | requeue (requestId : ℤ)
  | poll (ending : Ending)
  deriving DecidableEq, Repr

def queueStep (file : BrokerFile) : QueueAct → BrokerFile
  | .insert prompt maxTokens temperature => file.insert prompt maxTokens temperature
  | .requeue requestId => file.requeue requestId
  | .poll ending => file.poll getFloat model ending

def queue : Machine BrokerFile QueueAct where
  step := fun file act => some (queueStep getFloat model file act)

end

def tokensOf (db : Database) (requestId : ℤ) : List TokenRow :=
  db.rows.filter fun row => row.requestId = requestId

/-- The rows of a complete answer: its fragments from 0 on, and one final row. -/
def answerRows (requestId : ℤ) (answer : List String) : List TokenRow :=
  (answer.mapIdx fun i text => ⟨requestId, i, text, 0⟩) ++ [⟨requestId, answer.length, "", 1⟩]

def Completed (db : Database) (requestId : ℤ) (answer : List String) : Prop :=
  db.status requestId = some .done ∧ selectTokens db.rows requestId = answerRows requestId answer

/-! ## What a call does -/

section

variable {rows : List TokenRow} {requestId : ℤ} {tokens : List InferenceToken}

theorem filter_insertTokens {other : ℤ} (hother : other ≠ requestId) :
    (insertTokens requestId rows tokens).1.filter (fun row => row.requestId = other) =
      rows.filter fun row => row.requestId = other := by
  induction tokens generalizing rows with
  | nil => rfl
  | cons token tokens ih =>
      rw [insertTokens]
      split
      · rfl
      · next next hinsert =>
          unfold insertToken at hinsert
          split_ifs at hinsert
          cases hinsert
          rw [ih, List.filter_append]
          simp [hother.symm]

/-- As long as no key is taken the rows are appended. -/
theorem insertTokens_eq_of_inserted (hinserted : (insertTokens requestId rows tokens).2 = true) :
    (insertTokens requestId rows tokens).1 = rows ++ tokens.map (rowOf requestId) := by
  induction tokens generalizing rows with
  | nil => simp [insertTokens]
  | cons token tokens ih =>
      cases hinsert : insertToken rows requestId token with
      | none => simp [insertTokens, hinsert] at hinserted
      | some next =>
          simp only [insertTokens, hinsert] at hinserted ⊢
          unfold insertToken at hinsert
          split_ifs at hinsert
          cases hinsert
          rw [ih hinserted]
          simp [rowOf]

theorem filter_outcome {other : ℤ} (hother : other ≠ requestId) (answer : List String)
    (ending : Ending) :
    (outcome rows requestId answer ending).1.filter (fun row => row.requestId = other) =
      rows.filter fun row => row.requestId = other := by
  cases ending <;> exact filter_insertTokens hother

theorem outcome_status (rows : List TokenRow) (requestId : ℤ) (answer : List String)
    (ending : Ending) : (outcome rows requestId answer ending).2 ≠ .pending := by
  cases ending with
  | whole =>
      simp only [outcome, processPending]
      split_ifs <;> decide
  | fault n =>
      simp only [outcome, processPending]
      split_ifs <;> decide
  | cut n =>
      simp only [outcome]
      split_ifs <;> decide

end

section

variable {getFloat : BitVec 64 → BitVec 32} {model : Model} {file next : BrokerFile}
  {ending : Ending}

def answerOf (getFloat : BitVec 64 → BitVec 32) (model : Model) (file : BrokerFile)
    (row : RequestRow) : List String :=
  model (requestOf getFloat file.toDatabase row)

theorem poll_of_select {row : RequestRow} (hrow : selectPending file.requests = some row)
    (hfits : isInt32 row.maxTokens = true) :
    file.poll getFloat model ending =
      { file with
        requests := markStatus (markStatus file.requests row.id .running) row.id
          (outcome file.rows row.id (answerOf getFloat model file row) ending).2
        rows := (outcome file.rows row.id (answerOf getFloat model file row) ending).1 } := by
  rw [BrokerFile.poll, hrow]
  simp only [hfits, if_true]
  rfl

/-- A call that does anything takes one request out of those that are pending, and leaves the
rows of the others alone. -/
inductive Polled (file : BrokerFile) : BrokerFile → Prop
  | idle : Polled file file
  | taken {row : RequestRow} {status : RequestStatus} {rows : List TokenRow}
      (hrow : selectPending file.requests = some row) (hfits : isInt32 row.maxTokens = true)
      (hstatus : status ≠ .pending)
      (hrows : ∀ other, other ≠ row.id → tokensOf { file.toDatabase with rows := rows } other =
        tokensOf file.toDatabase other) :
      Polled file { file with
        requests := markStatus (markStatus file.requests row.id .running) row.id status
        rows := rows }

theorem polled (file : BrokerFile) (ending : Ending) :
    Polled file (file.poll getFloat model ending) := by
  cases hrow : selectPending file.requests with
  | none =>
      rw [BrokerFile.poll, hrow]
      exact .idle
  | some row =>
      by_cases hfits : isInt32 row.maxTokens = true
      · rw [poll_of_select hrow hfits]
        exact .taken hrow hfits (outcome_status _ _ _ _)
          fun other hother => filter_outcome hother _ _
      · rw [BrokerFile.poll, hrow]
        simp only [hfits]
        exact .idle

theorem mem_markStatus {requests : List RequestRow} {requestId : ℤ} {status : RequestStatus}
    {other : RequestRow} (hmem : other ∈ markStatus requests requestId status) :
    (other.id = requestId ∧ other.status = status) ∨ (other.id ≠ requestId ∧ other ∈ requests) := by
  rw [markStatus_eq] at hmem
  obtain ⟨row, hrow, rfl⟩ := List.mem_map.mp hmem
  by_cases hid : row.id = requestId
  · exact .inl ⟨(marked_id _ _ _).trans hid, marked_of_id hid⟩
  · rw [marked_of_id_ne hid]
    exact .inr ⟨hid, hrow⟩

theorem mem_markStatus_twice {requests : List RequestRow} {requestId : ℤ}
    {first second : RequestStatus} {other : RequestRow}
    (hmem : other ∈ markStatus (markStatus requests requestId first) requestId second) :
    (other.id = requestId ∧ other.status = second) ∨
      (other.id ≠ requestId ∧ other ∈ requests) := by
  rcases mem_markStatus hmem with hown | ⟨hne, hbefore⟩
  · exact .inl hown
  · rcases mem_markStatus hbefore with ⟨hid, -⟩ | hother
    · exact absurd hid hne
    · exact .inr hother

/-! ## Runs -/

/-- Keys are given out once, and what is running has been read. -/
structure BrokerFile.Inv (file : BrokerFile) : Prop where
  ids : (file.requests.map RequestRow.id).Nodup
  below : ∀ row ∈ file.requests, row.id < file.nextId
  readable : ∀ row ∈ file.requests, row.status = .running → isInt32 row.maxTokens = true

theorem inv_empty : BrokerFile.empty.Inv where
  ids := List.nodup_nil
  below := fun _ hrow => absurd hrow List.not_mem_nil
  readable := fun _ hrow => absurd hrow List.not_mem_nil

theorem exists_of_mem_markStatus {requests : List RequestRow} {requestId : ℤ}
    {status : RequestStatus} {other : RequestRow}
    (hmem : other ∈ markStatus requests requestId status) :
    ∃ row ∈ requests, row.id = other.id ∧ row.maxTokens = other.maxTokens := by
  obtain ⟨row, hrow, rfl⟩ := List.mem_map.mp hmem
  refine ⟨row, hrow, ?_⟩
  split_ifs <;> exact ⟨rfl, rfl⟩

theorem BrokerFile.Inv.requeue (hinv : file.Inv) (requestId : ℤ) :
    (file.requeue requestId).Inv where
  ids := by
    simp only [BrokerFile.requeue, Database.mark, ids_markStatus]
    exact hinv.ids
  below := by
    intro row hrow
    obtain ⟨old, hold, hid, -⟩ := exists_of_mem_markStatus hrow
    rw [← hid]
    exact hinv.below old hold
  readable := by
    intro row hrow hrunning
    rcases mem_markStatus hrow with ⟨-, hpending⟩ | ⟨-, hold⟩
    · rw [hrunning] at hpending
      cases hpending
    · exact hinv.readable row hold hrunning

theorem BrokerFile.Inv.insert (hinv : file.Inv) (prompt : String) (maxTokens : ℤ)
    (temperature : BitVec 64) : (file.insert prompt maxTokens temperature).Inv where
  ids := by
    have hnew : file.nextId ∉ file.requests.map RequestRow.id := by
      intro hmem
      obtain ⟨row, hrow, hid⟩ := List.mem_map.mp hmem
      exact (hinv.below row hrow).ne hid
    simpa [BrokerFile.insert, List.nodup_append, hinv.ids] using hnew
  below := by
    intro row hrow
    rcases List.mem_append.mp hrow with hold | hnew
    · exact (hinv.below row hold).trans (Int.lt_succ file.nextId)
    · rw [List.mem_singleton.mp hnew]
      exact Int.lt_succ file.nextId
  readable := by
    intro row hrow hrunning
    rcases List.mem_append.mp hrow with hold | hnew
    · exact hinv.readable row hold hrunning
    · rw [List.mem_singleton.mp hnew] at hrunning
      cases hrunning

theorem BrokerFile.Inv.polled (hinv : file.Inv) (hpolled : Polled file next) : next.Inv := by
  cases hpolled with
  | idle => exact hinv
  | @taken row status rows hrow hfits hstatus hrows =>
      constructor
      · simp only [ids_markStatus]
        exact hinv.ids
      · intro other hother
        obtain ⟨middle, hmiddle, hid, -⟩ := exists_of_mem_markStatus hother
        obtain ⟨old, hold, hsame, -⟩ := exists_of_mem_markStatus hmiddle
        rw [← hid, ← hsame]
        exact hinv.below old hold
      · intro other hother hrunning
        obtain ⟨middle, hmiddle, hid, hmax⟩ := exists_of_mem_markStatus hother
        obtain ⟨old, hold, hsame, holdMax⟩ := exists_of_mem_markStatus hmiddle
        rcases mem_markStatus_twice hother with ⟨hown, -⟩ | ⟨-, hthere⟩
        · have heq : old = row :=
            List.inj_on_of_nodup_map hinv.ids hold (selectPending_eq_some hrow).1
              ((hsame.trans hid).trans hown)
          rw [← hmax, ← holdMax, heq]
          exact hfits
        · exact hinv.readable other hthere hrunning

theorem inv_queueStep {act : QueueAct} (hinv : file.Inv)
    (hstep : (queue getFloat model).step file act = some next) : next.Inv := by
  cases act with
  | insert prompt maxTokens temperature =>
      cases hstep
      exact hinv.insert prompt maxTokens temperature
  | requeue requestId =>
      cases hstep
      exact hinv.requeue requestId
  | poll ending =>
      cases hstep
      exact hinv.polled (polled file ending)

/-- As long as a request waits, nothing about it changes. -/
structure Waits (before : BrokerFile) (row : RequestRow) (file : BrokerFile) : Prop where
  inv : file.Inv
  below : row.id < file.nextId
  temperature : file.temperature row.id = before.temperature row.id
  same : ∀ other ∈ file.requests, other.id = row.id → other.status = .pending →
    other = { row with status := .pending } ∧
      tokensOf file.toDatabase row.id = tokensOf before.toDatabase row.id

theorem waits_requeue (hinv : file.Inv) {row : RequestRow} (hrow : row ∈ file.requests) :
    Waits file row (file.requeue row.id) where
  inv := hinv.requeue row.id
  below := hinv.below row hrow
  temperature := rfl
  same := by
    intro other hother hid _
    obtain ⟨old, hold, heq⟩ := List.mem_map.mp hother
    have hsame : old = row := by
      apply List.inj_on_of_nodup_map hinv.ids hold hrow
      rw [← hid, ← heq]
      split_ifs <;> rfl
    rw [← heq, hsame, if_pos rfl]
    exact ⟨rfl, rfl⟩

section Waiting

variable {before : BrokerFile} {row : RequestRow}

theorem Waits.requeue (hwaits : Waits before row file) {requestId : ℤ} (hne : requestId ≠ row.id) :
    Waits before row (file.requeue requestId) where
  inv := hwaits.inv.requeue requestId
  below := hwaits.below
  temperature := hwaits.temperature
  same := by
    intro other hother hid hpending
    rcases mem_markStatus hother with ⟨hown, -⟩ | ⟨-, hold⟩
    · exact absurd (hown.symm.trans hid) hne
    · exact hwaits.same other hold hid hpending

theorem Waits.insert (hwaits : Waits before row file) (prompt : String) (maxTokens : ℤ)
    (temperature : BitVec 64) : Waits before row (file.insert prompt maxTokens temperature) where
  inv := hwaits.inv.insert prompt maxTokens temperature
  below := hwaits.below.trans (Int.lt_succ file.nextId)
  temperature := by
    rw [← hwaits.temperature]
    exact Function.update_of_ne hwaits.below.ne _ _
  same := by
    intro other hother hid hpending
    rcases List.mem_append.mp hother with hold | hnew
    · exact hwaits.same other hold hid hpending
    · rw [List.mem_singleton.mp hnew] at hid
      exact absurd hid hwaits.below.ne'

theorem Waits.polled (hwaits : Waits before row file) (hpolled : Polled file next) :
    Waits before row next := by
  have hinv := hwaits.inv.polled hpolled
  cases hpolled with
  | idle => exact hwaits
  | @taken first status rows hrow hfits hstatus hrows =>
      refine ⟨hinv, hwaits.below, hwaits.temperature, ?_⟩
      intro other hother hid hpending
      rcases mem_markStatus_twice hother with ⟨-, hended⟩ | ⟨hne, hold⟩
      · exact absurd (hended.symm.trans hpending) hstatus
      · obtain ⟨hsame, htokens⟩ := hwaits.same other hold hid hpending
        exact ⟨hsame, (hrows row.id (hid ▸ hne)).trans htokens⟩

theorem Waits.step {act : QueueAct} (hwaits : Waits before row file) (hact : act ≠ .requeue row.id)
    (hstep : (queue getFloat model).step file act = some next) : Waits before row next := by
  cases act with
  | insert prompt maxTokens temperature =>
      cases hstep
      exact hwaits.insert prompt maxTokens temperature
  | requeue requestId =>
      cases hstep
      exact hwaits.requeue fun heq => hact (heq ▸ rfl)
  | poll ending =>
      cases hstep
      exact hwaits.polled (SqliteBroker.polled file ending)

/-- The row that a later call selects is the row that was requeued. -/
theorem Waits.selected (hwaits : Waits before row file)
    (hselect : (selectPending file.requests).map RequestRow.id = some row.id) :
    selectPending file.requests = some { row with status := .pending } ∧
      tokensOf file.toDatabase row.id = tokensOf before.toDatabase row.id := by
  obtain ⟨other, hother, hid⟩ := Option.map_eq_some_iff.mp hselect
  obtain ⟨hmem, hpending, -⟩ := selectPending_eq_some hother
  obtain ⟨hsame, htokens⟩ := hwaits.same other hmem hid hpending
  exact ⟨hother.trans (congrArg some hsame), htokens⟩

end Waiting

/-! ## A whole call -/

theorem map_rowOf_stream {answer : List String} (hshort : answer.length < 2 ^ 31)
    (requestId : ℤ) :
    (InferenceOrchestrator.stream answer).map (rowOf requestId) = answerRows requestId answer := by
  have htokens : (InferenceOrchestrator.tokens answer).map (rowOf requestId) =
      answer.mapIdx fun i text => ⟨requestId, i, text, 0⟩ := by
    apply List.ext_getElem
    · simp [InferenceOrchestrator.tokens]
    · intro i hi _
      have hlt : i < answer.length := by simpa [InferenceOrchestrator.tokens] using hi
      simp [InferenceOrchestrator.tokens, rowOf, toInt_ofNat_of_lt (hlt.trans hshort)]
  rw [InferenceOrchestrator.stream, List.map_append, htokens, answerRows, List.map_singleton]
  simp [rowOf, InferenceToken.final, toInt_ofNat_of_lt hshort]

theorem run_whole (answer : List String) :
    InferenceOrchestrator.run ⟨answer, false⟩ = InferenceOrchestrator.stream answer := by
  rw [InferenceOrchestrator.run_eq]
  rfl

/-- An answer's rows have no room for rows that were there before, and its final row counts the
fragments. -/
theorem eq_nil_of_perm_answerRows {left : List TokenRow} {answer : List String}
    (hperm : (left ++ (InferenceOrchestrator.stream answer).map (rowOf requestId)).Perm
      (answerRows requestId answer)) : left = [] ∧ answer.length < 2 ^ 31 := by
  have hlength := hperm.length_eq
  simp only [List.length_append, List.length_map, InferenceOrchestrator.length_stream,
    answerRows, List.length_mapIdx, List.length_singleton] at hlength
  have hnone : left = [] := List.length_eq_zero_iff.mp (by omega)
  rw [hnone, List.nil_append] at hperm
  have hfinal : (⟨requestId, answer.length, "", 1⟩ : TokenRow) ∈
      (InferenceOrchestrator.stream answer).map (rowOf requestId) :=
    hperm.mem_iff.mpr (List.mem_append_right _ (List.mem_singleton_self _))
  obtain ⟨token, -, htoken⟩ := List.mem_map.mp hfinal
  have hindex : token.index.toInt = answer.length := congrArg TokenRow.idx htoken
  have hbound := BitVec.toInt_lt (x := token.index)
  exact ⟨hnone, by omega⟩

/-- Where rows have been left the first key is taken, or there are too many rows in the end. -/
theorem outcome_whole_iff (rows : List TokenRow) (requestId : ℤ) (answer : List String) :
    (outcome rows requestId answer .whole).2 = .done ∧
        selectTokens (outcome rows requestId answer .whole).1 requestId =
          answerRows requestId answer ↔
      (rows.filter fun row => row.requestId = requestId) = [] ∧ answer.length < 2 ^ 31 := by
  simp only [outcome, processPending, run_whole]
  constructor
  · rintro ⟨hdone, hselect⟩
    have hinserted : (insertTokens requestId rows (InferenceOrchestrator.stream answer)).2 =
        true := by
      by_contra hrefused
      rw [if_neg fun hboth => hrefused hboth.1] at hdone
      cases hdone
    have hrows := insertTokens_eq_of_inserted hinserted
    have hnew : ((InferenceOrchestrator.stream answer).map (rowOf requestId)).filter
        (fun row => row.requestId = requestId) =
          (InferenceOrchestrator.stream answer).map (rowOf requestId) := by
      simp [List.filter_eq_self, rowOf]
    have hperm : ((rows.filter fun row => row.requestId = requestId) ++
        (InferenceOrchestrator.stream answer).map (rowOf requestId)).Perm
          (answerRows requestId answer) := by
      rw [← hselect, selectTokens, hrows, List.filter_append, hnew]
      exact (List.mergeSort_perm _ _).symm
    exact eq_nil_of_perm_answerRows hperm
  · rintro ⟨hnone, hshort⟩
    have hfresh : ∀ row ∈ rows, row.requestId ≠ requestId := by
      simpa [List.filter_eq_nil_iff] using hnone
    have hsorted := pairwise_stream hshort
    rw [insertTokens_distinct (fun row hrow hid => absurd hid (hfresh row hrow)) hsorted]
    refine ⟨by simp, ?_⟩
    rw [selectTokens_append hfresh hsorted, map_rowOf_stream hshort]

theorem completed_poll_iff {row : RequestRow} (hrow : selectPending file.requests = some row)
    (hfits : isInt32 row.maxTokens = true) :
    Completed (file.poll getFloat model .whole).toDatabase row.id
        (answerOf getFloat model file row) ↔
      tokensOf file.toDatabase row.id = [] ∧
        (answerOf getFloat model file row).length < 2 ^ 31 := by
  have hrunning : ∃ other ∈ (file.mark row.id .running).requests, other.id = row.id :=
    ⟨marked row.id .running row, List.mem_map_of_mem (selectPending_eq_some hrow).1,
      marked_id _ _ _⟩
  have hafter : Database.status { file.toDatabase with
      requests := markStatus (markStatus file.requests row.id .running) row.id
        (outcome file.rows row.id (answerOf getFloat model file row) .whole).2
      rows := (outcome file.rows row.id (answerOf getFloat model file row) .whole).1 } row.id =
        some (outcome file.rows row.id (answerOf getFloat model file row) .whole).2 :=
    status_mark hrunning _
  rw [poll_of_select hrow hfits, Completed, hafter, Option.some_inj]
  exact outcome_whole_iff file.rows row.id (answerOf getFloat model file row)

/-- As long as the rows that are pending can be read, calls get to each of them. -/
theorem exists_selected {row : RequestRow} (hwaiting : ∃ other ∈ file.requests,
      other.id = row.id ∧ other.status = .pending)
    (hreadable : ∀ other ∈ file.requests, other.status = .pending →
      isInt32 other.maxTokens = true) :
    ∃ later mid, (queue getFloat model).run file later = some mid ∧
      (queue getFloat model).RunMeets (fun _ act => act = .poll .whole) file later ∧
      (selectPending mid.requests).map RequestRow.id = some row.id := by
  have hrun := (queue getFloat model).exists_run_meets
    (P := fun _ act => act = .poll .whole)
    (I := fun file => (∃ other ∈ file.requests, other.id = row.id ∧ other.status = .pending) ∧
      ∀ other ∈ file.requests, other.status = .pending → isInt32 other.maxTokens = true)
    (G := fun file => (selectPending file.requests).map RequestRow.id = some row.id)
    (fun file => (pendingIds file.requests).card) ?_ ⟨hwaiting, hreadable⟩
  · obtain ⟨later, mid, hrun, hmeets, -, hselect⟩ := hrun
    exact ⟨later, mid, hrun, hmeets, hselect⟩
  rintro file ⟨⟨other, hother, hid, hpending⟩, hreadable⟩ hgoal
  cases hselect : selectPending file.requests with
  | none => exact absurd hpending (selectPending_eq_none hselect other hother)
  | some first =>
      obtain ⟨hmem, hfirst, -⟩ := selectPending_eq_some hselect
      have hne : other.id ≠ first.id := by
        intro heq
        rw [hselect, Option.map_some, ← heq, hid] at hgoal
        exact hgoal rfl
      have hfits := hreadable first hmem hfirst
      have hstatus := outcome_status file.rows first.id (answerOf getFloat model file first) .whole
      refine ⟨.poll .whole, _, rfl, rfl, ?_, ?_⟩
      · simp only [queueStep, poll_of_select hselect hfits]
        constructor
        · refine ⟨other, ?_, hid, hpending⟩
          exact List.mem_map.mpr ⟨other, List.mem_map.mpr ⟨other, hother, if_neg hne⟩, if_neg hne⟩
        · intro later hlater hwaits
          rcases mem_markStatus_twice hlater with ⟨-, hended⟩ | ⟨-, hold⟩
          · exact absurd (hended.symm.trans hwaits) hstatus
          · exact hreadable later hold hwaits
      · simp only [queueStep, poll_of_select hselect hfits]
        exact Nat.lt_of_le_of_lt
          (card_pendingIds_mark_le (markStatus file.requests first.id .running) first.id hstatus)
          (card_pendingIds_mark_lt (by decide) hmem hfirst)

end

/-- A request left running and set back to pending is completed by the call that takes it up
again exactly if it was left without rows and its answer has an index for each fragment; as
long as no request that is pending is unreadable, a call does take it up. -/
theorem requeued_completes_iff (getFloat : BitVec 64 → BitVec 32) (model : Model)
    {acts : List QueueAct} {file : BrokerFile}
    (hrun : (queue getFloat model).run .empty acts = some file) {row : RequestRow}
    (hrow : row ∈ file.requests) (hrunning : row.status = .running) :
    (∀ later mid,
      (queue getFloat model).run (file.requeue row.id) later = some mid →
      (queue getFloat model).RunMeets (fun _ act => act ≠ .requeue row.id)
        (file.requeue row.id) later →
      (selectPending mid.requests).map RequestRow.id = some row.id →
      (Completed (mid.poll getFloat model .whole).toDatabase row.id
          (answerOf getFloat model file row) ↔
        tokensOf file.toDatabase row.id = [] ∧
          (answerOf getFloat model file row).length < 2 ^ 31)) ∧
    ((∀ other ∈ file.requests, other.status = .pending → isInt32 other.maxTokens = true) →
      ∃ later mid,
        (queue getFloat model).run (file.requeue row.id) later = some mid ∧
        (queue getFloat model).RunMeets (fun _ act => act = .poll .whole)
          (file.requeue row.id) later ∧
        (selectPending mid.requests).map RequestRow.id = some row.id) := by
  have hinv : file.Inv := (queue getFloat model).run_invariant_of_step
    (fun _ _ _ hinv hstep => inv_queueStep hinv hstep) inv_empty hrun
  have hfits := hinv.readable row hrow hrunning
  constructor
  · intro later mid hlater hmeets hselect
    have hwaits : Waits file row mid := (queue getFloat model).run_invariant
      (fun _ _ _ hwaits hact hstep => hwaits.step hact hstep) (waits_requeue hinv hrow) hmeets
      hlater
    obtain ⟨hselected, htokens⟩ := hwaits.selected hselect
    have hanswer : answerOf getFloat model mid { row with status := .pending } =
        answerOf getFloat model file row := by
      simp only [answerOf, requestOf, hwaits.temperature]
    have hcompleted := @completed_poll_iff getFloat model mid _ hselected hfits
    rw [← htokens, ← hanswer]
    exact hcompleted
  · intro hreadable
    apply exists_selected
    · exact ⟨marked row.id .pending row, List.mem_map_of_mem hrow, marked_id _ _ _,
        marked_of_id rfl⟩
    · intro other hother hpending
      rcases mem_markStatus hother with ⟨hid, -⟩ | ⟨-, hold⟩
      · obtain ⟨old, hold, hsame, hmax⟩ := exists_of_mem_markStatus hother
        rw [← hmax, List.inj_on_of_nodup_map hinv.ids hold hrow (hsame.trans hid)]
        exact hfits
      · exact hreadable other hold hpending

/-- A model that always says the same. -/
def greeting : Model := fun _ => ["Hi", " there"]

/-- One request, claimed and cut off behind so many inserts. -/
def cutOff (n : ℕ) : List QueueAct := [.insert "hello" 256 0, .poll (.cut n)]

theorem requeued_completes_unwritten :
    ∃ file, (queue (fun _ => 0) greeting).run .empty (cutOff 0) = some file ∧
      file.status 1 = some .running ∧
      Completed ((file.requeue 1).poll (fun _ => 0) greeting .whole).toDatabase 1
        ["Hi", " there"] := by
  obtain ⟨file, hrun, hrequests, hrows⟩ : ∃ file,
      (queue (fun _ => 0) greeting).run .empty (cutOff 0) = some file ∧
        file.requests = [⟨1, "hello", 256, .running⟩] ∧ file.rows = [] := ⟨_, rfl, rfl, rfl⟩
  refine ⟨file, hrun, by simp [Database.status, hrequests], ?_⟩
  have hrow : (⟨1, "hello", 256, .running⟩ : RequestRow) ∈ file.requests := by simp [hrequests]
  have hselect : (selectPending (file.requeue 1).requests).map RequestRow.id = some 1 := by
    simp only [BrokerFile.requeue, Database.mark, hrequests]
    decide
  have hcompletes := (requeued_completes_iff (fun _ => 0) greeting hrun hrow rfl).1 []
    (file.requeue 1) rfl trivial hselect
  have hshort : (greeting (requestOf (fun _ => 0) file.toDatabase
      ⟨1, "hello", 256, .running⟩)).length < 2 ^ 31 :=
    show 2 < 2 ^ 31 by decide
  exact hcompletes.mpr ⟨by simp [tokensOf, hrows], hshort⟩

/-- One row was written before the crash: the request ends in an error, and the host has the
first fragment for its answer. -/
theorem requeued_not_completed :
    ∃ file, (queue (fun _ => 0) greeting).run .empty (cutOff 1) = some file ∧
      file.status 1 = some .running ∧
      ¬ Completed ((file.requeue 1).poll (fun _ => 0) greeting .whole).toDatabase 1
        ["Hi", " there"] ∧
      ((file.requeue 1).poll (fun _ => 0) greeting .whole).status 1 = some .error ∧
      tokensOf ((file.requeue 1).poll (fun _ => 0) greeting .whole).toDatabase 1 =
        [⟨1, 0, "Hi", 0⟩] := by
  refine ⟨_, rfl, rfl, ?_, rfl, rfl⟩
  rintro ⟨hdone, -⟩
  cases hdone

end NativeInterop.SqliteBroker
