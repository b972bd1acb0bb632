import NativeInterop.GgufDownloader
import Mathlib.Tactic

/-!
# Resuming a download

An honest server has one body: it sends all of it, or what stands behind the offset of a
`Range` header, or `416` where nothing does.  Against such a server the `.part` file is a
prefix of the body in every state of every run.

The next download finishes the file, except where there is nothing left to ask for: a `.part`
file that is complete already makes a server that honours `Range` refuse the request, and the
downloader takes the refusal for a failure.
-/

namespace NativeInterop

namespace GgufDownloader

/-- The answers of the server to a request that names `existing`. -/
def Honest (body : Bytes) (ignoresRange : Bool) (existing : ℕ) (response : Response) : Prop :=
  if existing = 0 ∨ ignoresRange = true then response.code = 200 ∧ response.body = some body
  else if existing < body.length then
    response.code = 206 ∧ response.body = some (body.drop existing)
  else response.code = 416

/-- The server may honour `Range` in one response and ignore it in the next. -/
def HonestStep (body : Bytes) (s : State) : Action → Prop
  | .respond response => ∀ existing, s.phase = .requesting existing →
      ∃ ignoresRange, Honest body ignoresRange existing response
  | _ => True

/-! ## The part file is a prefix -/

def Continues (body file : Bytes) (transfer : Transfer) : Prop :=
  if transfer.resumed then transfer.position = file.length ∧ file ++ transfer.rest = body
  else transfer.position = 0 ∧ transfer.rest = body

def PartHolds (body : Bytes) (part : Option Bytes) : Phase → Prop
  | .requesting existing => existing = (part.getD []).length ∧ part.getD [] <+: body
  | .opening transfer => part.getD [] <+: body ∧ Continues body (part.getD []) transfer
  | .opened transfer => ∃ file, part = some file ∧ file <+: body ∧ Continues body file transfer
  | .checking transfer => ∃ file, part = some file ∧ transfer.position = file.length ∧
      file ++ transfer.rest = body
  | .reading transfer => ∃ file, part = some file ∧ transfer.position = file.length ∧
      file ++ transfer.rest = body
  | .writing chunk transfer => chunk ≠ [] ∧ ∃ file, part = some file ∧
      transfer.position = file.length ∧ file ++ (chunk ++ transfer.rest) = body
  | .verifying => part = some body
  | .hashing => part = some body
  | .replacing => part = some body
  | .moving => part = some body
  | _ => part.getD [] <+: body

section Prefix

variable {config : Config} {body : Bytes} {s next : State}

theorem PartHolds.isPrefix {part : Option Bytes} {phase : Phase}
    (hholds : PartHolds body part phase) : part.getD [] <+: body := by
  cases phase with
  | requesting existing => exact hholds.2
  | opening transfer => exact hholds.1
  | opened transfer =>
      obtain ⟨file, rfl, hfront, -⟩ := hholds
      exact hfront
  | checking transfer =>
      obtain ⟨file, rfl, -, hbody⟩ := hholds
      exact ⟨_, hbody⟩
  | reading transfer =>
      obtain ⟨file, rfl, -, hbody⟩ := hholds
      exact ⟨_, hbody⟩
  | writing chunk transfer =>
      obtain ⟨-, file, rfl, -, hbody⟩ := hholds
      exact ⟨_, hbody⟩
  | verifying => exact hholds ▸ List.prefix_rfl
  | hashing => exact hholds ▸ List.prefix_rfl
  | replacing => exact hholds ▸ List.prefix_rfl
  | moving => exact hholds ▸ List.prefix_rfl
  | idle => exact hholds
  | started => exact hholds
  | rejecting message => exact hholds

theorem writeAt_length (file bytes : Bytes) : writeAt file file.length bytes = file ++ bytes := by
  simp [writeAt]

theorem continues_of_honest {file : Bytes} {ignoresRange : Bool} {response : Response}
    {rest : Bytes} (hfront : file <+: body)
    (hhonest : Honest body ignoresRange file.length response)
    (hcode : 200 ≤ response.code ∧ response.code < 300) (hrest : response.body = some rest)
    (total : ℤ) :
    Continues body file
      ⟨response.code = 206, startOffset file.length response, total, rest⟩ := by
  unfold startOffset
  unfold Honest at hhonest
  split_ifs at hhonest with hwhole hpartial
  · -- all of the body
    obtain ⟨hcode200, hbody⟩ := hhonest
    cases hrest.symm.trans hbody
    simp [Continues, hcode200]
  · obtain ⟨hcode206, hbody⟩ := hhonest
    cases hrest.symm.trans hbody
    obtain ⟨behind, rfl⟩ := hfront
    simp [Continues, hcode206]
  · omega

theorem partHolds_receive {existing : ℕ} {response : Response} {ignoresRange : Bool}
    (hholds : PartHolds body s.part (.requesting existing))
    (hhonest : Honest body ignoresRange existing response) :
    PartHolds body (receive config s existing response).part
      (receive config s existing response).phase := by
  obtain ⟨rfl, hfront⟩ := hholds
  unfold receive
  split_ifs with hcode
  · split
    · exact hfront
    · next rest hrest =>
        exact ⟨hfront, continues_of_honest hfront hhonest hcode hrest _⟩
  · exact hfront

theorem partHolds_truncate {transfer : Transfer}
    (hholds : PartHolds body s.part (.opened transfer)) :
    PartHolds body (truncate s transfer).part (.checking transfer) := by
  obtain ⟨file, hpart, -, hcontinues⟩ := hholds
  unfold Continues at hcontinues
  unfold truncate
  split_ifs at hcontinues with hresumed
  · exact ⟨file, by simp [hresumed, hpart], hcontinues.1, hcontinues.2⟩
  · exact ⟨[], by simp [hresumed], hcontinues.1, hcontinues.2⟩

theorem partHolds_read {transfer : Transfer} {n : ℕ} (hpos : 0 < n)
    (hrest : n ≤ transfer.rest.length) (hholds : PartHolds body s.part (.reading transfer)) :
    PartHolds body s.part
      (.writing (transfer.rest.take n) { transfer with rest := transfer.rest.drop n }) := by
  obtain ⟨file, hpart, hposition, hbody⟩ := hholds
  refine ⟨?_, file, hpart, hposition, ?_⟩
  · intro hempty
    have hlength := congrArg List.length hempty
    rw [List.length_take, List.length_nil] at hlength
    omega
  · rw [List.take_append_drop]
    exact hbody

theorem partHolds_write {chunk : Bytes} {transfer : Transfer} {n : ℕ} (hchunk : n ≤ chunk.length)
    (hholds : PartHolds body s.part (.writing chunk transfer)) :
    PartHolds body (write s n chunk transfer).part (write s n chunk transfer).phase := by
  obtain ⟨-, file, hpart, hposition, hbody⟩ := hholds
  have hwritten : s.part.map (fun file => writeAt file transfer.position (chunk.take n)) =
      some (file ++ chunk.take n) := by
    rw [hpart, Option.map_some, hposition, writeAt_length]
  have hend : transfer.position + n = (file ++ chunk.take n).length := by
    rw [List.length_append, List.length_take, min_eq_left hchunk, hposition]
  by_cases hmore : n < chunk.length
  · rw [write, if_pos hmore]
    refine ⟨List.drop_eq_nil_iff.not.mpr (not_le.mpr hmore), _, hwritten, hend, ?_⟩
    rw [← hbody, List.append_assoc, ← List.append_assoc (chunk.take n), List.take_append_drop]
  · rw [write, if_neg hmore]
    refine ⟨_, hwritten, hend, ?_⟩
    have hall : chunk.take n = chunk := List.take_of_length_le (not_lt.mp hmore)
    simp only
    rw [hall, List.append_assoc, hbody]

theorem partHolds_step {action : Action} (hholds : PartHolds body s.part s.phase)
    (hhonest : HonestStep body s action) (hstep : (machine config).step s action = some next) :
    PartHolds body next.part next.phase := by
  cases moves_of_step hstep with
  | cancel => exact hholds
  | kill => exact hholds.isPrefix
  | fault message state => exact hholds.isPrefix
  | download hphase => exact hholds.isPrefix
  | request hphase => exact ⟨rfl, hholds.isPrefix⟩
  | respond response hphase =>
      obtain ⟨ignoresRange, hresponse⟩ := hhonest _ hphase
      rw [hphase] at hholds
      exact partHolds_receive hholds hresponse
  | openPart hphase =>
      rw [hphase] at hholds
      exact ⟨_, rfl, hholds⟩
  | truncate hphase =>
      rw [hphase] at hholds
      exact partHolds_truncate hholds
  | check hphase =>
      rw [hphase] at hholds
      unfold check
      split_ifs
      · exact hholds.isPrefix
      · exact hholds
  | read hphase hpos hrest =>
      rw [hphase] at hholds
      exact partHolds_read hpos hrest hholds
  | eof hphase hrest =>
      rw [hphase] at hholds
      obtain ⟨file, hpart, -, hbody⟩ := hholds
      rw [hrest, List.append_nil] at hbody
      exact hbody ▸ hpart
  | write hphase hpos hchunk =>
      rw [hphase] at hholds
      exact partHolds_write hchunk hholds
  | verifyMagic hphase =>
      have hfront := hholds.isPrefix
      rw [hphase] at hholds
      unfold verifyMagic
      split_ifs
      · exact hholds
      · exact hholds
      · exact hfront
  | verifySha hphase =>
      have hfront := hholds.isPrefix
      rw [hphase] at hholds
      unfold verifySha
      split_ifs
      · exact hholds
      · exact hfront
  | deletePart deleted hphase =>
      cases deleted with
      | true => exact List.nil_prefix
      | false => exact hholds.isPrefix
  | deleteTarget deleted hphase =>
      rw [hphase] at hholds
      exact hholds
  | rename renamed hphase =>
      cases renamed with
      | true => exact List.nil_prefix
      | false => exact hholds.isPrefix

theorem partHolds_of_run {actions : List Action} {t : State}
    (hhonest : (machine config).RunMeets (HonestStep body) (construct none none) actions)
    (hrun : (machine config).run (construct none none) actions = some t) :
    PartHolds body t.part t.phase := by
  have hinit : PartHolds body (construct none none).part (construct none none).phase :=
    List.nil_prefix
  exact (machine config).run_invariant (I := fun s => PartHolds body s.part s.phase)
    (fun _ _ _ hholds hhonest hstep => partHolds_step hholds hhonest hstep) hinit hhonest hrun

end Prefix

/-! ## One further download -/

/-- The digest of the body is the expected one, where one is expected. -/
def accepts (config : Config) (body : Bytes) : Bool :=
  ¬ isNotBlank config.expectedSha256 ∨ shaMatches config body

/-- The steps of a call against an honest server in which nothing goes wrong. -/
def FaultFree (body : Bytes) (ignoresRange : Bool) (s : State) : Action → Prop
  | .respond response => ∀ existing, s.phase = .requesting existing →
      Honest body ignoresRange existing response
  | .deletePart deleted => deleted = true
  | .deleteTarget deleted => deleted = true
  | .rename renamed => renamed = true
  | .cancel => False
  | .kill => False
  | .fault _ => False
  | .download => False
  | _ => True

/-- A fault-free call goes on until it returns, cannot go on for ever, and has completed with
the body as its target when it returns. -/
def Completes (config : Config) (body : Bytes) (ignoresRange : Bool) (s : State) : Prop :=
  ∃ bound, ∀ actions t, (machine config).run (download s) actions = some t →
    (machine config).RunMeets (FaultFree body ignoresRange) (download s) actions →
      actions.length ≤ bound ∧
      (t.phase = .idle → t.state = .completed ∧ t.target = some body) ∧
      (t.phase ≠ .idle → ∃ action next, FaultFree body ignoresRange t action ∧
        (machine config).step t action = some next)

def Asks (body : Bytes) (ignoresRange : Bool) (existing : ℕ) : Prop :=
  ignoresRange = true ∨ existing < body.length

/-- What a fault-free call knows beyond the part file. -/
def CallHolds (config : Config) (body : Bytes) (ignoresRange : Bool) (s : State) : Phase → Prop
  | .started => Asks body ignoresRange (s.part.getD []).length
  | .requesting existing => Asks body ignoresRange existing
  | .hashing => isNotBlank config.expectedSha256 = true
  | .rejecting _ => accepts config body = false
  | .replacing => accepts config body = true
  | .moving => accepts config body = true
  | .idle => (s.state = .completed ∧ s.target = some body ↔ accepts config body = true)
  | _ => True

structure CallInv (config : Config) (body : Bytes) (ignoresRange : Bool) (s : State) : Prop where
  uncancelled : s.cancelRequested = false
  part : PartHolds body s.part s.phase
  call : CallHolds config body ignoresRange s s.phase

def rank (body : Bytes) : Phase → ℕ
  | .idle => 0
  | .rejecting _ => 1
  | .moving => 1
  | .replacing => 2
  | .hashing => 3
  | .verifying => 4
  | .reading transfer => 5 + 3 * transfer.rest.length
  | .checking transfer => 6 + 3 * transfer.rest.length
  | .writing chunk transfer => 5 + 2 * chunk.length + 3 * transfer.rest.length
  | .opened transfer => 7 + 3 * transfer.rest.length
  | .opening transfer => 8 + 3 * transfer.rest.length
  | .requesting _ => 9 + 3 * body.length
  | .started => 10 + 3 * body.length

section Call

variable {config : Config} {body : Bytes} {ignoresRange : Bool} {s next : State}

theorem honestStep_of_faultFree {action : Action}
    (hfree : FaultFree body ignoresRange s action) : HonestStep body s action := by
  cases action with
  | respond response => exact fun existing hphase => ⟨ignoresRange, hfree existing hphase⟩
  | _ => trivial

/-- An honest server that has something to send sends it. -/
theorem honest_success {existing : ℕ} {response : Response}
    (hasks : Asks body ignoresRange existing)
    (hhonest : Honest body ignoresRange existing response) :
    (200 ≤ response.code ∧ response.code < 300) ∧
      ∃ rest, response.body = some rest ∧ rest.length ≤ body.length := by
  unfold Honest at hhonest
  split_ifs at hhonest with hwhole hpartial
  · exact ⟨by omega, body, hhonest.2, le_rfl⟩
  · exact ⟨by omega, body.drop existing, hhonest.2, by simp⟩
  · rcases hasks with hignores | hlt
    · exact absurd (.inr hignores) hwhole
    · exact absurd hlt hpartial

/-- The three facts about a step: what is left is less, and the call invariant holds on. -/
def Advances (config : Config) (body : Bytes) (ignoresRange : Bool) (s next : State) : Prop :=
  next.cancelRequested = false ∧ CallHolds config body ignoresRange next next.phase ∧
    rank body next.phase < rank body s.phase

theorem advances_receive {existing : ℕ} {response : Response} (hinv : CallInv config body
      ignoresRange s) (hphase : s.phase = .requesting existing)
    (hhonest : Honest body ignoresRange existing response) :
    Advances config body ignoresRange s (receive config s existing response) := by
  have hcall := hinv.call
  rw [hphase] at hcall
  obtain ⟨hcode, rest, hrest, hlength⟩ := honest_success hcall hhonest
  rw [receive, if_neg (not_not.mpr hcode), hrest]
  refine ⟨hinv.uncancelled, trivial, ?_⟩
  simp only [hphase, rank]
  omega

theorem advances_verifyMagic (hmagic : hasGgufMagic body = true)
    (hinv : CallInv config body ignoresRange s) (hphase : s.phase = .verifying) :
    Advances config body ignoresRange s (verifyMagic config s) := by
  have hpart := hinv.part
  rw [hphase] at hpart
  have hfile : s.part.getD [] = body := by rw [hpart, Option.getD_some]
  rw [verifyMagic, hfile, if_pos hmagic]
  refine ⟨hinv.uncancelled, ?_, ?_⟩
  · split_ifs with hblank
    · exact hblank
    · simp [CallHolds, accepts, hblank]
  · simp only [hphase]
    split_ifs <;> simp [rank]

theorem advances_verifySha (hinv : CallInv config body ignoresRange s)
    (hphase : s.phase = .hashing) :
    Advances config body ignoresRange s (verifySha config s) := by
  have hpart := hinv.part
  have hset := hinv.call
  rw [hphase] at hpart hset
  have hfile : s.part.getD [] = body := by rw [hpart, Option.getD_some]
  rw [verifySha, hfile]
  split_ifs with hsha
  · refine ⟨hinv.uncancelled, ?_, ?_⟩
    · simp [CallHolds, accepts, hsha]
    · simp [hphase, rank]
  · refine ⟨hinv.uncancelled, ?_, ?_⟩
    · have hnotBlank : isNotBlank config.expectedSha256 = true := hset
      simp [CallHolds, accepts, hsha, hnotBlank]
    · simp [hphase, rank]

theorem advances_write {chunk : Bytes} {transfer : Transfer} {n : ℕ}
    (hinv : CallInv config body ignoresRange s) (hphase : s.phase = .writing chunk transfer)
    (hpos : 0 < n) : Advances config body ignoresRange s (write s n chunk transfer) := by
  by_cases hmore : n < chunk.length
  · rw [write, if_pos hmore]
    refine ⟨hinv.uncancelled, trivial, ?_⟩
    simp only [hphase, rank, List.length_drop]
    omega
  · rw [write, if_neg hmore]
    refine ⟨hinv.uncancelled, trivial, ?_⟩
    have hpart := hinv.part
    rw [hphase] at hpart
    have hchunk : 0 < chunk.length := List.length_pos_iff.mpr hpart.1
    simp only [hphase, rank]
    omega

theorem advances_of_step (hmagic : hasGgufMagic body = true) {action : Action}
    (hinv : CallInv config body ignoresRange s) (hfree : FaultFree body ignoresRange s action)
    (hstep : (machine config).step s action = some next) :
    Advances config body ignoresRange s next := by
  have hcall := hinv.call
  cases moves_of_step hstep with
  | cancel => cases hfree
  | kill => cases hfree
  | fault message state => cases hfree
  | download hphase => cases hfree
  | request hphase =>
      rw [hphase] at hcall
      exact ⟨hinv.uncancelled, hcall, by simp [request, hphase, rank]⟩
  | respond response hphase => exact advances_receive hinv hphase (hfree _ hphase)
  | openPart hphase => exact ⟨hinv.uncancelled, trivial, by simp [openPart, hphase, rank]⟩
  | truncate hphase => exact ⟨hinv.uncancelled, trivial, by simp [truncate, hphase, rank]⟩
  | check hphase =>
      have hnot : ¬ s.cancelRequested = true := by simp [hinv.uncancelled]
      rw [check, if_neg hnot]
      exact ⟨hinv.uncancelled, trivial, by simp [hphase, rank]⟩
  | read hphase hpos hrest =>
      refine ⟨hinv.uncancelled, trivial, ?_⟩
      simp only [read, hphase, rank, List.length_take, List.length_drop]
      omega
  | eof hphase hrest => exact ⟨hinv.uncancelled, trivial, by simp [hphase, hrest, rank]⟩
  | write hphase hpos hchunk => exact advances_write hinv hphase hpos
  | verifyMagic hphase => exact advances_verifyMagic hmagic hinv hphase
  | verifySha hphase => exact advances_verifySha hinv hphase
  | deletePart deleted hphase =>
      rw [hphase] at hcall
      have hrejects : accepts config body = false := hcall
      refine ⟨hinv.uncancelled, ?_, by simp [deletePart, finish, hphase, rank]⟩
      simp [CallHolds, deletePart, finish, hrejects]
  | deleteTarget deleted hphase =>
      rw [hphase] at hcall
      exact ⟨hinv.uncancelled, hcall, by simp [deleteTarget, hphase, rank]⟩
  | rename renamed hphase =>
      have hpart := hinv.part
      rw [hphase] at hcall hpart
      have hrenamed : renamed = true := hfree
      have hbody : s.part = some body := hpart
      have haccepts : accepts config body = true := hcall
      subst hrenamed
      refine ⟨hinv.uncancelled, ?_, by simp [rename, finish, hphase, rank]⟩
      simp [CallHolds, rename, finish, hbody, haccepts]

theorem callInv_step (hmagic : hasGgufMagic body = true) {action : Action}
    (hinv : CallInv config body ignoresRange s) (hfree : FaultFree body ignoresRange s action)
    (hstep : (machine config).step s action = some next) :
    CallInv config body ignoresRange next ∧ rank body next.phase < rank body s.phase := by
  obtain ⟨huncancelled, hcall, hrank⟩ := advances_of_step hmagic hinv hfree hstep
  exact ⟨⟨huncancelled, partHolds_step hinv.part (honestStep_of_faultFree hfree) hstep, hcall⟩,
    hrank⟩

/-- What the server answers, without any headers. -/
def answer (body : Bytes) (ignoresRange : Bool) (existing : ℕ) : Response :=
  if existing = 0 ∨ ignoresRange = true then { code := 200, body := some body }
  else if existing < body.length then { code := 206, body := some (body.drop existing) }
  else { code := 416, body := some [] }

theorem honest_answer (body : Bytes) (ignoresRange : Bool) (existing : ℕ) :
    Honest body ignoresRange existing (answer body ignoresRange existing) := by
  unfold Honest answer
  split_ifs <;> simp

theorem exists_faultFree (hinv : CallInv config body ignoresRange s) (hbusy : s.phase ≠ .idle) :
    ∃ action next, FaultFree body ignoresRange s action ∧
      (machine config).step s action = some next := by
  have hpart := hinv.part
  cases hphase : s.phase with
  | idle => exact absurd hphase hbusy
  | started => exact ⟨.request, request s, trivial, by simp only [machine, step, hphase]⟩
  | requesting existing =>
      refine ⟨.respond (answer body ignoresRange existing),
        receive config s existing (answer body ignoresRange existing), ?_,
        by simp only [machine, step, hphase]⟩
      intro other hother
      cases hphase.symm.trans hother
      exact honest_answer body ignoresRange existing
  | opening transfer =>
      exact ⟨.openPart, openPart s transfer, trivial, by simp only [machine, step, hphase]⟩
  | opened transfer =>
      exact ⟨.truncate, truncate s transfer, trivial, by simp only [machine, step, hphase]⟩
  | checking transfer =>
      exact ⟨.check, check s transfer, trivial, by simp only [machine, step, hphase]⟩
  | reading transfer =>
      by_cases hrest : transfer.rest = []
      · exact ⟨.eof, _, trivial, by simp only [machine, step, hphase]; exact if_pos hrest⟩
      · have hone : 0 < 1 ∧ 1 ≤ config.bufferSize ∧ 1 ≤ transfer.rest.length :=
          ⟨one_pos, config.bufferSize_pos, List.length_pos_iff.mpr hrest⟩
        refine ⟨.read 1, read s 1 transfer, trivial, ?_⟩
        simp only [machine, step, hphase]
        exact if_pos hone
  | writing chunk transfer =>
      rw [hphase] at hpart
      refine ⟨.write 1, write s 1 chunk transfer, trivial, ?_⟩
      simp only [machine, step, hphase]
      exact if_pos ⟨one_pos, List.length_pos_iff.mpr hpart.1⟩
  | verifying =>
      exact ⟨.verifyMagic, verifyMagic config s, trivial, by simp only [machine, step, hphase]⟩
  | hashing =>
      exact ⟨.verifySha, verifySha config s, trivial, by simp only [machine, step, hphase]⟩
  | rejecting message =>
      exact ⟨.deletePart true, deletePart s true message, rfl,
        by simp only [machine, step, hphase]⟩
  | replacing =>
      exact ⟨.deleteTarget true, deleteTarget s true, rfl, by simp only [machine, step, hphase]⟩
  | moving => exact ⟨.rename true, rename s true, rfl, by simp only [machine, step, hphase]⟩

theorem callInv_download (hpart : s.part.getD [] <+: body)
    (hasks : Asks body ignoresRange (s.part.getD []).length) :
    CallInv config body ignoresRange (download s) :=
  ⟨rfl, hpart, hasks⟩

theorem completes_of_asks (hmagic : hasGgufMagic body = true) (hpart : s.part.getD [] <+: body)
    (hasks : Asks body ignoresRange (s.part.getD []).length)
    (haccepts : accepts config body = true) : Completes config body ignoresRange s := by
  have hinit : CallInv config body ignoresRange (download s) := callInv_download hpart hasks
  refine ⟨rank body (download s).phase, fun actions t hrun hmeets => ?_⟩
  have hlength := (machine config).length_le_of_rank (fun s => rank body s.phase)
    (fun _ _ _ hinv hfree hstep => callInv_step hmagic hinv hfree hstep) hinit hmeets hrun
  have hinv := (machine config).run_invariant
    (fun _ _ _ hinv hfree hstep => (callInv_step hmagic hinv hfree hstep).1) hinit hmeets hrun
  refine ⟨by omega, ?_, exists_faultFree hinv⟩
  intro hidle
  have hcall := hinv.call
  rw [hidle] at hcall
  exact hcall.mpr haccepts

theorem exists_faultFree_run (hmagic : hasGgufMagic body = true)
    (hinit : CallInv config body ignoresRange s) :
    ∃ actions t, (machine config).run s actions = some t ∧
      (machine config).RunMeets (FaultFree body ignoresRange) s actions ∧
      CallInv config body ignoresRange t ∧ t.phase = .idle := by
  refine (machine config).exists_run_meets (fun s => rank body s.phase) ?_ hinit
  intro u hinv hbusy
  obtain ⟨action, next, hfree, hstep⟩ := exists_faultFree hinv hbusy
  obtain ⟨hnext, hrank⟩ := callInv_step hmagic hinv hfree hstep
  exact ⟨action, next, hfree, hstep, hnext, hrank⟩

/-- Where nothing is left to send, the server refuses and the call fails. -/
theorem not_completes_of_refused (hrange : ignoresRange = false) (hbody : body ≠ [])
    (hpart : s.part = some body) : ¬ Completes config body ignoresRange s := by
  rintro ⟨bound, hcompletes⟩
  have hpos := List.length_pos_iff.mpr hbody
  have hrun : (machine config).run (download s)
      [.request, .respond { code := 416, body := some [] }] =
        some (finish (request (download s)) (.failed "download failed: HTTP 416")) := by
    simp [Machine.run, machine, step, download, request, receive, throwIOException]
    rfl
  have hmeets : (machine config).RunMeets (FaultFree body ignoresRange) (download s)
      [.request, .respond { code := 416, body := some [] }] := by
    refine ⟨trivial, fun next hnext => ⟨?_, fun _ _ => trivial⟩⟩
    have hrequest : request (download s) = next := by
      simpa [machine, step, download] using hnext
    subst hrequest
    intro existing hexisting
    have hlength : existing = body.length := by
      simpa [request, download, hpart] using hexisting.symm
    simp [Honest, hlength, hrange, List.ne_nil_iff_length_pos.mp hbody |>.ne']
  obtain ⟨-, hidle, -⟩ := hcompletes _ _ hrun hmeets
  cases (hidle rfl).1

theorem asks_iff (hbody : body ≠ []) (hpart : s.part.getD [] <+: body) :
    Asks body ignoresRange (s.part.getD []).length ↔
      ignoresRange = true ∨ s.part ≠ some body := by
  refine or_congr_right ⟨?_, ?_⟩
  · intro hlt hsame
    rw [hsame, Option.getD_some] at hlt
    exact lt_irrefl _ hlt
  · intro hne
    refine lt_of_le_of_ne hpart.length_le fun hlength => hne ?_
    have hfull := hpart.eq_of_length hlength
    cases hfile : s.part with
    | none =>
        rw [hfile, Option.getD_none] at hfull
        exact absurd hfull.symm hbody
    | some file =>
        rw [hfile, Option.getD_some] at hfull
        rw [hfull]

theorem completes_iff (hmagic : hasGgufMagic body = true) (hpart : s.part.getD [] <+: body) :
    Completes config body ignoresRange s ↔
      (ignoresRange = true ∨ s.part ≠ some body) ∧ accepts config body = true := by
  have hbody : body ≠ [] := by
    rintro rfl
    cases hmagic
  rw [← asks_iff hbody hpart]
  constructor
  · intro hcompletes
    have hasks : Asks body ignoresRange (s.part.getD []).length := by
      rw [asks_iff hbody hpart, or_iff_not_imp_left]
      intro hrange hfull
      exact not_completes_of_refused (Bool.not_eq_true _ ▸ hrange) hbody hfull hcompletes
    have hinit : CallInv config body ignoresRange (download s) := callInv_download hpart hasks
    obtain ⟨actions, t, hrun, hmeets, hinv, hidle⟩ := exists_faultFree_run hmagic hinit
    obtain ⟨bound, hends⟩ := hcompletes
    have hcall := hinv.call
    rw [hidle] at hcall
    exact ⟨hasks, hcall.mp ((hends actions t hrun hmeets).2.1 hidle)⟩
  · rintro ⟨hasks, haccepts⟩
    exact completes_of_asks hmagic hpart hasks haccepts

end Call

/-- Against an honest server the part file is always a prefix of the body, and between two
calls the next one completes unless the server has nothing left to send. -/
theorem resumable_iff (config : Config) {body : Bytes} (hmagic : hasGgufMagic body = true)
    {actions : List Action} {t : State}
    (hrun : (machine config).run (construct none none) actions = some t)
    (hhonest : (machine config).RunMeets (HonestStep body) (construct none none) actions) :
    t.part.getD [] <+: body ∧
      (t.phase = .idle → ∀ ignoresRange, Completes config body ignoresRange t ↔
        (ignoresRange = true ∨ t.part ≠ some body) ∧ accepts config body = true) := by
  have hfront := (partHolds_of_run hhonest hrun).isPrefix
  exact ⟨hfront, fun _ ignoresRange => completes_iff hmagic hfront⟩

/-- A server that always sends all of the body is honest. -/
theorem honest_of_whole {config : Config} {body : Bytes} {actions : List Action}
    (hwhole : ∀ response, .respond response ∈ actions →
      response.code = 200 ∧ response.body = some body) (s : State) :
    (machine config).RunMeets (HonestStep body) s actions := by
  induction actions generalizing s with
  | nil => trivial
  | cons action actions ih =>
      refine ⟨?_, fun next _ => ih (fun response hmem => hwhole response (.tail action hmem)) next⟩
      cases action with
      | respond response =>
          intro existing _
          exact ⟨true, by simpa [Honest] using hwhole response (.head actions)⟩
      | _ => trivial

/-- The process is killed behind the second byte. -/
def killed : List Action :=
  [.download, .request, .respond { code := 200, body := some magicBytes }, .openPart, .truncate,
    .check, .read 4, .write 2, .kill]

theorem resumable_killed :
    ∃ t, (machine magicConfig).run (construct none none) killed = some t ∧
      t.part = some [0x47, 0x47] ∧ Completes magicConfig magicBytes false t := by
  have hhonest : (machine magicConfig).RunMeets (HonestStep magicBytes) (construct none none)
      killed := honest_of_whole (by simp [killed]) _
  obtain ⟨-, hcompletes⟩ := resumable_iff magicConfig (by decide) rfl hhonest
  exact ⟨_, rfl, rfl, (hcompletes rfl false).mpr ⟨.inr (by decide), by decide +kernel⟩⟩

/-- The rename fails behind all checks. -/
def renameFails : List Action :=
  [.download, .request, .respond { code := 200, body := some magicBytes }, .openPart, .truncate,
    .check, .read 4, .write 4, .check, .eof, .verifyMagic, .verifySha, .deleteTarget true,
    .rename false]

/-- The complete part file is never installed: the server has nothing behind it. -/
theorem not_resumable_renameFails :
    ∃ t, (machine magicConfig).run (construct none none) renameFails = some t ∧
      (machine magicConfig).RunMeets (HonestStep magicBytes) (construct none none) renameFails ∧
      t.phase = .idle ∧ t.part = some magicBytes ∧
      ¬ Completes magicConfig magicBytes false t := by
  have hhonest : (machine magicConfig).RunMeets (HonestStep magicBytes) (construct none none)
      renameFails := honest_of_whole (by simp [renameFails]) _
  have hresult : ((machine magicConfig).run (construct none none) renameFails).map
      (fun t => (t.phase, t.part)) = some (.idle, some magicBytes) := by
    decide +kernel
  obtain ⟨t, hrun, hpair⟩ := Option.map_eq_some_iff.mp hresult
  obtain ⟨hphase, hpart⟩ := Prod.mk.inj hpair
  exact ⟨t, hrun, hhonest, hphase, hpart, not_completes_of_refused rfl nofun hpart⟩

end GgufDownloader

end NativeInterop
