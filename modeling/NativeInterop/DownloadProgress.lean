import NativeInterop.GgufDownloader
import Mathlib.Tactic

/-!
# The progress of a download

The progress bar shows the quotient of two 64-bit numbers, narrowed to an `Int`.  The total
comes from the headers of the response: from `Content-Range`, from `Content-Length`, or from
`Content-Length` behind what is there, where `-1` stands for a length that is not known.
Nothing compares it with the bytes that arrive.

The percentage is in range as long as the total, where it is known, covers what the response
brings; else the response has a run that shows more.
-/

namespace NativeInterop

namespace GgufDownloader

/-- The value of an `Int` whose bits are the low ones of the number. -/
def toInt (n : ℤ) : ℤ := n.bmod (2 ^ 32)

/-- `Downloading.percent`. -/
def percent (bytesDownloaded totalBytes : ℤ) : ℤ :=
  if 0 < totalBytes then toInt ((toLong (bytesDownloaded * 100)).tdiv totalBytes) else 0

def InRange (state : DownloadState) : Prop :=
  ∀ bytesDownloaded totalBytes, state = .downloading bytesDownloaded totalBytes →
    0 ≤ percent bytesDownloaded totalBytes ∧ percent bytesDownloaded totalBytes ≤ 100

/-- The transfer of a phase, with how many bytes of the buffer are still to be written. -/
def transferOf : Phase → Option (ℕ × Transfer)
  | .opening transfer => some (0, transfer)
  | .opened transfer => some (0, transfer)
  | .checking transfer => some (0, transfer)
  | .reading transfer => some (0, transfer)
  | .writing chunk transfer => some (chunk.length, transfer)
  | _ => none

/-- A hundred times the bytes are a `Long`, and a total that is known is passed by less than
the percent that the division drops. -/
structure Covers (bytes : ℕ) (total : ℤ) : Prop where
  long : 100 * (bytes : ℤ) < 2 ^ 63
  covered : total ≤ 0 ∨ 100 * (bytes : ℤ) < 101 * total

/-- The transfer that an accepted response begins. -/
def begin (config : Config) (existing : ℕ) (response : Response) (body : Bytes) : Transfer where
  resumed := response.code = 206
  position := startOffset existing response
  total := totalOf config existing response
  rest := body

/-- A response with a body has a total that covers all it brings. -/
def CoveredStep (config : Config) (s : State) : Action → Prop
  | .respond response => ∀ existing body, s.phase = .requesting existing →
      200 ≤ response.code → response.code < 300 → response.body = some body →
      Covers (startOffset existing response + body.length) (totalOf config existing response)
  | _ => True

/-- In front of the response. -/
def isAsking : Phase → Bool
  | .started => true
  | .requesting _ => true
  | _ => false

/-! ## The quotient -/

theorem toLong_eq {n : ℤ} (hle : 0 ≤ n) (hlt : n < 2 ^ 63) : toLong n = n :=
  Int.bmod_eq_of_le (by omega) (by omega)

theorem toInt_eq {n : ℤ} (hle : 0 ≤ n) (hlt : n < 2 ^ 31) : toInt n = n :=
  Int.bmod_eq_of_le (by omega) (by omega)

/-- Where nothing is cut off the percentage is the quotient. -/
theorem percent_eq {bytes total : ℤ} (hbytes : 0 ≤ bytes) (hlong : 100 * bytes < 2 ^ 63)
    (htotal : 0 < total) (hint : 100 * bytes < 2 ^ 31 * total) :
    percent bytes total = 100 * bytes / total := by
  have hproduct : bytes * 100 = 100 * bytes := mul_comm bytes 100
  have hquotient : 100 * bytes / total < 2 ^ 31 := Int.ediv_lt_of_lt_mul htotal hint
  have hnonneg : 0 ≤ 100 * bytes / total := Int.ediv_nonneg (by omega) htotal.le
  rw [percent, if_pos htotal, hproduct, toLong_eq (by omega) hlong,
    Int.tdiv_eq_ediv_of_nonneg (by omega), toInt_eq hnonneg hquotient]

theorem percent_of_not_pos {bytes total : ℤ} (htotal : total ≤ 0) : percent bytes total = 0 :=
  if_neg (not_lt.mpr htotal)

theorem percent_le_iff {bytes total : ℤ} (hbytes : 0 ≤ bytes) (hlong : 100 * bytes < 2 ^ 63)
    (htotal : 0 < total) (hint : 100 * bytes < 2 ^ 31 * total) :
    (0 ≤ percent bytes total ∧ percent bytes total ≤ 100) ↔ 100 * bytes < 101 * total := by
  have hnonneg : 0 ≤ 100 * bytes / total := Int.ediv_nonneg (by omega) htotal.le
  rw [percent_eq hbytes hlong htotal hint, and_iff_right hnonneg, ← Int.lt_add_one_iff]
  exact Int.ediv_lt_iff_lt_mul htotal

theorem percent_inRange {bytes total : ℤ} (hbytes : 0 ≤ bytes) (hlong : 100 * bytes < 2 ^ 63)
    (hcovers : total ≤ 0 ∨ 100 * bytes < 101 * total) :
    0 ≤ percent bytes total ∧ percent bytes total ≤ 100 := by
  rcases le_or_gt total 0 with htotal | htotal
  · simp [percent_of_not_pos htotal]
  · have hlt : 100 * bytes < 101 * total := hcovers.resolve_left (not_le.mpr htotal)
    exact (percent_le_iff hbytes hlong htotal (by omega)).mpr hlt

/-- Headers that agree with the body cover it. -/
theorem covers_of_length {config : Config} {existing : ℕ} {response : Response} {body : Bytes}
    (hlength : response.contentLength = body.length)
    (hrange : ∀ total, parseContentRangeTotal config response.contentRange = some total →
      (existing + body.length : ℕ) ≤ total)
    (hlong : 100 * ((startOffset existing response + body.length : ℕ) : ℤ) < 2 ^ 63) :
    Covers (startOffset existing response + body.length) (totalOf config existing response) := by
  have htotal : ((startOffset existing response + body.length : ℕ) : ℤ) ≤
      totalOf config existing response := by
    unfold startOffset totalOf at *
    split_ifs at * with hcode
    · cases hparsed : parseContentRangeTotal config response.contentRange with
      | some total => exact hrange total hparsed
      | none =>
          have hsum : (existing : ℤ) + response.contentLength =
              ((existing + body.length : ℕ) : ℤ) := by
            rw [hlength, Nat.cast_add]
          rw [Option.getD_none, hsum, toLong_eq (by omega) (by omega)]
    · rw [hlength, Nat.zero_add]
  exact ⟨hlong, by omega⟩

/-! ## One step -/

structure Progresses (s : State) : Prop where
  inRange : InRange s.state
  transfer : ∀ pending transfer, transferOf s.phase = some (pending, transfer) →
    Covers (transfer.position + pending + transfer.rest.length) transfer.total ∧
      ∃ bytes total, s.state = .downloading bytes total ∧ bytes ≤ transfer.position

def isDownloading : DownloadState → Bool
  | .downloading _ _ => true
  | _ => false

theorem inRange_of_not_downloading {state : DownloadState} (hstate : isDownloading state = false) :
    InRange state := by
  rintro bytes total rfl
  cases hstate

section Step

variable {config : Config} {s next : State}

/-- Outside of the transfers only the state has to be looked at. -/
theorem Progresses.outside (hinv : Progresses s)
    (hstate : next.state = s.state ∨ isDownloading next.state = false)
    (hphase : transferOf next.phase = none) : Progresses next where
  inRange := by
    rcases hstate with hsame | hother
    · rw [hsame]
      exact hinv.inRange
    · exact inRange_of_not_downloading hother
  transfer := by
    rw [hphase]
    exact nofun

/-- A transfer goes on without a word about it. -/
theorem Progresses.silent (hinv : Progresses s) {pending pending' : ℕ}
    {transfer transfer' : Transfer} (hphase : transferOf s.phase = some (pending, transfer))
    (hphase' : transferOf next.phase = some (pending', transfer'))
    (hstate : next.state = s.state) (htotal : transfer'.total = transfer.total)
    (hposition : transfer.position ≤ transfer'.position)
    (hsum : transfer'.position + pending' + transfer'.rest.length =
      transfer.position + pending + transfer.rest.length) : Progresses next where
  inRange := by
    rw [hstate]
    exact hinv.inRange
  transfer := by
    intro pending'' transfer'' hsome
    cases hphase'.symm.trans hsome
    obtain ⟨hcovers, bytes, total, hbytes, hle⟩ := hinv.transfer pending transfer hphase
    rw [hsum, htotal, hstate]
    exact ⟨hcovers, bytes, total, hbytes, by omega⟩

theorem fault_not_downloading {message : String} (hfault : fault s message = some next) :
    isDownloading next.state = false ∧ next.phase = .idle := by
  have hthrow : isDownloading (throwIOException s message).state = false ∧
      (throwIOException s message).phase = .idle := by
    rw [throwIOException]
    split_ifs <;> exact ⟨rfl, rfl⟩
  unfold fault at hfault
  split at hfault
  all_goals first
    | (cases hfault; exact hthrow)
    | (cases hfault; exact ⟨rfl, rfl⟩)
    | cases hfault

/-- The checks say nothing before they fail. -/
theorem verifyMagic_silent (config : Config) (s : State) :
    (verifyMagic config s).state = s.state ∧ transferOf (verifyMagic config s).phase = none ∧
      isAsking (verifyMagic config s).phase = false := by
  unfold verifyMagic
  split_ifs
  · exact ⟨rfl, rfl, rfl⟩
  · exact ⟨rfl, rfl, rfl⟩
  · exact ⟨rfl, rfl, rfl⟩

theorem verifySha_silent (config : Config) (s : State) :
    (verifySha config s).state = s.state ∧ transferOf (verifySha config s).phase = none ∧
      isAsking (verifySha config s).phase = false := by
  unfold verifySha
  split_ifs
  · exact ⟨rfl, rfl, rfl⟩
  · exact ⟨rfl, rfl, rfl⟩

theorem rename_ends (s : State) (renamed : Bool) :
    isDownloading (rename s renamed).state = false ∧ (rename s renamed).phase = .idle := by
  unfold rename
  split_ifs
  · exact ⟨rfl, rfl⟩
  · exact ⟨rfl, rfl⟩

theorem Covers.mono {few many : ℕ} {total : ℤ} (hcovers : Covers many total) (hle : few ≤ many) :
    Covers few total := by
  have hhundred : 100 * (few : ℤ) ≤ 100 * (many : ℤ) := by omega
  exact ⟨hhundred.trans_lt hcovers.long, hcovers.covered.imp_right hhundred.trans_lt⟩

theorem toLong_of_covers {bytes : ℕ} {total : ℤ} (hcovers : Covers bytes total) :
    toLong bytes = bytes := by
  have hlong := hcovers.long
  exact toLong_eq (by omega) (by omega)

theorem inRange_of_covers {bytes : ℕ} {total : ℤ} (hcovers : Covers bytes total) :
    InRange (.downloading (toLong bytes) total) := by
  intro bytes' total' heq
  obtain ⟨rfl, rfl⟩ := DownloadState.downloading.inj heq
  rw [toLong_of_covers hcovers]
  exact percent_inRange (by omega) hcovers.long hcovers.covered

/-- In front of the response there is no total. -/
theorem inRange_requested {bytes : ℤ} : InRange (.downloading bytes 0) := by
  intro bytes' total' heq
  cases heq
  simp [percent_of_not_pos le_rfl]

/-- Without a total the bytes themselves are the total. -/
theorem inRange_written {bytes : ℕ} {total : ℤ} (hcovers : Covers bytes total) :
    InRange (.downloading (toLong bytes) (if total > 0 then total else toLong bytes)) := by
  split_ifs with htotal
  · exact inRange_of_covers hcovers
  · have hself : Covers bytes bytes := ⟨hcovers.long, by omega⟩
    rw [toLong_of_covers hcovers]
    have hinRange := inRange_of_covers hself
    rwa [toLong_of_covers hself] at hinRange

theorem receive_accepted {existing : ℕ} {response : Response} {body : Bytes}
    (hcode : 200 ≤ response.code ∧ response.code < 300) (hbody : response.body = some body) :
    receive config s existing response =
      { s with
        state := .downloading (toLong (startOffset existing response))
          (totalOf config existing response)
        phase := .opening (begin config existing response body) } := by
  rw [receive, if_neg (not_not.mpr hcode), hbody]
  rfl

theorem progresses_accepted {existing : ℕ} {response : Response} {body : Bytes}
    (hcode : 200 ≤ response.code ∧ response.code < 300) (hbody : response.body = some body)
    (hcovers : Covers (startOffset existing response + body.length)
      (totalOf config existing response)) :
    Progresses (receive config s existing response) := by
  have hstart := hcovers.mono (Nat.le_add_right _ body.length)
  rw [receive_accepted hcode hbody]
  constructor
  · exact inRange_of_covers hstart
  · intro pending transfer hsome
    cases hsome
    exact ⟨hcovers, _, _, rfl, (toLong_of_covers hstart).le⟩

theorem Progresses.receive (hinv : Progresses s) {existing : ℕ} {response : Response}
    (hphase : s.phase = .requesting existing)
    (hcovered : CoveredStep config s (.respond response)) :
    Progresses (receive config s existing response) := by
  have hthrow : ∀ message, Progresses (throwIOException s message) := by
    intro message
    rw [throwIOException]
    split_ifs
    · exact hinv.outside (.inr rfl) rfl
    · exact hinv.outside (.inr rfl) rfl
  by_cases hcode : 200 ≤ response.code ∧ response.code < 300
  · cases hbody : response.body with
    | none =>
        rw [GgufDownloader.receive, if_neg (not_not.mpr hcode), hbody]
        exact hthrow _
    | some body =>
        exact progresses_accepted hcode hbody
          (hcovered existing body hphase hcode.1 hcode.2 hbody)
  · rw [GgufDownloader.receive, if_pos hcode]
    exact hthrow _

theorem Progresses.write (hinv : Progresses s) {n : ℕ} {chunk : Bytes} {transfer : Transfer}
    (hphase : s.phase = .writing chunk transfer) (hchunk : n ≤ chunk.length) :
    Progresses (write s n chunk transfer) := by
  have htransfer : transferOf s.phase = some (chunk.length, transfer) := congrArg transferOf hphase
  by_cases hmore : n < chunk.length
  · have hrest : transfer.position + n + (chunk.drop n).length + transfer.rest.length =
        transfer.position + chunk.length + transfer.rest.length := by
      rw [List.length_drop]
      omega
    rw [GgufDownloader.write, if_pos hmore]
    exact hinv.silent htransfer rfl rfl rfl (Nat.le_add_right _ n) hrest
  · have hall : n = chunk.length := by omega
    obtain ⟨hcovers, -⟩ := hinv.transfer _ _ htransfer
    have hhere : Covers (transfer.position + n) transfer.total := hcovers.mono (by omega)
    rw [GgufDownloader.write, if_neg hmore]
    constructor
    · exact inRange_written hhere
    · intro pending transfer' hsome
      cases hsome
      refine ⟨?_, _, _, rfl, ?_⟩
      · simpa [hall] using hcovers
      · exact (toLong_of_covers hhere).le

theorem Progresses.step {action : Action} (hinv : Progresses s)
    (hcovered : CoveredStep config s action)
    (hstep : (machine config).step s action = some next) : Progresses next := by
  cases moves_of_step hstep with
  | cancel => exact ⟨hinv.inRange, hinv.transfer⟩
  | kill =>
      refine hinv.outside (.inr ?_) rfl
      simp only [kill, construct]
      split_ifs <;> rfl
  | fault message state =>
      obtain ⟨hstate, -⟩ := fault_not_downloading hstep
      exact hinv.outside (.inr hstate) rfl
  | download hphase => exact hinv.outside (.inl rfl) rfl
  | request hphase =>
      constructor
      · exact inRange_requested
      · exact nofun
  | respond response hphase => exact hinv.receive hphase hcovered
  | @openPart transfer hphase =>
      have htransfer : transferOf s.phase = some (0, transfer) := congrArg transferOf hphase
      exact hinv.silent htransfer rfl rfl rfl le_rfl rfl
  | @truncate transfer hphase =>
      have htransfer : transferOf s.phase = some (0, transfer) := congrArg transferOf hphase
      exact hinv.silent htransfer rfl rfl rfl le_rfl rfl
  | @check transfer hphase =>
      have htransfer : transferOf s.phase = some (0, transfer) := congrArg transferOf hphase
      unfold check
      split_ifs
      · exact hinv.outside (.inr rfl) rfl
      · exact hinv.silent htransfer rfl rfl rfl le_rfl rfl
  | @read transfer n hphase hpos hrest =>
      have htransfer : transferOf s.phase = some (0, transfer) := congrArg transferOf hphase
      refine hinv.silent htransfer rfl rfl rfl le_rfl ?_
      simp only [List.length_take, List.length_drop]
      omega
  | eof hphase hrest => exact hinv.outside (.inr rfl) rfl
  | write hphase hpos hchunk => exact hinv.write hphase hchunk
  | verifyMagic hphase =>
      obtain ⟨hstate, htransfer, -⟩ := verifyMagic_silent config s
      exact hinv.outside (.inl hstate) htransfer
  | verifySha hphase =>
      obtain ⟨hstate, htransfer, -⟩ := verifySha_silent config s
      exact hinv.outside (.inl hstate) htransfer
  | deletePart deleted hphase => exact hinv.outside (.inr rfl) rfl
  | deleteTarget deleted hphase => exact hinv.outside (.inl rfl) rfl
  | rename renamed hphase =>
      obtain ⟨hstate, hidle⟩ := rename_ends s renamed
      exact hinv.outside (.inr hstate) (by rw [hidle]; rfl)

/-! ## The count within a call -/

/-- The response is there and the count has come so far. -/
structure Counts (lower : ℤ) (s : State) : Prop where
  answered : isAsking s.phase = false
  atLeast : ∀ bytes total, s.state = .downloading bytes total → lower ≤ bytes

variable {lower : ℤ}

theorem Counts.silent (hcounts : Counts lower s)
    (hstate : next.state = s.state ∨ isDownloading next.state = false)
    (hphase : isAsking next.phase = false) : Counts lower next where
  answered := hphase
  atLeast := by
    intro bytes total heq
    rcases hstate with hsame | hother
    · exact hcounts.atLeast bytes total (hsame.symm.trans heq)
    · rw [heq] at hother
      cases hother

theorem Counts.write (hinv : Progresses s) (hcounts : Counts lower s) {n : ℕ} {chunk : Bytes}
    {transfer : Transfer} (hphase : s.phase = .writing chunk transfer) (hchunk : n ≤ chunk.length) :
    Counts lower (write s n chunk transfer) := by
  have htransfer : transferOf s.phase = some (chunk.length, transfer) := congrArg transferOf hphase
  obtain ⟨hcovers, bytes, total, hstate, hle⟩ := hinv.transfer _ _ htransfer
  have hlower := hcounts.atLeast bytes total hstate
  have hhere : Covers (transfer.position + n) transfer.total := hcovers.mono (by omega)
  by_cases hmore : n < chunk.length
  · rw [GgufDownloader.write, if_pos hmore]
    exact hcounts.silent (.inl rfl) rfl
  · rw [GgufDownloader.write, if_neg hmore]
    refine ⟨rfl, ?_⟩
    intro bytes' total' heq
    obtain ⟨rfl, -⟩ := DownloadState.downloading.inj heq
    rw [toLong_of_covers hhere]
    omega

theorem Counts.step {action : Action} (hinv : Progresses s) (hcounts : Counts lower s)
    (hwithin : withinCall action = true)
    (hstep : (machine config).step s action = some next) : Counts lower next := by
  have hanswered := hcounts.answered
  cases moves_of_step hstep with
  | cancel => exact hcounts.silent (.inl rfl) hanswered
  | kill => cases hwithin
  | fault message state =>
      obtain ⟨hstate, -⟩ := fault_not_downloading hstep
      exact hcounts.silent (.inr hstate) rfl
  | download hphase => cases hwithin
  | request hphase =>
      rw [hphase] at hanswered
      cases hanswered
  | respond response hphase =>
      rw [hphase] at hanswered
      cases hanswered
  | openPart hphase => exact hcounts.silent (.inl rfl) rfl
  | truncate hphase => exact hcounts.silent (.inl rfl) rfl
  | check hphase =>
      unfold check
      split_ifs
      · exact hcounts.silent (.inr rfl) rfl
      · exact hcounts.silent (.inl rfl) rfl
  | read hphase hpos hrest => exact hcounts.silent (.inl rfl) rfl
  | eof hphase hrest => exact hcounts.silent (.inr rfl) rfl
  | write hphase hpos hchunk => exact hcounts.write hinv hphase hchunk
  | verifyMagic hphase =>
      obtain ⟨hstate, -, hlater⟩ := verifyMagic_silent config s
      exact hcounts.silent (.inl hstate) hlater
  | verifySha hphase =>
      obtain ⟨hstate, -, hlater⟩ := verifySha_silent config s
      exact hcounts.silent (.inl hstate) hlater
  | deletePart deleted hphase => exact hcounts.silent (.inr rfl) rfl
  | deleteTarget deleted hphase => exact hcounts.silent (.inl rfl) rfl
  | rename renamed hphase =>
      obtain ⟨hstate, hidle⟩ := rename_ends s renamed
      exact hcounts.silent (.inr hstate) (by rw [hidle]; rfl)

/-- Behind the response no other one comes in the call. -/
theorem coveredStep_of_answered (hanswered : isAsking s.phase = false) (action : Action) :
    CoveredStep config s action := by
  cases action with
  | respond response =>
      intro existing body hphase
      rw [hphase] at hanswered
      cases hanswered
  | _ => trivial

theorem counts_run {actions : List Action} {t : State} (hinv : Progresses s)
    (hcounts : Counts lower s) (hwithin : ∀ a ∈ actions, withinCall a = true)
    (hrun : (machine config).run s actions = some t) : Progresses t ∧ Counts lower t := by
  refine (machine config).run_invariant (I := fun u => Progresses u ∧ Counts lower u) ?_
    ⟨hinv, hcounts⟩ ((machine config).runMeets_of_forall hwithin s) hrun
  rintro u action next ⟨hu, hlower⟩ hmeets hstep
  exact ⟨hu.step (coveredStep_of_answered hlower.answered action) hstep,
    hlower.step hu hmeets hstep⟩

/-! ## A run that shows each byte -/

/-- At the head of the loop, with the count of the bytes in front of it. -/
structure Awaits (transfer : Transfer) (s : State) : Prop where
  phase : s.phase = .checking transfer
  uncancelled : s.cancelRequested = false
  state : s.state = .downloading (toLong transfer.position) transfer.total

def oneByte : List Action := [.check, .read 1, .write 1]

theorem withinCall_oneByte : ∀ a ∈ oneByte, withinCall a = true := by
  simp [oneByte, withinCall]

/-- The transfer behind so many more bytes. -/
def Transfer.advance (transfer : Transfer) (count : ℕ) : Transfer :=
  { transfer with position := transfer.position + count, rest := transfer.rest.drop count }

theorem step_check {transfer : Transfer} (hphase : s.phase = .checking transfer)
    (hflag : s.cancelRequested = false) :
    (machine config).step s .check = some { s with phase := .reading transfer } := by
  simp [machine, step, check, hphase, hflag]

theorem step_read_one {transfer : Transfer} (hphase : s.phase = .reading transfer)
    (hrest : 0 < transfer.rest.length) :
    (machine config).step s (.read 1) = some (read s 1 transfer) := by
  have hone : 0 < 1 ∧ 1 ≤ config.bufferSize ∧ 1 ≤ transfer.rest.length :=
    ⟨one_pos, config.bufferSize_pos, hrest⟩
  simp only [machine, step, hphase]
  exact if_pos hone

theorem step_write_all {chunk : Bytes} {transfer : Transfer}
    (hphase : s.phase = .writing chunk transfer) (hchunk : 0 < chunk.length) :
    (machine config).step s (.write chunk.length) =
      some (write s chunk.length chunk transfer) := by
  simp only [machine, step, hphase]
  exact if_pos ⟨hchunk, le_rfl⟩

theorem run_oneByte {transfer : Transfer} (hawaits : Awaits transfer s)
    (hrest : 0 < transfer.rest.length) (htotal : 0 < transfer.total) :
    ∃ t, (machine config).run s oneByte = some t ∧ Awaits (transfer.advance 1) t := by
  have hchunk : (transfer.rest.take 1).length = 1 := by
    rw [List.length_take]
    omega
  have hcheck := @step_check config s transfer hawaits.phase hawaits.uncancelled
  have hread := @step_read_one config { s with phase := .reading transfer } transfer rfl hrest
  have hwrite := @step_write_all config (read { s with phase := .reading transfer } 1 transfer)
    (transfer.rest.take 1) { transfer with rest := transfer.rest.drop 1 } rfl (by omega)
  rw [hchunk] at hwrite
  have hrun := ((machine config).run_cons_of_step hcheck [.read 1, .write 1]).trans
    (((machine config).run_cons_of_step hread [.write 1]).trans
      ((machine config).run_cons_of_step hwrite []))
  refine ⟨_, hrun, ?_⟩
  rw [write, if_neg hchunk.le.not_gt]
  exact ⟨rfl, hawaits.uncancelled, by simp [Transfer.advance, htotal]⟩

theorem exists_run_count {transfer : Transfer} (hawaits : Awaits transfer s)
    (htotal : 0 < transfer.total) {count : ℕ} (hcount : count ≤ transfer.rest.length) :
    ∃ actions t, (∀ a ∈ actions, withinCall a = true) ∧
      (machine config).run s actions = some t ∧ Awaits (transfer.advance count) t := by
  induction count with
  | zero => exact ⟨[], s, by simp, rfl, hawaits⟩
  | succ count ih =>
      obtain ⟨actions, middle, hwithin, hrun, hmiddle⟩ := ih (by omega)
      have hrest : 0 < (transfer.advance count).rest.length := by
        simp only [Transfer.advance, List.length_drop]
        omega
      obtain ⟨t, hlast, ht⟩ := run_oneByte hmiddle hrest htotal
      have hadvance : (transfer.advance count).advance 1 = transfer.advance (count + 1) := by
        simp [Transfer.advance, add_assoc]
      rw [hadvance] at ht
      exact ⟨actions ++ oneByte, t, List.forall_mem_append.mpr ⟨hwithin, withinCall_oneByte⟩,
        ((machine config).run_append_of_run hrun oneByte).trans hlast, ht⟩

/-- All that the rest of the call shows of a response. -/
def StaysInRange (config : Config) (s : State) (response : Response) : Prop :=
  ∀ later t, (∀ a ∈ later, withinCall a = true) →
    (machine config).run s (.respond response :: later) = some t → InRange t.state

theorem stays_of_covers {existing : ℕ} {response : Response} {body : Bytes}
    (hphase : s.phase = .requesting existing)
    (hcode : 200 ≤ response.code ∧ response.code < 300) (hbody : response.body = some body)
    (hcovers : Covers (startOffset existing response + body.length)
      (totalOf config existing response)) : StaysInRange config s response := by
  intro later t hwithin hrun
  obtain ⟨next, hstep, hlater⟩ := ((machine config).run_cons_eq_some).mp hrun
  have hnext : receive config s existing response = next := by
    simpa [machine, step, hphase] using hstep
  subst hnext
  have hinv : Progresses (receive config s existing response) :=
    progresses_accepted hcode hbody hcovers
  have hcounts : Counts (toLong (startOffset existing response))
      (receive config s existing response) := by
    rw [receive_accepted hcode hbody]
    refine ⟨rfl, ?_⟩
    intro bytes total heq
    exact (DownloadState.downloading.inj heq).1.le
  exact (counts_run hinv hcounts hwithin hlater).1.inRange

/-- The loop is reached with the count of the response. -/
theorem run_accepted {existing : ℕ} {response : Response} {body : Bytes}
    (hphase : s.phase = .requesting existing) (hflag : s.cancelRequested = false)
    (hcode : 200 ≤ response.code ∧ response.code < 300) (hbody : response.body = some body) :
    ∃ t, (machine config).run s [.respond response, .openPart, .truncate] = some t ∧
      Awaits (begin config existing response body) t := by
  have hrespond : (machine config).step s (.respond response) =
      some (receive config s existing response) := by
    simp only [machine, step, hphase]
  rw [receive_accepted hcode hbody] at hrespond
  have hrun := (machine config).run_cons_of_step hrespond [.openPart, .truncate]
  exact ⟨_, hrun, rfl, hflag, rfl⟩

/-- Each count of the response is shown in some run. -/
theorem inRange_of_stays {existing : ℕ} {response : Response} {body : Bytes}
    (hphase : s.phase = .requesting existing) (hflag : s.cancelRequested = false)
    (hcode : 200 ≤ response.code ∧ response.code < 300) (hbody : response.body = some body)
    (htotal : 0 < totalOf config existing response) (hstays : StaysInRange config s response)
    {count : ℕ} (hcount : count ≤ body.length) :
    InRange (.downloading (toLong (startOffset existing response + count : ℕ))
      (totalOf config existing response)) := by
  obtain ⟨middle, hfirst, hmiddle⟩ := run_accepted hphase hflag hcode hbody
  obtain ⟨actions, t, hwithin, hrun, ht⟩ := exists_run_count hmiddle htotal hcount
  have hwhole := (machine config).run_append_of_run hfirst actions
  rw [hrun] at hwhole
  have hlater : ∀ a ∈ .openPart :: .truncate :: actions, withinCall a = true :=
    List.forall_mem_cons.mpr ⟨rfl, List.forall_mem_cons.mpr ⟨rfl, hwithin⟩⟩
  have hinRange := hstays _ t hlater hwhole
  rw [ht.state] at hinRange
  exact hinRange

theorem covered_of_stays {existing : ℕ} {response : Response} {body : Bytes}
    (hphase : s.phase = .requesting existing) (hflag : s.cancelRequested = false)
    (hcode : 200 ≤ response.code ∧ response.code < 300) (hbody : response.body = some body)
    (hlong : 100 * ((startOffset existing response + body.length : ℕ) : ℤ) < 2 ^ 63)
    (hint : 100 * (startOffset existing response : ℤ) < 2 ^ 31 * totalOf config existing response)
    (htotal : 0 < totalOf config existing response) (hstays : StaysInRange config s response)
    {count : ℕ} (hcount : count ≤ body.length) :
    100 * ((startOffset existing response + count : ℕ) : ℤ) <
      101 * totalOf config existing response := by
  have hshown : ∀ shown ≤ body.length, 100 * ((startOffset existing response + shown : ℕ) : ℤ) <
      2 ^ 31 * totalOf config existing response →
      100 * ((startOffset existing response + shown : ℕ) : ℤ) <
        101 * totalOf config existing response := by
    intro shown hle hquotient
    have hshort : 100 * ((startOffset existing response + shown : ℕ) : ℤ) < 2 ^ 63 := by omega
    have hinRange := inRange_of_stays hphase hflag hcode hbody htotal hstays hle _ _ rfl
    rw [toLong_eq (by omega) (by omega)] at hinRange
    exact (percent_le_iff (by omega) hshort htotal hquotient).mp hinRange
  induction count with
  | zero => exact hshown 0 hcount hint
  | succ count ih =>
      -- A byte adds at most a hundred to the dividend, which no `Int` overflows by.
      have hbefore := ih (by omega)
      exact hshown (count + 1) hcount (by omega)

theorem stays_iff {existing : ℕ} {response : Response} {body : Bytes}
    (hphase : s.phase = .requesting existing) (hflag : s.cancelRequested = false)
    (hcode : 200 ≤ response.code ∧ response.code < 300) (hbody : response.body = some body)
    (hlong : 100 * ((startOffset existing response + body.length : ℕ) : ℤ) < 2 ^ 63)
    (hint : totalOf config existing response ≤ 0 ∨
      100 * (startOffset existing response : ℤ) < 2 ^ 31 * totalOf config existing response) :
    StaysInRange config s response ↔
      Covers (startOffset existing response + body.length) (totalOf config existing response) := by
  constructor
  · intro hstays
    rcases le_or_gt (totalOf config existing response) 0 with hunknown | htotal
    · exact ⟨hlong, .inl hunknown⟩
    · have hquotient := hint.resolve_left (not_le.mpr htotal)
      exact ⟨hlong, .inr (covered_of_stays hphase hflag hcode hbody hlong hquotient htotal hstays
        le_rfl)⟩
  · exact stays_of_covers hphase hcode hbody

end Step

/-- The count does not go down. -/
def Grows (state later : DownloadState) : Prop :=
  ∀ bytes total bytes' total', state = .downloading bytes total →
    later = .downloading bytes' total' → bytes ≤ bytes'

theorem progresses_construct (part target : Option Bytes) : Progresses (construct part target) where
  inRange := by
    refine inRange_of_not_downloading ?_
    rw [construct]
    split_ifs <;> rfl
  transfer := nofun

theorem Progresses.grows {config : Config} {s t : State} {later : List Action}
    (hinv : Progresses s) (htransfer : (transferOf s.phase).isSome)
    (hwithin : ∀ a ∈ later, withinCall a = true)
    (hrun : (machine config).run s later = some t) : Grows s.state t.state := by
  intro bytes total bytes' total' hstate hlater
  have hanswered : isAsking s.phase = false := by
    cases hphase : s.phase <;> simp_all [transferOf, isAsking]
  have hcounts : Counts bytes s := by
    refine ⟨hanswered, ?_⟩
    intro other total' hother
    exact (DownloadState.downloading.inj (hstate.symm.trans hother)).1.le
  exact (counts_run hinv hcounts hwithin hrun).2.atLeast bytes' total' hlater

/-- Where each response has a total that covers what it brings, the percentage is in range
through all the calls, and the count goes up through each transfer.  A response whose total
does not cover its bytes has a run that shows it. -/
theorem progress_inRange (config : Config) (part target : Option Bytes) {actions : List Action}
    {s : State} (hrun : (machine config).run (construct part target) actions = some s)
    (hcovered : (machine config).RunMeets (CoveredStep config) (construct part target) actions) :
    InRange s.state ∧
      (∀ later t, (transferOf s.phase).isSome → (∀ a ∈ later, withinCall a = true) →
        (machine config).run s later = some t → Grows s.state t.state) ∧
      ∀ existing response body, s.phase = .requesting existing → s.cancelRequested = false →
        200 ≤ response.code ∧ response.code < 300 → response.body = some body →
        100 * ((startOffset existing response + body.length : ℕ) : ℤ) < 2 ^ 63 →
        (totalOf config existing response ≤ 0 ∨
          100 * (startOffset existing response : ℤ) < 2 ^ 31 * totalOf config existing response) →
        (StaysInRange config s response ↔
          Covers (startOffset existing response + body.length)
            (totalOf config existing response)) := by
  have hinv : Progresses s := (machine config).run_invariant
    (fun _ _ _ hinv hstep hnext => Progresses.step hinv hstep hnext)
    (progresses_construct part target) hcovered hrun
  refine ⟨hinv.inRange, ?_, ?_⟩
  · intro later t htransfer hwithin hlater
    exact hinv.grows htransfer hwithin hlater
  · intro existing response body hphase hflag hcode hbody hlong hint
    exact stays_iff hphase hflag hcode hbody hlong hint

theorem runMeets_covered {config : Config} {actions : List Action}
    (hnone : ∀ response, .respond response ∉ actions) (s : State) :
    (machine config).RunMeets (CoveredStep config) s actions := by
  induction actions generalizing s with
  | nil => trivial
  | cons action actions ih =>
      refine ⟨?_, fun next _ => ih (fun response hmem => hnone response (.tail action hmem)) next⟩
      cases action with
      | respond response => exact absurd (List.mem_cons_self ..) (hnone response)
      | _ => trivial

/-- A call over the first half of the magic, up to its request. -/
def resumes : List Action := [.download, .request]

/-- The other half. -/
def halfResponse : Response where
  code := 206
  contentRange := some "bytes 2-3/4"
  contentLength := 2
  body := some [0x55, 0x46]

/-- The same in chunks, without a header that tells the length. -/
def chunkedResponse : Response where
  code := 206
  body := some [0x55, 0x46]

theorem totalOf_half : totalOf magicConfig 2 halfResponse = 4 := by decide +kernel

theorem totalOf_chunked : totalOf magicConfig 2 chunkedResponse = 1 := by decide +kernel

theorem covers_half :
    Covers (startOffset 2 halfResponse + 2) (totalOf magicConfig 2 halfResponse) := by
  have hrange : parseContentRangeTotal magicConfig halfResponse.contentRange = some 4 := by
    decide +kernel
  refine @covers_of_length magicConfig 2 halfResponse [0x55, 0x46] rfl ?_ (by decide)
  intro total htotal
  cases hrange.symm.trans htotal
  exact le_rfl

theorem not_covers_chunked :
    ¬ Covers (startOffset 2 chunkedResponse + 2) (totalOf magicConfig 2 chunkedResponse) := by
  rw [totalOf_chunked]
  intro hcovers
  exact absurd hcovers.covered (by decide)

/-- One of the two bytes is there. -/
def halfRead : List Action :=
  [.respond halfResponse, .openPart, .truncate, .check, .read 1, .write 1]

theorem progress_inRange_half :
    (∃ s, (machine magicConfig).run (construct (some [0x47, 0x47]) none) resumes = some s ∧
      StaysInRange magicConfig s halfResponse ∧ ¬ StaysInRange magicConfig s chunkedResponse) ∧
    ∃ t, (machine magicConfig).run (construct (some [0x47, 0x47]) none) (resumes ++ halfRead) =
        some t ∧
      t.state = .downloading 3 4 ∧ InRange t.state ∧
      ∀ later u, (∀ a ∈ later, withinCall a = true) →
        (machine magicConfig).run t later = some u → Grows t.state u.state := by
  have hresumes : (machine magicConfig).run (construct (some [0x47, 0x47]) none) resumes =
      some (request (download (construct (some [0x47, 0x47]) none))) := rfl
  have hasked := @runMeets_covered magicConfig resumes (by simp [resumes])
    (construct (some [0x47, 0x47]) none)
  constructor
  · obtain ⟨-, -, hstays⟩ :=
      progress_inRange magicConfig (some [0x47, 0x47]) none hresumes hasked
    refine ⟨_, hresumes, ?_, ?_⟩
    · refine (hstays 2 halfResponse [0x55, 0x46] rfl rfl (by decide) rfl (by decide) ?_).mpr
        covers_half
      rw [totalOf_half]
      exact .inr (by decide)
    · intro hchunked
      refine not_covers_chunked ((hstays 2 chunkedResponse [0x55, 0x46] rfl rfl (by decide) rfl
        (by decide) ?_).mp hchunked)
      rw [totalOf_chunked]
      exact .inr (by decide)
  · have hanswered : (machine magicConfig).RunMeets (CoveredStep magicConfig)
        (request (download (construct (some [0x47, 0x47]) none))) halfRead := by
      refine ⟨?_, fun next _ => runMeets_covered (by simp) next⟩
      intro existing body hphase _ _ hbody
      cases hphase
      cases hbody
      exact covers_half
    have hmeets := (machine magicConfig).runMeets_append hresumes hasked hanswered
    obtain ⟨t, hrun, hstate, hphase⟩ :
        ∃ t, (machine magicConfig).run (construct (some [0x47, 0x47]) none)
            (resumes ++ halfRead) = some t ∧
          t.state = .downloading 3 4 ∧ (transferOf t.phase).isSome := by
      refine ⟨_, rfl, ?_, rfl⟩
      decide +kernel
    obtain ⟨hinRange, hgrows, -⟩ := progress_inRange magicConfig _ none hrun hmeets
    exact ⟨t, hrun, hstate, hinRange, fun later u => hgrows later u hphase⟩

/-- Without the length the sentinel goes into the sum: a total of one byte, with two there. -/
theorem progress_out_of_range :
    ∃ t, (machine magicConfig).run (construct (some [0x47, 0x47]) none)
        (resumes ++ [.respond chunkedResponse]) = some t ∧
      t.state = .downloading 2 1 ∧ percent 2 1 = 200 ∧ ¬ InRange t.state := by
  have hpercent : percent 2 1 = 200 := by decide +kernel
  obtain ⟨t, hrun, hstate⟩ :
      ∃ t, (machine magicConfig).run (construct (some [0x47, 0x47]) none)
          (resumes ++ [.respond chunkedResponse]) = some t ∧ t.state = .downloading 2 1 := by
    refine ⟨_, rfl, ?_⟩
    decide +kernel
  refine ⟨t, hrun, hstate, hpercent, ?_⟩
  intro hinRange
  have hle := (hinRange 2 1 hstate).2
  rw [hpercent] at hle
  exact absurd hle (by decide)

end GgufDownloader

end NativeInterop
