import NativeInterop.LittleEndian
import NativeInterop.Machine
import NativeInterop.SignedDecimal
import NativeInterop.Unicode
import Mathlib.Tactic

/-!
# The downloader of the language model

`GgufDownloader.download` streams a model into a `.part` file, checks it and renames it.  The
file outlives the call and the process: a later call asks the server for what is missing.

One step of the model is one operation on the files, one read of the response, one look at
the flag of `cancel()`, or the death of the process.  The server, the network and the file
system choose how each of them ends.
-/

namespace NativeInterop

namespace GgufDownloader

/-- What the instance is constructed with, and the digest and `Character.digit` of the
platform. -/
structure Config where
  expectedSha256 : String := ""
  bufferSize : ℕ := 64 * 1024
  bufferSize_pos : 0 < bufferSize := by decide
  sha256Hex : Bytes → String
  digitOf : Char → Option ℕ := SignedDecimal.ascii.digitOf
  digitOf_ascii : ∀ c, c.toNat < 0x80 → digitOf c = SignedDecimal.ascii.digitOf c := by
    intro c _
    rfl

inductive DownloadState where
  | notStarted
  | downloading (bytesDownloaded totalBytes : ℤ)
  | verifying
  | completed
  | cancelled
  | failed (message : String)
  deriving DecidableEq, Repr

/-- `contentLength` is `-1` where the server does not say; `body` is all that the stream
gives before its end. -/
structure Response where
  code : ℕ
  contentRange : Option String := none
  contentLength : ℤ := -1
  body : Option Bytes
  deriving DecidableEq, Repr

/-- The response in progress: where the next byte goes and what the stream has left. -/
structure Transfer where
  resumed : Bool
  position : ℕ
  total : ℤ
  rest : Bytes
  deriving DecidableEq, Repr

/-- `checking` is the head of the loop, `rejecting` a failed check before its `delete`,
`replacing` the point behind the checks. -/
inductive Phase where
  | idle
  | started
  | requesting (existing : ℕ)
  | opening (transfer : Transfer)
  | opened (transfer : Transfer)
  | checking (transfer : Transfer)
  | reading (transfer : Transfer)
  | writing (chunk : Bytes) (transfer : Transfer)
  | verifying
  | hashing
  | rejecting (message : String)
  | replacing
  | moving
  deriving DecidableEq, Repr

/-- A check that a file has passed, and the call of `download` that made it. -/
structure Passed where
  call : ℕ
  file : Bytes
  deriving DecidableEq, Repr

/-- The two files and the fields of the instance.  `call` counts the calls of `download`;
the checks that have been passed and the call whose rename made the target are recorded. -/
structure State where
  part : Option Bytes := none
  target : Option Bytes := none
  cancelRequested : Bool := false
  phase : Phase := .idle
  state : DownloadState := .notStarted
  call : ℕ := 0
  magicPassed : List Passed := []
  shaPassed : List Passed := []
  installedBy : Option ℕ := none
  deriving DecidableEq, Repr

inductive Action where
  | download
  | cancel
  | kill
  | request
  | respond (response : Response)
  | fault (message : String)
  | openPart
  | truncate
  | check
  | read (n : ℕ)
  | eof
  | write (n : ℕ)
  | verifyMagic
  | verifySha
  | deletePart (deleted : Bool)
  | deleteTarget (deleted : Bool)
  | rename (renamed : Bool)
  deriving DecidableEq, Repr

/-! ## Files -/

/-- Writing at a position, with zeros where it lies behind the end. -/
def writeAt (file : Bytes) (position : ℕ) (bytes : Bytes) : Bytes :=
  file.take position ++ List.replicate (position - file.length) 0 ++ bytes ++
    file.drop (position + bytes.length)

/-- The decoder of `US_ASCII`. -/
def asciiChar (byte : UInt8) : Char :=
  if byte.toNat < 128 then Char.ofNat byte.toNat else Char.ofNat 0xFFFD

def magic : String := "GGUF"

def hasGgufMagic (file : Bytes) : Bool :=
  if file.length < 4 then false else (file.take 4).map asciiChar = magic.toList

def isNotBlank (text : String) : Bool :=
  text.toList.any fun c => ¬ Unicode.isWhitespaceKotlin c.toNat

/-- `equals(ignoreCase = true)`, where one side is hexadecimal. -/
def equalsIgnoreCase (a b : String) : Bool :=
  a.toList.map Char.toLower = b.toList.map Char.toLower

def shaMatches (config : Config) (file : Bytes) : Bool :=
  equalsIgnoreCase (config.sha256Hex file) config.expectedSha256

/-- The value of a `Long` whose bits are those of the number. -/
def toLong (n : ℤ) : ℤ := n.bmod (2 ^ 64)

def toLongOrNull (config : Config) (text : List Char) : Option ℤ :=
  SignedDecimal.parse ⟨config.digitOf, '+', '-'⟩ (-2 ^ 63) (2 ^ 63 - 1) text

def parseContentRangeTotal (config : Config) (contentRange : Option String) : Option ℤ := do
  let text := (← contentRange).toList
  if '/' ∈ text then toLongOrNull config (text.reverse.takeWhile (· ≠ '/')).reverse else none

def isDownloaded (target : Option Bytes) : Bool := target.any fun file => 0 < file.length

/-! ## Steps -/

/-- A new instance over the files that are there. -/
def construct (part target : Option Bytes) : State :=
  { part := part
    target := target
    state := if isDownloaded target then .completed else .notStarted }

def finish (s : State) (state : DownloadState) : State :=
  { s with phase := .idle, state := state }

/-- An `IOException` inside of the `try` block that looks at the flag. -/
def throwIOException (s : State) (message : String) : State :=
  finish s (if s.cancelRequested then .cancelled else .failed message)

def startOffset (existing : ℕ) (response : Response) : ℕ :=
  if response.code = 206 then existing else 0

/-- The total of the `Content-Range` header, or the sum that stands in for it. -/
def totalOf (config : Config) (existing : ℕ) (response : Response) : ℤ :=
  if response.code = 206 then
    (parseContentRangeTotal config response.contentRange).getD
      (toLong (existing + response.contentLength))
  else response.contentLength

/-- The request and the response: `existing` is the length that the request has named. -/
def receive (config : Config) (s : State) (existing : ℕ) (response : Response) : State :=
  if ¬ (200 ≤ response.code ∧ response.code < 300) then
    throwIOException s ("download failed: HTTP " ++ toString response.code)
  else
    match response.body with
    | none => throwIOException s "download failed: empty response body"
    | some body =>
        { s with
          state := .downloading (toLong (startOffset existing response))
            (totalOf config existing response)
          phase := .opening ⟨response.code = 206, startOffset existing response,
            totalOf config existing response, body⟩ }

/-- Some bytes of the buffer have been written; the loop goes on behind the last one. -/
def write (s : State) (n : ℕ) (chunk : Bytes) (transfer : Transfer) : State :=
  let position := transfer.position + n
  let next := { transfer with position := position }
  let written :=
    { s with part := s.part.map fun file => writeAt file transfer.position (chunk.take n) }
  if n < chunk.length then { written with phase := .writing (chunk.drop n) next }
  else
    { written with
      state := .downloading (toLong position)
        (if transfer.total > 0 then transfer.total else toLong position)
      phase := .checking next }

/-- The process dies and a later one constructs a new instance. -/
def kill (s : State) : State :=
  { construct s.part s.target with
    call := s.call
    magicPassed := s.magicPassed
    shaPassed := s.shaPassed
    installedBy := s.installedBy }

def download (s : State) : State :=
  { s with cancelRequested := false, phase := .started, call := s.call + 1 }

/-- The length of the file goes into the `Range` header where it is not zero. -/
def request (s : State) : State :=
  { s with
    state := .downloading (toLong (s.part.getD []).length) 0
    phase := .requesting (s.part.getD []).length }

/-- `RandomAccessFile` creates the file. -/
def openPart (s : State) (transfer : Transfer) : State :=
  { s with part := some (s.part.getD []), phase := .opened transfer }

def truncate (s : State) (transfer : Transfer) : State :=
  { s with
    part := if transfer.resumed then s.part else some []
    phase := .checking transfer }

def check (s : State) (transfer : Transfer) : State :=
  if s.cancelRequested then finish s .cancelled else { s with phase := .reading transfer }

def read (s : State) (n : ℕ) (transfer : Transfer) : State :=
  { s with
    phase := .writing (transfer.rest.take n) { transfer with rest := transfer.rest.drop n } }

def verifyMagic (config : Config) (s : State) : State :=
  if hasGgufMagic (s.part.getD []) then
    { s with
      magicPassed := s.magicPassed ++ [⟨s.call, s.part.getD []⟩]
      phase := if isNotBlank config.expectedSha256 then .hashing else .replacing }
  else
    { s with
      phase := .rejecting "downloaded file failed the GGUF integrity check (bad magic header)" }

def verifySha (config : Config) (s : State) : State :=
  if shaMatches config (s.part.getD []) then
    { s with shaPassed := s.shaPassed ++ [⟨s.call, s.part.getD []⟩], phase := .replacing }
  else { s with phase := .rejecting "downloaded file failed the SHA-256 integrity check" }

def deletePart (s : State) (deleted : Bool) (message : String) : State :=
  finish { s with part := if deleted then none else s.part } (.failed message)

def deleteTarget (s : State) (deleted : Bool) : State :=
  { s with target := if deleted then none else s.target, phase := .moving }

def rename (s : State) (renamed : Bool) : State :=
  if renamed then
    finish { s with part := none, target := s.part, installedBy := some s.call } .completed
  else finish s (.failed "failed to finalize the downloaded model (rename failed)")

/-- Where an operation may throw, with what the handlers make of it: only the transfer looks
at the flag. -/
def fault (s : State) (message : String) : Option State :=
  match s.phase with
  | .requesting _ | .opening _ | .opened _ | .reading _ | .writing _ _ =>
      some (throwIOException s message)
  | .started | .verifying | .hashing => some (finish s (.failed message))
  | _ => none

def step (config : Config) (s : State) (action : Action) : Option State :=
  match action, s.phase with
  | .cancel, _ => some { s with cancelRequested := true }
  | .kill, _ => some (kill s)
  | .fault message, _ => fault s message
  | .download, .idle => some (download s)
  | .request, .started => some (request s)
  | .respond response, .requesting existing => some (receive config s existing response)
  | .openPart, .opening transfer => some (openPart s transfer)
  | .truncate, .opened transfer => some (truncate s transfer)
  | .check, .checking transfer => some (check s transfer)
  | .read n, .reading transfer =>
      if 0 < n ∧ n ≤ config.bufferSize ∧ n ≤ transfer.rest.length then some (read s n transfer)
      else none
  | .eof, .reading transfer =>
      if transfer.rest = [] then some { s with state := .verifying, phase := .verifying } else none
  | .write n, .writing chunk transfer =>
      if 0 < n ∧ n ≤ chunk.length then some (write s n chunk transfer) else none
  | .verifyMagic, .verifying => some (verifyMagic config s)
  | .verifySha, .hashing => some (verifySha config s)
  | .deletePart deleted, .rejecting message => some (deletePart s deleted message)
  | .deleteTarget deleted, .replacing => some (deleteTarget s deleted)
  | .rename renamed, .moving => some (rename s renamed)
  | _, _ => none

def machine (config : Config) : Machine State Action where
  step := step config

/-! ## What a step can do -/

/-- The steps by their phases; an exception keeps the files. -/
inductive Moves (config : Config) (s : State) : Action → State → Prop
  | cancel : Moves config s .cancel { s with cancelRequested := true }
  | kill : Moves config s .kill (kill s)
  | fault (message : String) (state : DownloadState) :
      Moves config s (.fault message) (finish s state)
  | download (hphase : s.phase = .idle) : Moves config s .download (download s)
  | request (hphase : s.phase = .started) : Moves config s .request (request s)
  | respond {existing : ℕ} (response : Response) (hphase : s.phase = .requesting existing) :
      Moves config s (.respond response) (receive config s existing response)
  | openPart {transfer : Transfer} (hphase : s.phase = .opening transfer) :
      Moves config s .openPart (openPart s transfer)
  | truncate {transfer : Transfer} (hphase : s.phase = .opened transfer) :
      Moves config s .truncate (truncate s transfer)
  | check {transfer : Transfer} (hphase : s.phase = .checking transfer) :
      Moves config s .check (check s transfer)
  | read {transfer : Transfer} {n : ℕ} (hphase : s.phase = .reading transfer) (hpos : 0 < n)
      (hrest : n ≤ transfer.rest.length) : Moves config s (.read n) (read s n transfer)
  | eof {transfer : Transfer} (hphase : s.phase = .reading transfer) (hrest : transfer.rest = []) :
      Moves config s .eof { s with state := .verifying, phase := .verifying }
  | write {chunk : Bytes} {transfer : Transfer} {n : ℕ} (hphase : s.phase = .writing chunk transfer)
      (hpos : 0 < n) (hchunk : n ≤ chunk.length) :
      Moves config s (.write n) (write s n chunk transfer)
  | verifyMagic (hphase : s.phase = .verifying) :
      Moves config s .verifyMagic (verifyMagic config s)
  | verifySha (hphase : s.phase = .hashing) : Moves config s .verifySha (verifySha config s)
  | deletePart {message : String} (deleted : Bool) (hphase : s.phase = .rejecting message) :
      Moves config s (.deletePart deleted) (deletePart s deleted message)
  | deleteTarget (deleted : Bool) (hphase : s.phase = .replacing) :
      Moves config s (.deleteTarget deleted) (deleteTarget s deleted)
  | rename (renamed : Bool) (hphase : s.phase = .moving) :
      Moves config s (.rename renamed) (rename s renamed)

theorem moves_of_fault {config : Config} {s next : State} {message : String}
    (hfault : fault s message = some next) : Moves config s (.fault message) next := by
  unfold fault at hfault
  split at hfault
  all_goals first | (cases hfault; exact .fault message _) | cases hfault

theorem moves_of_step {config : Config} {s next : State} {action : Action}
    (hstep : (machine config).step s action = some next) : Moves config s action next := by
  simp only [machine, step] at hstep
  split at hstep
  · cases hstep
    exact .cancel
  · cases hstep
    exact .kill
  · exact moves_of_fault hstep
  · next hphase =>
      cases hstep
      exact .download hphase
  · next hphase =>
      cases hstep
      exact .request hphase
  · next hphase =>
      cases hstep
      exact .respond _ hphase
  · next hphase =>
      cases hstep
      exact .openPart hphase
  · next hphase =>
      cases hstep
      exact .truncate hphase
  · next hphase =>
      cases hstep
      exact .check hphase
  · next hphase =>
      obtain ⟨hn, hsome⟩ := Option.ite_none_right_eq_some.mp hstep
      cases hsome
      exact .read hphase hn.1 hn.2.2
  · next hphase =>
      obtain ⟨hrest, hsome⟩ := Option.ite_none_right_eq_some.mp hstep
      cases hsome
      exact .eof hphase hrest
  · next hphase =>
      obtain ⟨hn, hsome⟩ := Option.ite_none_right_eq_some.mp hstep
      cases hsome
      exact .write hphase hn.1 hn.2
  · next hphase =>
      cases hstep
      exact .verifyMagic hphase
  · next hphase =>
      cases hstep
      exact .verifySha hphase
  · next hphase =>
      cases hstep
      exact .deletePart _ hphase
  · next hphase =>
      cases hstep
      exact .deleteTarget _ hphase
  · next hphase =>
      cases hstep
      exact .rename _ hphase
  · cases hstep

/-! ## What is installed -/

/-- A call has made every check on a file, and the file has passed. -/
structure Verified (config : Config) (s : State) (call : ℕ) (file : Bytes) : Prop where
  magicChecked : ⟨call, file⟩ ∈ s.magicPassed
  hasMagic : hasGgufMagic file = true
  shaChecked : isNotBlank config.expectedSha256 = true → ⟨call, file⟩ ∈ s.shaPassed
  hasSha : isNotBlank config.expectedSha256 = true → shaMatches config file = true

/-- The target is absent, as it was `before`, or was verified by the call that renamed it. -/
def Installed (config : Config) (before : Option Bytes) (s : State) : Prop :=
  s.target = none ∨ (s.installedBy = none ∧ s.target = before) ∨
    ∃ call file, s.installedBy = some call ∧ s.target = some file ∧ Verified config s call file

def CheckHolds (config : Config) (s : State) : Phase → Prop
  | .hashing => ∃ file, s.part = some file ∧ ⟨s.call, file⟩ ∈ s.magicPassed ∧
      hasGgufMagic file = true
  | .replacing => ∃ file, s.part = some file ∧ Verified config s s.call file
  | .moving => ∃ file, s.part = some file ∧ Verified config s s.call file
  | _ => True

structure InstallInv (config : Config) (before : Option Bytes) (s : State) : Prop where
  installed : Installed config before s
  checked : CheckHolds config s s.phase

def isChecked : Phase → Bool
  | .hashing => true
  | .replacing => true
  | .moving => true
  | _ => false

section Install

variable {config : Config} {before : Option Bytes} {s next : State}

theorem Verified.mono {call : ℕ} {file : Bytes} (hverified : Verified config s call file)
    (hmagic : s.magicPassed ⊆ next.magicPassed) (hsha : s.shaPassed ⊆ next.shaPassed) :
    Verified config next call file where
  magicChecked := hmagic hverified.magicChecked
  hasMagic := hverified.hasMagic
  shaChecked := fun hset => hsha (hverified.shaChecked hset)
  hasSha := hverified.hasSha

theorem Installed.mono (hinstalled : Installed config before s) (htarget : next.target = s.target)
    (hby : next.installedBy = s.installedBy) (hmagic : s.magicPassed ⊆ next.magicPassed)
    (hsha : s.shaPassed ⊆ next.shaPassed) : Installed config before next := by
  rcases hinstalled with hnone | ⟨hnot, hsame⟩ | ⟨call, file, hcall, hfile, hverified⟩
  · exact .inl (htarget.trans hnone)
  · exact .inr (.inl ⟨hby.trans hnot, htarget.trans hsame⟩)
  · exact .inr (.inr ⟨call, file, hby.trans hcall, htarget.trans hfile,
      hverified.mono hmagic hsha⟩)

theorem checkHolds_of_not_isChecked {phase : Phase} (hphase : isChecked phase = false) :
    CheckHolds config s phase := by
  cases phase with
  | hashing => cases hphase
  | replacing => cases hphase
  | moving => cases hphase
  | _ => trivial

theorem CheckHolds.cancel {phase : Phase} (hchecked : CheckHolds config s phase) :
    CheckHolds config { s with cancelRequested := true } phase := by
  cases phase with
  | hashing => exact hchecked
  | replacing =>
      obtain ⟨file, hpart, hverified⟩ := hchecked
      exact ⟨file, hpart, hverified.mono (List.Subset.refl _) (List.Subset.refl _)⟩
  | moving =>
      obtain ⟨file, hpart, hverified⟩ := hchecked
      exact ⟨file, hpart, hverified.mono (List.Subset.refl _) (List.Subset.refl _)⟩
  | _ => trivial

/-- Steps before the checks and back to the start leave the target alone. -/
theorem InstallInv.quiet (hinv : InstallInv config before s) (htarget : next.target = s.target)
    (hby : next.installedBy = s.installedBy) (hmagic : next.magicPassed = s.magicPassed)
    (hsha : next.shaPassed = s.shaPassed) (hphase : isChecked next.phase = false) :
    InstallInv config before next where
  installed := hinv.installed.mono htarget hby (hmagic ▸ List.Subset.refl _)
    (hsha ▸ List.Subset.refl _)
  checked := checkHolds_of_not_isChecked hphase

theorem InstallInv.finish (hinv : InstallInv config before s) (state : DownloadState) :
    InstallInv config before (finish s state) :=
  hinv.quiet rfl rfl rfl rfl rfl

theorem InstallInv.receive (hinv : InstallInv config before s) (existing : ℕ)
    (response : Response) : InstallInv config before (receive config s existing response) := by
  unfold GgufDownloader.receive
  split_ifs
  · split
    · exact hinv.finish _
    · exact hinv.quiet rfl rfl rfl rfl rfl
  · exact hinv.finish _

theorem exists_part_of_magic (hmagic : hasGgufMagic (s.part.getD []) = true) :
    s.part = some (s.part.getD []) := by
  cases hpart : s.part with
  | none =>
      rw [hpart] at hmagic
      cases hmagic
  | some file => rfl

theorem InstallInv.verifyMagic (hinv : InstallInv config before s) :
    InstallInv config before (verifyMagic config s) := by
  unfold GgufDownloader.verifyMagic
  split_ifs with hmagic hblank
  · refine ⟨hinv.installed.mono rfl rfl (List.subset_append_left _ _) (List.Subset.refl _), ?_⟩
    exact ⟨_, exists_part_of_magic hmagic, List.mem_append_right _ (List.mem_singleton_self _),
      hmagic⟩
  · refine ⟨hinv.installed.mono rfl rfl (List.subset_append_left _ _) (List.Subset.refl _), ?_⟩
    refine ⟨_, exists_part_of_magic hmagic, ?_⟩
    exact ⟨List.mem_append_right _ (List.mem_singleton_self _), hmagic,
      fun hset => absurd hset hblank, fun hset => absurd hset hblank⟩
  · exact hinv.quiet rfl rfl rfl rfl rfl

theorem InstallInv.verifySha (hinv : InstallInv config before s) (hphase : s.phase = .hashing) :
    InstallInv config before (verifySha config s) := by
  have hchecked := hinv.checked
  rw [hphase] at hchecked
  obtain ⟨file, hpart, hpassed, hmagic⟩ := hchecked
  have hfile : s.part.getD [] = file := by rw [hpart, Option.getD_some]
  unfold GgufDownloader.verifySha
  rw [hfile]
  split_ifs with hsha
  · refine ⟨hinv.installed.mono rfl rfl (List.Subset.refl _) (List.subset_append_left _ _), ?_⟩
    exact ⟨file, hpart, hpassed, hmagic,
      fun _ => List.mem_append_right _ (List.mem_singleton_self _), fun _ => hsha⟩
  · exact hinv.quiet rfl rfl rfl rfl rfl

theorem InstallInv.deleteTarget (hinv : InstallInv config before s) (deleted : Bool)
    (hphase : s.phase = .replacing) : InstallInv config before (deleteTarget s deleted) := by
  have hchecked := hinv.checked
  rw [hphase] at hchecked
  obtain ⟨file, hpart, hverified⟩ := hchecked
  refine ⟨?_, file, hpart, hverified.mono (List.Subset.refl _) (List.Subset.refl _)⟩
  cases deleted with
  | true => exact .inl rfl
  | false => exact hinv.installed.mono rfl rfl (List.Subset.refl _) (List.Subset.refl _)

theorem InstallInv.rename (hinv : InstallInv config before s) (renamed : Bool)
    (hphase : s.phase = .moving) : InstallInv config before (rename s renamed) := by
  have hchecked := hinv.checked
  rw [hphase] at hchecked
  obtain ⟨file, hpart, hverified⟩ := hchecked
  cases renamed with
  | true =>
      exact ⟨.inr (.inr ⟨s.call, file, rfl, hpart,
        hverified.mono (List.Subset.refl _) (List.Subset.refl _)⟩), trivial⟩
  | false => exact hinv.finish _

theorem installInv_step {action : Action} (hinv : InstallInv config before s)
    (hstep : (machine config).step s action = some next) : InstallInv config before next := by
  cases moves_of_step hstep with
  | cancel =>
      exact ⟨hinv.installed.mono rfl rfl (List.Subset.refl _) (List.Subset.refl _),
        hinv.checked.cancel⟩
  | kill => exact hinv.quiet rfl rfl rfl rfl rfl
  | fault message state => exact hinv.finish state
  | download hphase => exact hinv.quiet rfl rfl rfl rfl rfl
  | request hphase => exact hinv.quiet rfl rfl rfl rfl rfl
  | respond response hphase => exact hinv.receive _ response
  | openPart hphase => exact hinv.quiet rfl rfl rfl rfl rfl
  | truncate hphase => exact hinv.quiet rfl rfl rfl rfl rfl
  | check hphase =>
      unfold check
      split_ifs
      · exact hinv.finish _
      · exact hinv.quiet rfl rfl rfl rfl rfl
  | read hphase hpos hrest => exact hinv.quiet rfl rfl rfl rfl rfl
  | eof hphase hrest => exact hinv.quiet rfl rfl rfl rfl rfl
  | @write chunk transfer n hphase hpos hchunk =>
      by_cases hmore : n < chunk.length
      · rw [write, if_pos hmore]
        exact hinv.quiet rfl rfl rfl rfl rfl
      · rw [write, if_neg hmore]
        exact hinv.quiet rfl rfl rfl rfl rfl
  | verifyMagic hphase => exact hinv.verifyMagic
  | verifySha hphase => exact hinv.verifySha hphase
  | deletePart deleted hphase => exact hinv.quiet rfl rfl rfl rfl rfl
  | deleteTarget deleted hphase => exact hinv.deleteTarget deleted hphase
  | rename renamed hphase => exact hinv.rename renamed hphase

end Install

/-- Whatever the server, the network and the callers do, only verified bytes replace the
file that was there. -/
theorem installed_of_run (config : Config) (part target : Option Bytes) {actions : List Action}
    {t : State} (hrun : (machine config).run (construct part target) actions = some t) :
    Installed config target t := by
  have hinit : InstallInv config target (construct part target) :=
    ⟨.inr (.inl ⟨rfl, rfl⟩), trivial⟩
  exact ((machine config).run_invariant_of_step (fun _ _ _ => installInv_step) hinit hrun).installed

/-- The four bytes of the magic alone, with their digest. -/
def magicBytes : Bytes := [0x47, 0x47, 0x55, 0x46]

def magicConfig : Config where
  expectedSha256 := "B83633AA785344791618F2FDDF131B010EA04912A60430760B070BAD293F65BD"
  bufferSize := 512
  sha256Hex := fun file =>
    if file = magicBytes then "b83633aa785344791618f2fddf131b010ea04912a60430760b070bad293f65bd"
    else ""

/-- A download over an older file, with a write in two parts. -/
def replaces : List Action :=
  [.download, .request, .respond ⟨200, none, 4, some magicBytes⟩, .openPart, .truncate, .check,
    .read 4, .write 3, .write 1, .check, .eof, .verifyMagic, .verifySha, .deleteTarget true,
    .rename true]

theorem installed_replaces :
    ∃ t, (machine magicConfig).run (construct none (some [1])) replaces = some t ∧
      t.target = some magicBytes ∧ t.installedBy = some 1 ∧
      Installed magicConfig (some [1]) t := by
  have hresult : ((machine magicConfig).run (construct none (some [1])) replaces).map
      (fun t => (t.target, t.installedBy)) = some (some magicBytes, some 1) := by
    decide +kernel
  obtain ⟨t, hrun, hpair⟩ := Option.map_eq_some_iff.mp hresult
  obtain ⟨htarget, hby⟩ := Prod.mk.inj hpair
  exact ⟨t, hrun, htarget, hby, installed_of_run magicConfig none (some [1]) hrun⟩

/-! ## A call that fails -/

/-- No other call begins, and the process lives on. -/
def withinCall : Action → Bool
  | .download => false
  | .kill => false
  | _ => true

def onTarget : Action → Bool
  | .deleteTarget _ => true
  | .rename _ => true
  | _ => false

section Failure

variable {config : Config} {s next t : State} {actions : List Action}

/-- Behind the end of a call there is nothing left to do. -/
theorem step_idle {action : Action} (hphase : s.phase = .idle) (hwithin : withinCall action = true)
    (hstep : (machine config).step s action = some next) :
    onTarget action = false ∧ next.phase = .idle ∧ next.target = s.target ∧
      next.state = s.state := by
  cases action with
  | cancel =>
      cases hstep
      exact ⟨rfl, hphase, rfl, rfl⟩
  | download => cases hwithin
  | kill => cases hwithin
  | fault message => simp [machine, step, fault, hphase] at hstep
  | _ => simp [machine, step, hphase] at hstep

theorem run_idle (hphase : s.phase = .idle) (hwithin : ∀ a ∈ actions, withinCall a = true)
    (hrun : (machine config).run s actions = some t) :
    (∀ a ∈ actions, onTarget a = false) ∧ t.target = s.target ∧ t.state = s.state := by
  induction actions generalizing s with
  | nil =>
      cases hrun
      exact ⟨fun _ hmem => absurd hmem List.not_mem_nil, rfl, rfl⟩
  | cons action actions ih =>
      obtain ⟨next, hstep, hrest⟩ := ((machine config).run_cons_eq_some).mp hrun
      obtain ⟨hfirst, hidle, htarget, hstate⟩ :=
        step_idle hphase (hwithin action List.mem_cons_self) hstep
      obtain ⟨hnone, hsame, hkept⟩ :=
        ih hidle (fun a hmem => hwithin a (List.mem_cons_of_mem action hmem)) hrest
      refine ⟨?_, hsame.trans htarget, hkept.trans hstate⟩
      intro a hmem
      rcases List.mem_cons.mp hmem with rfl | hlater
      · exact hfirst
      · exact hnone a hlater

/-- A call that is about to rename fails in the rename, or not at all. -/
theorem run_moving (hphase : s.phase = .moving) (hwithin : ∀ a ∈ actions, withinCall a = true)
    (hrun : (machine config).run s actions = some t) (hended : t.phase = .idle)
    (hfailed : t.state ≠ .completed) :
    .rename false ∈ actions ∧ (∀ deleted, .deleteTarget deleted ∉ actions) ∧
      t.target = s.target := by
  induction actions generalizing s with
  | nil =>
      cases hrun
      rw [hphase] at hended
      cases hended
  | cons action actions ih =>
      obtain ⟨next, hstep, hrest⟩ := ((machine config).run_cons_eq_some).mp hrun
      have hlater := fun a hmem => hwithin a (List.mem_cons_of_mem action hmem)
      cases action with
      | cancel =>
          cases hstep
          obtain ⟨hrename, hnone, htarget⟩ := ih (by exact hphase) hlater hrest
          exact ⟨List.mem_cons_of_mem _ hrename, fun deleted => by simp [hnone deleted], htarget⟩
      | rename renamed =>
          simp only [machine, step, hphase, Option.some.injEq] at hstep
          subst hstep
          cases renamed with
          | true => exact absurd (run_idle rfl hlater hrest).2.2 hfailed
          | false =>
              obtain ⟨hnone, htarget, -⟩ := run_idle rfl hlater hrest
              refine ⟨List.mem_cons_self, fun deleted hmem => ?_, htarget⟩
              rcases List.mem_cons.mp hmem with heq | hmem
              · cases heq
              · exact Bool.noConfusion (hnone _ hmem)
      | download => cases hwithin _ List.mem_cons_self
      | kill => cases hwithin _ List.mem_cons_self
      | fault message => simp [machine, step, fault, hphase] at hstep
      | _ => simp [machine, step, hphase] at hstep

/-- Before the rename a call deletes the target or leaves it alone. -/
theorem step_early {action : Action} (hidle : s.phase ≠ .idle) (hmoving : s.phase ≠ .moving)
    (hwithin : withinCall action = true)
    (hstep : (machine config).step s action = some next) :
    (∃ deleted, action = .deleteTarget deleted ∧ next = deleteTarget s deleted) ∨
      (onTarget action = false ∧ next.target = s.target ∧ next.phase ≠ .moving) := by
  cases moves_of_step hstep with
  | cancel => exact .inr ⟨rfl, rfl, hmoving⟩
  | kill => cases hwithin
  | fault message state => exact .inr ⟨rfl, rfl, Phase.noConfusion⟩
  | download hphase => exact absurd hphase hidle
  | request hphase => exact .inr ⟨rfl, rfl, Phase.noConfusion⟩
  | respond response hphase =>
      refine .inr ⟨rfl, ?_⟩
      unfold receive
      split_ifs
      · split
        · exact ⟨rfl, Phase.noConfusion⟩
        · exact ⟨rfl, Phase.noConfusion⟩
      · exact ⟨rfl, Phase.noConfusion⟩
  | openPart hphase => exact .inr ⟨rfl, rfl, Phase.noConfusion⟩
  | truncate hphase => exact .inr ⟨rfl, rfl, Phase.noConfusion⟩
  | check hphase =>
      refine .inr ⟨rfl, ?_⟩
      unfold check
      split_ifs
      · exact ⟨rfl, Phase.noConfusion⟩
      · exact ⟨rfl, Phase.noConfusion⟩
  | read hphase hpos hrest => exact .inr ⟨rfl, rfl, Phase.noConfusion⟩
  | eof hphase hrest => exact .inr ⟨rfl, rfl, Phase.noConfusion⟩
  | @write chunk transfer n hphase hpos hchunk =>
      refine .inr ⟨rfl, ?_⟩
      by_cases hmore : n < chunk.length
      · rw [write, if_pos hmore]
        exact ⟨rfl, Phase.noConfusion⟩
      · rw [write, if_neg hmore]
        exact ⟨rfl, Phase.noConfusion⟩
  | verifyMagic hphase =>
      refine .inr ⟨rfl, ?_⟩
      unfold verifyMagic
      split_ifs
      · exact ⟨rfl, Phase.noConfusion⟩
      · exact ⟨rfl, Phase.noConfusion⟩
      · exact ⟨rfl, Phase.noConfusion⟩
  | verifySha hphase =>
      refine .inr ⟨rfl, ?_⟩
      unfold verifySha
      split_ifs
      · exact ⟨rfl, Phase.noConfusion⟩
      · exact ⟨rfl, Phase.noConfusion⟩
  | deletePart deleted hphase => exact .inr ⟨rfl, rfl, Phase.noConfusion⟩
  | deleteTarget deleted hphase => exact .inl ⟨deleted, rfl, rfl⟩
  | rename renamed hphase => exact absurd hphase hmoving

/-- What is left of the target when a call has failed. -/
theorem run_early (hidle : s.phase ≠ .idle) (hmoving : s.phase ≠ .moving)
    (hwithin : ∀ a ∈ actions, withinCall a = true)
    (hrun : (machine config).run s actions = some t) (hended : t.phase = .idle)
    (hfailed : t.state ≠ .completed) :
    t.target =
      if .deleteTarget true ∈ actions ∧ .rename false ∈ actions then none else s.target := by
  induction actions generalizing s with
  | nil =>
      cases hrun
      exact absurd hended hidle
  | cons action actions ih =>
      obtain ⟨next, hstep, hrest⟩ := ((machine config).run_cons_eq_some).mp hrun
      have hlater := fun a hmem => hwithin a (List.mem_cons_of_mem action hmem)
      rcases step_early hidle hmoving (hwithin action List.mem_cons_self) hstep with
        ⟨deleted, rfl, rfl⟩ | ⟨hother, htarget, hnext⟩
      · obtain ⟨hrename, hnone, hsame⟩ := run_moving rfl hlater hrest hended hfailed
        rw [hsame]
        cases deleted with
        | true => simp [deleteTarget, hrename]
        | false => simp [deleteTarget, hnone]
      · have hmem : ∀ a, onTarget a = true → (a ∈ action :: actions ↔ a ∈ actions) := by
          intro a honTarget
          rw [List.mem_cons, or_iff_right]
          rintro rfl
          rw [hother] at honTarget
          cases honTarget
        simp only [hmem (.deleteTarget true) rfl, hmem (.rename false) rfl, ← htarget]
        by_cases hover : next.phase = .idle
        · obtain ⟨hnone, hsame, -⟩ := run_idle hover hlater hrest
          rw [hsame, if_neg]
          exact fun hboth => Bool.noConfusion (hnone _ hboth.1)
        · exact ih hover hnext hlater hrest

end Failure

/-- A call of `download` that ends in `Failed` or `Cancelled` leaves the target as it was
exactly if it has not deleted one and then failed to rename. -/
theorem target_kept_iff (config : Config) {s t : State} {actions : List Action}
    (hidle : s.phase = .idle)
    (hrun : (machine config).run s (.download :: actions) = some t)
    (hwithin : ∀ a ∈ actions, withinCall a = true) (hended : t.phase = .idle)
    (hfailed : t.state = .cancelled ∨ ∃ message, t.state = .failed message) :
    t.target = s.target ↔
      ¬ (s.target ≠ none ∧ .deleteTarget true ∈ actions ∧ .rename false ∈ actions) := by
  have hnot : t.state ≠ .completed := by
    rcases hfailed with hcancelled | ⟨message, hmessage⟩
    · simp [hcancelled]
    · simp [hmessage]
  obtain ⟨next, hstep, hrest⟩ := ((machine config).run_cons_eq_some).mp hrun
  simp only [machine, step, hidle, Option.some.injEq] at hstep
  subst hstep
  have htarget := run_early (s := download s) Phase.noConfusion Phase.noConfusion hwithin hrest
    hended hnot
  rw [htarget]
  split_ifs with hboth
  · simp [hboth, eq_comm]
  · simp [download, hboth]

/-- The steps behind the request, to a rename that may fail. -/
def failsToRename : List Action :=
  [.request, .respond ⟨200, none, 4, some magicBytes⟩, .openPart, .truncate, .check, .read 4,
    .write 4, .check, .eof, .verifyMagic, .verifySha, .deleteTarget true, .rename false]

theorem target_kept_absent :
    ∃ t, (machine magicConfig).run (construct none none) (.download :: failsToRename) = some t ∧
      t.target = none := by
  obtain ⟨t, hrun, hphase, hstate⟩ : ∃ t,
      (machine magicConfig).run (construct none none) (.download :: failsToRename) = some t ∧
        t.phase = .idle ∧
        t.state = .failed "failed to finalize the downloaded model (rename failed)" := by
    have hresult : ((machine magicConfig).run (construct none none)
        (.download :: failsToRename)).map (fun t => (t.phase, t.state)) =
          some (.idle, .failed "failed to finalize the downloaded model (rename failed)") := by
      decide +kernel
    obtain ⟨t, hrun, hpair⟩ := Option.map_eq_some_iff.mp hresult
    exact ⟨t, hrun, (Prod.mk.inj hpair).1, (Prod.mk.inj hpair).2⟩
  have hwithin : ∀ a ∈ failsToRename, withinCall a = true := by decide
  exact ⟨t, hrun, (target_kept_iff magicConfig rfl hrun hwithin hphase (.inr ⟨_, hstate⟩)).mpr
    fun hthree => hthree.1 rfl⟩

/-- An installed model is gone when the rename behind its deletion fails. -/
theorem target_lost :
    ((machine magicConfig).run (construct none (some [1])) (.download :: failsToRename)).map
        (fun t => (t.phase, t.state, t.target)) =
      some (.idle, .failed "failed to finalize the downloaded model (rename failed)", none) := by
  decide +kernel

end GgufDownloader

end NativeInterop
