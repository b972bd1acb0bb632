import NativeInterop.LlamaShim
import NativeInterop.SessionStream
import Mathlib.Tactic

/-!
# The llama language model

`LlamaLanguageModel.GenerateAsync` runs the native call on the thread pool.  Its callback
writes every piece into a bounded channel, or drops it if the channel is full; when the
call has returned, the channel is completed.  The iterator yields what it reads from the
channel and awaits the task at the end.  Every interleaving of the two is a run of one
machine.
-/

namespace NativeInterop

/-- The constructor throws unless llama.cpp has given it a handle. -/
structure LlamaLanguageModel (Ctx : Type) where
  handle : ℕ
  loaded : handle ≠ 0
  ctx : Ctx

namespace LlamaLanguageModel

open LlamaShim

/-! ## Texts across the boundary -/

/-- A `string` as a C string: its UTF-8 bytes up to the first NUL. -/
def cString (text : String) : List UInt8 :=
  text.toUTF8.data.toList.takeWhile (· ≠ 0)

/-- A UTF-8 sequence under way: the bytes it still needs and where the next must lie. -/
structure Utf8State where
  codePoint : ℕ := 0
  needed : ℕ := 0
  lower : UInt8 := 0x80
  upper : UInt8 := 0xBF
  deriving DecidableEq, Repr

/-- A byte at the beginning of a sequence. -/
def Utf8State.first (byte : UInt8) : List Char × Utf8State :=
  if byte < 0x80 then ([Char.ofNat byte.toNat], {})
  else if 0xC2 ≤ byte ∧ byte ≤ 0xDF then ([], ⟨byte.toNat - 0xC0, 1, 0x80, 0xBF⟩)
  else if 0xE0 ≤ byte ∧ byte ≤ 0xEF then
    ([], ⟨byte.toNat - 0xE0, 2, if byte = 0xE0 then 0xA0 else 0x80,
      if byte = 0xED then 0x9F else 0xBF⟩)
  else if 0xF0 ≤ byte ∧ byte ≤ 0xF4 then
    ([], ⟨byte.toNat - 0xF0, 3, if byte = 0xF0 then 0x90 else 0x80,
      if byte = 0xF4 then 0x8F else 0xBF⟩)
  else (['\uFFFD'], {})

/-- One byte more: a sequence it does not continue is replaced by U+FFFD. -/
def Utf8State.next (s : Utf8State) (byte : UInt8) : List Char × Utf8State :=
  if s.needed = 0 then first byte
  else if s.lower ≤ byte ∧ byte ≤ s.upper then
    let codePoint := s.codePoint * 0x40 + (byte.toNat - 0x80)
    if s.needed = 1 then ([Char.ofNat codePoint], {})
    else ([], { codePoint := codePoint, needed := s.needed - 1 })
  else ('\uFFFD' :: (first byte).1, (first byte).2)

def Utf8State.decode (s : Utf8State) : List UInt8 → List Char
  | [] => if s.needed = 0 then [] else ['\uFFFD']
  | byte :: rest => (s.next byte).1 ++ decode (s.next byte).2 rest

/-- `Marshal.PtrToStringUTF8`. -/
def ptrToStringUTF8 (bytes : List UInt8) : String :=
  .ofList (Utf8State.decode {} (bytes.takeWhile (· ≠ 0)))

example : ptrToStringUTF8 [0x67, 0xC3, 0xA9, 0xE2, 0x82, 0x41, 0, 0x42] = "gé\uFFFDA" := by
  decide

/-! ## The model and its iterator -/

structure InferenceRequest (Temp : Type) where
  prompt : String
  maxTokens : BitVec 32
  temperature : Temp
  grammar : Option String

variable {Ctx Smpl Token Temp : Type}

def nativeCall (llama : LlamaCpp Ctx Smpl Token Temp) (model : LlamaLanguageModel Ctx)
    (request : InferenceRequest Temp) : NativeResult :=
  generate llama model.handle model.ctx (some (cString request.prompt))
    request.maxTokens.toInt request.temperature (request.grammar.map cString)

/-- `GenerateUnsafe`: the pieces its callback receives, and whether it throws.  The code
of the native call goes nowhere. -/
def generateUnsafe (native : NativeResult) : List (List UInt8) × Bool :=
  (native.pieces, false)

/-- The task with the callbacks to come, the channel, what the iterator has yielded, and
how it has ended. -/
structure Bridge where
  callbacks : List (List UInt8)
  throws : Bool
  running : Bool
  channel : BoundedChannel String
  yielded : List String
  ended : Option Bool

inductive BridgeAct where
  | piece
  | complete
  | read
  | finish
  deriving DecidableEq, Repr

def Bridge.start (native : NativeResult) : Bridge where
  callbacks := (generateUnsafe native).1
  throws := (generateUnsafe native).2
  running := true
  channel := .create 256
  yielded := []
  ended := none

/-- `OnPiece`: the write does not wait, so a piece that finds no room is gone. -/
def onPiece (channel : BoundedChannel String) (bytes : List UInt8) : BoundedChannel String :=
  let text := ptrToStringUTF8 bytes
  if text = "" then channel else (channel.tryWrite text).getD channel

def bridgeStep (s : Bridge) : BridgeAct → Option Bridge
  | .piece =>
      match s.callbacks with
      | [] => none
      | bytes :: rest =>
          some { s with callbacks := rest, channel := onPiece s.channel bytes }
  | .complete =>
      if s.callbacks = [] ∧ s.running = true then
        some { s with running := false, channel := s.channel.tryComplete .finished }
      else none
  | .read =>
      if s.ended = none then
        s.channel.tryRead.map fun (text, channel) =>
          { s with channel := channel, yielded := s.yielded ++ [text] }
      else none
  | .finish =>
      if s.ended = none ∧ s.channel.items = [] ∧ s.channel.completion ≠ none ∧
          s.running = false then
        some { s with ended := some s.throws }
      else none

def bridge : Machine Bridge BridgeAct := ⟨bridgeStep⟩

/-- Some interleaving of the task and the iterator ends with this generation. -/
def Generates (llama : LlamaCpp Ctx Smpl Token Temp) (model : LlamaLanguageModel Ctx)
    (request : InferenceRequest Temp) (generation : Generation) : Prop :=
  ∃ acts s, bridge.run (.start (nativeCall llama model request)) acts = some s ∧
    s.ended = some generation.faults ∧ s.yielded = generation.fragments

/-! ## The iterator ends, and it never throws -/

/-- The task has not thrown, and has completed the channel if it has ended. -/
structure Bridge.Sound (s : Bridge) : Prop where
  quiet : s.throws = false
  completed : s.running = false → s.channel.completion ≠ none
  ended : ∀ faults, s.ended = some faults → faults = false

theorem start_sound (native : NativeResult) : (Bridge.start native).Sound := by
  constructor <;> simp [Bridge.start, generateUnsafe]

theorem onPiece_completion (channel : BoundedChannel String) (bytes : List UInt8) :
    (onPiece channel bytes).completion = channel.completion := by
  unfold onPiece
  dsimp only
  split_ifs
  · rfl
  · cases hwrite : channel.tryWrite (ptrToStringUTF8 bytes) with
    | none => rfl
    | some next => exact (BoundedChannel.tryWrite_eq_some hwrite).2.1

theorem length_onPiece_le (channel : BoundedChannel String) (bytes : List UInt8) :
    (onPiece channel bytes).items.length ≤ channel.items.length + 1 := by
  unfold onPiece
  dsimp only
  split_ifs
  · exact Nat.le_succ _
  · cases hwrite : channel.tryWrite (ptrToStringUTF8 bytes) with
    | none => exact Nat.le_succ _
    | some next =>
        rw [Option.getD_some, (BoundedChannel.tryWrite_eq_some hwrite).1, List.length_append]
        exact le_rfl

theorem Bridge.Sound.step {s next : Bridge} {act : BridgeAct} (hsound : s.Sound)
    (hstep : bridge.step s act = some next) : next.Sound := by
  cases act with
  | piece =>
      simp only [bridge, bridgeStep] at hstep
      split at hstep
      · cases hstep
      · cases hstep
        exact ⟨hsound.quiet, by simpa [onPiece_completion] using hsound.completed, hsound.ended⟩
  | complete =>
      simp only [bridge, bridgeStep] at hstep
      split_ifs at hstep
      cases hstep
      exact ⟨hsound.quiet, by simp [BoundedChannel.tryComplete], hsound.ended⟩
  | read =>
      simp only [bridge, bridgeStep] at hstep
      split_ifs at hstep
      obtain ⟨⟨text, channel⟩, hread, rfl⟩ := Option.map_eq_some_iff.mp hstep
      have hcompletion := (BoundedChannel.tryRead_eq_some hread).2.1
      exact ⟨hsound.quiet, by simpa [hcompletion] using hsound.completed, hsound.ended⟩
  | finish =>
      simp only [bridge, bridgeStep] at hstep
      split_ifs at hstep
      cases hstep
      refine ⟨hsound.quiet, hsound.completed, ?_⟩
      rintro faults hended
      rw [← Option.some.inj hended, hsound.quiet]

/-- What is left to be done: two actions for a piece, one for each item of the channel,
and the two ends. -/
def Bridge.rank (s : Bridge) : ℕ :=
  2 * s.callbacks.length + s.channel.items.length + (if s.running then 1 else 0) +
    if s.ended = none then 1 else 0

theorem rank_of_step {s next : Bridge} {act : BridgeAct}
    (hstep : bridge.step s act = some next) : next.rank < s.rank := by
  cases act with
  | piece =>
      simp only [bridge, bridgeStep] at hstep
      split at hstep
      · cases hstep
      · next bytes rest hcallbacks =>
          cases hstep
          have hlength := length_onPiece_le s.channel bytes
          simp only [Bridge.rank, hcallbacks, List.length_cons]
          omega
  | complete =>
      simp only [bridge, bridgeStep] at hstep
      split_ifs at hstep with hreturned
      cases hstep
      simp [Bridge.rank, hreturned.2]
  | read =>
      simp only [bridge, bridgeStep] at hstep
      split_ifs at hstep
      obtain ⟨⟨text, channel⟩, hread, rfl⟩ := Option.map_eq_some_iff.mp hstep
      have hitems := (BoundedChannel.tryRead_eq_some hread).1
      simp [Bridge.rank, hitems]
  | finish =>
      simp only [bridge, bridgeStep] at hstep
      split_ifs at hstep with hend
      cases hstep
      simp [Bridge.rank, hend.1]

theorem Bridge.Sound.enabled {s : Bridge} (hsound : s.Sound) (hended : ¬ s.ended.isSome) :
    ∃ act, (bridge.step s act).isSome := by
  have hnone : s.ended = none := by simpa using hended
  cases hcallbacks : s.callbacks with
  | cons bytes rest => exact ⟨.piece, by simp [bridge, bridgeStep, hcallbacks]⟩
  | nil =>
      cases hrunning : s.running with
      | true => exact ⟨.complete, by simp [bridge, bridgeStep, hcallbacks, hrunning]⟩
      | false =>
          cases hread : s.channel.tryRead with
          | some result => exact ⟨.read, by simp [bridge, bridgeStep, hnone, hread]⟩
          | none =>
              have hitems := BoundedChannel.tryRead_eq_none_iff.mp hread
              have hcompleted := hsound.completed hrunning
              exact ⟨.finish, by simp [bridge, bridgeStep, hnone, hitems, hcompleted, hrunning]⟩

/-- Every run can be continued to an end of the iterator. -/
theorem exists_complete_run {s : Bridge} (hsound : s.Sound) :
    ∃ acts t, bridge.run s acts = some t ∧ t.ended.isSome := by
  refine bridge.exists_run (I := Bridge.Sound) Bridge.rank ?_ hsound
  intro s hsound hended
  obtain ⟨act, henabled⟩ := hsound.enabled hended
  obtain ⟨next, hnext⟩ := Option.isSome_iff_exists.mp henabled
  exact ⟨act, next, hnext, hsound.step hnext, rank_of_step hnext⟩

/-- Every request comes to a generation. -/
theorem exists_generates (llama : LlamaCpp Ctx Smpl Token Temp) (model : LlamaLanguageModel Ctx)
    (request : InferenceRequest Temp) : ∃ generation, Generates llama model request generation := by
  obtain ⟨acts, s, hrun, hended⟩ :=
    exists_complete_run (start_sound (nativeCall llama model request))
  obtain ⟨faults, hfaults⟩ := Option.isSome_iff_exists.mp hended
  exact ⟨⟨s.yielded, faults⟩, acts, s, hrun, hfaults, rfl⟩

theorem Generates.faults_eq {llama : LlamaCpp Ctx Smpl Token Temp}
    {model : LlamaLanguageModel Ctx} {request : InferenceRequest Temp} {generation : Generation}
    (hgenerates : Generates llama model request generation) : generation.faults = false := by
  obtain ⟨acts, s, hrun, hended, _⟩ := hgenerates
  have hsound := bridge.run_invariant_of_step
    (fun _ _ _ hsound hstep => Bridge.Sound.step hsound hstep) (start_sound _) hrun
  exact hsound.ended _ hended

/-! ## Failed calls -/

/-- A failed native call faults the generation, and no consumer of a session built on it
receives a final marker or meets the end of a finished channel; whoever does receive the
marker has it from a call that returned 0. -/
def ReportsFailure (llama : LlamaCpp Ctx Smpl Token Temp) (model : LlamaLanguageModel Ctx)
    (request : InferenceRequest Temp) : Prop :=
  ∀ generation, Generates llama model request generation →
    ((nativeCall llama model request).code < 0 → generation.faults = true) ∧
    ∀ capacity acts s,
      SessionStream.machine.run (.start capacity generation) acts = some s →
      (∀ act ∈ acts, act.works = true) →
      ((nativeCall llama model request).code < 0 →
        (∀ token ∈ s.received, token.isFinal = false) ∧
          ∀ completion, s.outcome = some completion → completion = .faulted) ∧
      ∀ token ∈ s.received, token.isFinal = true → (nativeCall llama model request).code = 0

/-- Failures are reported exactly where there are none: where llama.cpp tokenizes the
prompt, takes the grammar, and decodes and spells every token. -/
theorem reportsFailure_iff (llama : LlamaCpp Ctx Smpl Token Temp)
    (model : LlamaLanguageModel Ctx) (request : InferenceRequest Temp) :
    ReportsFailure llama model request ↔
      Succeeds llama model.ctx (cString request.prompt) request.maxTokens.toInt
        request.temperature (request.grammar.map cString) := by
  have hcode : (nativeCall llama model request).code = 0 ↔ _ :=
    generate_code_eq_zero_iff llama model.loaded model.ctx (cString request.prompt)
      request.maxTokens.toInt request.temperature (request.grammar.map cString)
  rw [← hcode]
  constructor
  · intro hreports
    by_contra hfailed
    have hnonpos : (nativeCall llama model request).code ≤ 0 := generate_code_nonpos ..
    obtain ⟨generation, hgenerates⟩ := exists_generates llama model request
    have hfaults := (hreports generation hgenerates).1 (by omega)
    rw [hgenerates.faults_eq] at hfaults
    cases hfaults
  · intro hzero generation _
    refine ⟨by omega, ?_⟩
    intro capacity acts s _ _
    exact ⟨by omega, fun _ _ _ => hzero⟩

/-- A context with room for one batch. -/
def cramped : LlamaCpp ℕ Unit Unit Unit where
  memoryClear := fun _ => 0
  tokenize := fun _ room => if room = 0 then (-1, []) else (1, [()])
  initGrammar := fun _ => some ()
  chain := fun _ _ => ()
  decode := fun ctx _ => if ctx = 0 then (0, 1) else (1, ctx)
  sample := fun _ _ => ((), ())
  isEog := fun _ => false
  tokenToPiece := fun _ => (2, [0x48, 0x69])

def crampedModel : LlamaLanguageModel ℕ where
  handle := 1
  loaded := Nat.one_ne_zero
  ctx := 0

def hello : InferenceRequest Unit where
  prompt := "hello"
  maxTokens := 256
  temperature := ()
  grammar := none

theorem nativeCall_cramped : nativeCall cramped crampedModel hello = ⟨[[0x48, 0x69]], -3⟩ := by
  have hfirst := Loop.run_of_inl (loop cramped 256) (s := ⟨0, (), [()], 0, []⟩) rfl
  exact hfirst.trans (Loop.run_of_inr _ rfl)

/-- The second batch cannot be decoded, and the consumer receives the final marker. -/
theorem failure_unreported :
    (nativeCall cramped crampedModel hello).code = -3 ∧
    Generates cramped crampedModel hello ⟨["Hi"], false⟩ ∧
    (∃ s, SessionStream.machine.run (.start 64 ⟨["Hi"], false⟩)
        [.pump .fetch, .pump .enterWrite, .pump .write, .pump .fetch, .pump .enterWrite,
          .pump .write, .pump .fetch, .read, .read, .finish] = some s ∧
      s.received = [⟨0, "Hi", false⟩, .final 1] ∧ s.outcome = some .finished) ∧
    ¬ ReportsFailure cramped crampedModel hello := by
  have hgenerates : Generates cramped crampedModel hello ⟨["Hi"], false⟩ := by
    rw [Generates, nativeCall_cramped]
    exact ⟨[.piece, .complete, .read, .finish], _, rfl, rfl, rfl⟩
  refine ⟨?_, hgenerates, ⟨_, rfl, rfl, rfl⟩, ?_⟩
  · rw [nativeCall_cramped]
  · intro hreports
    have hfaults := (hreports _ hgenerates).1
    rw [nativeCall_cramped] at hfaults
    exact absurd (hfaults (by decide)) (by decide)

end LlamaLanguageModel

end NativeInterop
