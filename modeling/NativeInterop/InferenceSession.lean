import NativeInterop.BoundedChannel
import Mathlib.Tactic

/-!
# One inference session

`InferenceOrchestrator.RunAsync` numbers the fragments of a model and appends a
final marker; `InferenceSession.PumpAsync` moves the resulting tokens into a
bounded channel.  One action of the pump is one return of an awaited call: the
iterator's `MoveNextAsync`, the entry of `WriteAsync`, which looks at the
cancellation token, and the write itself, which waits for room.
-/

namespace NativeInterop

structure InferenceToken where
  index : BitVec 32
  text : String
  isFinal : Bool
  deriving DecidableEq, Repr

def InferenceToken.final (index : BitVec 32) : InferenceToken where
  index := index
  text := ""
  isFinal := true

structure Generation where
  fragments : List String
  faults : Bool
  deriving DecidableEq, Repr

namespace InferenceOrchestrator

/-- `RunAsync` from the given index on: a fault leaves no final marker. -/
def runFrom (faults : Bool) : BitVec 32 → List String → List InferenceToken
  | index, [] => if faults then [] else [.final index]
  | index, fragment :: rest =>
      ⟨index, fragment, false⟩ :: runFrom faults (index + 1) rest

def run (generation : Generation) : List InferenceToken :=
  runFrom generation.faults 0 generation.fragments

/-- The fragments under their positions, as the `int` counter holds them. -/
def tokens (fragments : List String) : List InferenceToken :=
  fragments.mapIdx fun i fragment => ⟨BitVec.ofNat 32 i, fragment, false⟩

/-- The whole answer: every fragment, then the final marker. -/
def stream (fragments : List String) : List InferenceToken :=
  tokens fragments ++ [.final (BitVec.ofNat 32 fragments.length)]

theorem runFrom_eq (faults : Bool) (k : ℕ) (fragments : List String) :
    runFrom faults (BitVec.ofNat 32 k) fragments =
      fragments.mapIdx (fun i fragment => ⟨BitVec.ofNat 32 (k + i), fragment, false⟩) ++
        if faults then [] else [.final (BitVec.ofNat 32 (k + fragments.length))] := by
  induction fragments generalizing k with
  | nil => simp [runFrom]
  | cons fragment rest ih =>
      have hnext : BitVec.ofNat 32 k + 1 = BitVec.ofNat 32 (k + 1) := by
        simp [BitVec.ofNat_add]
      rw [runFrom, hnext, ih (k + 1)]
      simp [List.mapIdx_cons, Nat.add_assoc, Nat.add_comm 1]

theorem run_eq (generation : Generation) :
    run generation =
      tokens generation.fragments ++
        if generation.faults then []
        else [.final (BitVec.ofNat 32 generation.fragments.length)] := by
  have hzero := runFrom_eq generation.faults 0 generation.fragments
  simpa [run, tokens] using hzero

theorem run_isPrefix_stream (generation : Generation) :
    run generation <+: stream generation.fragments := by
  rw [run_eq, stream]
  cases generation.faults with
  | true => simp
  | false => simp

theorem length_stream (fragments : List String) :
    (stream fragments).length = fragments.length + 1 := by
  simp [stream, tokens]

/-- A token's index is its position, as far as 32 bits can tell. -/
theorem index_of_getElem?_stream {fragments : List String} {i : ℕ} {token : InferenceToken}
    (htoken : (stream fragments)[i]? = some token) : token.index = BitVec.ofNat 32 i := by
  have hlength : (tokens fragments).length = fragments.length := by simp [tokens]
  rcases Nat.lt_or_ge i fragments.length with hlt | hge
  · rw [stream, List.getElem?_append_left (by omega)] at htoken
    simp only [tokens, List.getElem?_mapIdx, List.getElem?_eq_getElem hlt, Option.map_some,
      Option.some.injEq] at htoken
    rw [← htoken]
  · have hend : i = fragments.length := by
      have hbound := (List.getElem?_eq_some_iff.mp htoken).1
      rw [length_stream] at hbound
      omega
    rw [hend, stream, ← hlength, List.getElem?_concat_length] at htoken
    rw [← Option.some.inj htoken, hend, ← hlength]
    rfl

theorem isFinal_of_mem_tokens {fragments : List String} {token : InferenceToken}
    (hmem : token ∈ tokens fragments) : token.isFinal = false := by
  obtain ⟨i, hi, htoken⟩ := List.mem_mapIdx.mp hmem
  rw [← htoken]

/-- The final marker is the last token: whoever has it has everything. -/
theorem eq_stream_of_final {fragments : List String} {taken : List InferenceToken}
    {token : InferenceToken} (htaken : taken <+: stream fragments)
    (hmem : token ∈ taken) (hfinal : token.isFinal = true) :
    taken = stream fragments := by
  rcases List.prefix_concat_iff.mp htaken with hall | hpart
  · exact hall
  · have hfalse := isFinal_of_mem_tokens (hpart.subset hmem)
    rw [hfinal] at hfalse
    cases hfalse

/-- Nothing before the last token of an answer is final. -/
theorem countP_isFinal_init {fragments : List String} {taken : List InferenceToken}
    {token : InferenceToken} (htaken : taken ++ [token] <+: stream fragments) :
    taken.countP InferenceToken.isFinal = 0 := by
  rw [List.countP_eq_zero]
  intro final hmem hfinal
  have hall := eq_stream_of_final ((List.prefix_append taken [token]).trans htaken) hmem hfinal
  have hlength := htaken.length_le
  rw [← hall, List.length_append, List.length_singleton] at hlength
  omega

theorem filter_isFinal_stream (fragments : List String) :
    (stream fragments).filter InferenceToken.isFinal =
      [.final (BitVec.ofNat 32 fragments.length)] := by
  have htokens : (tokens fragments).filter InferenceToken.isFinal = [] := by
    rw [List.filter_eq_nil_iff]
    intro token hmem
    simp [isFinal_of_mem_tokens hmem]
  rw [stream, List.filter_append, htokens]
  rfl

end InferenceOrchestrator

/-- Where `PumpAsync` stands, with the tokens the iterator has still to yield. -/
inductive Pump where
  | fetching (rest : List InferenceToken)
  | offering (token : InferenceToken) (rest : List InferenceToken)
  | writing (token : InferenceToken) (rest : List InferenceToken)
  | done
  deriving DecidableEq, Repr

/-- What the pump does next.  `cancelFetch` is the iterator throwing
`OperationCanceledException`, `cancelWrite` a waiting write doing so. -/
inductive PumpAct where
  | fetch
  | cancelFetch
  | enterWrite
  | write
  | cancelWrite
  deriving DecidableEq, Repr

structure InferenceSession where
  channel : BoundedChannel InferenceToken
  faults : Bool
  pump : Pump
  cancelled : Bool
  deriving DecidableEq

namespace InferenceSession

/-- `InferenceSession.Start`. -/
def startBounded (capacity : ℕ) (generation : Generation) : InferenceSession where
  channel := .create capacity
  faults := generation.faults
  pump := .fetching (InferenceOrchestrator.run generation)
  cancelled := false

/-- `InferenceSession.Start`, with its default capacity. -/
def start (generation : Generation) : InferenceSession :=
  startBounded 64 generation

def complete (session : InferenceSession) (completion : Completion) :
    InferenceSession :=
  { session with
    channel := session.channel.tryComplete completion
    pump := .done }

def pumpStep (session : InferenceSession) (act : PumpAct) :
    Option InferenceSession :=
  match act, session.pump with
  | .fetch, .fetching (token :: rest) =>
      some { session with pump := .offering token rest }
  | .fetch, .fetching [] =>
      some (session.complete (if session.faults then .faulted else .finished))
  | .cancelFetch, .fetching _ =>
      if session.cancelled then some (session.complete .finished) else none
  | .enterWrite, .offering token rest =>
      if session.cancelled then some (session.complete .finished)
      else some { session with pump := .writing token rest }
  | .write, .writing token rest =>
      (session.channel.tryWrite token).map fun channel =>
        { session with channel := channel, pump := .fetching rest }
  | .cancelWrite, .writing _ _ =>
      if session.cancelled ∧ session.channel.capacity ≤ session.channel.items.length
      then some (session.complete .finished)
      else none
  | _, _ => none

def cancel (session : InferenceSession) : InferenceSession :=
  { session with cancelled := true }

def read (session : InferenceSession) : Option (InferenceToken × InferenceSession) :=
  session.channel.tryRead.map fun (token, channel) =>
    (token, { session with channel := channel })

def ended (session : InferenceSession) : Prop :=
  session.channel.items = [] ∧ session.channel.completion ≠ none

instance (session : InferenceSession) : Decidable session.ended :=
  inferInstanceAs (Decidable (_ ∧ _))

/-- What the pump has still to put into the channel. -/
def unwritten (session : InferenceSession) : List InferenceToken :=
  match session.pump with
  | .fetching rest => rest
  | .offering token rest => token :: rest
  | .writing token rest => token :: rest
  | .done => []

/-- What the consumer has still to read: the channel, and what is behind it. -/
def pending (session : InferenceSession) : List InferenceToken :=
  session.channel.items ++ session.unwritten

/-- How `PumpAsync` completes the channel when it is not cancelled. -/
def ending (session : InferenceSession) : Completion :=
  if session.faults then .faulted else .finished

/-- The pump may still put a token into the channel. -/
def mayWrite (session : InferenceSession) : Bool :=
  match session.pump with
  | .fetching rest => !session.cancelled && !rest.isEmpty
  | .offering _ _ => !session.cancelled
  | .writing _ _ => true
  | .done => false

/-- Nothing is left to be read, now or later. -/
def Exhausted (session : InferenceSession) : Prop :=
  session.mayWrite = false ∧ session.channel.items = []

instance (session : InferenceSession) : Decidable session.Exhausted :=
  inferInstanceAs (Decidable (_ ∧ _))

/-- Everything one action of the pump can do: move a token on, end because the
iterator has ended, or drop what is left because the session is cancelled. -/
theorem pumpStep_cases {session next : InferenceSession} {act : PumpAct}
    (hstep : session.pumpStep act = some next) :
    (next.pending = session.pending ∧ next.pump ≠ .done ∧ session.pump ≠ .done ∧
      next.channel.completion = session.channel.completion ∧
      next.channel.capacity = session.channel.capacity ∧
      next.faults = session.faults ∧ next.cancelled = session.cancelled) ∨
    (session.pump = .fetching [] ∧ next = session.complete session.ending) ∨
    (session.cancelled = true ∧ session.pump ≠ .done ∧
      next = session.complete .finished) := by
  unfold pumpStep at hstep
  split at hstep
  · next token rest hpump =>
      cases hstep
      left
      simp [pending, unwritten, hpump]
  · next hpump =>
      cases hstep
      exact Or.inr (Or.inl ⟨hpump, rfl⟩)
  · next rest hpump =>
      split_ifs at hstep with hcancelled
      cases hstep
      exact Or.inr (Or.inr ⟨hcancelled, by simp [hpump], rfl⟩)
  · next token rest hpump =>
      split_ifs at hstep with hcancelled
      · cases hstep
        exact Or.inr (Or.inr ⟨hcancelled, by simp [hpump], rfl⟩)
      · cases hstep
        left
        simp [pending, unwritten, hpump]
  · next token rest hpump =>
      obtain ⟨channel, hwrite, rfl⟩ := Option.map_eq_some_iff.mp hstep
      obtain ⟨hitems, hcompletion, hcapacity⟩ := BoundedChannel.tryWrite_eq_some hwrite
      left
      simp [pending, unwritten, hpump, hitems, hcompletion, hcapacity]
  · next token rest hpump =>
      split_ifs at hstep with hfull
      cases hstep
      exact Or.inr (Or.inr ⟨hfull.1, by simp [hpump], rfl⟩)
  · cases hstep

theorem pumpStep_done {session : InferenceSession} (act : PumpAct)
    (hdone : session.pump = .done) : session.pumpStep act = none := by
  unfold pumpStep
  rw [hdone]
  cases act <;> rfl

theorem mayWrite_done {session : InferenceSession} (hdone : session.pump = .done) :
    session.mayWrite = false := by
  rw [mayWrite, hdone]

@[simp] theorem mayWrite_complete (session : InferenceSession)
    (completion : Completion) : (session.complete completion).mayWrite = false := rfl

/-- A pump that may not write never will, and leaves the channel alone. -/
theorem pumpStep_exhausted {session next : InferenceSession} {act : PumpAct}
    (hstep : session.pumpStep act = some next) (hexhausted : session.Exhausted) :
    next.Exhausted := by
  obtain ⟨hsilent, hitems⟩ := hexhausted
  unfold pumpStep at hstep
  unfold mayWrite at hsilent
  split at hstep
  · next token rest hpump =>
      cases hstep
      simp only [hpump, List.isEmpty_cons, Bool.not_false, Bool.and_true] at hsilent
      exact ⟨hsilent, hitems⟩
  · cases hstep
    exact ⟨rfl, hitems⟩
  · split_ifs at hstep
    cases hstep
    exact ⟨rfl, hitems⟩
  · next token rest hpump =>
      split_ifs at hstep with hcancelled
      · cases hstep
        exact ⟨rfl, hitems⟩
      · simp [hpump, hcancelled] at hsilent
  · next token rest hpump => simp [hpump] at hsilent
  · next token rest hpump => simp [hpump] at hsilent
  · cases hstep

theorem cancel_exhausted {session : InferenceSession} (hexhausted : session.Exhausted) :
    session.cancel.Exhausted := by
  obtain ⟨hsilent, hitems⟩ := hexhausted
  refine ⟨?_, hitems⟩
  unfold mayWrite cancel at *
  cases hpump : session.pump with
  | fetching rest => simp
  | offering token rest => simp
  | writing token rest => simp [hpump] at hsilent
  | done => simp

theorem read_exhausted {session : InferenceSession} (hexhausted : session.Exhausted) :
    session.read = none := by
  unfold read
  rw [BoundedChannel.tryRead_eq_none_iff.mpr hexhausted.2]
  rfl

theorem read_eq_some {session next : InferenceSession} {token : InferenceToken}
    (hread : session.read = some (token, next)) :
    session.pending = token :: next.pending ∧ next.pump = session.pump ∧
      next.channel.completion = session.channel.completion ∧
      next.channel.capacity = session.channel.capacity ∧
      next.faults = session.faults ∧ next.cancelled = session.cancelled := by
  obtain ⟨⟨first, channel⟩, hchannel, heq⟩ := Option.map_eq_some_iff.mp hread
  cases heq
  obtain ⟨hitems, hcompletion, hcapacity⟩ := BoundedChannel.tryRead_eq_some hchannel
  simp [pending, unwritten, hitems, hcompletion, hcapacity]

/-! ## Nothing is lost and nothing is made up -/

/-- The session has handed out `taken`.  Together with what is still to come this
is a beginning of what the orchestrator yields, and all of it as long as nobody
has cancelled; the channel is completed exactly by the end of the pump. -/
structure Delivers (capacity : ℕ) (generation : Generation)
    (taken : List InferenceToken) (session : InferenceSession) : Prop where
  capacity_eq : session.channel.capacity = capacity
  faults_eq : session.faults = generation.faults
  open_iff : session.channel.completion = none ↔ session.pump ≠ .done
  isPrefix : taken ++ session.pending <+: InferenceOrchestrator.run generation
  whole : session.cancelled = false →
    taken ++ session.pending = InferenceOrchestrator.run generation
  ends : session.cancelled = false → ∀ completion,
    session.channel.completion = some completion → completion = session.ending

theorem startBounded_delivers (capacity : ℕ) (generation : Generation) :
    Delivers capacity generation [] (startBounded capacity generation) := by
  constructor <;>
    simp [startBounded, BoundedChannel.create, pending, unwritten]

theorem Delivers.completion_none {capacity : ℕ} {generation : Generation}
    {taken : List InferenceToken} {session : InferenceSession}
    (hdelivers : Delivers capacity generation taken session)
    (hpump : session.pump ≠ .done) : session.channel.completion = none :=
  hdelivers.open_iff.mpr hpump

theorem Delivers.pumpStep {capacity : ℕ} {generation : Generation}
    {taken : List InferenceToken} {session next : InferenceSession} {act : PumpAct}
    (hdelivers : Delivers capacity generation taken session)
    (hstep : session.pumpStep act = some next) :
    Delivers capacity generation taken next := by
  rcases pumpStep_cases hstep with
    ⟨hpending, hnext, hpump, hcompletion, hcapacity, hfaults, hcancelled⟩ |
    ⟨hpump, rfl⟩ | ⟨hcancelled, hpump, rfl⟩
  · have hending : next.ending = session.ending := by simp [ending, hfaults]
    constructor
    · rw [hcapacity, hdelivers.capacity_eq]
    · rw [hfaults, hdelivers.faults_eq]
    · simp [hcompletion, hdelivers.completion_none hpump, hnext]
    · rw [hpending]
      exact hdelivers.isPrefix
    · rw [hcancelled, hpending]
      exact hdelivers.whole
    · rw [hcancelled, hcompletion, hending]
      exact hdelivers.ends
  · have hopen := hdelivers.completion_none (by simp [hpump])
    have hpending : (session.complete session.ending).pending = session.pending := by
      simp [pending, unwritten, complete, hpump]
    constructor
    · exact hdelivers.capacity_eq
    · exact hdelivers.faults_eq
    · simp [complete, BoundedChannel.tryComplete]
    · rw [hpending]
      exact hdelivers.isPrefix
    · rw [hpending]
      exact hdelivers.whole
    · intro _ completion hcompletion
      simp only [complete, BoundedChannel.tryComplete, hopen, Option.getD_none,
        Option.some.injEq] at hcompletion
      exact hcompletion.symm
  · -- only the tokens behind the channel are dropped
    have hpending : (session.complete .finished).pending <+: session.pending := by
      simp [pending, unwritten, complete]
    have hcontra : (session.complete .finished).cancelled ≠ false := by
      simp [complete, hcancelled]
    constructor
    · exact hdelivers.capacity_eq
    · exact hdelivers.faults_eq
    · simp [complete, BoundedChannel.tryComplete]
    · exact ((List.prefix_append_right_inj taken).mpr hpending).trans hdelivers.isPrefix
    · exact fun huncancelled => absurd huncancelled hcontra
    · exact fun huncancelled => absurd huncancelled hcontra

theorem Delivers.read {capacity : ℕ} {generation : Generation}
    {taken : List InferenceToken} {session next : InferenceSession}
    {token : InferenceToken}
    (hdelivers : Delivers capacity generation taken session)
    (hread : session.read = some (token, next)) :
    Delivers capacity generation (taken ++ [token]) next := by
  obtain ⟨hpending, hpump, hcompletion, hcapacity, hfaults, hcancelled⟩ :=
    read_eq_some hread
  have hall : taken ++ [token] ++ next.pending = taken ++ session.pending := by
    simp [hpending]
  have hending : next.ending = session.ending := by simp [ending, hfaults]
  constructor
  · rw [hcapacity, hdelivers.capacity_eq]
  · rw [hfaults, hdelivers.faults_eq]
  · rw [hcompletion, hpump]
    exact hdelivers.open_iff
  · rw [hall]
    exact hdelivers.isPrefix
  · rw [hcancelled, hall]
    exact hdelivers.whole
  · rw [hcancelled, hcompletion, hending]
    exact hdelivers.ends

theorem Delivers.cancel {capacity : ℕ} {generation : Generation}
    {taken : List InferenceToken} {session : InferenceSession}
    (hdelivers : Delivers capacity generation taken session) :
    Delivers capacity generation taken session.cancel := by
  constructor
  · exact hdelivers.capacity_eq
  · exact hdelivers.faults_eq
  · exact hdelivers.open_iff
  · exact hdelivers.isPrefix
  · exact fun huncancelled => absurd huncancelled (by simp [InferenceSession.cancel])
  · exact fun huncancelled => absurd huncancelled (by simp [InferenceSession.cancel])

end InferenceSession

end NativeInterop
