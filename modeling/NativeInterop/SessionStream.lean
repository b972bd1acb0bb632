import NativeInterop.InferenceSession
import NativeInterop.Machine
import Mathlib.Tactic

/-!
# The stream a session delivers

One session of any capacity with its consumer, which reads `Reader.ReadAllAsync`
to its end, and two ways to be cancelled.  Every interleaving of the pump, the
consumer and the cancellations is a run of one machine.

What the consumer has read is always a beginning of the numbered answer.  Every
action of the pump or the consumer lowers a rank by at least one, and one of them
is enabled until the consumer has met the end of the channel, so a consumer that
keeps reading gets there.
-/

namespace NativeInterop

namespace SessionStream

open InferenceOrchestrator

/-- A session, what its consumer has read, and how the channel has ended for the
consumer. -/
structure State where
  session : InferenceSession
  received : List InferenceToken
  outcome : Option Completion
  deriving DecidableEq

/-- `cancel` is `InferenceSession.Cancel`, `cancelOuter` the token handed to
`Start`: the source of the session is linked to it. -/
inductive Act where
  | pump (act : PumpAct)
  | read
  | finish
  | cancel
  | cancelOuter
  deriving DecidableEq, Repr

def State.start (capacity : ℕ) (generation : Generation) : State where
  session := .startBounded capacity generation
  received := []
  outcome := none

def State.read (s : State) : Option State :=
  if s.outcome = none then
    s.session.read.map fun (token, session) =>
      { s with session := session, received := s.received ++ [token] }
  else none

/-- `WaitToReadAsync` on an empty completed channel: it returns false, or throws
what the pump completed the channel with. -/
def State.finish (s : State) : Option State :=
  if s.outcome = none ∧ s.session.ended then
    some { s with outcome := s.session.channel.completion }
  else none

def step (s : State) : Act → Option State
  | .pump act => (s.session.pumpStep act).map fun session => { s with session := session }
  | .read => s.read
  | .finish => s.finish
  | .cancel => some { s with session := s.session.cancel }
  | .cancelOuter => some { s with session := s.session.cancel }

def machine : Machine State Act := ⟨step⟩

/-- The pump and the consumer work; a cancellation only asks them to stop. -/
def Act.works : Act → Bool
  | .cancel => false
  | .cancelOuter => false
  | _ => true

/-- Neither the pump nor the consumer can move. -/
def State.Stuck (s : State) : Prop :=
  ∀ act : Act, act.works = true → machine.step s act = none

/-! ## What has been read -/

structure Invariant (capacity : ℕ) (generation : Generation) (s : State) : Prop where
  delivers : s.session.Delivers capacity generation s.received
  ended : ∀ completion, s.outcome = some completion →
    s.session.channel.items = [] ∧ s.session.channel.completion = some completion

theorem start_invariant (capacity : ℕ) (generation : Generation) :
    Invariant capacity generation (.start capacity generation) where
  delivers := InferenceSession.startBounded_delivers capacity generation
  ended := by simp [State.start]

theorem Invariant.pump {capacity : ℕ} {generation : Generation} {s : State}
    {act : PumpAct} {session : InferenceSession}
    (hinv : Invariant capacity generation s)
    (hpump : s.session.pumpStep act = some session) :
    Invariant capacity generation { s with session := session } where
  delivers := hinv.delivers.pumpStep hpump
  ended := by
    intro completion houtcome
    obtain ⟨_, hcompleted⟩ := hinv.ended completion houtcome
    have hdone : s.session.pump = .done := by
      by_contra hrunning
      rw [hinv.delivers.completion_none hrunning] at hcompleted
      cases hcompleted
    rw [InferenceSession.pumpStep_done act hdone] at hpump
    cases hpump

theorem Invariant.step {capacity : ℕ} {generation : Generation} {s t : State} {a : Act}
    (hinv : Invariant capacity generation s) (hstep : machine.step s a = some t) :
    Invariant capacity generation t := by
  cases a with
  | pump act =>
      obtain ⟨session, hpump, rfl⟩ := Option.map_eq_some_iff.mp hstep
      exact hinv.pump hpump
  | read =>
      simp only [machine, SessionStream.step, State.read] at hstep
      split_ifs at hstep with hnone
      obtain ⟨⟨token, session⟩, hread, rfl⟩ := Option.map_eq_some_iff.mp hstep
      constructor
      · exact hinv.delivers.read hread
      · intro completion houtcome
        simp [hnone] at houtcome
  | finish =>
      simp only [machine, SessionStream.step, State.finish] at hstep
      split_ifs at hstep with hended
      cases hstep
      constructor
      · exact hinv.delivers
      · intro completion houtcome
        exact ⟨hended.2.1, houtcome⟩
  | cancel =>
      cases hstep
      exact ⟨hinv.delivers.cancel, hinv.ended⟩
  | cancelOuter =>
      cases hstep
      exact ⟨hinv.delivers.cancel, hinv.ended⟩

theorem invariant_of_run {capacity : ℕ} {generation : Generation} {s : State}
    {acts : List Act}
    (hrun : machine.run (.start capacity generation) acts = some s) :
    Invariant capacity generation s :=
  machine.run_invariant_of_step (fun _ _ _ hinv hstep => hinv.step hstep)
    (start_invariant capacity generation) hrun

theorem Invariant.received_isPrefix {capacity : ℕ} {generation : Generation}
    {s : State} (hinv : Invariant capacity generation s) :
    s.received <+: stream generation.fragments :=
  ((List.prefix_append _ _).trans hinv.delivers.isPrefix).trans
    (run_isPrefix_stream generation)

/-- Without a cancellation the consumer meets the end of the channel with the
whole answer read, and it is the end the generation came to. -/
theorem Invariant.of_outcome {capacity : ℕ} {generation : Generation} {s : State}
    (hinv : Invariant capacity generation s) (huncancelled : s.session.cancelled = false)
    {completion : Completion} (houtcome : s.outcome = some completion) :
    s.received = run generation ∧
      completion = if generation.faults then .faulted else .finished := by
  obtain ⟨hitems, hcompleted⟩ := hinv.ended completion houtcome
  have hdone : s.session.pump = .done := by
    by_contra hrunning
    rw [hinv.delivers.completion_none hrunning] at hcompleted
    cases hcompleted
  have hpending : s.session.pending = [] := by
    simp [InferenceSession.pending, InferenceSession.unwritten, hitems, hdone]
  constructor
  · have hwhole := hinv.delivers.whole huncancelled
    rw [hpending, List.append_nil] at hwhole
    exact hwhole
  · have hends := hinv.delivers.ends huncancelled completion hcompleted
    rw [hends, InferenceSession.ending, hinv.delivers.faults_eq]

/-! ## Progress -/

/-- Four actions move one token from the iterator to the consumer; two more end
the pump and the consumer. -/
def pumpRank : Pump → ℕ
  | .fetching rest => 4 * rest.length + 1
  | .offering _ rest => 4 * rest.length + 4
  | .writing _ rest => 4 * rest.length + 3
  | .done => 0

def State.rank (s : State) : ℕ :=
  pumpRank s.session.pump + s.session.channel.items.length +
    if s.outcome = none then 1 else 0

theorem pumpStep_rank {session next : InferenceSession} {act : PumpAct}
    (hstep : session.pumpStep act = some next) :
    pumpRank next.pump + next.channel.items.length + 1 ≤
      pumpRank session.pump + session.channel.items.length := by
  unfold InferenceSession.pumpStep at hstep
  split at hstep
  · next token rest hpump =>
      cases hstep
      simp only [hpump, pumpRank, List.length_cons]
      omega
  · next hpump =>
      cases hstep
      simp [InferenceSession.complete, hpump, pumpRank]
  · next rest hpump =>
      split_ifs at hstep
      cases hstep
      simp [InferenceSession.complete, hpump, pumpRank]
  · next token rest hpump =>
      split_ifs at hstep
      · cases hstep
        simp [InferenceSession.complete, hpump, pumpRank]
      · cases hstep
        simp only [hpump, pumpRank]
        omega
  · next token rest hpump =>
      obtain ⟨channel, hwrite, rfl⟩ := Option.map_eq_some_iff.mp hstep
      obtain ⟨hitems, _⟩ := BoundedChannel.tryWrite_eq_some hwrite
      simp only [hpump, pumpRank, hitems, List.length_append, List.length_singleton]
      omega
  · next token rest hpump =>
      split_ifs at hstep
      cases hstep
      simp [InferenceSession.complete, hpump, pumpRank]
  · cases hstep

theorem step_rank {s t : State} {a : Act} (hstep : machine.step s a = some t) :
    t.rank + (if a.works then 1 else 0) ≤ s.rank := by
  cases a with
  | pump act =>
      obtain ⟨session, hpump, rfl⟩ := Option.map_eq_some_iff.mp hstep
      have hrank := pumpStep_rank hpump
      simp only [State.rank, Act.works, if_true]
      omega
  | read =>
      simp only [machine, step, State.read] at hstep
      split_ifs at hstep with hnone
      obtain ⟨⟨token, session⟩, hread, rfl⟩ := Option.map_eq_some_iff.mp hstep
      obtain ⟨⟨first, channel⟩, hchannel, heq⟩ := Option.map_eq_some_iff.mp hread
      cases heq
      obtain ⟨hitems, _⟩ := BoundedChannel.tryRead_eq_some hchannel
      simp only [State.rank, Act.works, if_true, hnone, hitems, List.length_cons]
      omega
  | finish =>
      simp only [machine, step, State.finish] at hstep
      split_ifs at hstep with hended
      cases hstep
      simp only [State.rank, Act.works, if_true, hended.1, hended.2.2, if_false]
      omega
  | cancel =>
      cases hstep
      simp [State.rank, Act.works, InferenceSession.cancel]
  | cancelOuter =>
      cases hstep
      simp [State.rank, Act.works, InferenceSession.cancel]

theorem run_rank {s t : State} {acts : List Act} (hrun : machine.run s acts = some t) :
    t.rank + (acts.filter Act.works).length ≤ s.rank := by
  induction acts generalizing s with
  | nil =>
      simp only [Machine.run_nil, Option.some.injEq] at hrun
      simp [hrun]
  | cons a acts ih =>
      obtain ⟨next, hstep, hrest⟩ := machine.run_cons_eq_some.mp hrun
      have htail := ih hrest
      have hhead := step_rank hstep
      cases hworks : a.works with
      | true =>
          simp only [hworks, if_true] at hhead
          rw [List.filter_cons_of_pos hworks, List.length_cons]
          omega
      | false =>
          simp only [hworks, Bool.false_eq_true, if_false] at hhead
          rw [List.filter_cons_of_neg (by simp [hworks])]
          omega

/-- Where nothing can move the consumer has met the end of the channel: a full
channel can be read, and one with room can be written. -/
theorem Invariant.outcome_of_stuck {capacity : ℕ} {generation : Generation} {s : State}
    (hinv : Invariant capacity generation s) (hcapacity : 1 ≤ capacity)
    (hstuck : s.Stuck) : ∃ completion, s.outcome = some completion := by
  rw [← Option.ne_none_iff_exists']
  intro hnone
  have hitems : s.session.channel.items = [] := by
    have hread := hstuck .read rfl
    simpa [machine, SessionStream.step, State.read, hnone, InferenceSession.read,
      BoundedChannel.tryRead_eq_none_iff] using hread
  have hdone : s.session.pump = .done := by
    cases hpump : s.session.pump with
    | fetching rest =>
        have hfetch := hstuck (.pump .fetch) rfl
        cases rest <;>
          simp [machine, SessionStream.step, InferenceSession.pumpStep, hpump] at hfetch
    | offering token rest =>
        have henter := hstuck (.pump .enterWrite) rfl
        simp only [machine, SessionStream.step, InferenceSession.pumpStep, hpump] at henter
        split_ifs at henter <;> simp at henter
    | writing token rest =>
        have hopen := hinv.delivers.completion_none (by simp [hpump])
        have hroom : s.session.channel.items.length < s.session.channel.capacity := by
          rw [hitems, hinv.delivers.capacity_eq]
          exact hcapacity
        have hwrite := hstuck (.pump .write) rfl
        simp only [machine, SessionStream.step, InferenceSession.pumpStep, hpump,
          Option.map_eq_none_iff] at hwrite
        exact absurd hwrite (BoundedChannel.tryWrite_ne_none token hopen hroom)
    | done => rfl
  have hcompleted : s.session.channel.completion ≠ none := by
    rw [Ne, hinv.delivers.open_iff]
    exact fun hrunning => hrunning hdone
  have hfinish := hstuck .finish rfl
  simp [machine, SessionStream.step, State.finish, hnone, InferenceSession.ended, hitems,
    hcompleted] at hfinish

theorem start_rank (capacity : ℕ) (generation : Generation) :
    (State.start capacity generation).rank ≤ 4 * generation.fragments.length + 6 := by
  have hlength : (run generation).length ≤ generation.fragments.length + 1 := by
    have hle := (run_isPrefix_stream generation).length_le
    simpa [stream, tokens] using hle
  simp only [State.rank, State.start, InferenceSession.startBounded, pumpRank,
    BoundedChannel.create, List.length_nil, if_true]
  omega

/-- The whole of the stream: what has been read is a beginning of the numbered
answer; drained without cancellation or fault it is the answer with its one final
marker; nobody reads the marker before the rest; and after a fault of the model
the consumer, which can act only so often, ends with every fragment and the
fault. -/
theorem gap_free (capacity : ℕ) (hcapacity : 1 ≤ capacity) (generation : Generation)
    (acts : List Act) (s : State)
    (hrun : machine.run (.start capacity generation) acts = some s) :
    s.received <+: stream generation.fragments ∧
    (s.session.cancelled = false → generation.faults = false →
      s.outcome ≠ none ∨ s.Stuck →
      s.outcome = some .finished ∧ s.received = stream generation.fragments ∧
        (s.received.filter InferenceToken.isFinal).length = 1) ∧
    (∀ token ∈ s.received, token.isFinal = true →
      s.received = stream generation.fragments) ∧
    (s.session.cancelled = false → generation.faults = true →
      s.outcome ≠ some .finished ∧
      (s.outcome ≠ none ∨ s.Stuck →
        s.outcome = some .faulted ∧ s.received = tokens generation.fragments)) ∧
    (acts.filter Act.works).length ≤ 4 * generation.fragments.length + 6 := by
  have hinv := invariant_of_run hrun
  have hmet : s.outcome ≠ none ∨ s.Stuck → ∃ completion, s.outcome = some completion := by
    rintro (houtcome | hstuck)
    · exact Option.ne_none_iff_exists'.mp houtcome
    · exact hinv.outcome_of_stuck hcapacity hstuck
  refine ⟨hinv.received_isPrefix, ?_, ?_, ?_, ?_⟩
  · intro huncancelled hfaults hend
    obtain ⟨completion, houtcome⟩ := hmet hend
    obtain ⟨hreceived, hcompletion⟩ := hinv.of_outcome huncancelled houtcome
    have hstream : s.received = stream generation.fragments := by
      rw [hreceived, run_eq, stream]
      simp [hfaults]
    refine ⟨?_, hstream, ?_⟩
    · simp [houtcome, hcompletion, hfaults]
    · rw [hstream, filter_isFinal_stream]
      rfl
  · intro token hmem hfinal
    exact eq_stream_of_final hinv.received_isPrefix hmem hfinal
  · intro huncancelled hfaults
    constructor
    · intro hfinished
      obtain ⟨_, hcompletion⟩ := hinv.of_outcome huncancelled hfinished
      simp [hfaults] at hcompletion
    · intro hend
      obtain ⟨completion, houtcome⟩ := hmet hend
      obtain ⟨hreceived, hcompletion⟩ := hinv.of_outcome huncancelled houtcome
      constructor
      · simp [houtcome, hcompletion, hfaults]
      · rw [hreceived, run_eq]
        simp [hfaults]
  · have hrank := run_rank hrun
    have hstart := start_rank capacity generation
    omega

/-- A session of capacity one whose model throws after its first fragment. -/
def faultRun : List Act :=
  [.pump .fetch, .pump .enterWrite, .pump .write, .pump .fetch, .read, .finish]

theorem gap_free_fault :
    ∃ s, machine.run (.start 1 ⟨["all "], true⟩) faultRun = some s ∧
      s.outcome = some .faulted ∧ s.received = tokens ["all "] := by
  obtain ⟨s, hrun, huncancelled, houtcome⟩ :
      ∃ s, machine.run (.start 1 ⟨["all "], true⟩) faultRun = some s ∧
        s.session.cancelled = false ∧ s.outcome ≠ none :=
    ⟨_, rfl, rfl, Option.some_ne_none _⟩
  have hall := gap_free 1 (Nat.le_refl 1) ⟨["all "], true⟩ faultRun s hrun
  exact ⟨s, hrun, (hall.2.2.2.1 huncancelled rfl).2 (Or.inl houtcome)⟩

end SessionStream

end NativeInterop
