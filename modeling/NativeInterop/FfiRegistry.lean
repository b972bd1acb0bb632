import NativeInterop.FfiLedger
import Mathlib.Tactic

/-!
# The session registry across shutdown

A shutdown that finds every tracked id in its enumeration accounts for every
session.  An id that is tracked behind the enumeration and before the clear is
forgotten with its session undisposed.
-/

namespace NativeInterop

namespace Ffi

def State.roles (s : State) : List Role := s.threads.map Thread.role

/-- No id is tracked between a shutdown's enumeration and its clear. -/
def promptTrack (s : State) : Act → Bool
  | .advance i =>
      match s.threads[i]? with
      | some (.startTrack _ _) => s.threads.all fun thread =>
          match thread.role with
          | .shutting _ _ => false
          | _ => true
      | _ => true
  | _ => true

structure Ledger (bridge : Bridge) (roles : List Role) : Prop where
  names : Names bridge roles
  claims : Claims bridge roles
  tracks : Tracks bridge roles

structure Books (bridge : Bridge) (roles : List Role) : Prop extends Ledger bridge roles where
  enumerated : Enumerated bridge roles
  accounted : ∀ n < bridge.sessions.length, Accounted bridge roles n

section Steps

variable {bridge next : Bridge} {roles : List Role} {i : ℕ} {old new : Role}

theorem Ledger.effect (hledger : Ledger bridge roles) (hold : roles[i]? = some old)
    (heffect : Effect bridge old next new) : Ledger next (roles.set i new) where
  names := hledger.names.effect hold heffect
  claims := hledger.claims.effect hold heffect
  tracks := hledger.tracks.effect hledger.names hold heffect

theorem Books.effect (hbooks : Books bridge roles) (hold : roles[i]? = some old)
    (heffect : Effect bridge old next new)
    (hprompt : ∀ session id, old = .tracking session id →
      ∀ ids pending, .shutting ids pending ∉ roles) : Books next (roles.set i new) where
  toLedger := hbooks.toLedger.effect hold heffect
  enumerated := hbooks.enumerated.effect hbooks.tracks hold heffect hprompt
  accounted := by
    intro n hn
    by_cases hbefore : n < bridge.sessions.length
    · exact (hbooks.accounted n hbefore).effect hbefore hbooks.claims hbooks.enumerated
        hold heffect
    · -- the session the step has created
      have hself : new ∈ roles.set i new := mem_set_self_of_getElem? hold
      left
      refine ⟨new, hself, ?_⟩
      cases heffect with
      | create entry =>
          simp only [List.length_append, List.length_singleton] at hn
          change bridge.sessions.length = n
          omega
      | inert hsame => exact absurd (hsame.length_eq ▸ hn) hbefore
      | register session id => exact absurd (by simpa [Bridge.modifySession] using hn) hbefore
      | dispose id session => exact absurd (by simpa [Bridge.modifySession] using hn) hbefore
      | disposePending session pending =>
          exact absurd (by simpa [Bridge.modifySession] using hn) hbefore
      | _ => exact absurd hn hbefore

theorem Ledger.same (hledger : Ledger bridge roles) (hsame : SameDictionaries bridge next) :
    Ledger next roles := by
  obtain ⟨⟨hbounds, honce⟩, ⟨hclaimed, hfresh⟩, ⟨hle, hlate⟩⟩ := hledger
  refine ⟨⟨?_, honce⟩, ⟨?_, ?_⟩, ⟨?_, ?_⟩⟩
  · rw [hsame.next_eq]
    exact hbounds
  · rw [hsame.registry_eq]
    exact hclaimed
  · rw [hsame.registry_eq, hsame.next_eq]
    exact hfresh
  · rw [hsame.allocatedIds_eq, hsame.next_eq]
    exact hle
  · rw [hsame.allocatedIds_eq]
    exact hlate

theorem Books.same (hbooks : Books bridge roles) (hsame : SameDictionaries bridge next) :
    Books next roles where
  toLedger := hbooks.toLedger.same hsame
  enumerated := by
    rw [Enumerated, hsame.registry_eq, hsame.allocatedIds_eq]
    exact hbooks.enumerated
  accounted := by
    intro n hn
    rw [hsame.length_eq] at hn
    rcases hbooks.accounted n hn with hcarried | ⟨entry, hentry, hdisposed⟩ | hregistered
    · exact Or.inl hcarried
    · obtain ⟨after, hafter, hkeep⟩ := hsame.sessions_kept.kept n entry hentry
      exact Or.inr (Or.inl ⟨after, hafter, hkeep hdisposed⟩)
    · right
      right
      rw [hsame.registry_eq, hsame.allocatedIds_eq]
      exact hregistered

theorem Ledger.call (hledger : Ledger bridge roles) : Ledger bridge (roles ++ [.idle]) := by
  obtain ⟨⟨hbounds, honce⟩, ⟨hclaimed, hfresh⟩, ⟨hle, hlate⟩⟩ := hledger
  refine ⟨⟨?_, ?_⟩, ⟨?_, ?_⟩, ⟨hle, ?_⟩⟩
  · intro role hrole id hstart
    rcases List.mem_append.mp hrole with hbefore | hnew
    · exact hbounds role hbefore id hstart
    · rw [List.mem_singleton.mp hnew] at hstart
      cases hstart
  · intro id
    simpa [List.countP_append, Role.startId] using honce id
  · intro id
    simpa [List.countP_append, Role.claims] using hclaimed id
  · intro id
    simpa [List.countP_append, Role.claims] using hfresh id
  · intro id hid session
    simpa using hlate id hid session

theorem Books.call (hbooks : Books bridge roles) : Books bridge (roles ++ [.idle]) where
  toLedger := hbooks.toLedger.call
  enumerated := by
    intro ids pending hshutting
    refine hbooks.enumerated ids pending ?_
    simpa using hshutting
  accounted := by
    intro n hn
    rcases hbooks.accounted n hn with ⟨role, hrole, hcarries⟩ | hdisposed |
      ⟨id, hregistered, hkept⟩
    · exact Or.inl ⟨role, List.mem_append_left _ hrole, hcarries⟩
    · exact Or.inr (Or.inl hdisposed)
    · refine Or.inr (Or.inr ⟨id, hregistered, hkept.imp_right ?_⟩)
      rintro ⟨role, hrole, hkeeps⟩
      exact ⟨role, List.mem_append_left _ hrole, hkeeps⟩

end Steps

/-- Every step opens a call, takes one step of a call, or moves one session. -/
theorem step_roles {s t : State} {a : Act} (hstep : machine.step s a = some t) :
    (t.bridge = s.bridge ∧ t.roles = s.roles ++ [.idle]) ∨
    (∃ i thread after, a = .advance i ∧ s.threads[i]? = some thread ∧
      Effect s.bridge thread.role t.bridge after ∧ t.roles = s.roles.set i after) ∨
    (SameDictionaries s.bridge t.bridge ∧ t.roles = s.roles) := by
  have hsession : ∀ (n : ℕ) (move : FfiSession → Option FfiSession),
      (∀ entry next, move entry = some next → next.disposed = entry.disposed) →
      s.stepSession n move = some t →
      SameDictionaries s.bridge t.bridge ∧ t.roles = s.roles := by
    intro n move hmove hmoved
    obtain ⟨bridge, hbridge, rfl⟩ := Option.map_eq_some_iff.mp hmoved
    obtain ⟨entry, hentry, hmap⟩ := Option.bind_eq_some_iff.mp hbridge
    obtain ⟨next, hnext, rfl⟩ := Option.map_eq_some_iff.mp hmap
    refine ⟨⟨rfl, rfl, rfl, Evolves.set (fun _ => id) hentry ?_, by simp⟩, rfl⟩
    intro hdisposed
    rw [hmove entry next hnext]
    exact hdisposed
  cases a with
  | call call =>
      obtain rfl := Option.some.inj hstep
      left
      refine ⟨rfl, ?_⟩
      cases call <;> simp [State.roles, Call.entry, Thread.role]
  | advance i =>
      obtain ⟨thread, hthread, hmap⟩ := Option.bind_eq_some_iff.mp hstep
      obtain ⟨⟨bridge, after⟩, hadvance, rfl⟩ := Option.map_eq_some_iff.mp hmap
      right
      left
      refine ⟨i, thread, after.role, rfl, hthread, advance_effect hadvance, ?_⟩
      simp [State.roles, List.map_set]
  | pump n act =>
      right
      right
      refine hsession n _ ?_ hstep
      intro entry next hmove
      obtain ⟨session, _, rfl⟩ := Option.map_eq_some_iff.mp hmove
      rfl
  | read n =>
      right
      right
      refine hsession n _ ?_ hstep
      intro entry next hmove
      unfold FfiSession.read at hmove
      split at hmove <;> cases hmove
      rfl
  | invoke n =>
      right
      right
      refine hsession n _ ?_ hstep
      intro entry next hmove
      unfold FfiSession.invoke at hmove
      split at hmove <;> cases hmove
      rfl
  | endDrain n =>
      right
      right
      refine hsession n _ ?_ hstep
      intro entry next hmove
      unfold FfiSession.endDrain at hmove
      split at hmove <;> cases hmove
      rfl

theorem getElem?_roles {s : State} {i : ℕ} {thread : Thread}
    (hthread : s.threads[i]? = some thread) : s.roles[i]? = some thread.role := by
  simp [State.roles, hthread]

theorem Ledger.step {s t : State} {a : Act} (hledger : Ledger s.bridge s.roles)
    (hstep : machine.step s a = some t) : Ledger t.bridge t.roles := by
  rcases step_roles hstep with ⟨hbridge, hroles⟩ |
    ⟨i, thread, after, _, hthread, heffect, hroles⟩ | ⟨hsame, hroles⟩
  · rw [hbridge, hroles]
    exact hledger.call
  · rw [hroles]
    exact hledger.effect (getElem?_roles hthread) heffect
  · rw [hroles]
    exact hledger.same hsame

theorem not_shutting_of_promptTrack {s : State} {i : ℕ} {thread : Thread}
    (hthread : s.threads[i]? = some thread)
    (hprompt : promptTrack s (.advance i) = true) {session id : ℕ}
    (hrole : thread.role = .tracking session id) (ids pending : List ℕ) :
    .shutting ids pending ∉ s.roles := by
  have htrack : thread = .startTrack session id := by
    cases thread with
    | startTrack other number =>
        cases hrole
        rfl
    | freed number status => cases status <;> cases hrole
    | _ => cases hrole
  subst htrack
  simp only [promptTrack, hthread, List.all_eq_true] at hprompt
  intro hmem
  obtain ⟨other, hother, hshutting⟩ := List.mem_map.mp hmem
  have hfalse := hprompt other hother
  simp [hshutting] at hfalse

theorem Books.step {s t : State} {a : Act} (hbooks : Books s.bridge s.roles)
    (hprompt : promptTrack s a = true) (hstep : machine.step s a = some t) :
    Books t.bridge t.roles := by
  rcases step_roles hstep with ⟨hbridge, hroles⟩ |
    ⟨i, thread, after, rfl, hthread, heffect, hroles⟩ | ⟨hsame, hroles⟩
  · rw [hbridge, hroles]
    exact hbooks.call
  · rw [hroles]
    exact hbooks.effect (getElem?_roles hthread) heffect
      fun session id hrole => not_shutting_of_promptTrack hthread hprompt hrole
  · rw [hroles]
    exact hbooks.same hsame

theorem ledger_initial : Ledger State.initial.bridge State.initial.roles := by
  refine ⟨⟨?_, ?_⟩, ⟨?_, ?_⟩, ⟨?_, ?_⟩⟩ <;>
    simp [State.initial, State.roles, keyCount]

theorem books_initial : Books State.initial.bridge State.initial.roles where
  toLedger := ledger_initial
  enumerated := by simp [Enumerated, State.initial, State.roles]
  accounted := by simp [State.initial]

def Thread.returned? : Thread → Bool
  | .started _ => true
  | .freed _ _ => true
  | .returned _ => true
  | _ => false

/-- No call of an export is in progress. -/
def State.Quiescent (s : State) : Prop :=
  ∀ thread ∈ s.threads, thread.returned? = true

theorem not_carries_of_returned {thread : Thread} (hreturned : thread.returned? = true)
    (n : ℕ) : ¬ thread.role.Carries n := by
  cases thread with
  | freed id status => cases status <;> exact False.elim
  | started id => exact False.elim
  | returned status => exact False.elim
  | _ => cases hreturned

theorem not_keeps_of_returned {thread : Thread} (hreturned : thread.returned? = true)
    (id n : ℕ) : ¬ thread.role.Keeps id n := by
  cases thread with
  | freed number status => cases status <;> exact False.elim
  | started number => exact False.elim
  | returned status => exact False.elim
  | _ => cases hreturned

theorem Books.quiescent {s : State} (hbooks : Books s.bridge s.roles)
    (hquiescent : s.Quiescent) {n : ℕ} {entry : FfiSession}
    (hentry : s.bridge.sessions[n]? = some entry) :
    entry.disposed = true ∨
      ∃ id, (id, n) ∈ s.bridge.registry ∧ id ∈ s.bridge.allocatedIds := by
  have hn := (List.getElem?_eq_some_iff.mp hentry).1
  rcases hbooks.accounted n hn with ⟨role, hrole, hcarries⟩ | ⟨other, hother, hdisposed⟩ |
    ⟨id, hregistered, htracked | ⟨role, hrole, hkeeps⟩⟩
  · obtain ⟨thread, hthread, rfl⟩ := List.mem_map.mp hrole
    exact absurd hcarries (not_carries_of_returned (hquiescent thread hthread) n)
  · rw [hentry] at hother
    cases hother
    exact Or.inl hdisposed
  · exact Or.inr ⟨id, hregistered, htracked⟩
  · obtain ⟨thread, hthread, rfl⟩ := List.mem_map.mp hrole
    exact absurd hkeeps (not_keeps_of_returned (hquiescent thread hthread) id n)

/-- Two calls that both returned the same id, or both freed it, are one call. -/
theorem Ledger.started_once {s : State} (hledger : Ledger s.bridge s.roles) {i j id : ℕ}
    (hi : s.threads[i]? = some (.started id)) (hj : s.threads[j]? = some (.started id)) :
    i = j :=
  eq_of_countP_le_one (hledger.names.once id) (getElem?_roles hi) (getElem?_roles hj)
    (by simp [Thread.role, Role.startId]) (by simp [Thread.role, Role.startId])

theorem Ledger.freed_once {s : State} (hledger : Ledger s.bridge s.roles) {i j id : ℕ}
    (hi : s.threads[i]? = some (.freed id .ok))
    (hj : s.threads[j]? = some (.freed id .ok)) : i = j := by
  have honce := hledger.claims.once id
  exact eq_of_countP_le_one (p := Role.claims id) (by omega) (getElem?_roles hi)
    (getElem?_roles hj) (by simp [Thread.role, Role.claims])
    (by simp [Thread.role, Role.claims])

theorem Ledger.started_bounds {s : State} (hledger : Ledger s.bridge s.roles) {i id : ℕ}
    (hi : s.threads[i]? = some (.started id)) : 0 < id ∧ id ≤ s.bridge.next :=
  hledger.names.bounds (.named id) (List.mem_of_getElem? (getElem?_roles hi)) id rfl

/-- In every run the ids handed out, as 64-bit integers, are positive and different,
and a session is freed once.  If no id was tracked between a shutdown's enumeration
and its clear, then with no call in progress every session is disposed or is found
by the next shutdown. -/
theorem registry_accounting {acts : List Act} {s : State}
    (hrun : machine.run .initial acts = some s) (hcount : s.bridge.next < 2 ^ 63) :
    (∀ (i id : ℕ), s.threads[i]? = some (Thread.started id) →
      0 < (BitVec.ofNat 64 id).toInt) ∧
    (∀ (i j id other : ℕ), s.threads[i]? = some (Thread.started id) →
      s.threads[j]? = some (Thread.started other) →
      BitVec.ofNat 64 id = BitVec.ofNat 64 other → i = j) ∧
    (∀ (i j id : ℕ), s.threads[i]? = some (Thread.freed id .ok) →
      s.threads[j]? = some (Thread.freed id .ok) → i = j) ∧
    (machine.RunMeets (fun s a => promptTrack s a = true) .initial acts → s.Quiescent →
      ∀ (n : ℕ) (entry : FfiSession), s.bridge.sessions[n]? = some entry →
        entry.disposed = true ∨
          ∃ id, (id, n) ∈ s.bridge.registry ∧ id ∈ s.bridge.allocatedIds) := by
  have hledger : Ledger s.bridge s.roles :=
    machine.run_invariant_of_step (I := fun s => Ledger s.bridge s.roles)
      (fun _ _ _ hledger hstep => hledger.step hstep) ledger_initial hrun
  have hbound : ∀ (i id : ℕ), s.threads[i]? = some (Thread.started id) →
      0 < id ∧ id < 2 ^ 63 := by
    intro i id hi
    obtain ⟨hpos, hle⟩ := hledger.started_bounds hi
    exact ⟨hpos, lt_of_le_of_lt hle hcount⟩
  refine ⟨?_, ?_, ?_, ?_⟩
  · intro i id hi
    obtain ⟨hpos, hlt⟩ := hbound i id hi
    have hnat : (BitVec.ofNat 64 id).toNat = id := by
      rw [BitVec.toNat_ofNat, Nat.mod_eq_of_lt (by omega)]
    rw [BitVec.toInt_eq_toNat_of_lt (by omega), hnat]
    exact Int.natCast_pos.mpr hpos
  · intro i j id other hi hj heq
    have hid := hbound i id hi
    have hother := hbound j other hj
    have hsame : id = other := by
      have hnat := congrArg BitVec.toNat heq
      rw [BitVec.toNat_ofNat, BitVec.toNat_ofNat, Nat.mod_eq_of_lt (by omega),
        Nat.mod_eq_of_lt (by omega)] at hnat
      exact hnat
    subst hsame
    exact hledger.started_once hi hj
  · intro i j id hi hj
    exact hledger.freed_once hi hj
  · intro hmeets hquiescent n entry hentry
    have hbooks : Books s.bridge s.roles :=
      machine.run_invariant (I := fun s => Books s.bridge s.roles)
        (fun _ _ _ hbooks hprompt hstep => hbooks.step hprompt hstep)
        books_initial hmeets hrun
    exact hbooks.quiescent hquiescent hentry

/-- `dni_initialize`, then a start up to the registration of its session. -/
def registeredRun : List Act :=
  [.call .initEngine, .advance 0, .call (.start .rag true ⟨["all "], false⟩),
    .advance 1, .advance 1, .advance 1, .advance 1]

/-- The start to its end, then a shutdown that removes and disposes the session. -/
def promptRun : List Act :=
  registeredRun ++ [.advance 1, .advance 1, .advance 1, .call .shutdown, .advance 2,
    .advance 2, .advance 2, .pump 0 .cancelFetch, .advance 2, .advance 2, .advance 2,
    .advance 2, .advance 2, .advance 2]

/-- A shutdown has enumerated no id when the start tracks its own; then it clears
the table. -/
def lateRun : List Act :=
  registeredRun ++ [.call .shutdown, .advance 2, .advance 1, .advance 2, .advance 2,
    .advance 2, .advance 2, .advance 2, .advance 1, .advance 1]

theorem registry_accounting_prompt :
    ∃ s entry, machine.run .initial promptRun = some s ∧ s.Quiescent ∧
      s.bridge.sessions[0]? = some entry ∧ (entry.disposed = true ∨
        ∃ id, (id, 0) ∈ s.bridge.registry ∧ id ∈ s.bridge.allocatedIds) := by
  obtain ⟨s, entry, hrun, hcount, hquiescent, hentry⟩ :
      ∃ s entry, machine.run .initial promptRun = some s ∧ s.bridge.next < 2 ^ 63 ∧
        s.Quiescent ∧ s.bridge.sessions[0]? = some entry := by
    refine ⟨_, _, rfl, ?_, ?_, rfl⟩
    · decide
    · unfold State.Quiescent
      decide
  have hcheck : machine.check promptTrack .initial promptRun = true := by
    rfl
  have hall := registry_accounting hrun hcount
  exact ⟨s, entry, hrun, hquiescent, hentry,
    hall.2.2.2 (machine.runMeets_of_check hcheck) hquiescent 0 entry hentry⟩

/-- No call is in progress, and the session is neither disposed nor tracked. -/
theorem session_lost_in_shutdown :
    ∃ s entry, machine.run .initial lateRun = some s ∧ s.bridge.next < 2 ^ 63 ∧
      s.Quiescent ∧ s.bridge.sessions[0]? = some entry ∧ entry.disposed = false ∧
      (1, 0) ∈ s.bridge.registry ∧ s.bridge.allocatedIds = [] := by
  refine ⟨_, _, rfl, ?_, ?_, rfl, rfl, ?_, rfl⟩
  · decide
  · unfold State.Quiescent
    decide
  · decide

end Ffi

end NativeInterop
