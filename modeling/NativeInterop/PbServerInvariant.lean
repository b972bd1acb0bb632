import NativeInterop.PbFrameServer
import Mathlib.Tactic

/-!
# What ties a connection to its instance

Only the cancellation token ties a connection to the instance that accepted
it.  The order that makes this enough is kept by `Invariant`: an instance whose
token is not cancelled is the published one and was started with the flag the
static field now holds.  Every access of a handler, of `Start` and of `Stop`
keeps it.
-/

namespace NativeInterop

namespace PbFrameServer

open PqSecureChannel

def State.current (s : State) : Option ℕ :=
  match s.gate with
  | .start (.setListener launched) _ => some launched
  | .start (.setCts launched) _ => some launched
  | .stop .cancel _ => s.listener
  | .stop _ _ => none
  | _ => s.listener

/-- What the static fields hold at each point of `Start` and `Stop`. -/
def State.Consistent (s : State) : Prop :=
  match s.gate with
  | .free => s.cts = s.listener
  | .publish _ _ => s.cts = s.listener
  | .start .enter _ => s.cts = s.listener
  | .start .initEngine _ => s.listener = none ∧ s.cts = none
  | .start .setFlag _ => s.listener = none ∧ s.cts = none
  | .start (.setCts launched) flags =>
      s.listener = some launched ∧ s.cts = none ∧ s.requirePq = requiresPq flags
  | .start _ flags =>
      s.listener = none ∧ s.cts = none ∧ s.requirePq = requiresPq flags
  | .stop .cancel target => s.cts = s.listener ∧ target = s.cts
  | .stop .stopListener _ => True
  | .stop .dispose _ => True
  | .stop .clearListener _ => True
  | .stop .clearCts _ => s.listener = none
  | .stop _ _ => s.listener = none ∧ s.cts = none

def HandlerPc.serving : HandlerPc → Bool
  | .reading => true
  | .received _ _ => true
  | .dispatching => true
  | _ => false

def HandlerPc.negotiating : HandlerPc → Bool
  | .readProvider => true
  | .readIdentity _ => true
  | .handshake _ _ => true
  | .useCipher _ => true
  | .publish _ => true
  | _ => false

def HandlerPc.negotiated : HandlerPc → Bool
  | .useCipher _ => true
  | .publish _ => true
  | _ => false

/-- What a handler relies on, given the instance that accepted its connection. -/
structure Connection.Safe (inst : Instance) (c : Connection) : Prop where
  plain : c.pc = .loop → c.cipherAttached = true ∨ inst.cancelled = true ∨
    inst.requirePq = false
  serving : c.pc.serving = true → c.cipherAttached = true ∨ inst.requirePq = false
  negotiating : c.pc.negotiating = true → inst.cancelled = true ∨
    inst.requirePq = true
  negotiated : c.pc.negotiated = true → c.handshakeCompleted = true
  published : ∀ params, c.pc = .publish params → c.cipherAttached = true
  attached : c.cipherAttached = true → c.handshakeCompleted = true
  snapshot : ∀ completed attached, c.pc = .received completed attached →
    completed = c.handshakeCompleted ∧ attached = c.cipherAttached

/-- The channel the Trust inspector reports: its instance requires PQ, its
handshake has completed, and the instance is up or being stopped right now. -/
structure Posture.Honest (s : State) (p : Posture) (c : Connection)
    (inst : Instance) : Prop where
  connection : s.connections[p.connection]? = some c
  owner : s.instances[c.owner]? = some inst
  requirePq : inst.requirePq = true
  completed : c.handshakeCompleted = true
  running : inst.cancelled = false ∨ ∃ pc, s.gate = .stop pc (some c.owner)

structure Invariant (s : State) : Prop where
  live : ∀ (i : ℕ) (inst : Instance), s.instances[i]? = some inst →
    inst.cancelled = false →
    s.current = some i ∧ inst.requirePq = s.requirePq
  consistent : s.Consistent
  safe : ∀ (j : ℕ) (c : Connection), s.connections[j]? = some c →
    ∃ inst, s.instances[c.owner]? = some inst ∧ c.Safe inst
  holder : ∀ j checked, s.gate = .publish j checked → ∃ c params,
    s.connections[j]? = some c ∧ c.pc = .publish params ∧
      (checked = true → s.cancelled c.owner = false)
  dispatched : ∀ d ∈ s.dispatched, ∃ c inst,
    s.connections[d.connection]? = some c ∧ s.instances[c.owner]? = some inst ∧
      (inst.requirePq = true → d.handshakeCompleted = true ∧ d.cipherAttached = true)
  honest : ∀ p, s.posture = some p → ∃ c inst, p.Honest s c inst

theorem initial_invariant : Invariant State.initial := by
  constructor
  · simp [State.initial]
  · rfl
  · simp [State.initial]
  · simp [State.initial]
  · simp [State.initial]
  · simp [State.initial]

theorem State.cancelled_eq {s : State} {i : ℕ} {inst : Instance}
    (hget : s.instances[i]? = some inst) : s.cancelled i = inst.cancelled := by
  simp [State.cancelled, hget]

/-! ## Steps of a handler -/

/-- Moving one handler on keeps the invariant, if what it relies on holds in
its new place and the gate is not held by it. -/
theorem Invariant.setConnection {s : State} (hinv : Invariant s) {j : ℕ}
    {c c' : Connection} (hget : s.connections[j]? = some c)
    (howner : c'.owner = c.owner)
    (hcompleted : c.handshakeCompleted = true → c'.handshakeCompleted = true)
    (hsafe : ∀ inst, s.instances[c.owner]? = some inst → c.Safe inst → c'.Safe inst)
    (hholder : ∀ checked, s.gate ≠ .publish j checked) :
    Invariant (s.setConnection j c') := by
  have hlt : j < s.connections.length := (List.getElem?_eq_some_iff.mp hget).1
  have hself : (s.connections.set j c')[j]? = some c' := List.getElem?_set_self hlt
  constructor
  · exact hinv.live
  · exact hinv.consistent
  · intro k found hfound
    by_cases heq : k = j
    · subst k
      have hsame : found = c' := Option.some.inj (hfound.symm.trans hself)
      subst found
      obtain ⟨inst, hinst, hc⟩ := hinv.safe j c hget
      refine ⟨inst, ?_, hsafe inst hinst hc⟩
      rw [howner]
      exact hinst
    · have hold : s.connections[k]? = some found := by
        rw [← hfound]
        exact (List.getElem?_set_ne (Ne.symm heq)).symm
      exact hinv.safe k found hold
  · intro k checked hgate
    have hne : k ≠ j := by
      intro heq
      subst k
      exact hholder checked hgate
    obtain ⟨found, params, hfound, hrest⟩ := hinv.holder k checked hgate
    refine ⟨found, params, ?_, hrest⟩
    rw [← hfound]
    exact List.getElem?_set_ne (Ne.symm hne)
  · intro d hd
    obtain ⟨found, inst, hfound, hinst, hsealed⟩ := hinv.dispatched d hd
    by_cases heq : d.connection = j
    · rw [heq] at hfound
      have hsame : found = c := Option.some.inj (hfound.symm.trans hget)
      subst found
      refine ⟨c', inst, ?_, ?_, hsealed⟩
      · rw [heq]
        exact hself
      · rw [howner]
        exact hinst
    · refine ⟨found, inst, ?_, hinst, hsealed⟩
      rw [← hfound]
      exact List.getElem?_set_ne (Ne.symm heq)
  · intro p hp
    obtain ⟨found, inst, hhonest⟩ := hinv.honest p hp
    by_cases heq : p.connection = j
    · have hfound := hhonest.connection
      rw [heq] at hfound
      have hsame : found = c := Option.some.inj (hfound.symm.trans hget)
      subst found
      refine ⟨c', inst, ?_, ?_, hhonest.requirePq, hcompleted hhonest.completed, ?_⟩
      · rw [heq]
        exact hself
      · rw [howner]
        exact hhonest.owner
      · rw [howner]
        exact hhonest.running
    · refine ⟨found, inst, ?_, hhonest.owner, hhonest.requirePq,
        hhonest.completed, hhonest.running⟩
      rw [← hhonest.connection]
      exact List.getElem?_set_ne (Ne.symm heq)

theorem Invariant.setGate {s : State} (hinv : Invariant s) {gate : Gate}
    (hcurrent : { s with gate := gate }.current = s.current)
    (hconsistent : { s with gate := gate }.Consistent)
    (hstop : ∀ pc target, s.gate ≠ .stop pc target)
    (hholder : ∀ j checked, gate = .publish j checked → ∃ c params,
      s.connections[j]? = some c ∧ c.pc = .publish params ∧
        (checked = true → s.cancelled c.owner = false)) :
    Invariant { s with gate := gate } := by
  constructor
  · intro i inst hget hlive
    rw [hcurrent]
    exact hinv.live i inst hget hlive
  · exact hconsistent
  · exact hinv.safe
  · exact hholder
  · exact hinv.dispatched
  · intro p hp
    obtain ⟨c, inst, hhonest⟩ := hinv.honest p hp
    refine ⟨c, inst, hhonest.connection, hhonest.owner, hhonest.requirePq,
      hhonest.completed, ?_⟩
    rcases hhonest.running with hlive | ⟨pc, hgate⟩
    · exact Or.inl hlive
    · exact absurd hgate (hstop pc _)

/-- Neither `Start` nor `Stop` is under way. -/
def Gate.isQuiet : Gate → Bool
  | .free => true
  | .publish _ _ => true
  | _ => false

theorem State.current_of_isQuiet {s : State} (hquiet : s.gate.isQuiet = true) :
    s.current = s.listener := by
  unfold State.current
  cases hgate : s.gate with
  | free => rfl
  | publish holder checked => rfl
  | start pc flags =>
      rw [hgate] at hquiet
      cases hquiet
  | stop pc target =>
      rw [hgate] at hquiet
      cases hquiet

theorem State.consistent_of_isQuiet {s : State} (hquiet : s.gate.isQuiet = true) :
    s.Consistent ↔ s.cts = s.listener := by
  unfold State.Consistent
  cases hgate : s.gate with
  | free => rfl
  | publish holder checked => rfl
  | start pc flags =>
      rw [hgate] at hquiet
      cases hquiet
  | stop pc target =>
      rw [hgate] at hquiet
      cases hquiet

/-- Outside of `Start` and `Stop` the gate says only who publishes. -/
theorem Invariant.passGate {s : State} (hinv : Invariant s) {gate : Gate}
    (hbefore : s.gate.isQuiet = true) (hafter : gate.isQuiet = true)
    (hholder : ∀ j checked, gate = .publish j checked → ∃ c params,
      s.connections[j]? = some c ∧ c.pc = .publish params ∧
        (checked = true → s.cancelled c.owner = false)) :
    Invariant { s with gate := gate } := by
  have hquiet : ({ s with gate := gate } : State).gate.isQuiet = true := hafter
  apply hinv.setGate
  · rw [State.current_of_isQuiet hquiet, State.current_of_isQuiet hbefore]
  · have hconsistent := (State.consistent_of_isQuiet hbefore).mp hinv.consistent
    exact (State.consistent_of_isQuiet hquiet).mpr hconsistent
  · intro pc target hstop
    rw [hstop] at hbefore
    cases hbefore
  · exact hholder

theorem Invariant.setPosture {s : State} (hinv : Invariant s) {j : ℕ}
    {c : Connection} {inst : Instance} (params : PqChannelParams)
    (hget : s.connections[j]? = some c) (hinst : s.instances[c.owner]? = some inst)
    (hcompleted : c.handshakeCompleted = true) (hrequire : inst.requirePq = true)
    (hlive : inst.cancelled = false) :
    Invariant { s with posture := some ⟨j, params⟩ } := by
  constructor
  · exact hinv.live
  · exact hinv.consistent
  · exact hinv.safe
  · exact hinv.holder
  · exact hinv.dispatched
  · intro p hp
    have heq : ⟨j, params⟩ = p := Option.some.inj hp
    subst p
    exact ⟨c, inst, hget, hinst, hrequire, hcompleted, Or.inl hlive⟩

theorem Connection.Safe.enterLoop {inst : Instance} {c : Connection}
    (hsafe : c.Safe inst)
    (hplain : c.cipherAttached = true ∨ inst.cancelled = true ∨ inst.requirePq = false) :
    Connection.Safe inst { c with pc := .loop } := by
  constructor
  · exact fun _ => hplain
  · simp [HandlerPc.serving]
  · simp [HandlerPc.negotiating]
  · simp [HandlerPc.negotiated]
  · simp
  · exact hsafe.attached
  · simp

theorem Connection.Safe.close {inst : Instance} {c : Connection}
    (hsafe : c.Safe inst) : Connection.Safe inst { c with pc := .closed } := by
  constructor
  · simp
  · simp [HandlerPc.serving]
  · simp [HandlerPc.negotiating]
  · simp [HandlerPc.negotiated]
  · simp
  · exact hsafe.attached
  · simp

/-- A connection in its negotiation relies on the path and on what the handshake has left. -/
theorem Connection.safe_of_negotiating {inst : Instance} {c : Connection}
    (hpc : c.pc.negotiating = true) (hpath : inst.cancelled = true ∨ inst.requirePq = true)
    (hdone : c.pc.negotiated = true → c.handshakeCompleted = true)
    (hpublish : ∀ params, c.pc = .publish params → c.cipherAttached = true)
    (hattached : c.cipherAttached = true → c.handshakeCompleted = true) : c.Safe inst := by
  constructor
  · intro hloop
    simp [hloop, HandlerPc.negotiating] at hpc
  · intro hserving
    cases hc : c.pc <;> simp_all [HandlerPc.serving, HandlerPc.negotiating]
  · exact fun _ => hpath
  · exact hdone
  · exact hpublish
  · exact hattached
  · intro completed attached hreceived
    simp [hreceived, HandlerPc.negotiating] at hpc

theorem Connection.Safe.negotiate {inst : Instance} {c : Connection}
    (hsafe : c.Safe inst) {pc : HandlerPc} (hpc : pc.negotiating = true)
    (hpath : inst.cancelled = true ∨ inst.requirePq = true)
    (hdone : pc.negotiated = true → c.handshakeCompleted = true)
    (hpublish : ∀ params, pc ≠ .publish params) :
    Connection.Safe inst { c with pc := pc } :=
  safe_of_negotiating hpc hpath hdone (fun params heq => absurd heq (hpublish params))
    hsafe.attached

theorem Connection.Safe.serve {inst : Instance} {c : Connection}
    (hsafe : c.Safe inst) {pc : HandlerPc} (hpc : pc.serving = true)
    (hserve : c.cipherAttached = true ∨ inst.requirePq = false)
    (hsnapshot : ∀ completed attached, pc = .received completed attached →
      completed = c.handshakeCompleted ∧ attached = c.cipherAttached) :
    Connection.Safe inst { c with pc := pc } := by
  constructor
  · intro hloop
    simp only at hloop
    subst pc
    simp [HandlerPc.serving] at hpc
  · exact fun _ => hserve
  · intro hnegotiating
    cases pc <;> simp_all [HandlerPc.serving, HandlerPc.negotiating]
  · intro hnegotiated
    cases pc <;> simp_all [HandlerPc.serving, HandlerPc.negotiated]
  · intro params heq
    simp only at heq
    subst pc
    simp [HandlerPc.serving] at hpc
  · exact hsafe.attached
  · exact hsnapshot

theorem Invariant.not_holder {s : State} (hinv : Invariant s) {j : ℕ}
    {c : Connection} (hget : s.connections[j]? = some c)
    (hpc : ∀ params, c.pc ≠ .publish params) (checked : Bool) :
    s.gate ≠ .publish j checked := by
  intro hgate
  obtain ⟨found, params, hfound, hpublish, _⟩ := hinv.holder j checked hgate
  have hsame : found = c := Option.some.inj (hfound.symm.trans hget)
  subst found
  exact hpc params hpublish

/-- A handler outside the publishing step that only moves on. -/
theorem Invariant.moveHandler {s : State} (hinv : Invariant s) {j : ℕ}
    {c : Connection} {pc : HandlerPc} (hget : s.connections[j]? = some c)
    (hpublish : ∀ params, c.pc ≠ .publish params)
    (hsafe : ∀ inst, s.instances[c.owner]? = some inst → c.Safe inst →
      Connection.Safe inst { c with pc := pc }) :
    Invariant (s.setConnection j { c with pc := pc }) := by
  apply hinv.setConnection hget
  · rfl
  · exact id
  · exact hsafe
  · exact hinv.not_holder hget hpublish

/-- Reading the flag: a connection that is let through without a handshake
belongs to a cancelled instance or to one that does not require PQ. -/
theorem Invariant.readFlag {s : State} (hinv : Invariant s) {j : ℕ}
    {c : Connection} (hget : s.connections[j]? = some c) (hpc : c.pc = .accepted) :
    Invariant (s.setConnection j
      { c with pc := if s.requirePq then .readProvider else .loop }) := by
  apply hinv.moveHandler hget (by simp [hpc])
  intro inst hinst hsafe
  have hflag : inst.cancelled = true ∨ inst.requirePq = s.requirePq := by
    cases hcancelled : inst.cancelled with
    | true => exact Or.inl rfl
    | false => exact Or.inr (hinv.live c.owner inst hinst hcancelled).2
  by_cases hrequire : s.requirePq = true
  · rw [if_pos hrequire]
    rw [hrequire] at hflag
    exact hsafe.negotiate rfl hflag (by simp [HandlerPc.negotiated]) (by simp)
  · rw [if_neg hrequire]
    rw [Bool.not_eq_true] at hrequire
    rw [hrequire] at hflag
    exact hsafe.enterLoop (Or.inr hflag)

theorem Invariant.publishStep {s next : State} (hinv : Invariant s) {j : ℕ}
    {c : Connection} {params : PqChannelParams} (hget : s.connections[j]? = some c)
    (hpc : c.pc = .publish params) (hstep : s.handlerStep j c = some next) :
    Invariant next := by
  obtain ⟨inst, hinst, hsafe⟩ := hinv.safe j c hget
  have hattached := hsafe.published params hpc
  have hcompleted := hsafe.attached hattached
  have hrequire : inst.cancelled = true ∨ inst.requirePq = true :=
    hsafe.negotiating (by simp [hpc, HandlerPc.negotiating])
  unfold State.handlerStep at hstep
  simp only [hpc] at hstep
  cases hgate : s.gate with
  | free =>
      simp only [hgate, Option.some.injEq] at hstep
      subst next
      have hquiet : s.gate.isQuiet = true := by
        rw [hgate]
        rfl
      apply hinv.passGate hquiet rfl
      intro k checked hholder
      cases hholder
      exact ⟨c, params, hget, hpc, by simp⟩
  | start pc flags => simp [hgate] at hstep
  | stop pc target => simp [hgate] at hstep
  | publish holder checked =>
      simp only [hgate] at hstep
      by_cases hself : holder = j
      · subst holder
        have hquiet : s.gate.isQuiet = true := by
          rw [hgate]
          rfl
        have hreleased : Invariant { s with gate := .free } := hinv.passGate hquiet rfl (by simp)
        have hlooped : Invariant
            (({ s with gate := .free } : State).setConnection j
              { c with pc := .loop }) :=
          hreleased.setConnection hget rfl id
            (fun _ _ hfound => hfound.enterLoop (Or.inl hattached)) (by simp)
        cases checked with
        | true =>
            simp only [if_true, Option.some.injEq] at hstep
            subst next
            obtain ⟨found, _, hfound, _, hlive⟩ := hinv.holder j true hgate
            have hsame : found = c := Option.some.inj (hfound.symm.trans hget)
            subst found
            have hcancelled : inst.cancelled = false := by
              rw [← State.cancelled_eq hinst]
              exact hlive rfl
            have hpq : inst.requirePq = true := by simpa [hcancelled] using hrequire
            have hlt := (List.getElem?_eq_some_iff.mp hget).1
            exact hlooped.setPosture params (List.getElem?_set_self hlt) hinst
              hcompleted hpq hcancelled
        | false =>
            simp only [Bool.false_eq_true, if_false, if_true] at hstep
            by_cases hcancelled : s.cancelled c.owner = true
            · simp only [hcancelled, if_true, Option.some.injEq] at hstep
              subst next
              exact hlooped
            · simp only [hcancelled, Bool.false_eq_true, if_false,
                Option.some.injEq] at hstep
              subst next
              apply hinv.passGate hquiet rfl
              intro k checked hholder
              cases hholder
              exact ⟨c, params, hget, hpc, fun _ => by simpa using hcancelled⟩
      · simp [hself] at hstep

theorem Invariant.loopCheck {s : State} (hinv : Invariant s) {j : ℕ}
    {c : Connection} (hget : s.connections[j]? = some c) (hpc : c.pc = .loop) :
    Invariant (s.setConnection j
      { c with pc := if s.cancelled c.owner then .closed else .reading }) := by
  apply hinv.moveHandler hget (by simp [hpc])
  intro inst hinst hsafe
  rw [State.cancelled_eq hinst]
  by_cases hcancelled : inst.cancelled = true
  · rw [if_pos hcancelled]
    exact hsafe.close
  · rw [if_neg hcancelled]
    have hserve : c.cipherAttached = true ∨ inst.requirePq = false := by
      rcases hsafe.plain hpc with hattached | hstopped | hplain
      · exact Or.inl hattached
      · exact absurd hstopped hcancelled
      · exact Or.inr hplain
    exact hsafe.serve rfl hserve (by simp)

theorem Invariant.dispatch {s : State} (hinv : Invariant s) {j : ℕ}
    {c : Connection} {completed attached : Bool}
    (hget : s.connections[j]? = some c) (hpc : c.pc = .received completed attached) :
    Invariant { s.setConnection j { c with pc := .dispatching } with
      dispatched := s.dispatched ++ [⟨j, completed, attached⟩] } := by
  obtain ⟨inst, hinst, hsafe⟩ := hinv.safe j c hget
  have hserve := hsafe.serving (by simp [hpc, HandlerPc.serving])
  obtain ⟨hcompletedEq, hattachedEq⟩ := hsafe.snapshot completed attached hpc
  have hmoved : Invariant (s.setConnection j { c with pc := .dispatching }) := by
    apply hinv.moveHandler hget (by simp [hpc])
    intro found hfound hother
    have hsame : found = inst := Option.some.inj (hfound.symm.trans hinst)
    subst found
    exact hother.serve rfl hserve (by simp)
  constructor
  · exact hmoved.live
  · exact hmoved.consistent
  · exact hmoved.safe
  · exact hmoved.holder
  · intro d hd
    rcases List.mem_append.mp hd with hold | hnew
    · exact hmoved.dispatched d hold
    · have heq := List.mem_singleton.mp hnew
      subst d
      have hlt := (List.getElem?_eq_some_iff.mp hget).1
      refine ⟨{ c with pc := .dispatching }, inst, List.getElem?_set_self hlt,
        hinst, ?_⟩
      intro hrequire
      have hcipher : c.cipherAttached = true := by
        rcases hserve with hcipher | hplain
        · exact hcipher
        · rw [hplain] at hrequire
          contradiction
      exact ⟨hcompletedEq.trans (hsafe.attached hcipher), hattachedEq.trans hcipher⟩
  · intro p hp
    obtain ⟨found, other, hhonest⟩ := hmoved.honest p hp
    exact ⟨found, other, hhonest.connection, hhonest.owner, hhonest.requirePq,
      hhonest.completed, hhonest.running⟩

theorem Invariant.handlerStep {s next : State} (hinv : Invariant s) {j : ℕ}
    {c : Connection} (hget : s.connections[j]? = some c)
    (hstep : s.handlerStep j c = some next) : Invariant next := by
  cases hpc : c.pc with
  | accepted =>
      simp only [State.handlerStep, hpc, Option.some.injEq] at hstep
      subst next
      exact hinv.readFlag hget hpc
  | readProvider =>
      simp only [State.handlerStep, hpc, Option.some.injEq] at hstep
      subst next
      apply hinv.moveHandler hget (by simp [hpc])
      intro inst _ hsafe
      exact hsafe.negotiate rfl
        (hsafe.negotiating (by simp [hpc, HandlerPc.negotiating]))
        (by simp [HandlerPc.negotiated]) (by simp)
  | readIdentity provider =>
      simp only [State.handlerStep, hpc] at hstep
      split at hstep
      next provider' identity =>
        simp only [Option.some.injEq] at hstep
        subst next
        apply hinv.moveHandler hget (by simp [hpc])
        intro inst _ hsafe
        exact hsafe.negotiate rfl
          (hsafe.negotiating (by simp [hpc, HandlerPc.negotiating]))
          (by simp [HandlerPc.negotiated]) (by simp)
      next =>
        simp only [Option.some.injEq] at hstep
        subst next
        apply hinv.moveHandler hget (by simp [hpc])
        intro inst _ hsafe
        exact hsafe.close
  | handshake provider identity => simp [State.handlerStep, hpc] at hstep
  | useCipher params =>
      simp only [State.handlerStep, hpc, Option.some.injEq] at hstep
      subst next
      apply hinv.setConnection hget
      · rfl
      · exact id
      · intro inst _ hsafe
        have hcompleted := hsafe.negotiated (by simp [hpc, HandlerPc.negotiated])
        have hpath := hsafe.negotiating (by simp [hpc, HandlerPc.negotiating])
        exact Connection.safe_of_negotiating rfl hpath (fun _ => hcompleted) (fun _ _ => rfl)
          (fun _ => hcompleted)
      · exact hinv.not_holder hget (by simp [hpc])
  | publish params => exact hinv.publishStep hget hpc hstep
  | loop =>
      simp only [State.handlerStep, hpc, Option.some.injEq] at hstep
      subst next
      exact hinv.loopCheck hget hpc
  | reading => simp [State.handlerStep, hpc] at hstep
  | received completed attached =>
      simp only [State.handlerStep, hpc, Option.some.injEq] at hstep
      subst next
      exact hinv.dispatch hget hpc
  | dispatching => simp [State.handlerStep, hpc] at hstep
  | closed => simp [State.handlerStep, hpc] at hstep

theorem Invariant.publishHere {s : State} (hinv : Invariant s) {j : ℕ}
    {c : Connection} {params : PqChannelParams} (hget : s.connections[j]? = some c)
    (hpc : c.pc = .publish params) (hgate : ∀ k checked, s.gate ≠ .publish k checked) :
    Invariant (if s.cancelled c.owner then s.setConnection j { c with pc := .loop }
      else { s.setConnection j { c with pc := .loop } with
        posture := some ⟨j, params⟩ }) := by
  obtain ⟨inst, hinst, hsafe⟩ := hinv.safe j c hget
  have hattached := hsafe.published params hpc
  have hrequire : inst.cancelled = true ∨ inst.requirePq = true :=
    hsafe.negotiating (by simp [hpc, HandlerPc.negotiating])
  have hlooped : Invariant (s.setConnection j { c with pc := .loop }) :=
    hinv.setConnection hget rfl id
      (fun _ _ hfound => hfound.enterLoop (Or.inl hattached)) (hgate j)
  rw [State.cancelled_eq hinst]
  by_cases hcancelled : inst.cancelled = true
  · rw [if_pos hcancelled]
    exact hlooped
  · rw [if_neg hcancelled]
    rw [Bool.not_eq_true] at hcancelled
    have hpq : inst.requirePq = true := by simpa [hcancelled] using hrequire
    have hlt := (List.getElem?_eq_some_iff.mp hget).1
    exact hlooped.setPosture params (List.getElem?_set_self hlt) hinst
      (hsafe.attached hattached) hpq hcancelled

theorem Invariant.publishNested {s next : State} (hinv : Invariant s) {j : ℕ}
    {c : Connection} (hget : s.connections[j]? = some c)
    (hstep : s.publishNested j c = some next) : Invariant next := by
  have hpublished : ∀ params, c.pc = .publish params →
      (∀ k checked, s.gate ≠ .publish k checked) →
      (if s.cancelled c.owner then some (s.setConnection j { c with pc := .loop })
        else some { s.setConnection j { c with pc := .loop } with
          posture := some ⟨j, params⟩ }) = some next → Invariant next := by
    intro params hpc hgate hnext
    have hhere := hinv.publishHere hget hpc hgate
    split_ifs at hnext hhere with hcancelled
    · exact Option.some.inj hnext ▸ hhere
    · exact Option.some.inj hnext ▸ hhere
  unfold State.publishNested at hstep
  split at hstep
  next params launched flags hpc hgate =>
    exact hpublished params hpc (by simp [hgate]) hstep
  next params target hpc hgate =>
    exact hpublished params hpc (by simp [hgate]) hstep
  next => cases hstep

theorem Connection.after_owner {c c' : Connection} {outcome : Outcome}
    (hafter : c.after outcome = some c') : c'.owner = c.owner := by
  unfold Connection.after at hafter
  split at hafter <;> simp at hafter <;> subst c' <;> rfl

theorem Connection.after_completed {c c' : Connection} {outcome : Outcome}
    (hafter : c.after outcome = some c')
    (hcompleted : c.handshakeCompleted = true) : c'.handshakeCompleted = true := by
  unfold Connection.after at hafter
  split at hafter <;> simp at hafter <;> subst c' <;> simp [hcompleted]

theorem Connection.after_not_publish {c c' : Connection} {outcome : Outcome}
    (hafter : c.after outcome = some c') (params : PqChannelParams) :
    c.pc ≠ .publish params := by
  intro hpc
  simp [Connection.after, hpc] at hafter

theorem Connection.Safe.after {inst : Instance} {c c' : Connection}
    {outcome : Outcome} (hsafe : c.Safe inst)
    (hafter : c.after outcome = some c') : c'.Safe inst := by
  unfold Connection.after at hafter
  split at hafter
  next provider identity params hpc =>
    have heq := Option.some.inj hafter
    subst c'
    have hpath := hsafe.negotiating (by simp [hpc, HandlerPc.negotiating])
    exact Connection.safe_of_negotiating rfl hpath (fun _ => rfl) nofun (fun _ => rfl)
  next =>
    have heq := Option.some.inj hafter
    subst c'
    exact hsafe.close
  next hpc =>
    have heq := Option.some.inj hafter
    subst c'
    refine hsafe.serve rfl (hsafe.serving (by simp [hpc, HandlerPc.serving])) ?_
    intro completed attached hreceived
    cases hreceived
    exact ⟨rfl, rfl⟩
  next =>
    have heq := Option.some.inj hafter
    subst c'
    exact hsafe.close
  next =>
    have heq := Option.some.inj hafter
    subst c'
    exact hsafe.close
  next hpc =>
    have heq := Option.some.inj hafter
    subst c'
    have hserve := hsafe.serving (by simp [hpc, HandlerPc.serving])
    apply hsafe.enterLoop
    rcases hserve with hattached | hplain
    · exact Or.inl hattached
    · exact Or.inr (Or.inr hplain)
  next =>
    have heq := Option.some.inj hafter
    subst c'
    exact hsafe.close
  next => cases hafter

theorem Invariant.accept {s next : State} (hinv : Invariant s) {owner : ℕ}
    (hstep : s.accept owner = some next) : Invariant next := by
  unfold State.accept at hstep
  cases hinst : s.instances[owner]? with
  | none => simp [hinst] at hstep
  | some inst =>
      simp only [hinst] at hstep
      split_ifs at hstep with hlistening
      have heq := Option.some.inj hstep
      subst next
      have hkeep {j : ℕ} {c : Connection} (hget : s.connections[j]? = some c) :
          (s.connections ++ [⟨owner, .accepted, false, false⟩])[j]? = some c := by
        rw [List.getElem?_append_left (List.getElem?_eq_some_iff.mp hget).1]
        exact hget
      constructor
      · exact hinv.live
      · exact hinv.consistent
      · intro j c hget
        by_cases hlt : j < s.connections.length
        · rw [List.getElem?_append_left hlt] at hget
          exact hinv.safe j c hget
        · have hmem : c ∈ [(⟨owner, .accepted, false, false⟩ : Connection)] := by
            rw [List.getElem?_append_right (Nat.not_lt.mp hlt)] at hget
            exact List.mem_of_getElem? hget
          have hc := List.mem_singleton.mp hmem
          subst c
          refine ⟨inst, hinst, ?_⟩
          constructor <;>
            simp [HandlerPc.serving, HandlerPc.negotiating, HandlerPc.negotiated]
      · intro j checked hgate
        obtain ⟨c, params, hget, hrest⟩ := hinv.holder j checked hgate
        exact ⟨c, params, hkeep hget, hrest⟩
      · intro d hd
        obtain ⟨c, found, hget, hrest⟩ := hinv.dispatched d hd
        exact ⟨c, found, hkeep hget, hrest⟩
      · intro p hp
        obtain ⟨c, found, hhonest⟩ := hinv.honest p hp
        exact ⟨c, found, hkeep hhonest.connection, hhonest.owner,
          hhonest.requirePq, hhonest.completed, hhonest.running⟩

/-! ## Steps of Start and Stop -/

/-- The instances, the connections and the dispatches are left alone. -/
structure SameTables (s next : State) : Prop where
  instances : next.instances = s.instances
  connections : next.connections = s.connections
  dispatched : next.dispatched = s.dispatched

theorem Invariant.setStatics {s next : State} (hinv : Invariant s)
    (hsame : SameTables s next)
    (hlive : ∀ (i : ℕ) (inst : Instance), s.instances[i]? = some inst →
      inst.cancelled = false → next.current = some i ∧ inst.requirePq = next.requirePq)
    (hconsistent : next.Consistent)
    (hgate : ∀ j checked, next.gate ≠ .publish j checked)
    (hposture : ∀ p, next.posture = some p → s.posture = some p ∧
      ∀ i pc, s.gate = .stop pc (some i) → ∃ pc', next.gate = .stop pc' (some i)) :
    Invariant next := by
  constructor
  · rw [hsame.instances]
    exact hlive
  · exact hconsistent
  · rw [hsame.instances, hsame.connections]
    exact hinv.safe
  · intro j checked hholder
    exact absurd hholder (hgate j checked)
  · rw [hsame.dispatched, hsame.instances, hsame.connections]
    exact hinv.dispatched
  · intro p hp
    obtain ⟨hold, hstop⟩ := hposture p hp
    obtain ⟨c, inst, hhonest⟩ := hinv.honest p hold
    refine ⟨c, inst, ?_, ?_, hhonest.requirePq, hhonest.completed, ?_⟩
    · rw [hsame.connections]
      exact hhonest.connection
    · rw [hsame.instances]
      exact hhonest.owner
    · rcases hhonest.running with hup | ⟨pc, hgate⟩
      · exact Or.inl hup
      · exact Or.inr (hstop c.owner pc hgate)

theorem Invariant.no_live {s : State} (hinv : Invariant s) (hnone : s.current = none)
    {i : ℕ} {inst : Instance} (hget : s.instances[i]? = some inst)
    (hcancelled : inst.cancelled = false) : False := by
  have hcurrent := (hinv.live i inst hget hcancelled).1
  rw [hnone] at hcurrent
  cases hcurrent

theorem Invariant.launch {s : State} (hinv : Invariant s) {flags : BitVec 32}
    (hgate : s.gate = .start .launch flags) :
    Invariant { s with
      instances := s.instances ++ [⟨requiresPq flags, true, false⟩]
      gate := .start (.setListener s.instances.length) flags } := by
  have hconsistent := hinv.consistent
  simp only [State.Consistent, hgate] at hconsistent
  have hnone : s.current = none := by
    simp [State.current, hgate, hconsistent.1]
  have hkeep {i : ℕ} {inst : Instance} (hget : s.instances[i]? = some inst) :
      (s.instances ++ [⟨requiresPq flags, true, false⟩])[i]? = some inst := by
    rw [List.getElem?_append_left (List.getElem?_eq_some_iff.mp hget).1]
    exact hget
  constructor
  · intro i inst hget hcancelled
    by_cases hlt : i < s.instances.length
    · rw [List.getElem?_append_left hlt] at hget
      exact (hinv.no_live hnone hget hcancelled).elim
    · have hlast : i = s.instances.length := by
        have hbound := (List.getElem?_eq_some_iff.mp hget).1
        simp only [List.length_append, List.length_singleton] at hbound
        omega
      subst i
      have hinst : inst = ⟨requiresPq flags, true, false⟩ := by
        simpa using hget.symm
      subst inst
      exact ⟨rfl, hconsistent.2.2.symm⟩
  · exact hconsistent
  · intro j c hget
    obtain ⟨inst, hinst, hsafe⟩ := hinv.safe j c hget
    exact ⟨inst, hkeep hinst, hsafe⟩
  · simp
  · intro d hd
    obtain ⟨c, inst, hget, hinst, hsealed⟩ := hinv.dispatched d hd
    exact ⟨c, inst, hget, hkeep hinst, hsealed⟩
  · intro p hp
    obtain ⟨c, inst, hhonest⟩ := hinv.honest p hp
    refine ⟨c, inst, hhonest.connection, hkeep hhonest.owner, hhonest.requirePq,
      hhonest.completed, ?_⟩
    rcases hhonest.running with hup | ⟨pc, hstop⟩
    · exact Or.inl hup
    · rw [hgate] at hstop
      cases hstop

theorem Invariant.beforeLaunch {s next : State} (hinv : Invariant s)
    {pc : StartPc} {flags : BitVec 32} (hgate : s.gate = .start pc flags)
    (hnone : s.current = none) (hsame : SameTables s next)
    (hposture : next.posture = s.posture) (hconsistent : next.Consistent)
    (hnext : ∀ j checked, next.gate ≠ .publish j checked) : Invariant next := by
  apply hinv.setStatics hsame
  · intro i inst hget hcancelled
    exact (hinv.no_live hnone hget hcancelled).elim
  · exact hconsistent
  · exact hnext
  · intro p hp
    rw [hposture] at hp
    exact ⟨hp, by simp [hgate]⟩

theorem Invariant.afterLaunch {s next : State} (hinv : Invariant s)
    {pc : StartPc} {flags : BitVec 32} (hgate : s.gate = .start pc flags)
    (hcurrent : next.current = s.current) (hflag : next.requirePq = s.requirePq)
    (hsame : SameTables s next)
    (hposture : next.posture = s.posture) (hconsistent : next.Consistent)
    (hnext : ∀ j checked, next.gate ≠ .publish j checked) : Invariant next := by
  apply hinv.setStatics hsame
  · rw [hcurrent, hflag]
    exact hinv.live
  · exact hconsistent
  · exact hnext
  · intro p hp
    rw [hposture] at hp
    exact ⟨hp, by simp [hgate]⟩

theorem Invariant.startStep {s : State} (hinv : Invariant s) {pc : StartPc}
    {flags : BitVec 32} (hgate : s.gate = .start pc flags) :
    Invariant (s.startStep pc flags) := by
  have hconsistent := hinv.consistent
  simp only [State.Consistent, hgate] at hconsistent
  cases pc with
  | enter =>
      cases hlistener : s.listener with
      | none =>
          rw [hlistener] at hconsistent
          simp only [State.startStep, hlistener]
          apply hinv.beforeLaunch hgate
          · simp [State.current, hgate, hlistener]
          · exact ⟨rfl, rfl, rfl⟩
          · rfl
          · exact ⟨rfl, hconsistent⟩
          · simp
      | some launched =>
          have hreturn (result : StartResult) : Invariant (s.returns result) := by
            apply hinv.afterLaunch hgate
            · simp [State.current, State.returns, hgate]
            · rfl
            · exact ⟨rfl, rfl, rfl⟩
            · rfl
            · exact hconsistent
            · simp [State.returns]
          simp only [State.startStep, hlistener]
          split_ifs with hmismatch
          · exact hreturn .invalidArgument
          · exact hreturn (.port launched)
  | initEngine | createProvider | createIdentity | listen =>
      apply hinv.beforeLaunch hgate
      · simp [State.current, hgate, hconsistent.1]
      · exact ⟨rfl, rfl, rfl⟩
      · rfl
      · exact hconsistent
      · simp [State.startStep]
  | setFlag =>
      apply hinv.beforeLaunch hgate
      · simp [State.current, hgate, hconsistent.1]
      · exact ⟨rfl, rfl, rfl⟩
      · rfl
      · unfold State.startStep
        by_cases hrequire : requiresPq flags = true
        · simp [State.Consistent, hrequire, hconsistent]
        · simp [State.Consistent, hrequire, hconsistent]
      · simp [State.startStep]
  | launch => exact hinv.launch hgate
  | setListener launched =>
      apply hinv.afterLaunch hgate
      · simp [State.current, State.startStep, hgate]
      · rfl
      · exact ⟨rfl, rfl, rfl⟩
      · rfl
      · exact ⟨rfl, hconsistent.2⟩
      · simp [State.startStep]
  | setCts launched =>
      apply hinv.afterLaunch hgate
      · simp [State.current, State.startStep, State.returns, hgate, hconsistent.1]
      · rfl
      · exact ⟨rfl, rfl, rfl⟩
      · rfl
      · exact hconsistent.1.symm
      · simp [State.startStep, State.returns]

theorem Invariant.startThrow {s : State} (hinv : Invariant s) {pc : StartPc}
    {flags : BitVec 32} (hgate : s.gate = .start pc flags)
    (hthrow : pc.mayThrow = true) : Invariant (s.returns .threw) := by
  have hconsistent := hinv.consistent
  simp only [State.Consistent, hgate] at hconsistent
  have hempty : s.listener = none ∧ s.cts = none ∧ s.current = none := by
    cases pc <;>
      simp_all [StartPc.mayThrow, State.current]
  apply hinv.beforeLaunch hgate hempty.2.2
  · exact ⟨rfl, rfl, rfl⟩
  · rfl
  · exact hempty.2.1.trans hempty.1.symm
  · simp [State.returns]

theorem Connection.Safe.cancel {inst : Instance} {c : Connection}
    (hsafe : c.Safe inst) : c.Safe { inst with cancelled := true } := by
  constructor
  · exact fun _ => Or.inr (Or.inl rfl)
  · exact hsafe.serving
  · exact fun _ => Or.inl rfl
  · exact hsafe.negotiated
  · exact hsafe.published
  · exact hsafe.attached
  · exact hsafe.snapshot

theorem Connection.Safe.stopListening {inst : Instance} {c : Connection}
    (hsafe : c.Safe inst) : c.Safe { inst with listening := false } := by
  constructor
  · exact hsafe.plain
  · exact hsafe.serving
  · exact hsafe.negotiating
  · exact hsafe.negotiated
  · exact hsafe.published
  · exact hsafe.attached
  · exact hsafe.snapshot

/-- `Stop` changes an instance only by cancelling it or closing its listener,
and then stays the holder of the gate. -/
theorem Invariant.setInstance {s : State} (hinv : Invariant s) {pc pc' : StopPc}
    {target : Option ℕ} (hgate : s.gate = .stop pc target) (i : ℕ)
    {update : Instance → Instance}
    (hflag : ∀ inst, (update inst).requirePq = inst.requirePq)
    (hsafe : ∀ inst c, Connection.Safe inst c → Connection.Safe (update inst) c)
    (hdown : ∀ (k : ℕ) (inst : Instance), s.instances[k]? = some inst →
      (if i = k then update inst else inst).cancelled = true)
    (htarget : ∀ (k : ℕ) (inst : Instance), s.instances[k]? = some inst →
      inst.cancelled = false → target = some k)
    (hconsistent : { s.setInstance i update with gate := .stop pc' target }.Consistent) :
    Invariant { s.setInstance i update with gate := .stop pc' target } := by
  have hkeep {k : ℕ} {inst : Instance} (hget : s.instances[k]? = some inst) :
      ∃ inst', (s.instances.modify i update)[k]? = some inst' ∧
        (inst' = inst ∨ inst' = update inst) := by
    by_cases heq : i = k
    · subst k
      refine ⟨update inst, ?_, Or.inr rfl⟩
      simp [hget]
    · refine ⟨inst, ?_, Or.inl rfl⟩
      rw [List.getElem?_modify_ne _ _ heq]
      exact hget
  constructor
  · intro k inst hget hlive
    simp only [State.setInstance, List.getElem?_modify, Option.map_eq_map,
      Option.map_eq_some_iff] at hget
    obtain ⟨old, hold, heq⟩ := hget
    have hcancelled := hdown k old hold
    rw [heq, hlive] at hcancelled
    contradiction
  · exact hconsistent
  · intro j c hget
    obtain ⟨inst, hinst, hc⟩ := hinv.safe j c hget
    obtain ⟨inst', hinst', hsame | hupdated⟩ := hkeep hinst
    · subst inst'
      exact ⟨inst, hinst', hc⟩
    · subst inst'
      exact ⟨update inst, hinst', hsafe inst c hc⟩
  · simp
  · intro d hd
    obtain ⟨c, inst, hget, hinst, hsealed⟩ := hinv.dispatched d hd
    obtain ⟨inst', hinst', hsame | hupdated⟩ := hkeep hinst
    · subst inst'
      exact ⟨c, inst, hget, hinst', hsealed⟩
    · subst inst'
      refine ⟨c, update inst, hget, hinst', ?_⟩
      rw [hflag]
      exact hsealed
  · intro p hp
    obtain ⟨c, inst, hhonest⟩ := hinv.honest p hp
    have howner : target = some c.owner := by
      rcases hhonest.running with hup | ⟨_, hstop⟩
      · exact htarget c.owner inst hhonest.owner hup
      · rw [hgate] at hstop
        cases hstop
        rfl
    obtain ⟨inst', hinst', hsame⟩ := hkeep hhonest.owner
    refine ⟨c, inst', hhonest.connection, hinst', ?_, hhonest.completed,
      Or.inr ⟨pc', by rw [howner]⟩⟩
    rcases hsame with hsame | hupdated
    · rw [hsame]
      exact hhonest.requirePq
    · rw [hupdated, hflag]
      exact hhonest.requirePq

theorem Invariant.stopMove {s next : State} (hinv : Invariant s) {pc pc' : StopPc}
    {target : Option ℕ} (hgate : s.gate = .stop pc target)
    (hnone : s.current = none) (hsame : SameTables s next)
    (hposture : next.posture = s.posture) (hconsistent : next.Consistent)
    (hnext : next.gate = .stop pc' target) : Invariant next := by
  apply hinv.setStatics hsame
  · intro i inst hget hcancelled
    exact (hinv.no_live hnone hget hcancelled).elim
  · exact hconsistent
  · simp [hnext]
  · intro p hp
    rw [hposture] at hp
    refine ⟨hp, ?_⟩
    intro i pc'' hstop
    rw [hgate] at hstop
    cases hstop
    exact ⟨pc', hnext⟩

theorem Invariant.cancel {s : State} (hinv : Invariant s) {target : Option ℕ}
    (hgate : s.gate = .stop .cancel target) :
    Invariant (s.stopStep .cancel target) := by
  have hconsistent := hinv.consistent
  simp only [State.Consistent, hgate] at hconsistent
  obtain ⟨hcts, htarget⟩ := hconsistent
  have hcurrent : s.current = s.cts := by
    simp [State.current, hgate, hcts]
  cases hfound : s.cts with
  | none =>
      simp only [State.stopStep, hfound]
      apply hinv.stopMove hgate
      · rw [hcurrent, hfound]
      · exact ⟨rfl, rfl, rfl⟩
      · rfl
      · trivial
      · rfl
  | some i =>
      have honly : ∀ (k : ℕ) (inst : Instance), s.instances[k]? = some inst →
          inst.cancelled = false → k = i := by
        intro k inst hget hlive
        have hk := (hinv.live k inst hget hlive).1
        rw [hcurrent, hfound] at hk
        exact (Option.some.inj hk).symm
      simp only [State.stopStep, hfound]
      apply hinv.setInstance hgate i
      · exact fun _ => rfl
      · exact fun _ _ hsafe => hsafe.cancel
      · intro k inst hget
        by_cases heq : i = k
        · rw [if_pos heq]
        · rw [if_neg heq]
          cases hlive : inst.cancelled with
          | true => rfl
          | false => exact absurd (honly k inst hget hlive).symm heq
      · intro k inst hget hlive
        have hk := honly k inst hget hlive
        subst k
        rw [htarget, hfound]
      · trivial

theorem Invariant.stopStep {s : State} (hinv : Invariant s) {pc : StopPc}
    {target : Option ℕ} (hgate : s.gate = .stop pc target) :
    Invariant (s.stopStep pc target) := by
  have hconsistent := hinv.consistent
  simp only [State.Consistent, hgate] at hconsistent
  cases pc with
  | cancel => exact hinv.cancel hgate
  | stopListener =>
      have hnone : s.current = none := by simp [State.current, hgate]
      cases hlistener : s.listener with
      | none =>
          simp only [State.stopStep, hlistener]
          apply hinv.stopMove hgate hnone
          · exact ⟨rfl, rfl, rfl⟩
          · rfl
          · trivial
          · rfl
      | some i =>
          simp only [State.stopStep, hlistener]
          apply hinv.setInstance hgate i
          · exact fun _ => rfl
          · exact fun _ _ hsafe => hsafe.stopListening
          · intro k inst hget
            have hcancelled : inst.cancelled = true := by
              cases hlive : inst.cancelled with
              | true => rfl
              | false => exact (hinv.no_live hnone hget hlive).elim
            split_ifs <;> exact hcancelled
          · intro k inst hget hlive
            exact (hinv.no_live hnone hget hlive).elim
          · trivial
  | dispose =>
      apply hinv.stopMove hgate (by simp [State.current, hgate])
      · exact ⟨rfl, rfl, rfl⟩
      · rfl
      · trivial
      · rfl
  | clearListener =>
      apply hinv.stopMove hgate (by simp [State.current, hgate])
      · exact ⟨rfl, rfl, rfl⟩
      · rfl
      · rfl
      · rfl
  | clearCts =>
      apply hinv.stopMove hgate (by simp [State.current, hgate])
      · exact ⟨rfl, rfl, rfl⟩
      · rfl
      · exact ⟨hconsistent, rfl⟩
      · rfl
  | clearProvider =>
      apply hinv.stopMove hgate (by simp [State.current, hgate])
      · exact ⟨rfl, rfl, rfl⟩
      · rfl
      · exact hconsistent
      · rfl
  | clearIdentity =>
      apply hinv.stopMove hgate (by simp [State.current, hgate])
      · exact ⟨rfl, rfl, rfl⟩
      · rfl
      · exact hconsistent
      · rfl
  | clearPosture =>
      have hnone : s.current = none := by simp [State.current, hgate]
      apply hinv.setStatics
      · exact ⟨rfl, rfl, rfl⟩
      · intro i inst hget hlive
        exact (hinv.no_live hnone hget hlive).elim
      · exact hconsistent.2.trans hconsistent.1.symm
      · simp [State.stopStep]
      · simp [State.stopStep]

end PbFrameServer

end NativeInterop
