import NativeInterop.FfiSessions
import Mathlib.Tactic

/-!
# The ledger of the session registry

`SessionRegistry` and `FfiState.AllocatedIds` are two dictionaries that a start
fills one after the other, a free empties in the opposite order, and a shutdown
empties by enumerating one and clearing it.  `Role` forgets of a call everything
but the ids and sessions it still answers for; `Effect` says what one step does to
the two dictionaries and to the role of the call that takes it, and each entry of
the ledger is kept by every effect.
-/

namespace NativeInterop

namespace Ffi

/-- What a call in progress still answers for. -/
inductive Role where
  | idle
  | numbering (session : ℕ)
  | registering (session id : ℕ)
  | tracking (session id : ℕ)
  | named (id : ℕ)
  | untracked (id : ℕ)
  | removing (id session : ℕ)
  | freed (id : ℕ)
  | shutting (ids pending : List ℕ)
  | awaiting (pending : List ℕ)
  deriving DecidableEq, Repr

def Thread.role : Thread → Role
  | .startNumber session => .numbering session
  | .startRegister session id => .registering session id
  | .startTrack session id => .tracking session id
  | .startDrain _ id => .named id
  | .startReturn id => .named id
  | .started id => .named id
  | .freeRemove id => .untracked id
  | .freeCancel id session => .removing id session
  | .freeAwait id session => .removing id session
  | .freeReturn id _ => .freed id
  | .freed id .ok => .freed id
  | .shutdownRemove ids pending => .shutting ids pending
  | .shutdownCancel session ids pending => .shutting ids (pending ++ [session])
  | .shutdownClear pending => .shutting [] pending
  | .shutdownAwait pending => .awaiting pending
  | _ => .idle

/-- A session keeps its disposal. -/
def SessionsKept : List FfiSession → List FfiSession → Prop :=
  Evolves (fun before after => before.disposed = true → after.disposed = true)
    fun _ => True

structure SameDictionaries (bridge next : Bridge) : Prop where
  next_eq : next.next = bridge.next
  registry_eq : next.registry = bridge.registry
  allocatedIds_eq : next.allocatedIds = bridge.allocatedIds
  sessions_kept : SessionsKept bridge.sessions next.sessions
  length_eq : next.sessions.length = bridge.sessions.length

/-- One step of a call, as far as the two dictionaries are concerned. -/
inductive Effect (bridge : Bridge) : Role → Bridge → Role → Prop where
  | inert {next : Bridge} {role : Role} (hsame : SameDictionaries bridge next) :
      Effect bridge role next role
  | create (entry : FfiSession) :
      Effect bridge .idle { bridge with sessions := bridge.sessions ++ [entry] }
        (.numbering bridge.sessions.length)
  | number (session : ℕ) :
      Effect bridge (.numbering session) { bridge with next := bridge.next + 1 }
        (.registering session (bridge.next + 1))
  | register (session id : ℕ) :
      Effect bridge (.registering session id)
        ({ bridge with registry := bridge.registry ++ [(id, session)] }.modifySession
          session (.register id)) (.tracking session id)
  | track (session id : ℕ) :
      Effect bridge (.tracking session id)
        { bridge with allocatedIds := bridge.allocatedIds ++ [id] } (.named id)
  | untrack (id : ℕ) :
      Effect bridge .idle
        { bridge with allocatedIds := bridge.allocatedIds.filter (· ≠ id) }
        (.untracked id)
  | free (id session : ℕ) (hfound : bridge.tryGet id = some session) :
      Effect bridge (.untracked id) (bridge.unregister id) (.removing id session)
  | unknown (id : ℕ) (hfound : bridge.tryGet id = none) :
      Effect bridge (.untracked id) bridge .idle
  | dispose (id session : ℕ) :
      Effect bridge (.removing id session) (bridge.modifySession session .dispose)
        (.freed id)
  | enumerate :
      Effect bridge .idle bridge (.shutting bridge.allocatedIds [])
  | remove (id : ℕ) (ids pending : List ℕ) (session : ℕ)
      (hfound : bridge.tryGet id = some session) :
      Effect bridge (.shutting (id :: ids) pending) (bridge.unregister id)
        (.shutting ids (pending ++ [session]))
  | skip (id : ℕ) (ids pending : List ℕ) (hfound : bridge.tryGet id = none) :
      Effect bridge (.shutting (id :: ids) pending) bridge (.shutting ids pending)
  | clear (pending : List ℕ) :
      Effect bridge (.shutting [] pending) { bridge with allocatedIds := [] }
        (.awaiting pending)
  | disposePending (session : ℕ) (pending : List ℕ) :
      Effect bridge (.awaiting (session :: pending))
        (bridge.modifySession session .dispose) (.awaiting pending)
  | settled : Effect bridge (.awaiting []) bridge .idle

theorem SameDictionaries.refl (bridge : Bridge) : SameDictionaries bridge bridge :=
  ⟨rfl, rfl, rfl, Evolves.refl (fun _ => id) _, rfl⟩

theorem modifySession_sameDictionaries (bridge : Bridge) (n : ℕ)
    {update : FfiSession → FfiSession}
    (hupdate : ∀ entry : FfiSession, entry.disposed = true →
      (update entry).disposed = true) :
    SameDictionaries bridge (bridge.modifySession n update) where
  next_eq := rfl
  registry_eq := rfl
  allocatedIds_eq := rfl
  sessions_kept := Evolves.modify (fun _ => id) fun entry _ => hupdate entry
  length_eq := by simp [Bridge.modifySession]

theorem releaseRegistered_disposed (entry : FfiSession)
    (hdisposed : entry.disposed = true) : entry.releaseRegistered.disposed = true := by
  unfold FfiSession.releaseRegistered
  split_ifs <;> exact hdisposed

theorem advance_effect {bridge next : Bridge} {thread after : Thread}
    (hadvance : bridge.advance thread = some (next, after)) :
    Effect bridge thread.role next after.role := by
  cases thread with
  | startCheck kind validArguments generation =>
      simp only [Bridge.advance] at hadvance
      split_ifs at hadvance <;> cases hadvance <;> exact .inert (.refl bridge)
  | startCreate kind generation =>
      simp only [Bridge.advance] at hadvance
      split_ifs at hadvance
      · cases hadvance
        exact .create _
      · cases hadvance
        exact .inert (.refl bridge)
  | startNumber session =>
      cases hadvance
      exact .number session
  | startRegister session id =>
      cases hadvance
      exact .register session id
  | startTrack session id =>
      cases hadvance
      exact .track session id
  | startDrain session id =>
      cases hadvance
      exact .inert (modifySession_sameDictionaries bridge session fun _ hdisposed => hdisposed)
  | cancelLookup id =>
      simp only [Bridge.advance] at hadvance
      split at hadvance <;> cases hadvance <;> exact .inert (.refl bridge)
  | cancelSession session =>
      cases hadvance
      exact .inert (modifySession_sameDictionaries bridge session fun _ hdisposed => hdisposed)
  | freeUntrack id =>
      cases hadvance
      exact .untrack id
  | freeRemove id =>
      simp only [Bridge.advance] at hadvance
      split at hadvance
      · next hfound =>
          cases hadvance
          exact .unknown id hfound
      · next session hfound =>
          cases hadvance
          exact .free id session hfound
  | freeCancel id session =>
      cases hadvance
      exact .inert (modifySession_sameDictionaries bridge session fun _ hdisposed => hdisposed)
  | freeAwait id session =>
      simp only [Bridge.advance] at hadvance
      split_ifs at hadvance
      cases hadvance
      exact .dispose id session
  | freeReturn id session =>
      cases hadvance
      exact .inert (modifySession_sameDictionaries bridge session fun _ hdisposed => hdisposed)
  | shutdownEnumerate =>
      cases hadvance
      exact .enumerate
  | shutdownRemove ids pending =>
      cases ids with
      | nil =>
          cases hadvance
          exact .inert (.refl bridge)
      | cons id ids =>
          simp only [Bridge.advance] at hadvance
          split at hadvance
          · next hfound =>
              cases hadvance
              exact .skip id ids pending hfound
          · next session hfound =>
              cases hadvance
              exact .remove id ids pending session hfound
  | shutdownCancel session ids pending =>
      cases hadvance
      exact .inert (modifySession_sameDictionaries bridge session fun _ hdisposed => hdisposed)
  | shutdownClear pending =>
      cases hadvance
      exact .clear pending
  | shutdownAwait pending =>
      cases pending with
      | nil =>
          cases hadvance
          exact .settled
      | cons session pending =>
          simp only [Bridge.advance] at hadvance
          split_ifs at hadvance
          cases hadvance
          exact .disposePending session pending
  | shutdownReset =>
      cases hadvance
      exact .inert ⟨rfl, rfl, rfl, Evolves.refl (fun _ => id) _, rfl⟩
  | shutdownReturn =>
      cases hadvance
      exact .inert ⟨rfl, rfl, rfl,
        Evolves.map fun entry _ => releaseRegistered_disposed entry, by simp⟩
  | initEngine =>
      cases hadvance
      exact .inert ⟨rfl, rfl, rfl, Evolves.refl (fun _ => id) _, rfl⟩
  | startReturn id =>
      cases hadvance
      exact .inert (.refl bridge)
  | started id => cases hadvance
  | freed id status => cases hadvance
  | returned status => cases hadvance

/-! ## The ledger -/

/-- The id under which a start has registered, or will register, its session. -/
def Role.startId : Role → Option ℕ
  | .registering _ id => some id
  | .tracking _ id => some id
  | .named id => some id
  | _ => none

/-- The role excludes that the id is in the registry: it is not there yet, or a
free has taken it out. -/
def Role.claims (id : ℕ) : Role → Bool
  | .registering _ other => other = id
  | .removing other _ => other = id
  | .freed other => other = id
  | _ => false

/-- The call goes on to register or to dispose the session. -/
def Role.Carries (n : ℕ) : Role → Prop
  | .numbering session => session = n
  | .registering session _ => session = n
  | .removing _ session => session = n
  | .shutting _ pending => n ∈ pending
  | .awaiting pending => n ∈ pending
  | _ => False

/-- The call goes on to track the id, or to take it out of the registry. -/
def Role.Keeps (id n : ℕ) : Role → Prop
  | .tracking session other => session = n ∧ other = id
  | .untracked other => other = id
  | _ => False

def Bridge.DisposedAt (bridge : Bridge) (n : ℕ) : Prop :=
  ∃ entry, bridge.sessions[n]? = some entry ∧ entry.disposed = true

/-- Somebody answers for the session, or nobody needs to any more. -/
def Accounted (bridge : Bridge) (roles : List Role) (n : ℕ) : Prop :=
  (∃ role ∈ roles, role.Carries n) ∨ bridge.DisposedAt n ∨
    ∃ id, (id, n) ∈ bridge.registry ∧
      (id ∈ bridge.allocatedIds ∨ ∃ role ∈ roles, role.Keeps id n)

def keyCount (id : ℕ) (registry : List (ℕ × ℕ)) : ℕ :=
  registry.countP fun entry => entry.1 = id

/-- The ids of the starts are positive and different. -/
structure Names (bridge : Bridge) (roles : List Role) : Prop where
  bounds : ∀ role ∈ roles, ∀ id, role.startId = some id → 0 < id ∧ id ≤ bridge.next
  once : ∀ id, roles.countP (fun role => role.startId = some id) ≤ 1

/-- An id is in the registry once, or claimed once, or neither. -/
structure Claims (bridge : Bridge) (roles : List Role) : Prop where
  once : ∀ id, roles.countP (Role.claims id) + keyCount id bridge.registry ≤ 1
  fresh : ∀ id, bridge.next < id →
    roles.countP (Role.claims id) + keyCount id bridge.registry = 0

/-- An id is tracked only behind its registration. -/
structure Tracks (bridge : Bridge) (roles : List Role) : Prop where
  le_next : ∀ id ∈ bridge.allocatedIds, id ≤ bridge.next
  late : ∀ id ∈ bridge.allocatedIds, ∀ session,
    .registering session id ∉ roles ∧ .tracking session id ∉ roles

/-- A shutdown before its clear has every id that is tracked and registered still
ahead of it. -/
def Enumerated (bridge : Bridge) (roles : List Role) : Prop :=
  ∀ ids pending, .shutting ids pending ∈ roles →
    ∀ id n, (id, n) ∈ bridge.registry → id ∈ bridge.allocatedIds → id ∈ ids

section Roles

variable {bridge next : Bridge} {roles : List Role} {i : ℕ} {old new : Role}

theorem Names.effect (hnames : Names bridge roles) (hold : roles[i]? = some old)
    (heffect : Effect bridge old next new) : Names next (roles.set i new) := by
  have hmem : old ∈ roles := List.mem_of_getElem? hold
  have hle : bridge.next ≤ next.next := by
    cases heffect with
    | inert hsame => exact hsame.next_eq.ge
    | number session => exact Nat.le_succ _
    | _ => exact Nat.le_refl _
  -- only the numbering gives a call an id, and it is the next one
  have hid : ∀ id, new.startId = some id →
      old.startId = some id ∨ (id = bridge.next + 1 ∧ next.next = bridge.next + 1) := by
    intro id hnew
    cases heffect with
    | number session =>
        right
        exact ⟨(Option.some.inj hnew).symm, rfl⟩
    | inert hsame => exact Or.inl hnew
    | register session other => exact Or.inl hnew
    | track session other => exact Or.inl hnew
    | _ => cases hnew
  constructor
  · intro role hrole id hstart
    rcases List.mem_or_eq_of_mem_set hrole with hother | rfl
    · obtain ⟨hpos, hbound⟩ := hnames.bounds role hother id hstart
      exact ⟨hpos, hbound.trans hle⟩
    · rcases hid id hstart with hsame | ⟨rfl, hnext⟩
      · obtain ⟨hpos, hbound⟩ := hnames.bounds old hmem id hsame
        exact ⟨hpos, hbound.trans hle⟩
      · exact ⟨Nat.succ_pos _, hnext.ge⟩
  · intro id
    have hcount := countP_set_of_getElem? new
      (fun role : Role => decide (role.startId = some id)) hold
    have honce := hnames.once id
    by_cases hstart : new.startId = some id
    · rcases hid id hstart with hsame | ⟨rfl, _⟩
      · simp only [hstart, hsame, decide_true, if_true] at hcount
        omega
      · have hzero : roles.countP
            (fun role => decide (role.startId = some (bridge.next + 1))) = 0 := by
          rw [List.countP_eq_zero]
          intro role hrole hsome
          have hbound := (hnames.bounds role hrole _ (of_decide_eq_true hsome)).2
          omega
        simp only [hstart, decide_true, if_true, hzero] at hcount
        omega
    · simp only [hstart, decide_false, Bool.false_eq_true, if_false] at hcount
      omega

theorem tryGet_eq_none {id : ℕ} (hfound : bridge.tryGet id = none) (n : ℕ) :
    (id, n) ∉ bridge.registry := by
  intro hmem
  have hnone := Option.map_eq_none_iff.mp hfound
  have hfalse := List.find?_eq_none.mp hnone (id, n) hmem
  simp at hfalse

theorem mem_of_tryGet {id session : ℕ} (hfound : bridge.tryGet id = some session) :
    (id, session) ∈ bridge.registry := by
  obtain ⟨⟨key, value⟩, hfind, heq⟩ := Option.map_eq_some_iff.mp hfound
  have hkey := List.find?_some hfind
  simp only [beq_iff_eq] at hkey
  subst hkey heq
  exact List.mem_of_find?_eq_some hfind

theorem keyCount_pos {id n : ℕ} {registry : List (ℕ × ℕ)} (hmem : (id, n) ∈ registry) :
    0 < keyCount id registry :=
  List.countP_pos_iff.mpr ⟨(id, n), hmem, by simp⟩

theorem keyCount_append (id other session : ℕ) (registry : List (ℕ × ℕ)) :
    keyCount other (registry ++ [(id, session)]) =
      keyCount other registry + if id = other then 1 else 0 := by
  simp [keyCount, List.countP_append, List.countP_cons]

theorem keyCount_unregister_le (bridge : Bridge) (id other : ℕ) :
    keyCount other (bridge.unregister id).registry ≤ keyCount other bridge.registry :=
  List.filter_sublist.countP_le

theorem keyCount_unregister_self (bridge : Bridge) (id : ℕ) :
    keyCount id (bridge.unregister id).registry = 0 := by
  rw [keyCount, List.countP_eq_zero]
  intro entry hmem
  simpa using (List.mem_filter.mp hmem).2

theorem mem_unregister {bridge : Bridge} {id other n : ℕ} :
    (other, n) ∈ (bridge.unregister id).registry ↔
      (other, n) ∈ bridge.registry ∧ other ≠ id := by
  simp [Bridge.unregister]

theorem Claims.effect (hclaims : Claims bridge roles) (hold : roles[i]? = some old)
    (heffect : Effect bridge old next new) : Claims next (roles.set i new) := by
  have hcount := fun id => countP_set_of_getElem? new (Role.claims id) hold
  have hle : bridge.next ≤ next.next := by
    cases heffect with
    | inert hsame => exact hsame.next_eq.ge
    | number session => exact Nat.le_succ _
    | _ => exact Nat.le_refl _
  -- a step makes no id count more often, but for the numbering of a new one
  have hsum : ∀ id, id ≠ bridge.next + 1 ∨ next.next = bridge.next →
      (roles.set i new).countP (Role.claims id) + keyCount id next.registry ≤
        roles.countP (Role.claims id) + keyCount id bridge.registry := by
    intro id hother
    have hid := hcount id
    cases heffect with
    | inert hsame =>
        rw [hsame.registry_eq]
        omega
    | number session =>
        have hne : bridge.next + 1 ≠ id := by
          rcases hother with hne | hnext
          · exact hne.symm
          · simp at hnext
        simp only [Role.claims, hne, decide_false, Bool.false_eq_true, if_false] at hid
        simpa using hid.le
    | register session other =>
        simp only [Role.claims, decide_eq_true_eq, Bool.false_eq_true, if_false] at hid
        simp only [Bridge.modifySession, keyCount_append]
        omega
    | free other session hfound =>
        have hmem := keyCount_pos (mem_of_tryGet hfound)
        simp only [Role.claims, Bool.false_eq_true, if_false, decide_eq_true_eq] at hid
        by_cases hsame : other = id
        · subst hsame
          rw [keyCount_unregister_self]
          simp only [if_true] at hid
          omega
        · have hkeys := keyCount_unregister_le bridge other id
          simp only [hsame, if_false] at hid
          omega
    | remove other ids pending session hfound =>
        have hkeys := keyCount_unregister_le bridge other id
        simp only [Role.claims, Bool.false_eq_true, if_false] at hid
        omega
    | _ =>
        simp [Role.claims, Bridge.modifySession] at hid ⊢
        omega
  constructor
  · intro id
    by_cases hnew : id ≠ bridge.next + 1 ∨ next.next = bridge.next
    · exact (hsum id hnew).trans (hclaims.once id)
    · rw [not_or, not_not] at hnew
      obtain ⟨rfl, hnext⟩ := hnew
      have hfresh := hclaims.fresh (bridge.next + 1) (Nat.lt_succ_self _)
      have hid := hcount (bridge.next + 1)
      cases heffect with
      | number session =>
          simp [Role.claims] at hid
          simp
          omega
      | inert hsame => exact absurd hsame.next_eq hnext
      | _ => exact absurd rfl hnext
  · intro id hlt
    have hfresh := hclaims.fresh id (lt_of_le_of_lt hle hlt)
    have hother : id ≠ bridge.next + 1 ∨ next.next = bridge.next := by
      by_cases hnext : next.next = bridge.next
      · exact Or.inr hnext
      · left
        omega
    have hid := hsum id hother
    omega

theorem Tracks.effect (htracks : Tracks bridge roles) (hnames : Names bridge roles)
    (hold : roles[i]? = some old) (heffect : Effect bridge old next new) :
    Tracks next (roles.set i new) := by
  have hmem : old ∈ roles := List.mem_of_getElem? hold
  have hnames' := hnames.effect hold heffect
  constructor
  · intro id hid
    cases heffect with
    | inert hsame =>
        rw [hsame.next_eq]
        exact htracks.le_next id (hsame.allocatedIds_eq ▸ hid)
    | track session other =>
        rcases List.mem_append.mp hid with hbefore | hnew
        · exact htracks.le_next id hbefore
        · rw [List.mem_singleton.mp hnew]
          exact (hnames.bounds _ hmem other rfl).2
    | number session => exact (htracks.le_next id hid).trans (Nat.le_succ _)
    | untrack other => exact htracks.le_next id (List.mem_of_mem_filter hid)
    | clear pending => cases hid
    | _ => exact htracks.le_next id hid
  · intro id hid session
    -- the ids that were tracked before
    have hbefore : id ∈ bridge.allocatedIds → .registering session id ∉ roles.set i new ∧
        .tracking session id ∉ roles.set i new := by
      intro htracked
      obtain ⟨hregistering, htracking⟩ := htracks.late id htracked session
      constructor
      · intro hnew
        rcases List.mem_or_eq_of_mem_set hnew with hother | heq
        · exact hregistering hother
        · subst heq
          cases heffect with
          | inert hsame => exact hregistering hmem
          | number =>
              have hle := htracks.le_next _ htracked
              omega
      · intro hnew
        rcases List.mem_or_eq_of_mem_set hnew with hother | heq
        · exact htracking hother
        · subst heq
          cases heffect with
          | inert hsame => exact htracking hmem
          | register =>
              exact (htracks.late id htracked session).1 hmem
    cases heffect with
    | inert hsame => exact hbefore (hsame.allocatedIds_eq ▸ hid)
    | track other number =>
        rcases List.mem_append.mp hid with hold' | hnew
        · exact hbefore hold'
        · -- the call that tracked the id was the only one with it
          obtain rfl := List.mem_singleton.mp hnew
          have honce := hnames'.once id
          have hself : Role.named id ∈ roles.set i (.named id) :=
            mem_set_self_of_getElem? hold
          constructor
          · intro hother
            have htwo := two_le_countP
              (p := fun role : Role => decide (role.startId = some id)) hself hother
              (by simp) (by simp [Role.startId]) (by simp [Role.startId])
            omega
          · intro hother
            have htwo := two_le_countP
              (p := fun role : Role => decide (role.startId = some id)) hself hother
              (by simp) (by simp [Role.startId]) (by simp [Role.startId])
            omega
    | untrack other => exact hbefore (List.mem_of_mem_filter hid)
    | clear pending => cases hid
    | _ => exact hbefore hid

theorem Enumerated.effect (henumerated : Enumerated bridge roles)
    (htracks : Tracks bridge roles) (hold : roles[i]? = some old)
    (heffect : Effect bridge old next new)
    (hprompt : ∀ session id, old = .tracking session id →
      ∀ ids pending, .shutting ids pending ∉ roles) :
    Enumerated next (roles.set i new) := by
  have hmem : old ∈ roles := List.mem_of_getElem? hold
  intro ids pending hshutting id n hregistered htracked
  cases heffect with
  | inert hsame =>
      rw [hsame.registry_eq] at hregistered
      rw [hsame.allocatedIds_eq] at htracked
      rcases List.mem_or_eq_of_mem_set hshutting with hother | heq
      · exact henumerated ids pending hother id n hregistered htracked
      · exact henumerated ids pending (heq ▸ hmem) id n hregistered htracked
  | register session number =>
      rcases List.mem_or_eq_of_mem_set hshutting with hother | heq
      · rcases List.mem_append.mp hregistered with hbefore | hnew
        · exact henumerated ids pending hother id n hbefore htracked
        · -- an id that is being registered is not tracked yet
          cases List.mem_singleton.mp hnew
          exact absurd hmem (htracks.late id htracked n).1
      · cases heq
  | track session number =>
      rcases List.mem_or_eq_of_mem_set hshutting with hother | heq
      · exact absurd hother (hprompt session number rfl ids pending)
      · cases heq
  | untrack other =>
      rcases List.mem_or_eq_of_mem_set hshutting with hother | heq
      · exact henumerated ids pending hother id n hregistered
          (List.mem_of_mem_filter htracked)
      · cases heq
  | free other session hfound =>
      rcases List.mem_or_eq_of_mem_set hshutting with hother | heq
      · exact henumerated ids pending hother id n (mem_unregister.mp hregistered).1 htracked
      · cases heq
  | enumerate =>
      rcases List.mem_or_eq_of_mem_set hshutting with hother | heq
      · exact henumerated ids pending hother id n hregistered htracked
      · cases heq
        exact htracked
  | remove other rest before session hfound =>
      obtain ⟨hregistered, hne⟩ := mem_unregister.mp hregistered
      rcases List.mem_or_eq_of_mem_set hshutting with hother | heq
      · exact henumerated ids pending hother id n hregistered htracked
      · cases heq
        have hin := henumerated _ _ hmem id n hregistered htracked
        exact (List.mem_cons.mp hin).resolve_left hne
  | skip other rest before hfound =>
      rcases List.mem_or_eq_of_mem_set hshutting with hother | heq
      · exact henumerated ids pending hother id n hregistered htracked
      · cases heq
        have hin := henumerated _ _ hmem id n hregistered htracked
        rcases List.mem_cons.mp hin with rfl | hrest
        · exact absurd hregistered (tryGet_eq_none hfound n)
        · exact hrest
  | clear before => cases htracked
  | _ =>
      rcases List.mem_or_eq_of_mem_set hshutting with hother | heq
      · exact henumerated ids pending hother id n hregistered htracked
      · cases heq

theorem Claims.registered_unique (hclaims : Claims bridge roles) {id n m : ℕ}
    (hn : (id, n) ∈ bridge.registry) (hm : (id, m) ∈ bridge.registry) : n = m := by
  by_contra hne
  have htwo := two_le_countP (p := fun entry : ℕ × ℕ => decide (entry.1 = id)) hn hm
    (by simp [hne]) (by simp) (by simp)
  have honce := hclaims.once id
  rw [keyCount] at honce
  omega

theorem Effect.disposedAt (heffect : Effect bridge old next new) {n : ℕ}
    (hdisposed : bridge.DisposedAt n) : next.DisposedAt n := by
  obtain ⟨entry, hentry, htrue⟩ := hdisposed
  have hkept : SessionsKept bridge.sessions next.sessions → next.DisposedAt n := by
    intro hsessions
    obtain ⟨after, hafter, hkeep⟩ := hsessions.kept n entry hentry
    exact ⟨after, hafter, hkeep htrue⟩
  cases heffect with
  | inert hsame => exact hkept hsame.sessions_kept
  | create new => exact hkept (Evolves.append (fun _ => id) _ trivial)
  | register session number =>
      exact hkept (Evolves.modify (fun _ => id) fun _ _ hbefore => hbefore)
  | dispose number session =>
      exact hkept (Evolves.modify (fun _ => id) fun _ _ _ => rfl)
  | disposePending session pending =>
      exact hkept (Evolves.modify (fun _ => id) fun _ _ _ => rfl)
  | _ => exact ⟨entry, hentry, htrue⟩

theorem dispose_disposedAt {n : ℕ} (hn : n < bridge.sessions.length) :
    (bridge.modifySession n .dispose).DisposedAt n := by
  refine ⟨(bridge.sessions[n]).dispose, ?_, rfl⟩
  simp [Bridge.modifySession, hn]

theorem Effect.carried (heffect : Effect bridge old next new) {n : ℕ}
    (hn : n < bridge.sessions.length) (hcarries : old.Carries n) :
    new.Carries n ∨ next.DisposedAt n ∨
      ∃ id, (id, n) ∈ next.registry ∧ new.Keeps id n := by
  cases heffect with
  | inert hsame => exact Or.inl hcarries
  | number session => exact Or.inl hcarries
  | register session number =>
      obtain rfl : session = n := hcarries
      right
      right
      exact ⟨number, by simp [Bridge.modifySession], rfl, rfl⟩
  | dispose number session =>
      obtain rfl : session = n := hcarries
      exact Or.inr (Or.inl (dispose_disposedAt hn))
  | remove number ids pending session hfound =>
      exact Or.inl (List.mem_append_left _ hcarries)
  | skip number ids pending hfound => exact Or.inl hcarries
  | clear pending => exact Or.inl hcarries
  | disposePending session pending =>
      rcases List.mem_cons.mp hcarries with rfl | hrest
      · exact Or.inr (Or.inl (dispose_disposedAt hn))
      · exact Or.inl hrest
  | settled => cases hcarries
  | _ => exact hcarries.elim

theorem Effect.registered (heffect : Effect bridge old next new)
    (hclaims : Claims bridge roles) {id n : ℕ} (hmem : (id, n) ∈ bridge.registry) :
    (id, n) ∈ next.registry ∨ new.Carries n := by
  cases heffect with
  | inert hsame =>
      rw [hsame.registry_eq]
      exact Or.inl hmem
  | register session number => exact Or.inl (List.mem_append_left _ hmem)
  | free number session hfound =>
      by_cases hsame : id = number
      · subst hsame
        right
        exact hclaims.registered_unique (mem_of_tryGet hfound) hmem
      · exact Or.inl (mem_unregister.mpr ⟨hmem, hsame⟩)
  | remove number ids pending session hfound =>
      by_cases hsame : id = number
      · subst hsame
        obtain rfl := hclaims.registered_unique (mem_of_tryGet hfound) hmem
        exact Or.inr (List.mem_append_right _ (List.mem_singleton.mpr rfl))
      · exact Or.inl (mem_unregister.mpr ⟨hmem, hsame⟩)
  | _ => exact Or.inl hmem

theorem Effect.tracked (heffect : Effect bridge old next new)
    (henumerated : Enumerated bridge roles) (hold : old ∈ roles) {id n : ℕ}
    (hmem : (id, n) ∈ bridge.registry) (htracked : id ∈ bridge.allocatedIds) :
    id ∈ next.allocatedIds ∨ new.Keeps id n := by
  cases heffect with
  | inert hsame =>
      rw [hsame.allocatedIds_eq]
      exact Or.inl htracked
  | track session number => exact Or.inl (List.mem_append_left _ htracked)
  | untrack number =>
      by_cases hsame : number = id
      · exact Or.inr hsame
      · left
        simp [htracked, Ne.symm hsame]
  | clear pending =>
      -- nothing that is registered is left to be enumerated
      have hnone := henumerated [] pending hold id n hmem htracked
      cases hnone
  | _ => exact Or.inl htracked

theorem Effect.kept (heffect : Effect bridge old next new)
    (hclaims : Claims bridge roles) {id n : ℕ} (hmem : (id, n) ∈ bridge.registry)
    (hkeeps : old.Keeps id n) :
    new.Carries n ∨ id ∈ next.allocatedIds ∨ new.Keeps id n := by
  cases heffect with
  | inert hsame => exact Or.inr (Or.inr hkeeps)
  | track session number =>
      obtain ⟨rfl, rfl⟩ := hkeeps
      exact Or.inr (Or.inl (List.mem_append_right _ (List.mem_singleton.mpr rfl)))
  | free number session hfound =>
      obtain rfl : number = id := hkeeps
      exact Or.inl (hclaims.registered_unique (mem_of_tryGet hfound) hmem)
  | unknown number hfound =>
      obtain rfl : number = id := hkeeps
      exact absurd hmem (tryGet_eq_none hfound n)
  | _ => exact hkeeps.elim

theorem Accounted.effect {n : ℕ} (haccounted : Accounted bridge roles n)
    (hn : n < bridge.sessions.length) (hclaims : Claims bridge roles)
    (henumerated : Enumerated bridge roles) (hold : roles[i]? = some old)
    (heffect : Effect bridge old next new) : Accounted next (roles.set i new) n := by
  have hmem : old ∈ roles := List.mem_of_getElem? hold
  have hself : new ∈ roles.set i new := mem_set_self_of_getElem? hold
  rcases haccounted with ⟨role, hrole, hcarries⟩ | hdisposed | ⟨id, hregistered, hkept⟩
  · rcases mem_set_of_mem new hold hrole with rfl | hother
    · rcases heffect.carried hn hcarries with hnew | hdisposed | ⟨id, hregistered, hkeeps⟩
      · exact Or.inl ⟨new, hself, hnew⟩
      · exact Or.inr (Or.inl hdisposed)
      · exact Or.inr (Or.inr ⟨id, hregistered, Or.inr ⟨new, hself, hkeeps⟩⟩)
    · exact Or.inl ⟨role, hother, hcarries⟩
  · exact Or.inr (Or.inl (heffect.disposedAt hdisposed))
  · rcases heffect.registered hclaims hregistered with hstill | hnew
    · have hanswer : new.Carries n ∨ id ∈ next.allocatedIds ∨
          ∃ role ∈ roles.set i new, role.Keeps id n := by
        rcases hkept with htracked | ⟨role, hrole, hkeeps⟩
        · rcases heffect.tracked henumerated hmem hregistered htracked with hin | hkeeps
          · exact Or.inr (Or.inl hin)
          · exact Or.inr (Or.inr ⟨new, hself, hkeeps⟩)
        · rcases mem_set_of_mem new hold hrole with rfl | hother
          · rcases heffect.kept hclaims hregistered hkeeps with hnew | hin | hkeeps
            · exact Or.inl hnew
            · exact Or.inr (Or.inl hin)
            · exact Or.inr (Or.inr ⟨new, hself, hkeeps⟩)
          · exact Or.inr (Or.inr ⟨role, hother, hkeeps⟩)
      rcases hanswer with hnew | hkeep
      · exact Or.inl ⟨new, hself, hnew⟩
      · exact Or.inr (Or.inr ⟨id, hstill, hkeep⟩)
    · exact Or.inl ⟨new, hself, hnew⟩

end Roles

end Ffi

end NativeInterop
