import Mathlib.Data.List.Basic
import Mathlib.Tactic.Common

/-!
# Machines and their finite runs

A concurrent component is modelled by one partial step function: an action
names the thread that moves next together with every choice left to the
environment, and is enabled exactly when `step` returns a next state.  A run is
a list of actions.  This file is independent of any particular component; it
supplies the invariant rules used for every machine of the development.
-/

namespace NativeInterop

/-- A machine over states `σ` and actions `α`; `none` means "not enabled". -/
structure Machine (σ : Type*) (α : Type*) where
  step : σ → α → Option σ

namespace Machine

variable {σ α : Type*} (m : Machine σ α)

/-- Execute a list of actions, all of which have to be enabled. -/
def run : σ → List α → Option σ
  | s, [] => some s
  | s, a :: acts => (m.step s a).bind fun next => run next acts

/-- Every action of the run satisfies `P` in the state it is taken from. -/
def RunMeets (P : σ → α → Prop) : σ → List α → Prop
  | _, [] => True
  | s, a :: acts => P s a ∧ ∀ next, m.step s a = some next → RunMeets P next acts

def check (p : σ → α → Bool) : σ → List α → Bool
  | _, [] => true
  | s, a :: acts => p s a && (m.step s a).all fun next => check p next acts

@[simp] theorem run_nil (s : σ) : m.run s [] = some s := rfl

theorem run_cons (s : σ) (a : α) (acts : List α) :
    m.run s (a :: acts) = (m.step s a).bind fun next => m.run next acts := rfl

theorem run_cons_of_step {s next : σ} {a : α}
    (hstep : m.step s a = some next) (acts : List α) :
    m.run s (a :: acts) = m.run next acts := by
  simp [run_cons, hstep]

theorem run_cons_eq_some {s t : σ} {a : α} {acts : List α} :
    m.run s (a :: acts) = some t ↔
      ∃ next, m.step s a = some next ∧ m.run next acts = some t := by
  simp [run_cons, Option.bind_eq_some_iff]

theorem run_append (s : σ) (first second : List α) :
    m.run s (first ++ second) =
      (m.run s first).bind fun middle => m.run middle second := by
  induction first generalizing s with
  | nil => simp
  | cons a acts ih =>
      simp only [List.cons_append, run_cons]
      cases hstep : m.step s a with
      | none => simp
      | some next => simpa using ih next

theorem run_append_of_run {s middle : σ} {first : List α}
    (hfirst : m.run s first = some middle) (second : List α) :
    m.run s (first ++ second) = m.run middle second := by
  simp [run_append, hfirst]

theorem runMeets_append {P : σ → α → Prop} {s middle : σ}
    {first second : List α}
    (hrun : m.run s first = some middle)
    (hfirst : m.RunMeets P s first) (hsecond : m.RunMeets P middle second) :
    m.RunMeets P s (first ++ second) := by
  induction first generalizing s with
  | nil =>
      simp only [run_nil, Option.some.injEq] at hrun
      subst middle
      exact hsecond
  | cons a acts ih =>
      obtain ⟨next, hstep, hrest⟩ := (m.run_cons_eq_some).mp hrun
      refine ⟨hfirst.1, fun other hother => ?_⟩
      have heq : next = other := Option.some.inj (hstep.symm.trans hother)
      subst other
      exact ih hrest (hfirst.2 next hstep)

theorem runMeets_of_append {P : σ → α → Prop} {s middle : σ} {first second : List α}
    (hrun : m.run s first = some middle) (hmeets : m.RunMeets P s (first ++ second)) :
    m.RunMeets P middle second := by
  induction first generalizing s with
  | nil =>
      simp only [run_nil, Option.some.injEq] at hrun
      subst middle
      exact hmeets
  | cons a acts ih =>
      obtain ⟨next, hstep, hrest⟩ := (m.run_cons_eq_some).mp hrun
      exact ih hrest (hmeets.2 next hstep)

/-- The run rule: a property that every permitted step preserves holds at the
end of every run all of whose steps are permitted. -/
theorem run_invariant {P : σ → α → Prop} {I : σ → Prop}
    (hpreserve : ∀ s a next, I s → P s a → m.step s a = some next → I next)
    {s t : σ} {acts : List α} (hinit : I s)
    (hmeets : m.RunMeets P s acts) (hrun : m.run s acts = some t) : I t := by
  induction acts generalizing s with
  | nil =>
      simp only [run_nil, Option.some.injEq] at hrun
      exact hrun ▸ hinit
  | cons a acts ih =>
      obtain ⟨next, hstep, hrest⟩ := (m.run_cons_eq_some).mp hrun
      exact ih (hpreserve s a next hinit hmeets.1 hstep)
        (hmeets.2 next hstep) hrest

theorem runMeets_of_check {p : σ → α → Bool} {s : σ} {acts : List α}
    (hcheck : m.check p s acts = true) :
    m.RunMeets (fun s a => p s a = true) s acts := by
  induction acts generalizing s with
  | nil => trivial
  | cons a acts ih =>
      simp only [check, Bool.and_eq_true] at hcheck
      refine ⟨hcheck.1, fun next hstep => ?_⟩
      rw [hstep, Option.all_some] at hcheck
      exact ih hcheck.2

/-- What an invariant makes of the permitted steps holds of every step of the run. -/
theorem runMeets_imp {P Q : σ → α → Prop} {I : σ → Prop}
    (hpreserve : ∀ s a next, I s → P s a → m.step s a = some next → I next)
    (himp : ∀ s a, I s → P s a → Q s a) {s : σ} {acts : List α} (hinit : I s)
    (hmeets : m.RunMeets P s acts) : m.RunMeets Q s acts := by
  induction acts generalizing s with
  | nil => trivial
  | cons a acts ih =>
      refine ⟨himp s a hinit hmeets.1, fun next hstep => ?_⟩
      exact ih (hpreserve s a next hinit hmeets.1 hstep) (hmeets.2 next hstep)

theorem runMeets_of_forall {P : α → Prop} {acts : List α} (hall : ∀ a ∈ acts, P a) (s : σ) :
    m.RunMeets (fun _ a => P a) s acts := by
  induction acts generalizing s with
  | nil => trivial
  | cons a acts ih =>
      refine ⟨hall a List.mem_cons_self, fun next _ => ?_⟩
      exact ih (fun b hmem => hall b (List.mem_cons_of_mem a hmem)) next

theorem runMeets_true (s : σ) (acts : List α) :
    m.RunMeets (fun _ _ => True) s acts := by
  induction acts generalizing s with
  | nil => trivial
  | cons a acts ih => exact ⟨trivial, fun next _ => ih next⟩

theorem run_invariant_of_step {I : σ → Prop}
    (hpreserve : ∀ s a next, I s → m.step s a = some next → I next)
    {s t : σ} {acts : List α} (hinit : I s)
    (hrun : m.run s acts = some t) : I t :=
  m.run_invariant (P := fun _ _ => True)
    (fun s a next hs _ hstep => hpreserve s a next hs hstep)
    hinit (m.runMeets_true s acts) hrun

/-- A flag that is never lowered, and is raised by exactly the steps outside `P`,
tells whether a run has left `P`. -/
theorem run_flag_iff {P : σ → α → Prop} {I F : σ → Prop}
    (hpreserve : ∀ s a next, I s → m.step s a = some next →
      I next ∧ (F next ↔ F s ∨ ¬ P s a))
    {s t : σ} {acts : List α} (hinit : I s) (hrun : m.run s acts = some t) :
    F t ↔ F s ∨ ¬ m.RunMeets P s acts := by
  induction acts generalizing s with
  | nil =>
      simp only [run_nil, Option.some.injEq] at hrun
      simp [hrun, RunMeets]
  | cons a acts ih =>
      obtain ⟨next, hstep, hrest⟩ := (m.run_cons_eq_some).mp hrun
      obtain ⟨hnext, hflag⟩ := hpreserve s a next hinit hstep
      have hmeets : m.RunMeets P s (a :: acts) ↔ P s a ∧ m.RunMeets P next acts := by
        simp [RunMeets, hstep]
      rw [ih hnext hrest, hflag, hmeets, not_and_or, or_assoc]

/-- `Q` holds in every state that the run passes through. -/
def Throughout (Q : σ → Prop) (s : σ) (acts : List α) : Prop :=
  ∀ first second t, acts = first ++ second → m.run s first = some t → Q t

theorem throughout_cons {Q : σ → Prop} {s next : σ} {a : α} {acts : List α}
    (hstep : m.step s a = some next) :
    m.Throughout Q s (a :: acts) ↔ Q s ∧ m.Throughout Q next acts := by
  constructor
  · intro hall
    refine ⟨hall [] _ s rfl rfl, ?_⟩
    intro first second t heq hrun
    exact hall (a :: first) second t (by rw [heq, List.cons_append])
      ((m.run_cons_of_step hstep first).trans hrun)
  · rintro ⟨hhere, hall⟩ first second t heq hrun
    cases first with
    | nil =>
        cases hrun
        exact hhere
    | cons b first =>
        obtain ⟨rfl, htail⟩ := List.cons.inj heq
        rw [m.run_cons_of_step hstep] at hrun
        exact hall first second t htail hrun

/-- A property that the steps of a kind keep, and that every other step breaks, holds
throughout exactly the runs of that kind. -/
theorem throughout_iff {P : σ → α → Prop} {I Q : σ → Prop}
    (hkeep : ∀ s a next, I s → m.step s a = some next → P s a → I next)
    (hgood : ∀ s, I s → Q s)
    (hbreak : ∀ s a next, I s → m.step s a = some next → ¬ P s a → ¬ Q next)
    {s t : σ} {acts : List α} (hinit : I s) (hrun : m.run s acts = some t) :
    m.Throughout Q s acts ↔ m.RunMeets P s acts := by
  induction acts generalizing s with
  | nil =>
      refine ⟨fun _ => trivial, ?_⟩
      rintro - first second u heq hfirst
      obtain ⟨rfl, -⟩ := List.append_eq_nil_iff.mp heq.symm
      cases hfirst
      exact hgood s hinit
  | cons a acts ih =>
      obtain ⟨next, hstep, hrest⟩ := (m.run_cons_eq_some).mp hrun
      have hmeets : m.RunMeets P s (a :: acts) ↔ P s a ∧ m.RunMeets P next acts := by
        simp [RunMeets, hstep]
      rw [m.throughout_cons hstep, hmeets]
      constructor
      · rintro ⟨-, hall⟩
        have hP : P s a := by
          by_contra hP
          exact hbreak s a next hinit hstep hP (hall [] acts next rfl rfl)
        exact ⟨hP, (ih (hkeep s a next hinit hstep hP) hrest).mp hall⟩
      · rintro ⟨hP, hall⟩
        exact ⟨hgood s hinit, (ih (hkeep s a next hinit hstep hP) hrest).mpr hall⟩

/-- Where a step that lowers a rank is enabled until a goal is met, some run meets it. -/
theorem exists_run {I G : σ → Prop} (rank : σ → ℕ)
    (hprogress : ∀ s, I s → ¬ G s →
      ∃ a next, m.step s a = some next ∧ I next ∧ rank next < rank s)
    {s : σ} (hinit : I s) : ∃ acts t, m.run s acts = some t ∧ G t := by
  induction hrank : rank s using Nat.strongRecOn generalizing s with
  | ind n ih =>
      by_cases hgoal : G s
      · exact ⟨[], s, rfl, hgoal⟩
      · obtain ⟨a, next, hstep, hnext, hlower⟩ := hprogress s hinit hgoal
        obtain ⟨acts, t, hrun, ht⟩ := ih (rank next) (hrank ▸ hlower) hnext rfl
        exact ⟨a :: acts, t, (m.run_cons_of_step hstep acts).trans hrun, ht⟩

/-- The same with steps of a kind, which the run then consists of. -/
theorem exists_run_meets {P : σ → α → Prop} {I G : σ → Prop} (rank : σ → ℕ)
    (hprogress : ∀ s, I s → ¬ G s →
      ∃ a next, P s a ∧ m.step s a = some next ∧ I next ∧ rank next < rank s)
    {s : σ} (hinit : I s) :
    ∃ acts t, m.run s acts = some t ∧ m.RunMeets P s acts ∧ I t ∧ G t := by
  induction hrank : rank s using Nat.strongRecOn generalizing s with
  | ind n ih =>
      by_cases hgoal : G s
      · exact ⟨[], s, rfl, trivial, hinit, hgoal⟩
      · obtain ⟨a, next, hmeets, hstep, hnext, hlower⟩ := hprogress s hinit hgoal
        obtain ⟨acts, t, hrun, hrest, ht⟩ := ih (rank next) (hrank ▸ hlower) hnext rfl
        refine ⟨a :: acts, t, (m.run_cons_of_step hstep acts).trans hrun, ⟨hmeets, ?_⟩, ht⟩
        intro other hother
        cases hstep.symm.trans hother
        exact hrest

/-- Steps that lower a rank make runs that are no longer than the rank. -/
theorem length_le_of_rank {P : σ → α → Prop} {I : σ → Prop} (rank : σ → ℕ)
    (hlowers : ∀ s a next, I s → P s a → m.step s a = some next →
      I next ∧ rank next < rank s)
    {s t : σ} {acts : List α} (hinit : I s) (hmeets : m.RunMeets P s acts)
    (hrun : m.run s acts = some t) : acts.length + rank t ≤ rank s := by
  induction acts generalizing s with
  | nil =>
      simp only [run_nil, Option.some.injEq] at hrun
      simp [hrun]
  | cons a acts ih =>
      obtain ⟨next, hstep, hrest⟩ := (m.run_cons_eq_some).mp hrun
      obtain ⟨hnext, hlower⟩ := hlowers s a next hinit hmeets.1 hstep
      have hlength := ih hnext (hmeets.2 next hstep) hrest
      rw [List.length_cons]
      omega

/-- A quantity that no step from a state satisfying a stable condition changes
is constant along every run from such a state. -/
theorem run_constant {β : Type*} {f : σ → β} {I : σ → Prop}
    (hpreserve : ∀ s a next, I s → m.step s a = some next →
      I next ∧ f next = f s)
    {s t : σ} {acts : List α} (hinit : I s)
    (hrun : m.run s acts = some t) : f t = f s := by
  have hboth : I t ∧ f t = f s := by
    refine m.run_invariant_of_step (I := fun u => I u ∧ f u = f s) ?_
      ⟨hinit, rfl⟩ hrun
    intro u a next hu hstep
    obtain ⟨hnext, hsame⟩ := hpreserve u a next hu.1 hstep
    exact ⟨hnext, hsame.trans hu.2⟩
  exact hboth.2

end Machine

end NativeInterop
