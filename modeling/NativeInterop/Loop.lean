import Mathlib.Logic.Relation
import Mathlib.Tactic.Common

/-!
# Loops that end

One pass of a loop either goes round again or leaves with a result, and every pass
that goes round lowers a rank.  This file is independent of any particular loop; it
runs one and supplies the rules by which the loops of the development are reasoned
about.
-/

namespace NativeInterop

/-- A loop over states `σ` that leaves with a `ρ`. -/
structure Loop (σ : Type*) (ρ : Type*) where
  pass : σ → σ ⊕ ρ
  rank : σ → ℕ
  lowers : ∀ s next, pass s = .inl next → rank next < rank s

namespace Loop

variable {σ ρ : Type*} (loop : Loop σ ρ)

def run (s : σ) : ρ :=
  match _hpass : loop.pass s with
  | .inl next => run next
  | .inr result => result
termination_by loop.rank s
decreasing_by exact loop.lowers s next _hpass

theorem run_of_inl {s next : σ} (hpass : loop.pass s = .inl next) :
    loop.run s = loop.run next := by
  rw [run]
  split
  · next heq => rw [Sum.inl.inj (hpass.symm.trans heq)]
  · next heq => cases hpass.symm.trans heq

theorem run_of_inr {s : σ} {result : ρ} (hpass : loop.pass s = .inr result) :
    loop.run s = result := by
  rw [run]
  split
  · next heq => cases hpass.symm.trans heq
  · next heq => rw [Sum.inr.inj (hpass.symm.trans heq)]

/-- The loop comes from one state to the other by going round. -/
def Reaches : σ → σ → Prop :=
  Relation.ReflTransGen fun s next => loop.pass s = .inl next

theorem run_of_reaches {s t : σ} (hreaches : loop.Reaches s t) : loop.run s = loop.run t := by
  induction hreaches with
  | refl => rfl
  | tail _ hpass ih => rw [ih, loop.run_of_inl hpass]

/-- What holds before the loop and is kept by going round holds where it leaves. -/
theorem exists_exit {I : σ → Prop} (hkept : ∀ s next, I s → loop.pass s = .inl next → I next)
    {s : σ} (hstart : I s) :
    ∃ last, I last ∧ loop.Reaches s last ∧ loop.pass last = .inr (loop.run s) := by
  induction s using run.induct loop with
  | case1 s next hpass ih =>
      obtain ⟨last, hlast, hreaches, hexit⟩ := ih (hkept s next hstart hpass)
      rw [loop.run_of_inl hpass]
      exact ⟨last, hlast, hreaches.head hpass, hexit⟩
  | case2 s result hpass =>
      rw [loop.run_of_inr hpass]
      exact ⟨s, hstart, .refl, hpass⟩

theorem run_invariant {I : σ → Prop} {Q : ρ → Prop}
    (hkept : ∀ s next, I s → loop.pass s = .inl next → I next)
    (hexit : ∀ s result, I s → loop.pass s = .inr result → Q result)
    {s : σ} (hstart : I s) : Q (loop.run s) := by
  obtain ⟨last, hlast, _, hpass⟩ := loop.exists_exit hkept hstart
  exact hexit last _ hlast hpass

end Loop

end NativeInterop
