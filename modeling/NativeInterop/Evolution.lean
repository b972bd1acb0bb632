import Mathlib.Data.List.Basic
import Mathlib.Tactic.Common

/-!
# Tables of components

A system keeps its components in a table that only grows: a step updates
entries in place and appends new ones.  `Evolves` says how the table before a
step is related to the table after it, entry by entry, and carries a property
of every entry across the step.
-/

namespace NativeInterop

section Set

variable {α : Type*} {items : List α} {i : ℕ} {old new : α}

theorem countP_set_of_getElem? (new : α) (p : α → Bool) (hold : items[i]? = some old) :
    (items.set i new).countP p + (if p old then 1 else 0) =
      items.countP p + (if p new then 1 else 0) := by
  obtain ⟨hlt, hget⟩ := List.getElem?_eq_some_iff.mp hold
  rw [List.countP_set hlt, hget]
  have hpos : (if p old then 1 else 0) ≤ items.countP p := by
    split_ifs with hp
    · exact List.one_le_countP_iff.mpr ⟨old, List.mem_of_getElem? hold, hp⟩
    · exact Nat.zero_le _
  omega

theorem mem_set_of_mem {x : α} (new : α) (hold : items[i]? = some old) (hmem : x ∈ items) :
    x = old ∨ x ∈ items.set i new := by
  obtain ⟨j, hj⟩ := List.getElem?_of_mem hmem
  by_cases hij : i = j
  · subst hij
    exact Or.inl (Option.some.inj (hj.symm.trans hold))
  · right
    apply List.mem_of_getElem?
    rw [List.getElem?_set_ne hij]
    exact hj

theorem mem_set_self_of_getElem? (hold : items[i]? = some old) :
    new ∈ items.set i new :=
  List.mem_set (List.getElem?_eq_some_iff.mp hold).1 new

theorem two_le_countP {x y : α} {p : α → Bool} (hx : x ∈ items) (hy : y ∈ items)
    (hne : x ≠ y) (hpx : p x = true) (hpy : p y = true) : 2 ≤ items.countP p := by
  obtain ⟨first, second, rfl⟩ := List.append_of_mem hx
  have hother : y ∈ first ∨ y ∈ second := by
    simpa [hne.symm] using hy
  rw [List.countP_append, List.countP_cons_of_pos hpx]
  rcases hother with hfirst | hsecond
  · have hpos := List.countP_pos_iff.mpr ⟨y, hfirst, hpy⟩
    omega
  · have hpos := List.countP_pos_iff.mpr ⟨y, hsecond, hpy⟩
    omega

/-- Entries that count are at one place where at most one counts. -/
theorem eq_of_countP_le_one {j : ℕ} {x y : α} {p : α → Bool}
    (honce : items.countP p ≤ 1) (hx : items[i]? = some x) (hy : items[j]? = some y)
    (hpx : p x = true) (hpy : p y = true) : i = j := by
  have hless : ∀ (k m : ℕ) (u v : α), k < m → items[k]? = some u → items[m]? = some v →
      p u = true → p v = true → False := by
    intro k m u v hlt hu hv hpu hpv
    have hfirst : 0 < (items.take m).countP p := by
      refine List.countP_pos_iff.mpr ⟨u, List.mem_of_getElem? (i := k) ?_, hpu⟩
      rw [List.getElem?_take_of_lt hlt]
      exact hu
    have hsecond : 0 < (items.drop m).countP p := by
      refine List.countP_pos_iff.mpr ⟨v, List.mem_of_getElem? (i := 0) ?_, hpv⟩
      rw [List.getElem?_drop, Nat.add_zero]
      exact hv
    have hsplit : (items.take m ++ items.drop m).countP p = _ := List.countP_append
    rw [List.take_append_drop] at hsplit
    omega
  rcases Nat.lt_trichotomy i j with hlt | heq | hlt
  · exact (hless i j x y hlt hx hy hpx hpy).elim
  · exact heq
  · exact (hless j i y x hlt hy hx hpy hpx).elim

end Set

/-- Every entry is related to what it becomes, and every entry behind the old
ones is fresh. -/
structure Evolves {α : Type*} (R : α → α → Prop) (Fresh : α → Prop)
    (before after : List α) : Prop where
  kept : ∀ (n : ℕ) (x : α), before[n]? = some x → ∃ y, after[n]? = some y ∧ R x y
  fresh : ∀ (n : ℕ) (y : α), before[n]? = none → after[n]? = some y → Fresh y

namespace Evolves

variable {α : Type*} {R : α → α → Prop} {Fresh : α → Prop} {before after : List α}

theorem refl (hrefl : ∀ x, R x x) (items : List α) : Evolves R Fresh items items where
  kept := fun _ x hx => ⟨x, hx, hrefl x⟩
  fresh := fun n y hnone hsome => by simp [hnone] at hsome

theorem append (hrefl : ∀ x, R x x) (items : List α) {new : α} (hnew : Fresh new) :
    Evolves R Fresh items (items ++ [new]) where
  kept := by
    intro n x hx
    have hlt := (List.getElem?_eq_some_iff.mp hx).1
    exact ⟨x, by rw [List.getElem?_append_left hlt, hx], hrefl x⟩
  fresh := by
    intro n y hnone hsome
    have hge := List.getElem?_eq_none_iff.mp hnone
    rw [List.getElem?_append_right hge] at hsome
    rw [List.mem_singleton.mp (List.mem_of_getElem? hsome)]
    exact hnew

theorem modify (hrefl : ∀ x, R x x) {n : ℕ} {update : α → α}
    (hupdate : ∀ x, before[n]? = some x → R x (update x)) :
    Evolves R Fresh before (before.modify n update) where
  kept := by
    intro m x hx
    by_cases hm : n = m
    · subst hm
      exact ⟨update x, by simp [hx], hupdate x hx⟩
    · exact ⟨x, by simp [hx, hm], hrefl x⟩
  fresh := by
    intro m y hnone hsome
    simp [List.getElem?_modify, hnone] at hsome

theorem set (hrefl : ∀ x, R x x) {n : ℕ} {x y : α} (hx : before[n]? = some x)
    (hrel : R x y) : Evolves R Fresh before (before.set n y) where
  kept := by
    intro m other hother
    by_cases hm : n = m
    · subst hm
      have hsame : x = other := Option.some.inj (hx.symm.trans hother)
      subst hsame
      have hlt := (List.getElem?_eq_some_iff.mp hx).1
      exact ⟨y, by simp [hlt], hrel⟩
    · exact ⟨other, by simp [hm, hother], hrefl other⟩
  fresh := by
    intro m other hnone hsome
    rw [List.getElem?_set] at hsome
    split_ifs at hsome with hm hlt
    · subst hm
      rw [hnone] at hx
      cases hx
    · rw [hnone] at hsome
      cases hsome

theorem map {update : α → α} (hupdate : ∀ x ∈ before, R x (update x)) :
    Evolves R Fresh before (before.map update) where
  kept := by
    intro n x hx
    exact ⟨update x, by simp [hx], hupdate x (List.mem_of_getElem? hx)⟩
  fresh := by
    intro n y hnone hsome
    simp [hnone] at hsome

theorem imp {S : α → α → Prop} (hevolves : Evolves R Fresh before after)
    (himp : ∀ x y, R x y → S x y) : Evolves S Fresh before after where
  kept := by
    intro n x hx
    obtain ⟨y, hy, hrel⟩ := hevolves.kept n x hx
    exact ⟨y, hy, himp x y hrel⟩
  fresh := hevolves.fresh

theorem back (hevolves : Evolves R Fresh before after) {n : ℕ} {y : α}
    (hy : after[n]? = some y) : (∃ x, before[n]? = some x ∧ R x y) ∨ Fresh y := by
  cases hbefore : before[n]? with
  | none => exact Or.inr (hevolves.fresh n y hbefore hy)
  | some x =>
      left
      obtain ⟨next, hnext, hrel⟩ := hevolves.kept n x hbefore
      have hsame : y = next := Option.some.inj (hy.symm.trans hnext)
      exact ⟨x, rfl, hsame ▸ hrel⟩

/-- A property of fresh entries that updates preserve holds of every entry. -/
theorem forall_mem (hevolves : Evolves R Fresh before after) {I : α → Prop}
    (hkeep : ∀ x y, R x y → I x → I y) (hfresh : ∀ y, Fresh y → I y)
    (hall : ∀ x ∈ before, I x) : ∀ y ∈ after, I y := by
  intro y hmem
  obtain ⟨n, hy⟩ := List.getElem?_of_mem hmem
  rcases hevolves.back hy with ⟨x, hx, hrel⟩ | hnew
  · exact hkeep x y hrel (hall x (List.mem_of_getElem? hx))
  · exact hfresh y hnew

end Evolves

end NativeInterop
