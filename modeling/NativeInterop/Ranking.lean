import Mathlib.Data.List.Basic
import Mathlib.Order.Lattice
import Mathlib.Tactic.Common

/-!
# Ranking a list by a key

Sorting with the largest key first, and what is left when only the first few are kept.  A
ranking puts equal keys in any order; a stable one keeps the order of the list, and there is
only one.  This file is independent of what is ranked.
-/

namespace NativeInterop

namespace Ranking

variable {α β : Type*} [LinearOrder β]

/-- Largest key first, equal keys in any order. -/
structure IsRanked (key : α → β) (items ranked : List α) : Prop where
  perm : ranked.Perm items
  sorted : ranked.Pairwise fun a b => key b ≤ key a

/-- Largest key first, equal keys in the order of the list. -/
structure IsStable (key : α → β) (items ranked : List α) : Prop where
  sorted : ranked.Pairwise fun a b => key b ≤ key a
  ties : ∀ v, ranked.filter (fun a => key a = v) = items.filter fun a => key a = v

def sortedByDescending (key : α → β) (items : List α) : List α :=
  items.mergeSort fun a b => decide (key b ≤ key a)

variable {key : α → β} {items ranked other : List α}

theorem descending_trans (key : α → β) (a b c : α) (hab : decide (key b ≤ key a) = true)
    (hbc : decide (key c ≤ key b) = true) : decide (key c ≤ key a) = true := by
  simp only [decide_eq_true_eq] at hab hbc ⊢
  exact hbc.trans hab

theorem descending_total (key : α → β) (a b : α) :
    (decide (key b ≤ key a) || decide (key a ≤ key b)) = true := by
  simp only [Bool.or_eq_true, decide_eq_true_eq]
  exact le_total (key b) (key a)

theorem isRanked_sortedByDescending (key : α → β) (items : List α) :
    IsRanked key items (sortedByDescending key items) where
  perm := List.mergeSort_perm items _
  sorted := by
    have hsorted := List.pairwise_mergeSort (descending_trans key) (descending_total key) items
    exact hsorted.imp fun hle => of_decide_eq_true hle

theorem isStable_sortedByDescending (key : α → β) (items : List α) :
    IsStable key items (sortedByDescending key items) where
  sorted := (isRanked_sortedByDescending key items).sorted
  ties := by
    intro v
    have hperm := (isRanked_sortedByDescending key items).perm.filter fun a => key a = v
    have hties : (items.filter fun a => key a = v).Pairwise
        fun a b => decide (key b ≤ key a) = true := by
      rw [List.pairwise_filter]
      refine List.pairwise_of_forall fun a b ha hb => ?_
      simp only [decide_eq_true_eq] at ha hb ⊢
      rw [ha, hb]
    have hsublist := List.sublist_mergeSort (descending_trans key) (descending_total key) hties
      List.filter_sublist
    have hfiltered := hsublist.filter fun a => key a = v
    rw [List.filter_filter] at hfiltered
    simp only [Bool.and_self] at hfiltered
    exact (hfiltered.eq_of_length hperm.length_eq.symm).symm

/-! ## Rankings of one list -/

theorem IsRanked.filter (hranked : IsRanked key items ranked) (p : α → Bool) :
    IsRanked key (items.filter p) (ranked.filter p) where
  perm := hranked.perm.filter p
  sorted := hranked.sorted.filter p

theorem IsStable.filter (hstable : IsStable key items ranked) (p : α → Bool) :
    IsStable key (items.filter p) (ranked.filter p) where
  sorted := hstable.sorted.filter p
  ties := by
    intro v
    have hties := congrArg (List.filter p) (hstable.ties v)
    rw [List.filter_filter, List.filter_filter] at hties ⊢
    simpa only [Bool.and_comm] using hties

theorem eq_nil_of_ties (hties : ∀ v, ranked.filter (fun a => key a = v) = []) : ranked = [] := by
  rw [List.eq_nil_iff_forall_not_mem]
  intro a ha
  have hnone := List.filter_eq_nil_iff.mp (hties (key a)) a ha
  simp at hnone

/-- The first of a ranking has a key as large as any. -/
theorem key_le_head {a b : α} (hsorted : (a :: ranked).Pairwise fun a b => key b ≤ key a)
    (hb : b ∈ a :: ranked) : key b ≤ key a := by
  rcases List.mem_cons.mp hb with rfl | hlater
  · exact le_rfl
  · exact List.rel_of_pairwise_cons hsorted hlater

/-- A stable ranking is the only one. -/
theorem IsStable.eq (hranked : IsStable key items ranked) (hother : IsStable key items other) :
    ranked = other := by
  obtain ⟨hsorted, hties⟩ := hranked
  obtain ⟨hsorted', hties'⟩ := hother
  have hsame : ∀ v, ranked.filter (fun a => key a = v) = other.filter fun a => key a = v :=
    fun v => (hties v).trans (hties' v).symm
  clear hties hties'
  induction ranked generalizing other with
  | nil => exact (eq_nil_of_ties fun v => (hsame v).symm).symm
  | cons a ranked ih =>
      cases other with
      | nil => exact eq_nil_of_ties hsame
      | cons b other =>
          have hmem : ∀ c v, c ∈ (a :: ranked).filter (fun a => key a = v) ↔
              c ∈ (b :: other).filter fun a => key a = v := by
            intro c v
            rw [hsame]
          have hle : key b ≤ key a := by
            have hb := (hmem b (key b)).mpr (by simp)
            exact key_le_head hsorted (List.mem_filter.mp hb).1
          have hge : key a ≤ key b := by
            have ha := (hmem a (key a)).mp (by simp)
            exact key_le_head hsorted' (List.mem_filter.mp ha).1
          have hkey := le_antisymm hle hge
          have hhead := hsame (key a)
          rw [List.filter_cons_of_pos (by simp), List.filter_cons_of_pos (by simp [hkey]),
            List.cons.injEq] at hhead
          obtain ⟨rfl, -⟩ := hhead
          rw [ih hsorted.of_cons hsorted'.of_cons]
          intro v
          have hboth := hsame v
          by_cases hv : key a = v
          · rw [List.filter_cons_of_pos (by simpa using hv),
              List.filter_cons_of_pos (by simpa using hv), List.cons.injEq] at hboth
            exact hboth.2
          · rwa [List.filter_cons_of_neg (by simpa using hv),
              List.filter_cons_of_neg (by simpa using hv)] at hboth

theorem sortedByDescending_filter (key : α → β) (items : List α) (p : α → Bool) :
    sortedByDescending key (items.filter p) = (sortedByDescending key items).filter p :=
  (isStable_sortedByDescending key (items.filter p)).eq
    ((isStable_sortedByDescending key items).filter p)

/-- Only the order of the keys counts. -/
theorem sortedByDescending_congr {γ : Type*} [LinearOrder γ] {key : α → β} {key' : α → γ}
    {items : List α} (horder : ∀ a ∈ items, ∀ b ∈ items, key a ≤ key b ↔ key' a ≤ key' b) :
    sortedByDescending key items = sortedByDescending key' items := by
  have hranked := isRanked_sortedByDescending key' items
  have hstable := isStable_sortedByDescending key' items
  refine (isStable_sortedByDescending key items).eq ⟨?_, ?_⟩
  · refine hranked.sorted.imp_of_mem fun ha hb hle => ?_
    exact (horder _ (hranked.perm.subset hb) _ (hranked.perm.subset ha)).mpr hle
  · intro v
    by_cases hv : ∃ c ∈ items, key c = v
    · obtain ⟨c, hc, rfl⟩ := hv
      have heq : ∀ a ∈ items, key a = key c ↔ key' a = key' c := by
        intro a ha
        rw [le_antisymm_iff, le_antisymm_iff, horder a ha c hc, horder c hc a ha]
      have hkeys : ∀ other, other ⊆ items → other.filter (fun a => key a = key c) =
          other.filter fun a => key' a = key' c := by
        intro other hother
        apply List.filter_congr
        intro a ha
        simp [heq a (hother ha)]
      rw [hkeys _ hranked.perm.subset, hkeys _ (List.Subset.refl items)]
      exact hstable.ties (key' c)
    · have hnone : ∀ a ∈ items, ¬ decide (key a = v) = true := by
        intro a ha hkey
        exact hv ⟨a, ha, of_decide_eq_true hkey⟩
      rw [List.filter_eq_nil_iff.mpr hnone, List.filter_eq_nil_iff]
      exact fun a ha => hnone a (hranked.perm.subset ha)

theorem sortedByDescending_map {γ : Type*} (key : α → β) (f : γ → α) (items : List γ) :
    sortedByDescending key (items.map f) =
      (sortedByDescending (fun a => key (f a)) items).map f := by
  have hstable := isStable_sortedByDescending (fun a => key (f a)) items
  refine (isStable_sortedByDescending key (items.map f)).eq ⟨?_, ?_⟩
  · exact List.pairwise_map.mpr hstable.sorted
  · intro v
    rw [List.filter_map, List.filter_map]
    exact congrArg (List.map f) (hstable.ties v)

/-- The largest key is over the floor, or none is. -/
theorem head?_filter_le (hsorted : ranked.Pairwise fun a b => key b ≤ key a) (floor : β) :
    (ranked.filter fun a => floor ≤ key a).head? =
      ranked.head?.filter fun a => floor ≤ key a := by
  cases ranked with
  | nil => rfl
  | cons a ranked =>
      by_cases hfloor : floor ≤ key a
      · simp [hfloor, Option.filter]
      · have hnone : (a :: ranked).filter (fun a => floor ≤ key a) = [] := by
          rw [List.filter_eq_nil_iff]
          intro b hb hover
          exact hfloor ((of_decide_eq_true hover).trans (key_le_head hsorted hb))
        rw [hnone]
        simp [hfloor, Option.filter]

/-! ## The first few -/

theorem IsRanked.length_take (hranked : IsRanked key items ranked) (k : ℕ) :
    (ranked.take k).length = min k items.length := by
  rw [List.length_take, hranked.perm.length_eq]

end Ranking

end NativeInterop
