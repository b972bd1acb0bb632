import Mathlib.Data.List.Basic
import Mathlib.Tactic.Common

/-!
# Bounded channels

A first-in first-out buffer of fixed capacity with a completion mark, as
`Channel.CreateBounded` makes it.  What a writer does when the buffer is full
is left to the writer: `tryWrite` refuses, and a waiting writer is a writer that
tries again.
-/

namespace NativeInterop

inductive Completion where
  | finished
  | faulted
  deriving DecidableEq, Repr

structure BoundedChannel (α : Type*) where
  capacity : ℕ
  items : List α
  completion : Option Completion
  bounded : items.length ≤ capacity
  deriving DecidableEq

namespace BoundedChannel

variable {α : Type*}

def create (capacity : ℕ) : BoundedChannel α where
  capacity := capacity
  items := []
  completion := none
  bounded := Nat.zero_le capacity

def tryWrite (channel : BoundedChannel α) (item : α) : Option (BoundedChannel α) :=
  if h : channel.completion = none ∧ channel.items.length < channel.capacity then
    some
      { channel with
        items := channel.items ++ [item]
        bounded := by
          rw [List.length_append]
          exact h.2 }
  else none

def tryRead (channel : BoundedChannel α) : Option (α × BoundedChannel α) :=
  match hitems : channel.items with
  | [] => none
  | item :: rest =>
      some (item,
        { channel with
          items := rest
          bounded := by
            have hbounded := channel.bounded
            rw [hitems, List.length_cons] at hbounded
            omega })

/-- `TryComplete`: only the first completion counts. -/
def tryComplete (channel : BoundedChannel α) (completion : Completion) :
    BoundedChannel α :=
  { channel with completion := some (channel.completion.getD completion) }

theorem tryWrite_eq_some {channel next : BoundedChannel α} {item : α}
    (hwrite : channel.tryWrite item = some next) :
    next.items = channel.items ++ [item] ∧ next.completion = channel.completion ∧
      next.capacity = channel.capacity := by
  unfold tryWrite at hwrite
  split_ifs at hwrite
  cases hwrite
  exact ⟨rfl, rfl, rfl⟩

theorem tryWrite_ne_none {channel : BoundedChannel α} (item : α)
    (hopen : channel.completion = none)
    (hroom : channel.items.length < channel.capacity) :
    channel.tryWrite item ≠ none := by
  simp [tryWrite, hopen, hroom]

theorem tryRead_eq_none_iff {channel : BoundedChannel α} :
    channel.tryRead = none ↔ channel.items = [] := by
  unfold tryRead
  split <;> simp_all

theorem tryRead_eq_some {channel next : BoundedChannel α} {item : α}
    (hread : channel.tryRead = some (item, next)) :
    channel.items = item :: next.items ∧ next.completion = channel.completion ∧
      next.capacity = channel.capacity := by
  unfold tryRead at hread
  split at hread
  · simp at hread
  · next first rest hitems =>
      simp only [Option.some.injEq, Prod.mk.injEq] at hread
      obtain ⟨hfirst, hnext⟩ := hread
      subst hfirst hnext
      exact ⟨hitems, rfl, rfl⟩

@[simp] theorem tryComplete_items (channel : BoundedChannel α)
    (completion : Completion) :
    (channel.tryComplete completion).items = channel.items := rfl

end BoundedChannel

end NativeInterop
