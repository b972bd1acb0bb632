import Mathlib.Data.List.Basic
import Mathlib.Data.List.Infix
import Mathlib.Tactic

/-!
# Searching a text that is made of lines

The first place of a pattern that starts with the line end, in lines over any type of
characters: it is in front of the first line that the rest of the pattern begins.  This file is
independent of any particular format.
-/

namespace NativeInterop

namespace TextLines

section Search

variable {α : Type*} [DecidableEq α]

/-- The first index at which `pattern` stands in the text. -/
def indexOf (pattern : List α) : List α → Option ℕ
  | [] => if pattern = [] then some 0 else none
  | c :: text => if pattern <+: c :: text then some 0 else (indexOf pattern text).map (· + 1)

def indexFrom (pattern text : List α) (start : ℕ) : Option ℕ :=
  (indexOf pattern (text.drop start)).map (· + start)

theorem exists_of_indexOf {pattern text : List α} {n : ℕ} (hindex : indexOf pattern text = some n) :
    ∃ rest, text = text.take n ++ (pattern ++ rest) := by
  induction text generalizing n with
  | nil =>
      rw [indexOf] at hindex
      split_ifs at hindex with hpattern
      exact ⟨[], by simp [hpattern]⟩
  | cons c text ih =>
      rw [indexOf] at hindex
      split_ifs at hindex with hfront
      · obtain ⟨rest, hrest⟩ := hfront
        cases hindex
        exact ⟨rest, by rw [List.take_zero, List.nil_append, hrest]⟩
      · obtain ⟨before, hbefore, rfl⟩ := Option.map_eq_some_iff.mp hindex
        obtain ⟨rest, hrest⟩ := ih hbefore
        exact ⟨rest, by rw [List.take_succ_cons, List.cons_append, ← hrest]⟩

variable {newline : α} {pattern line rest : List α}

theorem indexOf_newline_cons :
    indexOf (newline :: pattern) (newline :: rest) =
      if pattern <+: rest then some 0 else (indexOf (newline :: pattern) rest).map (· + 1) := by
  simp only [indexOf, List.cons_prefix_cons, true_and]

theorem indexOf_line_append (hline : newline ∉ line) :
    indexOf (newline :: pattern) (line ++ rest) =
      (indexOf (newline :: pattern) rest).map (· + line.length) := by
  induction line with
  | nil => simp
  | cons c line ih =>
      rw [List.mem_cons, not_or] at hline
      have hfront : ¬ newline :: pattern <+: c :: (line ++ rest) := by
        rw [List.cons_prefix_cons]
        exact fun hboth => hline.1 hboth.1
      rw [List.cons_append, indexOf, if_neg hfront, ih hline.2, Option.map_map]
      rfl

theorem indexOf_line (hline : newline ∉ line) : indexOf (newline :: pattern) line = none := by
  have happend := @indexOf_line_append α _ newline pattern line [] hline
  rw [List.append_nil] at happend
  rw [happend, indexOf]
  simp

end Search

section Lines

variable {α : Type*}

/-- Lines, each with its end. -/
def unlines (newline : α) (lines : List (List α)) : List α :=
  (lines.map fun line => line ++ [newline]).flatten

theorem unlines_cons (newline : α) (line : List α) (lines : List (List α)) :
    unlines newline (line :: lines) = line ++ newline :: unlines newline lines := by
  simp [unlines]

theorem unlines_append (newline : α) (before after : List (List α)) :
    unlines newline (before ++ after) = unlines newline before ++ unlines newline after := by
  simp [unlines]

theorem unlines_cons_append (newline : α) (first line : List α) (before after : List (List α)) :
    unlines newline (first :: (before ++ line :: after)) =
      unlines newline (first :: before) ++ (line ++ newline :: unlines newline after) := by
  rw [← List.cons_append, unlines_append, unlines_cons newline line]

/-- Without its last line end the text is the lines with an end between them. -/
theorem unlines_eq_intercalate (newline : α) {lines : List (List α)} (hlines : lines ≠ []) :
    unlines newline lines = [newline].intercalate lines ++ [newline] := by
  induction lines with
  | nil => exact absurd rfl hlines
  | cons line lines ih =>
      rw [unlines_cons]
      rcases eq_or_ne lines [] with rfl | hne
      · simp [unlines]
      · rw [ih hne, List.intercalate_cons_of_ne_nil hne]
        simp

theorem splitOn_take_unlines [DecidableEq α] {newline : α} {lines : List (List α)}
    (hlines : lines ≠ [])
    (hnewline : ∀ line ∈ lines, newline ∉ line) (rest : List α) :
    ((unlines newline lines ++ rest).take ((unlines newline lines).length - 1)).splitOn newline =
      lines := by
  rw [unlines_eq_intercalate newline hlines, List.length_append, List.length_singleton,
    Nat.add_sub_cancel, List.append_assoc, List.take_left]
  exact List.splitOn_intercalate newline hnewline hlines

/-- The pattern begins the line, with something behind the line's end. -/
def Begins (newline : α) (pattern line : List α) : Prop :=
  ∃ more, pattern <+: line ++ newline :: more

variable {newline : α} {pattern line : List α}

theorem begins_iff (hpattern : newline ∉ pattern) :
    Begins newline pattern line ↔ pattern <+: line := by
  constructor
  · rintro ⟨more, hfront⟩
    rcases List.prefix_or_prefix_of_prefix hfront (List.prefix_append line _) with hin | hout
    · exact hin
    · obtain ⟨tail, rfl⟩ := hout
      rw [List.prefix_append_right_inj] at hfront
      cases tail with
      | nil => simp
      | cons c tail =>
          rw [List.cons_prefix_cons] at hfront
          exact absurd (by simp [hfront.1]) hpattern
  · intro hfront
    exact ⟨[], hfront.trans (List.prefix_append line [newline])⟩

theorem begins_append_newline_iff (hpattern : newline ∉ pattern) (hline : newline ∉ line) :
    Begins newline (pattern ++ [newline]) line ↔ line = pattern := by
  constructor
  · rintro ⟨more, rest, hrest⟩
    rw [List.append_assoc, List.singleton_append] at hrest
    have hwithin : pattern <+: line :=
      (begins_iff hpattern).mp ⟨more, hrest ▸ List.prefix_append pattern _⟩
    have hwhole : line <+: pattern :=
      (begins_iff hline).mp ⟨rest, hrest ▸ List.prefix_append line _⟩
    exact hwhole.eq_of_length_le hwithin.length_le
  · rintro rfl
    exact ⟨[], List.prefix_rfl⟩

/-- The pattern is found in front of the rest, or behind its start. -/
theorem indexOf_unlines [DecidableEq α] {first : List α} {lines : List (List α)}
    (hnewline : ∀ line ∈ first :: lines, newline ∉ line)
    (hbegins : ∀ line ∈ lines, ¬ Begins newline pattern line) (rest : List α) :
    indexOf (newline :: pattern) (unlines newline (first :: lines) ++ rest) =
      if pattern <+: rest then some ((unlines newline (first :: lines)).length - 1)
      else (indexOf (newline :: pattern) rest).map
        (· + (unlines newline (first :: lines)).length) := by
  induction lines generalizing first with
  | nil =>
      have hfirst := hnewline first List.mem_cons_self
      have hone : unlines newline [first] = first ++ [newline] := by simp [unlines]
      rw [hone, List.append_assoc, List.singleton_append, indexOf_line_append hfirst,
        indexOf_newline_cons]
      split_ifs with hfront
      · simp
      · simp only [Option.map_map, List.length_append, List.length_singleton]
        congr 1
        funext n
        simp only [Function.comp_apply]
        omega
  | cons second lines ih =>
      have hfirst := hnewline first List.mem_cons_self
      have hrest := ih (fun line hline => hnewline line (List.mem_cons_of_mem first hline))
        fun line hline => hbegins line (List.mem_cons_of_mem second hline)
      have hsecond : ¬ pattern <+: unlines newline (second :: lines) ++ rest := by
        intro hfront
        rw [unlines_cons, List.append_assoc, List.cons_append] at hfront
        exact hbegins second List.mem_cons_self ⟨_, hfront⟩
      have hpos : 0 < (unlines newline (second :: lines)).length := by simp [unlines_cons]
      rw [unlines_cons newline first, List.append_assoc, List.cons_append,
        indexOf_line_append hfirst, indexOf_newline_cons, if_neg hsecond, hrest]
      split_ifs with hfront
      · simp only [Option.map_some, List.length_append, List.length_cons, Option.some.injEq]
        omega
      · simp only [Option.map_map, List.length_append, List.length_cons]
        congr 1
        funext n
        simp only [Function.comp_apply]
        omega

end Lines

end TextLines

end NativeInterop
