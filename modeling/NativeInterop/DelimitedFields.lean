import Mathlib.Data.List.Basic
import Mathlib.Tactic

/-!
# Delimited fields

A name and fields behind it, each field a key and a value.  One character separates the fields,
another ends a key.  A value may hold the character that ends a key; what a repeated key means
is decided by its last field.
-/

namespace NativeInterop

namespace DelimitedFields

variable {α : Type*} [DecidableEq α]

/-- The entries of a dictionary, the last one that was set in front. -/
abbrev Entries (α : Type*) := List (List α × List α)

/-- A field without the mark, or with nothing in front of it, is passed over. -/
def addField (mark : α) (entries : Entries α) (field : List α) : Entries α :=
  match field.idxOf? mark with
  | some i => if 0 < i then (field.take i, field.drop (i + 1)) :: entries else entries
  | none => entries

def readFields (mark : α) (fields : List (List α)) : Entries α :=
  fields.foldl (addField mark) []

def writeField (mark : α) (entry : List α × List α) : List α :=
  entry.1 ++ mark :: entry.2

def writeFields (separator mark : α) (name : List α) (entries : Entries α) : List α :=
  name ++ entries.flatMap fun entry => separator :: writeField mark entry

/-- What the grammar can carry. -/
structure Carried (separator mark : α) (entry : List α × List α) : Prop where
  key_ne_nil : entry.1 ≠ []
  mark_not_mem : mark ∉ entry.1
  separator_not_mem_key : separator ∉ entry.1
  separator_not_mem_value : separator ∉ entry.2

variable {separator mark : α}

theorem idxOf?_writeField {entry : List α × List α} (hmark : mark ∉ entry.1) :
    (writeField mark entry).idxOf? mark = some entry.1.length := by
  obtain ⟨key, value⟩ := entry
  induction key with
  | nil => simp [writeField, List.idxOf?_cons]
  | cons c key ih =>
      rw [List.mem_cons, not_or] at hmark
      have hrest := ih hmark.2
      rw [writeField] at hrest ⊢
      have hne : ¬ (c == mark) = true := by simpa using fun heq => hmark.1 heq.symm
      rw [List.cons_append, List.idxOf?_cons, if_neg hne, hrest]
      rfl

theorem addField_writeField (entries : Entries α) {entry : List α × List α}
    (hcarried : Carried separator mark entry) :
    addField mark entries (writeField mark entry) = entry :: entries := by
  have hpos : 0 < entry.1.length := List.length_pos_of_ne_nil hcarried.key_ne_nil
  have hkey : (writeField mark entry).take entry.1.length = entry.1 := by
    rw [writeField, List.take_left]
  have hvalue : (writeField mark entry).drop (entry.1.length + 1) = entry.2 := by
    rw [writeField, ← List.drop_drop, List.drop_left, List.drop_one, List.tail_cons]
  rw [addField, idxOf?_writeField hcarried.mark_not_mem]
  simp only [if_pos hpos, hkey, hvalue]

theorem foldl_addField {entries : Entries α}
    (hcarried : ∀ entry ∈ entries, Carried separator mark entry) (before : Entries α) :
    (entries.map (writeField mark)).foldl (addField mark) before = entries.reverse ++ before := by
  induction entries generalizing before with
  | nil => rfl
  | cons entry entries ih =>
      rw [List.forall_mem_cons] at hcarried
      rw [List.map_cons, List.foldl_cons, addField_writeField before hcarried.1, ih hcarried.2,
        List.reverse_cons, List.append_assoc]
      rfl

omit [DecidableEq α] in
theorem separator_not_mem_writeField (hne : separator ≠ mark) {entry : List α × List α}
    (hcarried : Carried separator mark entry) : separator ∉ writeField mark entry := by
  rw [writeField, List.mem_append, List.mem_cons, not_or, not_or]
  exact ⟨hcarried.separator_not_mem_key, hne, hcarried.separator_not_mem_value⟩

theorem splitOn_writeFields (hne : separator ≠ mark) {name : List α} (hname : separator ∉ name)
    {entries : Entries α} (hcarried : ∀ entry ∈ entries, Carried separator mark entry) :
    (writeFields separator mark name entries).splitOn separator =
      name :: entries.map (writeField mark) := by
  induction entries generalizing name with
  | nil =>
      rw [writeFields, List.flatMap_nil, List.append_nil, List.splitOn_eq_singleton hname]
      rfl
  | cons entry entries ih =>
      rw [List.forall_mem_cons] at hcarried
      have hfield := separator_not_mem_writeField hne hcarried.1
      have hrest := ih hfield hcarried.2
      rw [writeFields] at hrest
      rw [writeFields, List.flatMap_cons, List.cons_append,
        List.splitOn_append_cons_self_of_not_mem hname, hrest]
      rfl

/-- What is written is read back. -/
theorem readFields_writeFields {entries : Entries α}
    (hcarried : ∀ entry ∈ entries, Carried separator mark entry) :
    readFields mark (entries.map (writeField mark)) = entries.reverse := by
  rw [readFields, foldl_addField hcarried, List.append_nil]

end DelimitedFields

end NativeInterop
