import Mathlib.Data.List.Basic
import Mathlib.Tactic

/-!
# Event streams

The reader of a `text/event-stream`: lines end in a line feed, a carriage return or
both, an empty line ends an event, and of the fields only `data` is kept.  An event
whose empty line does not arrive is dropped.
-/

namespace NativeInterop

namespace EventStream

/-- The lines of a text, from inside one; `skip` after a carriage return. -/
def linesFrom : Bool → List Char → List Char → List (List Char)
  | _, _, [] => []
  | skip, line, c :: rest =>
      if c = '\n' then
        if skip then linesFrom false line rest else line :: linesFrom false [] rest
      else if c = '\r' then line :: linesFrom true [] rest
      else linesFrom false (line ++ [c]) rest

def lines (input : List Char) : List (List Char) :=
  linesFrom false [] input

def name (line : List Char) : List Char :=
  line.takeWhile (· ≠ ':')

/-- Behind the colon, without one leading space. -/
def value (line : List Char) : List Char :=
  match (line.dropWhile (· ≠ ':')).tail with
  | ' ' :: rest => rest
  | rest => rest

/-- The events of a list of lines, with the data collected so far. -/
def eventsFrom : List Char → List (List Char) → List (List Char)
  | _, [] => []
  | data, line :: rest =>
      if line = [] then
        if data = [] then eventsFrom [] rest else data.dropLast :: eventsFrom [] rest
      else if name line = ['d', 'a', 't', 'a'] then
        eventsFrom (data ++ value line ++ ['\n']) rest
      else eventsFrom data rest

def events (input : List Char) : List (List Char) :=
  eventsFrom [] (lines input)

/-- The writer's form of an event. -/
def frame (data : List Char) : List Char :=
  ['d', 'a', 't', 'a', ':', ' '] ++ data ++ ['\n', '\n']

theorem linesFrom_append (line text rest : List Char)
    (htext : ∀ c ∈ text, c ≠ '\n' ∧ c ≠ '\r') :
    linesFrom false line (text ++ '\n' :: rest) =
      (line ++ text) :: linesFrom false [] rest := by
  induction text generalizing line with
  | nil => simp [linesFrom]
  | cons c text ih =>
      obtain ⟨hfeed, hreturn⟩ := htext c List.mem_cons_self
      have hrest := ih (line ++ [c]) fun d hd => htext d (List.mem_cons_of_mem c hd)
      simp [linesFrom, hfeed, hreturn, hrest]

/-- Data without line ends comes back as one event. -/
theorem events_frame (data rest : List Char) (hdata : ∀ c ∈ data, c ≠ '\n' ∧ c ≠ '\r') :
    events (frame data ++ rest) = data :: events rest := by
  have hline : ∀ c ∈ ['d', 'a', 't', 'a', ':', ' '] ++ data, c ≠ '\n' ∧ c ≠ '\r' := by
    intro c hmem
    have hmarks : ∀ c ∈ ['d', 'a', 't', 'a', ':', ' '], c ≠ '\n' ∧ c ≠ '\r' := by simp
    rcases List.mem_append.mp hmem with hmark | hd
    · exact hmarks c hmark
    · exact hdata c hd
  have hsplit : frame data ++ rest =
      (['d', 'a', 't', 'a', ':', ' '] ++ data) ++ '\n' :: ([] ++ '\n' :: rest) := by
    simp [frame]
  unfold events lines
  rw [hsplit, linesFrom_append _ _ _ hline, linesFrom_append _ _ _ (by simp)]
  simp [eventsFrom, name, value]

theorem events_flatMap {texts : List (List Char)}
    (htexts : ∀ data ∈ texts, ∀ c ∈ data, c ≠ '\n' ∧ c ≠ '\r') :
    events (texts.flatMap frame) = texts := by
  induction texts with
  | nil => rfl
  | cons data texts ih =>
      rw [List.flatMap_cons, events_frame data _ (htexts data List.mem_cons_self),
        ih fun other hother => htexts other (List.mem_cons_of_mem data hother)]

end EventStream

end NativeInterop
