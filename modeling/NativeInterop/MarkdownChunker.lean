import NativeInterop.Frontmatter

/-!
# The sections of a document

The publisher makes one chunk of each second-level heading with the lines below it, and drops
what stands in front of the first one.  The loop keeps the title and the text of the section it
is in.  Below, a text is taken apart at its headings, and the chunks are read off the parts.
-/

namespace NativeInterop

namespace MarkdownChunker

open Frontmatter (Text units newline trim replaceCrLf)
open TextLines (unlines unlines_cons unlines_eq_intercalate)

structure DocChunk where
  sectionTitle : Text
  body : Text
  deriving DecidableEq, Repr

def isHeading (line : Text) : Bool :=
  units "## " <+: line ∧ ¬ units "### " <+: line

structure State where
  chunks : List DocChunk := []
  title : Option Text := none
  sb : Text := []

def State.flush (s : State) : State :=
  match s.title with
  | some title => { s with chunks := s.chunks ++ [⟨title, trim s.sb⟩], sb := [] }
  | none => { s with sb := [] }

def State.read (s : State) (line : Text) : State :=
  if isHeading line then { s.flush with title := some (trim (line.drop 3)) }
  else if s.title.isSome then { s with sb := s.sb ++ (line ++ [newline]) }
  else s

def chunk (body : Text) : List DocChunk :=
  (((replaceCrLf body).splitOn newline).foldl State.read {}).flush.chunks

/-! ## Taking lines apart at their headings -/

section Sections

variable {α : Type*} (heads : α → Bool)

/-- The lines in front of the first heading, and each heading with the lines below it. -/
def sections : List α → List α × List (α × List α)
  | [] => ([], [])
  | line :: lines =>
      if heads line then ([], (line, (sections lines).1) :: (sections lines).2)
      else (line :: (sections lines).1, (sections lines).2)

/-- Lines put together again. -/
def joined (parts : List α × List (α × List α)) : List α :=
  parts.1 ++ parts.2.flatMap fun part => part.1 :: part.2

/-- No line below a heading is one. -/
structure Parted (parts : List α × List (α × List α)) : Prop where
  front : ∀ line ∈ parts.1, heads line = false
  heading : ∀ part ∈ parts.2, heads part.1 = true
  lines : ∀ part ∈ parts.2, ∀ line ∈ part.2, heads line = false

variable {heads}

theorem joined_sections (lines : List α) : joined (sections heads lines) = lines := by
  induction lines with
  | nil => rfl
  | cons line lines ih =>
      rw [joined] at ih
      rw [sections]
      split_ifs with hheads
      · rw [joined, List.nil_append, List.flatMap_cons, List.cons_append, ih]
      · rw [joined, List.cons_append, ih]

theorem sections_append_of_not_heads {front lines : List α}
    (hfront : ∀ line ∈ front, heads line = false) :
    sections heads (front ++ lines) =
      (front ++ (sections heads lines).1, (sections heads lines).2) := by
  induction front with
  | nil => rfl
  | cons line front ih =>
      have hline := hfront line List.mem_cons_self
      rw [List.cons_append, sections, if_neg (by simp [hline]),
        ih fun other hother => hfront other (List.mem_cons_of_mem line hother)]
      rfl

/-- The parts are the only ones. -/
theorem sections_joined {parts : List α × List (α × List α)} (hparts : Parted heads parts) :
    sections heads (joined parts) = parts := by
  obtain ⟨front, rest⟩ := parts
  rw [joined, sections_append_of_not_heads hparts.front]
  suffices hrest : sections heads (rest.flatMap fun part => part.1 :: part.2) = ([], rest) by
    rw [hrest, List.append_nil]
  have hheading := hparts.heading
  have hlines := hparts.lines
  clear hparts
  induction rest with
  | nil => rfl
  | cons part rest ih =>
      have hbelow := hlines part List.mem_cons_self
      have hmore := ih (fun other hother => hheading other (List.mem_cons_of_mem part hother))
        fun other hother => hlines other (List.mem_cons_of_mem part hother)
      rw [List.flatMap_cons, List.cons_append, sections,
        if_pos (hheading part List.mem_cons_self), sections_append_of_not_heads hbelow, hmore,
        List.append_nil]

theorem sections_map {f : α → α} (hheads : ∀ line, heads (f line) = heads line)
    (lines : List α) :
    sections heads (lines.map f) = ((sections heads lines).1.map f,
      (sections heads lines).2.map fun part => (f part.1, part.2.map f)) := by
  induction lines with
  | nil => rfl
  | cons line lines ih =>
      rw [List.map_cons, sections, sections, hheads, ih]
      split_ifs <;> rfl

end Sections

/-! ## The loop -/

def chunkOf (part : Text × List Text) : DocChunk where
  sectionTitle := trim (part.1.drop 3)
  body := trim (unlines newline part.2)

/-- The section the loop is in, once more lines have been added to it. -/
def State.open (s : State) (lines : List Text) : List DocChunk :=
  (s.title.map fun title => ⟨title, trim (s.sb ++ unlines newline lines)⟩).toList

theorem flush_chunks (s : State) : s.flush.chunks = s.chunks ++ s.open [] := by
  unfold State.flush State.open
  cases s.title <;> simp [unlines]

theorem foldl_read (lines : List Text) (s : State) :
    (lines.foldl State.read s).flush.chunks =
      s.chunks ++ s.open (sections isHeading lines).1 ++
        (sections isHeading lines).2.map chunkOf := by
  induction lines generalizing s with
  | nil => simp [flush_chunks, sections]
  | cons line lines ih =>
      rw [List.foldl_cons, ih, sections]
      by_cases hheading : isHeading line = true
      · have hsb : s.flush.sb = [] := by
          unfold State.flush
          split <;> rfl
        simp only [State.read, if_pos hheading, flush_chunks]
        simp [State.open, hsb, chunkOf]
      · simp only [State.read, if_neg hheading]
        cases htitle : s.title with
        | none => simp [State.open, htitle]
        | some title => simp [State.open, htitle, unlines_cons]

theorem chunk_eq (body : Text) :
    chunk body =
      (sections isHeading ((replaceCrLf body).splitOn newline)).2.map chunkOf := by
  rw [chunk, foldl_read]
  rfl

/-! ## What the pieces are made of -/

theorem trim_subset (text : Text) : trim text ⊆ text :=
  List.Subset.trans (List.rdropWhile_prefix _ _).subset (List.dropWhile_sublist _).subset

theorem replaceCrLf_subset (text : Text) : replaceCrLf text ⊆ text := by
  induction text with
  | nil => exact List.Subset.refl _
  | cons first text ih =>
      cases text with
      | nil => exact List.Subset.refl _
      | cons second text =>
          rw [replaceCrLf]
          split_ifs with hpair
          · have hsame : newline :: replaceCrLf text = replaceCrLf (second :: text) := by
              rw [hpair.2, Frontmatter.replaceCrLf_cons (by decide)]
            rw [hsame]
            exact List.Subset.trans ih (List.subset_cons_self first _)
          · exact List.cons_subset_cons first ih

theorem unlines_splitOn (text : Text) :
    unlines newline (text.splitOn newline) = text ++ [newline] := by
  rw [unlines_eq_intercalate newline (List.splitOn_ne_nil newline text),
    List.intercalate_splitOn]

theorem unlines_subset {lines : List Text} {text : Text} (hlines : ∀ line ∈ lines, line ⊆ text)
    (hnewline : newline ∈ text) : unlines newline lines ⊆ text := by
  intro unit hunit
  obtain ⟨ended, hended, hmem⟩ := List.mem_flatten.mp hunit
  obtain ⟨line, hline, rfl⟩ := List.mem_map.mp hended
  rcases List.mem_append.mp hmem with hin | hend
  · exact hlines line hline hin
  · rwa [List.mem_singleton.mp hend]

theorem line_subset {line text : Text} (hline : line ∈ text.splitOn newline) :
    line ⊆ newline :: text := by
  intro unit hunit
  have hmem : unit ∈ unlines newline (text.splitOn newline) :=
    List.mem_flatten.mpr ⟨line ++ [newline], List.mem_map_of_mem hline,
      List.mem_append_left _ hunit⟩
  rw [unlines_splitOn, List.mem_append, List.mem_singleton] at hmem
  exact List.mem_cons.mpr hmem.symm

theorem part_mem {α : Type*} {heads : α → Bool} {lines : List α} {part : α × List α}
    (hpart : part ∈ (sections heads lines).2) : ∀ line ∈ part.1 :: part.2, line ∈ lines := by
  intro line hline
  rw [← @joined_sections α heads lines]
  exact List.mem_append_right _ (List.mem_flatMap.mpr ⟨part, hpart, hline⟩)

/-- A chunk has no unit that the document does not have, but for line ends. -/
theorem chunk_subset {body : Text} {c : DocChunk} (hc : c ∈ chunk body) :
    c.sectionTitle ⊆ newline :: body ∧ c.body ⊆ newline :: body := by
  rw [chunk_eq] at hc
  obtain ⟨part, hpart, rfl⟩ := List.mem_map.mp hc
  have hlines : ∀ line ∈ part.1 :: part.2, line ⊆ newline :: body := by
    intro line hline
    exact List.Subset.trans (line_subset (part_mem hpart line hline))
      (List.cons_subset_cons _ (replaceCrLf_subset body))
  constructor
  · have hdrop : part.1.drop 3 ⊆ part.1 := (List.drop_sublist 3 part.1).subset
    exact List.Subset.trans (trim_subset _)
      (List.Subset.trans hdrop (hlines part.1 List.mem_cons_self))
  · refine List.Subset.trans (trim_subset _) (unlines_subset ?_ List.mem_cons_self)
    exact fun line hline => hlines line (List.mem_cons_of_mem part.1 hline)

/-! ## Documents that are laid out in sections -/

structure Section where
  heading : Text
  lines : List Text
  deriving DecidableEq, Repr

def Section.text (s : Section) : List Text := (units "## " ++ s.heading) :: s.lines

def Section.chunk (s : Section) : DocChunk where
  sectionTitle := trim s.heading
  body := trim (unlines newline s.lines)

/-- The sections one below the other, behind some lines that belong to none. -/
def layout (preamble : List Text) (parts : List Section) : Text :=
  [newline].intercalate (preamble ++ parts.flatMap Section.text)

structure Laid (front : List Text) (parts : List Section) : Prop where
  above : ∀ line ∈ front, isHeading line = false
  below : ∀ s ∈ parts, ∀ line ∈ s.lines, isHeading line = false
  line : ∀ line ∈ front ++ parts.flatMap Section.text,
    newline ∉ line ∧ Frontmatter.carriageReturn ∉ line

theorem isHeading_heading (heading : Text) : isHeading (units "## " ++ heading) = true := by
  have hsharps : units "## " = [0x23, 0x23, 0x20] := rfl
  have hmore : units "### " = [0x23, 0x23, 0x23, 0x20] := rfl
  simp [isHeading, hsharps, hmore]

theorem Laid.not_return {front : List Text} {parts : List Section} (hlaid : Laid front parts) :
    Frontmatter.carriageReturn ∉ layout front parts := by
  intro hmem
  have hended : Frontmatter.carriageReturn ∈
      unlines newline (front ++ parts.flatMap Section.text) := by
    rcases eq_or_ne (front ++ parts.flatMap Section.text) [] with hnil | hne
    · rw [layout, hnil] at hmem
      cases hmem
    · rw [unlines_eq_intercalate newline hne]
      exact List.mem_append_left _ hmem
  obtain ⟨ended, hended, hreturn⟩ := List.mem_flatten.mp hended
  obtain ⟨line, hline, rfl⟩ := List.mem_map.mp hended
  rcases List.mem_append.mp hreturn with hin | hend
  · exact (hlaid.line line hline).2 hin
  · exact absurd (List.mem_singleton.mp hend) (by decide)

theorem chunk_layout {front : List Text} {parts : List Section} (hlaid : Laid front parts) :
    chunk (layout front parts) = parts.map Section.chunk := by
  have hsections : sections isHeading (front ++ parts.flatMap Section.text) =
      (front, parts.map fun s => (units "## " ++ s.heading, s.lines)) := by
    have hparted : Parted isHeading
        (front, parts.map fun s => (units "## " ++ s.heading, s.lines)) := by
      constructor
      · exact hlaid.above
      · simp [isHeading_heading]
      · simpa using hlaid.below
    have hjoined := sections_joined hparted
    rw [joined, List.flatMap_map] at hjoined
    exact hjoined
  rw [chunk_eq, Frontmatter.replaceCrLf_of_not_mem hlaid.not_return]
  rcases eq_or_ne (front ++ parts.flatMap Section.text) [] with hnil | hne
  · have hparts : parts = [] := by
      rw [List.append_eq_nil_iff, List.flatMap_eq_nil_iff] at hnil
      exact List.eq_nil_iff_forall_not_mem.mpr fun s hs => List.cons_ne_nil _ _ (hnil.2 s hs)
    rw [layout, hnil, hparts]
    rfl
  · rw [layout, List.splitOn_intercalate newline (fun line hline => (hlaid.line line hline).1) hne,
      hsections, List.map_map]
    rfl

end MarkdownChunker

end NativeInterop
