import NativeInterop.MarkdownChunker
import Mathlib.Data.List.DropRight
import Mathlib.Order.Lex
import Mathlib.Data.List.Lex

/-!
# The manuals as passages

The engine cuts each manual at its second-level headings itself, apart from the publisher of the
index, and flattens every section to one line.  It looks for the line end in front of a heading,
so that a heading on the first line of the body does not start a section, and takes the heading's
marks off the front of the text.  What it keeps is told by the lines that are not blank.
-/

namespace NativeInterop

namespace ManualsCorpus

open Frontmatter (Text units newline carriageReturn dash fence isWhite trimStart trim replaceCrLf
  trimNewlines dropCr document)
open TextLines (indexFrom unlines unlines_cons unlines_append unlines_eq_intercalate)
open MarkdownChunker (isHeading sections DocChunk chunk)

/-! ## The source -/

/-- `Split` at every place of the pattern, from the left; the number is what is left to skip of
the place that was found. -/
def splitFrom (pattern : Text) : ℕ → Text → Text → List Text
  | _, piece, [] => [piece]
  | skip + 1, piece, _ :: text => splitFrom pattern skip piece text
  | 0, piece, c :: text =>
      if pattern <+: c :: text then piece :: splitFrom pattern (pattern.length - 1) [] text
      else splitFrom pattern 0 (piece ++ [c]) text

def split (pattern text : Text) : List Text := splitFrom pattern 0 [] text

/-- `Split` at the line ends, with `RemoveEmptyEntries` and `TrimEntries`. -/
def entries (text : Text) : List Text := ((text.splitOn newline).map trim).filter (· ≠ [])

def isMark (unit : UInt16) : Bool := unit = 0x23 ∨ unit = 0x20

/-- The text of a section, if it has one. -/
def passageOf (part : Text) : Option Text :=
  let section' := trim ((trim part).dropWhile isMark)
  if section' = [] then none else some ([0x20].intercalate (entries section'))

def stripFrontmatter (markdown : Text) : Text :=
  let t := trimStart markdown
  if fence <+: t then
    match indexFrom (newline :: fence) t 3 with
    | none => markdown
    | some stop =>
        match indexFrom [newline] t (stop + 1) with
        | some afterFence => t.drop (afterFence + 1)
        | none => []
  else markdown

def splitSections (markdown : Text) : List Text :=
  (split (units "\n## ") (stripFrontmatter markdown)).filterMap passageOf

/-- Ordinal comparison without case, with a text of lower-case letters. -/
def startsWithIgnoreCase (text lower : Text) : Bool :=
  lower <+: text.map fun unit => if 0x41 ≤ unit ∧ unit ≤ 0x5A then unit + 0x20 else unit

def titleOf (line : Text) : Option Text :=
  if startsWithIgnoreCase line (units "title:") then some (trim (line.drop 6)) else none

def extractTitle (markdown : Text) : Option Text :=
  let t := trimStart markdown
  if fence <+: t then
    (indexFrom (newline :: fence) t 3).bind fun stop =>
      ((((t.take stop).drop 3).splitOn newline).map trim).findSome? titleOf
  else none

structure File where
  name : Text
  text : Text

/-- `Path.GetFileNameWithoutExtension`. -/
def File.stem (file : File) : Text :=
  if 0x2E ∈ file.name then (file.name.rdropWhile (· ≠ 0x2E)).dropLast else file.name

def File.chunks (file : File) : List Text :=
  (splitSections file.text).map fun section' =>
    (extractTitle file.text).getD file.stem ++ (units " — " ++ section')

/-- The order of the names by their units. -/
def nameOrder (a b : File) : Bool := a.name.map UInt16.toNat ≤ b.name.map UInt16.toNat

/-- `Load` of what the manuals' directory holds, if there is one. -/
def load (directory : Option (List File)) : List Text :=
  directory.elim [] fun files => (files.mergeSort nameOrder).flatMap File.chunks

/-! ## Cutting at headings -/

theorem splitFrom_line {pattern line rest piece : Text} (hline : newline ∉ line) :
    splitFrom (newline :: pattern) 0 piece (line ++ rest) =
      splitFrom (newline :: pattern) 0 (piece ++ line) rest := by
  induction line generalizing piece with
  | nil => rw [List.nil_append, List.append_nil]
  | cons c line ih =>
      rw [List.mem_cons, not_or] at hline
      have hfront : ¬ newline :: pattern <+: c :: (line ++ rest) := by
        rw [List.cons_prefix_cons]
        exact fun hboth => hline.1 hboth.1
      rw [List.cons_append, splitFrom, if_neg hfront, ih hline.2, List.append_assoc,
        List.singleton_append]

theorem splitFrom_skip {pattern : Text} (skipped text piece : Text) :
    splitFrom pattern skipped.length piece (skipped ++ text) =
      splitFrom pattern 0 piece text := by
  induction skipped with
  | nil => rfl
  | cons c skipped ih =>
      rw [List.cons_append, List.length_cons, splitFrom, ih]

theorem splitFrom_newline (pattern piece rest : Text) :
    splitFrom (newline :: pattern) 0 piece (newline :: rest) =
      if pattern <+: rest then piece :: splitFrom (newline :: pattern) pattern.length [] rest
      else splitFrom (newline :: pattern) 0 (piece ++ [newline]) rest := by
  simp only [splitFrom, List.cons_prefix_cons, true_and]
  rfl

theorem prefix_lines_iff {pattern first : Text} (hpattern : newline ∉ pattern)
    (lines : List Text) :
    pattern <+: [newline].intercalate (first :: lines) ↔ pattern <+: first := by
  rcases eq_or_ne lines [] with rfl | hne
  · rw [List.intercalate_singleton]
  · rw [List.intercalate_cons_of_ne_nil hne, List.append_assoc, List.singleton_append]
    constructor
    · intro hfront
      exact (TextLines.begins_iff hpattern).mp ⟨_, hfront⟩
    · intro hfront
      exact hfront.trans (List.prefix_append first _)

/-- The pieces are the lines up to the first heading, and behind each heading's marks the lines up
to the next one. -/
theorem splitFrom_lines {pattern first piece : Text} {lines : List Text}
    (hpattern : newline ∉ pattern) (hlines : ∀ line ∈ first :: lines, newline ∉ line) :
    splitFrom (newline :: pattern) 0 piece ([newline].intercalate (first :: lines)) =
      (piece ++ [newline].intercalate
        (first :: (sections (fun line => decide (pattern <+: line)) lines).1)) ::
      (sections (fun line => decide (pattern <+: line)) lines).2.map fun part =>
        [newline].intercalate (part.1.drop pattern.length :: part.2) := by
  induction lines generalizing first piece with
  | nil =>
      have hfirst := @splitFrom_line pattern first [] piece (hlines first List.mem_cons_self)
      rw [List.append_nil] at hfirst
      rw [sections, List.intercalate_singleton, hfirst]
      rfl
  | cons second lines ih =>
      obtain ⟨hfirst, hrest⟩ := List.forall_mem_cons.mp hlines
      obtain ⟨hsecond, hmore⟩ := List.forall_mem_cons.mp hrest
      have hiff : pattern <+: [newline].intercalate (second :: lines) ↔ pattern <+: second :=
        prefix_lines_iff hpattern lines
      rw [List.intercalate_cons_of_ne_nil (List.cons_ne_nil _ _), List.append_assoc,
        splitFrom_line hfirst, List.singleton_append, splitFrom_newline, sections]
      by_cases hheads : pattern <+: second
      · obtain ⟨title, rfl⟩ := hheads
        have htitle : ∀ line ∈ title :: lines, newline ∉ line := by
          refine List.forall_mem_cons.mpr ⟨fun hmem => ?_, hmore⟩
          exact hsecond (List.mem_append_right pattern hmem)
        have hlines' : [newline].intercalate ((pattern ++ title) :: lines) =
            pattern ++ [newline].intercalate (title :: lines) := by
          cases lines with
          | nil => simp
          | cons third lines => simp
        rw [if_pos (hiff.mpr (List.prefix_append _ _)),
          if_pos (decide_eq_true (List.prefix_append _ _)), hlines', splitFrom_skip, ih htitle,
          List.intercalate_singleton, List.map_cons, List.drop_left, List.nil_append]
      · rw [if_neg fun hfront => hheads (hiff.mp hfront), if_neg (by simpa using hheads),
          ih hrest, List.append_assoc, List.append_assoc,
          List.intercalate_cons_of_ne_nil (List.cons_ne_nil _ _), List.append_assoc]

/-! ## Texts by their lines that are not blank -/

def nonblank (lines : List Text) : List Text := (lines.map trim).filter (· ≠ [])

theorem entries_eq (text : Text) : entries text = nonblank (text.splitOn newline) := rfl

theorem nonblank_append (before after : List Text) :
    nonblank (before ++ after) = nonblank before ++ nonblank after := by
  simp [nonblank]

theorem nonblank_cons (line : Text) (lines : List Text) :
    nonblank (line :: lines) = nonblank [line] ++ nonblank lines :=
  nonblank_append [line] lines

theorem nonblank_congr {line other : Text} (hsame : trim line = trim other) :
    nonblank [line] = nonblank [other] := by
  simp [nonblank, hsame]

theorem trim_cons {c : UInt16} (hwhite : isWhite c = true) (text : Text) :
    trim (c :: text) = trim text := by
  rw [trim, trimStart, List.dropWhile_cons_of_pos hwhite]
  rfl

theorem trim_concat {c : UInt16} (hwhite : isWhite c = true) (text : Text) :
    trim (text ++ [c]) = trim text := by
  rw [trim, trim, trimStart, trimStart, List.dropWhile_append]
  split_ifs with hall
  · rw [List.isEmpty_iff] at hall
    rw [hall, List.dropWhile_cons_of_pos hwhite]
    rfl
  · exact List.rdropWhile_concat_pos _ _ _ hwhite

theorem trim_letter {c : UInt16} {text : Text} (hwhite : isWhite c = false) :
    trim (c :: text) = (c :: text).rdropWhile isWhite := by
  rw [trim, trimStart, List.dropWhile_cons_of_neg (by simp [hwhite])]

theorem entries_line {line : Text} (hline : newline ∉ line) : entries line = nonblank [line] := by
  rw [entries_eq, List.splitOn_eq_singleton hline]

theorem entries_append (before after : Text) :
    entries (before ++ newline :: after) = entries before ++ entries after := by
  rw [entries_eq, List.splitOn_append_cons_self, nonblank_append]
  rfl

theorem entries_lines {lines : List Text} (hlines : ∀ line ∈ lines, newline ∉ line) :
    entries ([newline].intercalate lines) = nonblank lines := by
  rcases eq_or_ne lines [] with rfl | hne
  · rfl
  · rw [entries_eq, List.splitOn_intercalate newline hlines hne]

theorem isWhite_newline : isWhite newline = true := by decide

/-- A text up to its first line end, and what follows. -/
theorem exists_line (text : Text) :
    ∃ line rest, newline ∉ line ∧ (rest = [] ∨ ∃ after, rest = newline :: after) ∧
      text = line ++ rest := by
  by_cases hmem : newline ∈ text
  · obtain ⟨line, after, rfl, hline⟩ := List.eq_append_cons_of_mem hmem
    exact ⟨line, _, hline, .inr ⟨after, rfl⟩, rfl⟩
  · exact ⟨text, [], hmem, .inl rfl, (List.append_nil text).symm⟩

theorem entries_line_append {line rest : Text} (hline : newline ∉ line)
    (hrest : rest = [] ∨ ∃ after, rest = newline :: after) :
    entries (line ++ rest) = nonblank [line] ++ entries rest := by
  rcases hrest with rfl | ⟨after, rfl⟩
  · rw [List.append_nil, entries_line hline]
    exact (List.append_nil _).symm
  · have hnone := entries_append [] after
    rw [List.nil_append] at hnone
    rw [entries_append, entries_line hline, hnone]
    rfl

theorem entries_cons {c : UInt16} (hwhite : isWhite c = true) (text : Text) :
    entries (c :: text) = entries text := by
  by_cases hend : c = newline
  · subst hend
    exact entries_append [] text
  · obtain ⟨line, rest, hline, hrest, rfl⟩ := exists_line text
    have hfront : newline ∉ c :: line := by
      rw [List.mem_cons, not_or]
      exact ⟨Ne.symm hend, hline⟩
    rw [← List.cons_append, entries_line_append hfront hrest, entries_line_append hline hrest,
      nonblank_congr (trim_cons hwhite line)]

theorem entries_concat {c : UInt16} (hwhite : isWhite c = true) (text : Text) :
    entries (text ++ [c]) = entries text := by
  by_cases hend : c = newline
  · subst hend
    rw [entries_append]
    exact List.append_nil _
  · induction hlength : text.length using Nat.strongRecOn generalizing text with
    | ind n ih =>
        obtain ⟨line, rest, hline, hrest, rfl⟩ := exists_line text
        rcases hrest with rfl | ⟨after, rfl⟩
        · have hback : newline ∉ line ++ [c] := by
            rw [List.mem_append, List.mem_singleton, not_or]
            exact ⟨hline, Ne.symm hend⟩
          rw [List.append_nil, entries_line hback, entries_line hline,
            nonblank_congr (trim_concat hwhite line)]
        · have hshorter : after.length < n := by
            rw [← hlength, List.length_append, List.length_cons]
            omega
          rw [List.append_assoc, List.cons_append, entries_append, entries_append,
            ih _ hshorter after rfl]

theorem entries_trim (text : Text) : entries (trim text) = entries text := by
  have hstart : ∀ t : Text, entries (trimStart t) = entries t := by
    intro t
    induction t with
    | nil => rfl
    | cons c t ih =>
        cases hwhite : isWhite c with
        | true => rw [trimStart, List.dropWhile_cons_of_pos hwhite, entries_cons hwhite]; exact ih
        | false => rw [trimStart, List.dropWhile_cons_of_neg (by simp [hwhite])]
  have hend : ∀ t : Text, entries (t.rdropWhile isWhite) = entries t := by
    intro t
    induction t using List.reverseRecOn with
    | nil => rfl
    | append_singleton t c ih =>
        cases hwhite : isWhite c with
        | true => rw [List.rdropWhile_concat_pos _ _ _ hwhite, entries_concat hwhite, ih]
        | false => rw [List.rdropWhile_concat_neg _ _ _ (by simp [hwhite])]
  rw [trim, hend, hstart]

/-! ## The marks in front -/

/-- The marks go from the first line; if it was nothing else, the line goes, too. -/
def unmarked : List Text → List Text
  | [] => []
  | first :: lines => nonblank [first.dropWhile isMark] ++ lines

def joined (lines : List Text) : Option Text :=
  if lines = [] then none else some ([0x20].intercalate lines)

/-- White space at the end of a line may be cut before the marks or behind. -/
theorem trim_unmarked (line : Text) :
    trim ((line.rdropWhile isWhite).dropWhile isMark) = trim (line.dropWhile isMark) := by
  induction line using List.reverseRecOn with
  | nil => rfl
  | append_singleton line c ih =>
      cases hwhite : isWhite c with
      | false => rw [List.rdropWhile_concat_neg _ _ _ (by simp [hwhite])]
      | true =>
          rw [List.rdropWhile_concat_pos _ _ _ hwhite, ih, List.dropWhile_append]
          split_ifs with hall
          · rw [List.isEmpty_iff] at hall
            rw [hall, List.dropWhile_cons]
            split_ifs
            · rfl
            · exact (trim_concat hwhite []).symm
          · exact (trim_concat hwhite _).symm

theorem isMark_newline : isMark newline = false := by decide

/-- The first line of a text that begins with a letter. -/
theorem exists_first_line {c : UInt16} (hletter : isWhite c = false) (text : Text) :
    ∃ more rest, newline ∉ c :: more ∧ (rest = [] ∨ ∃ after, rest = newline :: after) ∧
      c :: text = c :: more ++ rest ∧ nonblank [c :: more] = [(c :: more).rdropWhile isWhite] := by
  obtain ⟨line, rest, hline, hrest, htext⟩ := exists_line (c :: text)
  have hstarts : ∃ more, line = c :: more := by
    cases line with
    | cons first more => exact ⟨more, by rw [(List.cons.inj htext).1]⟩
    | nil =>
        rcases hrest with rfl | ⟨after, rfl⟩
        · cases htext
        · rw [(List.cons.inj htext).1] at hletter
          exact absurd isWhite_newline (by simp [hletter])
  obtain ⟨more, rfl⟩ := hstarts
  have hne : (c :: more).rdropWhile isWhite ≠ [] := by
    rw [ne_eq, List.rdropWhile_eq_nil_iff]
    exact fun hall => absurd (hall c List.mem_cons_self) (by simp [hletter])
  refine ⟨more, rest, hline, hrest, htext, ?_⟩
  rw [nonblank, List.map_singleton, trim_letter hletter]
  simp [hne]

/-- A text that begins with a letter keeps its lines but for the marks of the first. -/
theorem entries_unmarked {c : UInt16} (hletter : isWhite c = false) (text : Text) :
    entries ((c :: text).dropWhile isMark) = unmarked (entries (c :: text)) := by
  obtain ⟨more, rest, hline, hrest, htext, hkept⟩ := exists_first_line hletter text
  have hmarks : (c :: more ++ rest).dropWhile isMark = (c :: more).dropWhile isMark ++ rest := by
    rw [List.dropWhile_append]
    split_ifs with hall
    · rw [List.isEmpty_iff] at hall
      rw [hall, List.nil_append]
      rcases hrest with rfl | ⟨after, rfl⟩
      · rfl
      · rw [List.dropWhile_cons_of_neg (by simp [isMark_newline])]
    · rfl
  have hunmarked : newline ∉ (c :: more).dropWhile isMark := fun hmem =>
    hline ((List.dropWhile_sublist _).subset hmem)
  rw [htext, hmarks, entries_line_append hunmarked hrest, entries_line_append hline hrest, hkept,
    List.singleton_append, unmarked, nonblank_congr (trim_unmarked (c :: more))]

theorem isWhite_of_trim {c : UInt16} {text more : Text} (htrim : trim text = c :: more) :
    isWhite c = false := by
  have hprefix : c :: more <+: trimStart text := htrim ▸ List.rdropWhile_prefix _ _
  obtain ⟨rest, hrest⟩ := hprefix
  have hhead := List.head?_dropWhile_not isWhite text
  rw [trimStart] at hrest
  rw [← hrest] at hhead
  simpa using hhead

theorem entries_eq_nil_iff (text : Text) : entries text = [] ↔ trim text = [] := by
  rw [← entries_trim]
  constructor
  · intro hnone
    cases htrim : trim text with
    | nil => rfl
    | cons c more =>
        obtain ⟨line, rest, hline, hrest, htext, hkept⟩ :=
          exists_first_line (isWhite_of_trim htrim) more
        rw [htrim, htext, entries_line_append hline hrest, hkept] at hnone
        cases hnone
  · intro htrim
    rw [htrim]
    rfl

/-- A passage is told by the lines that are not blank. -/
theorem passageOf_eq (part : Text) : passageOf part = joined (unmarked (entries part)) := by
  have hentries : entries ((trim part).dropWhile isMark) = unmarked (entries part) := by
    rw [← entries_trim part]
    cases htrim : trim part with
    | nil => rfl
    | cons c more => exact entries_unmarked (isWhite_of_trim htrim) more
  rw [passageOf, joined, ← hentries]
  simp only [entries_eq_nil_iff, entries_trim]

/-! ## Lines that end in a return -/

/-- Either file's lines, without the returns at their ends. -/
def plain (line : Text) : Text := line.rdropWhile (· = carriageReturn)

theorem plain_concat (line : Text) : plain (line ++ [carriageReturn]) = plain line :=
  List.rdropWhile_concat_pos _ _ _ (by simp)

/-- What a return at the end does not change, all of them do not. -/
theorem plain_rec {β : Type*} {f : Text → β}
    (hconcat : ∀ line, f (line ++ [carriageReturn]) = f line) (line : Text) :
    f (plain line) = f line := by
  induction line using List.reverseRecOn with
  | nil => rfl
  | append_singleton line c ih =>
      by_cases hreturn : c = carriageReturn
      · subst hreturn
        rw [plain_concat, ih, hconcat]
      · rw [plain, List.rdropWhile_concat_neg _ _ _ (by simpa using hreturn)]

theorem isWhite_return : isWhite carriageReturn = true := by decide

theorem trim_plain (line : Text) : trim (plain line) = trim line :=
  plain_rec (trim_concat isWhite_return) line

theorem trim_drop_plain (line : Text) : trim ((plain line).drop 3) = trim (line.drop 3) := by
  refine plain_rec (f := fun line => trim (line.drop 3)) (fun line => ?_) line
  rcases Nat.lt_or_ge line.length 3 with hlt | hge
  · rw [List.drop_eq_nil_of_le (Nat.le_of_lt hlt), List.drop_eq_nil_of_le]
    rw [List.length_append, List.length_singleton]
    exact hlt
  · rw [List.drop_append_of_le_length hge, trim_concat isWhite_return]

theorem prefix_concat_iff {pattern line : Text} {c : UInt16} (hnot : c ∉ pattern) :
    pattern <+: line ++ [c] ↔ pattern <+: line := by
  constructor
  · intro hfront
    rcases List.prefix_concat_iff.mp hfront with rfl | hin
    · exact absurd (List.mem_append_right line List.mem_cons_self) hnot
    · exact hin
  · exact fun hfront => hfront.trans (List.prefix_append line [c])

theorem isHeading_eq : isHeading = fun line => decide (units "## " <+: line) := by
  funext line
  have hsharps : units "## " = [0x23, 0x23, 0x20] := rfl
  have hmore : units "### " = [0x23, 0x23, 0x23, 0x20] := rfl
  rw [isHeading, decide_eq_decide]
  constructor
  · exact fun hboth => hboth.1
  · rintro ⟨rest, rfl⟩
    exact ⟨List.prefix_append _ _, by simp [hsharps, hmore]⟩

theorem isHeading_plain (line : Text) : isHeading (plain line) = isHeading line := by
  rw [isHeading_eq]
  refine plain_rec (f := fun line => decide (units "## " <+: line)) (fun line => ?_) line
  exact decide_eq_decide.mpr (prefix_concat_iff (by decide))

theorem nonblank_map_plain (lines : List Text) : nonblank (lines.map plain) = nonblank lines := by
  rw [nonblank, nonblank, List.map_map]
  congr 2
  exact funext trim_plain

/-- The passages of the sections. -/
def sectionPassages (lines : List Text) : List Text :=
  (sections isHeading lines).2.filterMap fun part =>
    joined (unmarked (nonblank (part.1.drop 3 :: part.2)))

theorem sectionPassages_plain (lines : List Text) :
    sectionPassages (lines.map plain) = sectionPassages lines := by
  rw [sectionPassages, sectionPassages, MarkdownChunker.sections_map isHeading_plain,
    List.filterMap_map]
  congr 1
  funext part
  rw [Function.comp_apply, nonblank_cons, nonblank_cons (part.1.drop 3), nonblank_map_plain,
    nonblank_congr (trim_drop_plain part.1)]

theorem sectionPassages_trimNewlines (text : Text) :
    sectionPassages ((trimNewlines text).splitOn newline) =
      sectionPassages (text.splitOn newline) := by
  induction text with
  | nil => rfl
  | cons c text ih =>
      by_cases hend : c = newline
      · have hsplit : (newline :: text).splitOn newline = [] :: text.splitOn newline :=
          List.splitOn_append_cons_self [] text
        subst hend
        rw [trimNewlines, List.dropWhile_cons_of_pos (by simp), hsplit]
        exact ih
      · rw [trimNewlines, List.dropWhile_cons_of_neg (by simpa using hend)]

theorem splitOn_unlines_append {lines : List Text} {last : Text}
    (hlines : ∀ line ∈ lines, newline ∉ line) (hlast : newline ∉ last) :
    (unlines newline lines ++ last).splitOn newline = lines ++ [last] := by
  induction lines with
  | nil => exact List.splitOn_eq_singleton hlast
  | cons line lines ih =>
      obtain ⟨hline, hmore⟩ := List.forall_mem_cons.mp hlines
      rw [unlines_cons, List.append_assoc, List.cons_append,
        List.splitOn_append_cons_self_of_not_mem hline, ih hmore]
      rfl

theorem exists_unlines (text : Text) : ∃ lines last, (∀ line ∈ lines, newline ∉ line) ∧
    newline ∉ last ∧ text = unlines newline lines ++ last := by
  induction hlength : text.length using Nat.strongRecOn generalizing text with
  | ind n ih =>
      obtain ⟨line, rest, hline, rfl | ⟨after, rfl⟩, rfl⟩ := exists_line text
      · exact ⟨[], line, nofun, hline, List.append_nil line⟩
      · have hshorter : after.length < n := by
          rw [← hlength, List.length_append, List.length_cons]
          omega
        obtain ⟨lines, last, hlines, hlast, rfl⟩ := ih _ hshorter after rfl
        refine ⟨line :: lines, last, List.forall_mem_cons.mpr ⟨hline, hlines⟩, hlast, ?_⟩
        rw [unlines_cons, List.append_assoc, List.cons_append]

theorem not_mem_of_mem_splitOn {line text : Text} (hline : line ∈ text.splitOn newline) :
    newline ∉ line := by
  obtain ⟨lines, last, hlines, hlast, rfl⟩ := exists_unlines text
  rw [splitOn_unlines_append hlines hlast, List.mem_append, List.mem_singleton] at hline
  rcases hline with hmem | rfl
  · exact hlines line hmem
  · exact hlast

theorem plain_dropCr (line : Text) : plain (dropCr line) = plain line := by
  unfold dropCr
  split_ifs with hlast
  · obtain ⟨front, rfl⟩ := List.getLast?_eq_some_iff.mp hlast
    rw [List.dropLast_concat, plain_concat]
  · rfl

theorem replaceCrLf_of_line {line : Text} (hline : newline ∉ line) : replaceCrLf line = line := by
  induction line with
  | nil => rfl
  | cons first line ih =>
      cases line with
      | nil => rfl
      | cons second line =>
          rw [List.mem_cons, not_or] at hline
          have hnot : ¬ (first = carriageReturn ∧ second = newline) := fun hpair =>
            hline.2 (hpair.2 ▸ List.mem_cons_self)
          rw [replaceCrLf, if_neg hnot, ih hline.2]

/-- However the lines end, they have the same passages. -/
theorem sectionPassages_replaceCrLf (text : Text) :
    sectionPassages ((replaceCrLf text).splitOn newline) =
      sectionPassages (text.splitOn newline) := by
  obtain ⟨lines, last, hlines, hlast, rfl⟩ := exists_unlines text
  have hdropped : ∀ line ∈ lines.map dropCr, newline ∉ line := by
    intro line hline
    obtain ⟨other, hother, rfl⟩ := List.mem_map.mp hline
    exact Frontmatter.not_mem_dropCr (hlines other hother)
  rw [Frontmatter.replaceCrLf_unlines hlines, replaceCrLf_of_line hlast,
    splitOn_unlines_append hdropped hlast, splitOn_unlines_append hlines hlast,
    ← sectionPassages_plain, ← sectionPassages_plain (lines ++ [last])]
  congr 1
  rw [List.map_append, List.map_append, List.map_map]
  congr 2
  exact funext plain_dropCr

/-! ## The published chunks -/

/-- The passage that the engine would make of a chunk of the index. -/
def published (c : DocChunk) : Option Text := passageOf (c.sectionTitle ++ newline :: c.body)

theorem entries_unlines {lines : List Text} (hlines : ∀ line ∈ lines, newline ∉ line) :
    entries (unlines newline lines) = nonblank lines := by
  rcases eq_or_ne lines [] with rfl | hne
  · rfl
  · rw [unlines_eq_intercalate newline hne, entries_concat isWhite_newline, entries_lines hlines]

theorem published_chunkOf {part : Text × List Text}
    (hpart : ∀ line ∈ part.1 :: part.2, newline ∉ line) :
    published (MarkdownChunker.chunkOf part) =
      joined (unmarked (nonblank (part.1.drop 3 :: part.2))) := by
  obtain ⟨hheading, hlines⟩ := List.forall_mem_cons.mp hpart
  have htitle : newline ∉ part.1.drop 3 := fun hmem =>
    hheading ((List.drop_sublist 3 part.1).subset hmem)
  rw [published, passageOf_eq, MarkdownChunker.chunkOf, entries_append, entries_trim, entries_trim,
    entries_line htitle, entries_unlines hlines, nonblank_cons (part.1.drop 3) part.2]

theorem published_chunk (body : Text) :
    (chunk body).filterMap published = sectionPassages (body.splitOn newline) := by
  rw [← sectionPassages_replaceCrLf, MarkdownChunker.chunk_eq, List.filterMap_map, sectionPassages]
  refine List.filterMap_congr fun part hpart => ?_
  have hlines : ∀ line ∈ part.1 :: part.2, newline ∉ line := fun line hline =>
    not_mem_of_mem_splitOn (MarkdownChunker.part_mem hpart line hline)
  rw [Function.comp_apply, published_chunkOf hlines]

/-! ## What the engine makes of a manual -/

/-- The passages of a text, from its lines. -/
theorem passages_eq {text first : Text} {lines : List Text}
    (hlines : text.splitOn newline = first :: lines) :
    (split (units "\n## ") text).filterMap passageOf =
      (joined (unmarked (nonblank (first :: (sections isHeading lines).1)))).toList ++
        sectionPassages lines := by
  have hnewline : ∀ line ∈ first :: lines, newline ∉ line := fun line hline =>
    not_mem_of_mem_splitOn (hlines ▸ hline)
  have htext : text = [newline].intercalate (first :: lines) := by
    rw [← hlines, List.intercalate_splitOn]
  have hpattern : units "\n## " = newline :: units "## " := rfl
  obtain ⟨hfirst, hrest⟩ := List.forall_mem_cons.mp hnewline
  have hfront : ∀ line ∈ first :: (sections isHeading lines).1, newline ∉ line := by
    refine List.forall_mem_cons.mpr ⟨hfirst, fun line hline => hrest line ?_⟩
    rw [← @MarkdownChunker.joined_sections _ isHeading lines]
    exact List.mem_append_left _ hline
  have hsections : ∀ part ∈ (sections isHeading lines).2,
      passageOf ([newline].intercalate (part.1.drop 3 :: part.2)) =
        joined (unmarked (nonblank (part.1.drop 3 :: part.2))) := by
    intro part hpart
    obtain ⟨hheading, hbelow⟩ := List.forall_mem_cons.mp fun line hline =>
      hrest line (MarkdownChunker.part_mem hpart line hline)
    have htitle : newline ∉ part.1.drop 3 := fun hmem =>
      hheading ((List.drop_sublist 3 part.1).subset hmem)
    rw [passageOf_eq, entries_lines (List.forall_mem_cons.mpr ⟨htitle, hbelow⟩)]
  rw [split, htext, hpattern, splitFrom_lines (by decide) hnewline, ← isHeading_eq,
    List.nil_append, List.filterMap_cons, passageOf_eq, entries_lines hfront, List.filterMap_map,
    sectionPassages, ← List.filterMap_congr hsections]
  cases joined (unmarked (nonblank (first :: (sections isHeading lines).1))) <;> rfl

/-- A heading that says something behind its marks. -/
def Titled (line : Text) : Prop := ∃ c more, trim (line.drop 3) = c :: more ∧ isMark c = false

theorem trim_dropWhile_isMark {title : Text} {c : UInt16} {more : Text}
    (htrim : trim title = c :: more) (hmark : isMark c = false) :
    trim (title.dropWhile isMark) = trim title := by
  induction title with
  | nil => rfl
  | cons d title ih =>
      by_cases hdrops : isMark d = true
      · cases hwhite : isWhite d with
        | true =>
            rw [trim_cons hwhite] at htrim ⊢
            rw [List.dropWhile_cons_of_pos hdrops, ih htrim]
        | false =>
            have hfront : c :: more <+: d :: title := by
              rw [← htrim, trim_letter hwhite]
              exact List.rdropWhile_prefix _ _
            rw [(List.cons_prefix_cons.mp hfront).1, hdrops] at hmark
            cases hmark
      · rw [List.dropWhile_cons_of_neg hdrops]

/-- On the first line the marks are taken off the heading, behind it they are cut away with it. -/
theorem unmarked_heading {line : Text} (hheading : isHeading line = true) (htitled : Titled line)
    (lines : List Text) :
    unmarked (nonblank (line :: lines)) = unmarked (nonblank (line.drop 3 :: lines)) := by
  obtain ⟨c, more, htrim, hmark⟩ := htitled
  rw [isHeading_eq, decide_eq_true_eq] at hheading
  obtain ⟨title, rfl⟩ := hheading
  have hthree : (units "## " ++ title).drop 3 = title := rfl
  rw [hthree] at htrim ⊢
  have hletter : isWhite 0x23 = false := by decide
  have hline : nonblank [units "## " ++ title] =
      [(units "## " ++ title).rdropWhile isWhite] := by
    have hne : (units "## " ++ title).rdropWhile isWhite ≠ [] := by
      rw [ne_eq, List.rdropWhile_eq_nil_iff]
      exact fun hall => absurd (hall 0x23 List.mem_cons_self) (by simp [hletter])
    rw [nonblank, List.map_singleton]
    have htrimmed : trim (units "## " ++ title) = (units "## " ++ title).rdropWhile isWhite :=
      trim_letter hletter
    rw [htrimmed]
    simp [hne]
  have htitle : nonblank [title] = [trim title] := by
    simp [nonblank, htrim]
  have hmarks : (units "## " ++ title).dropWhile isMark = title.dropWhile isMark := rfl
  have hagain : trim ((trim title).dropWhile isMark) = trim (title.dropWhile isMark) := by
    have hidempotent : trim (c :: more) = trim title := by
      rw [trim_letter (isWhite_of_trim htrim), ← htrim, trim, List.rdropWhile_idempotent]
    rw [trim_dropWhile_isMark htrim hmark, htrim, List.dropWhile_cons_of_neg (by simp [hmark]),
      hidempotent, htrim]
  rw [nonblank_cons, nonblank_cons title, hline, htitle, List.singleton_append,
    List.singleton_append, unmarked, unmarked, nonblank_congr hagain,
    nonblank_congr (trim_unmarked _), hmarks]

/-- A manual with its header between fences and a body; the body's first line is not a heading that
says nothing. -/
structure Manual where
  name : Text
  header : List Text
  body : Text
  header_ne : header ≠ []
  header_line : ∀ line ∈ header, newline ∉ line ∧ ¬ fence <+: line
  titled : ∀ line ∈ (body.splitOn newline).head?, isHeading line = true → Titled line

namespace Manual

variable (m : Manual)

def markdown : Text := document m.header m.body

def file : File := ⟨m.name, m.markdown⟩

def title : Text := ((m.header.map trim).findSome? titleOf).getD m.file.stem

/-- The lines in front of the first heading. -/
def preface : Text := [newline].intercalate (sections isHeading (m.body.splitOn newline)).1

theorem header_newline : ∀ line ∈ [] :: m.header, newline ∉ line :=
  List.forall_mem_cons.mpr ⟨nofun, fun line hline => (m.header_line line hline).1⟩

theorem drop_markdown : m.markdown.drop 3 =
    unlines newline ([] :: m.header) ++ (fence ++ newline :: m.body) := by
  rw [unlines_cons]
  rfl

/-- Either engine function finds the closing fence behind the header. -/
theorem indexFrom_markdown : indexFrom (newline :: fence) m.markdown 3 =
    some ((unlines newline ([] :: m.header)).length + 2) := by
  have hbegins : ∀ line ∈ m.header, ¬ TextLines.Begins newline fence line := by
    intro line hline hbegins
    exact (m.header_line line hline).2 ((TextLines.begins_iff (by decide)).mp hbegins)
  have hpos : 0 < (unlines newline ([] :: m.header)).length := by simp [unlines_cons]
  rw [indexFrom, m.drop_markdown, TextLines.indexOf_unlines m.header_newline hbegins,
    if_pos (List.prefix_append _ _), Option.map_some, Option.some.injEq]
  omega

theorem stripFrontmatter_markdown : stripFrontmatter m.markdown = m.body := by
  have hstart : trimStart m.markdown = m.markdown := rfl
  have hfence : fence <+: m.markdown := List.prefix_append _ _
  have hclosing : m.markdown.drop ((unlines newline ([] :: m.header)).length + 3) =
      fence ++ newline :: m.body := by
    rw [Nat.add_comm, ← List.drop_drop, m.drop_markdown, List.drop_left]
  have hend : indexFrom [newline] m.markdown ((unlines newline ([] :: m.header)).length + 3) =
      some ((unlines newline ([] :: m.header)).length + 3 + 3) := by
    rw [indexFrom, hclosing, TextLines.indexOf_line_append (by decide),
      TextLines.indexOf_newline_cons, if_pos List.nil_prefix, Option.map_some, Option.map_some,
      Option.some.injEq, fence, List.length_cons, List.length_cons, List.length_singleton]
    omega
  simp only [stripFrontmatter, hstart, if_pos hfence, m.indexFrom_markdown, hend]
  rw [Nat.add_assoc _ 3, ← List.drop_drop, hclosing]
  rfl

/-- The title is looked for in the header only. -/
theorem extractTitle_markdown :
    extractTitle m.markdown = (m.header.map trim).findSome? titleOf := by
  have hstart : trimStart m.markdown = m.markdown := rfl
  have hfence : fence <+: m.markdown := List.prefix_append _ _
  have hpos : 0 < (unlines newline ([] :: m.header)).length := by simp [unlines_cons]
  have htake : (m.markdown.take ((unlines newline ([] :: m.header)).length + 2)).drop 3 =
      (unlines newline ([] :: m.header) ++ (fence ++ newline :: m.body)).take
        ((unlines newline ([] :: m.header)).length - 1) := by
    rw [List.drop_take, m.drop_markdown]
    congr 1
  have hnone : titleOf (trim []) = none := rfl
  simp only [extractTitle, hstart, if_pos hfence, m.indexFrom_markdown, Option.bind_some, htake]
  rw [TextLines.splitOn_take_unlines (List.cons_ne_nil _ _) m.header_newline, List.map_cons,
    List.findSome?_cons, hnone]

theorem parse_markdown : (Frontmatter.parse m.markdown).2 = trimNewlines (replaceCrLf m.body) := by
  obtain ⟨first, others, hheader⟩ := List.exists_cons_of_ne_nil m.header_ne
  have hnewline : ∀ line ∈ m.header.map dropCr, newline ∉ line := by
    intro line hline
    obtain ⟨other, hother, rfl⟩ := List.mem_map.mp hline
    exact Frontmatter.not_mem_dropCr (m.header_line other hother).1
  have hfence : fence ∉ others.map dropCr := by
    intro hmem
    obtain ⟨line, hline, hfence⟩ := List.mem_map.mp hmem
    refine (m.header_line line (hheader ▸ List.mem_cons_of_mem first hline)).2 ?_
    rw [← Frontmatter.fence_prefix_dropCr_iff, hfence]
  have hopened : replaceCrLf m.markdown = fence ++ newline ::
      (unlines newline (m.header.map dropCr) ++ (fence ++ newline :: replaceCrLf m.body)) := by
    rw [markdown, document, Frontmatter.replaceCrLf_fence_append,
      Frontmatter.replaceCrLf_newline_cons,
      Frontmatter.replaceCrLf_unlines fun line hline => (m.header_line line hline).1,
      Frontmatter.replaceCrLf_fence_append, Frontmatter.replaceCrLf_newline_cons]
  rw [hheader, List.map_cons] at hnewline hopened
  rw [Frontmatter.parse_of_fence hnewline hfence hopened]

/-- The engine's passages are those of the published chunks, behind that of the preface. -/
theorem splitSections_markdown : splitSections m.markdown =
    (passageOf m.preface).toList ++
      (chunk (Frontmatter.parse m.markdown).2).filterMap published := by
  have hpublished : (chunk (Frontmatter.parse m.markdown).2).filterMap published =
      sectionPassages (m.body.splitOn newline) := by
    rw [parse_markdown, published_chunk, sectionPassages_trimNewlines,
      sectionPassages_replaceCrLf]
  obtain ⟨first, lines, hlines⟩ :=
    List.exists_cons_of_ne_nil (List.splitOn_ne_nil newline m.body)
  have hpreface : passageOf m.preface =
      joined (unmarked (nonblank (sections isHeading (first :: lines)).1)) := by
    have hnewline : ∀ line ∈ (sections isHeading (first :: lines)).1, newline ∉ line := by
      intro line hline
      refine @not_mem_of_mem_splitOn line m.body ?_
      rw [hlines, ← @MarkdownChunker.joined_sections _ isHeading (first :: lines)]
      exact List.mem_append_left _ hline
    rw [passageOf_eq, preface, hlines, entries_lines hnewline]
  rw [splitSections, stripFrontmatter_markdown, passages_eq hlines, hpublished, hlines, hpreface]
  cases hheading : isHeading first with
  | false =>
      rw [sectionPassages, sectionPassages, sections, if_neg (by simp [hheading])]
  | true =>
      have htitled : Titled first := m.titled first (by rw [hlines]; rfl) hheading
      rw [unmarked_heading hheading htitled, sectionPassages, sectionPassages, sections,
        if_pos hheading, List.filterMap_cons]
      cases joined (unmarked (nonblank (first.drop 3 :: (sections isHeading lines).1))) <;> rfl

end Manual

/-- The engine's corpus is the published sections of the manuals, in the order of the files' names,
each as one line behind its manual's title; and the text in front of the first heading, which the
index does not have. -/
theorem load_published (manuals : List Manual) :
    load (some (manuals.map Manual.file)) =
      (manuals.mergeSort fun a b => nameOrder a.file b.file).flatMap fun m =>
        ((passageOf m.preface).toList ++
          (chunk (Frontmatter.parse m.file.text).2).filterMap published).map fun section' =>
            m.title ++ (units " — " ++ section') := by
  have hchunks : ∀ m : Manual, m.file.chunks =
      ((passageOf m.preface).toList ++
        (chunk (Frontmatter.parse m.file.text).2).filterMap published).map fun section' =>
          m.title ++ (units " — " ++ section') := by
    intro m
    have htext : m.file.text = m.markdown := rfl
    rw [File.chunks, htext, m.splitSections_markdown, m.extractTitle_markdown]
    rfl
  have hsorted : (manuals.map Manual.file).mergeSort nameOrder =
      (manuals.mergeSort fun a b => nameOrder a.file b.file).map Manual.file := by
    symm
    apply List.map_mergeSort
    exact fun _ _ _ _ => rfl
  rw [load, Option.elim_some, hsorted, List.flatMap_map]
  exact congrArg (List.flatMap · _) (funext hchunks)

def airflow : Manual where
  name := units "hvac-airflow.md"
  header := [units "document_id: hvac-002", units "title: Weak Airflow"]
  body := units "\n## Symptom\nReduced airflow.\n\n## Fix\nReplace the filter,\r\nclean the wheel."
  header_ne := List.cons_ne_nil _ _
  header_line := by decide +kernel
  titled := by
    intro line hline hheading
    cases hline
    cases hheading

example : load (some [airflow.file]) =
    [units "Weak Airflow — Symptom Reduced airflow.",
      units "Weak Airflow — Fix Replace the filter, clean the wheel."] := by
  decide +kernel

end ManualsCorpus

end NativeInterop
