import NativeInterop.TextLines
import NativeInterop.Unicode
import NativeInterop.Utf16
import Mathlib.Tactic

/-!
# The frontmatter reader of the index publisher

A document starts with a header between two `---` lines.  The closing one is looked for behind
the first four units, first with a line end behind it and then at the end of the document.
This file has the reader, what a header says by itself, and for which documents the two are
the same.
-/

namespace NativeInterop

open TextLines

namespace Frontmatter

abbrev Text := List UInt16

def units (text : String) : Text := Utf16.encode text.toList

def newline : UInt16 := 0x0A

def carriageReturn : UInt16 := 0x0D

def dash : UInt16 := 0x2D

def fence : Text := [dash, dash, dash]

structure DocFrontmatter where
  documentId : Text
  title : Text
  errorCodes : List Text
  toolsRequired : List Text
  deriving DecidableEq, Repr

def empty : DocFrontmatter := ⟨[], [], [], []⟩

/-! ## The fields -/

def isWhite (unit : UInt16) : Bool := Unicode.isWhiteSpaceCSharp unit.toNat

def trimStart (text : Text) : Text := text.dropWhile isWhite

def trim (text : Text) : Text := (trimStart text).rdropWhile isWhite

def unquote (s : Text) : Text :=
  if 2 ≤ s.length ∧
      ((s.head? = some 0x22 ∧ s.getLast? = some 0x22) ∨
        (s.head? = some 0x27 ∧ s.getLast? = some 0x27))
  then (s.drop 1).dropLast
  else s

/-- The items of a block list, up to the first line that is none. -/
def readBlock : List Text → List Text
  | [] => []
  | line :: following =>
      if units "- " <+: trimStart line then
        unquote (trim ((trimStart line).drop 2)) :: readBlock following
      else []

/-- `Split` with `RemoveEmptyEntries` and `TrimEntries`. -/
def entries (text : Text) : List Text := ((text.splitOn 0x2C).map trim).filter (· ≠ [])

def readList (inlineValue : Text) (following : List Text) : List Text :=
  if inlineValue.head? = some 0x5B ∧ inlineValue.getLast? = some 0x5D then
    (entries ((inlineValue.drop 1).dropLast)).map unquote
  else readBlock following

/-- Key and value of a header line that has them. -/
def entryOf (line : Text) : Option (Text × Text) :=
  match line with
  | [] => none
  | first :: _ =>
      if first = 0x20 ∨ first = dash then none
      else (line.idxOf? 0x3A).map fun colon =>
        (trim (line.take colon), trim (line.drop (colon + 1)))

/-- The switch over the key. -/
def readEntry (front : DocFrontmatter) (following : List Text) (entry : Text × Text) :
    DocFrontmatter :=
  if entry.1 = units "document_id" then { front with documentId := unquote entry.2 }
  else if entry.1 = units "title" then { front with title := unquote entry.2 }
  else if entry.1 = units "error_codes" then
    { front with errorCodes := readList entry.2 following }
  else if entry.1 = units "tools_required" then
    { front with toolsRequired := readList entry.2 following }
  else front

/-- The loop over the header lines. -/
def readHeader : List Text → DocFrontmatter → DocFrontmatter
  | [], front => front
  | line :: following, front =>
      readHeader following (((entryOf line).map (readEntry front following)).getD front)

/-! ## The reader -/

def replaceCrLf : Text → Text
  | [] => []
  | [unit] => [unit]
  | first :: second :: text =>
      if first = carriageReturn ∧ second = newline then newline :: replaceCrLf text
      else first :: replaceCrLf (second :: text)

def trimNewlines (text : Text) : Text := text.dropWhile (· = newline)

/-- Where the header ends and where the body starts. -/
def findEnd (text : Text) : Option (ℕ × ℕ) :=
  match indexFrom (newline :: (fence ++ [newline])) text 4 with
  | some stop => some (stop, stop + 5)
  | none =>
      match indexFrom (newline :: fence) text 4 with
      | some eof => if eof + 4 = text.length then some (eof, text.length) else none
      | none => none

def parse (markdown : Text) : DocFrontmatter × Text :=
  let text := trimNewlines (replaceCrLf markdown)
  if fence ++ [newline] <+: text then
    match findEnd text with
    | some (stop, bodyStart) =>
        (readHeader (((text.take stop).drop 4).splitOn newline) empty,
          if text.length ≤ bodyStart then [] else trimNewlines (text.drop bodyStart))
    | none => (empty, markdown)
  else (empty, markdown)

/-! ## What a header says -/

def HasKey (key line : Text) : Prop := ∃ value, entryOf line = some (key, value)

/-- The last line with the key has this value and these lines behind it. -/
def IsLast (key : Text) (lines : List Text) (value : Text) (following : List Text) : Prop :=
  ∃ before line, lines = before ++ line :: following ∧ entryOf line = some (key, value) ∧
    ∀ later ∈ following, ¬ HasKey key later

def IsText (key : Text) (lines : List Text) (text : Text) : Prop :=
  (∃ value following, IsLast key lines value following ∧ text = unquote value) ∨
    ((∀ line ∈ lines, ¬ HasKey key line) ∧ text = [])

def IsItem (line item : Text) : Prop :=
  ∃ text, trimStart line = units "- " ++ text ∧ item = unquote (trim text)

/-- The items stand in brackets behind the key, or each in a line of its own. -/
def IsListValue (value : Text) (following items : List Text) : Prop :=
  (∃ inner, value = 0x5B :: (inner ++ [0x5D]) ∧ items = (entries inner).map unquote) ∨
    ((∀ inner, value ≠ 0x5B :: (inner ++ [0x5D])) ∧ ∃ dashed rest, following = dashed ++ rest ∧
      List.Forall₂ IsItem dashed items ∧ ∀ line ∈ rest.head?, ¬ ∃ item, IsItem line item)

def IsList (key : Text) (lines : List Text) (items : List Text) : Prop :=
  (∃ value following, IsLast key lines value following ∧ IsListValue value following items) ∨
    ((∀ line ∈ lines, ¬ HasKey key line) ∧ items = [])

structure SaysHeader (lines : List Text) (front : DocFrontmatter) : Prop where
  documentId : IsText (units "document_id") lines front.documentId
  title : IsText (units "title") lines front.title
  errorCodes : IsList (units "error_codes") lines front.errorCodes
  toolsRequired : IsList (units "tools_required") lines front.toolsRequired

/-! ## Documents -/

/-- A header with its fences, and the body. -/
def document (lines : List Text) (body : Text) : Text :=
  fence ++ newline :: (unlines newline lines ++ (fence ++ newline :: body))

/-- The closing fence is the last line. -/
def documentToFence (lines : List Text) : Text :=
  fence ++ newline :: (unlines newline lines ++ fence)

/-- A line whose end was written as a pair of control characters. -/
def dropCr (line : Text) : Text :=
  if line.getLast? = some carriageReturn then line.dropLast else line

/-- The document is read as its header and its body. -/
def ReadAs (markdown : Text) (lines : List Text) (body : Text) : Prop :=
  ∃ front, parse markdown = (front, body) ∧ SaysHeader (lines.map dropCr) front

/-! ## The loop over the header -/

/-- The last entry of a key, with the lines behind it. -/
def lastEntry (key : Text) : List Text → Option (Text × List Text)
  | [] => none
  | line :: following =>
      (lastEntry key following).or
        ((entryOf line).bind fun entry =>
          if entry.1 = key then some (entry.2, following) else none)

theorem lastEntry_eq_none {key : Text} {lines : List Text} (hlast : lastEntry key lines = none) :
    ∀ line ∈ lines, ¬ HasKey key line := by
  induction lines with
  | nil => exact nofun
  | cons line following ih =>
      rw [lastEntry, Option.or_eq_none_iff] at hlast
      intro other hother
      rcases List.mem_cons.mp hother with rfl | hlater
      · rintro ⟨value, hvalue⟩
        simp [hvalue] at hlast
      · exact ih hlast.1 other hlater

theorem isLast_of_lastEntry {key value : Text} {lines following : List Text}
    (hlast : lastEntry key lines = some (value, following)) : IsLast key lines value following := by
  induction lines with
  | nil => cases hlast
  | cons line later ih =>
      rw [lastEntry, Option.or_eq_some_iff] at hlast
      rcases hlast with hlater | ⟨hnone, hhere⟩
      · obtain ⟨before, found, hlines, hentry, hbehind⟩ := ih hlater
        exact ⟨line :: before, found, by rw [hlines, List.cons_append], hentry, hbehind⟩
      · obtain ⟨entry, hentry, hvalue⟩ := Option.bind_eq_some_iff.mp hhere
        split_ifs at hvalue with hkey
        cases hvalue
        refine ⟨[], line, rfl, ?_, lastEntry_eq_none hnone⟩
        rw [hentry, ← hkey]

/-- A field that one key sets is set by the last entry with this key. -/
theorem get_readHeader {β : Type*} {key : Text} {get : DocFrontmatter → β}
    (value : Text → List Text → β)
    (hget : ∀ front following entry, get (readEntry front following entry) =
      if entry.1 = key then value entry.2 following else get front)
    (lines : List Text) (front : DocFrontmatter) :
    get (readHeader lines front) =
      ((lastEntry key lines).map fun entry => value entry.1 entry.2).getD (get front) := by
  induction lines generalizing front with
  | nil => rfl
  | cons line following ih =>
      rw [readHeader, ih, lastEntry]
      cases lastEntry key following with
      | some later => rfl
      | none =>
          simp only [Option.map_none, Option.getD_none, Option.none_or]
          cases entryOf line with
          | none => rfl
          | some entry =>
              rw [Option.map_some, Option.getD_some, hget, Option.bind_some]
              split_ifs <;> rfl

theorem documentId_readEntry (front : DocFrontmatter) (following : List Text)
    (entry : Text × Text) : (readEntry front following entry).documentId =
      if entry.1 = units "document_id" then unquote entry.2 else front.documentId := by
  unfold readEntry
  split_ifs <;> rfl

theorem title_readEntry (front : DocFrontmatter) (following : List Text)
    (entry : Text × Text) : (readEntry front following entry).title =
      if entry.1 = units "title" then unquote entry.2 else front.title := by
  unfold readEntry
  split_ifs with hid htitle
  · exact absurd (hid.symm.trans htitle) (by decide)
  all_goals rfl

theorem errorCodes_readEntry (front : DocFrontmatter) (following : List Text)
    (entry : Text × Text) : (readEntry front following entry).errorCodes =
      if entry.1 = units "error_codes" then readList entry.2 following
      else front.errorCodes := by
  unfold readEntry
  split_ifs with hid hcodes htitle hcodes
  · exact absurd (hid.symm.trans hcodes) (by decide)
  · rfl
  · exact absurd (htitle.symm.trans hcodes) (by decide)
  all_goals rfl

theorem toolsRequired_readEntry (front : DocFrontmatter) (following : List Text)
    (entry : Text × Text) : (readEntry front following entry).toolsRequired =
      if entry.1 = units "tools_required" then readList entry.2 following
      else front.toolsRequired := by
  unfold readEntry
  split_ifs with hid htools htitle htools hcodes htools
  · exact absurd (hid.symm.trans htools) (by decide)
  · rfl
  · exact absurd (htitle.symm.trans htools) (by decide)
  · rfl
  · exact absurd (hcodes.symm.trans htools) (by decide)
  all_goals rfl

/-- Brackets around an inner text are what both ends say. -/
theorem bracketed_iff {value : Text} :
    (value.head? = some 0x5B ∧ value.getLast? = some 0x5D) ↔
      ∃ inner, value = 0x5B :: (inner ++ [0x5D]) := by
  constructor
  · rintro ⟨hhead, hlast⟩
    cases value with
    | nil => cases hhead
    | cons first rest =>
        cases hhead
        induction rest using List.reverseRecOn with
        | nil => exact absurd (Option.some.inj hlast) (by decide)
        | append_singleton inner last _ =>
            rw [← List.cons_append, List.getLast?_concat, Option.some.injEq] at hlast
            exact ⟨inner, by rw [hlast]⟩
  · rintro ⟨inner, rfl⟩
    exact ⟨rfl, by rw [← List.cons_append, List.getLast?_concat]⟩

theorem isItem_iff {line item : Text} :
    IsItem line item ↔
      units "- " <+: trimStart line ∧ item = unquote (trim ((trimStart line).drop 2)) := by
  constructor
  · rintro ⟨text, htext, rfl⟩
    rw [htext]
    exact ⟨List.prefix_append _ text, rfl⟩
  · rintro ⟨⟨text, htext⟩, rfl⟩
    refine ⟨text, htext.symm, ?_⟩
    rw [← htext]
    rfl

theorem exists_readBlock (lines : List Text) :
    ∃ dashed rest, lines = dashed ++ rest ∧ List.Forall₂ IsItem dashed (readBlock lines) ∧
      ∀ line ∈ rest.head?, ¬ ∃ item, IsItem line item := by
  induction lines with
  | nil => exact ⟨[], [], rfl, .nil, nofun⟩
  | cons line lines ih =>
      rw [readBlock]
      split_ifs with hdash
      · obtain ⟨dashed, rest, rfl, hitems, hend⟩ := ih
        exact ⟨line :: dashed, rest, rfl, .cons (isItem_iff.mpr ⟨hdash, rfl⟩) hitems, hend⟩
      · refine ⟨[], line :: lines, rfl, .nil, ?_⟩
        intro first hfirst
        cases hfirst
        rintro ⟨item, hitem⟩
        exact hdash (isItem_iff.mp hitem).1

theorem isListValue_readList (value : Text) (following : List Text) :
    IsListValue value following (readList value following) := by
  rw [readList]
  split_ifs with hbrackets
  · obtain ⟨inner, rfl⟩ := bracketed_iff.mp hbrackets
    refine .inl ⟨inner, rfl, ?_⟩
    rw [List.drop_one, List.tail_cons, List.dropLast_concat]
  · rw [bracketed_iff, not_exists] at hbrackets
    exact .inr ⟨hbrackets, exists_readBlock following⟩

theorem isText_of_get {key text : Text} {lines : List Text}
    (htext : text = ((lastEntry key lines).map fun entry => unquote entry.1).getD []) :
    IsText key lines text := by
  cases hlast : lastEntry key lines with
  | none => exact .inr ⟨lastEntry_eq_none hlast, by rw [htext, hlast]; rfl⟩
  | some entry =>
      exact .inl ⟨entry.1, entry.2, isLast_of_lastEntry hlast, by rw [htext, hlast]; rfl⟩

theorem isList_of_get {key : Text} {lines items : List Text}
    (hitems : items = ((lastEntry key lines).map fun entry => readList entry.1 entry.2).getD []) :
    IsList key lines items := by
  cases hlast : lastEntry key lines with
  | none => exact .inr ⟨lastEntry_eq_none hlast, by rw [hitems, hlast]; rfl⟩
  | some entry =>
      refine .inl ⟨entry.1, entry.2, isLast_of_lastEntry hlast, ?_⟩
      rw [hitems, hlast]
      exact isListValue_readList entry.1 entry.2

theorem saysHeader_readHeader (lines : List Text) : SaysHeader lines (readHeader lines empty) where
  documentId := isText_of_get
    (get_readHeader (fun value _ => unquote value) documentId_readEntry lines empty)
  title := isText_of_get
    (get_readHeader (fun value _ => unquote value) title_readEntry lines empty)
  errorCodes := isList_of_get (get_readHeader readList errorCodes_readEntry lines empty)
  toolsRequired := isList_of_get (get_readHeader readList toolsRequired_readEntry lines empty)

/-! ## Line ends -/

theorem replaceCrLf_cons {first : UInt16} (hfirst : first ≠ carriageReturn) (text : Text) :
    replaceCrLf (first :: text) = first :: replaceCrLf text := by
  cases text with
  | nil => rfl
  | cons second text => rw [replaceCrLf, if_neg fun hboth => hfirst hboth.1]

theorem replaceCrLf_of_not_mem {text : Text} (htext : carriageReturn ∉ text) :
    replaceCrLf text = text := by
  induction text with
  | nil => rfl
  | cons first text ih =>
      rw [List.mem_cons, not_or] at htext
      rw [replaceCrLf_cons (Ne.symm htext.1), ih htext.2]

theorem dropCr_concat (line : Text) (last : UInt16) :
    dropCr (line ++ [last]) = if last = carriageReturn then line else line ++ [last] := by
  simp [dropCr]

theorem dropCr_cons_cons (first second : UInt16) (line : Text) :
    dropCr (first :: second :: line) = first :: dropCr (second :: line) := by
  rw [dropCr, dropCr, List.getLast?_cons_cons]
  split_ifs <;> rfl

/-- A line end takes one carriage return of its line with it. -/
theorem replaceCrLf_line {line : Text} (hline : newline ∉ line) (rest : Text) :
    replaceCrLf (line ++ newline :: rest) = dropCr line ++ newline :: replaceCrLf rest := by
  induction line with
  | nil => exact replaceCrLf_cons (by decide) rest
  | cons first line ih =>
      rw [List.mem_cons, not_or] at hline
      have hbehind := ih hline.2
      cases line with
      | nil =>
          rw [List.singleton_append, replaceCrLf]
          by_cases hfirst : first = carriageReturn
          · simp [dropCr, hfirst]
          · rw [if_neg fun hboth => hfirst hboth.1, replaceCrLf_cons (by decide)]
            simp [dropCr, hfirst]
      | cons second line =>
          have hsecond : second ≠ newline := by
            rintro rfl
            simp at hline
          rw [dropCr_cons_cons, List.cons_append, List.cons_append, replaceCrLf,
            if_neg fun hboth => hsecond hboth.2]
          rw [List.cons_append] at hbehind
          rw [hbehind, List.cons_append]

theorem replaceCrLf_unlines {lines : List Text} (hlines : ∀ line ∈ lines, newline ∉ line)
    (rest : Text) :
    replaceCrLf (unlines newline lines ++ rest) =
      unlines newline (lines.map dropCr) ++ replaceCrLf rest := by
  induction lines with
  | nil => rfl
  | cons line lines ih =>
      have hrest := ih fun other hother => hlines other (List.mem_cons_of_mem line hother)
      rw [unlines_cons, List.append_assoc, List.cons_append,
        replaceCrLf_line (hlines line List.mem_cons_self), hrest, List.map_cons, unlines_cons,
        List.append_assoc, List.cons_append]

theorem replaceCrLf_fence_append (rest : Text) :
    replaceCrLf (fence ++ rest) = fence ++ replaceCrLf rest := by
  have hdash : dash ≠ carriageReturn := by decide
  simp [fence, replaceCrLf_cons hdash]

theorem replaceCrLf_newline_cons (rest : Text) :
    replaceCrLf (newline :: rest) = newline :: replaceCrLf rest :=
  replaceCrLf_cons (by decide) rest

theorem not_mem_dropCr {line : Text} (hline : newline ∉ line) : newline ∉ dropCr line := by
  rw [dropCr]
  split_ifs
  · exact fun hmem => hline (List.dropLast_subset line hmem)
  · exact hline

theorem dropCr_eq_fence_iff {line : Text} (hline : line ≠ fence) :
    dropCr line = fence ↔ line = fence ++ [carriageReturn] := by
  induction line using List.reverseRecOn with
  | nil => exact iff_of_false (by decide) (by decide)
  | append_singleton line last _ =>
      rw [dropCr_concat]
      split_ifs with hlast
      · rw [hlast, List.append_left_inj]
      · refine iff_of_false hline fun hsame => hlast ?_
        have hlasts := congrArg List.getLast? hsame
        rwa [List.getLast?_concat, List.getLast?_concat, Option.some.injEq] at hlasts

theorem fence_prefix_dropCr_iff {line : Text} : fence <+: dropCr line ↔ fence <+: line := by
  induction line using List.reverseRecOn with
  | nil => exact iff_of_eq rfl
  | append_singleton line last _ =>
      rw [dropCr_concat]
      split_ifs with hlast
      · rw [hlast, List.prefix_concat_iff]
        constructor
        · exact .inr
        · rintro (hwhole | hbegins)
          · have hlasts := congrArg List.getLast? hwhole
            rw [List.getLast?_concat] at hlasts
            exact absurd hlasts (by decide)
          · exact hbegins
      · rfl

/-! ## Behind the opening fence -/

def closed (markdown rest : Text) : DocFrontmatter × Text :=
  match indexOf (newline :: (fence ++ [newline])) rest with
  | some n => (readHeader ((rest.take n).splitOn newline) empty, trimNewlines (rest.drop (n + 5)))
  | none =>
      match indexOf (newline :: fence) rest with
      | some n =>
          if n + 4 = rest.length then (readHeader ((rest.take n).splitOn newline) empty, [])
          else (empty, markdown)
      | none => (empty, markdown)

theorem parse_of_opened {markdown rest : Text}
    (hopened : replaceCrLf markdown = fence ++ newline :: rest) :
    parse markdown = closed markdown rest := by
  have htrim : trimNewlines (fence ++ newline :: rest) = fence ++ newline :: rest := rfl
  have hfence : fence ++ [newline] <+: fence ++ newline :: rest := by
    rw [List.prefix_append_right_inj, List.cons_prefix_cons]
    exact ⟨rfl, List.nil_prefix⟩
  have hfour : (fence ++ newline :: rest).drop 4 = rest := rfl
  have hheader : ∀ n, ((fence ++ newline :: rest).take (n + 4)).drop 4 = rest.take n := by
    intro n
    rw [List.drop_take, hfour]
    congr 1
  have hlength : (fence ++ newline :: rest).length = rest.length + 4 := by
    simp [fence]
  rw [parse, hopened, htrim, if_pos hfence, findEnd, closed, indexFrom, indexFrom, hfour]
  cases indexOf (newline :: (fence ++ [newline])) rest with
  | some n =>
      have hbody : (fence ++ newline :: rest).drop (n + 4 + 5) = rest.drop (n + 5) := by
        rw [Nat.add_assoc, Nat.add_comm 4 5, ← Nat.add_assoc, ← List.drop_drop, List.drop_drop,
          Nat.add_comm (n + 5) 4, ← List.drop_drop, hfour]
      simp only [Option.map_some, hheader, hbody]
      split_ifs with hend
      · rw [hlength] at hend
        rw [List.drop_eq_nil_of_le (by omega)]
        rfl
      · rfl
  | none =>
      cases indexOf (newline :: fence) rest with
      | some n =>
          simp only [Option.map_none, Option.map_some, hlength]
          by_cases hend : n + 4 = rest.length
          · rw [if_pos (by omega), if_pos hend]
            simp [hheader]
          · rw [if_neg (by omega), if_neg hend]
      | none => rfl

/-- The header ends at the first line behind its first one that is a fence. -/
theorem parse_of_fence {markdown first body : Text} {others : List Text}
    (hnewline : ∀ line ∈ first :: others, newline ∉ line) (hothers : fence ∉ others)
    (hopened : replaceCrLf markdown = fence ++ newline ::
      (unlines newline (first :: others) ++ (fence ++ newline :: body))) :
    parse markdown = (readHeader (first :: others) empty, trimNewlines body) := by
  have hbegins : ∀ line ∈ others, ¬ Begins newline (fence ++ [newline]) line := by
    intro line hline hbegins
    have hnot := hnewline line (List.mem_cons_of_mem first hline)
    rw [begins_append_newline_iff (by decide) hnot] at hbegins
    exact hothers (hbegins ▸ hline)
  have hfence : fence ++ [newline] <+: fence ++ newline :: body := ⟨body, by simp⟩
  have hpos : 0 < (unlines newline (first :: others)).length := by simp [unlines_cons]
  have hbody : (unlines newline (first :: others) ++ (fence ++ newline :: body)).drop
      ((unlines newline (first :: others)).length - 1 + 5) = body := by
    have hlength : (unlines newline (first :: others)).length - 1 + 5 =
        (unlines newline (first :: others)).length + 4 := by omega
    rw [hlength, ← List.drop_drop, List.drop_left]
    rfl
  rw [parse_of_opened hopened, closed, indexOf_unlines hnewline hbegins, if_pos hfence]
  simp only [hbody, splitOn_take_unlines (List.cons_ne_nil first others) hnewline]

theorem indexOf_fence_newline {first : Text} {others : List Text}
    (hnewline : ∀ line ∈ first :: others, newline ∉ line) (hothers : fence ∉ others) :
    indexOf (newline :: (fence ++ [newline])) (unlines newline (first :: others) ++ fence) =
      none := by
  have hbegins : ∀ line ∈ others, ¬ Begins newline (fence ++ [newline]) line := by
    intro line hline hbegins
    have hnot := hnewline line (List.mem_cons_of_mem first hline)
    rw [begins_append_newline_iff (by decide) hnot] at hbegins
    exact hothers (hbegins ▸ hline)
  have hnone : indexOf (newline :: (fence ++ [newline])) fence = none := indexOf_line (by decide)
  rw [indexOf_unlines hnewline hbegins, if_neg (by decide), hnone, Option.map_none]

/-- At the end of the document the closing fence is seen where no other line begins with it. -/
theorem parse_to_fence {markdown first : Text} {others : List Text}
    (hnewline : ∀ line ∈ first :: others, newline ∉ line)
    (hothers : ∀ line ∈ others, ¬ fence <+: line)
    (hopened : replaceCrLf markdown = fence ++ newline ::
      (unlines newline (first :: others) ++ fence)) :
    parse markdown = (readHeader (first :: others) empty, []) := by
  have hfence : fence ∉ others := fun hmem => hothers fence hmem List.prefix_rfl
  have hbegins : ∀ line ∈ others, ¬ Begins newline fence line := by
    intro line hline hbegins
    exact hothers line hline ((begins_iff (by decide)).mp hbegins)
  have hpos : 0 < (unlines newline (first :: others)).length := by simp [unlines_cons]
  have hend : (unlines newline (first :: others)).length - 1 + 4 =
      (unlines newline (first :: others) ++ fence).length := by
    rw [List.length_append, fence, List.length_cons, List.length_cons, List.length_singleton]
    omega
  rw [parse_of_opened hopened, closed, indexOf_fence_newline hnewline hfence]
  simp only [indexOf_unlines hnewline hbegins, if_pos List.prefix_rfl, if_pos hend,
    splitOn_take_unlines (List.cons_ne_nil first others) hnewline]

theorem mem_front {line first : Text} {before after : List Text} (hline : line ∈ first :: before) :
    line ∈ first :: (before ++ after) := by
  rw [← List.cons_append]
  exact List.mem_append_left after hline

/-- A line that begins with the fence hides the closing one behind it. -/
theorem parse_hidden {markdown first hides : Text} {before after : List Text}
    (hnewline : ∀ line ∈ first :: (before ++ hides :: after), newline ∉ line)
    (hfence : fence ∉ before ++ hides :: after) (hbefore : ∀ line ∈ before, ¬ fence <+: line)
    (hhides : fence <+: hides)
    (hopened : replaceCrLf markdown = fence ++ newline ::
      (unlines newline (first :: (before ++ hides :: after)) ++ fence)) :
    parse markdown = (empty, markdown) := by
  have hfront : ∀ line ∈ first :: before, newline ∉ line :=
    fun line hline => hnewline line (mem_front hline)
  have hbegins : ∀ line ∈ before, ¬ Begins newline fence line := by
    intro line hline hbegins
    exact hbefore line hline ((begins_iff (by decide)).mp hbegins)
  have hsplit : unlines newline (first :: (before ++ hides :: after)) ++ fence =
      unlines newline (first :: before) ++
        (hides ++ newline :: (unlines newline after ++ fence)) := by
    rw [unlines_cons_append, List.append_assoc, List.append_assoc, List.cons_append]
  have hopens : fence <+: hides ++ newline :: (unlines newline after ++ fence) :=
    hhides.trans (List.prefix_append hides _)
  have hthree := hhides.length_le
  have hpos : 0 < (unlines newline (first :: before)).length := by simp [unlines_cons]
  have hend : ¬ (unlines newline (first :: before)).length - 1 + 4 =
      (unlines newline (first :: before) ++
        (hides ++ newline :: (unlines newline after ++ fence))).length := by
    simp only [List.length_append, List.length_cons, fence, List.length_nil] at hthree ⊢
    omega
  rw [parse_of_opened hopened, closed, indexOf_fence_newline hnewline hfence]
  simp only [hsplit, indexOf_unlines hfront hbegins, if_pos hopens, if_neg hend]

/-! ## Which documents are read as they are laid out -/

theorem replaceCrLf_document {lines : List Text} (hlines : ∀ line ∈ lines, newline ∉ line)
    {body : Text} (hbody : carriageReturn ∉ body) :
    replaceCrLf (document lines body) = fence ++ newline ::
      (unlines newline (lines.map dropCr) ++ (fence ++ newline :: body)) := by
  rw [document, replaceCrLf_fence_append, replaceCrLf_newline_cons, replaceCrLf_unlines hlines,
    replaceCrLf_fence_append, replaceCrLf_newline_cons, replaceCrLf_of_not_mem hbody]

theorem replaceCrLf_documentToFence {lines : List Text}
    (hlines : ∀ line ∈ lines, newline ∉ line) :
    replaceCrLf (documentToFence lines) =
      fence ++ newline :: (unlines newline (lines.map dropCr) ++ fence) := by
  rw [documentToFence, replaceCrLf_fence_append, replaceCrLf_newline_cons,
    replaceCrLf_unlines hlines]
  rfl

theorem count_trimNewlines (text : Text) :
    (trimNewlines text).count dash = text.count dash := by
  induction text with
  | nil => rfl
  | cons first text ih =>
      rw [trimNewlines, List.dropWhile_cons]
      split_ifs with hfirst
      · have hne : first ≠ dash := by
          rintro rfl
          exact absurd hfirst (by decide)
        rw [List.count_cons_of_ne hne]
        exact ih
      · rfl

theorem count_fence : fence.count dash = 3 := by decide

theorem count_fence_newline (text : Text) :
    (fence ++ newline :: text).count dash = 3 + text.count dash := by
  rw [List.count_append, count_fence, List.count_cons_of_ne (by decide)]

/-- A reading with another number of dashes in its body is another reading. -/
theorem not_readAs_of_count {markdown other body : Text} {lines : List Text}
    {front : DocFrontmatter} (hparse : parse markdown = (front, other))
    (hcount : other.count dash ≠ body.count dash) : ¬ ReadAs markdown lines body := by
  rintro ⟨another, hread, -⟩
  rw [hparse, Prod.mk.injEq] at hread
  rw [hread.2] at hcount
  exact hcount rfl

theorem count_document (lines : List Text) (body : Text) :
    body.count dash < (document lines body).count dash := by
  rw [document, count_fence_newline, List.count_append, count_fence_newline]
  omega

theorem count_documentToFence (lines : List Text) : 0 < (documentToFence lines).count dash := by
  rw [documentToFence, count_fence_newline]
  omega

/-- Behind a fence at the start, what is found has the three dashes of the fence in front. -/
theorem count_of_indexOf {pattern text rest : Text} {n : ℕ} (hnewline : newline ∉ text)
    (hindex : indexOf (newline :: pattern) (text ++ rest) = some n) :
    ∃ behind, (text ++ rest).drop (n + pattern.length + 1) = behind ∧
      text.count dash + pattern.count dash + behind.count dash ≤ (text ++ rest).count dash := by
  rw [indexOf_line_append hnewline] at hindex
  obtain ⟨m, hm, rfl⟩ := Option.map_eq_some_iff.mp hindex
  obtain ⟨behind, hrest⟩ := exists_of_indexOf hm
  refine ⟨behind, ?_, ?_⟩
  · have hlength : (rest.take m).length = m := by
      have hfull := congrArg List.length hrest
      simp only [List.length_append, List.length_take, List.length_cons] at hfull ⊢
      omega
    have hsum : m + text.length + pattern.length + 1 =
        text.length + ((rest.take m).length + (newline :: pattern).length) := by
      rw [hlength, List.length_cons]
      omega
    rw [hsum, ← List.drop_drop, List.drop_left, ← List.drop_drop]
    conv_lhs => rw [hrest, List.drop_drop]
    rw [List.take_append_of_le_length (by omega), List.take_of_length_le (by omega),
      ← List.drop_drop, List.drop_left, List.drop_left]
  · rw [hrest, List.count_append, List.count_append, List.count_append,
      List.count_cons_of_ne (by decide)]
    omega

/-- Without a header line the closing fence is in front of where the search starts. -/
theorem not_readAs_of_no_lines {markdown rest body : Text}
    (hopened : replaceCrLf markdown = fence ++ newline :: (fence ++ rest))
    (hrest : rest.count dash = body.count dash) (hmore : body.count dash < markdown.count dash)
    (lines : List Text) : ¬ ReadAs markdown lines body := by
  have hparse := parse_of_opened hopened
  have hsum : (fence ++ rest).count dash = 3 + body.count dash := by
    rw [List.count_append, count_fence, hrest]
  rw [closed] at hparse
  cases hfound : indexOf (newline :: (fence ++ [newline])) (fence ++ rest) with
  | some n =>
      obtain ⟨behind, hbehind, hcount⟩ := count_of_indexOf (by decide) hfound
      rw [hfound] at hparse
      refine not_readAs_of_count hparse ?_
      have hpattern : (fence ++ [newline]).count dash = 3 := by decide
      have hsame : (fence ++ rest).drop (n + 5) = behind := hbehind
      rw [count_trimNewlines, hsame]
      rw [hsum, count_fence, hpattern] at hcount
      omega
  | none =>
      rw [hfound] at hparse
      cases hend : indexOf (newline :: fence) (fence ++ rest) with
      | none =>
          rw [hend] at hparse
          exact not_readAs_of_count hparse (by omega)
      | some n =>
          obtain ⟨behind, -, hcount⟩ := count_of_indexOf (by decide) hend
          rw [hend] at hparse
          simp only at hparse
          split_ifs at hparse with hlast
          · refine not_readAs_of_count hparse ?_
            rw [hsum, count_fence] at hcount
            rw [List.count_nil]
            omega
          · exact not_readAs_of_count hparse (by omega)

theorem not_mem_map_dropCr {lines : List Text} (hlines : ∀ line ∈ lines, newline ∉ line) :
    ∀ line ∈ lines.map dropCr, newline ∉ line := by
  intro line hline
  obtain ⟨whole, hwhole, rfl⟩ := List.mem_map.mp hline
  exact not_mem_dropCr (hlines whole hwhole)

theorem fence_mem_map_dropCr {lines : List Text} (hlines : ∀ line ∈ lines, line ≠ fence) :
    fence ∈ lines.map dropCr ↔ fence ++ [carriageReturn] ∈ lines := by
  rw [List.mem_map]
  constructor
  · rintro ⟨line, hline, hfence⟩
    rwa [← (dropCr_eq_fence_iff (hlines line hline)).mp hfence]
  · intro hmem
    exact ⟨_, hmem, by decide⟩

/-- A fence among the lines behind the first one ends the header there. -/
theorem parse_early {markdown first ending : Text} {others : List Text}
    (hnewline : ∀ line ∈ first :: others, newline ∉ line) (hfence : fence ∈ others)
    (hopened : replaceCrLf markdown =
      fence ++ newline :: (unlines newline (first :: others) ++ ending)) :
    ∃ front after, parse markdown = (front, trimNewlines (unlines newline after ++ ending)) := by
  obtain ⟨before, after, rfl, hbefore⟩ := List.eq_append_cons_of_mem hfence
  have hlater : replaceCrLf markdown = fence ++ newline ::
      (unlines newline (first :: before) ++ (fence ++ newline ::
        (unlines newline after ++ ending))) := by
    rw [hopened, unlines_cons_append]
    simp only [List.append_assoc, List.cons_append]
  exact ⟨_, after, parse_of_fence (fun line hline => hnewline line (mem_front hline)) hbefore
    hlater⟩

/-- The lines of a header without the fence among those behind the first one. -/
theorem readAs_document_iff {lines : List Text} {body : Text}
    (hlines : ∀ line ∈ lines, newline ∉ line ∧ line ≠ fence) (hbody : carriageReturn ∉ body) :
    ReadAs (document lines body) lines (trimNewlines body) ↔
      lines ≠ [] ∧ fence ++ [carriageReturn] ∉ lines.tail := by
  have hnewline := fun line hline => (hlines line hline).1
  have hopened := replaceCrLf_document hnewline hbody
  cases lines with
  | nil =>
      refine iff_of_false ?_ fun hcond => hcond.1 rfl
      refine not_readAs_of_no_lines hopened ?_ ?_ []
      · rw [count_trimNewlines, List.count_cons_of_ne (by decide)]
      · rw [count_trimNewlines]
        exact count_document [] body
  | cons first others =>
      have hmapped := not_mem_map_dropCr hnewline
      have hmem := fence_mem_map_dropCr fun line hline =>
        (hlines line (List.mem_cons_of_mem first hline)).2
      rw [List.map_cons] at hopened hmapped
      rw [List.tail_cons, ← hmem]
      by_cases hfence : fence ∈ others.map dropCr
      · refine iff_of_false ?_ fun hcond => hcond.2 hfence
        obtain ⟨front, after, hparse⟩ := parse_early hmapped hfence hopened
        refine not_readAs_of_count hparse ?_
        rw [count_trimNewlines, count_trimNewlines, List.count_append, count_fence_newline]
        omega
      · refine iff_of_true ?_ ⟨List.cons_ne_nil first others, hfence⟩
        exact ⟨_, parse_of_fence hmapped hfence hopened,
          saysHeader_readHeader (dropCr first :: others.map dropCr)⟩

theorem readAs_documentToFence_iff {lines : List Text}
    (hlines : ∀ line ∈ lines, newline ∉ line ∧ line ≠ fence) :
    ReadAs (documentToFence lines) lines [] ↔
      lines ≠ [] ∧ ∀ line ∈ lines.tail, ¬ fence <+: line := by
  have hnewline := fun line hline => (hlines line hline).1
  have hopened := replaceCrLf_documentToFence hnewline
  cases lines with
  | nil =>
      refine iff_of_false ?_ fun hcond => hcond.1 rfl
      refine @not_readAs_of_no_lines _ [] _ hopened rfl ?_ []
      exact count_documentToFence []
  | cons first others =>
      have hmapped := not_mem_map_dropCr hnewline
      rw [List.map_cons] at hopened hmapped
      rw [List.tail_cons]
      cases hfind : (others.map dropCr).find? fun line => fence <+: line with
      | none =>
          have hnone : ∀ line ∈ others.map dropCr, ¬ fence <+: line := by
            simpa using hfind
          refine iff_of_true ?_ ⟨List.cons_ne_nil first others, ?_⟩
          · exact ⟨_, parse_to_fence hmapped hnone hopened,
              saysHeader_readHeader (dropCr first :: others.map dropCr)⟩
          · intro line hline hbegins
            exact hnone _ (List.mem_map_of_mem hline) (fence_prefix_dropCr_iff.mpr hbegins)
      | some hides =>
          obtain ⟨hhides, before, after, hsplit, hbefore⟩ :=
            List.find?_eq_some_iff_append.mp hfind
          refine iff_of_false ?_ ?_
          · by_cases hfence : fence ∈ others.map dropCr
            · obtain ⟨front, behind, hparse⟩ := parse_early hmapped hfence hopened
              refine not_readAs_of_count hparse ?_
              rw [count_trimNewlines, List.count_append, count_fence, List.count_nil]
              omega
            · rw [hsplit] at hopened hmapped hfence
              have hparse := parse_hidden hmapped hfence
                (fun line hline => by simpa using hbefore line hline)
                (of_decide_eq_true hhides) hopened
              refine not_readAs_of_count hparse ?_
              have hcount := count_documentToFence (first :: others)
              rw [List.count_nil]
              omega
          · rintro ⟨-, hnone⟩
            have hmem : hides ∈ others.map dropCr := by
              rw [hsplit]
              simp
            obtain ⟨line, hline, rfl⟩ := List.mem_map.mp hmem
            exact hnone line hline (fence_prefix_dropCr_iff.mp (of_decide_eq_true hhides))

/-- With the closing fence in front of a body, and with the fence as the last line. -/
theorem layouts_read_iff (lines : List Text) (body : Text)
    (hlines : ∀ line ∈ lines, newline ∉ line ∧ line ≠ fence) (hbody : carriageReturn ∉ body) :
    (ReadAs (document lines body) lines (trimNewlines body) ↔
      lines ≠ [] ∧ fence ++ [carriageReturn] ∉ lines.tail) ∧
    (ReadAs (documentToFence lines) lines [] ↔
      lines ≠ [] ∧ ∀ line ∈ lines.tail, ¬ fence <+: line) :=
  ⟨readAs_document_iff hlines hbody, readAs_documentToFence_iff hlines⟩

theorem layouts_read_title :
    (ReadAs (document [units "title: Pump"] (units "Text")) [units "title: Pump"]
        (trimNewlines (units "Text")) ↔
      [units "title: Pump"] ≠ [] ∧ fence ++ [carriageReturn] ∉ [units "title: Pump"].tail) ∧
    (ReadAs (documentToFence [units "title: Pump"]) [units "title: Pump"] [] ↔
      [units "title: Pump"] ≠ [] ∧ ∀ line ∈ [units "title: Pump"].tail, ¬ fence <+: line) :=
  layouts_read_iff [units "title: Pump"] (units "Text") (by decide) (by decide)

/-- No header line, and one that begins with the fence: both documents come back whole. -/
theorem layouts_not_read :
    parse (document [] (units "Text")) = (empty, units "---\n---\nText") ∧
    parse (documentToFence [units "title: Pump", units "----"]) =
      (empty, units "---\ntitle: Pump\n----\n---") ∧
    ¬ ∀ lines body, (∀ line ∈ lines, newline ∉ line ∧ line ≠ fence) → carriageReturn ∉ body →
      ReadAs (document lines body) lines (trimNewlines body) ∧
        ReadAs (documentToFence lines) lines [] := by
  have hempty : parse (document [] (units "Text")) = (empty, units "---\n---\nText") := by
    decide +kernel
  have hdashes : parse (documentToFence [units "title: Pump", units "----"]) =
      (empty, units "---\ntitle: Pump\n----\n---") := by
    decide +kernel
  refine ⟨hempty, hdashes, fun hall => ?_⟩
  obtain ⟨⟨front, hread, -⟩, -⟩ := hall [] (units "Text") nofun (by decide)
  rw [hempty, Prod.mk.injEq] at hread
  exact absurd hread.2 (by decide)

end Frontmatter

end NativeInterop
