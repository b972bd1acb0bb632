import NativeInterop.AgentStatus
import NativeInterop.JsonTree
import NativeInterop.LittleEndian
import NativeInterop.MarkdownChunker
import Mathlib.Tactic

/-!
# The index of the edge search

The publisher turns each document into rows, one for a section, and writes them into a table
whose key is the chunk id; the two apps read the table back.  The encoder that makes the
embeddings is a parameter, and an embedding is the list of the bits of its 32-bit floats.
-/

namespace NativeInterop

namespace EdgeIndex

open Frontmatter (Text units newline carriageReturn)
open MarkdownChunker (DocChunk chunk)
open Agent (jsonEscape jsonEscape_escaping upperHex)

/-! ## The publisher -/

structure IndexRow where
  chunkId : Text
  documentId : Text
  sectionTitle : Text
  contentText : Text
  embedding : List UInt32
  errorCodes : List Text
  toolsRequired : List Text
  deriving DecidableEq, Repr

def decimal (n : ℕ) : Text := Utf16.encode (Nat.toDigits 10 n)

def chunkId (documentId : Text) (i : ℕ) : Text := documentId ++ units "#" ++ decimal i

def rowOf (encode : Text → List UInt32) (front : Frontmatter.DocFrontmatter) (i : ℕ)
    (c : DocChunk) : IndexRow where
  chunkId := chunkId front.documentId i
  documentId := front.documentId
  sectionTitle := c.sectionTitle
  contentText := c.body
  embedding := encode (c.sectionTitle ++ units ". " ++ c.body)
  errorCodes := front.errorCodes
  toolsRequired := front.toolsRequired

/-- The rows of one document. -/
def rowsOf (encode : Text → List UInt32) (markdown : Text) : List IndexRow :=
  (chunk (Frontmatter.parse markdown).2).mapIdx (rowOf encode (Frontmatter.parse markdown).1)

/-- The rows of the documents in the order of their paths. -/
def rows (encode : Text → List UInt32) (documents : List Text) : List IndexRow :=
  documents.flatMap (rowsOf encode)

/-! ## The table -/

structure ChunkRecord where
  chunkId : String
  documentId : String
  sectionTitle : String
  contentText : String
  embedding : Bytes
  metadata : String
  deriving DecidableEq, Repr

/-- A text in its column: UTF-8, where a lone surrogate cannot stand. -/
def stored (text : Text) : String := .ofList (Utf16.decodeReplacing text)

def blob (embedding : List UInt32) : Bytes := embedding.flatMap fun f => littleEndian 4 f.toNat

def stringArray (texts : List Text) : List Char :=
  Json.writeArray (texts.map fun text => Json.quote jsonEscape (stored text))

def metadata (row : IndexRow) : List Char :=
  Json.writeRecord jsonEscape
    [("error_codes", stringArray row.errorCodes),
      ("tools_required", stringArray row.toolsRequired)]

def record (row : IndexRow) : ChunkRecord where
  chunkId := stored row.chunkId
  documentId := stored row.documentId
  sectionTitle := stored row.sectionTitle
  contentText := stored row.contentText
  embedding := blob row.embedding
  metadata := .ofList (metadata row)

/-- The inserts one after the other; the key of a row must not be there yet. -/
def insertAll : List IndexRow → List ChunkRecord → Option (List ChunkRecord)
  | [], table => some table
  | row :: rows, table =>
      if stored row.chunkId ∈ table.map ChunkRecord.chunkId then none
      else insertAll rows (table ++ [record row])

structure Written where
  committed : Bool
  table : List ChunkRecord

/-- `Write`: the file is made anew, and an insert that throws rolls the transaction back. -/
def write (rows : List IndexRow) : Written :=
  match insertAll rows [] with
  | some table => ⟨true, table⟩
  | none => ⟨false, []⟩

/-! ## The readers -/

structure EdgeChunk where
  chunkId : String
  documentId : String
  sectionTitle : String
  contentText : String
  errorCodes : List String
  toolsRequired : List String
  embedding : List UInt32
  deriving DecidableEq, Repr

/-- The whole words of a blob. -/
def readFloats : Bytes → List UInt32
  | b0 :: b1 :: b2 :: b3 :: rest =>
      .ofNat (ofLittleEndian [b0, b1, b2, b3]) :: readFloats rest
  | _ => []

def asStrings : Json → Option (List String)
  | .array items => items.mapM Json.asString
  | _ => none

/-- A list of `EdgeMetadata`, empty where its key is missing. -/
def listKotlin (key : String) (json : Json) : Option (List String) :=
  match json.field key with
  | some value => asStrings value
  | none => some []

def readMetadataKotlin (text : String) : Option (List String × List String) :=
  match Json.parse text.toList with
  | some (.object members) => do
      let errorCodes ← listKotlin "error_codes" (.object members)
      let toolsRequired ← listKotlin "tools_required" (.object members)
      some (errorCodes, toolsRequired)
  | _ => none

def readRecordKotlin (r : ChunkRecord) : Option EdgeChunk :=
  (readMetadataKotlin r.metadata).map fun lists =>
    { chunkId := r.chunkId, documentId := r.documentId, sectionTitle := r.sectionTitle,
      contentText := r.contentText, errorCodes := lists.1, toolsRequired := lists.2,
      embedding := readFloats r.embedding }

/-- `EdgeIndex.load`, or nothing where it throws. -/
def loadKotlin (table : List ChunkRecord) : Option (List EdgeChunk) :=
  table.mapM readRecordKotlin

/-- An optional list of `Raw`. -/
def listSwift (key : String) (json : Json) : Option (List String) :=
  match json.field key with
  | some .null => some []
  | some value => asStrings value
  | none => some []

def readMetadataSwift (text : String) : List String × List String :=
  match Json.parse text.toList with
  | some (.object members) =>
      (do
        let errorCodes ← listSwift "error_codes" (.object members)
        let toolsRequired ← listSwift "tools_required" (.object members)
        some (errorCodes, toolsRequired)).getD ([], [])
  | _ => ([], [])

/-- `String(cString:)`. -/
def cString (text : String) : String := .ofList (text.toList.takeWhile (· ≠ '\x00'))

def dimensions : ℕ := 384

def readEmbeddingSwift (blob : Bytes) : List UInt32 :=
  if blob.length = dimensions * 4 then readFloats blob else List.replicate dimensions 0

def readRecordSwift (r : ChunkRecord) : EdgeChunk where
  chunkId := cString r.chunkId
  documentId := cString r.documentId
  sectionTitle := cString r.sectionTitle
  contentText := cString r.contentText
  errorCodes := (readMetadataSwift (cString r.metadata)).1
  toolsRequired := (readMetadataSwift (cString r.metadata)).2
  embedding := readEmbeddingSwift r.embedding

def loadIndex (table : List ChunkRecord) : List EdgeChunk := table.map readRecordSwift

/-! ## What a row says -/

def chunkOf (row : IndexRow) : EdgeChunk where
  chunkId := stored row.chunkId
  documentId := stored row.documentId
  sectionTitle := stored row.sectionTitle
  contentText := stored row.contentText
  errorCodes := row.errorCodes.map stored
  toolsRequired := row.toolsRequired.map stored
  embedding := row.embedding

/-! ## One record -/

theorem readFloats_blob (embedding : List UInt32) : readFloats (blob embedding) = embedding := by
  induction embedding with
  | nil => rfl
  | cons f embedding ih =>
      have hword : UInt32.ofNat (ofLittleEndian (littleEndian 4 f.toNat)) = f := by
        rw [ofLittleEndian_littleEndian_of_lt f.toNat_lt, UInt32.ofNat_toNat]
      rw [blob, List.flatMap_cons]
      exact congrArg₂ List.cons hword ih

theorem length_blob (embedding : List UInt32) : (blob embedding).length = embedding.length * 4 := by
  induction embedding with
  | nil => rfl
  | cons f embedding ih =>
      rw [blob, List.flatMap_cons, List.length_append, ← blob, ih, littleEndian_length,
        List.length_cons]
      omega

theorem writes_stringArray (texts : List Text) :
    Json.Writes (stringArray texts) (.array (texts.map fun text => .string (stored text))) := by
  apply Json.writes_array
  induction texts with
  | nil => exact .nil
  | cons text texts ih => exact .cons (Json.writes_quote jsonEscape_escaping _) ih

theorem asStrings_array (texts : List Text) :
    asStrings (.array (texts.map fun text => .string (stored text))) =
      some (texts.map stored) := by
  rw [asStrings]
  induction texts with
  | nil => rfl
  | cons text texts ih => simp only [List.map_cons, List.mapM_cons, ih]; rfl

def metadataJson (row : IndexRow) : List (String × Json) :=
  [("error_codes", .array (row.errorCodes.map fun text => .string (stored text))),
    ("tools_required", .array (row.toolsRequired.map fun text => .string (stored text)))]

theorem parse_metadata (row : IndexRow) :
    Json.parse (metadata row) = some (.object (metadataJson row)) := by
  apply Json.Writes.parse
  apply Json.writes_record jsonEscape_escaping
  exact .cons ⟨rfl, writes_stringArray row.errorCodes⟩
    (.cons ⟨rfl, writes_stringArray row.toolsRequired⟩ .nil)

theorem readMetadataKotlin_metadata (row : IndexRow) :
    readMetadataKotlin (.ofList (metadata row)) =
      some (row.errorCodes.map stored, row.toolsRequired.map stored) := by
  rw [readMetadataKotlin, String.toList_ofList, parse_metadata]
  simp [listKotlin, Json.field, metadataJson, asStrings_array]

theorem zero_not_mem_unicode (n : ℕ) : '\x00' ∉ Json.unicode upperHex n := by
  have hhex : ∀ d < 16, '\x00' ≠ upperHex d := by decide
  simp [Json.unicode, Json.hex4, hhex _ (Nat.mod_lt _ (by decide : 0 < 16))]

theorem zero_not_mem_jsonEscape (c : Char) : '\x00' ∉ jsonEscape c := by
  unfold jsonEscape
  split_ifs with hbackspace htab hfeed hform hreturn hslash hallowed hunit
  all_goals try decide
  · rw [List.mem_singleton]
    rintro rfl
    exact absurd hallowed (by decide)
  · exact zero_not_mem_unicode _
  · rw [Json.surrogates, List.mem_append, not_or]
    exact ⟨zero_not_mem_unicode _, zero_not_mem_unicode _⟩

theorem zero_not_mem_stringArray (texts : List Text) : '\x00' ∉ stringArray texts := by
  intro hmem
  rcases List.mem_cons.mp hmem with hopen | hlist
  · exact absurd hopen (by decide)
  · rcases Json.mem_writeList hlist with hcomma | hclose | ⟨item, hitem, hmem⟩
    · exact absurd hcomma (by decide)
    · exact absurd hclose (by decide)
    · obtain ⟨text, -, rfl⟩ := List.mem_map.mp hitem
      rcases Json.mem_quote hmem with hquote | ⟨c, hc⟩
      · exact absurd hquote (by decide)
      · exact zero_not_mem_jsonEscape c hc

theorem zero_not_mem_metadata (row : IndexRow) : '\x00' ∉ metadata row := by
  have hfield : ∀ key texts, '\x00' ∉ Json.writeField jsonEscape (key, stringArray texts) := by
    intro key texts hmem
    rcases List.mem_append.mp hmem with hname | hvalue
    · rcases Json.mem_quote hname with hquote | ⟨c, hc⟩
      · exact absurd hquote (by decide)
      · exact zero_not_mem_jsonEscape c hc
    · rcases List.mem_cons.mp hvalue with hcolon | htexts
      · exact absurd hcolon (by decide)
      · exact zero_not_mem_stringArray texts htexts
  intro hmem
  rcases List.mem_cons.mp hmem with hopen | hlist
  · exact absurd hopen (by decide)
  · rcases Json.mem_writeList hlist with hcomma | hclose | ⟨piece, hpiece, hmem⟩
    · exact absurd hcomma (by decide)
    · exact absurd hclose (by decide)
    · obtain ⟨⟨key, value⟩, hmember, rfl⟩ := List.mem_map.mp hpiece
      simp only [List.mem_cons, Prod.mk.injEq, List.not_mem_nil, or_false] at hmember
      rcases hmember with ⟨rfl, rfl⟩ | ⟨rfl, rfl⟩
      · exact hfield _ _ hmem
      · exact hfield _ _ hmem

theorem cString_ofList {text : List Char} (hzero : '\x00' ∉ text) :
    cString (.ofList text) = .ofList text := by
  rw [cString, String.toList_ofList]
  congr 1
  apply List.takeWhile_eq_self_iff.mpr
  intro c hc
  simp only [ne_eq, decide_eq_true_eq]
  rintro rfl
  exact hzero hc

theorem readMetadataSwift_metadata (row : IndexRow) :
    readMetadataSwift (cString (.ofList (metadata row))) =
      (row.errorCodes.map stored, row.toolsRequired.map stored) := by
  rw [cString_ofList (zero_not_mem_metadata row), readMetadataSwift, String.toList_ofList,
    parse_metadata]
  simp [listSwift, Json.field, metadataJson, asStrings_array]

/-- The rows of a table that `Write` has made are those of its list. -/
theorem loadKotlin_records (rows : List IndexRow) :
    loadKotlin (rows.map record) = some (rows.map chunkOf) := by
  rw [loadKotlin]
  induction rows with
  | nil => rfl
  | cons row rows ih =>
      have hread : readRecordKotlin (record row) = some (chunkOf row) := by
        simp only [readRecordKotlin, record, readMetadataKotlin_metadata, readFloats_blob,
          Option.map_some]
        rfl
      simp only [List.map_cons, List.mapM_cons, hread, ih]
      rfl

/-! ## Inserting -/

theorem insertAll_eq (rows : List IndexRow) (table : List ChunkRecord)
    (htable : (table.map ChunkRecord.chunkId).Nodup) :
    insertAll rows table =
      if ((table ++ rows.map record).map ChunkRecord.chunkId).Nodup
      then some (table ++ rows.map record) else none := by
  induction rows generalizing table with
  | nil => simp [insertAll, htable]
  | cons row rows ih =>
      rw [insertAll]
      by_cases hmem : stored row.chunkId ∈ table.map ChunkRecord.chunkId
      · rw [if_pos hmem, if_neg]
        intro hnodup
        rw [List.map_append, List.nodup_append] at hnodup
        exact hnodup.2.2 _ hmem _ List.mem_cons_self rfl
      · have hnext : ((table ++ [record row]).map ChunkRecord.chunkId).Nodup := by
          rw [List.map_append, List.nodup_append]
          refine ⟨htable, List.nodup_singleton _, ?_⟩
          rintro id hid _ hrow rfl
          rw [List.map_singleton, List.mem_singleton] at hrow
          subst hrow
          exact hmem hid
        rw [if_neg hmem, ih _ hnext, List.map_cons, List.append_assoc, List.singleton_append]

theorem map_chunkId_record (rows : List IndexRow) :
    (rows.map record).map ChunkRecord.chunkId = rows.map fun row => stored row.chunkId := by
  rw [List.map_map]
  rfl

theorem write_eq (rows : List IndexRow) :
    write rows = if (rows.map fun row => stored row.chunkId).Nodup then ⟨true, rows.map record⟩
      else ⟨false, []⟩ := by
  rw [write, insertAll_eq rows [] List.nodup_nil, List.nil_append, map_chunkId_record]
  split_ifs <;> rfl

/-! ## Chunk ids -/

/-- A text is cut in one way only at the last of its separators. -/
theorem append_cons_inj_right {α : Type*} {x : α} {front front' behind behind' : List α}
    (hbehind : x ∉ behind) (hbehind' : x ∉ behind')
    (heq : front ++ x :: behind = front' ++ x :: behind') : front = front' ∧ behind = behind' := by
  rcases List.append_eq_append_iff.mp heq with ⟨more, hfront, hrest⟩ | ⟨more, hfront, hrest⟩
  all_goals
    cases more with
    | nil =>
        rw [List.nil_append, List.cons.injEq] at hrest
        simp [hfront, hrest.2]
    | cons y more =>
        rw [List.cons_append, List.cons.injEq] at hrest
        simp [hrest.2] at hbehind hbehind'

theorem stored_chunkId (documentId : Text) (i : ℕ) :
    stored (chunkId documentId i) =
      .ofList ((stored documentId).toList ++ '#' :: Nat.toDigits 10 i) := by
  have hmark : chunkId documentId i = documentId ++ 0x23 :: decimal i := by
    rw [chunkId, List.append_assoc]
    rfl
  rw [stored, stored, hmark, Utf16.decodeReplacing_append (by decide), decimal,
    Utf16.decodeReplacing_encode, String.toList_ofList]
  rfl

theorem stored_chunkId_inj {documentId other : Text} {i j : ℕ} :
    stored (chunkId documentId i) = stored (chunkId other j) ↔
      stored documentId = stored other ∧ i = j := by
  constructor
  · intro heq
    rw [stored_chunkId, stored_chunkId, String.ofList_inj] at heq
    have hmark : ∀ n, '#' ∉ Nat.toDigits 10 n := fun n hmem =>
      absurd (Json.isDigit_of_mem_toDigits hmem) (by decide)
    obtain ⟨hfront, hdigits⟩ := append_cons_inj_right (hmark i) (hmark j) heq
    have hvalue := congrArg (fun digits => Nat.ofDigitChars 10 digits 0) hdigits
    simp only [Nat.ofDigitChars_ten_toDigits] at hvalue
    exact ⟨String.toList_inj.mp hfront, hvalue⟩
  · rintro ⟨hdocument, rfl⟩
    rw [stored_chunkId, stored_chunkId, hdocument]

def hasSections (markdown : Text) : Bool := chunk (Frontmatter.parse markdown).2 ≠ []

def documentId (markdown : Text) : String := stored (Frontmatter.parse markdown).1.documentId

variable {encode : Text → List UInt32}

def ids (markdown : Text) : List String :=
  (List.range (chunk (Frontmatter.parse markdown).2).length).map fun i =>
    stored (chunkId (Frontmatter.parse markdown).1.documentId i)

theorem map_chunkId_rowsOf (markdown : Text) :
    ((rowsOf encode markdown).map fun row => stored row.chunkId) = ids markdown := by
  apply List.ext_getElem
  · simp [rowsOf, ids]
  · intro i hleft hright
    simp [rowsOf, ids, rowOf]

theorem nodup_ids (markdown : Text) : (ids markdown).Nodup := by
  refine List.Nodup.map ?_ List.nodup_range
  intro i j heq
  exact (stored_chunkId_inj.mp heq).2

theorem disjoint_ids_iff (markdown other : Text) :
    (ids markdown).Disjoint (ids other) ↔
      (hasSections markdown = true → hasSections other = true →
        documentId markdown ≠ documentId other) := by
  simp only [hasSections, ne_eq, decide_not, Bool.not_eq_true', decide_eq_false_iff_not,
    ← List.length_eq_zero_iff]
  constructor
  · intro hdisjoint hmarkdown hother hequal
    have hfirst : stored (chunkId (Frontmatter.parse markdown).1.documentId 0) ∈ ids markdown :=
      List.mem_map_of_mem (List.mem_range.mpr (Nat.pos_of_ne_zero hmarkdown))
    have hsecond : stored (chunkId (Frontmatter.parse other).1.documentId 0) ∈ ids other :=
      List.mem_map_of_mem (List.mem_range.mpr (Nat.pos_of_ne_zero hother))
    rw [stored_chunkId_inj.mpr ⟨hequal, rfl⟩] at hfirst
    exact hdisjoint hfirst hsecond
  · intro hdistinct id hid hother
    obtain ⟨i, hi, rfl⟩ := List.mem_map.mp hid
    obtain ⟨j, hj, heq⟩ := List.mem_map.mp hother
    rw [List.mem_range] at hi hj
    exact hdistinct (by omega) (by omega) (stored_chunkId_inj.mp heq).1.symm

theorem nodup_ids_iff (documents : List Text) :
    ((rows encode documents).map fun row => stored row.chunkId).Nodup ↔
      ((documents.filter hasSections).map documentId).Nodup := by
  have hids : ((rows encode documents).map fun row => stored row.chunkId) =
      documents.flatMap ids := by
    rw [rows, List.map_flatMap]
    congr 1
    funext markdown
    exact map_chunkId_rowsOf markdown
  rw [hids, List.nodup_flatMap, List.Nodup, List.pairwise_map, List.pairwise_filter]
  constructor
  · rintro ⟨-, hdisjoint⟩
    exact hdisjoint.imp fun hboth => (disjoint_ids_iff _ _).mp hboth
  · intro hdistinct
    exact ⟨fun markdown _ => nodup_ids markdown,
      hdistinct.imp fun hboth => (disjoint_ids_iff _ _).mpr hboth⟩

/-! ## Texts without a null character -/

theorem zero_not_mem_decodeReplacing {text : Text} (hzero : 0 ∉ text) :
    '\x00' ∉ Utf16.decodeReplacing text := by
  have hlone : ∀ unit : UInt16, unit ≠ 0 → '\x00' ≠ Utf16.replaceLone unit := by
    intro unit hne heq
    rw [Utf16.replaceLone] at heq
    split_ifs at heq with hplain
    · simp only [Utf16.isPlain, Bool.and_eq_true, Bool.not_eq_true'] at hplain
      have hunits := Utf16.units_ofNat hplain.1 hplain.2
      rw [← heq] at hunits
      exact hne (List.cons.inj hunits).1.symm
    · exact absurd heq (by decide)
  induction text using Utf16.decodeReplacing.induct with
  | case1 => exact List.not_mem_nil
  | case2 lone =>
      rw [Utf16.decodeReplacing, List.mem_singleton]
      exact hlone lone (Ne.symm (List.ne_of_not_mem_cons hzero))
  | case3 high low rest hpair ih =>
      simp only [List.mem_cons, not_or] at hzero
      rw [Utf16.decodeReplacing, if_pos hpair, List.mem_cons, not_or]
      refine ⟨?_, ih hzero.2.2⟩
      intro heq
      rw [Bool.and_eq_true] at hpair
      have hunits := Utf16.units_ofPair hpair.1 hpair.2
      rw [← heq] at hunits
      have hlength : 1 = 2 := congrArg List.length hunits
      omega
  | case4 high second rest hpair ih =>
      rw [List.mem_cons, not_or] at hzero
      rw [Utf16.decodeReplacing, if_neg hpair, List.mem_cons, not_or]
      exact ⟨hlone high (Ne.symm hzero.1), ih hzero.2⟩

theorem cString_stored {text : Text} (hzero : 0 ∉ text) : cString (stored text) = stored text :=
  cString_ofList (zero_not_mem_decodeReplacing hzero)

theorem unquote_subset (text : Text) : Frontmatter.unquote text ⊆ text := by
  unfold Frontmatter.unquote
  split_ifs
  · exact ((List.dropLast_sublist _).trans (List.drop_sublist 1 text)).subset
  · exact List.Subset.refl _

theorem entryOf_subset {line key value : Text}
    (hentry : Frontmatter.entryOf line = some (key, value)) : value ⊆ line := by
  unfold Frontmatter.entryOf at hentry
  cases line with
  | nil => cases hentry
  | cons first rest =>
      simp only at hentry
      split_ifs at hentry
      obtain ⟨colon, -, hboth⟩ := Option.map_eq_some_iff.mp hentry
      cases hboth
      exact List.Subset.trans (MarkdownChunker.trim_subset _) (List.drop_sublist _ _).subset

theorem documentId_readHeader_subset {lines : List Text} {text : Text}
    (hlines : ∀ line ∈ lines, line ⊆ text) :
    (Frontmatter.readHeader lines Frontmatter.empty).documentId ⊆ text := by
  rcases (Frontmatter.saysHeader_readHeader lines).documentId with
    ⟨value, following, ⟨before, line, rfl, hentry, -⟩, hid⟩ | ⟨-, hid⟩
  · rw [hid]
    exact List.Subset.trans (unquote_subset value) (List.Subset.trans (entryOf_subset hentry)
      (hlines line (List.mem_append_right before List.mem_cons_self)))
  · rw [hid]
    exact List.nil_subset _

theorem parse_subset (markdown : Text) :
    (Frontmatter.parse markdown).1.documentId ⊆ newline :: markdown ∧
      (Frontmatter.parse markdown).2 ⊆ markdown := by
  have htext : Frontmatter.trimNewlines (Frontmatter.replaceCrLf markdown) ⊆ markdown :=
    List.Subset.trans (List.dropWhile_sublist _).subset
      (MarkdownChunker.replaceCrLf_subset markdown)
  have hwhole : (Frontmatter.empty.documentId ⊆ newline :: markdown) ∧ markdown ⊆ markdown :=
    ⟨List.nil_subset _, List.Subset.refl _⟩
  unfold Frontmatter.parse
  simp only
  split_ifs
  · split
    · next stop bodyStart hend =>
        constructor
        · apply documentId_readHeader_subset
          intro line hline
          refine List.Subset.trans (MarkdownChunker.line_subset hline)
            (List.cons_subset_cons _ (List.Subset.trans ?_ htext))
          exact ((List.drop_sublist 4 _).trans (List.take_sublist stop _)).subset
        · simp only
          split_ifs
          · exact List.nil_subset _
          · refine List.Subset.trans (List.dropWhile_sublist _).subset ?_
            exact List.Subset.trans (List.drop_sublist _ _).subset htext
    · exact hwhole
  · exact hwhole

theorem zero_not_mem_chunkId {documentId : Text} (hzero : 0 ∉ documentId) (i : ℕ) :
    0 ∉ chunkId documentId i := by
  have hdecimal : 0 ∉ decimal i := by
    intro hmem
    obtain ⟨c, hc, hunit⟩ := List.mem_flatMap.mp hmem
    have hdigit := Json.isDigit_of_mem_toDigits hc
    have hlow : '0'.toNat = 48 := rfl
    have hhigh : '9'.toNat = 57 := rfl
    rw [Char.isDigit_iff_toNat] at hdigit
    rw [Utf16.units, if_pos (by omega), List.mem_singleton] at hunit
    have hvalue := congrArg UInt16.toNat hunit
    rw [UInt16.toNat_ofNat', UInt16.toNat_zero] at hvalue
    omega
  rw [chunkId, List.mem_append, List.mem_append, not_or, not_or]
  exact ⟨⟨hzero, by decide⟩, hdecimal⟩

/-- The texts of a row have no null character. -/
structure Nullless (row : IndexRow) : Prop where
  chunkId : 0 ∉ row.chunkId
  documentId : 0 ∉ row.documentId
  sectionTitle : 0 ∉ row.sectionTitle
  contentText : 0 ∉ row.contentText

theorem nullless_rows {documents : List Text} (hzero : ∀ markdown ∈ documents, 0 ∉ markdown)
    {row : IndexRow} (hrow : row ∈ rows encode documents) : Nullless row := by
  obtain ⟨markdown, hmarkdown, hmem⟩ := List.mem_flatMap.mp hrow
  obtain ⟨i, hi, rfl⟩ := List.mem_mapIdx.mp hmem
  have hbehind : 0 ∉ newline :: markdown := by
    rw [List.mem_cons, not_or]
    exact ⟨by decide, hzero markdown hmarkdown⟩
  have hdocument : 0 ∉ (Frontmatter.parse markdown).1.documentId := fun hmem =>
    hbehind ((parse_subset markdown).1 hmem)
  have hbody : newline :: (Frontmatter.parse markdown).2 ⊆ newline :: markdown :=
    List.cons_subset_cons _ (parse_subset markdown).2
  obtain ⟨htitle, htext⟩ := MarkdownChunker.chunk_subset (List.getElem_mem hi)
  constructor
  · exact zero_not_mem_chunkId hdocument i
  · exact hdocument
  · exact fun hmem => hbehind (hbody (htitle hmem))
  · exact fun hmem => hbehind (hbody (htext hmem))

theorem loadIndex_records {rows : List IndexRow}
    (hsize : ∀ row ∈ rows, row.embedding.length = dimensions)
    (hzero : ∀ row ∈ rows, Nullless row) : loadIndex (rows.map record) = rows.map chunkOf := by
  rw [loadIndex, List.map_map]
  apply List.map_congr_left
  intro row hrow
  have hblob : (blob row.embedding).length = dimensions * 4 := by
    rw [length_blob, hsize row hrow]
  have hnull := hzero row hrow
  simp only [Function.comp_apply, readRecordSwift, record, readMetadataSwift_metadata,
    readEmbeddingSwift, if_pos hblob, readFloats_blob, cString_stored hnull.chunkId,
    cString_stored hnull.documentId, cString_stored hnull.sectionTitle,
    cString_stored hnull.contentText]
  rfl

/-! ## From the documents to the apps -/

/-- The chunks in the index once the publisher is through with the documents. -/
def published (encode : Text → List UInt32) (documents : List Text) : List EdgeChunk :=
  if ((documents.filter hasSections).map documentId).Nodup then
    (rows encode documents).map chunkOf
  else []

theorem loadKotlin_published (encode : Text → List UInt32) (documents : List Text) :
    loadKotlin (write (rows encode documents)).table = some (published encode documents) := by
  rw [write_eq, published]
  simp only [nodup_ids_iff]
  split_ifs with hnodup
  · exact loadKotlin_records _
  · rfl

theorem published_loaded (encode : Text → List UInt32) (documents : List Text)
    (hsize : ∀ text, (encode text).length = dimensions)
    (hzero : ∀ markdown ∈ documents, 0 ∉ markdown) :
    ((write (rows encode documents)).committed = true ↔
      ((documents.filter hasSections).map documentId).Nodup) ∧
    loadKotlin (write (rows encode documents)).table = some (published encode documents) ∧
    loadIndex (write (rows encode documents)).table = published encode documents := by
  refine ⟨?_, loadKotlin_published encode documents, ?_⟩
  · rw [write_eq, ← @nodup_ids_iff encode]
    split_ifs with hnodup <;> simp [hnodup]
  · rw [write_eq, published]
    simp only [nodup_ids_iff]
    split_ifs with hnodup
    · refine loadIndex_records ?_ fun row hrow => nullless_rows hzero hrow
      intro row hrow
      obtain ⟨markdown, -, hmem⟩ := List.mem_flatMap.mp hrow
      obtain ⟨i, hi, rfl⟩ := List.mem_mapIdx.mp hmem
      exact hsize _
    · rfl

/-- A document without a header, and an encoder that knows one vector. -/
theorem published_loaded_plain :
    ((write (rows (fun _ => List.replicate dimensions 1) [units "## Leak\nClose it."])).committed =
        true ↔ (([units "## Leak\nClose it."].filter hasSections).map documentId).Nodup) ∧
    loadKotlin (write (rows (fun _ => List.replicate dimensions 1)
      [units "## Leak\nClose it."])).table =
        some (published (fun _ => List.replicate dimensions 1) [units "## Leak\nClose it."]) ∧
    loadIndex (write (rows (fun _ => List.replicate dimensions 1)
      [units "## Leak\nClose it."])).table =
        published (fun _ => List.replicate dimensions 1) [units "## Leak\nClose it."] :=
  published_loaded _ _ (fun _ => List.length_replicate) (by decide)

/-! ## Manuals -/

open MarkdownChunker (Section Laid layout chunk_layout)

/-- A document with a header, and with nothing but sections behind it. -/
structure Manual where
  header : List Text
  parts : List Section
  deriving DecidableEq, Repr

def Manual.markdown (m : Manual) : Text := Frontmatter.document m.header (layout [] m.parts)

structure Manual.Valid (m : Manual) : Prop where
  header : m.header ≠ []
  line : ∀ line ∈ m.header, newline ∉ line ∧ line ≠ Frontmatter.fence
  fenced : Frontmatter.fence ++ [carriageReturn] ∉ m.header.tail
  laid : Laid [] m.parts

/-- The chunks of a manual whose header has been read. -/
def Manual.chunks (encode : Text → List UInt32) (m : Manual)
    (front : Frontmatter.DocFrontmatter) : List EdgeChunk :=
  m.parts.mapIdx fun i s => chunkOf (rowOf encode front i s.chunk)

theorem trimNewlines_layout (parts : List Section) :
    Frontmatter.trimNewlines (layout [] parts) = layout [] parts := by
  cases parts with
  | nil => rfl
  | cons s parts =>
      obtain ⟨rest, hrest⟩ : ∃ rest, layout [] (s :: parts) = 0x23 :: rest := by
        rw [layout, List.nil_append, List.flatMap_cons, Section.text, List.cons_append]
        rcases eq_or_ne (s.lines ++ parts.flatMap Section.text) [] with hnil | hne
        · rw [hnil]
          exact ⟨_, rfl⟩
        · rw [List.intercalate_cons_of_ne_nil hne]
          exact ⟨_, rfl⟩
      rw [hrest]
      rfl

/-- The front is what the header of the manual says, and the publisher has read it. -/
structure IsFront (m : Manual) (front : Frontmatter.DocFrontmatter) : Prop where
  header : Frontmatter.SaysHeader (m.header.map Frontmatter.dropCr) front
  parse : Frontmatter.parse m.markdown = (front, layout [] m.parts)
  laid : Laid [] m.parts

theorem exists_isFront {m : Manual} (hvalid : m.Valid) : ∃ front, IsFront m front := by
  have hread := (Frontmatter.readAs_document_iff hvalid.line hvalid.laid.not_return).mpr
    ⟨hvalid.header, hvalid.fenced⟩
  rw [trimNewlines_layout] at hread
  obtain ⟨front, hparse, hsays⟩ := hread
  exact ⟨front, hsays, hparse, hvalid.laid⟩

theorem exists_fronts {manuals : List Manual} (hvalid : ∀ m ∈ manuals, m.Valid) :
    ∃ fronts, List.Forall₂ IsFront manuals fronts := by
  induction manuals with
  | nil => exact ⟨[], .nil⟩
  | cons m manuals ih =>
      obtain ⟨front, hfront⟩ := exists_isFront (hvalid m List.mem_cons_self)
      obtain ⟨fronts, hfronts⟩ := ih fun other hother =>
        hvalid other (List.mem_cons_of_mem m hother)
      exact ⟨front :: fronts, .cons hfront hfronts⟩

theorem IsFront.rowsOf {m : Manual} {front : Frontmatter.DocFrontmatter}
    (hfront : IsFront m front) :
    (rowsOf encode m.markdown).map chunkOf = m.chunks encode front := by
  rw [EdgeIndex.rowsOf, hfront.parse, chunk_layout hfront.laid, Manual.chunks]
  apply List.ext_getElem
  · simp
  · intro i hleft hright
    simp

theorem IsFront.hasSections {m : Manual} {front : Frontmatter.DocFrontmatter}
    (hfront : IsFront m front) : hasSections m.markdown = (m.parts ≠ [] : Bool) := by
  rw [EdgeIndex.hasSections, hfront.parse, chunk_layout hfront.laid]
  simp

theorem IsFront.documentId {m : Manual} {front : Frontmatter.DocFrontmatter}
    (hfront : IsFront m front) : documentId m.markdown = stored front.documentId := by
  rw [EdgeIndex.documentId, hfront.parse]

/-- The document ids of the manuals that have sections. -/
def manualIds (manuals : List Manual) (fronts : List Frontmatter.DocFrontmatter) : List String :=
  ((manuals.zip fronts).filter fun pair => pair.1.parts ≠ []).map fun pair =>
    stored pair.2.documentId

theorem ids_manuals {manuals : List Manual} {fronts : List Frontmatter.DocFrontmatter}
    (hfronts : List.Forall₂ IsFront manuals fronts) :
    ((manuals.map Manual.markdown).filter hasSections).map documentId =
      manualIds manuals fronts := by
  induction hfronts with
  | nil => rfl
  | @cons m front manuals fronts hfront _ ih =>
      rw [manualIds] at ih ⊢
      rw [List.map_cons, List.zip_cons_cons, List.filter_cons, List.filter_cons,
        hfront.hasSections]
      by_cases hparts : m.parts = []
      · simpa [hparts] using ih
      · simpa [hparts, hfront.documentId] using ih

theorem rows_manuals {manuals : List Manual} {fronts : List Frontmatter.DocFrontmatter}
    (hfronts : List.Forall₂ IsFront manuals fronts) :
    (rows encode (manuals.map Manual.markdown)).map chunkOf =
      (manuals.zip fronts).flatMap fun pair => pair.1.chunks encode pair.2 := by
  induction hfronts with
  | nil => rfl
  | @cons m front manuals fronts hfront _ ih =>
      rw [rows] at ih ⊢
      rw [List.map_cons, List.flatMap_cons, List.map_append, hfront.rowsOf, ih,
        List.zip_cons_cons, List.flatMap_cons]

/-- The app gets every section of every manual, unless two manuals with sections say the same
document id. -/
theorem loadKotlin_manuals_iff (encode : Text → List UInt32) (manuals : List Manual)
    (hvalid : ∀ m ∈ manuals, m.Valid) :
    ∃ fronts, List.Forall₂ (fun m front =>
        Frontmatter.SaysHeader (m.header.map Frontmatter.dropCr) front) manuals fronts ∧
      (loadKotlin (write (rows encode (manuals.map Manual.markdown))).table =
          some ((manuals.zip fronts).flatMap fun pair => pair.1.chunks encode pair.2) ↔
        (manualIds manuals fronts).Nodup) := by
  obtain ⟨fronts, hfronts⟩ := exists_fronts hvalid
  refine ⟨fronts, hfronts.imp fun _ _ hfront => hfront.header, ?_⟩
  rw [loadKotlin_published, published, ids_manuals hfronts, Option.some.injEq]
  split_ifs with hnodup
  · exact iff_of_true (rows_manuals hfronts) hnodup
  · refine iff_of_false ?_ hnodup
    intro hnone
    apply hnodup
    have hempty : (manuals.zip fronts).filter (fun pair => pair.1.parts ≠ []) = [] := by
      rw [List.filter_eq_nil_iff]
      intro pair hpair
      have hchunks := List.flatMap_eq_nil_iff.mp hnone.symm pair hpair
      rw [Manual.chunks, List.mapIdx_eq_nil_iff] at hchunks
      simp [hchunks]
    rw [manualIds, hempty]
    exact List.nodup_nil

def pump : Manual where
  header := [units "document_id: P-1"]
  parts := [⟨units "Leak", [units "Close it."]⟩]

theorem pump_valid : pump.Valid where
  header := by decide
  line := by decide
  fenced := by decide
  laid := by constructor <;> decide

theorem loadKotlin_manuals_pump :
    ∃ fronts, List.Forall₂ (fun m front =>
        Frontmatter.SaysHeader (m.header.map Frontmatter.dropCr) front) [pump] fronts ∧
      (loadKotlin (write (rows (fun _ => []) ([pump].map Manual.markdown))).table =
          some (([pump].zip fronts).flatMap fun pair => pair.1.chunks (fun _ => []) pair.2) ↔
        (manualIds [pump] fronts).Nodup) :=
  loadKotlin_manuals_iff _ _ (by simpa using pump_valid)

end EdgeIndex

end NativeInterop
