import NativeInterop.Unicode
import NativeInterop.Utf16
import NativeInterop.WordPiece
import Mathlib.Tactic

/-!
# The WordPiece tokenizers of the engine and of the Android host

Both walk the UTF-16 units of the lower-cased, decomposed text.  They leave the loop over the
pieces at the cap in different ways, and they ask their own runtime what white space is.

Lower-casing, decomposition and the general category are the same on both sides and
parameters here.
-/

namespace NativeInterop

open WordPiece

namespace WordPieceTokenizer

inductive GeneralCategory where
  | uppercaseLetter
  | lowercaseLetter
  | titlecaseLetter
  | modifierLetter
  | otherLetter
  | nonSpacingMark
  | spacingCombiningMark
  | enclosingMark
  | decimalDigitNumber
  | letterNumber
  | otherNumber
  | spaceSeparator
  | lineSeparator
  | paragraphSeparator
  | control
  | format
  | surrogate
  | privateUse
  | connectorPunctuation
  | dashPunctuation
  | openPunctuation
  | closePunctuation
  | initialQuotePunctuation
  | finalQuotePunctuation
  | otherPunctuation
  | mathSymbol
  | currencySymbol
  | modifierSymbol
  | otherSymbol
  | unassigned
  deriving DecidableEq, Repr

def isPunctuation : GeneralCategory → Bool
  | .connectorPunctuation => true
  | .dashPunctuation => true
  | .openPunctuation => true
  | .closePunctuation => true
  | .initialQuotePunctuation => true
  | .finalQuotePunctuation => true
  | .otherPunctuation => true
  | _ => false

def isSymbol : GeneralCategory → Bool
  | .mathSymbol => true
  | .currencySymbol => true
  | .modifierSymbol => true
  | .otherSymbol => true
  | _ => false

/-- The order of the tests in all three loops. -/
def classify (category : GeneralCategory) (isWhite : Bool) : CharClass :=
  if category = .nonSpacingMark then .mark
  else if isWhite then .white
  else if isPunctuation category || isSymbol category then .punctuation
  else .ordinary

/-- The control characters that one of the runtimes counts as white space. -/
def isDisputed (unit : UInt16) : Bool :=
  unit.toNat = 0x85 || Unicode.isInformationSeparator unit.toNat

/-- What the two runtimes agree on, unit by unit. -/
structure Utf16Data where
  lower : List UInt16 → List UInt16
  decompose : List UInt16 → List UInt16
  category : UInt16 → GeneralCategory
  category_disputed : ∀ unit, isDisputed unit = true → category unit = .control

def Utf16Data.normalize (data : Utf16Data) (text : List UInt16) : List UInt16 :=
  data.decompose (data.lower text)

structure Tokenizer (α : Type*) where
  clsId : ℕ
  sepId : ℕ
  unkId : ℕ
  padId : ℕ
  find : List α → Option ℕ

def units (text : String) : List UInt16 := Utf16.encode text.toList

def hashes : String := "##"

def find (lines : List (List UInt16)) : List UInt16 → Option ℕ :=
  lookup (fun line key => line = key) lines

/-- The constructor, which fails where a special token is missing. -/
def create (lines : List (List UInt16)) : Option (Tokenizer UInt16) := do
  let clsId ← find lines (units "[CLS]")
  let sepId ← find lines (units "[SEP]")
  let unkId ← find lines (units "[UNK]")
  let padId ← find lines (units "[PAD]")
  some ⟨clsId, sepId, unkId, padId, find lines⟩

/-- From the pieces of the words to ids and mask. -/
def Tokenizer.finish {α : Type*} (tokenizer : Tokenizer α) (maxLen : ℕ) (pieces : List ℕ) :
    List ℕ × List ℕ :=
  padded maxLen tokenizer.padId (pieces ++ [tokenizer.sepId])

def Tokenizer.pieces {α : Type*} (tokenizer : Tokenizer α) (mark : List α)
    (words : List (List α)) : List (List ℕ) :=
  words.map (wordPiece tokenizer.find mark tokenizer.unkId)

def Tokenizer.encode {α : Type*} (tokenizer : Tokenizer α) (mark : List α)
    (words : List (List α)) (maxLen : ℕ) : List ℕ × List ℕ :=
  tokenizer.finish maxLen
    (collect (maxLen - 1) [tokenizer.clsId] (tokenizer.pieces mark words))

def classOfCSharp (data : Utf16Data) (unit : UInt16) : CharClass :=
  classify (data.category unit) (Unicode.isWhiteSpaceCSharp unit.toNat)

def classOfKotlin (data : Utf16Data) (unit : UInt16) : CharClass :=
  classify (data.category unit) (Unicode.isWhitespaceKotlin unit.toNat)

/-- `Encode` of the engine, behind the normalization of the text. -/
def encodeEngine (classOf : UInt16 → CharClass) (lines : List (List UInt16))
    (normalized : List UInt16) (maxLen : ℕ) : Option (List ℕ × List ℕ) := do
  let tokenizer ← create lines
  some (tokenizer.encode (units hashes) (basicTokenize classOf normalized) maxLen)

/-- The words of the engine's `BasicTokenize`. -/
def wordsCSharp (data : Utf16Data) (text : List UInt16) : List (List UInt16) :=
  basicTokenize (classOfCSharp data) (data.normalize text)

def wordsKotlin (data : Utf16Data) (text : List UInt16) : List (List UInt16) :=
  basicTokenize (classOfKotlin data) (data.normalize text)

def encodeCSharp (data : Utf16Data) (lines : List (List UInt16)) (text : List UInt16)
    (maxLen : ℕ) : Option (List ℕ × List ℕ) :=
  encodeEngine (classOfCSharp data) lines (data.normalize text) maxLen

/-- The cap leaves the outer loop as well. -/
def encodeKotlin (data : Utf16Data) (lines : List (List UInt16)) (text : List UInt16)
    (maxLen : ℕ) : Option (List ℕ × List ℕ) := do
  let tokenizer ← create lines
  some (tokenizer.finish maxLen (collectOuter (maxLen - 1) [tokenizer.clsId]
    (tokenizer.pieces (units hashes) (wordsKotlin data text))))

/-! ## What the ids tell -/

section Ids

variable {α : Type*} {tokenizer : Tokenizer α} {mark : List α}

/-- Words of the dictionary have one id each. -/
theorem flatten_pieces {words : List (List α)}
    (hknown : ∀ word ∈ words, word ≠ [] ∧ ∃ id, tokenizer.find word = some id) :
    (tokenizer.pieces mark words).flatten =
      words.map fun word => (tokenizer.find word).getD 0 := by
  induction words with
  | nil => rfl
  | cons word words ih =>
      obtain ⟨hne, id, hid⟩ := hknown word List.mem_cons_self
      have hrest := ih fun other hother => hknown other (List.mem_cons_of_mem word hother)
      have hfirst := wordPiece_of_find mark tokenizer.unkId hne hid
      rw [Tokenizer.pieces, List.map_cons, List.flatten_cons, hfirst, List.map_cons, hid,
        Option.getD_some]
      exact congrArg (id :: ·) hrest

theorem encode_of_known {words : List (List α)} {maxLen : ℕ}
    (hknown : ∀ word ∈ words, word ≠ [] ∧ ∃ id, tokenizer.find word = some id)
    (hlength : words.length + 2 ≤ maxLen) :
    tokenizer.encode mark words maxLen = padded maxLen tokenizer.padId
      (tokenizer.clsId :: (words.map fun word => (tokenizer.find word).getD 0) ++
        [tokenizer.sepId]) := by
  rw [Tokenizer.encode, Tokenizer.finish, collect_eq, flatten_pieces hknown,
    List.take_of_length_le]
  · rfl
  · rw [List.length_map, List.length_singleton]
    omega

/-- Where the dictionary knows all words, the ids tell them. -/
theorem words_eq_of_encode_eq {a b : List (List α)} {maxLen : ℕ}
    (ha : ∀ word ∈ a, word ≠ [] ∧ ∃ id, tokenizer.find word = some id)
    (hb : ∀ word ∈ b, word ≠ [] ∧ ∃ id, tokenizer.find word = some id)
    (hinjective : ∀ u v id, tokenizer.find u = some id → tokenizer.find v = some id → u = v)
    (hlengthA : a.length + 2 ≤ maxLen) (hlengthB : b.length + 2 ≤ maxLen)
    (hencode : tokenizer.encode mark a maxLen = tokenizer.encode mark b maxLen) : a = b := by
  rw [encode_of_known ha hlengthA, encode_of_known hb hlengthB] at hencode
  have hpieces := padded_injective (by simp; omega) (by simp; omega) hencode
  simp only [List.cons_append, List.cons.injEq, true_and, List.append_left_inj] at hpieces
  refine List.ext_getElem (by simpa using congrArg List.length hpieces) fun i hia hib => ?_
  obtain ⟨-, id, hid⟩ := ha _ (List.getElem_mem hia)
  obtain ⟨-, other, hother⟩ := hb _ (List.getElem_mem hib)
  have hget := congrArg (fun ids => ids[i]?) hpieces
  simp only [List.getElem?_map, List.getElem?_eq_getElem hia, List.getElem?_eq_getElem hib,
    Option.map_some, hid, hother, Option.getD_some, Option.some.injEq] at hget
  exact hinjective _ _ id hid (hget ▸ hother)

end Ids

def specials : List String := ["[PAD]", "[UNK]", "[CLS]", "[SEP]"]

theorem find_of_mem {lines : List (List UInt16)} {key : List UInt16} (hmem : key ∈ lines) :
    ∃ id, find lines key = some id :=
  exists_lookup ⟨key, hmem, decide_eq_true rfl⟩

theorem create_of_specials {lines : List (List UInt16)}
    (hspecials : ∀ token ∈ specials, units token ∈ lines) :
    ∃ tokenizer, create lines = some tokenizer ∧ tokenizer.find = find lines := by
  obtain ⟨clsId, hcls⟩ := find_of_mem (hspecials "[CLS]" (by simp [specials]))
  obtain ⟨sepId, hsep⟩ := find_of_mem (hspecials "[SEP]" (by simp [specials]))
  obtain ⟨unkId, hunk⟩ := find_of_mem (hspecials "[UNK]" (by simp [specials]))
  obtain ⟨padId, hpad⟩ := find_of_mem (hspecials "[PAD]" (by simp [specials]))
  exact ⟨⟨clsId, sepId, unkId, padId, find lines⟩, by simp [create, hcls, hsep, hunk, hpad], rfl⟩

/-! ## The Kotlin port -/

section Kotlin

variable {data : Utf16Data} {text : List UInt16}

theorem encodeKotlin_eq (data : Utf16Data) (lines : List (List UInt16)) (text : List UInt16)
    (maxLen : ℕ) :
    encodeKotlin data lines text maxLen = (create lines).map fun tokenizer =>
      tokenizer.encode (units hashes) (wordsKotlin data text) maxLen := by
  unfold encodeKotlin
  cases create lines with
  | none => rfl
  | some tokenizer => simp [Tokenizer.encode, collectOuter_eq]

theorem encodeCSharp_eq (data : Utf16Data) (lines : List (List UInt16)) (text : List UInt16)
    (maxLen : ℕ) :
    encodeCSharp data lines text maxLen = (create lines).map fun tokenizer =>
      tokenizer.encode (units hashes) (wordsCSharp data text) maxLen := by
  unfold encodeCSharp encodeEngine
  cases create lines with
  | none => rfl
  | some tokenizer => rfl

/-- The runtimes differ on the disputed characters and on nothing else. -/
theorem classOfKotlin_eq {unit : UInt16} (hunit : isDisputed unit = false) :
    classOfKotlin data unit = classOfCSharp data unit := by
  have hwhite : Unicode.isWhitespaceKotlin unit.toNat = Unicode.isWhiteSpaceCSharp unit.toNat := by
    simp only [isDisputed, Bool.or_eq_false_iff, decide_eq_false_iff_not] at hunit
    simp [Unicode.isWhitespaceKotlin, Unicode.isWhiteSpaceCSharp, hunit.1, hunit.2]
  rw [classOfKotlin, classOfCSharp, hwhite]

/-- A disputed character stays on one side and goes on the other. -/
theorem isKept_ne_of_disputed {unit : UInt16} (hunit : isDisputed unit = true) :
    isKept (classOfKotlin data) unit ≠ isKept (classOfCSharp data) unit := by
  have hcategory := data.category_disputed unit hunit
  simp only [isDisputed, Unicode.isInformationSeparator, Bool.or_eq_true, decide_eq_true_eq]
    at hunit
  have hseparator : Unicode.isSeparator unit.toNat = false := by
    simp only [Unicode.isSeparator, decide_eq_false_iff_not]
    omega
  have hfeed : Unicode.isFeed unit.toNat = false := by
    simp only [Unicode.isFeed, decide_eq_false_iff_not]
    omega
  rcases hunit with hnext | hseparators
  · have hkotlin : Unicode.isWhitespaceKotlin unit.toNat = false := by
      rw [hnext]
      decide
    have hcsharp : Unicode.isWhiteSpaceCSharp unit.toNat = true := by
      rw [hnext]
      decide
    simp [isKept, classOfKotlin, classOfCSharp, classify, hcategory, hkotlin, hcsharp,
      isPunctuation, isSymbol]
  · have hkotlin : Unicode.isWhitespaceKotlin unit.toNat = true := by
      simp [Unicode.isWhitespaceKotlin, Unicode.isInformationSeparator, hseparators]
    have hcsharp : Unicode.isWhiteSpaceCSharp unit.toNat = false := by
      simp only [Unicode.isWhiteSpaceCSharp, hseparator, hfeed, Bool.false_eq_true, false_or,
        decide_eq_false_iff_not]
      omega
    simp [isKept, classOfKotlin, classOfCSharp, classify, hcategory, hkotlin, hcsharp,
      isPunctuation, isSymbol]

theorem words_eq_iff :
    wordsKotlin data text = wordsCSharp data text ↔
      ∀ unit ∈ data.normalize text, isDisputed unit = false := by
  constructor
  · intro hwords unit hunit
    by_contra hdisputed
    rw [Bool.not_eq_false] at hdisputed
    exact isKept_ne_of_disputed hdisputed (isKept_of_basicTokenize_eq hwords unit hunit)
  · intro hnone
    exact basicTokenize_congr fun unit hunit => classOfKotlin_eq (hnone unit hunit)

def linesOf (words : List (List UInt16)) : List (List UInt16) := specials.map units ++ words

theorem words_eq_of_encodes_eq
    (hencode : ∀ lines maxLen, 2 ≤ maxLen →
      encodeKotlin data lines text maxLen = encodeCSharp data lines text maxLen) :
    wordsKotlin data text = wordsCSharp data text := by
  have hnonempty : ∀ (classOf : UInt16 → CharClass) word,
      word ∈ basicTokenize classOf (data.normalize text) → word ≠ [] := by
    intro classOf word hword
    rw [basicTokenize_eq] at hword
    exact split_ne_nil word hword
  have hspecials : ∀ token ∈ specials,
      units token ∈ linesOf (wordsKotlin data text ++ wordsCSharp data text) := by
    intro token htoken
    exact List.mem_append_left _ (List.mem_map_of_mem htoken)
  obtain ⟨tokenizer, hcreate, hfind⟩ := create_of_specials hspecials
  have hknown : ∀ word, word ∈ wordsKotlin data text ++ wordsCSharp data text →
      ∃ id, tokenizer.find word = some id := by
    intro word hword
    rw [hfind]
    exact find_of_mem (List.mem_append_right _ hword)
  have hsame := hencode (linesOf (wordsKotlin data text ++ wordsCSharp data text))
    ((wordsKotlin data text).length + (wordsCSharp data text).length + 2) (by omega)
  rw [encodeKotlin_eq, encodeCSharp_eq, hcreate, Option.map_some, Option.map_some,
    Option.some.injEq] at hsame
  refine words_eq_of_encode_eq ?_ ?_ ?_ (by omega) (by omega) hsame
  · intro word hword
    exact ⟨hnonempty _ word hword, hknown word (List.mem_append_left _ hword)⟩
  · intro word hword
    exact ⟨hnonempty _ word hword, hknown word (List.mem_append_right _ hword)⟩
  · intro u v id hu hv
    rw [hfind] at hu hv
    exact eq_of_lookup_eq hu hv

end Kotlin

/-- The two ports agree on a text, for every vocabulary and every length, exactly where its
decomposed form has none of the disputed control characters. -/
theorem encodeKotlin_eq_iff (data : Utf16Data) (text : List UInt16) :
    (∀ lines maxLen, 2 ≤ maxLen →
      encodeKotlin data lines text maxLen = encodeCSharp data lines text maxLen) ↔
    ∀ unit ∈ data.normalize text, isDisputed unit = false := by
  rw [← words_eq_iff]
  constructor
  · exact words_eq_of_encodes_eq
  · intro hwords lines maxLen _
    rw [encodeKotlin_eq, encodeCSharp_eq, hwords]

/-- Controls, spaces and lower-case letters; nothing else is asked of it. -/
def latinCategory (n : ℕ) : GeneralCategory :=
  if n < 0x20 ∨ (0x7F ≤ n ∧ n ≤ 0x9F) then .control
  else if Unicode.isSeparator n then .spaceSeparator
  else .lowercaseLetter

def latinData : Utf16Data where
  lower := id
  decompose := id
  category := fun unit => latinCategory unit.toNat
  category_disputed := by
    intro unit hunit
    simp only [isDisputed, Unicode.isInformationSeparator, Bool.or_eq_true, decide_eq_true_eq]
      at hunit
    rw [latinCategory, if_pos]
    omega

/-- A next-line character between two letters: two words in the engine, one unknown word in
the Android host. -/
theorem encodeKotlin_ne_nextLine :
    encodeCSharp latinData (specials.map units ++ [units "a", units "b"]) [0x61, 0x85, 0x62] 6 =
      some ([2, 4, 5, 3, 0, 0], [1, 1, 1, 1, 0, 0]) ∧
    encodeKotlin latinData (specials.map units ++ [units "a", units "b"]) [0x61, 0x85, 0x62] 6 =
      some ([2, 1, 3, 0, 0, 0], [1, 1, 1, 0, 0, 0]) ∧
    ¬ ∀ lines maxLen, 2 ≤ maxLen → encodeKotlin latinData lines [0x61, 0x85, 0x62] maxLen =
      encodeCSharp latinData lines [0x61, 0x85, 0x62] maxLen := by
  have hengine : encodeCSharp latinData (specials.map units ++ [units "a", units "b"])
      [0x61, 0x85, 0x62] 6 = some ([2, 4, 5, 3, 0, 0], [1, 1, 1, 1, 0, 0]) := by
    decide +kernel
  have hhost : encodeKotlin latinData (specials.map units ++ [units "a", units "b"])
      [0x61, 0x85, 0x62] 6 = some ([2, 1, 3, 0, 0, 0], [1, 1, 1, 0, 0, 0]) := by
    decide +kernel
  refine ⟨hengine, hhost, fun hall => ?_⟩
  have hsame := hall (specials.map units ++ [units "a", units "b"]) 6 (by decide)
  rw [hengine, hhost] at hsame
  exact absurd hsame (by decide)

end WordPieceTokenizer

end NativeInterop
