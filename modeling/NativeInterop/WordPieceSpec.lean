import NativeInterop.WordPieceSegments
import NativeInterop.WordPieceTokenizer
import Mathlib.Tactic

/-!
# What the engine's WordPiece encoding is

The ids are [CLS], the pieces of the words up to the cap, [SEP] and padding.  The pieces are
longest entries of the vocabulary, and text cannot bring in a special token: a bracket stands
alone in its word, and no entry of that length is one.
-/

namespace NativeInterop

open WordPiece

namespace WordPieceTokenizer

/-- The vocabulary numbers of a word, or the unknown token's. -/
def IsPieces (tokenizer : Tokenizer UInt16) (word : List UInt16) (pieces : List ℕ) : Prop :=
  (Stuck tokenizer.find (units hashes) word ∧ pieces = [tokenizer.unkId]) ∨
    (¬ Stuck tokenizer.find (units hashes) word ∧
      Segments tokenizer.find (units hashes) word pieces)

/-- The positions of `ids` in front of the padding. -/
def filled (maxLen : ℕ) (pieces : List ℕ) : ℕ := 2 + min (maxLen - 2) pieces.length

structure IsEncoding (tokenizer : Tokenizer UInt16) (words : List (List UInt16)) (maxLen : ℕ)
    (ids mask : List ℕ) : Prop where
  ids_length : ids.length = maxLen
  mask_length : mask.length = maxLen
  pieces : ∃ pieces : List (List ℕ),
    List.Forall₂ (IsPieces tokenizer) words pieces ∧
    ids = [tokenizer.clsId] ++ pieces.flatten.take (maxLen - 2) ++ [tokenizer.sepId] ++
      List.replicate (maxLen - filled maxLen pieces.flatten) tokenizer.padId ∧
    mask = List.replicate (filled maxLen pieces.flatten) 1 ++
      List.replicate (maxLen - filled maxLen pieces.flatten) 0

theorem padded_eq {maxLen padId : ℕ} {ids : List ℕ} (hlength : ids.length ≤ maxLen) :
    padded maxLen padId ids = (ids ++ List.replicate (maxLen - ids.length) padId,
      List.replicate ids.length 1 ++ List.replicate (maxLen - ids.length) 0) := by
  rw [padded, Prod.mk.injEq]
  constructor
  · apply List.ext_getElem
    · simp
      omega
    · intro i hi hj
      rw [List.getElem_map, List.getElem_range, List.getElem_append]
      split_ifs with hlt
      · simp [hlt]
      · simp
  · apply List.ext_getElem
    · simp
      omega
    · intro i hi hj
      rw [List.getElem_map, List.getElem_range, List.getElem_append]
      simp [List.length_replicate]

theorem isPieces_wordPiece (tokenizer : Tokenizer UInt16) (word : List UInt16) :
    IsPieces tokenizer word (wordPiece tokenizer.find (units hashes) tokenizer.unkId word) :=
  wordPiece_spec tokenizer.find (units hashes) tokenizer.unkId word

theorem forall₂_isPieces (tokenizer : Tokenizer UInt16) (words : List (List UInt16)) :
    List.Forall₂ (IsPieces tokenizer) words (tokenizer.pieces (units hashes) words) := by
  rw [Tokenizer.pieces, List.forall₂_map_right_iff, List.forall₂_same]
  exact fun word _ => isPieces_wordPiece tokenizer word

/-- What the loops put together, in one equation. -/
theorem encode_eq {tokenizer : Tokenizer UInt16} {words : List (List UInt16)} {maxLen : ℕ}
    (hmax : 2 ≤ maxLen) {pieces : List ℕ}
    (hpieces : (tokenizer.pieces (units hashes) words).flatten = pieces) :
    tokenizer.encode (units hashes) words maxLen =
      ([tokenizer.clsId] ++ pieces.take (maxLen - 2) ++ [tokenizer.sepId] ++
          List.replicate (maxLen - filled maxLen pieces) tokenizer.padId,
        List.replicate (filled maxLen pieces) 1 ++
          List.replicate (maxLen - filled maxLen pieces) 0) := by
  have hroom : maxLen - 1 - [tokenizer.clsId].length = maxLen - 2 := by
    rw [List.length_singleton]
    omega
  have hfilled : ([tokenizer.clsId] ++ pieces.take (maxLen - 2) ++ [tokenizer.sepId]).length =
      filled maxLen pieces := by
    simp only [List.length_append, List.length_singleton, List.length_take, filled]
    omega
  have hle : filled maxLen pieces ≤ maxLen := by
    unfold filled
    omega
  rw [Tokenizer.encode, Tokenizer.finish, collect_eq, hpieces, hroom,
    padded_eq (by rwa [hfilled]), hfilled]

theorem isEncoding_encode (tokenizer : Tokenizer UInt16) (words : List (List UInt16))
    {maxLen : ℕ} (hmax : 2 ≤ maxLen) :
    IsEncoding tokenizer words maxLen (tokenizer.encode (units hashes) words maxLen).1
      (tokenizer.encode (units hashes) words maxLen).2 := by
  constructor
  · simp [Tokenizer.encode, Tokenizer.finish, padded]
  · simp [Tokenizer.encode, Tokenizer.finish, padded]
  · refine ⟨_, forall₂_isPieces tokenizer words, ?_⟩
    rw [encode_eq hmax rfl]
    exact ⟨rfl, rfl⟩

/-- Every text is encoded as the vocabulary says, and the scan of every word ends. -/
theorem encodeCSharp_meets_spec (data : Utf16Data) {lines : List (List UInt16)}
    (hspecials : ∀ token ∈ specials, units token ∈ lines) (text : List UInt16) {maxLen : ℕ}
    (hmax : 2 ≤ maxLen) :
    ∃ tokenizer ids mask, create lines = some tokenizer ∧
      encodeCSharp data lines text maxLen = some (ids, mask) ∧
      IsEncoding tokenizer (wordsCSharp data text) maxLen ids mask ∧
      ∀ word, ∃ last, (scanLoop tokenizer.find (units hashes) tokenizer.unkId word).Reaches
          ⟨0, word.length, []⟩ last ∧
        scanPass tokenizer.find (units hashes) tokenizer.unkId word last =
          .inr (wordPiece tokenizer.find (units hashes) tokenizer.unkId word) := by
  obtain ⟨tokenizer, hcreate, -⟩ := create_of_specials hspecials
  refine ⟨tokenizer, _, _, hcreate, ?_, isEncoding_encode tokenizer _ hmax, fun word => ?_⟩
  · rw [encodeCSharp_eq, hcreate]
    rfl
  · exact scanLoop_ends tokenizer.find (units hashes) tokenizer.unkId word

/-- A cap of six over the vocabulary of two words: the third piece still fits. -/
theorem encodeCSharp_meets_spec_two :
    ∃ tokenizer ids mask,
      create (specials.map units ++ [units "a", units "b"]) = some tokenizer ∧
      encodeCSharp latinData (specials.map units ++ [units "a", units "b"]) [0x61, 0x20, 0x62] 6 =
        some (ids, mask) ∧
      IsEncoding tokenizer (wordsCSharp latinData [0x61, 0x20, 0x62]) 6 ids mask ∧
      ∀ word, ∃ last, (scanLoop tokenizer.find (units hashes) tokenizer.unkId word).Reaches
          ⟨0, word.length, []⟩ last ∧
        scanPass tokenizer.find (units hashes) tokenizer.unkId word last =
          .inr (wordPiece tokenizer.find (units hashes) tokenizer.unkId word) :=
  encodeCSharp_meets_spec latinData
    (fun _ htoken => List.mem_append_left _ (List.mem_map_of_mem htoken)) _ (by decide)

/-! ## Special tokens and text -/

def openBracket : UInt16 := 0x5B

/-- The tokens that text must not bring in, with what their keys start with. -/
theorem units_eq_openBracket_cons {token : String} (htoken : token ∈ specials) :
    ∃ c rest, units token = openBracket :: c :: rest := by
  simp only [specials, List.mem_cons, List.not_mem_nil, or_false] at htoken
  rcases htoken with rfl | rfl | rfl | rfl
  · exact ⟨_, _, rfl⟩
  · exact ⟨_, _, rfl⟩
  · exact ⟨_, _, rfl⟩
  · exact ⟨_, _, rfl⟩

theorem classOfCSharp_of_isPunctuation {data : Utf16Data} {unit : UInt16}
    (hpunctuation : isPunctuation (data.category unit) = true)
    (hwhite : Unicode.isWhiteSpaceCSharp unit.toNat = false) :
    classOfCSharp data unit = .punctuation := by
  have hmark : data.category unit ≠ .nonSpacingMark := by
    intro hmark
    rw [hmark] at hpunctuation
    cases hpunctuation
  rw [classOfCSharp, classify, hwhite, hpunctuation]
  simp [hmark]

/-- A part of a word is never looked up under a special token's key. -/
theorem keyOf_ne_special {data : Utf16Data}
    (hopen : isPunctuation (data.category openBracket) = true) {text word : List UInt16}
    (hword : word ∈ wordsCSharp data text) {front piece behind : List UInt16}
    (hparts : word = front ++ (piece ++ behind)) {token : String} (htoken : token ∈ specials) :
    keyOf (units hashes) front piece ≠ units token := by
  obtain ⟨c, rest, hunits⟩ := units_eq_openBracket_cons htoken
  have hclass := classOfCSharp_of_isPunctuation hopen (by decide)
  intro hkey
  rw [hunits, keyOf] at hkey
  by_cases hfront : front.isEmpty = true
  · rw [if_pos hfront, List.nil_append] at hkey
    have hmem : openBracket ∈ word := by
      rw [hparts, hkey]
      simp
    rw [wordsCSharp, basicTokenize_eq] at hword
    have halone := eq_singleton_of_mem_split hclass List.not_mem_nil word hword hmem
    have hlength := congrArg List.length (hparts.symm.trans halone)
    rw [hkey] at hlength
    simp at hlength
    omega
  · rw [if_neg hfront] at hkey
    have hhash : (units hashes ++ piece).head? = some 0x23 := rfl
    rw [hkey, List.head?_cons, Option.some.injEq] at hhash
    exact absurd hhash (by decide)

theorem find_create {lines : List (List UInt16)} {tokenizer : Tokenizer UInt16}
    (hcreate : create lines = some tokenizer) :
    tokenizer.find = find lines ∧ find lines (units "[CLS]") = some tokenizer.clsId ∧
      find lines (units "[SEP]") = some tokenizer.sepId ∧
      find lines (units "[UNK]") = some tokenizer.unkId ∧
      find lines (units "[PAD]") = some tokenizer.padId := by
  simp only [create, Option.bind_eq_bind, Option.bind_eq_some_iff] at hcreate
  obtain ⟨clsId, hcls, sepId, hsep, unkId, hunk, padId, hpad, heq⟩ := hcreate
  cases heq
  exact ⟨rfl, hcls, hsep, hunk, hpad⟩

/-- The pieces of a text's words keep away from a special token other than the unknown one. -/
theorem ne_special_of_mem_pieces {data : Utf16Data}
    (hopen : isPunctuation (data.category openBracket) = true) {lines : List (List UInt16)}
    {tokenizer : Tokenizer UInt16} (hcreate : create lines = some tokenizer)
    {text : List UInt16} {token : String} (htoken : token ∈ specials)
    (hunk : units token ≠ units "[UNK]") {special : ℕ}
    (hspecial : find lines (units token) = some special) {id : ℕ}
    (hid : id ∈ (tokenizer.pieces (units hashes) (wordsCSharp data text)).flatten) :
    id ≠ special := by
  obtain ⟨hfind, -, -, hunkId, -⟩ := find_create hcreate
  obtain ⟨pieces, hpieces, hmem⟩ := List.mem_flatten.mp hid
  obtain ⟨word, hword, rfl⟩ := List.mem_map.mp hpieces
  rintro rfl
  rcases exists_part_of_mem_wordPiece hmem with rfl | ⟨front, piece, behind, hparts, hkey⟩
  · exact hunk (eq_of_lookup_eq hspecial hunkId)
  · rw [hfind] at hkey
    exact keyOf_ne_special hopen hword hparts htoken (eq_of_lookup_eq hkey hspecial)

/-- Between [CLS] and [SEP] stands no id of [CLS], [SEP] or [PAD]. -/
theorem no_special_between (data : Utf16Data)
    (hopen : isPunctuation (data.category openBracket) = true)
    {lines : List (List UInt16)} (hspecials : ∀ token ∈ specials, units token ∈ lines)
    (text : List UInt16) {maxLen : ℕ} (hmax : 2 ≤ maxLen) :
    ∃ tokenizer between padding, create lines = some tokenizer ∧
      encodeCSharp data lines text maxLen =
        some (tokenizer.clsId :: between ++ tokenizer.sepId ::
            List.replicate padding tokenizer.padId,
          List.replicate (between.length + 2) 1 ++ List.replicate padding 0) ∧
      ∀ id ∈ between, id ≠ tokenizer.clsId ∧ id ≠ tokenizer.sepId ∧ id ≠ tokenizer.padId := by
  obtain ⟨tokenizer, hcreate, -⟩ := create_of_specials hspecials
  obtain ⟨-, hcls, hsep, -, hpad⟩ := find_create hcreate
  generalize hpieces : (tokenizer.pieces (units hashes) (wordsCSharp data text)).flatten = pieces
  refine ⟨tokenizer, pieces.take (maxLen - 2), maxLen - filled maxLen pieces, hcreate, ?_, ?_⟩
  · rw [encodeCSharp_eq, hcreate, Option.map_some, encode_eq hmax hpieces, List.length_take,
      filled, Nat.add_comm 2]
    simp
  · intro id hid
    have hmem := List.mem_of_mem_take hid
    rw [← hpieces] at hmem
    refine ⟨?_, ?_, ?_⟩
    · exact ne_special_of_mem_pieces hopen hcreate (by simp [specials]) (by decide) hcls hmem
    · exact ne_special_of_mem_pieces hopen hcreate (by simp [specials]) (by decide) hsep hmem
    · exact ne_special_of_mem_pieces hopen hcreate (by simp [specials]) (by decide) hpad hmem

/-- The brackets are punctuation. -/
def bracketCategory (n : ℕ) : GeneralCategory :=
  if n = 0x5B then .openPunctuation
  else if n = 0x5D then .closePunctuation
  else latinCategory n

def bracketData : Utf16Data where
  lower := id
  decompose := id
  category := fun unit => bracketCategory unit.toNat
  category_disputed := by
    intro unit hunit
    have hlatin := latinData.category_disputed unit hunit
    simp only [isDisputed, Unicode.isInformationSeparator, Bool.or_eq_true, decide_eq_true_eq]
      at hunit
    rw [bracketCategory, if_neg (by omega), if_neg (by omega)]
    exact hlatin

theorem no_special_between_sep :
    ∃ tokenizer between padding, create (specials.map units) = some tokenizer ∧
      encodeCSharp bracketData (specials.map units) (units "[sep]") 8 =
        some (tokenizer.clsId :: between ++ tokenizer.sepId ::
            List.replicate padding tokenizer.padId,
          List.replicate (between.length + 2) 1 ++ List.replicate padding 0) ∧
      ∀ id ∈ between, id ≠ tokenizer.clsId ∧ id ≠ tokenizer.sepId ∧ id ≠ tokenizer.padId :=
  no_special_between bracketData (by decide) (fun _ => List.mem_map_of_mem) _ (by decide)

end WordPieceTokenizer

end NativeInterop
