import NativeInterop.WordPieceTokenizer
import Mathlib.Tactic

/-!
# The WordPiece tokenizer of the iOS host

The Swift port walks Unicode scalars where the engine walks UTF-16 units.  A character beyond
the basic plane is one scalar with its own category there, and two surrogates here, which the
engine takes for letters.  The keys of a Swift dictionary are equal when they are canonically
equivalent; those of the engine are compared unit by unit.

Behind its classification the engine computes on units what the same loops compute on
scalars: no line of a vocabulary ends inside of a pair.
-/

namespace NativeInterop

open WordPiece

namespace WordPieceTokenizer

/-- What the two runtimes agree on, scalar by scalar, and the normal form by which Swift
compares strings. -/
structure ScalarData where
  lower : List Char → List Char
  decompose : List Char → List Char
  category : Char → GeneralCategory
  isWhitespace : Char → Bool
  canonical : List Char → List Char

def ScalarData.normalize (data : ScalarData) (text : List Char) : List Char :=
  data.decompose (data.lower text)

/-! ## The Swift port -/

def classOfSwift (data : ScalarData) (c : Char) : CharClass :=
  classify (data.category c) (data.isWhitespace c)

def wordsSwift (data : ScalarData) (text : List Char) : List (List Char) :=
  basicTokenize (classOfSwift data) (data.normalize text)

/-- Empty lines are skipped, and keep their number. -/
def findSwift (data : ScalarData) (lines : List (List Char)) : List Char → Option ℕ :=
  lookup (fun line key => ¬ line.isEmpty ∧ data.canonical line = data.canonical key) lines

def createSwift (data : ScalarData) (lines : List (List Char)) : Tokenizer Char where
  clsId := (findSwift data lines "[CLS]".toList).getD 101
  sepId := (findSwift data lines "[SEP]".toList).getD 102
  unkId := (findSwift data lines "[UNK]".toList).getD 100
  padId := (findSwift data lines "[PAD]".toList).getD 0
  find := findSwift data lines

def encodeSwift (data : ScalarData) (lines : List (List Char)) (text : List Char)
    (maxLen : ℕ) : List ℕ × List ℕ :=
  (createSwift data lines).encode hashes.toList (wordsSwift data text) maxLen

/-! ## The engine on scalars -/

/-- A surrogate has a category of its own, which is none of those that are tested for. -/
def classOfUnit (data : ScalarData) (unit : UInt16) : CharClass :=
  if Utf16.isHigh unit || Utf16.isLow unit then classify .surrogate false
  else classOfSwift data (.ofNat unit.toNat)

def encodeCSharpScalars (data : ScalarData) (lines : List (List Char)) (text : List Char)
    (maxLen : ℕ) : Option (List ℕ × List ℕ) :=
  encodeEngine (classOfUnit data) (lines.map Utf16.encode) (Utf16.encode (data.normalize text))
    maxLen

def isSupplementary (c : Char) : Bool := 0x10000 ≤ c.toNat

/-- What the engine takes a character for. -/
def classOfChar (data : ScalarData) (c : Char) : CharClass :=
  if isSupplementary c then .ordinary else classOfSwift data c

def wordsChars (data : ScalarData) (text : List Char) : List (List Char) :=
  basicTokenize (classOfChar data) (data.normalize text)

def findChars (lines : List (List Char)) : List Char → Option ℕ :=
  lookup (fun line key => line = key) lines

/-- The engine's tokenizer over scalars. -/
def createChars (lines : List (List Char)) : Option (Tokenizer Char) := do
  let clsId ← findChars lines "[CLS]".toList
  let sepId ← findChars lines "[SEP]".toList
  let unkId ← findChars lines "[UNK]".toList
  let padId ← findChars lines "[PAD]".toList
  some ⟨clsId, sepId, unkId, padId, findChars lines⟩

section Units

variable {data : ScalarData}

theorem isSupplementary_iff (c : Char) :
    isSupplementary c = true ↔ (Utf16.units c).length = 2 := by
  unfold isSupplementary Utf16.units
  split_ifs with hsmall
  · simp [hsmall]
  · simp [not_lt.mp hsmall]

theorem classOfUnit_units (data : ScalarData) (c : Char) :
    (∃ unit, Utf16.units c = [unit] ∧ classOfUnit data unit = classOfChar data c) ∨
      (classOfChar data c = .ordinary ∧ ∃ high low, Utf16.units c = [high, low] ∧
        classOfUnit data high = .ordinary ∧ classOfUnit data low = .ordinary) := by
  rcases Utf16.units_cases c with ⟨unit, heq, hhigh, hlow, hchar⟩ |
    ⟨high, low, heq, hhigh, hlow, -⟩
  · refine .inl ⟨unit, heq, ?_⟩
    have hplain : ¬ isSupplementary c = true := by
      rw [isSupplementary_iff, heq, List.length_singleton]
      exact nofun
    rw [classOfUnit, hhigh, hlow, hchar, classOfChar, if_neg hplain]
    rfl
  · refine .inr ⟨?_, high, low, heq, ?_, ?_⟩
    · have hbig : isSupplementary c = true := by
        rw [isSupplementary_iff, heq]
        rfl
      rw [classOfChar, if_pos hbig]
    · rw [classOfUnit, hhigh]
      rfl
    · rw [classOfUnit, hlow, Bool.or_true]
      rfl

theorem encode_eq_nil_iff {text : List Char} : Utf16.encode text = [] ↔ text = [] := by
  constructor
  · intro hempty
    have hdecode := Utf16.decode_encode text
    rw [hempty] at hdecode
    cases hdecode
    rfl
  · rintro rfl
    rfl

theorem closed_encode (word : List Char) :
    closed (Utf16.encode word) = (closed word).map Utf16.encode := by
  by_cases hword : word = []
  · rw [hword]
    rfl
  · have hunits : Utf16.encode word ≠ [] := encode_eq_nil_iff.not.mpr hword
    simp [closed, hword, hunits]

theorem split_encode (word text : List Char) :
    split (classOfUnit data) (Utf16.encode word) (Utf16.encode text) =
      (split (classOfChar data) word text).map Utf16.encode := by
  induction text generalizing word with
  | nil => exact closed_encode word
  | cons c text ih =>
      have hcons : Utf16.encode (c :: text) = Utf16.units c ++ Utf16.encode text := rfl
      have hword : Utf16.encode (word ++ [c]) = Utf16.encode word ++ Utf16.units c := by
        simp [Utf16.encode]
      have hempty : split (classOfUnit data) [] (Utf16.encode text) =
          (split (classOfChar data) [] text).map Utf16.encode := ih []
      rcases classOfUnit_units data c with ⟨unit, hunits, hclass⟩ |
        ⟨hclass, high, low, hunits, hhigh, hlow⟩
      · have hself : Utf16.encode [c] = [unit] := by simp [Utf16.encode, hunits]
        rw [hcons, hunits, List.singleton_append, split, split, hclass]
        cases classOfChar data c with
        | mark => exact ih word
        | white =>
            simp only
            rw [List.map_append, closed_encode, hempty]
        | punctuation =>
            simp only
            rw [List.map_append, List.map_cons, closed_encode, hempty, hself]
        | ordinary =>
            have hopen := ih (word ++ [c])
            rw [hword, hunits] at hopen
            exact hopen
      · have hopen := ih (word ++ [c])
        rw [hword, hunits] at hopen
        rw [hcons, hunits, split, hclass]
        simp only [List.cons_append, List.nil_append, split, hhigh, hlow, List.append_assoc]
        exact hopen

theorem basicTokenize_encode (data : ScalarData) (text : List Char) :
    basicTokenize (classOfUnit data) (Utf16.encode text) =
      (basicTokenize (classOfChar data) text).map Utf16.encode := by
  rw [basicTokenize_eq, basicTokenize_eq]
  exact split_encode [] text

end Units

/-! ## Pieces of units and pieces of scalars -/

section Pieces

variable {lines : List (List Char)}

theorem encode_injective {a b : List Char} (hsame : Utf16.encode a = Utf16.encode b) : a = b := by
  have hdecode := Utf16.decode_encode a
  rw [hsame, Utf16.decode_encode] at hdecode
  exact (Option.some.inj hdecode).symm

theorem find_encode (lines : List (List Char)) (key : List Char) :
    find (lines.map Utf16.encode) (Utf16.encode key) = findChars lines key := by
  refine lookup_congr fun line _ => ?_
  rw [decide_eq_decide]
  exact ⟨encode_injective, congrArg Utf16.encode⟩

/-- No line of a vocabulary ends inside of a pair. -/
theorem find_of_high {front : List UInt16} {high : UInt16} (hhigh : Utf16.isHigh high = true) :
    find (lines.map Utf16.encode) (front ++ [high]) = none := by
  refine lookup_eq_none fun line hline => ?_
  obtain ⟨text, -, rfl⟩ := List.mem_map.mp hline
  rw [decide_eq_false_iff_not]
  intro hsame
  -- an encoded text ends in a unit of its own or in a low surrogate
  have hlast : (Utf16.encode text).getLast? = some high := by rw [hsame, List.getLast?_concat]
  rw [Utf16.getLast?_encode hlast] at hhigh
  cases hhigh

/-- A cut lies behind some of the characters or inside of a pair. -/
theorem cut_cases {text : List Char} {n : ℕ} (hpos : 0 < n)
    (hn : n ≤ (Utf16.encode text).length) :
    (∃ k, 0 < k ∧ k ≤ text.length ∧ n = (Utf16.encode (text.take k)).length) ∨
      ∃ front high, Utf16.isHigh high = true ∧
        (Utf16.encode text).take n = Utf16.encode front ++ [high] := by
  rcases Utf16.take_encode text n with ⟨front, hfront⟩ | hhigh
  · left
    have hsplit : Utf16.encode text = Utf16.encode front ++ (Utf16.encode text).drop n := by
      rw [← hfront, List.take_append_drop]
    -- decoding both sides shows that `front` begins the text
    have hdecode := Utf16.decode_encode text
    rw [hsplit, Utf16.decode_encode_append, Option.map_eq_some_iff] at hdecode
    obtain ⟨behind, -, htext⟩ := hdecode
    have hlength : n = (Utf16.encode front).length := by
      rw [← hfront, List.length_take, min_eq_left hn]
    refine ⟨front.length, ?_, ?_, ?_⟩
    · rw [List.length_pos_iff]
      rintro rfl
      rw [hlength] at hpos
      exact lt_irrefl 0 hpos
    · rw [← htext, List.length_append]
      omega
    · rw [← htext, List.take_left, hlength]
  · exact .inr hhigh

theorem take_encode_take (rest : List Char) (k : ℕ) :
    (Utf16.encode rest).take (Utf16.encode (rest.take k)).length = Utf16.encode (rest.take k) ∧
      (Utf16.encode rest).drop (Utf16.encode (rest.take k)).length =
        Utf16.encode (rest.drop k) := by
  have hsplit : Utf16.encode rest = Utf16.encode (rest.take k) ++ Utf16.encode (rest.drop k) := by
    rw [← Utf16.encode_append, List.take_append_drop]
  constructor
  · rw [hsplit, List.take_left]
  · rw [hsplit, List.drop_left]

theorem length_encode_take_le (rest : List Char) {j k : ℕ} (hle : j ≤ k) :
    (Utf16.encode (rest.take j)).length ≤ (Utf16.encode (rest.take k)).length := by
  have hfront : rest.take j <+: rest.take k := List.take_prefix_take_left hle
  obtain ⟨behind, hbehind⟩ := hfront
  rw [← hbehind, Utf16.encode_append, List.length_append]
  omega

theorem find_piece (pre rest : List Char) (k : ℕ) :
    find (lines.map Utf16.encode)
        (Utf16.encode pre ++ (Utf16.encode rest).take (Utf16.encode (rest.take k)).length) =
      findChars lines (pre ++ rest.take k) := by
  rw [(take_encode_take rest k).1, ← Utf16.encode_append, find_encode]

/-- A longer piece in units is a longer piece in scalars, or ends inside of a pair. -/
theorem find_none_of_longer {pre rest : List Char} {k n : ℕ}
    (hnone : ∀ j, k < j → j ≤ rest.length → findChars lines (pre ++ rest.take j) = none)
    (hlonger : (Utf16.encode (rest.take k)).length < n) (hn : n ≤ (Utf16.encode rest).length) :
    find (lines.map Utf16.encode) (Utf16.encode pre ++ (Utf16.encode rest).take n) = none := by
  rcases cut_cases (by omega) hn with ⟨j, -, hj, rfl⟩ | ⟨front, high, hhigh, htake⟩
  · rw [find_piece]
    refine hnone j ?_ hj
    by_contra hle
    have hlength := length_encode_take_le rest (not_lt.mp hle)
    omega
  · rw [htake, ← List.append_assoc]
    exact find_of_high hhigh

theorem longest_encode (pre rest : List Char) :
    longest (find (lines.map Utf16.encode)) (Utf16.encode pre) (Utf16.encode rest)
        (Utf16.encode rest).length =
      (longest (findChars lines) pre rest rest.length).map fun found =>
        (found.1, (Utf16.encode (rest.take found.2)).length) := by
  cases hlongest : longest (findChars lines) pre rest rest.length with
  | none =>
      rw [longest_eq_none] at hlongest
      rw [Option.map_none, longest_eq_none]
      intro n hpos hn
      refine find_none_of_longer (k := 0) (fun j hj hle => hlongest j hj hle) ?_ hn
      simpa [Utf16.encode] using hpos
  | some found =>
      obtain ⟨id, k⟩ := found
      obtain ⟨hpos, hle, hid, hnone⟩ := longest_eq_some.mp hlongest
      have hne : rest.take k ≠ [] := take_ne_nil hpos hle
      rw [Option.map_some, longest_eq_some]
      refine ⟨List.length_pos_iff.mpr (encode_eq_nil_iff.not.mpr hne), ?_, ?_, ?_⟩
      · have hall := length_encode_take_le rest hle
        rwa [List.take_length] at hall
      · rw [find_piece]
        exact hid
      · intro n hlonger hn
        exact find_none_of_longer hnone hlonger hn

theorem greedy_nil {α : Type*} (find : List α → Option ℕ) (mark pre : List α) (fuel : ℕ) :
    greedy find mark fuel pre [] = some [] := by
  cases fuel <;> rfl

theorem greedy_encode (lines : List (List Char)) (mark : List Char) {fuel : ℕ} :
    ∀ (pre rest : List Char) {more : ℕ}, rest.length ≤ fuel → (Utf16.encode rest).length ≤ more →
      greedy (find (lines.map Utf16.encode)) (Utf16.encode mark) more (Utf16.encode pre)
          (Utf16.encode rest) =
        greedy (findChars lines) mark fuel pre rest := by
  induction fuel with
  | zero =>
      intro pre rest more hfuel _
      rw [List.length_eq_zero_iff.mp (Nat.le_zero.mp hfuel)]
      exact (greedy_nil _ _ _ more).trans (greedy_nil _ _ _ 0).symm
  | succ fuel ih =>
      intro pre rest more hfuel hmore
      by_cases hrest : rest = []
      · rw [hrest]
        exact (greedy_nil _ _ _ more).trans (greedy_nil _ _ _ (fuel + 1)).symm
      · have hunits : Utf16.encode rest ≠ [] := encode_eq_nil_iff.not.mpr hrest
        have hpositive := List.length_pos_iff.mpr hunits
        obtain ⟨less, rfl⟩ := Nat.exists_eq_succ_of_ne_zero (by omega : more ≠ 0)
        have hempty : (Utf16.encode rest).isEmpty = false := by simpa using hunits
        have hemptyRest : rest.isEmpty = false := by simpa using hrest
        rw [greedy, greedy, hempty, hemptyRest, longest_encode]
        cases hlongest : longest (findChars lines) pre rest rest.length with
        | none => rfl
        | some found =>
            obtain ⟨id, k⟩ := found
            obtain ⟨hpos, hle, -, -⟩ := longest_eq_some.mp hlongest
            simp only [Option.map_some, Bool.false_eq_true, if_false]
            have hdrop := (take_encode_take rest k).2
            have htotal := congrArg List.length hdrop
            rw [List.length_drop] at htotal
            have htaken : 0 < (Utf16.encode (rest.take k)).length := by
              rw [List.length_pos_iff, ne_eq, encode_eq_nil_iff]
              exact take_ne_nil hpos hle
            rw [hdrop, ih mark (rest.drop k) (by rw [List.length_drop]; omega) (by omega)]

theorem wordPiece_encode (unk : ℕ) (word : List Char) :
    wordPiece (find (lines.map Utf16.encode)) (units hashes) unk (Utf16.encode word) =
      wordPiece (findChars lines) hashes.toList unk word := by
  have hgreedy := greedy_encode lines hashes.toList [] word le_rfl le_rfl
  rw [wordPiece, wordPiece, ← hgreedy]
  rfl

/-- The engine, as a tokenizer of scalars. -/
theorem encodeCSharpScalars_eq (data : ScalarData) (lines : List (List Char)) (text : List Char)
    (maxLen : ℕ) :
    encodeCSharpScalars data lines text maxLen = (createChars lines).map fun tokenizer =>
      tokenizer.encode hashes.toList (wordsChars data text) maxLen := by
  have hspecial : ∀ token : String, find (lines.map Utf16.encode) (units token) =
      findChars lines token.toList := fun token => find_encode lines token.toList
  have hpieces : ∀ unk, (wordsChars data text).map (fun word =>
      wordPiece (find (lines.map Utf16.encode)) (units hashes) unk (Utf16.encode word)) =
      (wordsChars data text).map (wordPiece (findChars lines) hashes.toList unk) := fun unk =>
    List.map_congr_left fun word _ => wordPiece_encode unk word
  unfold encodeCSharpScalars encodeEngine create createChars
  rw [hspecial, hspecial, hspecial, hspecial, basicTokenize_encode]
  cases findChars lines "[CLS]".toList with
  | none => rfl
  | some clsId =>
      cases findChars lines "[SEP]".toList with
      | none => rfl
      | some sepId =>
          cases findChars lines "[UNK]".toList with
          | none => rfl
          | some unkId =>
              cases findChars lines "[PAD]".toList with
              | none => rfl
              | some padId =>
                  have hunk := hpieces unkId
                  simp only [Option.bind_eq_bind, Option.bind_some, Option.map_some,
                    Tokenizer.encode, Tokenizer.pieces, List.map_map, Function.comp_def]
                  rw [wordsChars] at hunk
                  rw [hunk]
                  rfl

end Pieces

/-! ## Where the ports agree -/

/-- What the Swift port looks up: the special tokens and the pieces of the words. -/
def IsKey (data : ScalarData) (text key : List Char) : Prop :=
  (∃ token ∈ specials, key = token.toList) ∨
    ∃ word ∈ wordsSwift data text, ∃ before piece after,
      word = before ++ (piece ++ after) ∧ piece ≠ [] ∧ key = keyOf hashes.toList before piece

/-- Canonical equivalence makes no difference to the lookups of a text: no line of the
vocabulary is equivalent to a key without being the key. -/
def Alike (data : ScalarData) (lines : List (List Char)) (text : List Char) : Prop :=
  ∀ key, IsKey data text key → findSwift data lines key = findChars lines key

/-- The same of the special tokens and the words of the text themselves. -/
def Regular (data : ScalarData) (text : List Char) : Prop :=
  ∀ key, IsKey data text key →
    ∀ line ∈ specials.map String.toList ++ (wordsSwift data text ++ wordsChars data text),
      data.canonical line = data.canonical key → line = key

/-- Identical ids and masks, for every vocabulary of non-empty lines with the special tokens on
which the two dictionaries are alike. -/
def Agrees (data : ScalarData) (text : List Char) : Prop :=
  ∀ lines, (∀ line ∈ lines, line ≠ []) → (∀ token ∈ specials, token.toList ∈ lines) →
    Alike data lines text → ∀ maxLen, 2 ≤ maxLen →
      encodeCSharpScalars data lines text maxLen = some (encodeSwift data lines text maxLen)

/-- Beyond the basic plane there is no mark and no white space, and each punctuation mark or
symbol stands apart: with the marks of the basic plane dropped, its neighbours are not
characters of a word to the engine. -/
def Isolated (data : ScalarData) (text : List Char) : Prop :=
  (∀ c ∈ data.normalize text, isSupplementary c = true →
    classOfSwift data c ≠ .mark ∧ classOfSwift data c ≠ .white) ∧
  Apart (classOfChar data) (classOfSwift data)
    (unmarked (classOfChar data) (data.normalize text))

section Swift

variable {data : ScalarData} {text : List Char} {lines : List (List Char)}

theorem isKept_eq_iff (c : Char) :
    isKept (classOfChar data) c = isKept (classOfSwift data) c ↔
      (isSupplementary c = true → classOfSwift data c ≠ .mark ∧ classOfSwift data c ≠ .white) := by
  by_cases hc : isSupplementary c = true
  · have hchar : classOfChar data c = .ordinary := if_pos hc
    simp only [isKept, hchar, hc, true_imp_iff]
    cases classOfSwift data c <;> simp
  · have hchar : classOfChar data c = classOfSwift data c := if_neg hc
    simp [isKept, hchar, hc]

theorem wordsChars_eq_iff :
    wordsChars data text = wordsSwift data text ↔ Isolated data text := by
  have hcoarse : ∀ c ∈ data.normalize text,
      classOfChar data c = classOfSwift data c ∨ classOfChar data c = .ordinary := by
    intro c _
    unfold classOfChar
    split_ifs
    · exact .inr rfl
    · exact .inl rfl
  rw [wordsChars, wordsSwift, basicTokenize_eq_iff hcoarse, Isolated]
  simp only [isKept_eq_iff]

theorem findChars_of_mem {key : List Char} (hmem : key ∈ lines) :
    ∃ id, findChars lines key = some id :=
  exists_lookup ⟨key, hmem, decide_eq_true rfl⟩

/-- Where the dictionaries are alike, the Swift port is the tokenizer of scalars over its own
words. -/
theorem encodeSwift_eq (hspecials : ∀ token ∈ specials, token.toList ∈ lines)
    (halike : Alike data lines text) :
    ∃ tokenizer, createChars lines = some tokenizer ∧ tokenizer.find = findChars lines ∧
      ∀ maxLen, encodeSwift data lines text maxLen =
        tokenizer.encode hashes.toList (wordsSwift data text) maxLen := by
  have hspecial : ∀ token ∈ specials, ∃ id, findChars lines token.toList = some id ∧
      findSwift data lines token.toList = some id := by
    intro token htoken
    obtain ⟨id, hid⟩ := findChars_of_mem (hspecials token htoken)
    exact ⟨id, hid, (halike _ (.inl ⟨token, htoken, rfl⟩)).trans hid⟩
  obtain ⟨clsId, hcls, hclsSwift⟩ := hspecial "[CLS]" (by simp [specials])
  obtain ⟨sepId, hsep, hsepSwift⟩ := hspecial "[SEP]" (by simp [specials])
  obtain ⟨unkId, hunk, hunkSwift⟩ := hspecial "[UNK]" (by simp [specials])
  obtain ⟨padId, hpad, hpadSwift⟩ := hspecial "[PAD]" (by simp [specials])
  refine ⟨⟨clsId, sepId, unkId, padId, findChars lines⟩, ?_, rfl, ?_⟩
  · rw [createChars, hcls, hsep, hunk, hpad]
    rfl
  · intro maxLen
    have hpieces :
        (wordsSwift data text).map (wordPiece (findSwift data lines) hashes.toList unkId) =
        (wordsSwift data text).map (wordPiece (findChars lines) hashes.toList unkId) := by
      refine List.map_congr_left fun word hword => wordPiece_congr unkId ?_
      intro before piece after hsplit hpiece
      exact halike _ (.inr ⟨word, hword, before, piece, after, hsplit, hpiece, rfl⟩)
    simp only [encodeSwift, createSwift, Tokenizer.encode, Tokenizer.finish, Tokenizer.pieces,
      hclsSwift, hsepSwift, hunkSwift, hpadSwift, Option.getD_some, hpieces]

/-- The vocabulary of the special tokens and all words of a text. -/
def linesOfText (data : ScalarData) (text : List Char) : List (List Char) :=
  specials.map String.toList ++ (wordsSwift data text ++ wordsChars data text)

theorem linesOfText_ne_nil : ∀ line ∈ linesOfText data text, line ≠ [] := by
  have hwords : ∀ (classOf : Char → CharClass) word,
      word ∈ basicTokenize classOf (data.normalize text) → word ≠ [] := by
    intro classOf word hword
    rw [basicTokenize_eq] at hword
    exact split_ne_nil word hword
  have htokens : ∀ line ∈ specials.map String.toList, line ≠ [] := by decide
  intro line hline
  rcases List.mem_append.mp hline with htoken | hword
  · exact htokens line htoken
  · rcases List.mem_append.mp hword with hswift | hchars
    · exact hwords _ line hswift
    · exact hwords _ line hchars

theorem alike_linesOfText (hregular : Regular data text) :
    Alike data (linesOfText data text) text := by
  intro key hkey
  have hcongr : findSwift data ((linesOfText data text).map id) key =
      findChars (linesOfText data text) key := by
    refine lookup_congr fun line hline => ?_
    rw [id, decide_eq_decide]
    constructor
    · exact fun hsame => hregular key hkey line hline hsame.2
    · rintro rfl
      exact ⟨by simpa using linesOfText_ne_nil line hline, rfl⟩
  rwa [List.map_id] at hcongr

theorem agrees_of_words_eq (hwords : wordsChars data text = wordsSwift data text) :
    Agrees data text := by
  intro lines _ hspecials halike maxLen _
  obtain ⟨tokenizer, hcreate, -, hswift⟩ := encodeSwift_eq hspecials halike
  rw [encodeCSharpScalars_eq, hcreate, Option.map_some, hswift, hwords]

theorem words_eq_of_agrees (hregular : Regular data text) (hagrees : Agrees data text) :
    wordsChars data text = wordsSwift data text := by
  have hspecials : ∀ token ∈ specials, token.toList ∈ linesOfText data text := fun token htoken =>
    List.mem_append_left _ (List.mem_map_of_mem htoken)
  have halike := alike_linesOfText hregular
  obtain ⟨tokenizer, hcreate, hfind, hswift⟩ := encodeSwift_eq hspecials halike
  have hknown : ∀ word, word ∈ wordsSwift data text ++ wordsChars data text →
      word ≠ [] ∧ ∃ id, tokenizer.find word = some id := by
    intro word hword
    have hline : word ∈ linesOfText data text := List.mem_append_right _ hword
    rw [hfind]
    exact ⟨linesOfText_ne_nil word hline, findChars_of_mem hline⟩
  have hsame := hagrees (linesOfText data text) linesOfText_ne_nil hspecials halike
    ((wordsChars data text).length + (wordsSwift data text).length + 2) (by omega)
  rw [encodeCSharpScalars_eq, hcreate, Option.map_some, Option.some.injEq, hswift] at hsame
  refine words_eq_of_encode_eq ?_ ?_ ?_ (by omega) (by omega) hsame
  · exact fun word hword => hknown word (List.mem_append_right _ hword)
  · exact fun word hword => hknown word (List.mem_append_left _ hword)
  · intro u v id hu hv
    rw [hfind] at hu hv
    exact eq_of_lookup_eq hu hv

end Swift

/-- The Swift port gives the ids of the engine where the text has no punctuation, symbol, mark
or white space beyond the basic plane but symbols that stand apart; and nowhere else, as far as
the keys of the text are told apart by canonical equivalence. -/
theorem agrees_iff_isolated (data : ScalarData) (text : List Char) :
    (Isolated data text → Agrees data text) ∧
      (Regular data text → (Agrees data text ↔ Isolated data text)) := by
  refine ⟨fun hisolated => agrees_of_words_eq (wordsChars_eq_iff.mpr hisolated), fun hregular => ?_⟩
  constructor
  · intro hagrees
    exact wordsChars_eq_iff.mp (words_eq_of_agrees hregular hagrees)
  · intro hisolated
    exact agrees_of_words_eq (wordsChars_eq_iff.mpr hisolated)

/-- Letters, the space and one symbol beyond the basic plane. -/
def emojiData : ScalarData where
  lower := id
  decompose := id
  category := fun c =>
    if c = Char.ofNat 0x1F600 then .otherSymbol
    else if c = ' ' then .spaceSeparator
    else .lowercaseLetter
  isWhitespace := fun c => c = ' '
  canonical := id

def emojiLines : List (List Char) :=
  specials.map String.toList ++ [['a'], ['b'], [Char.ofNat 0x1F600]]

/-- A symbol between two letters: three words on iOS, one unknown word in the engine. -/
theorem not_identical_emoji :
    encodeCSharpScalars emojiData emojiLines ['a', Char.ofNat 0x1F600, 'b'] 6 =
      some ([2, 1, 3, 0, 0, 0], [1, 1, 1, 0, 0, 0]) ∧
    encodeSwift emojiData emojiLines ['a', Char.ofNat 0x1F600, 'b'] 6 =
      ([2, 4, 6, 5, 3, 0], [1, 1, 1, 1, 1, 0]) ∧
    ¬ ∀ lines, (∀ line ∈ lines, line ≠ []) → (∀ token ∈ specials, token.toList ∈ lines) →
      ∀ maxLen, 2 ≤ maxLen →
        encodeCSharpScalars emojiData lines ['a', Char.ofNat 0x1F600, 'b'] maxLen =
          some (encodeSwift emojiData lines ['a', Char.ofNat 0x1F600, 'b'] maxLen) := by
  have hengine : encodeCSharpScalars emojiData emojiLines ['a', Char.ofNat 0x1F600, 'b'] 6 =
      some ([2, 1, 3, 0, 0, 0], [1, 1, 1, 0, 0, 0]) := by
    decide +kernel
  have hhost : encodeSwift emojiData emojiLines ['a', Char.ofNat 0x1F600, 'b'] 6 =
      ([2, 4, 6, 5, 3, 0], [1, 1, 1, 1, 1, 0]) := by
    decide +kernel
  refine ⟨hengine, hhost, fun hall => ?_⟩
  have hsame := hall emojiLines (by decide) (by decide) 6 (by decide)
  rw [hengine, hhost] at hsame
  exact absurd hsame (by decide)

end WordPieceTokenizer

end NativeInterop
