import NativeInterop.RawHttp
import Mathlib.Tactic

/-!
# The clients of the raw HTTP stream

The iOS client splits the body of `/rag` into lines and skips what it cannot decode; the
Android client has its events parsed and stops at one it cannot decode.  Either stops at
the final token, and takes an orderly end of the body for the end of the answer.

`AsyncLineSequence` ends a line at more characters than an event stream does, and the
server escapes only the control characters among them.  A text with one of the others
reaches the iOS client as several lines, none of which it can decode.
-/

namespace NativeInterop

namespace RawHttp

open ProtoWire

/-! ## Lines of an `AsyncLineSequence` -/

/-- LF, VT, FF, CR, NEL, LINE SEPARATOR and PARAGRAPH SEPARATOR. -/
def isNewline (c : Char) : Bool :=
  c.toNat = 0x0A || c.toNat = 0x0B || c.toNat = 0x0C || c.toNat = 0x0D || c.toNat = 0x85 ||
    c.toNat = 0x2028 || c.toNat = 0x2029

/-- Empty lines are not delivered, so a CRLF is as good as one line end. -/
def flush (line : List Char) : List (List Char) :=
  if line = [] then [] else [line]

/-- The lines of a text, from inside one. -/
def asyncLinesFrom : List Char → List Char → List (List Char)
  | line, [] => flush line
  | line, c :: rest =>
      if isNewline c then flush line ++ asyncLinesFrom [] rest
      else asyncLinesFrom (line ++ [c]) rest

def asyncLines (input : List Char) : List (List Char) :=
  asyncLinesFrom [] input

theorem asyncLinesFrom_plain (line : List Char) {text : List Char}
    (htext : ∀ c ∈ text, isNewline c = false) (rest : List Char) :
    asyncLinesFrom line (text ++ rest) = asyncLinesFrom (line ++ text) rest := by
  induction text generalizing line with
  | nil => simp
  | cons c text ih =>
      rw [List.forall_mem_cons] at htext
      rw [List.cons_append, asyncLinesFrom, htext.1, if_neg (by simp), ih _ htext.2]
      simp

theorem asyncLinesFrom_append (line text rest : List Char) {c : Char} (hc : isNewline c = true) :
    asyncLinesFrom line (text ++ c :: rest) = asyncLinesFrom line text ++ asyncLines rest := by
  induction text generalizing line with
  | nil => simp [asyncLinesFrom, hc, asyncLines]
  | cons d text ih =>
      simp only [List.cons_append, asyncLinesFrom, ih]
      split_ifs with hd
      · rw [List.append_assoc]
      · rfl

/-! ## The iOS client -/

structure RagSSEFrame where
  index : ℤ
  text : String
  isFinal : Bool
  deriving DecidableEq, Repr

/-- The decoder of `RagSSEFrame`, whose index is an `Int` of 64 bits. -/
def decodeFrame (data : List Char) : Option RagSSEFrame := do
  let json ← Json.parse data
  let index ← (json.field "index").bind Json.asInt
  let text ← (json.field "text").bind Json.asString
  let isFinal ← (json.field "final").bind Json.asBool
  if -2 ^ 63 ≤ index ∧ index < 2 ^ 63 then some ⟨index, text, isFinal⟩ else none

def dataMark : List Char := ['d', 'a', 't', 'a', ':', ' ']

/-- What a line comes to; nothing is `continue`. -/
def lineFrame (line : List Char) : Option RagSSEFrame :=
  if dataMark <+: line then decodeFrame (line.drop 6) else none

/-- How the body of the response ends: in order, or with a transport error. -/
inductive Ending where
  | closed
  | lost
  deriving DecidableEq, Repr

inductive Completion where
  | normal
  | failed
  deriving DecidableEq, Repr

def Ending.completion : Ending → Completion
  | .closed => .normal
  | .lost => .failed

/-- What the consumer of an answer gets, and whether the final frame has been decoded. -/
structure Answer (α : Type) where
  items : List α
  sawFinal : Bool
  completion : Completion
  deriving DecidableEq, Repr

def Answer.yield {α : Type} (item : α) (answer : Answer α) : Answer α :=
  { answer with items := item :: answer.items }

/-- The loop of `HTTPRagService.answer`. -/
def answerLoop (ending : Ending) : List (List Char) → Answer String
  | [] => ⟨[], false, ending.completion⟩
  | line :: rest =>
      match lineFrame line with
      | none => answerLoop ending rest
      | some frame =>
          if frame.isFinal then ⟨[], true, .normal⟩
          else (answerLoop ending rest).yield frame.text

def ragAnswer (bytes : Bytes) (ending : Ending) : Option (Answer String) :=
  (ofUtf8 bytes).map fun text => answerLoop ending (asyncLines text.toList)

/-! ## The Android client -/

/-- The callbacks of `HttpClient.stream`, event by event, and `onClosed` or `onFailure` at
the end.  An event that cannot be decoded closes the flow with the exception. -/
def tokenLoop (ending : Ending) : List (List Char) → Answer InferenceToken
  | [] => ⟨[], false, ending.completion⟩
  | data :: rest =>
      match decodeToken data with
      | none => ⟨[], false, .failed⟩
      | some token =>
          if token.isFinal then ⟨[token], true, .normal⟩
          else (tokenLoop ending rest).yield token

def tokenFlow (bytes : Bytes) (ending : Ending) : Option (Answer InferenceToken) :=
  (ofUtf8 bytes).map fun text => tokenLoop ending (EventStream.events text.toList)

/-! ## Texts that break lines -/

/-- The line ends that `JsonString` does not escape. -/
def separates (c : Char) : Bool :=
  c.toNat = 0x85 || c.toNat = 0x2028 || c.toNat = 0x2029

def unbroken (text : String) : Bool :=
  text.toList.all fun c => !separates c

theorem escape_cases (c : Char) :
    (escape c = [c] ∧ c ≠ '"' ∧ c ≠ '\\' ∧ 0x20 ≤ c.toNat) ∨
      (∃ marks, escape c = '\\' :: marks ∧ ∀ d ∈ marks, d.toNat < 0x80) := by
  have hhex : ∀ n < 16, (Nat.digitChar n).toNat < 0x80 := by decide
  unfold escape
  split_ifs with hquote hslash hfeed hreturn htab hcontrol
  · exact .inr ⟨_, rfl, by simp⟩
  · exact .inr ⟨_, rfl, by simp⟩
  · exact .inr ⟨_, rfl, by simp⟩
  · exact .inr ⟨_, rfl, by simp⟩
  · exact .inr ⟨_, rfl, by simp⟩
  · refine .inr ⟨_, rfl, ?_⟩
    intro d hmem
    simp only [Json.hex4, List.mem_cons, List.not_mem_nil, or_false] at hmem
    rcases hmem with rfl | rfl | rfl | rfl | rfl
    · decide
    · exact hhex _ (Nat.mod_lt _ (by decide))
    · exact hhex _ (Nat.mod_lt _ (by decide))
    · exact hhex _ (Nat.mod_lt _ (by decide))
    · exact hhex _ (Nat.mod_lt _ (by decide))
  · exact .inl ⟨rfl, hquote, hslash, Nat.not_lt.mp hcontrol⟩

theorem isNewline_of_separates {c : Char} (hc : separates c = true) : isNewline c = true := by
  simp only [separates, Bool.or_eq_true, decide_eq_true_eq] at hc
  simp only [isNewline, Bool.or_eq_true, decide_eq_true_eq]
  omega

theorem isNewline_eq_false {c : Char} (hprintable : 0x20 ≤ c.toNat)
    (hc : separates c = false) : isNewline c = false := by
  simp only [separates, Bool.or_eq_false_iff, decide_eq_false_iff_not] at hc
  simp only [isNewline, Bool.or_eq_false_iff, decide_eq_false_iff_not]
  omega

theorem separates_eq_false_of_lt {c : Char} (hascii : c.toNat < 0x80) : separates c = false := by
  simp only [separates, Bool.or_eq_false_iff, decide_eq_false_iff_not]
  omega

theorem escape_separator {c : Char} (hc : separates c = true) : escape c = [c] := by
  simp only [separates, Bool.or_eq_true, decide_eq_true_eq] at hc
  exact escape_large (by omega)

theorem escape_newlineFree {c : Char} (hc : separates c = false) :
    ∀ d ∈ escape c, isNewline d = false := by
  intro d hmem
  have hprintable := escape_printable c d hmem
  apply isNewline_eq_false hprintable
  rcases escape_cases c with ⟨heq, -⟩ | ⟨marks, heq, hmarks⟩
  · rw [heq, List.mem_singleton] at hmem
    rw [hmem]
    exact hc
  · rw [heq] at hmem
    apply separates_eq_false_of_lt
    rcases List.mem_cons.mp hmem with rfl | hmark
    · decide
    · exact hmarks d hmark

theorem integer_newlineFree (n : ℤ) : ∀ d ∈ Json.integer n, isNewline d = false := by
  have hdigit : ∀ k : ℕ, ∀ d ∈ Nat.toDigits 10 k, isNewline d = false := by
    intro k d hmem
    have hdigit := Json.isDigit_of_mem_toDigits hmem
    rw [Char.isDigit_iff_toNat] at hdigit
    have hzero : '0'.toNat = 48 := rfl
    have hnine : '9'.toNat = 57 := rfl
    apply isNewline_eq_false (by omega)
    exact separates_eq_false_of_lt (by omega)
  intro d hmem
  unfold Json.integer at hmem
  split_ifs at hmem
  · rcases List.mem_cons.mp hmem with rfl | hd
    · decide
    · exact hdigit _ d hd
  · exact hdigit _ d hmem

/-! ## The parts of a frame -/

/-- A frame up to the text of the token. -/
def opening (index : BitVec 32) : List Char :=
  dataMark ++ '{' :: (Json.writeMember escape ("index", .int index.toInt) ++
    ',' :: (Json.quote escape "text" ++ [':', '"']))

/-- A frame behind the text of the token, without its line ends. -/
def closing (isFinal : Bool) : List Char :=
  '"' :: ',' :: (Json.writeMember escape ("final", .bool isFinal) ++ ['}'])

def dataLine (token : InferenceToken) : List Char :=
  opening token.index ++ (token.text.toList.flatMap escape ++ closing token.isFinal)

theorem dataLine_eq (token : InferenceToken) :
    dataLine token = dataMark ++ Json.writeObject escape (members token) := by
  simp [dataLine, opening, closing, Json.writeObject, Json.writeMembers, Json.writeMember,
    members, Json.Scalar.write, Json.quote]

theorem sse_eq_dataLine (token : InferenceToken) : sse token = dataLine token ++ ['\n', '\n'] := by
  rw [sse_eq, dataLine_eq]
  rfl

theorem newlineFree_of_all {text : List Char} (hall : (text.all fun d => !isNewline d) = true) :
    ∀ d ∈ text, isNewline d = false := by
  intro d hmem
  have hd := List.all_eq_true.mp hall d hmem
  simpa using hd

theorem opening_newlineFree (index : BitVec 32) : ∀ d ∈ opening index, isNewline d = false := by
  have hfirst : ∀ d ∈ dataMark ++ '{' :: (Json.quote escape "index" ++ [':']),
      isNewline d = false := newlineFree_of_all rfl
  have hlast : ∀ d ∈ ',' :: (Json.quote escape "text" ++ [':', '"']), isNewline d = false :=
    newlineFree_of_all rfl
  have hsplit : opening index =
      (dataMark ++ '{' :: (Json.quote escape "index" ++ [':'])) ++
        (Json.integer index.toInt ++ ',' :: (Json.quote escape "text" ++ [':', '"'])) := by
    simp [opening, Json.writeMember, Json.Scalar.write]
  intro d hmem
  rw [hsplit] at hmem
  rcases List.mem_append.mp hmem with hmem | hmem
  · exact hfirst d hmem
  · rcases List.mem_append.mp hmem with hmem | hmem
    · exact integer_newlineFree _ d hmem
    · exact hlast d hmem

theorem closing_newlineFree (isFinal : Bool) : ∀ d ∈ closing isFinal, isNewline d = false := by
  cases isFinal with
  | false => exact newlineFree_of_all rfl
  | true => exact newlineFree_of_all rfl

theorem asyncLines_sse (token : InferenceToken) (rest : List Char) :
    asyncLines (sse token ++ rest) = asyncLines (dataLine token) ++ asyncLines rest := by
  have hsplit : sse token ++ rest = dataLine token ++ '\n' :: ([] ++ '\n' :: rest) := by
    simp [sse_eq_dataLine]
  have hfeed : isNewline '\n' = true := rfl
  rw [hsplit, asyncLines, asyncLinesFrom_append _ _ _ hfeed]
  rw [asyncLines, asyncLinesFrom_append _ _ _ hfeed]
  rfl

theorem asyncLines_stream (tokens : List InferenceToken) :
    asyncLines (tokens.flatMap sse) = tokens.flatMap fun token => asyncLines (dataLine token) := by
  induction tokens with
  | nil => rfl
  | cons token tokens ih => rw [List.flatMap_cons, asyncLines_sse, ih, List.flatMap_cons]

/-! ## What a line of a frame is decoded to -/

theorem lineFrame_mark (data : List Char) : lineFrame (dataMark ++ data) = decodeFrame data := by
  rw [lineFrame, if_pos (List.prefix_append _ _)]
  rfl

theorem flush_filterMap (line : List Char) :
    (flush line).filterMap lineFrame = (lineFrame line).toList := by
  unfold flush
  split_ifs with hempty
  · rw [hempty]
    rfl
  · cases hframe : lineFrame line <;> simp [hframe]

def frameOf (token : InferenceToken) : RagSSEFrame where
  index := token.index.toInt
  text := token.text
  isFinal := token.isFinal

theorem decodeFrame_writeObject (token : InferenceToken) :
    decodeFrame (Json.writeObject escape (members token)) = some (frameOf token) := by
  have hlow := token.index.le_toInt
  have hhigh := token.index.toInt_lt
  simp [decodeFrame, Json.parse_writeObject escape_escaping, members, Json.field,
    Json.Scalar.json, Json.asInt_integer, Json.asString, Json.asBool, frameOf]
  constructor <;> omega

/-- An unbroken frame is one line, and is decoded to its token. -/
theorem frames_unbroken {token : InferenceToken} (hunbroken : unbroken token.text = true) :
    (asyncLines (dataLine token)).filterMap lineFrame = [frameOf token] := by
  have htext : ∀ d ∈ token.text.toList.flatMap escape, isNewline d = false := by
    intro d hmem
    obtain ⟨c, hc, hd⟩ := List.mem_flatMap.mp hmem
    have hplain := List.all_eq_true.mp hunbroken c hc
    exact escape_newlineFree (by simpa using hplain) d hd
  have hline : ∀ d ∈ dataLine token, isNewline d = false := by
    intro d hmem
    rcases List.mem_append.mp hmem with hmem | hmem
    · exact opening_newlineFree _ d hmem
    · rcases List.mem_append.mp hmem with hmem | hmem
      · exact htext d hmem
      · exact closing_newlineFree _ d hmem
  have hlines : asyncLines (dataLine token) = flush (dataLine token) := by
    have hplain := asyncLinesFrom_plain [] hline []
    rw [List.append_nil] at hplain
    rw [asyncLines, hplain]
    rfl
  rw [hlines, flush_filterMap, dataLine_eq, lineFrame_mark, decodeFrame_writeObject]
  rfl

/-! ## What a broken line is decoded to -/

/-- What stands behind a stretch of text on its line: nothing, or the rest of the frame. -/
def IsTail (tail : List Char) : Prop :=
  tail = [] ∨ ∃ isFinal, tail = closing isFinal

theorem IsTail.skipSpace {tail : List Char} (htail : IsTail tail) : Json.skipSpace tail = tail := by
  rcases htail with rfl | ⟨isFinal, rfl⟩
  · rfl
  · exact Json.skipSpace_cons _ rfl

theorem IsTail.head {tail : List Char} (htail : IsTail tail) {c : Char} {rest : List Char}
    (hcons : tail = c :: rest) : c = '"' := by
  rcases htail with rfl | ⟨isFinal, rfl⟩
  · cases hcons
  · exact (List.cons.inj hcons).1.symm

/-- An unescaped mark in a text is a character of the text. -/
theorem escaped_cons {text tail rest : List Char} {mark : Char} (htail : IsTail tail)
    (hquote : mark ≠ '"') (hslash : mark ≠ '\\')
    (hcons : text.flatMap escape ++ tail = mark :: rest) :
    ∃ behind : List Char, rest = behind.flatMap escape ++ tail := by
  cases text with
  | nil => exact absurd (htail.head hcons) hquote
  | cons c text =>
      rw [List.flatMap_cons, List.append_assoc] at hcons
      rcases escape_cases c with ⟨hplain, -⟩ | ⟨marks, hescaped, -⟩
      · rw [hplain] at hcons
        exact ⟨text, (List.cons.inj hcons).2.symm⟩
      · rw [hescaped] at hcons
        exact absurd (List.cons.inj hcons).1.symm hslash

theorem escaped_append {text tail rest : List Char} (marks : List Char) (htail : IsTail tail)
    (hmarks : ∀ mark ∈ marks, mark ≠ '"' ∧ mark ≠ '\\')
    (happend : text.flatMap escape ++ tail = marks ++ rest) :
    ∃ behind : List Char, rest = behind.flatMap escape ++ tail := by
  induction marks generalizing text with
  | nil => exact ⟨text, happend.symm⟩
  | cons mark marks ih =>
      obtain ⟨⟨hquote, hslash⟩, hmarks⟩ := List.forall_mem_cons.mp hmarks
      obtain ⟨behind, hbehind⟩ := escaped_cons htail hquote hslash happend
      exact ih hmarks hbehind.symm

theorem skipSpace_escaped (text : List Char) {tail : List Char} (htail : IsTail tail) :
    ∃ behind : List Char,
      Json.skipSpace (text.flatMap escape ++ tail) = behind.flatMap escape ++ tail := by
  induction text with
  | nil => exact ⟨[], htail.skipSpace⟩
  | cons c text ih =>
      by_cases hspace : c = ' '
      · subst hspace
        exact ih
      · refine ⟨c :: text, ?_⟩
        rw [List.flatMap_cons, List.append_assoc]
        rcases escape_cases c with ⟨hplain, -, -, hprintable⟩ | ⟨marks, hescaped, -⟩
        · have hother : Json.isSpace c = false := by
            have hne : ∀ d : Char, d.toNat < 0x20 → c ≠ d := by
              rintro d hd rfl
              omega
            simp [Json.isSpace, hspace, hne '\t' (by decide), hne '\n' (by decide),
              hne '\r' (by decide)]
          rw [hplain]
          exact Json.skipSpace_cons _ hother
        · rw [hescaped]
          exact Json.skipSpace_cons _ rfl

/-- A quote that is not escaped belongs to the rest of the frame. -/
theorem escaped_quote {text tail rest : List Char}
    (hcons : text.flatMap escape ++ tail = '"' :: rest) : tail = '"' :: rest := by
  cases text with
  | nil => exact hcons
  | cons c text =>
      rw [List.flatMap_cons, List.append_assoc] at hcons
      rcases escape_cases c with ⟨hplain, hquote, -⟩ | ⟨marks, hescaped, -⟩
      · rw [hplain] at hcons
        exact absurd (List.cons.inj hcons).1 hquote
      · rw [hescaped] at hcons
        exact absurd (List.cons.inj hcons).1 (by decide)

/-- The text of a token holds no member of an object, whatever stands behind it. -/
theorem decodeFrame_escaped (text : List Char) {tail : List Char} (htail : IsTail tail) :
    decodeFrame (text.flatMap escape ++ tail) = none := by
  by_contra hsome
  obtain ⟨frame, hframe⟩ := Option.ne_none_iff_exists'.mp hsome
  simp only [decodeFrame, Option.bind_eq_bind, Option.bind_eq_some_iff] at hframe
  obtain ⟨json, hparse, index, ⟨value, hfield, -⟩, -⟩ := hframe
  obtain ⟨rest, inner, name, behind, hbrace, hquote, hname, hcolon⟩ :=
    Json.exists_key_of_field hparse hfield
  obtain ⟨unspaced, hunspaced⟩ := skipSpace_escaped text htail
  rw [hunspaced] at hbrace
  obtain ⟨inside, rfl⟩ := escaped_cons htail (by decide) (by decide) hbrace
  obtain ⟨unspaced', hunspaced'⟩ := skipSpace_escaped inside htail
  rw [hunspaced'] at hquote
  have hclosing := escaped_quote hquote
  rcases htail with rfl | ⟨isFinal, rfl⟩
  · cases hclosing
  · cases (List.cons.inj hclosing).2
    cases isFinal with
    | false =>
        cases hname
        revert hcolon
        decide
    | true =>
        cases hname
        revert hcolon
        decide

theorem lineFrame_escaped (text : List Char) {tail : List Char} (htail : IsTail tail) :
    lineFrame (text.flatMap escape ++ tail) = none := by
  unfold lineFrame
  split_ifs with hmark
  · obtain ⟨data, hdata⟩ := hmark
    obtain ⟨behind, rfl⟩ := escaped_append dataMark htail (by simp [dataMark]) hdata.symm
    rw [← hdata]
    exact decodeFrame_escaped behind htail
  · rfl

theorem lineFrame_opening (index : BitVec 32) (text : List Char) :
    lineFrame (opening index ++ text.flatMap escape) = none := by
  have hsplit : opening index ++ text.flatMap escape =
      dataMark ++ '{' :: (Json.writeMember escape ("index", .int index.toInt) ++
        ',' :: (Json.quote escape "text" ++ ':' :: '"' :: text.flatMap escape)) := by
    simp [opening]
  rw [hsplit, lineFrame_mark, decodeFrame, Json.parse_unterminated escape_escaping]
  rfl

/-- Behind a separator no line of the frame is decoded. -/
theorem frames_behind (line text : List Char) (isFinal : Bool) :
    (asyncLinesFrom (line.flatMap escape) (text.flatMap escape ++ closing isFinal)).filterMap
      lineFrame = [] := by
  induction text generalizing line with
  | nil =>
      have hclosing := asyncLinesFrom_plain (line.flatMap escape) (closing_newlineFree isFinal) []
      have hlast := lineFrame_escaped line (Or.inr ⟨isFinal, rfl⟩)
      rw [List.append_nil] at hclosing
      rw [List.flatMap_nil, List.nil_append, hclosing, asyncLinesFrom, flush_filterMap, hlast]
      rfl
  | cons c text ih =>
      rw [List.flatMap_cons, List.append_assoc]
      by_cases hc : separates c = true
      · have hline := lineFrame_escaped line (Or.inl rfl)
        rw [List.append_nil] at hline
        rw [escape_separator hc, List.singleton_append, asyncLinesFrom,
          if_pos (isNewline_of_separates hc), List.filterMap_append, flush_filterMap, hline]
        exact ih []
      · have hplain := escape_newlineFree (Bool.eq_false_iff.mpr hc)
        have hmore : line.flatMap escape ++ escape c = (line ++ [c]).flatMap escape := by simp
        rw [asyncLinesFrom_plain _ hplain, hmore]
        exact ih (line ++ [c])

theorem frames_opened (index : BitVec 32) (line : List Char) {text : List Char} (isFinal : Bool)
    (hbroken : ∃ c ∈ text, separates c = true) :
    (asyncLinesFrom (opening index ++ line.flatMap escape)
      (text.flatMap escape ++ closing isFinal)).filterMap lineFrame = [] := by
  induction text generalizing line with
  | nil => simp at hbroken
  | cons c text ih =>
      rw [List.flatMap_cons, List.append_assoc]
      by_cases hc : separates c = true
      · rw [escape_separator hc, List.singleton_append, asyncLinesFrom,
          if_pos (isNewline_of_separates hc), List.filterMap_append, flush_filterMap,
          lineFrame_opening]
        exact frames_behind [] text isFinal
      · have hplain := escape_newlineFree (Bool.eq_false_iff.mpr hc)
        have hmore : opening index ++ line.flatMap escape ++ escape c =
            opening index ++ (line ++ [c]).flatMap escape := by
          simp
        have hrest : ∃ d ∈ text, separates d = true := by
          simpa [hc] using hbroken
        rw [asyncLinesFrom_plain _ hplain, hmore]
        exact ih (line ++ [c]) hrest

theorem frames_broken {token : InferenceToken} (hbroken : unbroken token.text = false) :
    (asyncLines (dataLine token)).filterMap lineFrame = [] := by
  have hseparator : ∃ c ∈ token.text.toList, separates c = true := by
    simpa [unbroken] using hbroken
  have hopened := frames_opened token.index [] token.isFinal hseparator
  rw [List.flatMap_nil, List.append_nil] at hopened
  have hopening := asyncLinesFrom_plain [] (opening_newlineFree token.index)
    (token.text.toList.flatMap escape ++ closing token.isFinal)
  rw [asyncLines, dataLine, hopening]
  exact hopened

def legible (tokens : List InferenceToken) : List InferenceToken :=
  tokens.filter fun token => unbroken token.text

/-- The client decodes the frames with unbroken texts, and no others. -/
theorem frames_stream (tokens : List InferenceToken) :
    (asyncLines (tokens.flatMap sse)).filterMap lineFrame =
      (legible tokens).map frameOf := by
  rw [asyncLines_stream]
  induction tokens with
  | nil => rfl
  | cons token tokens ih =>
      rw [List.flatMap_cons, List.filterMap_append, ih]
      by_cases hunbroken : unbroken token.text = true
      · simp [frames_unbroken hunbroken, legible, hunbroken]
      · simp [frames_broken (Bool.eq_false_iff.mpr hunbroken), legible, hunbroken]

/-! ## The answer of the iOS client -/

def RagSSEFrame.goesOn (frame : RagSSEFrame) : Bool :=
  !frame.isFinal

def goesOn (token : InferenceToken) : Bool :=
  !token.isFinal

theorem answerLoop_eq (ending : Ending) (lines : List (List Char)) :
    answerLoop ending lines =
      { items := ((lines.filterMap lineFrame).takeWhile RagSSEFrame.goesOn).map RagSSEFrame.text
        sawFinal := (lines.filterMap lineFrame).any RagSSEFrame.isFinal
        completion :=
          if (lines.filterMap lineFrame).any RagSSEFrame.isFinal then .normal
          else ending.completion } := by
  induction lines with
  | nil => rfl
  | cons line lines ih =>
      rw [answerLoop, ih]
      cases hframe : lineFrame line with
      | none => simp [hframe]
      | some frame =>
          cases hfinal : frame.isFinal with
          | false => simp [hframe, hfinal, Answer.yield, RagSSEFrame.goesOn]
          | true => simp [hframe, hfinal, RagSSEFrame.goesOn]

/-- What the client makes of the frames of a list of tokens. -/
theorem ragAnswer_writeStream (tokens : List InferenceToken) (ending : Ending) :
    ragAnswer (writeStream tokens) ending =
      some
        { items := ((legible tokens).takeWhile goesOn).map InferenceToken.text
          sawFinal := (legible tokens).any InferenceToken.isFinal
          completion :=
            if (legible tokens).any InferenceToken.isFinal
            then .normal else ending.completion } := by
  have hgoesOn : RagSSEFrame.goesOn ∘ frameOf = goesOn := rfl
  have hisFinal : RagSSEFrame.isFinal ∘ frameOf = InferenceToken.isFinal := rfl
  have htext : RagSSEFrame.text ∘ frameOf = InferenceToken.text := rfl
  rw [ragAnswer, writeStream_eq, ofUtf8_utf8, Option.map_some, String.toList_ofList,
    answerLoop_eq, frames_stream, List.takeWhile_map, List.map_map, List.any_map, hgoesOn,
    hisFinal, htext]

theorem unbroken_of_mem_legible {tokens : List InferenceToken} {token : InferenceToken}
    (hmem : token ∈ legible tokens) : unbroken token.text = true :=
  (List.mem_filter.mp hmem).2

theorem legible_eq_self {tokens : List InferenceToken}
    (hunbroken : ∀ token ∈ tokens, unbroken token.text = true) : legible tokens = tokens :=
  List.filter_eq_self.mpr hunbroken

/-- Before the final token the client goes by what it can decode; a final token it cannot
decode does not stop it. -/
theorem takeWhile_legible (tokens : List InferenceToken) :
    (legible tokens).takeWhile goesOn =
      legible (tokens.takeWhile goesOn) ++
        (legible (tokens.dropWhile goesOn)).takeWhile goesOn := by
  have hsplit : legible tokens =
      legible (tokens.takeWhile goesOn) ++ legible (tokens.dropWhile goesOn) := by
    have hfilter := List.filter_append (p := fun token => unbroken token.text)
      (tokens.takeWhile goesOn) (tokens.dropWhile goesOn)
    rw [List.takeWhile_append_dropWhile] at hfilter
    exact hfilter
  have hgoesOn : ∀ token ∈ legible (tokens.takeWhile goesOn), goesOn token = true := by
    intro token hmem
    exact List.mem_takeWhile_imp (List.mem_filter.mp hmem).1
  rw [hsplit, List.takeWhile_append_of_pos hgoesOn]

theorem takeWhile_goesOn_eq_nil_iff (tokens : List InferenceToken) :
    tokens.takeWhile goesOn = [] ↔ ∀ token ∈ tokens.head?, token.isFinal = true := by
  cases tokens with
  | nil => simp
  | cons token tokens => simp [goesOn]

theorem texts_eq_iff (tokens : List InferenceToken) :
    ((legible tokens).takeWhile goesOn).map InferenceToken.text =
        (tokens.takeWhile goesOn).map InferenceToken.text ↔
      (∀ token ∈ tokens.takeWhile goesOn, unbroken token.text = true) ∧
        ∀ token ∈ (legible (tokens.dropWhile goesOn)).head?, token.isFinal = true := by
  rw [← takeWhile_goesOn_eq_nil_iff, takeWhile_legible]
  constructor
  · intro htexts
    have hunbroken : ∀ token ∈ tokens.takeWhile goesOn, unbroken token.text = true := by
      intro token hmem
      have htext := List.mem_map_of_mem (f := InferenceToken.text) hmem
      rw [← htexts] at htext
      obtain ⟨other, hother, heq⟩ := List.mem_map.mp htext
      rw [← heq]
      rcases List.mem_append.mp hother with hother | hother
      · exact unbroken_of_mem_legible hother
      · exact unbroken_of_mem_legible ((List.takeWhile_subset _) hother)
    have hlength := congrArg List.length htexts
    rw [legible_eq_self hunbroken, List.length_map, List.length_map, List.length_append] at hlength
    exact ⟨hunbroken, List.length_eq_zero_iff.mp (by omega)⟩
  · rintro ⟨hunbroken, hend⟩
    rw [hend, legible_eq_self hunbroken, List.append_nil]

/-- A token is written as one data line that decodes to it.  The client of a list of tokens
yields the texts before the final one if none of these has a separator in it, and if, should
the final one have one, the next frame it can decode is final as well; and only then. -/
theorem sse_roundTrip_iff (token : InferenceToken) (tokens : List InferenceToken)
    (ending : Ending) :
    (∃ data, sse token = dataMark ++ data ++ ['\n', '\n'] ∧
      (∀ c ∈ data, c ≠ '\n' ∧ c ≠ '\r') ∧ decodeToken data = some token) ∧
    ((∃ answer, ragAnswer (writeStream tokens) ending = some answer ∧
        answer.items = (tokens.takeWhile goesOn).map InferenceToken.text) ↔
      (∀ token ∈ tokens.takeWhile goesOn, unbroken token.text = true) ∧
        ∀ token ∈ (legible (tokens.dropWhile goesOn)).head?, token.isFinal = true) := by
  constructor
  · exact ⟨_, sse_eq token, writeObject_oneLine token, decodeToken_writeObject token⟩
  · simp only [ragAnswer_writeStream, Option.some.injEq, exists_eq_left']
    exact texts_eq_iff tokens

/-- A text with a LINE SEPARATOR, and the final marker. -/
def separated : List InferenceToken :=
  [⟨0, "a\u2028b", false⟩, .final 1]

/-- The client ends normally without the one text there is. -/
theorem ragAnswer_separated :
    ragAnswer (writeStream separated) .closed = some ⟨[], true, .normal⟩ ∧
      (separated.takeWhile goesOn).map InferenceToken.text = ["a\u2028b"] := by
  have hlegible : legible separated = [.final 1] := by decide
  rw [ragAnswer_writeStream, hlegible]
  decide

/-! ## Truncated streams -/

theorem tokenLoop_map (ending : Ending) (tokens : List InferenceToken) :
    tokenLoop ending (tokens.map fun token => Json.writeObject escape (members token)) =
      { items := tokens.takeWhile goesOn ++ (tokens.dropWhile goesOn).take 1
        sawFinal := tokens.any InferenceToken.isFinal
        completion :=
          if tokens.any InferenceToken.isFinal then .normal else ending.completion } := by
  induction tokens with
  | nil => rfl
  | cons token tokens ih =>
      simp only [List.map_cons, tokenLoop, decodeToken_writeObject, ih]
      cases hfinal : token.isFinal with
      | false => simp [hfinal, goesOn, Answer.yield]
      | true => simp [hfinal, goesOn]

theorem tokenFlow_writeStream (tokens : List InferenceToken) (ending : Ending) :
    tokenFlow (writeStream tokens) ending =
      some
        { items := tokens.takeWhile goesOn ++ (tokens.dropWhile goesOn).take 1
          sawFinal := tokens.any InferenceToken.isFinal
          completion :=
            if tokens.any InferenceToken.isFinal then .normal else ending.completion } := by
  rw [tokenFlow, writeStream_eq, ofUtf8_utf8, Option.map_some, String.toList_ofList,
    events_stream, tokenLoop_map]

/-- What the handler has written after `k` frames.  A fault of the engine ends its loop as the
final marker does, and either way it closes the connection. -/
def handleClient (generation : Generation) (k : ℕ) : Bytes :=
  writeStream ((InferenceOrchestrator.run generation).take k)

/-- A normal end tells that the final frame has been decoded. -/
def Answer.Honest {α : Type} (answer : Answer α) : Prop :=
  answer.completion = .normal → answer.sawFinal = true

theorem any_isFinal_run (generation : Generation) (k : ℕ) :
    ((InferenceOrchestrator.run generation).take k).any InferenceToken.isFinal = true ↔
      generation.faults = false ∧ generation.fragments.length < k := by
  have htokens : ∀ token ∈ (InferenceOrchestrator.tokens generation.fragments).take k,
      token.isFinal ≠ true := by
    intro token hmem
    simp [InferenceOrchestrator.isFinal_of_mem_tokens (List.mem_of_mem_take hmem)]
  have hlength : (InferenceOrchestrator.tokens generation.fragments).length =
      generation.fragments.length := by
    simp [InferenceOrchestrator.tokens]
  rw [InferenceOrchestrator.run_eq, List.take_append, List.any_append,
    List.any_eq_false.mpr htokens, Bool.false_or, hlength]
  cases generation.faults with
  | true => simp
  | false =>
      by_cases hreached : generation.fragments.length < k
      · obtain ⟨rest, hrest⟩ : ∃ rest, k - generation.fragments.length = rest + 1 :=
          ⟨k - generation.fragments.length - 1, by omega⟩
        simp [hrest, hreached, InferenceToken.final]
      · have hnone : k - generation.fragments.length = 0 := by omega
        simp [hnone, hreached]

/-- The final marker has no text to break. -/
theorem unbroken_of_isFinal {generation : Generation} {token : InferenceToken}
    (hmem : token ∈ InferenceOrchestrator.run generation) (hfinal : token.isFinal = true) :
    unbroken token.text = true := by
  rw [InferenceOrchestrator.run_eq] at hmem
  rcases List.mem_append.mp hmem with hmem | hmem
  · rw [InferenceOrchestrator.isFinal_of_mem_tokens hmem] at hfinal
    cases hfinal
  · split_ifs at hmem
    · cases hmem
    · rw [List.mem_singleton.mp hmem]
      rfl

theorem any_isFinal_legible {tokens : List InferenceToken}
    (hunbroken : ∀ token ∈ tokens, token.isFinal = true → unbroken token.text = true) :
    (legible tokens).any InferenceToken.isFinal = tokens.any InferenceToken.isFinal := by
  rw [Bool.eq_iff_iff, List.any_eq_true, List.any_eq_true]
  constructor
  · rintro ⟨token, hmem, hfinal⟩
    exact ⟨token, (List.mem_filter.mp hmem).1, hfinal⟩
  · rintro ⟨token, hmem, hfinal⟩
    exact ⟨token, List.mem_filter.mpr ⟨hmem, hunbroken token hmem hfinal⟩, hfinal⟩

/-- Both clients tell a truncated answer from a complete one only if the connection is lost;
one that is closed before the final frame looks like the end of the answer. -/
theorem clients_honest_iff (generation : Generation) (k : ℕ) (ending : Ending) :
    (∃ flow answer, tokenFlow (handleClient generation k) ending = some flow ∧
        ragAnswer (handleClient generation k) ending = some answer ∧
        flow.Honest ∧ answer.Honest) ↔
      ending = .lost ∨ (generation.faults = false ∧ generation.fragments.length < k) := by
  have hfinal := any_isFinal_run generation k
  have hlegible : (legible ((InferenceOrchestrator.run generation).take k)).any
      InferenceToken.isFinal =
        ((InferenceOrchestrator.run generation).take k).any InferenceToken.isFinal := by
    apply any_isFinal_legible
    intro token hmem
    exact unbroken_of_isFinal (List.mem_of_mem_take hmem)
  simp only [handleClient, tokenFlow_writeStream, ragAnswer_writeStream, hlegible,
    Option.some.injEq, exists_and_left, exists_eq_left', Answer.Honest, and_self]
  rw [← hfinal]
  cases ((InferenceOrchestrator.run generation).take k).any InferenceToken.isFinal with
  | true => simp
  | false => cases ending <;> simp [Ending.completion]

/-- A fault behind the first fragment. -/
def faulting : Generation where
  fragments := ["a"]
  faults := true

/-- Both clients end normally, and neither has seen the final frame. -/
theorem not_honest_faulting :
    ∃ flow answer, tokenFlow (handleClient faulting 1) .closed = some flow ∧
      ragAnswer (handleClient faulting 1) .closed = some answer ∧
      flow.items = [⟨0, "a", false⟩] ∧ answer.items = ["a"] ∧
      ¬ flow.Honest ∧ ¬ answer.Honest := by
  refine ⟨⟨[⟨0, "a", false⟩], false, .normal⟩, ⟨["a"], false, .normal⟩, ?_⟩
  rw [handleClient, tokenFlow_writeStream, ragAnswer_writeStream]
  simp only [Answer.Honest]
  decide

end RawHttp

end NativeInterop
