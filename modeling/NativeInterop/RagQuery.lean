import NativeInterop.AgentStatus
import NativeInterop.PercentEncoding
import NativeInterop.Unicode
import Mathlib.Tactic

/-!
# The query of a raw HTTP request

The iOS client percent-encodes a query into the target of a `GET`.  The server collects the
head of the request in a buffer of 2048 bytes and decodes what it finds there, so a query
arrives whole as long as its encoding fits in the buffer.
-/

namespace NativeInterop

open PercentEncoding

/-! ## The client -/

namespace QueryInput

def maxLength : ℕ := 2000

/-- The characters of a Swift `String`, which are grapheme clusters. -/
structure Segmentation where
  characters : List Char → List (List Char)
  flatten : ∀ text, (characters text).flatten = text
  nonempty : ∀ text, ∀ character ∈ characters text, character ≠ []

def sanitize (segmentation : Segmentation) (raw : List Char) : Option (List Char) :=
  let trimmed := Unicode.trim Unicode.isWhitespaceOrNewlineSwift raw
  if trimmed.isEmpty then none
  else some ((segmentation.characters trimmed).take maxLength).flatten

theorem mem_sanitize {segmentation : Segmentation} {raw query : List Char}
    (hquery : query ∈ sanitize segmentation raw) :
    query ≠ [] ∧ query <+: Unicode.trim Unicode.isWhitespaceOrNewlineSwift raw := by
  unfold sanitize at hquery
  simp only at hquery
  split_ifs at hquery with hempty
  · cases hquery
  · generalize Unicode.trim Unicode.isWhitespaceOrNewlineSwift raw = trimmed at *
    obtain rfl := Option.some.inj hquery
    constructor
    · cases hcharacters : segmentation.characters trimmed with
      | nil =>
          have hflatten := segmentation.flatten trimmed
          rw [hcharacters, List.flatten_nil] at hflatten
          rw [← hflatten] at hempty
          exact absurd rfl hempty
      | cons character characters =>
          have hfirst : character ≠ [] :=
            segmentation.nonempty trimmed character (hcharacters ▸ List.mem_cons_self)
          rw [maxLength, List.take_succ_cons, List.flatten_cons]
          exact List.append_ne_nil_of_left_ne_nil hfirst _
    · conv_rhs => rw [← segmentation.flatten trimmed]
      exact (List.take_prefix maxLength _).flatten

/-- A segmentation that is right for texts without combining characters. -/
def scalars : Segmentation where
  characters text := text.map ([·])
  flatten text := by rw [← List.flatMap_def, List.flatMap_singleton']
  nonempty := by simp

theorem sanitize_replicate {count : ℕ} {c : Char} (hpos : 0 < count) (hcount : count ≤ maxLength)
    (hc : Unicode.isWhitespaceOrNewlineSwift c.toNat = false) :
    sanitize scalars (List.replicate count c) = some (List.replicate count c) := by
  have htrim : Unicode.trim Unicode.isWhitespaceOrNewlineSwift (List.replicate count c) =
      List.replicate count c := by
    simp only [Unicode.trim, List.rdropWhile, List.dropWhile_replicate, List.reverse_replicate,
      hc, Bool.false_eq_true, if_false]
  have hnonempty : ¬ (List.replicate count c).isEmpty = true := by
    rw [List.isEmpty_iff, List.replicate_eq_nil_iff]
    omega
  have hshort : (scalars.characters (List.replicate count c)).length ≤ maxLength := by
    rwa [scalars, List.length_map, List.length_replicate]
  unfold sanitize
  simp only
  rw [htrim, if_neg hnonempty, List.take_of_length_le hshort, scalars.flatten]

end QueryInput

namespace HTTPRagService

/-- The punctuation in `CharacterSet.urlQueryAllowed`. -/
def punctuation : List Char :=
  ['!', '$', '&', '\x27', '(', ')', '*', '+', ',', '-', '.', '/', ':', ';', '=', '?', '@', '_',
    '~']

def isQueryAllowed (c : Char) : Bool :=
  ('A' ≤ c ∧ c ≤ 'Z') ∨ ('a' ≤ c ∧ c ≤ 'z') ∨ ('0' ≤ c ∧ c ≤ '9') ∨ c ∈ punctuation

def urlQueryAllowed : Alphabet where
  digit := Agent.upperHex
  allowed := isQueryAllowed
  reads := Agent.hexDigit_upperHex
  allows := by decide
  escapes := by decide

def ascii (text : List Char) : Bytes := text.map fun c => UInt8.ofNat c.toNat

/-- What `URLSession` sends for the address that `answer` builds.  The header lines are its
own. -/
def request (headers : List Bytes) (query : List Char) : Bytes :=
  ascii ("GET /rag?q=".toList ++ encode urlQueryAllowed query ++ " HTTP/1.1\r\n".toList) ++
    headers.flatMap (· ++ ascii ['\r', '\n']) ++ ascii ['\r', '\n']

end HTTPRagService

/-! ## The server -/

namespace RawHttpServer

def bufferLength : ℕ := 2048

/-- `Encoding.ASCII.GetString`. -/
def asciiText (bytes : Bytes) : List Char :=
  bytes.map fun byte => if byte.toNat < 0x80 then Char.ofNat byte.toNat else '?'

def blankLine : List Char := ['\r', '\n', '\r', '\n']

/-- The loop of `ReadRequestAsync`.  A read returns at least one byte unless the stream has
ended; `offers` says how many more, by the number of bytes that were left. -/
def readHead (offers : ℕ → ℕ) (buffer stream : Bytes) : Bytes :=
  if buffer.length < bufferLength ∧ stream ≠ [] then
    let count := min (bufferLength - buffer.length) (offers stream.length + 1)
    if blankLine <:+: asciiText (buffer ++ stream.take count) then buffer ++ stream.take count
    else readHead offers (buffer ++ stream.take count) (stream.drop count)
  else buffer
termination_by stream.length
decreasing_by
  next hmore _ =>
    have hpos := List.length_pos_of_ne_nil hmore.2
    rw [List.length_drop]
    omega

/-- `Split("\r\n")`. -/
def splitLines : List Char → List (List Char)
  | [] => [[]]
  | '\r' :: '\n' :: rest => [] :: splitLines rest
  | c :: rest => (splitLines rest).modifyHead (c :: ·)

structure Request where
  path : List Char
  requestId : Option (List Char)
  deriving DecidableEq, Repr

def headerName : List Char := "X-Dni-Request-Id:".toList

def isRequestId (line : List Char) : Bool :=
  (line.take headerName.length).map Char.toUpper = headerName.map Char.toUpper

def parsePath (line : List Char) : List Char :=
  match line.splitOn ' ' with
  | _ :: path :: _ => path
  | _ => ['/']

def parseRequest (head : List Char) : Request where
  path := parsePath ((splitLines head).headD [])
  requestId := ((splitLines head).tail.find? isRequestId).map fun line =>
    Unicode.trim Unicode.isWhiteSpaceCSharp (line.drop headerName.length)

def readRequest (offers : ℕ → ℕ) (stream : Bytes) : Request :=
  let head := readHead offers [] stream
  if head = [] then ⟨['/'], none⟩ else parseRequest (asciiText head)

/-- What `HandleClientAsync` does for a path. -/
inductive Route where
  | features
  | runFeature (id : List Char)
  | rag (query : List Char)
  | showcase
  deriving DecidableEq, Repr

def route (path : List Char) : Route :=
  if path = "/features".toList then .features
  else if "/feature/run/".toList <+: path then
    .runFeature (unescape (path.drop "/feature/run/".length))
  else if "/rag?q=".toList <+: path then .rag (unescape (path.drop "/rag?q=".length))
  else .showcase

def handleClient (offers : ℕ → ℕ) (stream : Bytes) : Route :=
  route (readRequest offers stream).path

/-! ## Reading -/

/-- The loop takes a part of the stream that fits in the buffer, and stops at a blank line, at
a full buffer or at the end of the stream. -/
theorem readHead_spec (offers : ℕ → ℕ) (buffer stream : Bytes)
    (hroom : buffer.length ≤ bufferLength) :
    readHead offers buffer stream <+: buffer ++ stream ∧
      (readHead offers buffer stream).length ≤ bufferLength ∧
      (blankLine <:+: asciiText (readHead offers buffer stream) ∨
        (readHead offers buffer stream).length =
          min bufferLength (buffer ++ stream).length) := by
  induction buffer, stream using readHead.induct offers with
  | case1 buffer stream hmore count hblank =>
      rw [readHead, if_pos hmore]
      simp only
      rw [if_pos hblank]
      have hcount : count ≤ bufferLength - buffer.length := Nat.min_le_left _ _
      refine ⟨(List.prefix_append_right_inj buffer).mpr (List.take_prefix count stream), ?_,
        .inl hblank⟩
      rw [List.length_append, List.length_take]
      omega
  | case2 buffer stream hmore count hblank ih =>
      have hcount : count ≤ bufferLength - buffer.length := Nat.min_le_left _ _
      have hnext : (buffer ++ stream.take count).length ≤ bufferLength := by
        rw [List.length_append, List.length_take]
        omega
      have hrest := ih hnext
      rw [List.append_assoc, List.take_append_drop] at hrest
      rw [readHead, if_pos hmore]
      simp only
      rw [if_neg hblank]
      exact hrest
  | case3 buffer stream hdone =>
      rw [readHead, if_neg hdone]
      refine ⟨List.prefix_append buffer stream, hroom, .inr ?_⟩
      rw [not_and_or, Nat.not_lt, not_not] at hdone
      rw [List.length_append]
      rcases hdone with hfull | hended
      · omega
      · rw [hended, List.length_nil]
        omega

theorem splitLines_append {text : List Char} (htext : '\r' ∉ text) (rest : List Char) :
    splitLines (text ++ rest) = (splitLines rest).modifyHead (text ++ ·) := by
  induction text with
  | nil => cases hlines : splitLines rest <;> simp [hlines]
  | cons c text ih =>
      have hc : c ≠ '\r' := fun hreturn => htext (hreturn ▸ List.mem_cons_self)
      rw [List.cons_append, splitLines, ih fun hmem => htext (List.mem_cons_of_mem c hmem)]
      · cases splitLines rest <;> rfl
      · intro _ hreturn
        exact absurd hreturn hc

theorem splitLines_cons_ne_return {c : Char} (hc : c ≠ '\r') (rest : List Char) :
    splitLines (c :: rest) = (splitLines rest).modifyHead (c :: ·) :=
  splitLines_append (show '\r' ∉ [c] by simpa using hc.symm) rest

theorem splitLines_ne_nil (text : List Char) : splitLines text ≠ [] := by
  induction text using splitLines.induct with
  | case1 => simp [splitLines]
  | case2 rest ih => simp [splitLines]
  | case3 c rest hc ih =>
      rw [splitLines]
      · simpa [List.modifyHead_eq_nil_iff] using ih
      · exact hc

theorem parsePath_cons {target rest : List Char} (hspace : ' ' ∉ target)
    (hrest : rest = [] ∨ ∃ behind, rest = ' ' :: behind) :
    parsePath ("GET".toList ++ ' ' :: (target ++ rest)) = target := by
  have htarget : ∃ later, (target ++ rest).splitOn ' ' = target :: later := by
    rcases hrest with rfl | ⟨behind, rfl⟩
    · rw [List.append_nil]
      exact ⟨[], List.splitOn_eq_singleton hspace⟩
    · exact ⟨behind.splitOn ' ', List.splitOn_append_cons_self_of_not_mem hspace behind⟩
  obtain ⟨later, hlater⟩ := htarget
  unfold parsePath
  rw [List.splitOn_append_cons_self_of_not_mem (by decide), hlater]

/-- The path of a request line of which the end may be missing. -/
theorem parseRequest_path {target rest : List Char} (hspace : ' ' ∉ target)
    (hreturn : '\r' ∉ target) (hrest : rest = [] ∨ ∃ behind, rest = ' ' :: behind) :
    (parseRequest ("GET".toList ++ ' ' :: (target ++ rest))).path = target := by
  have hline : ∃ line lines, splitLines rest = line :: lines ∧
      (line = [] ∨ ∃ behind, line = ' ' :: behind) := by
    rcases hrest with rfl | ⟨behind, rfl⟩
    · exact ⟨[], [], by rw [splitLines], .inl rfl⟩
    · obtain ⟨line, lines, hlines⟩ := List.exists_cons_of_ne_nil (splitLines_ne_nil behind)
      refine ⟨' ' :: line, lines, ?_, .inr ⟨line, rfl⟩⟩
      rw [splitLines_cons_ne_return (by decide), hlines, List.modifyHead_cons]
  obtain ⟨line, lines, hlines, hends⟩ := hline
  have hplain : '\r' ∉ "GET".toList ++ ' ' :: target := by
    simpa using hreturn
  have hsplit : splitLines ("GET".toList ++ ' ' :: (target ++ rest)) =
      ("GET".toList ++ ' ' :: (target ++ line)) :: lines := by
    have happend := splitLines_append hplain rest
    rw [hlines, List.modifyHead_cons, List.append_assoc, List.cons_append, List.append_assoc,
      List.cons_append] at happend
    exact happend
  unfold parseRequest
  rw [hsplit, List.headD_cons]
  exact parsePath_cons hspace hends

end RawHttpServer

/-! ## The query that arrives -/

namespace HTTPRagService

open RawHttpServer

theorem plain_of_range {c : Char} (hlow : '0' ≤ c) (hhigh : c ≤ 'z') :
    c.toNat < 0x80 ∧ c ≠ ' ' ∧ c ≠ '\r' := by
  refine ⟨?_, ?_, ?_⟩
  · exact Nat.lt_of_le_of_lt (UInt32.le_iff_toNat_le.mp hhigh) (by decide)
  · rintro rfl
    exact absurd hlow (by decide)
  · rintro rfl
    exact absurd hlow (by decide)

theorem isQueryAllowed_plain {c : Char} (hc : isQueryAllowed c = true) :
    c.toNat < 0x80 ∧ c ≠ ' ' ∧ c ≠ '\r' := by
  rcases of_decide_eq_true hc with hupper | hlower | hdigit | hmark
  · exact plain_of_range (Char.le_trans (by decide) hupper.1) (Char.le_trans hupper.2 (by decide))
  · exact plain_of_range (Char.le_trans (by decide) hlower.1) hlower.2
  · exact plain_of_range hdigit.1 (Char.le_trans hdigit.2 (by decide))
  · have hmarks : ∀ d ∈ punctuation, d.toNat < 0x80 ∧ d ≠ ' ' ∧ d ≠ '\r' := by
      simp [punctuation]
    exact hmarks c hmark

/-- The encoding is a single word of ASCII. -/
theorem encode_plain {query : List Char} :
    ∀ c ∈ encode urlQueryAllowed query, c.toNat < 0x80 ∧ c ≠ ' ' ∧ c ≠ '\r' := by
  intro c hc
  rcases mem_encode hc with rfl | hallowed
  · decide
  · exact isQueryAllowed_plain hallowed

theorem asciiText_ascii {text : List Char} (htext : ∀ c ∈ text, c.toNat < 0x80) :
    asciiText (ascii text) = text := by
  unfold asciiText ascii
  rw [List.map_map]
  conv_rhs => rw [← List.map_id text]
  refine List.map_congr_left fun c hc => ?_
  have hbyte : (UInt8.ofNat c.toNat).toNat = c.toNat :=
    UInt8.toNat_ofNat_of_lt' (Nat.lt_of_lt_of_le (htext c hc) (by decide))
  rw [Function.comp_apply, hbyte, if_pos (htext c hc), Char.ofNat_toNat]
  rfl

theorem asciiText_request (headers : List Bytes) (query : List Char) :
    ∃ behind, asciiText (request headers query) =
      "GET /rag?q=".toList ++ (encode urlQueryAllowed query ++ ' ' :: behind) := by
  have hline : ∀ c ∈ "GET /rag?q=".toList ++ encode urlQueryAllowed query ++
      " HTTP/1.1\r\n".toList, c.toNat < 0x80 := by
    intro c hc
    rcases List.mem_append.mp hc with hfront | hversion
    · rcases List.mem_append.mp hfront with hstart | hencoded
      · exact (by simp : ∀ d ∈ "GET /rag?q=".toList, d.toNat < 0x80) c hstart
      · exact (encode_plain c hencoded).1
    · exact (by simp : ∀ d ∈ " HTTP/1.1\r\n".toList, d.toNat < 0x80) c hversion
  refine ⟨"HTTP/1.1\r\n".toList ++
    asciiText (headers.flatMap (· ++ ascii ['\r', '\n']) ++ ascii ['\r', '\n']), ?_⟩
  have hlines := asciiText_ascii hline
  unfold request
  rw [List.append_assoc (ascii _), asciiText, List.map_append, ← asciiText, ← asciiText, hlines,
    List.append_assoc, List.append_assoc]
  rfl

theorem return_not_mem (query : List Char) :
    '\r' ∉ "GET /rag?q=".toList ++ encode urlQueryAllowed query := by
  intro hmem
  rcases List.mem_append.mp hmem with hstart | hencoded
  · exact absurd hstart (by decide)
  · exact (encode_plain _ hencoded).2.2 rfl

/-- What the server has in its buffer when it parses: the request beyond its target, or as
much of it as there is room for. -/
theorem readHead_request (offers : ℕ → ℕ) (headers : List Bytes) (query : List Char) :
    ∃ behind count, min 2037 (encode urlQueryAllowed query).length ≤ count ∧ count ≤ 2037 ∧
      asciiText (readHead offers [] (request headers query)) =
        "GET /rag?q=".toList ++ (encode urlQueryAllowed query ++ ' ' :: behind).take count := by
  obtain ⟨behind, hrequest⟩ := asciiText_request headers query
  obtain ⟨hfront, hroom, hstops⟩ :=
    readHead_spec offers [] (request headers query) (Nat.zero_le _)
  have htext : asciiText (readHead offers [] (request headers query)) <+:
      asciiText (request headers query) := hfront.map _
  have hlength : (asciiText (readHead offers [] (request headers query))).length =
      (readHead offers [] (request headers query)).length := List.length_map _
  have hwhole : (request headers query).length =
      11 + ((encode urlQueryAllowed query).length + (behind.length + 1)) := by
    have hlengths := congrArg List.length hrequest
    rwa [asciiText, List.length_map, List.length_append, List.length_append,
      List.length_cons] at hlengths
  generalize readHead offers [] (request headers query) = head at *
  have hlong : 11 + min 2037 (encode urlQueryAllowed query).length ≤ head.length := by
    rcases hstops with hblank | hfull
    · -- a carriage return stands behind the target only
      by_contra hshort
      have hbegins : asciiText head <+: "GET /rag?q=".toList ++ encode urlQueryAllowed query := by
        rw [hrequest, ← List.append_assoc] at htext
        refine List.prefix_of_prefix_length_le htext (List.prefix_append _ _) ?_
        rw [hlength, List.length_append]
        have hstart : "GET /rag?q=".toList.length = 11 := rfl
        omega
      exact return_not_mem query (hbegins.subset (hblank.subset List.mem_cons_self))
    · rw [hfull, List.nil_append, hwhole]
      simp only [bufferLength]
      omega
  refine ⟨behind, head.length - 11, by omega, ?_, ?_⟩
  · have hsize : bufferLength = 2048 := rfl
    omega
  · rw [List.prefix_iff_eq_take.mp htext, hlength, hrequest, List.take_append,
      List.take_of_length_le (Nat.le_trans (Nat.le_add_right 11 _) hlong)]
    rfl

/-- However the request arrives, the server takes its target up to the length of the
buffer. -/
theorem readRequest_path (offers : ℕ → ℕ) (headers : List Bytes) (query : List Char) :
    (readRequest offers (request headers query)).path =
      "/rag?q=".toList ++ (encode urlQueryAllowed query).take 2037 := by
  obtain ⟨behind, count, hcount, hmost, htext⟩ := readHead_request offers headers query
  have hhead : readHead offers [] (request headers query) ≠ [] := by
    intro hnil
    rw [hnil] at htext
    cases htext
  -- the buffer holds the whole encoding, or is full
  have htake : (encode urlQueryAllowed query).take count =
      (encode urlQueryAllowed query).take 2037 := by
    rw [List.take_eq_take_iff]
    omega
  have hplain : ∀ c ∈ "/rag?q=".toList ++ (encode urlQueryAllowed query).take 2037,
      c ≠ ' ' ∧ c ≠ '\r' := by
    intro c hc
    rcases List.mem_append.mp hc with hstart | hencoded
    · exact (by simp : ∀ d ∈ "/rag?q=".toList, d ≠ ' ' ∧ d ≠ '\r') c hstart
    · exact (encode_plain c (List.mem_of_mem_take hencoded)).2
  have hbehind : ∀ more, (' ' :: behind).take more = [] ∨
      ∃ rest, (' ' :: behind).take more = ' ' :: rest
    | 0 => .inl rfl
    | more + 1 => .inr ⟨behind.take more, rfl⟩
  unfold readRequest
  simp only
  rw [if_neg hhead, htext, List.take_append, htake, ← List.append_assoc]
  exact parseRequest_path (fun hspace => (hplain _ hspace).1 rfl)
    (fun hreturn => (hplain _ hreturn).2 rfl) (hbehind _)

theorem route_rag (target : List Char) :
    route ("/rag?q=".toList ++ target) = .rag (unescape target) := by
  have hfeatures : "/rag?q=".toList ++ target ≠ "/features".toList := by
    simp
  have hrun : ¬ "/feature/run/".toList <+: "/rag?q=".toList ++ target := by
    simp
  unfold route
  rw [if_neg hfeatures, if_neg hrun, if_pos (List.prefix_append _ _)]
  rfl

theorem handleClient_request_eq_iff (offers : ℕ → ℕ) (headers : List Bytes)
    (query : List Char) :
    handleClient offers (request headers query) = .rag query ↔
      encodedLength urlQueryAllowed query ≤ 2037 ∨
        encodedLength urlQueryAllowed query = 2039 ∧ (['%'] <:+ query ∨ ['%', '2'] <:+ query) := by
  unfold handleClient
  rw [readRequest_path, route_rag, Route.rag.injEq]
  exact unescape_take_eq_iff query 2037

/-- The server runs an accepted query exactly if its encoding has room in the buffer behind
`GET /rag?q=`.  One encoding that has not is still read well: it ends in the escape of a `%`,
and the part that arrives of that stands for itself. -/
theorem handleClient_asked_iff (segmentation : QueryInput.Segmentation) (raw : List Char)
    (offers : ℕ → ℕ) (headers : List Bytes) :
    ∀ query ∈ QueryInput.sanitize segmentation raw,
      (handleClient offers (request headers query) = .rag query ↔
        encodedLength urlQueryAllowed query ≤ 2037 ∨
          encodedLength urlQueryAllowed query = 2039 ∧
            (['%'] <:+ query ∨ ['%', '2'] <:+ query)) :=
  fun query _ => handleClient_request_eq_iff offers headers query

theorem handleClient_asked_greeting :
    ['h', 'i'] ∈ QueryInput.sanitize QueryInput.scalars [' ', 'h', 'i', '\n'] ∧
      handleClient (fun _ => 0) (request [] ['h', 'i']) = .rag ['h', 'i'] :=
  ⟨rfl, (handleClient_asked_iff QueryInput.scalars [' ', 'h', 'i', '\n'] (fun _ => 0) [] ['h', 'i']
    rfl).mpr (.inl (by decide))⟩

/-- Each `é` takes six characters. -/
theorem not_asked_accented :
    List.replicate 340 'é' ∈ QueryInput.sanitize QueryInput.scalars (List.replicate 340 'é') ∧
      handleClient (fun _ => 2047) (request [] (List.replicate 340 'é')) ≠
        .rag (List.replicate 340 'é') := by
  constructor
  · exact QueryInput.sanitize_replicate (by decide) (by decide) rfl
  · intro hrun
    have hlength : encodedLength urlQueryAllowed (List.replicate 340 'é') = 2040 := by
      rw [encodedLength, List.map_replicate, List.sum_replicate]
      rfl
    have hfits := (handleClient_request_eq_iff _ _ _).mp hrun
    rw [hlength] at hfits
    omega

end HTTPRagService

end NativeInterop
