import NativeInterop.RagQuery
import Mathlib.Tactic

/-!
# What a raw HTTP request is taken for

`ReadRequestAsync` stops reading at the blank line, but the read that brings the blank line
may bring a part of the body too, and `ParseRequest` is given the whole buffer.  The path and
the request id should depend on the head only.
-/

namespace NativeInterop.RawHttpServer

open HTTPRagService

/-- The bytes through the first blank line, which fit in the buffer. -/
structure IsHead (head : Bytes) : Prop where
  ends : blankLine <:+ asciiText head
  first : ¬ blankLine <:+: asciiText head.dropLast
  fits : head.length ≤ bufferLength

/-- The header's name stands at the start of the text or right behind a line end. -/
def CarriesRequestId (text : List Char) : Prop :=
  ∃ front behind, text = front ++ behind ∧ (front = [] ∨ ['\r', '\n'] <:+ front) ∧
    isRequestId behind

/-! ## Lines -/

theorem splitLines_eq_cons (text : List Char) :
    splitLines text = (splitLines text).headD [] :: (splitLines text).tail := by
  obtain ⟨line, lines, hlines⟩ := List.exists_cons_of_ne_nil (splitLines_ne_nil text)
  rw [hlines, List.headD_cons, List.tail_cons]

theorem splitLines_append_newLine (front rest : List Char) :
    splitLines (front ++ '\r' :: '\n' :: rest) = splitLines front ++ splitLines rest := by
  induction front using splitLines.induct with
  | case1 => simp [splitLines]
  | case2 front ih => simp only [List.cons_append, splitLines, ih]
  | case3 c front hc ih =>
      have hline : splitLines (c :: front ++ '\r' :: '\n' :: rest) =
          (splitLines (front ++ '\r' :: '\n' :: rest)).modifyHead (c :: ·) := by
        rw [List.cons_append, splitLines]
        intro later hreturn hlater
        -- a line end begun by `c` would be one of the front
        cases front with
        | nil => cases hlater
        | cons d front =>
            rw [List.cons_append, List.cons.injEq] at hlater
            exact hc front hreturn (by rw [hlater.1])
      rw [hline, ih, splitLines, splitLines_eq_cons front]
      · rfl
      · exact hc

/-- A pattern without a carriage return is found at the start of the first line if it is found
at the start of the text. -/
theorem take_headLine_iff {pattern : List Char} (hpattern : '\r' ∉ pattern) (text : List Char) :
    (((splitLines text).headD []).take pattern.length).map Char.toUpper = pattern ↔
      (text.take pattern.length).map Char.toUpper = pattern := by
  induction text using splitLines.induct generalizing pattern with
  | case1 => simp [splitLines]
  | case2 rest ih =>
      cases pattern with
      | nil => simp
      | cons p pattern =>
          have hp : '\r' ≠ p := fun heq => hpattern (heq ▸ List.mem_cons_self)
          have hupper : '\r'.toUpper = '\r' := by decide
          simp [splitLines, hupper, hp]
  | case3 c rest hc ih =>
      have hfirst : (splitLines (c :: rest)).headD [] = c :: (splitLines rest).headD [] := by
        rw [splitLines, splitLines_eq_cons rest]
        · rfl
        · exact hc
      rw [hfirst]
      cases pattern with
      | nil => simp
      | cons p pattern =>
          have hlater := ih fun hmem => hpattern (List.mem_cons_of_mem p hmem)
          simp only [List.length_cons, List.take_succ_cons, List.map_cons, List.cons.injEq, hlater]

theorem isRequestId_headLine (text : List Char) :
    isRequestId ((splitLines text).headD []) = isRequestId text := by
  have hreturn : '\r' ∉ headerName.map Char.toUpper := by decide
  have hsame := take_headLine_iff hreturn text
  rw [List.length_map] at hsame
  exact Bool.eq_iff_iff.mpr (by simpa only [isRequestId, decide_eq_true_eq] using hsame)

theorem mem_tail_splitLines {text line : List Char} (hline : line ∈ (splitLines text).tail) :
    ∃ front behind, text = front ++ '\r' :: '\n' :: behind ∧
      line = (splitLines behind).headD [] := by
  induction text using splitLines.induct with
  | case1 => simp [splitLines] at hline
  | case2 rest ih =>
      rw [splitLines, List.tail_cons, splitLines_eq_cons, List.mem_cons] at hline
      rcases hline with hfirst | hlater
      · exact ⟨[], rest, rfl, hfirst⟩
      · obtain ⟨front, behind, rfl, hbehind⟩ := ih hlater
        exact ⟨'\r' :: '\n' :: front, behind, rfl, hbehind⟩
  | case3 c rest hc ih =>
      have htail : (splitLines (c :: rest)).tail = (splitLines rest).tail := by
        rw [splitLines, splitLines_eq_cons rest]
        · rfl
        · exact hc
      rw [htail] at hline
      obtain ⟨front, behind, rfl, hbehind⟩ := ih hline
      exact ⟨c :: front, behind, rfl, hbehind⟩

theorem isRequestId_line_iff (text : List Char) :
    (∃ line ∈ splitLines text, isRequestId line = true) ↔ CarriesRequestId text := by
  constructor
  · rintro ⟨line, hmem, hline⟩
    rw [splitLines_eq_cons, List.mem_cons] at hmem
    rcases hmem with rfl | hmem
    · exact ⟨[], text, rfl, .inl rfl, by rwa [isRequestId_headLine] at hline⟩
    · obtain ⟨front, behind, rfl, rfl⟩ := mem_tail_splitLines hmem
      rw [isRequestId_headLine] at hline
      exact ⟨front ++ ['\r', '\n'], behind, by simp, .inr (List.suffix_append _ _), hline⟩
  · rintro ⟨front, behind, rfl, hfront, hbehind⟩
    have hfirst : (splitLines behind).headD [] ∈ splitLines behind := by
      rw [splitLines_eq_cons]
      exact List.mem_cons_self
    refine ⟨(splitLines behind).headD [], ?_, by rwa [isRequestId_headLine]⟩
    rcases hfront with rfl | ⟨front, rfl⟩
    · exact hfirst
    · rw [List.append_assoc, List.cons_append, List.cons_append, List.nil_append,
        splitLines_append_newLine]
      exact List.mem_append_right _ hfirst

theorem CarriesRequestId.of_isPrefix {part text : List Char} (hcarries : CarriesRequestId part)
    (hpart : part <+: text) : CarriesRequestId text := by
  obtain ⟨front, behind, rfl, hfront, hbehind⟩ := hcarries
  obtain ⟨rest, rfl⟩ := hpart
  refine ⟨front, behind ++ rest, List.append_assoc _ _ _, hfront, ?_⟩
  have hlong : headerName.length ≤ behind.length := by
    have hlength := congrArg List.length (of_decide_eq_true hbehind)
    rw [List.length_map, List.length_map, List.length_take] at hlength
    omega
  unfold isRequestId at hbehind ⊢
  rwa [List.take_append_of_le_length hlong]

/-! ## The head and what may follow it in the buffer -/

theorem parseRequest_append (front rest : List Char) :
    parseRequest (front ++ '\r' :: '\n' :: rest) =
      { path := parsePath ((splitLines front).headD [])
        requestId := (((splitLines front).tail ++ splitLines rest).find? isRequestId).map
          fun line => Unicode.trim Unicode.isWhiteSpaceCSharp (line.drop headerName.length) } := by
  rw [parseRequest, splitLines_append_newLine, splitLines_eq_cons front]
  rfl

theorem IsHead.text {head : Bytes} (hhead : IsHead head) :
    ∃ front, asciiText head = front ++ ['\r', '\n'] := by
  obtain ⟨front, hfront⟩ := hhead.ends
  exact ⟨front ++ ['\r', '\n'], by rw [← hfront, blankLine, List.append_assoc]; rfl⟩

theorem isRequestId_nil : isRequestId [] = false := rfl

/-- Bytes behind the head change what is parsed only by a request id that the head has not. -/
theorem parseRequest_head_append_iff {head : Bytes} (hhead : IsHead head) (extra : Bytes) :
    parseRequest (asciiText (head ++ extra)) = parseRequest (asciiText head) ↔
      (∃ line ∈ (splitLines (asciiText head)).tail, isRequestId line = true) ∨
        ¬ CarriesRequestId (asciiText extra) := by
  obtain ⟨front, hfront⟩ := hhead.text
  have htext : asciiText (head ++ extra) = front ++ '\r' :: '\n' :: asciiText extra := by
    rw [asciiText, List.map_append, ← asciiText, ← asciiText, hfront, List.append_assoc]
    rfl
  have htail : (splitLines (front ++ ['\r', '\n'])).tail = (splitLines front).tail ++ [[]] := by
    rw [splitLines_append_newLine, splitLines_eq_cons front]
    rfl
  rw [htext, hfront, parseRequest_append, parseRequest_append, htail, ← isRequestId_line_iff,
    Request.mk.injEq, List.find?_append, List.find?_append]
  simp only [true_and]
  cases hown : (splitLines front).tail.find? isRequestId with
  | some line =>
      have hline : ∃ line ∈ (splitLines front).tail ++ [[]], isRequestId line = true :=
        ⟨line, List.mem_append_left _ (List.mem_of_find?_eq_some hown),
          List.find?_some hown⟩
      exact iff_of_true (by simp) (.inl hline)
  | none =>
      have hnone : ¬ ∃ line ∈ (splitLines front).tail ++ [[]], isRequestId line = true := by
        rw [List.find?_eq_none] at hown
        rintro ⟨line, hmem, hline⟩
        rcases List.mem_append.mp hmem with hmem | hmem
        · exact hown line hmem hline
        · rw [List.mem_singleton.mp hmem, isRequestId_nil] at hline
          cases hline
      simp only [hnone, false_or, Option.none_or, splitLines, List.find?_singleton,
        isRequestId_nil, Bool.false_eq_true, if_false, Option.map_none, Option.map_eq_none_iff,
        List.find?_eq_none]
      simp

theorem IsHead.ne_nil {head : Bytes} (hhead : IsHead head) : head ≠ [] := by
  rintro rfl
  have hlength := hhead.ends.length_le
  simp [blankLine, asciiText] at hlength

/-- The buffer holds the head when it is parsed, and a part of the body. -/
theorem readHead_head {head : Bytes} (hhead : IsHead head) (body : Bytes) (offers : ℕ → ℕ) :
    ∃ extra, readHead offers [] (head ++ body) = head ++ extra ∧
      extra <+: body.take (bufferLength - head.length) := by
  obtain ⟨hfront, hroom, hstops⟩ := readHead_spec offers [] (head ++ body) (Nat.zero_le _)
  rw [List.nil_append] at hfront hstops
  generalize readHead offers [] (head ++ body) = read at *
  have hfits := hhead.fits
  have hlong : head.length ≤ read.length := by
    rcases hstops with hblank | hfull
    · -- less than the head has no blank line
      by_contra hshort
      have hpart : read <+: head.dropLast := by
        refine List.prefix_of_prefix_length_le hfront
          ((List.dropLast_prefix head).trans (List.prefix_append head body)) ?_
        rw [List.length_dropLast]
        omega
      exact hhead.first (hblank.trans (hpart.map _).isInfix)
    · rw [hfull, List.length_append]
      omega
  obtain ⟨extra, rfl⟩ := List.prefix_of_prefix_length_le (List.prefix_append head body) hfront hlong
  refine ⟨extra, rfl, ?_⟩
  rw [List.prefix_append_right_inj] at hfront
  rw [List.length_append] at hroom
  exact List.prefix_take_iff.mpr ⟨hfront, by omega⟩

/-- The first read may bring all there is room for. -/
theorem readHead_full {head : Bytes} (hhead : IsHead head) (body : Bytes) :
    readHead (fun _ => bufferLength) [] (head ++ body) =
      head ++ body.take (bufferLength - head.length) := by
  have hmore : ([] : Bytes).length < bufferLength ∧ head ++ body ≠ [] :=
    ⟨by decide, List.append_ne_nil_of_left_ne_nil hhead.ne_nil body⟩
  have htake : [] ++ (head ++ body).take (min (bufferLength - ([] : Bytes).length)
      (bufferLength + 1)) = head ++ body.take (bufferLength - head.length) := by
    rw [List.nil_append, List.length_nil, Nat.sub_zero, Nat.min_eq_left (Nat.le_succ _),
      List.take_append, List.take_of_length_le hhead.fits]
  have hblank : blankLine <:+: asciiText (head ++ body.take (bufferLength - head.length)) := by
    rw [asciiText, List.map_append, ← asciiText]
    exact hhead.ends.isInfix.trans (List.prefix_append _ _).isInfix
  rw [readHead, if_pos hmore]
  simp only [htake, if_pos hblank]

theorem readRequest_of_readHead {offers : ℕ → ℕ} {stream read : Bytes}
    (hread : readHead offers [] stream = read) (hnonempty : read ≠ []) :
    readRequest offers stream = parseRequest (asciiText read) := by
  simp only [readRequest, hread, if_neg hnonempty]

/-- However the bytes are split, a request is taken for what its head says, exactly if the head
names a request id or no part of the body that has room in the buffer does. -/
theorem readRequest_head_only_iff {head : Bytes} (hhead : IsHead head) (body : Bytes) :
    (∀ offers, readRequest offers (head ++ body) = parseRequest (asciiText head)) ↔
      (∃ line ∈ (splitLines (asciiText head)).tail, isRequestId line = true) ∨
        ¬ CarriesRequestId (asciiText (body.take (bufferLength - head.length))) := by
  have hnonempty : ∀ extra, head ++ extra ≠ [] :=
    fun extra => List.append_ne_nil_of_left_ne_nil hhead.ne_nil extra
  constructor
  · intro hsame
    have hfull := hsame fun _ => bufferLength
    rw [readRequest_of_readHead (readHead_full hhead body) (hnonempty _)] at hfull
    exact (parseRequest_head_append_iff hhead _).mp hfull
  · intro hclean offers
    obtain ⟨extra, hread, hextra⟩ := readHead_head hhead body offers
    rw [readRequest_of_readHead hread (hnonempty extra), parseRequest_head_append_iff hhead]
    exact hclean.imp_right fun hnone hcarries => hnone (hcarries.of_isPrefix (hextra.map _))

theorem readRequest_head_only_seven :
    readRequest (fun left => left % 5)
        (ascii "GET /features HTTP/1.1\r\nX-Dni-Request-Id: 7\r\n\r\n".toList ++
          ascii "X-Dni-Request-Id: 8".toList) =
      ⟨"/features".toList, some ['7']⟩ := by
  have hhead : IsHead (ascii "GET /features HTTP/1.1\r\nX-Dni-Request-Id: 7\r\n\r\n".toList) :=
    ⟨by decide, by decide, by decide⟩
  have hread := (readRequest_head_only_iff hhead (ascii "X-Dni-Request-Id: 8".toList)).mpr
    (.inl (by decide)) fun left => left % 5
  rw [hread]
  decide

theorem readRequest_body_id :
    IsHead (ascii "GET / HTTP/1.1\r\n\r\n".toList) ∧
      parseRequest (asciiText (ascii "GET / HTTP/1.1\r\n\r\n".toList)) = ⟨['/'], none⟩ ∧
      readRequest (fun _ => bufferLength)
          (ascii "GET / HTTP/1.1\r\n\r\n".toList ++ ascii "X-Dni-Request-Id: 8".toList) =
        ⟨['/'], some ['8']⟩ := by
  have hhead : IsHead (ascii "GET / HTTP/1.1\r\n\r\n".toList) :=
    ⟨by decide, by decide, by decide⟩
  have hfull := readHead_full hhead (ascii "X-Dni-Request-Id: 8".toList)
  refine ⟨hhead, by decide, ?_⟩
  rw [readRequest_of_readHead hfull (List.append_ne_nil_of_left_ne_nil hhead.ne_nil _)]
  decide

end NativeInterop.RawHttpServer
