import NativeInterop.JsonEndings
import NativeInterop.RouterBrain
import NativeInterop.ToolCallParsing
import NativeInterop.Unicode
import Mathlib.Tactic

/-!
# The prose of the router

`RouterBrain.StreamAnswerAsync` joins the question and the results of the tools with a line
feed, and `ForemanHost.ComposeProse` takes what stands behind the first line feed for the
results.  A question with a line feed of its own has its later lines taken for results.
-/

namespace NativeInterop

namespace Agent

open JsonDocument (Fault)
open JsonElement (getString)
open ToolCallParser (findProperty)

/-! ## The results of the tools -/

/-- A recorded step, with its result as the code units it is made of. -/
structure RecordedStep where
  kind : String
  result : Option (List UInt16)
  deriving DecidableEq

/-- `string.Join(" ", ...)` over the results of tools; a missing one is empty. -/
def toolResults (steps : List RecordedStep) : List UInt16 :=
  [0x20].intercalate
    ((steps.filter fun step => step.kind = AgentStep.kindToolResult).map fun step =>
      step.result.getD [])

/-! ## Snippets -/

/-- The score is the literal of a number, if there is one. -/
structure SearchResult where
  text : String
  score : Option (List Char)
  deriving DecidableEq

def numberLiteral : Option (JsonProperty JsonElement) → Option (List Char)
  | some ⟨_, _, .number literal⟩ => some literal
  | _ => none

/-- One element in `TryReadSnippets`. -/
def readSnippet : JsonElement → Except Fault (Option SearchResult)
  | .object properties =>
      match findProperty "text" properties.reverse with
      | .error fault => .error fault
      | .ok (some ⟨_, _, .string raw⟩) => do
          let score ← findProperty "score" properties.reverse
          let text ← getString raw
          return some ⟨text, numberLiteral score⟩
      | .ok _ => .ok none
  | _ => .ok none

/-- The loop over the elements, which the first unfit one ends. -/
def readSnippets : List JsonElement → Except Fault (Option (List SearchResult))
  | [] => .ok (some [])
  | element :: more =>
      match readSnippet element with
      | .error fault => .error fault
      | .ok none => .ok none
      | .ok (some hit) => (readSnippets more).map fun hits => hits.map (hit :: ·)

def tryReadSnippets (json : List UInt16) : Except Fault (Option (List SearchResult)) :=
  match JsonDocument.parse json with
  | .error .jsonException => .ok none
  | .error fault => .error fault
  | .ok (.array items) => (readSnippets items).map fun hits => hits.filter (· ≠ [])
  | .ok _ => .ok none

/-- `ExtractiveLanguageModel.Compose`. -/
def compose : List SearchResult → List UInt16
  | [] => utf16 "I couldn't find anything about that in the manuals."
  | hit :: more =>
      utf16 "Based on the manuals: " ++ utf16 hit.text ++
        more.flatMap fun hit => utf16 " Related: " ++ utf16 hit.text

/-! ## The answer -/

def isWhite (unit : UInt16) : Bool :=
  Unicode.isWhiteSpaceCSharp unit.toNat

def isLineFeed (unit : UInt16) : Bool :=
  unit = 0x0A

/-- `prompt[(newline + 1)..]`, or the prompt itself where it has no line feed. -/
def behindNewline (prompt : List UInt16) : List UInt16 :=
  if 0x0A ∈ prompt then (prompt.dropWhile fun unit => !isLineFeed unit).tail else prompt

def trimUnits (text : List UInt16) : List UInt16 :=
  (text.dropWhile isWhite).rdropWhile isWhite

def proseOf (results : List UInt16) : Except Fault (List UInt16) :=
  if results = [] then .ok (utf16 "I couldn't find anything in the tools to answer that.")
  else
    match tryReadSnippets results with
    | .error fault => .error fault
    | .ok (some hits) => .ok (compose hits)
    | .ok none => .ok (utf16 "Based on the tools: " ++ results)

def composeProse (prompt : List UInt16) : Except Fault (List UInt16) :=
  proseOf (trimUnits (behindNewline prompt))

namespace RouterBrain

/-- `StreamAnswerAsync`: the text for the sink, or what the prose function throws. -/
def streamAnswerAsync (prose : List UInt16 → Except Fault (List UInt16)) (query : List UInt16)
    (steps : List RecordedStep) : Except Fault (List UInt16) :=
  prose (query ++ 0x0A :: toolResults steps)

end RouterBrain

/-! ## What is left of a question -/

/-- The later lines of a question without the white space in front of them. -/
def leftover (query : List UInt16) : List UInt16 :=
  ((query.dropWhile fun unit => !isLineFeed unit).tail).dropWhile isWhite

theorem dropWhile_lineFeed {query : List UInt16} (hfeed : 0x0A ∉ query) :
    query.dropWhile (fun unit => !isLineFeed unit) = [] := by
  rw [List.dropWhile_eq_nil_iff]
  intro unit hunit
  rw [isLineFeed, Bool.not_eq_true', decide_eq_false_iff_not]
  rintro rfl
  exact hfeed hunit

theorem leftover_of_notMem {query : List UInt16} (hfeed : 0x0A ∉ query) : leftover query = [] := by
  rw [leftover, dropWhile_lineFeed hfeed]
  rfl

/-- The trimmed results depend on the question only by what is left of it. -/
theorem trimUnits_behindNewline (query results : List UInt16) :
    trimUnits (behindNewline (query ++ 0x0A :: results)) =
      if leftover query = [] then trimUnits results
      else (leftover query ++ 0x0A :: results).rdropWhile isWhite := by
  have hmem : (0x0A : UInt16) ∈ query ++ 0x0A :: results := by simp
  have hwhite : isWhite 0x0A = true := by decide
  rw [behindNewline, if_pos hmem, List.dropWhile_append]
  by_cases hfeed : 0x0A ∈ query
  · have hmore : query.dropWhile (fun unit => !isLineFeed unit) ≠ [] := by
      intro hnone
      rw [List.dropWhile_eq_nil_iff] at hnone
      have hlast := hnone 0x0A hfeed
      cases hlast
    rw [if_neg (by simpa using hmore), List.tail_append_of_ne_nil hmore, trimUnits,
      List.dropWhile_append, ← leftover]
    by_cases hleft : leftover query = []
    · rw [if_pos hleft, if_pos (by simp [hleft]), List.dropWhile_cons_of_pos hwhite, trimUnits]
    · rw [if_neg hleft, if_neg (by simpa using hleft)]
  · rw [dropWhile_lineFeed hfeed, if_pos List.isEmpty_nil, leftover_of_notMem hfeed, if_pos rfl,
      List.dropWhile_cons_of_neg (by decide), List.tail_cons]

/-- Two questions that leave the same have the same answers. -/
theorem streamAnswerAsync_congr {first second : List UInt16}
    (hsame : leftover first = leftover second) (steps : List RecordedStep) :
    RouterBrain.streamAnswerAsync composeProse first steps =
      RouterBrain.streamAnswerAsync composeProse second steps := by
  unfold RouterBrain.streamAnswerAsync composeProse
  rw [trimUnits_behindNewline, trimUnits_behindNewline, hsame]

/-! ## Ill-formed questions -/

theorem plain_of_isWhite {unit : UInt16} (hwhite : isWhite unit = true) :
    Utf16.isHigh unit = false ∧ Utf16.isLow unit = false := by
  simp only [isWhite, Unicode.isWhiteSpaceCSharp, Unicode.isSeparator, Unicode.isFeed,
    decide_eq_true_eq, Bool.decide_or, Bool.or_eq_true, Bool.decide_and, Bool.and_eq_true] at hwhite
  simp only [Utf16.isHigh, Utf16.isLow, Bool.and_eq_false_iff, decide_eq_false_iff_not]
  omega

/-- Trimming takes no half of a pair away. -/
theorem decode_rdropWhile {text : List UInt16} (hbroken : Utf16.decode text = none) :
    Utf16.decode (text.rdropWhile isWhite) = none := by
  induction text using List.reverseRecOn with
  | nil => cases hbroken
  | append_singleton text unit ih =>
      by_cases hwhite : isWhite unit = true
      · obtain ⟨hhigh, hlow⟩ := plain_of_isWhite hwhite
        rw [List.rdropWhile_concat_pos _ _ _ hwhite]
        refine ih ?_
        cases hbefore : Utf16.decode text with
        | none => rfl
        | some chars =>
            rw [Utf16.decode_append_cons text hlow [], Utf16.decode_plain hhigh hlow,
              hbefore] at hbroken
            cases hbroken
      · rw [List.rdropWhile_concat_neg _ _ _ hwhite]
        exact hbroken

/-- What is left of an ill-formed question is never answered. -/
theorem streamAnswerAsync_of_broken {query : List UInt16}
    (hbroken : Utf16.decode (leftover query) = none) (steps : List RecordedStep) :
    RouterBrain.streamAnswerAsync composeProse query steps = .error .argumentException := by
  have hleft : leftover query ≠ [] := by
    intro hnone
    rw [hnone] at hbroken
    cases hbroken
  have htext : Utf16.decode (leftover query ++ 0x0A :: toolResults steps) = none := by
    rw [Utf16.decode_append_cons _ (by decide), hbroken]
    rfl
  have hdecode := decode_rdropWhile htext
  have hne : (leftover query ++ 0x0A :: toolResults steps).rdropWhile isWhite ≠ [] := by
    intro hnone
    rw [hnone] at hdecode
    cases hdecode
  rw [RouterBrain.streamAnswerAsync, composeProse, trimUnits_behindNewline, if_neg hleft, proseOf,
    if_neg hne, tryReadSnippets, JsonDocument.parse, hdecode]

/-! ## A result that is no document -/

/-- The one step of a tool that returned a letter. -/
def letterSteps : List RecordedStep :=
  [⟨AgentStep.kindToolResult, some [0x78]⟩]

theorem tryReadSnippets_letter {front : List UInt16} {text : List Char}
    (htext : Utf16.decode front = some text) : tryReadSnippets (front ++ [0x78]) = .ok none := by
  have hdecode : Utf16.decode (front ++ [0x78]) = some (text ++ ['x']) := by
    rw [Utf16.decode_append_cons front (by decide), htext]
    rfl
  rw [tryReadSnippets, JsonDocument.parse, hdecode]
  simp only [JsonDocument.parseChars_concat (show JsonDocument.closes 'x' = false by decide)
    (show Json.isSpace 'x' = false by decide)]

theorem streamAnswerAsync_letter {query : List UInt16} {text : List Char}
    (htext : Utf16.decode (leftover query) = some text) :
    RouterBrain.streamAnswerAsync composeProse query letterSteps =
      .ok (utf16 "Based on the tools: " ++
        ((if leftover query = [] then [] else leftover query ++ [0x0A]) ++ [0x78])) := by
  have hletter : toolResults letterSteps = [0x78] := by decide
  have hwhite : ¬ isWhite 0x78 = true := by decide
  have hresults : trimUnits (behindNewline (query ++ 0x0A :: [0x78])) =
      (if leftover query = [] then [] else leftover query ++ [0x0A]) ++ [0x78] := by
    rw [trimUnits_behindNewline]
    split_ifs with hleft
    · decide
    · have hsplit : leftover query ++ [0x0A, 0x78] = leftover query ++ [0x0A] ++ [0x78] := by simp
      rw [hsplit, List.rdropWhile_concat_neg _ _ _ hwhite]
  have hfront : ∃ text, Utf16.decode
      (if leftover query = [] then [] else leftover query ++ [0x0A]) = some text := by
    split_ifs with hleft
    · exact ⟨[], rfl⟩
    · refine ⟨text ++ ['\n'], ?_⟩
      rw [Utf16.decode_append_cons _ (by decide), htext]
      rfl
  obtain ⟨front, hfront⟩ := hfront
  rw [RouterBrain.streamAnswerAsync, composeProse, hletter, hresults, proseOf, if_neg (by simp),
    tryReadSnippets_letter hfront]

/-! ## When the question does not matter -/

/-- Two questions have the same answer to every list of steps exactly if the same is left of
both, or both leave what is ill-formed. -/
theorem same_answers_iff (first second : List UInt16) :
    (∀ steps, RouterBrain.streamAnswerAsync composeProse first steps =
      RouterBrain.streamAnswerAsync composeProse second steps) ↔
    leftover first = leftover second ∨
      (Utf16.decode (leftover first) = none ∧ Utf16.decode (leftover second) = none) := by
  constructor
  · intro hsame
    have hletter := hsame letterSteps
    cases hfirst : Utf16.decode (leftover first) with
    | none =>
        cases hsecond : Utf16.decode (leftover second) with
        | none => exact Or.inr ⟨rfl, rfl⟩
        | some text =>
            rw [streamAnswerAsync_of_broken hfirst, streamAnswerAsync_letter hsecond] at hletter
            cases hletter
    | some text =>
        cases hsecond : Utf16.decode (leftover second) with
        | none =>
            rw [streamAnswerAsync_of_broken hsecond, streamAnswerAsync_letter hfirst] at hletter
            cases hletter
        | some other =>
            left
            rw [streamAnswerAsync_letter hfirst, streamAnswerAsync_letter hsecond,
              Except.ok.injEq, List.append_cancel_left_eq, List.append_cancel_right_eq] at hletter
            split_ifs at hletter with hnone hnone' hnone'
            · rw [hnone, hnone']
            · simp at hletter
            · simp at hletter
            · exact List.append_cancel_right hletter
  · rintro (hsame | ⟨hfirst, hsecond⟩) steps
    · exact streamAnswerAsync_congr hsame steps
    · rw [streamAnswerAsync_of_broken hfirst, streamAnswerAsync_of_broken hsecond]

/-- The second line of a question is part of the answer. -/
theorem second_line_answered :
    RouterBrain.streamAnswerAsync composeProse [0x61, 0x0A, 0x62] letterSteps ≠
      RouterBrain.streamAnswerAsync composeProse [0x61] letterSteps := by
  rw [streamAnswerAsync_letter (show Utf16.decode (leftover [0x61, 0x0A, 0x62]) = some ['b'] by
      decide),
    streamAnswerAsync_letter (show Utf16.decode (leftover [0x61]) = some [] by decide)]
  decide

end Agent

end NativeInterop
