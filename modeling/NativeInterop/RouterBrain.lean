import NativeInterop.ConversationMemory
import NativeInterop.ForemanTools
import NativeInterop.RawHttp
import Mathlib.Tactic

/-!
# The router and its arguments

Without a language model a tool is picked by the similarity of its description to the
question, with the last turn of the conversation in front of it where that is close enough.
The text that was routed on becomes the argument of the tool, in a JSON literal that the
handler parses again.  The last turn is a stored one: a long text has been cut off, and the
cut may leave half of a surrogate pair, which the parser refuses.
-/

namespace NativeInterop

namespace RawHttp

/-! ## Escaped texts in a document -/

open JsonDocument

theorem escape_body (c : Char) : Body (escape c) ∧ clean (escape c) = true := by
  have hhex : ∀ n, Json.hexDigit (Nat.digitChar (n % 16)) = some (n % 16) := fun n =>
    hexDigit_digitChar _ (Nat.mod_lt n (by decide))
  have hplain : ∀ n rest, Body rest → Body (Nat.digitChar (n % 16) :: rest) := by
    intro n rest hrest
    have hdigit := hhex n
    refine .plain ?_ ?_ hrest
    · intro hquote
      rw [hquote] at hdigit
      cases hdigit
    · intro hslash
      rw [hslash] at hdigit
      cases hdigit
  unfold escape
  split_ifs with hquote hslash hfeed hreturn htab hcontrol
  · exact ⟨.escaped _ .nil, by decide⟩
  · exact ⟨.escaped _ .nil, by decide⟩
  · exact ⟨.escaped _ .nil, by decide⟩
  · exact ⟨.escaped _ .nil, by decide⟩
  · exact ⟨.escaped _ .nil, by decide⟩
  · refine ⟨.escaped _ (hplain _ _ (hplain _ _ (hplain _ _ (hplain _ _ .nil)))), ?_⟩
    simp [Json.unicode, Json.hex4, clean, Scan.step, hhex]
  · refine ⟨.plain hquote hslash .nil, ?_⟩
    rw [clean_cons hslash (by omega)]
    rfl

theorem escaped_body (text : List Char) :
    Body (text.flatMap escape) ∧ clean (text.flatMap escape) = true := by
  induction text with
  | nil => exact ⟨.nil, rfl⟩
  | cons c text ih =>
      obtain ⟨hbody, hclean⟩ := escape_body c
      rw [List.flatMap_cons, clean_append hclean]
      exact ⟨hbody.append ih.1, ih.2⟩

theorem unescape_escaped (text : List Char) :
    JsonElement.unescape (text.flatMap escape) = some (.ofList text) := by
  have hlength := escape_escaping.length_le text
  rw [JsonElement.unescape, Json.readString_escaped escape_escaping text [] (by omega)]
  rfl

end RawHttp

namespace Agent

open JsonDocument

/-- A call, with the tool itself for its name. -/
structure RoutedCall where
  tool : ToolSpec
  argsJson : List UInt16

/-- The encoder and the scores are arbitrary; of a score only its comparisons count. -/
structure DeterministicRouter (Vec Score : Type) where
  tools : List (ToolSpec × Vec)
  embed : List UInt16 → Vec
  cosineSimilarity : Vec → Vec → Score
  greater : Score → Score → Bool
  atLeast : Score → Score → Bool
  negativeInfinity : Score
  threshold : Score
  hintGate : Score

namespace DeterministicRouter

variable {Vec Score : Type}

/-- One code unit in `JsonStringLiteral`. -/
def escapeUnit (unit : UInt16) : List UInt16 :=
  if unit = 0x22 then [0x5C, 0x22]
  else if unit = 0x5C then [0x5C, 0x5C]
  else if unit = 0x0A then [0x5C, 0x6E]
  else if unit = 0x0D then [0x5C, 0x72]
  else if unit = 0x09 then [0x5C, 0x74]
  else if unit < 0x20 then Utf16.encode (Json.unicode Nat.digitChar unit.toNat)
  else [unit]

def jsonStringLiteral (text : List UInt16) : List UInt16 :=
  0x22 :: (text.flatMap escapeUnit ++ [0x22])

/-- The hint is close enough to the question. -/
def folds (router : DeterministicRouter Vec Score) (query : List UInt16) :
    Option (List UInt16) → Bool
  | none => false
  | some hint =>
      hint ≠ [] && router.atLeast
        (router.cosineSimilarity (router.embed query) (router.embed hint)) router.hintGate

def routedText (router : DeterministicRouter Vec Score) (query : List UInt16)
    (contextHint : Option (List UInt16)) : List UInt16 :=
  if router.folds query contextHint then contextHint.getD [] ++ 0x0A :: query else query

/-- The nearest tool so far and its score. -/
def nearer (router : DeterministicRouter Vec Score) (q : Vec)
    (best : Option ToolSpec × Score) (tool : ToolSpec × Vec) : Option ToolSpec × Score :=
  if router.greater (router.cosineSimilarity q tool.2) best.2
  then (some tool.1, router.cosineSimilarity q tool.2) else best

def pick (router : DeterministicRouter Vec Score) (q : Vec) : Option ToolSpec :=
  let best := router.tools.foldl (router.nearer q) (none, router.negativeInfinity)
  if router.greater router.threshold best.2 then none else best.1

/-- The arguments of a call: the routed text under the first parameter. -/
def arguments (tool : ToolSpec) (routed : List UInt16) : List UInt16 :=
  match tool.params with
  | param :: _ =>
      utf16 "\x7b\"" ++ utf16 param.name ++ utf16 "\":" ++ jsonStringLiteral routed ++
        utf16 "\x7d"
  | [] => utf16 "\x7b\x7d"

def route (router : DeterministicRouter Vec Score) (query : List UInt16)
    (contextHint : Option (List UInt16)) : Option RoutedCall :=
  let routed := router.routedText query contextHint
  (router.pick (router.embed routed)).map fun tool => ⟨tool, arguments tool routed⟩

end DeterministicRouter

namespace RouterBrain

variable {Vec Score : Type}

def lastTurnHint (turn : ConversationTurn) : List UInt16 :=
  turn.query ++ utf16 " " ++ turn.answer

/-- The last retained turn, for the router. -/
def hint (history : List ConversationTurn) : Option (List UInt16) :=
  history.getLast?.map lastTurnHint

/-- `DecideAsync`; nothing is an answer. -/
def decideAsync (router : DeterministicRouter Vec Score) (ctx : AgentContext) :
    Option RoutedCall :=
  if ctx.steps.any fun step => step.kind = AgentStep.kindToolResult then none
  else router.route (utf16 ctx.query) (hint ctx.history)

end RouterBrain

/-! ## The literal -/

namespace DeterministicRouter

theorem ofNat_eq_iff {c d : Char} (hc : c.toNat < 0x10000) {unit : UInt16}
    (hunit : unit.toNat = d.toNat) : UInt16.ofNat c.toNat = unit ↔ c = d := by
  rw [← UInt16.toNat_inj, UInt16.toNat_ofNat', Nat.mod_eq_of_lt hc, hunit]
  exact Char.toNat_inj

theorem escapeUnit_large {unit : UInt16} (hlarge : 0x80 ≤ unit.toNat) :
    escapeUnit unit = [unit] := by
  have hne : ∀ other : UInt16, other.toNat < 0x80 → unit ≠ other := by
    rintro other hother rfl
    omega
  have hcontrol : ¬ unit < 0x20 := by
    rw [UInt16.lt_iff_toNat_lt]
    have hspace : (0x20 : UInt16).toNat = 0x20 := rfl
    omega
  simp [escapeUnit, hne 0x22 (by decide), hne 0x5C (by decide), hne 0x0A (by decide),
    hne 0x0D (by decide), hne 0x09 (by decide), hcontrol]

/-- Escaping the units of a character is writing the units of its escape. -/
theorem flatMap_escapeUnit_units (c : Char) :
    (Utf16.units c).flatMap escapeUnit = Utf16.encode (RawHttp.escape c) := by
  by_cases hsmall : c.toNat < 0x10000
  · have hunit : Utf16.units c = [.ofNat c.toNat] := if_pos hsmall
    have hquote : UInt16.ofNat c.toNat = 0x22 ↔ c = '"' :=
      ofNat_eq_iff hsmall (by decide)
    have hslash : UInt16.ofNat c.toNat = 0x5C ↔ c = '\\' :=
      ofNat_eq_iff hsmall (by decide)
    have hfeed : UInt16.ofNat c.toNat = 0x0A ↔ c = '\n' :=
      ofNat_eq_iff hsmall (by decide)
    have hreturn : UInt16.ofNat c.toNat = 0x0D ↔ c = '\r' :=
      ofNat_eq_iff hsmall (by decide)
    have htab : UInt16.ofNat c.toNat = 0x09 ↔ c = '\t' :=
      ofNat_eq_iff hsmall (by decide)
    have hnat : (UInt16.ofNat c.toNat).toNat = c.toNat := by
      rw [UInt16.toNat_ofNat', Nat.mod_eq_of_lt hsmall]
    have hcontrol : UInt16.ofNat c.toNat < 0x20 ↔ c.toNat < 0x20 := by
      rw [UInt16.lt_iff_toNat_lt, hnat]
      rfl
    rw [hunit, List.flatMap_singleton, escapeUnit, RawHttp.escape]
    simp only [hquote, hslash, hfeed, hreturn, htab, hcontrol, hnat]
    split_ifs
    · rfl
    · rfl
    · rfl
    · rfl
    · rfl
    · rfl
    · simp [Utf16.encode, hunit]
  · have hunits : ∀ unit ∈ Utf16.units c, escapeUnit unit = [unit] := by
      intro unit hmem
      apply escapeUnit_large
      rcases Utf16.units_cases c with ⟨other, heq, -⟩ | ⟨high, low, heq, hhigh, hlow, -⟩
      · simp [Utf16.units, hsmall] at heq
      · simp only [Utf16.isHigh, Utf16.isLow, Bool.and_eq_true, decide_eq_true_eq] at hhigh hlow
        rw [heq] at hmem
        rcases List.mem_pair.mp hmem with rfl | rfl
        · omega
        · omega
    rw [RawHttp.escape_large (by omega), List.flatMap_congr hunits]
    simp [Utf16.encode]

theorem flatMap_escapeUnit_encode (text : List Char) :
    (Utf16.encode text).flatMap escapeUnit = Utf16.encode (text.flatMap RawHttp.escape) := by
  induction text with
  | nil => rfl
  | cons c text ih =>
      have hsplit : Utf16.encode (c :: text) = Utf16.units c ++ Utf16.encode text := rfl
      rw [hsplit, List.flatMap_append, flatMap_escapeUnit_units, ih, List.flatMap_cons,
        Utf16.encode_append]

/-! ## What the handler receives -/

/-- The arguments up to the routed text. -/
def argumentsOpening (param : ToolParam) : List Char :=
  ['{', '"'] ++ param.name.toList ++ ['"', ':', '"']

theorem arguments_eq {tool : ToolSpec} {param : ToolParam} {more : List ToolParam}
    (hparams : tool.params = param :: more) (routed : List UInt16) :
    arguments tool routed =
      Utf16.encode (argumentsOpening param) ++
        (routed.flatMap escapeUnit ++ Utf16.encode ['"', '}']) := by
  have hopening : utf16 "\x7b\"" = Utf16.encode ['{', '"'] := by decide
  have hcolon : utf16 "\":" ++ [0x22] = Utf16.encode ['"', ':', '"'] := by decide
  have hclosing : 0x22 :: utf16 "\x7d" = Utf16.encode ['"', '}'] := by decide
  rw [arguments, hparams, argumentsOpening, Utf16.encode_append, Utf16.encode_append, ← hopening,
    ← hcolon, ← hclosing, ← utf16_eq]
  simp [jsonStringLiteral]

/-- A well-formed text comes back. -/
theorem getString_arguments {tool : ToolSpec} {param : ToolParam} {more : List ToolParam}
    (hparams : tool.params = param :: more) (text : List Char) :
    ForemanTools.getString (arguments tool (Utf16.encode text)) param.name =
      .ok (.ofList text) := by
  have hplain := plain_of_identifierSafe param.safe
  obtain ⟨hbody, hclean⟩ := RawHttp.escaped_body text
  have hdocument : arguments tool (Utf16.encode text) =
      Utf16.encode
        ('{' :: (strings [(param.name.toList, text.flatMap RawHttp.escape)] ++ ['}'])) := by
    rw [arguments_eq hparams, flatMap_escapeUnit_encode, ← Utf16.encode_append,
      ← Utf16.encode_append]
    simp [argumentsOpening, strings, quoted]
  have hparse : parseChars
      ('{' :: (strings [(param.name.toList, text.flatMap RawHttp.escape)] ++ ['}'])) =
        some (.object [stringProperty (param.name.toList, text.flatMap RawHttp.escape)]) := by
    rw [parseChars_strings (by simpa using ⟨body_of_plain hplain, clean_of_plain hplain⟩)
      (by simpa using hbody), if_pos (by simpa using hclean)]
    rfl
  have hname := unescape_plain hplain
  rw [ForemanTools.getString, hdocument, parse_encode, hparse]
  simp [JsonElement.tryGetProperty, stringProperty, hname, JsonElement.getString,
    RawHttp.unescape_escaped]

/-- With half of a pair in it, nothing does. -/
theorem getString_lone {tool : ToolSpec} {param : ToolParam} {more : List ToolParam}
    (hparams : tool.params = param :: more) (front : List Char) {high : UInt16}
    (hhigh : Utf16.isHigh high = true) (rest : List UInt16) :
    ForemanTools.getString (arguments tool (Utf16.encode front ++ high :: 0x2026 :: rest))
      param.name = .error .argumentException := by
  have hlarge : 0x80 ≤ high.toNat := by
    simp only [Utf16.isHigh, Bool.and_eq_true, decide_eq_true_eq] at hhigh
    omega
  have hsplit : arguments tool (Utf16.encode front ++ high :: 0x2026 :: rest) =
      Utf16.encode (argumentsOpening param ++ front.flatMap RawHttp.escape) ++
        high :: 0x2026 :: (rest.flatMap escapeUnit ++ Utf16.encode ['"', '}']) := by
    have hdots : escapeUnit 0x2026 = [0x2026] := by decide
    rw [arguments_eq hparams, List.flatMap_append, flatMap_escapeUnit_encode, List.flatMap_cons,
      List.flatMap_cons, escapeUnit_large hlarge, hdots, Utf16.encode_append]
    simp
  rw [ForemanTools.getString, parse, hsplit, Utf16.decode_lone _ hhigh (by decide)]

end DeterministicRouter

namespace RouterBrain

open ConversationSession (clamp maxQueryChars maxAnswerChars)

/-! ## The last turn -/

/-- The turns of a conversation, appended one after the other. -/
def remembered (turns : List (String × String)) : ConversationSession :=
  turns.foldl (fun session turn => session.append turn.1 turn.2) .empty

def stored (turn : String × String) : ConversationTurn where
  query := clamp (utf16 turn.1) maxQueryChars
  answer := clamp (utf16 turn.2) maxAnswerChars

theorem getLast?_append (session : ConversationSession) (turn : String × String) :
    (session.append turn.1 turn.2).turns.getLast? = some (stored turn) := by
  have hbounded := session.bounded
  rw [ConversationSession.append_eq_appendUnits, ConversationSession.turns_appendUnits,
    List.getLast?_drop, if_neg, List.getLast?_concat]
  · rfl
  rw [List.length_append, List.length_singleton, ConversationSession.maxTurns]
  omega

/-- The last turn retained is the last one there was. -/
theorem getLast?_remembered (turns : List (String × String)) :
    (remembered turns).turns.getLast? = turns.getLast?.map stored := by
  rcases List.eq_nil_or_concat turns with rfl | ⟨earlier, turn, rfl⟩
  · rfl
  · rw [List.concat_eq_append, remembered, List.foldl_concat, getLast?_append,
      List.getLast?_concat]
    rfl

/-- A stored text is well-formed, or what it was cut to ends in half of a pair. -/
theorem clamp_whole {text : String} {max : ℕ} (hwhole : Utf16.splits (utf16 text) max = false) :
    ∃ chars, clamp (utf16 text) max = Utf16.encode chars := by
  rw [clamp]
  split_ifs with hshort
  · exact ⟨text.toList, rfl⟩
  · obtain ⟨front, htake⟩ := Utf16.take_of_not_splits hwhole
    refine ⟨front ++ ConversationSession.truncatedSuffix.toList, ?_⟩
    rw [Utf16.encode_append, ← htake]
    rfl

theorem clamp_split {text : String} {max : ℕ} (hsplits : Utf16.splits (utf16 text) max = true) :
    ∃ front high rest, Utf16.isHigh high = true ∧
      clamp (utf16 text) max = Utf16.encode front ++ high :: 0x2026 :: rest := by
  rw [utf16_eq] at hsplits ⊢
  obtain ⟨front, high, hhigh, htake⟩ := Utf16.take_of_splits hsplits
  have hlong : ¬ (Utf16.encode text.toList).length ≤ max := by
    intro hshort
    rw [List.take_of_length_le hshort] at htake
    have hlast : (Utf16.encode text.toList).getLast? = some high := by
      rw [htake, List.getLast?_concat]
    rw [Utf16.getLast?_encode hlast] at hhigh
    cases hhigh
  obtain ⟨rest, hsuffix⟩ : ∃ rest, utf16 ConversationSession.truncatedSuffix = 0x2026 :: rest :=
    ⟨(utf16 ConversationSession.truncatedSuffix).tail, by decide⟩
  refine ⟨front, high, rest, hhigh, ?_⟩
  rw [clamp, if_neg hlong, htake, hsuffix]
  simp

/-- The hint has half of a pair in it. -/
def Broken (turn : String × String) : Prop :=
  Utf16.splits (utf16 turn.1) maxQueryChars = true ∨
    Utf16.splits (utf16 turn.2) maxAnswerChars = true

theorem lastTurnHint_whole {turn : String × String} (hwhole : ¬ Broken turn) :
    ∃ chars, lastTurnHint (stored turn) = Utf16.encode chars := by
  rw [Broken, not_or, Bool.not_eq_true, Bool.not_eq_true] at hwhole
  obtain ⟨query, hquery⟩ := clamp_whole hwhole.1
  obtain ⟨answer, hanswer⟩ := clamp_whole hwhole.2
  refine ⟨query ++ [' '] ++ answer, ?_⟩
  rw [lastTurnHint, stored, hquery, hanswer, Utf16.encode_append, Utf16.encode_append]
  rfl

theorem lastTurnHint_broken {turn : String × String} (hbroken : Broken turn) :
    ∃ front high rest, Utf16.isHigh high = true ∧
      lastTurnHint (stored turn) = Utf16.encode front ++ high :: 0x2026 :: rest := by
  rw [lastTurnHint, stored]
  by_cases hquery : Utf16.splits (utf16 turn.1) maxQueryChars = true
  · obtain ⟨front, high, rest, hhigh, hclamp⟩ := clamp_split hquery
    exact ⟨front, high, rest ++ (utf16 " " ++ clamp (utf16 turn.2) maxAnswerChars), hhigh,
      by simp [hclamp]⟩
  · obtain ⟨query, hclamp⟩ := clamp_whole (Bool.eq_false_iff.mpr hquery)
    obtain ⟨front, high, rest, hhigh, hanswer⟩ := clamp_split (hbroken.resolve_left hquery)
    refine ⟨query ++ [' '] ++ front, high, rest, hhigh, ?_⟩
    rw [hclamp, hanswer, Utf16.encode_append, Utf16.encode_append]
    simp
    rfl

/-! ## The round trip -/

variable {Vec Score : Type}

/-- The handler of a tool gets the text back from its parameter. -/
def Receives (call : RoutedCall) (param : ToolParam) (routed : List UInt16) : Prop :=
  ∃ text, ForemanTools.getString call.argsJson param.name = .ok text ∧ utf16 text = routed

theorem argsJson_of_decideAsync {router : DeterministicRouter Vec Score} {ctx : AgentContext}
    {call : RoutedCall} (hdecide : decideAsync router ctx = some call) :
    call.argsJson = DeterministicRouter.arguments call.tool
      (router.routedText (utf16 ctx.query) (hint ctx.history)) := by
  rw [decideAsync] at hdecide
  split_ifs at hdecide
  obtain ⟨tool, -, rfl⟩ := Option.map_eq_some_iff.mp hdecide
  rfl

theorem receives_encode {call : RoutedCall} {param : ToolParam} {more : List ToolParam}
    (hparams : call.tool.params = param :: more) {text : List Char}
    (hargs : call.argsJson = DeterministicRouter.arguments call.tool (Utf16.encode text)) :
    Receives call param (Utf16.encode text) := by
  refine ⟨.ofList text, ?_, ?_⟩
  · rw [hargs, DeterministicRouter.getString_arguments hparams]
  · rw [utf16_eq, String.toList_ofList]

theorem not_receives_lone {call : RoutedCall} {param : ToolParam} {more : List ToolParam}
    (hparams : call.tool.params = param :: more) {front : List Char} {high : UInt16}
    (hhigh : Utf16.isHigh high = true) {rest routed : List UInt16}
    (hargs : call.argsJson =
      DeterministicRouter.arguments call.tool (Utf16.encode front ++ high :: 0x2026 :: rest)) :
    ¬ Receives call param routed := by
  rintro ⟨text, htext, -⟩
  rw [hargs, DeterministicRouter.getString_lone hparams front hhigh] at htext
  cases htext

theorem not_receives_broken {call : RoutedCall} {param : ToolParam} {more : List ToolParam}
    (hparams : call.tool.params = param :: more) {turn : String × String}
    (hbroken : Broken turn) {query routed : List UInt16}
    (hargs : call.argsJson =
      DeterministicRouter.arguments call.tool (lastTurnHint (stored turn) ++ 0x0A :: query)) :
    ¬ Receives call param routed := by
  obtain ⟨front, high, rest, hhigh, hhint⟩ := lastTurnHint_broken hbroken
  have hlone : lastTurnHint (stored turn) ++ 0x0A :: query =
      Utf16.encode front ++ high :: 0x2026 :: (rest ++ 0x0A :: query) := by
    simp [hhint]
  rw [hlone] at hargs
  exact not_receives_lone hparams hhigh hargs

theorem routedText_folded {router : DeterministicRouter Vec Score} {query : List UInt16}
    {turns : List (String × String)}
    (hfolds : router.folds query (hint (remembered turns).turns) = true) :
    ∃ turn, turns.getLast? = some turn ∧
      router.routedText query (hint (remembered turns).turns) =
        lastTurnHint (stored turn) ++ 0x0A :: query := by
  have hhint : hint (remembered turns).turns =
      (turns.getLast?.map stored).map lastTurnHint := by
    rw [hint, getLast?_remembered]
  rw [DeterministicRouter.routedText, if_pos hfolds, hhint]
  cases hlast : turns.getLast? with
  | none =>
      rw [hhint, hlast] at hfolds
      cases hfolds
  | some turn => exact ⟨turn, rfl, rfl⟩

/-- The routed text reaches the handler if the last turn is not folded in, or if neither of
its texts was cut off inside a surrogate pair; and only then. -/
theorem receives_iff (router : DeterministicRouter Vec Score) (turns : List (String × String))
    (steps : List AgentStep) (query : String) {call : RoutedCall} {param : ToolParam}
    {more : List ToolParam}
    (hdecide : decideAsync router ⟨query, steps, (remembered turns).turns⟩ = some call)
    (hparams : call.tool.params = param :: more) :
    Receives call param (router.routedText (utf16 query) (hint (remembered turns).turns)) ↔
      (router.folds (utf16 query) (hint (remembered turns).turns) = true →
        ∀ turn ∈ turns.getLast?, ¬ Broken turn) := by
  have hargs := argsJson_of_decideAsync hdecide
  by_cases hfolds : router.folds (utf16 query) (hint (remembered turns).turns) = true
  · obtain ⟨turn, hlast, hrouted⟩ := routedText_folded hfolds
    have hcondition : (router.folds (utf16 query) (hint (remembered turns).turns) = true →
        ∀ turn ∈ turns.getLast?, ¬ Broken turn) ↔ ¬ Broken turn := by
      simp [hfolds, hlast]
    dsimp only at hargs
    rw [hcondition, hrouted]
    rw [hrouted] at hargs
    by_cases hbroken : Broken turn
    · simp [hbroken, not_receives_broken hparams hbroken hargs]
    · obtain ⟨chars, hhint⟩ := lastTurnHint_whole hbroken
      have hwhole : lastTurnHint (stored turn) ++ 0x0A :: utf16 query =
          Utf16.encode (chars ++ '\n' :: query.toList) := by
        rw [hhint, Utf16.encode_append]
        rfl
      rw [hwhole] at hargs ⊢
      simp [hbroken, receives_encode hparams hargs]
  · have hrouted : router.routedText (utf16 query) (hint (remembered turns).turns) =
        utf16 query := by
      rw [DeterministicRouter.routedText, if_neg hfolds]
    rw [hrouted] at hargs ⊢
    constructor
    · exact fun _ hyes => absurd hyes hfolds
    · intro _
      exact receives_encode hparams hargs

/-- An encoder to which all texts are equally close, in thousandths. -/
def indifferent : DeterministicRouter Unit ℤ where
  tools := ForemanTools.build.map fun tool => (tool, ())
  embed := fun _ => ()
  cosineSimilarity := fun _ _ => 300
  greater := fun left right => right < left
  atLeast := fun left right => right ≤ left
  negativeInfinity := -1001
  threshold := 250
  hintGate := 50

theorem folds_indifferent {turns : List (String × String)} (hturns : turns ≠ [])
    (query : List UInt16) : indifferent.folds query (hint (remembered turns).turns) = true := by
  rw [hint, getLast?_remembered]
  cases hlast : turns.getLast? with
  | none => exact absurd (List.getLast?_eq_none_iff.mp hlast) hturns
  | some turn => simp [DeterministicRouter.folds, indifferent, lastTurnHint, utf16]

theorem decideAsync_indifferent (query : String) (history : List ConversationTurn) :
    decideAsync indifferent ⟨query, [], history⟩ =
      some ⟨ForemanTools.searchManuals, DeterministicRouter.arguments ForemanTools.searchManuals
        (indifferent.routedText (utf16 query) (hint history))⟩ := rfl

def followUp : String := "how do I clear THAT?"

theorem receives_iff_followUp :
    ∃ call, decideAsync indifferent
        ⟨followUp, [], (remembered [("search the manuals for fault E3", "E3: 😀")]).turns⟩ =
          some call ∧
      Receives call ⟨"query", rfl⟩ (indifferent.routedText (utf16 followUp)
        (hint (remembered [("search the manuals for fault E3", "E3: 😀")]).turns)) := by
  refine ⟨_, decideAsync_indifferent _ _, ?_⟩
  refine (receives_iff indifferent _ [] followUp (decideAsync_indifferent _ _) rfl).mpr ?_
  intro _ turn hturn
  rw [List.getLast?_singleton, Option.mem_some_iff] at hturn
  subst hturn
  rw [Broken]
  decide

/-- A text whose last two code units are a pair. -/
def pairBehind (n : ℕ) : String := .ofList (List.replicate n 'a' ++ ['😀'])

theorem splits_pairBehind (n : ℕ) : Utf16.splits (utf16 (pairBehind n)) (n + 1) = true := by
  have hlength : (Utf16.encode (List.replicate n 'a')).length = n := by
    induction n with
    | zero => rfl
    | succ n ih =>
        have hsplit : Utf16.encode (List.replicate (n + 1) 'a') =
            0x61 :: Utf16.encode (List.replicate n 'a') := rfl
        rw [hsplit, List.length_cons, ih]
  have hpair : Utf16.encode ['😀'] = 0xD83D :: [0xDE00] := by decide
  have hsplits := Utf16.splits_pair (Utf16.encode (List.replicate n 'a'))
    (show Utf16.isHigh 0xD83D = true by decide) [0xDE00]
  rw [hlength] at hsplits
  rw [utf16_eq, pairBehind, String.toList_ofList, Utf16.encode_append, hpair]
  exact hsplits

/-- A question of 501 code units. -/
def longQuery : String := pairBehind 499

theorem broken_longQuery (answer : String) : Broken (longQuery, answer) :=
  Or.inl (splits_pairBehind 499)

/-- Asked after that question, the follow-up does not reach the handler. -/
theorem not_receives_longQuery :
    ∃ call, decideAsync indifferent ⟨followUp, [], (remembered [(longQuery, "ok")]).turns⟩ =
        some call ∧ call.tool = ForemanTools.searchManuals ∧
      ¬ Receives call ⟨"query", rfl⟩ (indifferent.routedText (utf16 followUp)
        (hint (remembered [(longQuery, "ok")]).turns)) := by
  obtain ⟨turn, hlast, hrouted⟩ := routedText_folded
    (folds_indifferent (List.cons_ne_nil (longQuery, "ok") []) (utf16 followUp))
  rw [List.getLast?_singleton, Option.some.injEq] at hlast
  subst hlast
  refine ⟨_, decideAsync_indifferent _ _, rfl, ?_⟩
  rw [hrouted]
  exact not_receives_broken rfl (broken_longQuery "ok") rfl

end RouterBrain

end Agent

end NativeInterop
