import NativeInterop.Json
import Mathlib.Tactic

/-!
# The status fragment of an agent session

`ForemanLanguageModel` sends the outcome of a turn in the stream of its answer: the
last fragment is a control character, a readable tag and a JSON object.  The clients
take a fragment for the status by its first character alone, and look for the object
behind the tag.
-/

namespace NativeInterop

namespace Agent

inductive ForemanStopReason where
  | answered
  | stepCapReached
  | error
  deriving DecidableEq, Repr

/-- The name `UseStringEnumConverter` writes. -/
def ForemanStopReason.name : ForemanStopReason → String
  | .answered => "Answered"
  | .stepCapReached => "StepCapReached"
  | .error => "Error"

structure AgentSessionStatus where
  stopReason : ForemanStopReason
  toolSteps : BitVec 32
  backend : String
  deriving DecidableEq, Repr

/-! ## The encoder -/

def upperHex (d : ℕ) : Char :=
  (Nat.digitChar d).toUpper

/-- What `JavaScriptEncoder.Default` leaves as it is. -/
def isAllowed (c : Char) : Bool :=
  0x20 ≤ c.toNat && c.toNat < 0x7F &&
    !(['"', '&', '\x27', '+', '<', '>', '\\', '\x60'].contains c)

/-- One character of a string as `JsonSerializer` writes it. -/
def jsonEscape (c : Char) : List Char :=
  if c = '\x08' then ['\\', 'b']
  else if c = '\t' then ['\\', 't']
  else if c = '\n' then ['\\', 'n']
  else if c = '\x0c' then ['\\', 'f']
  else if c = '\r' then ['\\', 'r']
  else if c = '\\' then ['\\', '\\']
  else if isAllowed c then [c]
  else if c.toNat < 0x10000 then Json.unicode upperHex c.toNat
  else Json.surrogates upperHex c.toNat

def AgentSessionStatus.members (status : AgentSessionStatus) : List (String × Json.Scalar) :=
  [("stopReason", .string status.stopReason.name), ("toolSteps", .int status.toolSteps.toInt),
    ("backend", .string status.backend)]

def statusTag : List Char := "dni.agent.status".toList

def statusMarker : List Char := '\x01' :: statusTag

def statusFragment (status : AgentSessionStatus) : String :=
  .ofList (statusMarker ++ Json.writeObject jsonEscape status.members)

/-! ## The decoders -/

structure AgentTurnStatus where
  stopReason : ForemanStopReason
  toolSteps : ℤ
  backend : String
  deriving DecidableEq, Repr

inductive AgentFragment where
  | answer (text : String)
  | status (status : AgentTurnStatus)
  deriving DecidableEq, Repr

/-- What follows the first occurrence of a tag. -/
def afterTag (tag : List Char) : List Char → Option (List Char)
  | [] => if tag = [] then some [] else none
  | c :: rest => if tag <+: c :: rest then some ((c :: rest).drop tag.length) else afterTag tag rest

def readStopReason (name : String) : Option ForemanStopReason :=
  [.answered, .stepCapReached, .error].find? fun reason => reason.name = name

/-- `RawAgentSessionStatus`, whose count is an integer of the given width. -/
def decodeStatus (width : ℕ) (payload : List Char) : Option AgentTurnStatus := do
  let json ← Json.parse payload
  let name ← (json.field "stopReason").bind Json.asString
  let stopReason ← readStopReason name
  let toolSteps ← (json.field "toolSteps").bind Json.asInt
  let backend ← (json.field "backend").bind Json.asString
  if -2 ^ (width - 1) ≤ toolSteps ∧ toolSteps < 2 ^ (width - 1) then
    some ⟨stopReason, toolSteps, backend⟩
  else none

/-- `parseAgentFragment`, or nothing where it throws. -/
def parseAgentFragment (width : ℕ) (text : String) : Option AgentFragment :=
  if text.toList.head? = some '\x01' then do
    let payload ← afterTag statusTag text.toList
    let status ← decodeStatus width payload
    some (.status status)
  else some (.answer text)

def parseAgentFragmentKotlin : String → Option AgentFragment := parseAgentFragment 32

def parseAgentFragmentSwift : String → Option AgentFragment := parseAgentFragment 64

/-! ## The status comes back -/

theorem hexDigit_upperHex : ∀ d < 16, Json.hexDigit (upperHex d) = some d := by
  decide

theorem jsonEscape_escaping : Json.Escaping jsonEscape where
  reads := by
    intro c rest
    unfold jsonEscape
    split_ifs with hbackspace htab hfeed hform hreturn hslash hallowed hunit
    · subst hbackspace
      rfl
    · subst htab
      rfl
    · subst hfeed
      rfl
    · subst hform
      rfl
    · subst hreturn
      rfl
    · subst hslash
      rfl
    · simp only [isAllowed, Bool.and_eq_true, decide_eq_true_eq] at hallowed
      have hprintable : ¬ c.toNat < 0x20 := by omega
      simp [Json.readChar, hslash, hprintable]
    · exact Json.readChar_unicode hexDigit_upperHex hunit rest
    · exact Json.readChar_surrogates hexDigit_upperHex (Nat.not_lt.mp hunit) rest
  unquoted := by
    intro c
    unfold jsonEscape
    split_ifs with hbackspace htab hfeed hform hreturn hslash hallowed
    any_goals simp [Json.surrogates, Json.unicode]
    rintro rfl
    cases hallowed

theorem readStopReason_name (reason : ForemanStopReason) :
    readStopReason reason.name = some reason := by
  cases reason <;> rfl

theorem decodeStatus_members {width : ℕ} (hwidth : 32 ≤ width) (status : AgentSessionStatus) :
    decodeStatus width (Json.writeObject jsonEscape status.members) =
      some ⟨status.stopReason, status.toolSteps.toInt, status.backend⟩ := by
  have hlow := status.toolSteps.le_toInt
  have hhigh := status.toolSteps.toInt_lt
  have hpow : (2 : ℤ) ^ (32 - 1) ≤ 2 ^ (width - 1) :=
    pow_le_pow_right₀ (by decide) (by omega)
  have hrange : -2 ^ (width - 1) ≤ status.toolSteps.toInt ∧
      status.toolSteps.toInt < 2 ^ (width - 1) := ⟨by linarith, by linarith⟩
  simp [decodeStatus, Json.parse_writeObject jsonEscape_escaping, AgentSessionStatus.members,
    Json.field, Json.Scalar.json, Json.asInt_integer, Json.asString, readStopReason_name, hrange]

theorem afterTag_statusMarker (payload : List Char) :
    afterTag statusTag (statusMarker ++ payload) = some payload := by
  have htag : statusTag = 'd' :: "ni.agent.status".toList := rfl
  have hcontrol : ¬ statusTag <+: '\x01' :: (statusTag ++ payload) := by
    rw [htag, List.cons_prefix_cons]
    rintro ⟨hfirst, _⟩
    revert hfirst
    decide
  have hsecond : statusTag <+: 'd' :: ("ni.agent.status".toList ++ payload) :=
    List.prefix_append statusTag payload
  rw [statusMarker, List.cons_append, afterTag, if_neg hcontrol, htag, List.cons_append,
    afterTag, ← htag, if_pos hsecond, htag]
  have hdrop : (statusTag ++ payload).drop statusTag.length = payload := List.drop_left
  exact congrArg some hdrop

theorem parse_statusFragment {width : ℕ} (hwidth : 32 ≤ width) (status : AgentSessionStatus) :
    parseAgentFragment width (statusFragment status) =
      some (.status ⟨status.stopReason, status.toolSteps.toInt, status.backend⟩) := by
  have hhead : (statusMarker ++ Json.writeObject jsonEscape status.members).head? =
      some '\x01' := rfl
  simp [parseAgentFragment, statusFragment, hhead, afterTag_statusMarker,
    decodeStatus_members hwidth]

/-- A text is taken for answer text exactly if it does not begin with the control
character. -/
theorem parse_eq_answer_iff (width : ℕ) (text : String) :
    parseAgentFragment width text = some (.answer text) ↔
      text.toList.head? ≠ some '\x01' := by
  unfold parseAgentFragment
  split_ifs with hhead
  · simp [hhead, Option.bind_eq_some_iff]
  · simp [hhead]

end Agent

end NativeInterop
