import NativeInterop.LlamaLanguageModel
import NativeInterop.RouterProse
import NativeInterop.Unicode
import Mathlib.Tactic

/-!
# The chat client

`DniChatClient` counts the fragments of a backend and infers from their number why the answer
has ended.  The two backends that put out an answer word by word stop at the same cap; here the
inference is compared with what they have left out.
-/

namespace NativeInterop

open Agent (SearchResult compose utf16)
open LlamaLanguageModel (InferenceRequest)

namespace Meai

abbrev Text := List UInt16

abbrev Request := InferenceRequest (BitVec 32)

/-! ## Backends -/

/-- What `GenerateAsync` yields, and whether an exception ends it. -/
structure Generation where
  fragments : List Text
  throws : Bool
  deriving DecidableEq

structure LanguageModel where
  typeName : String
  generateAsync : Request → Generation

def splitWords (answer : Text) : List Text := answer.splitOn 0x20

/-- Every fragment but the first has a space in front. -/
def wordFragments (words : List Text) (maxTokens : BitVec 32) : List Text :=
  (words.take (min (words.length : ℤ) maxTokens.toInt).toNat).zipIdx.map fun entry =>
    if entry.2 = 0 then entry.1 else 0x20 :: entry.1

/-- A backend with an answer that it puts out word by word. -/
def wordModel (typeName : String) (answer : String → Text) : LanguageModel where
  typeName := typeName
  generateAsync := fun request =>
    ⟨wordFragments (splitWords (answer request.prompt)) request.maxTokens, false⟩

def extractiveAnswer (search : String → String → ℕ → List SearchResult) (topK : ℕ)
    (prompt : String) : Text :=
  compose (search prompt "manuals" topK)

def extractiveLanguageModel (search : String → String → ℕ → List SearchResult) (topK : ℕ) :
    LanguageModel :=
  wordModel "ExtractiveLanguageModel" (extractiveAnswer search topK)

def buildResponse (prompt : String) : Text :=
  let trimmed := Unicode.trim Unicode.isWhiteSpaceCSharp prompt.toList
  let echo := if trimmed = [] then "(empty prompt)" else String.ofList trimmed
  utf16 ("You asked: \"" ++ echo ++ "\". Running fully on-device, this reply is produced by " ++
    "the DotnetNativeInterop .NET 10 NativeAOT engine and streamed token-by-token across the " ++
    "interop boundary you selected.")

def mockLanguageModel : LanguageModel := wordModel "MockLanguageModel" buildResponse

/-! ## The client -/

structure ChatMessage where
  role : String
  text : String
  deriving DecidableEq

inductive PropertyValue where
  | string (value : String)
  | other
  deriving DecidableEq

structure ChatOptions where
  maxOutputTokens : Option (BitVec 32)
  temperature : Option (BitVec 32)
  additionalProperties : Option (String → Option PropertyValue)

inductive ChatFinishReason where
  | length
  | stop
  deriving DecidableEq, Repr

structure ChatResponse where
  text : Text
  modelId : String
  finishReason : ChatFinishReason
  deriving DecidableEq

structure ChatResponseUpdate where
  text : Text
  modelId : String
  finishReason : Option ChatFinishReason
  deriving DecidableEq

structure DniChatClient where
  model : LanguageModel
  modelId : Option String

def grammarPropertyKey : String := "dni.grammar"

def appendMessage (prompt : String) (message : ChatMessage) : String :=
  (if prompt = "" then prompt else prompt ++ "\n") ++ message.role ++ ": " ++ message.text

/-- The grammar is taken from a property that is a string with something in it. -/
def grammarOf (options : ChatOptions) : Option String :=
  match (options.additionalProperties.bind fun properties => properties grammarPropertyKey) with
  | some (.string value) => if value = "" then none else some value
  | _ => none

/-- `0x3F4CCCCD` is the single-precision `0.8`. -/
def buildRequest (messages : List ChatMessage) (options : Option ChatOptions) : Request where
  prompt := messages.foldl appendMessage ""
  maxTokens := (options.bind ChatOptions.maxOutputTokens).getD 256
  temperature := (options.bind ChatOptions.temperature).getD 0x3F4CCCCD
  grammar := options.bind grammarOf

def finishReason (fragments maxTokens : BitVec 32) : ChatFinishReason :=
  if maxTokens.toInt ≤ fragments.toInt then .length else .stop

namespace DniChatClient

variable (client : DniChatClient) (messages : List ChatMessage) (options : Option ChatOptions)

def id : String := client.modelId.getD client.model.typeName

/-- The loop over the fragments, with the text and the count. -/
def gather (fragments : List Text) : Text × BitVec 32 :=
  fragments.foldl (fun gathered fragment => (gathered.1 ++ fragment, gathered.2 + 1)) ([], 0)

/-- `GetResponseAsync`, which hands an exception on. -/
def getResponseAsync : Option ChatResponse :=
  let request := buildRequest messages options
  let generation := client.model.generateAsync request
  if generation.throws then none
  else
    let (text, fragments) := gather generation.fragments
    some ⟨text, client.id, finishReason fragments request.maxTokens⟩

/-- The loop over the fragments, with the updates and the count. -/
def stream (fragments : List Text) : List ChatResponseUpdate × BitVec 32 :=
  fragments.foldl (fun streamed fragment =>
    (streamed.1 ++ [⟨fragment, client.id, none⟩], streamed.2 + 1)) ([], 0)

/-- The updates of `GetStreamingResponseAsync`, and whether an exception ends them. -/
def getStreamingResponseAsync : List ChatResponseUpdate × Bool :=
  let request := buildRequest messages options
  let generation := client.model.generateAsync request
  let (updates, fragments) := client.stream generation.fragments
  if generation.throws then (updates, true)
  else (updates ++ [⟨[], client.id, some (finishReason fragments request.maxTokens)⟩], false)

end DniChatClient

/-- `ToChatResponse`: the texts one behind the other, and the last reason that is given. -/
def aggregate (updates : List ChatResponseUpdate) : Text × Option ChatFinishReason :=
  (updates.flatMap ChatResponseUpdate.text,
    (updates.filterMap ChatResponseUpdate.finishReason).getLast?)

/-! ## Both calls -/

/-- Both calls throw, or they give one text and one reason. -/
def CallsAgree (client : DniChatClient) (messages : List ChatMessage)
    (options : Option ChatOptions) : Prop :=
  (client.getStreamingResponseAsync messages options).2 =
      (client.getResponseAsync messages options).isNone ∧
    ∀ response ∈ client.getResponseAsync messages options,
      aggregate (client.getStreamingResponseAsync messages options).1 =
        (response.text, some response.finishReason)

theorem gather_concat (fragments : List Text) (fragment : Text) :
    DniChatClient.gather (fragments ++ [fragment]) =
      ((DniChatClient.gather fragments).1 ++ fragment,
        (DniChatClient.gather fragments).2 + 1) := by
  rw [DniChatClient.gather, List.foldl_append]
  rfl

theorem stream_concat (client : DniChatClient) (fragments : List Text) (fragment : Text) :
    client.stream (fragments ++ [fragment]) =
      ((client.stream fragments).1 ++ [⟨fragment, client.id, none⟩],
        (client.stream fragments).2 + 1) := by
  rw [DniChatClient.stream, List.foldl_append]
  rfl

theorem gather_eq (fragments : List Text) :
    DniChatClient.gather fragments = (fragments.flatten, BitVec.ofNat 32 fragments.length) := by
  induction fragments using List.reverseRecOn with
  | nil => rfl
  | append_singleton fragments fragment ih =>
      rw [gather_concat, ih]
      simp [BitVec.ofNat_add]

theorem stream_eq (client : DniChatClient) (fragments : List Text) :
    client.stream fragments =
      (fragments.map fun fragment => ⟨fragment, client.id, none⟩,
        BitVec.ofNat 32 fragments.length) := by
  induction fragments using List.reverseRecOn with
  | nil => rfl
  | append_singleton fragments fragment ih =>
      rw [stream_concat, ih]
      simp [BitVec.ofNat_add]

theorem aggregate_stream (client : DniChatClient) (fragments : List Text)
    (reason : ChatFinishReason) :
    aggregate ((client.stream fragments).1 ++ [⟨[], client.id, some reason⟩]) =
      (fragments.flatten, some reason) := by
  have hnone : (fragments.map fun fragment =>
      (⟨fragment, client.id, none⟩ : ChatResponseUpdate)).filterMap
        ChatResponseUpdate.finishReason = [] := by
    simp
  rw [stream_eq, aggregate, List.filterMap_append, hnone, List.flatMap_append, List.flatMap_map]
  simp [List.flatMap]

theorem callsAgree (client : DniChatClient) (messages : List ChatMessage)
    (options : Option ChatOptions) : CallsAgree client messages options := by
  unfold CallsAgree DniChatClient.getStreamingResponseAsync DniChatClient.getResponseAsync
  simp only
  cases (client.model.generateAsync (buildRequest messages options)).throws with
  | true => exact ⟨rfl, nofun⟩
  | false =>
      refine ⟨rfl, ?_⟩
      intro response hresponse
      cases hresponse
      rw [if_neg Bool.false_ne_true, gather_eq, aggregate_stream, stream_eq]

/-! ## The reason -/

/-- The backend leaves words of the answer out. -/
def CutOff (answer : Text) (request : Request) : Prop :=
  request.maxTokens.toInt < (splitWords answer).length

instance (answer : Text) (request : Request) : Decidable (CutOff answer request) :=
  inferInstanceAs (Decidable (_ < _))

/-- What an honest client reports about a backend with these answers. -/
def Honest (model : LanguageModel) (answer : String → Text) (modelId : Option String)
    (messages : List ChatMessage) (options : Option ChatOptions) : Prop :=
  ∃ response, DniChatClient.getResponseAsync ⟨model, modelId⟩ messages options = some response ∧
    response.finishReason =
      if CutOff (answer (buildRequest messages options).prompt) (buildRequest messages options)
      then .length else .stop

theorem length_wordFragments (words : List Text) (maxTokens : BitVec 32) :
    (wordFragments words maxTokens).length = min words.length maxTokens.toInt.toNat := by
  rw [wordFragments, List.length_map, List.length_zipIdx, List.length_take]
  omega

/-- The count of the fragments does not wrap, for the cap is an integer of the same width. -/
theorem toInt_length_wordFragments (words : List Text) (maxTokens : BitVec 32) :
    (BitVec.ofNat 32 (wordFragments words maxTokens).length).toInt =
      min (words.length : ℤ) (max maxTokens.toInt 0) := by
  have hcap : maxTokens.toInt < 2 ^ 31 := BitVec.toInt_lt
  rw [length_wordFragments, BitVec.toInt_ofNat']
  rw [Int.bmod_eq_of_le] <;> omega

theorem length_splitWords_pos (answer : Text) : 0 < (splitWords answer).length :=
  List.length_pos_iff.mpr (List.splitOn_ne_nil _ _)

/-- What the client makes of the fragments: the cap and the words are compared. -/
theorem finishReason_wordFragments (answer : Text) (maxTokens : BitVec 32) :
    finishReason (BitVec.ofNat 32 (wordFragments (splitWords answer) maxTokens).length) maxTokens =
      if maxTokens.toInt ≤ (splitWords answer).length then .length else .stop := by
  have hwords := length_splitWords_pos answer
  rw [finishReason, toInt_length_wordFragments]
  by_cases hcap : maxTokens.toInt ≤ (splitWords answer).length
  · rw [if_pos hcap, if_pos (by omega)]
  · rw [if_neg hcap, if_neg (by omega)]

theorem honest_iff (typeName : String) (answer : String → Text) (modelId : Option String)
    (messages : List ChatMessage) (options : Option ChatOptions) :
    Honest (wordModel typeName answer) answer modelId messages options ↔
      ((splitWords (answer (buildRequest messages options).prompt)).length : ℤ) ≠
        (buildRequest messages options).maxTokens.toInt := by
  have hresponse : DniChatClient.getResponseAsync ⟨wordModel typeName answer, modelId⟩ messages
      options = some ⟨(wordFragments (splitWords (answer (buildRequest messages options).prompt))
        (buildRequest messages options).maxTokens).flatten, modelId.getD typeName,
        finishReason (BitVec.ofNat 32 (wordFragments
          (splitWords (answer (buildRequest messages options).prompt))
          (buildRequest messages options).maxTokens).length)
          (buildRequest messages options).maxTokens⟩ := by
    unfold DniChatClient.getResponseAsync
    simp only [wordModel, gather_eq]
    rfl
  have hcut : CutOff (answer (buildRequest messages options).prompt)
      (buildRequest messages options) ↔ (buildRequest messages options).maxTokens.toInt <
        (splitWords (answer (buildRequest messages options).prompt)).length := Iff.rfl
  unfold Honest
  rw [hresponse]
  simp only [Option.some.injEq, exists_eq_left', finishReason_wordFragments]
  rcases lt_trichotomy (buildRequest messages options).maxTokens.toInt
    (splitWords (answer (buildRequest messages options).prompt)).length with
    hless | hequal | hmore
  · rw [if_pos hless.le, if_pos (hcut.mpr hless)]
    exact iff_of_true rfl hless.ne'
  · rw [if_pos hequal.le, if_neg (hcut.not.mpr hequal.not_lt)]
    exact iff_of_false nofun fun hne => hne hequal.symm
  · rw [if_neg hmore.not_ge, if_neg (hcut.not.mpr hmore.not_gt)]
    exact iff_of_true rfl hmore.ne

/-- The two word-by-word backends get an honest reason but where the answer has as many words
as the cap; and the two calls agree with any backend. -/
theorem chat_honest_iff (search : String → String → ℕ → List SearchResult) (topK : ℕ)
    (modelId : Option String) (messages : List ChatMessage) (options : Option ChatOptions) :
    (Honest (extractiveLanguageModel search topK) (extractiveAnswer search topK) modelId messages
        options ↔
      ((splitWords (extractiveAnswer search topK
        (buildRequest messages options).prompt)).length : ℤ) ≠
          (buildRequest messages options).maxTokens.toInt) ∧
    (Honest mockLanguageModel buildResponse modelId messages options ↔
      ((splitWords (buildResponse (buildRequest messages options).prompt)).length : ℤ) ≠
        (buildRequest messages options).maxTokens.toInt) ∧
    ∀ model, CallsAgree ⟨model, modelId⟩ messages options :=
  ⟨honest_iff _ _ modelId messages options, honest_iff _ _ modelId messages options,
    fun _ => callsAgree _ messages options⟩

def nineTokens : ChatOptions where
  maxOutputTokens := some 9
  temperature := none
  additionalProperties := none

/-- The nine words of the answer without a passage are all there, and the reason is the cap. -/
theorem chat_not_honest :
    DniChatClient.getResponseAsync ⟨extractiveLanguageModel (fun _ _ _ => []) 3, none⟩
        [⟨"user", "pump"⟩] (some nineTokens) =
      some ⟨extractiveAnswer (fun _ _ _ => []) 3 "user: pump", "ExtractiveLanguageModel",
        .length⟩ ∧
    ¬ ∀ search topK modelId messages options,
      1 ≤ (buildRequest messages options).maxTokens.toInt →
        Honest (extractiveLanguageModel search topK) (extractiveAnswer search topK) modelId
          messages options := by
  have hresponse : DniChatClient.getResponseAsync
      ⟨extractiveLanguageModel (fun _ _ _ => []) 3, none⟩ [⟨"user", "pump"⟩] (some nineTokens) =
        some ⟨extractiveAnswer (fun _ _ _ => []) 3 "user: pump", "ExtractiveLanguageModel",
          .length⟩ := by
    decide +kernel
  refine ⟨hresponse, fun hall => ?_⟩
  obtain ⟨response, hsome, hreason⟩ := hall (fun _ _ _ => []) 3 none [⟨"user", "pump"⟩]
    (some nineTokens) (by decide)
  have hwhole : ¬ CutOff (extractiveAnswer (fun _ _ _ => []) 3
      (buildRequest [⟨"user", "pump"⟩] (some nineTokens)).prompt)
      (buildRequest [⟨"user", "pump"⟩] (some nineTokens)) := by
    decide +kernel
  rw [if_neg hwhole] at hreason
  cases hresponse.symm.trans hsome
  cases hreason

end Meai

end NativeInterop
