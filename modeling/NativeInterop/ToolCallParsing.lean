import NativeInterop.GbnfGrammar
import Mathlib.Tactic

/-!
# Tool calls from any text

`ToolCallParser.Parse` says of itself that it never throws, and takes only `JsonException` for
an answer.  Here it stands with the exceptions of the property look-ups, which unescape a name
only where it may still fit, and with what a call should be: an object whose `tool` is a
string and whose `args` is an object.
-/

namespace NativeInterop.Agent.ToolCallParser

open JsonDocument (Fault)
open JsonElement (unescape getString)

/-- A look-up unescapes a name that is longer than the one it looks for and fits it as far as
its first escape. -/
def unescapes (name : String) (raw : List Char) : Bool :=
  let front := raw.takeWhile fun c => c ≠ '\\'
  front ≠ raw ∧ front.length < name.length ∧ front <+: name.toList ∧
    name.utf8ByteSize < (String.ofList raw).utf8ByteSize

/-- `TryGetProperty`, on the properties from the last to the first. -/
def findProperty (name : String) :
    List (JsonProperty JsonElement) → Except Fault (Option (JsonProperty JsonElement))
  | [] => .ok none
  | property :: before =>
      match unescape property.name with
      | some found => if found = name then .ok (some property) else findProperty name before
      | none =>
          if unescapes name property.name then .error .invalidOperationException
          else findProperty name before

/-- `Parse`, of an object. -/
def parseObject (properties : List (JsonProperty JsonElement)) : Except Fault AgentDecision :=
  match findProperty "tool" properties.reverse with
  | .error fault => .error fault
  | .ok (some ⟨_, _, .string raw⟩) =>
      match findProperty "args" properties.reverse with
      | .error fault => .error fault
      | .ok (some args) =>
          (getString raw).map fun name => .tool ⟨name, .ofList args.rawText⟩
      | .ok none => (findProperty "answer" properties.reverse).map fun _ => .answer
  | .ok _ => (findProperty "answer" properties.reverse).map fun _ => .answer

/-- `Parse`, with every exception it lets through. -/
def parseThrowing (text : List UInt16) : Except Fault AgentDecision :=
  match JsonDocument.parse text with
  | .error .jsonException => .ok .answer
  | .error fault => .error fault
  | .ok (.object properties) => parseObject properties
  | .ok _ => .ok .answer

/-! ## The look-ups -/

/-- No name that a look-up passes over has an unpaired surrogate where it is unescaped. -/
def Passable (name : String) (properties : List (JsonProperty JsonElement)) : Prop :=
  ∀ property ∈ properties.takeWhile fun property => unescape property.name ≠ some name,
    unescape property.name = none → unescapes name property.name = false

theorem passable_nil (name : String) : Passable name [] := by
  simp [Passable]

theorem passable_cons_found {name : String} {property : JsonProperty JsonElement}
    (hname : unescape property.name = some name) (before : List (JsonProperty JsonElement)) :
    Passable name (property :: before) := by
  simp [Passable, hname]

theorem passable_cons_iff {name : String} {property : JsonProperty JsonElement}
    (hname : unescape property.name ≠ some name) (before : List (JsonProperty JsonElement)) :
    Passable name (property :: before) ↔
      (unescape property.name = none → unescapes name property.name = false) ∧
        Passable name before := by
  unfold Passable
  rw [List.takeWhile_cons_of_pos (by simpa using hname), List.forall_mem_cons]

theorem findProperty_of_passable {name : String} {properties : List (JsonProperty JsonElement)}
    (hpassable : Passable name properties) :
    findProperty name properties =
      .ok (properties.find? fun property => unescape property.name = some name) := by
  induction properties with
  | nil => rfl
  | cons property before ih =>
      rw [findProperty]
      by_cases hmatch : unescape property.name = some name
      · simp [hmatch]
      · rw [passable_cons_iff hmatch] at hpassable
        rw [List.find?_cons_of_neg (by simpa using hmatch), ← ih hpassable.2]
        cases hname : unescape property.name with
        | none => simp [hpassable.1 hname]
        | some found =>
            have hfound : found ≠ name := fun heq => hmatch (by rw [hname, heq])
            simp [hfound]

theorem findProperty_of_not_passable {name : String}
    {properties : List (JsonProperty JsonElement)} (hstuck : ¬ Passable name properties) :
    findProperty name properties = .error .invalidOperationException := by
  induction properties with
  | nil => exact absurd (passable_nil name) hstuck
  | cons property before ih =>
      rw [findProperty]
      by_cases hmatch : unescape property.name = some name
      · exact absurd (passable_cons_found hmatch before) hstuck
      · rw [passable_cons_iff hmatch] at hstuck
        cases hname : unescape property.name with
        | none =>
            by_cases hescaped : unescapes name property.name = true
            · simp [hescaped]
            · simp only [Bool.not_eq_true] at hescaped
              simp only [hescaped, Bool.false_eq_true, if_false]
              exact ih fun hpassable => hstuck ⟨fun _ => hescaped, hpassable⟩
        | some found =>
            have hfound : found ≠ name := fun heq => hmatch (by rw [hname, heq])
            simp only [if_neg hfound]
            exact ih fun hpassable => hstuck ⟨by simp [hname], hpassable⟩

/-! ## What is taken for a call -/

/-- The text of `tool` as it is written, where it is a string. -/
def stringTool (properties : List (JsonProperty JsonElement)) : Option (List Char) :=
  match (JsonElement.object properties).tryGetProperty "tool" with
  | some ⟨_, _, .string raw⟩ => some raw
  | _ => none

/-- An object with a string `tool` and an object `args`, which are what the call carries. -/
def IsCall (properties : List (JsonProperty JsonElement)) (call : ToolCall) : Prop :=
  ∃ raw args fields, stringTool properties = some raw ∧ unescape raw = some call.tool ∧
    (JsonElement.object properties).tryGetProperty "args" = some args ∧
    args.value = .object fields ∧ call.argsJson = .ofList args.rawText

/-- A call for a text that is one, and an answer for any other. -/
def Strict (text : List UInt16) : Prop :=
  (∃ call properties, parseThrowing text = .ok (.tool call) ∧
      JsonDocument.parse text = .ok (.object properties) ∧ IsCall properties call) ∨
    (parseThrowing text = .ok .answer ∧
      ∀ properties, JsonDocument.parse text = .ok (.object properties) →
        ∀ call, ¬ IsCall properties call)

/-- No look-up is stuck, and a string `tool` beside `args` can be read and `args` is an
object. -/
def Orderly (properties : List (JsonProperty JsonElement)) : Prop :=
  Passable "tool" properties.reverse ∧
    match stringTool properties with
    | some raw =>
        Passable "args" properties.reverse ∧
          match (JsonElement.object properties).tryGetProperty "args" with
          | some args => unescape raw ≠ none ∧ ∃ fields, args.value = .object fields
          | none => Passable "answer" properties.reverse
    | none => Passable "answer" properties.reverse

theorem findProperty_eq (name : String) (properties : List (JsonProperty JsonElement)) :
    Passable name properties.reverse ∧ findProperty name properties.reverse =
        .ok ((JsonElement.object properties).tryGetProperty name) ∨
      ¬ Passable name properties.reverse ∧
        findProperty name properties.reverse = .error .invalidOperationException := by
  by_cases hpassable : Passable name properties.reverse
  · exact .inl ⟨hpassable, findProperty_of_passable hpassable⟩
  · exact .inr ⟨hpassable, findProperty_of_not_passable hpassable⟩

theorem parseObject_of_stringTool {properties : List (JsonProperty JsonElement)}
    (hpassable : Passable "tool" properties.reverse) :
    parseObject properties =
      match stringTool properties with
      | some raw =>
          match findProperty "args" properties.reverse with
          | .error fault => .error fault
          | .ok (some args) =>
              (getString raw).map fun name => .tool ⟨name, .ofList args.rawText⟩
          | .ok none => (findProperty "answer" properties.reverse).map fun _ => .answer
      | none => (findProperty "answer" properties.reverse).map fun _ => .answer := by
  have hfind := findProperty_of_passable hpassable
  change _ = Except.ok ((JsonElement.object properties).tryGetProperty "tool") at hfind
  rw [parseObject, hfind, stringTool]
  rcases (JsonElement.object properties).tryGetProperty "tool" with _ | ⟨name, rawText, value⟩
  · rfl
  · cases value <;> rfl

theorem parse_of_object {text : List UInt16} {properties : List (JsonProperty JsonElement)}
    (hdocument : JsonDocument.parse text = .ok (.object properties)) :
    parse text =
      match stringTool properties, (JsonElement.object properties).tryGetProperty "args" with
      | some raw, some args =>
          (getString raw).map fun name => .tool ⟨name, .ofList args.rawText⟩
      | _, _ => .ok .answer := by
  rw [parse, hdocument, stringTool]
  simp only
  rcases (JsonElement.object properties).tryGetProperty "tool" with _ | ⟨name, rawText, value⟩
  · rfl
  · cases value <;>
      cases (JsonElement.object properties).tryGetProperty "args" <;> rfl

theorem answer_of_map {properties : List (JsonProperty JsonElement)} {decision : AgentDecision}
    (hmap : (findProperty "answer" properties.reverse).map (fun _ => AgentDecision.answer) =
      .ok decision) : decision = .answer := by
  cases hfind : findProperty "answer" properties.reverse with
  | error fault =>
      rw [hfind] at hmap
      cases hmap
  | ok found =>
      rw [hfind] at hmap
      exact (Except.ok.inj hmap).symm

/-- Where `Parse` returns, the look-ups without exceptions lead to the same decision. -/
theorem parse_of_parseThrowing {text : List UInt16} {decision : AgentDecision}
    (hparse : parseThrowing text = .ok decision) : parse text = .ok decision := by
  unfold parseThrowing at hparse
  cases hdocument : JsonDocument.parse text with
  | error fault =>
      rw [hdocument] at hparse
      rw [parse, hdocument]
      cases fault with
      | jsonException => exact hparse
      | _ => cases hparse
  | ok root =>
      rw [hdocument] at hparse
      cases root with
      | object properties =>
          simp only at hparse
          rw [parse_of_object hdocument]
          rcases findProperty_eq "tool" properties with ⟨hpassable, -⟩ | ⟨-, hfind⟩
          · rw [parseObject_of_stringTool hpassable] at hparse
            cases htool : stringTool properties with
            | none =>
                rw [htool] at hparse
                rw [answer_of_map hparse]
            | some raw =>
                rw [htool] at hparse
                rcases findProperty_eq "args" properties with ⟨-, hfind⟩ | ⟨-, hfind⟩
                · simp only [hfind] at hparse
                  cases hargs : (JsonElement.object properties).tryGetProperty "args" with
                  | none =>
                      rw [hargs] at hparse
                      rw [answer_of_map hparse]
                  | some args =>
                      rw [hargs] at hparse
                      exact hparse
                · simp only [hfind] at hparse
                  cases hparse
          · rw [parseObject, hfind] at hparse
            cases hparse
      | _ =>
          rw [parse, hdocument]
          exact hparse

theorem tool_ne_answer (call : ToolCall) : AgentDecision.tool call ≠ .answer := by
  simp [AgentDecision.tool, AgentDecision.answer]

def StrictObject (properties : List (JsonProperty JsonElement)) : Prop :=
  (∃ call, parseObject properties = .ok (.tool call) ∧ IsCall properties call) ∨
    (parseObject properties = .ok .answer ∧ ∀ call, ¬ IsCall properties call)

theorem not_strictObject_of_error {properties : List (JsonProperty JsonElement)} {fault : Fault}
    (hparse : parseObject properties = .error fault) : ¬ StrictObject properties := by
  rintro (⟨call, hcall, -⟩ | ⟨hanswer, -⟩)
  · cases hparse.symm.trans hcall
  · cases hparse.symm.trans hanswer

theorem strictObject_of_answer {properties : List (JsonProperty JsonElement)}
    (hparse : parseObject properties =
      (findProperty "answer" properties.reverse).map fun _ => .answer)
    (hnone : ∀ call, ¬ IsCall properties call) :
    StrictObject properties ↔ Passable "answer" properties.reverse := by
  rcases findProperty_eq "answer" properties with ⟨hpassable, hfind⟩ | ⟨hstuck, hfind⟩
  · rw [hfind] at hparse
    exact iff_of_true (.inr ⟨hparse, hnone⟩) hpassable
  · rw [hfind] at hparse
    exact iff_of_false (not_strictObject_of_error hparse) hstuck

theorem strictObject_of_call {properties : List (JsonProperty JsonElement)} {raw : List Char}
    {args : JsonProperty JsonElement} (htool : stringTool properties = some raw)
    (hargs : (JsonElement.object properties).tryGetProperty "args" = some args)
    (hparse : parseObject properties =
      (getString raw).map fun name => .tool ⟨name, .ofList args.rawText⟩) :
    StrictObject properties ↔ unescape raw ≠ none ∧ ∃ fields, args.value = .object fields := by
  cases hname : unescape raw with
  | none =>
      rw [getString, hname] at hparse
      exact iff_of_false (not_strictObject_of_error hparse) fun hread => hread.1 rfl
  | some name =>
      rw [getString, hname] at hparse
      change parseObject properties = .ok (.tool ⟨name, .ofList args.rawText⟩) at hparse
      constructor
      · rintro (⟨call, -, found, other, fields, -, -, hother, hfields, -⟩ | ⟨hanswer, -⟩)
        · rw [hargs, Option.some.injEq] at hother
          subst hother
          exact ⟨by simp, _, hfields⟩
        · exact absurd (Except.ok.inj (hparse.symm.trans hanswer)) (tool_ne_answer _)
      · rintro ⟨-, fields, hfields⟩
        exact .inl ⟨_, hparse, raw, args, fields, htool, hname, hargs, hfields, rfl⟩

theorem strictObject_iff (properties : List (JsonProperty JsonElement)) :
    StrictObject properties ↔ Orderly properties := by
  rcases findProperty_eq "tool" properties with ⟨hpassable, -⟩ | ⟨hstuck, hfind⟩
  · have hparse := parseObject_of_stringTool hpassable
    rw [Orderly, and_iff_right hpassable]
    cases htool : stringTool properties with
    | none =>
        rw [htool] at hparse
        apply strictObject_of_answer hparse
        rintro call ⟨raw, args, fields, hother, -⟩
        cases htool.symm.trans hother
    | some raw =>
        rw [htool] at hparse
        simp only at hparse ⊢
        rcases findProperty_eq "args" properties with ⟨hpass, hfind⟩ | ⟨hstuck, hfind⟩
        · rw [hfind] at hparse
          rw [and_iff_right hpass]
          cases hargs : (JsonElement.object properties).tryGetProperty "args" with
          | none =>
              rw [hargs] at hparse
              apply strictObject_of_answer hparse
              rintro call ⟨raw, args, fields, -, -, hother, -⟩
              cases hargs.symm.trans hother
          | some args =>
              rw [hargs] at hparse
              exact strictObject_of_call htool hargs hparse
        · rw [hfind] at hparse
          exact iff_of_false (not_strictObject_of_error hparse) fun horderly => hstuck horderly.1
  · have hparse : parseObject properties = .error .invalidOperationException := by
      rw [parseObject, hfind]
    exact iff_of_false (not_strictObject_of_error hparse) fun horderly => hstuck horderly.1

theorem strict_of_parse_object {text : List UInt16}
    {properties : List (JsonProperty JsonElement)}
    (hdocument : JsonDocument.parse text = .ok (.object properties)) :
    Strict text ↔ StrictObject properties := by
  have hparse : parseThrowing text = parseObject properties := by
    rw [parseThrowing, hdocument]
  unfold Strict StrictObject
  rw [hparse, hdocument]
  constructor
  · rintro (⟨call, other, hcall, heq, hiscall⟩ | ⟨hanswer, hnone⟩)
    · cases heq
      exact .inl ⟨call, hcall, hiscall⟩
    · exact .inr ⟨hanswer, hnone properties rfl⟩
  · rintro (⟨call, hcall, hiscall⟩ | ⟨hanswer, hnone⟩)
    · exact .inl ⟨call, properties, hcall, rfl, hiscall⟩
    · refine .inr ⟨hanswer, fun other heq => ?_⟩
      cases heq
      exact hnone

/-- What is no object is an answer, also where it is no document. -/
theorem strict_of_answer {text : List UInt16} (hparse : parseThrowing text = .ok .answer)
    (hother : ∀ properties, JsonDocument.parse text ≠ .ok (.object properties)) : Strict text :=
  .inr ⟨hparse, fun properties hdocument => absurd hdocument (hother properties)⟩

/-- `Parse` keeps its promise exactly on well-formed text that, where it is an object, leaves no
look-up stuck on an unpaired surrogate and has `args` be an object beside a string `tool` that
can be read. -/
theorem strict_iff (text : List UInt16) :
    Strict text ↔ Utf16.decode text ≠ none ∧
      ∀ properties, JsonDocument.parse text = .ok (.object properties) → Orderly properties := by
  cases hdecode : Utf16.decode text with
  | none =>
      have hdocument : JsonDocument.parse text = .error .argumentException := by
        rw [JsonDocument.parse, hdecode]
      have hparse : parseThrowing text = .error .argumentException := by
        rw [parseThrowing, hdocument]
      refine iff_of_false ?_ fun hboth => hboth.1 rfl
      rintro (⟨call, properties, hcall, -⟩ | ⟨hanswer, -⟩)
      · cases hparse.symm.trans hcall
      · cases hparse.symm.trans hanswer
  | some chars =>
      rw [and_iff_right (by simp)]
      cases hchars : JsonDocument.parseChars chars with
      | none =>
          have hdocument : JsonDocument.parse text = .error .jsonException := by
            simp only [JsonDocument.parse, hdecode, hchars]
          have hparse : parseThrowing text = .ok .answer := by
            rw [parseThrowing, hdocument]
          rw [hdocument]
          exact iff_of_true (strict_of_answer hparse (by simp [hdocument])) (by simp)
      | some root =>
          have hdocument : JsonDocument.parse text = .ok root := by
            simp only [JsonDocument.parse, hdecode, hchars]
          by_cases hobject : ∃ properties, root = .object properties
          · obtain ⟨properties, rfl⟩ := hobject
            rw [strict_of_parse_object hdocument, strictObject_iff, hdocument]
            simp
          · have hparse : parseThrowing text = .ok .answer := by
              rw [parseThrowing, hdocument]
              cases root <;> simp_all
            rw [hdocument]
            refine iff_of_true (strict_of_answer hparse fun properties heq => ?_)
              fun properties heq => ?_
            · exact hobject ⟨properties, Except.ok.inj (hdocument.symm.trans heq)⟩
            · exact absurd ⟨properties, Except.ok.inj heq⟩ hobject

/-- A call of this name, with this for its `args`. -/
def callOf (name args : List Char) : List Char :=
  ['{', '"', 't', 'o', 'o', 'l', '"', ':', '"'] ++ name ++
    ['"', ',', '"', 'a', 'r', 'g', 's', '"', ':'] ++ args ++ ['}']

theorem parse_callOf (name args : List Char) :
    JsonDocument.parse (Utf16.encode (callOf name args)) =
      match JsonDocument.parseChars (callOf name args) with
      | none => .error .jsonException
      | some root => .ok root :=
  JsonDocument.parse_encode _

/-- A call whose `args` is a number, and one whose name is half a surrogate pair. -/
theorem not_strict_number_surrogate :
    ¬ Strict (Utf16.encode (callOf ['x'] ['4', '2'])) ∧
      ¬ Strict (Utf16.encode (callOf ['\\', 'u', 'd', '8', '0', '0'] ['{', '}'])) := by
  constructor
  · have hdocument : JsonDocument.parse (Utf16.encode (callOf ['x'] ['4', '2'])) =
        .ok (.object [⟨['t', 'o', 'o', 'l'], ['"', 'x', '"'], .string ['x']⟩,
          ⟨['a', 'r', 'g', 's'], ['4', '2'], .number ['4', '2']⟩]) := by
      rw [parse_callOf]
      rfl
    rw [strict_of_parse_object hdocument, strictObject_iff]
    rintro ⟨-, -, -, fields, hfields⟩
    cases hfields
  · have hdocument : JsonDocument.parse (Utf16.encode
        (callOf ['\\', 'u', 'd', '8', '0', '0'] ['{', '}'])) =
        .ok (.object [⟨['t', 'o', 'o', 'l'], ['"', '\\', 'u', 'd', '8', '0', '0', '"'],
            .string ['\\', 'u', 'd', '8', '0', '0']⟩,
          ⟨['a', 'r', 'g', 's'], ['{', '}'], .object []⟩]) := by
      rw [parse_callOf]
      rfl
    rw [strict_of_parse_object hdocument, strictObject_iff]
    rintro ⟨-, -, hread, -⟩
    exact hread (by decide)

end NativeInterop.Agent.ToolCallParser
