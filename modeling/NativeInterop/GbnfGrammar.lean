import NativeInterop.ForemanTools
import NativeInterop.Gbnf
import Mathlib.Tactic

/-!
# The decision grammar and its parser

`GbnfGrammar.Build` writes a grammar for one decision of the model: a call of one of the
tools or an answer.  Whatever is derived from it goes to `ToolCallParser.Parse`.  The grammar
lets any character stand in a string and any character behind a backslash; JSON does not.
-/

namespace NativeInterop

namespace Agent

open Gbnf JsonDocument
open Json (skipSpace)

namespace GbnfGrammar

/-! ## The text of the grammar -/

def argsRuleText (tool : ToolSpec) : String :=
  if tool.params = [] then "\"\x7b\x7d\""
  else
    "\"\x7b\" " ++
      String.intercalate " \",\" " (tool.params.map fun param =>
        "\"\\\"" ++ param.name ++ "\\\":\" string") ++
      " \"\x7d\""

def toolRuleText (tool : ToolSpec) : String :=
  "tc_" ++ tool.name ++ " ::= \"\x7b\\\"tool\\\":\\\"" ++ tool.name ++ "\\\",\\\"args\\\":\" " ++
    argsRuleText tool ++ " \"\x7d\"\n"

def answerRuleText : String := "answer ::= \"\x7b\\\"answer\\\":\" string \"\x7d\"\n"

def stringRuleText : String := "string ::= \"\\\"\" ([^\"\\\\] | \"\\\\\" .)* \"\\\"\"\n"

def build (tools : List ToolSpec) : String :=
  if tools = [] then "root ::= answer\n" ++ answerRuleText ++ stringRuleText
  else
    "root ::= toolcall | answer\n" ++ answerRuleText ++ "toolcall ::= " ++
      String.intercalate " | " (tools.map fun tool => "tc_" ++ tool.name) ++ "\n" ++
      .join (tools.map toolRuleText) ++ stringRuleText

/-! ## The grammar -/

inductive Rule where
  | root
  | answer
  | toolcall
  | tc (tool : String)
  | string
  deriving DecidableEq, Repr

def Rule.text : Rule → List Char
  | .root => ['r', 'o', 'o', 't']
  | .answer => ['a', 'n', 's', 'w', 'e', 'r']
  | .toolcall => ['t', 'o', 'o', 'l', 'c', 'a', 'l', 'l']
  | .tc tool => ['t', 'c', '_'] ++ tool.toList
  | .string => ['s', 't', 'r', 'i', 'n', 'g']

def stringRule : Expr Rule :=
  .seq (.terminal ['"'])
    (.seq (.star (.alt (.exclude ['"', '\\']) (.seq (.terminal ['\\']) .any))) (.terminal ['"']))

def key (name : List Char) : List Char :=
  quoted name ++ [':']

def answerRule : Expr Rule :=
  .seq (.terminal ('{' :: key ['a', 'n', 's', 'w', 'e', 'r']))
    (.seq (.rule .string) (.terminal ['}']))

/-- The arguments of a tool, from a parameter on. -/
def fieldsRule : ToolParam → List ToolParam → Expr Rule
  | param, [] =>
      .seq (.terminal (key param.name.toList)) (.seq (.rule .string) (.terminal ['}']))
  | param, next :: more =>
      .seq (.terminal (key param.name.toList))
        (.seq (.rule .string) (.seq (.terminal [',']) (fieldsRule next more)))

def argsRule : List ToolParam → Expr Rule
  | [] => .terminal ['{', '}']
  | param :: more => .seq (.terminal ['{']) (fieldsRule param more)

def toolRule (tool : ToolSpec) : Expr Rule :=
  .seq (.terminal ('{' :: (key ['t', 'o', 'o', 'l'] ++ quoted tool.name.toList ++
      ',' :: key ['a', 'r', 'g', 's'])))
    (.seq (argsRule tool.params) (.terminal ['}']))

def grammar : List ToolSpec → List (Rule × Expr Rule)
  | [] => [(.root, .rule .answer), (.answer, answerRule), (.string, stringRule)]
  | tool :: more =>
      [(.root, .alt (.rule .toolcall) (.rule .answer)), (.answer, answerRule),
        (.toolcall,
          Expr.alts (.rule (.tc tool.name)) (more.map fun next => .rule (.tc next.name)))] ++
      (tool :: more).map (fun tool => (.tc tool.name, toolRule tool)) ++ [(.string, stringRule)]

/-- No two rules share a name in the text. -/
theorem Rule.text_injective : Function.Injective Rule.text := by
  intro first second heq
  cases first <;> cases second <;> simp [Rule.text] at heq ⊢
  exact String.toList_injective heq

theorem escapeTerminal_plain {text : List Char} (hplain : Plain text) :
    text.flatMap escapeTerminal = text := by
  induction text with
  | nil => rfl
  | cons c text ih =>
      obtain ⟨⟨-, hquote, hslash⟩, hrest⟩ := List.forall_mem_cons.mp hplain
      rw [List.flatMap_cons, ih hrest, escapeTerminal, if_neg (by simp [hquote, hslash])]
      rfl

theorem text_fieldsRule (param : ToolParam) (more : List ToolParam) :
    (fieldsRule param more).text Rule.text =
      (String.intercalate " \",\" " ((param :: more).map fun param =>
        "\"\\\"" ++ param.name ++ "\\\":\" string") ++ " \"\x7d\"").toList := by
  induction more generalizing param with
  | nil =>
      have hname := escapeTerminal_plain (plain_of_identifierSafe param.safe)
      simp [fieldsRule, Expr.text, key, quoted, hname, escapeTerminal, Rule.text]
  | cons next more ih =>
      have hname := escapeTerminal_plain (plain_of_identifierSafe param.safe)
      simp only [List.map_cons] at ih
      simp [fieldsRule, Expr.text, key, quoted, hname, escapeTerminal, Rule.text, ih]

theorem text_argsRule (tool : ToolSpec) :
    (argsRule tool.params).text Rule.text = (argsRuleText tool).toList := by
  unfold argsRuleText
  cases tool.params with
  | nil => simp [argsRule, Expr.text, escapeTerminal]
  | cons param more => simp [argsRule, Expr.text, escapeTerminal, text_fieldsRule]

theorem text_toolRule (tool : ToolSpec) :
    (Rule.tc tool.name).text ++ [' ', ':', ':', '=', ' '] ++ (toolRule tool).text Rule.text ++
      ['\n'] = (toolRuleText tool).toList := by
  have hname := escapeTerminal_plain (plain_of_identifierSafe tool.safe)
  simp [toolRule, toolRuleText, Expr.text, Rule.text, key, quoted, escapeTerminal, hname,
    text_argsRule]

theorem text_toolcall (tool : ToolSpec) (more : List ToolSpec) :
    (Expr.alts (.rule (.tc tool.name)) (more.map fun next => .rule (.tc next.name))).text
        Rule.text =
      (String.intercalate " | " ((tool :: more).map fun tool => "tc_" ++ tool.name)).toList := by
  induction more generalizing tool with
  | nil => simp [Expr.alts, Expr.text, Rule.text]
  | cons next more ih =>
      simp only [List.map_cons] at ih
      simp [Expr.alts, Expr.text, Rule.text, ih]

theorem text_toolRules (tools : List ToolSpec) :
    Gbnf.text Rule.text (tools.map fun tool => (.tc tool.name, toolRule tool)) =
      (String.join (tools.map toolRuleText)).toList := by
  induction tools with
  | nil => rfl
  | cons tool tools ih =>
      have htool := text_toolRule tool
      simp only [Gbnf.text, List.map_cons, List.flatMap_cons] at ih ⊢
      rw [htool, ih, String.join_cons, String.toList_append]

/-- `Build` writes down the grammar. -/
theorem text_grammar (tools : List ToolSpec) :
    Gbnf.text Rule.text (grammar tools) = (build tools).toList := by
  cases tools with
  | nil =>
      simp [grammar, build, Gbnf.text, Expr.text, Rule.text, answerRule, stringRule, key, quoted,
        escapeTerminal, escapeClass, answerRuleText, stringRuleText]
  | cons tool more =>
      have htools := text_toolRules (tool :: more)
      have hsplit : Gbnf.text Rule.text (grammar (tool :: more)) =
          "root ::= toolcall | answer\n".toList ++ answerRuleText.toList ++
            "toolcall ::= ".toList ++
            (String.intercalate " | " ((tool :: more).map fun tool => "tc_" ++ tool.name)).toList ++
            ['\n'] ++
            Gbnf.text Rule.text ((tool :: more).map fun tool => (.tc tool.name, toolRule tool)) ++
            stringRuleText.toList := by
        rw [← text_toolcall]
        simp [grammar, Gbnf.text, Expr.text, Rule.text, answerRule, stringRule, key, quoted,
          escapeTerminal, escapeClass, answerRuleText, stringRuleText]
      rw [hsplit, htools]
      simp [build]

/-! ## What is derived -/

variable {tools : List ToolSpec} {word : List Char}

theorem string_rule_iff {body : Expr Rule} :
    (.string, body) ∈ grammar tools ↔ body = stringRule := by
  cases tools <;> simp [grammar]

theorem answer_rule_iff {body : Expr Rule} :
    (.answer, body) ∈ grammar tools ↔ body = answerRule := by
  cases tools <;> simp [grammar]

theorem tc_rule_iff {name : String} {body : Expr Rule} :
    (.tc name, body) ∈ grammar tools ↔
      ∃ tool ∈ tools, tool.name = name ∧ body = toolRule tool := by
  cases tools with
  | nil => simp [grammar]
  | cons tool more => simp [grammar, eq_comm]

/-- Between the quotes of a string stand plain characters and escaped ones. -/
theorem derives_string :
    Derives (grammar tools) (.rule .string) word ↔ ∃ body, Body body ∧ word = quoted body := by
  have hstar : ∀ text, Derives (grammar tools)
      (.star (.alt (.exclude ['"', '\\']) (.seq (.terminal ['\\']) .any))) text ↔ Body text := by
    intro text
    constructor
    · intro htext
      refine derives_star_induction .nil ?_ htext
      intro left right hleft hright
      simp only [derives_alt, derives_exclude, derives_seq, derives_terminal, derives_any] at hleft
      rcases hleft with ⟨c, hother, rfl⟩ | ⟨mark, escaped, rfl, rfl, c, rfl⟩
      · simp only [List.mem_cons, List.not_mem_nil, or_false, not_or] at hother
        exact .plain hother.1 hother.2 hright
      · exact .escaped c hright
    · intro hbody
      induction hbody with
      | nil => exact .starNil
      | @plain c rest hquote hslash _ ih =>
          exact .starCons (.altLeft (.exclude (by simp [hquote, hslash]))) ih
      | @escaped c rest _ ih =>
          exact .starCons (.altRight (.seq (.terminal _) (.any c))) ih
  simp only [derives_rule, string_rule_iff, exists_eq_left, stringRule, derives_seq, hstar,
    derives_terminal]
  constructor
  · rintro ⟨_, _, rfl, rfl, body, _, rfl, hbody, rfl⟩
    exact ⟨body, hbody, rfl⟩
  · rintro ⟨body, hbody, rfl⟩
    exact ⟨['"'], body ++ ['"'], rfl, rfl, body, ['"'], rfl, hbody, rfl⟩

/-- An answer with what stands between its quotes. -/
def answerText (body : List Char) : List Char :=
  '{' :: (strings [(['a', 'n', 's', 'w', 'e', 'r'], body)] ++ ['}'])

theorem derives_answer :
    Derives (grammar tools) answerRule word ↔ ∃ body, Body body ∧ word = answerText body := by
  simp only [answerRule, derives_seq, derives_terminal, derives_string]
  constructor
  · rintro ⟨_, _, rfl, rfl, _, _, rfl, ⟨body, hbody, rfl⟩, rfl⟩
    exact ⟨body, hbody, by simp [answerText, strings, key]⟩
  · rintro ⟨body, hbody, rfl⟩
    exact ⟨_, quoted body ++ ['}'], by simp [answerText, strings, key], rfl, quoted body, ['}'],
      rfl, ⟨body, hbody, rfl⟩, rfl⟩

/-- Every parameter, in order, with what stands between the quotes of its value. -/
def Filled (params : List ToolParam) (pairs : List (List Char × List Char)) : Prop :=
  pairs.map Prod.fst = params.map (fun param => param.name.toList) ∧ ∀ pair ∈ pairs, Body pair.2

theorem filled_nil {pairs : List (List Char × List Char)} : Filled [] pairs ↔ pairs = [] := by
  simp only [Filled, List.map_nil, List.map_eq_nil_iff]
  constructor
  · exact And.left
  · rintro rfl
    simp

theorem filled_cons {param : ToolParam} {more : List ToolParam}
    {pairs : List (List Char × List Char)} :
    Filled (param :: more) pairs ↔
      ∃ body rest, Body body ∧ Filled more rest ∧ pairs = (param.name.toList, body) :: rest := by
  constructor
  · rintro ⟨hnames, hbodies⟩
    cases pairs with
    | nil => cases hnames
    | cons pair rest =>
        obtain ⟨hname, hrest⟩ := List.cons.inj hnames
        obtain ⟨hbody, hbodies⟩ := List.forall_mem_cons.mp hbodies
        have hpair : pair = (param.name.toList, pair.2) := Prod.ext hname rfl
        exact ⟨pair.2, rest, hbody, ⟨hrest, hbodies⟩, by rw [← hpair]⟩
  · rintro ⟨body, rest, hbody, ⟨hrest, hbodies⟩, rfl⟩
    refine ⟨by simp [hrest], ?_⟩
    rw [List.forall_mem_cons]
    exact ⟨hbody, hbodies⟩

theorem Filled.ne_nil {param : ToolParam} {more : List ToolParam}
    {pairs : List (List Char × List Char)} (hfilled : Filled (param :: more) pairs) :
    pairs ≠ [] := by
  rintro rfl
  cases hfilled.1

theorem derives_fields {param : ToolParam} {more : List ToolParam} :
    Derives (grammar tools) (fieldsRule param more) word ↔
      ∃ pairs, Filled (param :: more) pairs ∧ word = strings pairs ++ ['}'] := by
  induction more generalizing param word with
  | nil =>
      simp only [fieldsRule, derives_seq, derives_terminal, derives_string, filled_cons,
        filled_nil]
      constructor
      · rintro ⟨_, _, rfl, rfl, _, _, rfl, ⟨body, hbody, rfl⟩, rfl⟩
        exact ⟨_, ⟨body, [], hbody, rfl, rfl⟩, by simp [strings, key]⟩
      · rintro ⟨_, ⟨body, _, hbody, rfl, rfl⟩, rfl⟩
        exact ⟨_, quoted body ++ ['}'], by simp [strings, key], rfl, quoted body, ['}'], rfl,
          ⟨body, hbody, rfl⟩, rfl⟩
  | cons next more ih =>
      simp only [fieldsRule, derives_seq, derives_terminal, derives_string, ih]
      constructor
      · rintro ⟨_, _, rfl, rfl, _, _, rfl, ⟨body, hbody, rfl⟩, _, _, rfl, rfl, rest, hrest, rfl⟩
        refine ⟨_, filled_cons.mpr ⟨body, rest, hbody, hrest, rfl⟩, ?_⟩
        rw [strings_cons _ hrest.ne_nil]
        simp [key]
      · rintro ⟨pairs, hfilled, rfl⟩
        obtain ⟨body, rest, hbody, hrest, rfl⟩ := filled_cons.mp hfilled
        rw [strings_cons _ hrest.ne_nil]
        exact ⟨_, quoted body ++ ([','] ++ (strings rest ++ ['}'])), by simp [key], rfl,
          quoted body, _, rfl, ⟨body, hbody, rfl⟩, [','], _, rfl, rfl, rest, hrest, rfl⟩

/-- The arguments of a call. -/
def argsText (pairs : List (List Char × List Char)) : List Char :=
  '{' :: (strings pairs ++ ['}'])

theorem derives_args {params : List ToolParam} :
    Derives (grammar tools) (argsRule params) word ↔
      ∃ pairs, Filled params pairs ∧ word = argsText pairs := by
  cases params with
  | nil =>
      simp only [argsRule, derives_terminal, filled_nil, exists_eq_left]
      rfl
  | cons param more =>
      simp only [argsRule, derives_seq, derives_terminal, derives_fields]
      constructor
      · rintro ⟨_, _, rfl, rfl, pairs, hfilled, rfl⟩
        exact ⟨pairs, hfilled, rfl⟩
      · rintro ⟨pairs, hfilled, rfl⟩
        exact ⟨['{'], _, rfl, rfl, pairs, hfilled, rfl⟩

/-- A call of a tool. -/
def callText (name : List Char) (pairs : List (List Char × List Char)) : List Char :=
  '{' :: (quoted ['t', 'o', 'o', 'l'] ++ ':' :: (quoted name ++
    ',' :: (quoted ['a', 'r', 'g', 's'] ++ ':' :: (argsText pairs ++ ['}']))))

theorem derives_tool {tool : ToolSpec} :
    Derives (grammar tools) (toolRule tool) word ↔
      ∃ pairs, Filled tool.params pairs ∧ word = callText tool.name.toList pairs := by
  simp only [toolRule, derives_seq, derives_terminal, derives_args]
  constructor
  · rintro ⟨_, _, rfl, rfl, _, _, rfl, ⟨pairs, hfilled, rfl⟩, rfl⟩
    exact ⟨pairs, hfilled, by simp [callText, key]⟩
  · rintro ⟨pairs, hfilled, rfl⟩
    exact ⟨_, argsText pairs ++ ['}'], by simp [callText, key], rfl, _, ['}'], rfl,
      ⟨pairs, hfilled, rfl⟩, rfl⟩

/-- A turn is an answer or the call of a tool. -/
theorem derives_root :
    Derives (grammar tools) (.rule .root) word ↔
      Derives (grammar tools) answerRule word ∨
        ∃ tool ∈ tools, Derives (grammar tools) (toolRule tool) word := by
  have hanswer : Derives (grammar tools) (.rule .answer) word ↔
      Derives (grammar tools) answerRule word := by
    simp only [derives_rule, answer_rule_iff, exists_eq_left]
  cases tools with
  | nil =>
      have hroot : ∀ body, (Rule.root, body) ∈ grammar [] ↔ body = .rule .answer := by
        simp [grammar]
      rw [derives_rule]
      simp only [hroot, exists_eq_left, hanswer]
      simp
  | cons tool more =>
      have hroot : ∀ body, (Rule.root, body) ∈ grammar (tool :: more) ↔
          body = .alt (.rule .toolcall) (.rule .answer) := by
        simp [grammar]
      have htoolcall : ∀ body, (Rule.toolcall, body) ∈ grammar (tool :: more) ↔
          body =
            Expr.alts (.rule (.tc tool.name)) (more.map fun next => .rule (.tc next.name)) := by
        simp [grammar]
      have hcalls : Derives (grammar (tool :: more)) (.rule .toolcall) word ↔
          ∃ called ∈ tool :: more,
            Derives (grammar (tool :: more)) (.rule (.tc called.name)) word := by
        rw [derives_rule]
        simp only [htoolcall, exists_eq_left, derives_alts]
        simp
      have htc : ∀ name, Derives (grammar (tool :: more)) (.rule (.tc name)) word ↔
          ∃ called ∈ tool :: more, called.name = name ∧
            Derives (grammar (tool :: more)) (toolRule called) word := by
        intro name
        rw [derives_rule]
        constructor
        · rintro ⟨body, hrule, hbody⟩
          obtain ⟨called, hmem, hname, rfl⟩ := tc_rule_iff.mp hrule
          exact ⟨called, hmem, hname, hbody⟩
        · rintro ⟨called, hmem, hname, hbody⟩
          exact ⟨_, tc_rule_iff.mpr ⟨called, hmem, hname, rfl⟩, hbody⟩
      rw [derives_rule]
      simp only [hroot, exists_eq_left, derives_alt, hanswer, hcalls, htc]
      constructor
      · rintro (⟨_, _, called, hmem, _, hcalled⟩ | hderives)
        · exact Or.inr ⟨called, hmem, hcalled⟩
        · exact Or.inl hderives
      · rintro (hderives | ⟨called, hmem, hcalled⟩)
        · exact Or.inr hderives
        · exact Or.inl ⟨called, hmem, called, hmem, rfl, hcalled⟩

theorem Filled.names {params : List ToolParam} {pairs : List (List Char × List Char)}
    (hfilled : Filled params pairs) : ∀ pair ∈ pairs, Body pair.1 ∧ clean pair.1 = true := by
  intro pair hmem
  have hname : pair.1 ∈ pairs.map Prod.fst := List.mem_map_of_mem hmem
  rw [hfilled.1] at hname
  obtain ⟨param, -, hparam⟩ := List.mem_map.mp hname
  have hplain := plain_of_identifierSafe param.safe
  rw [hparam] at hplain
  exact ⟨body_of_plain hplain, clean_of_plain hplain⟩

end GbnfGrammar

/-! ## The parser -/

def AgentDecision.tool (call : ToolCall) : AgentDecision :=
  ⟨some call, false⟩

def AgentDecision.answer : AgentDecision :=
  ⟨none, true⟩

namespace ToolCallParser

/-- `Parse`.  With or without a property `answer`, what is no call is an answer. -/
def parse (text : List UInt16) : Except Fault AgentDecision :=
  match JsonDocument.parse text with
  | .error .jsonException => .ok .answer
  | .error fault => .error fault
  | .ok root =>
      match root.tryGetProperty "tool", root.tryGetProperty "args" with
      | some ⟨_, _, .string raw⟩, some args =>
          (JsonElement.getString raw).map fun name => .tool ⟨name, .ofList args.rawText⟩
      | _, _ => .ok .answer

end ToolCallParser

namespace GbnfGrammar

/-! ## What is derived is parsed -/

variable {tools : List ToolSpec} {word : List Char}

theorem clean_argsText {params : List ToolParam} {pairs : List (List Char × List Char)}
    (hfilled : Filled params pairs) (rest : List Char) :
    clean (argsText pairs ++ rest) = ((pairs.all fun p => clean p.2) && clean rest) := by
  have hsplit : argsText pairs ++ rest = '{' :: (strings pairs ++ '}' :: rest) := by
    simp [argsText]
  rw [hsplit, clean_cons (by decide) (by decide), clean_strings hfilled.names hfilled.2,
    clean_cons (by decide) (by decide)]

theorem clean_callText {name : List Char} (hname : Plain name) {params : List ToolParam}
    {pairs : List (List Char × List Char)} (hfilled : Filled params pairs) :
    clean (callText name pairs) = pairs.all fun p => clean p.2 := by
  have hquoted : ∀ {text : List Char}, Plain text → ∀ rest,
      clean (quoted text ++ rest) = clean rest := by
    intro text htext rest
    rw [clean_quoted (body_of_plain htext), clean_of_plain htext, Bool.true_and]
  have htool : Plain ['t', 'o', 'o', 'l'] := by simp [Plain]
  have hargs : Plain ['a', 'r', 'g', 's'] := by simp [Plain]
  have hend : clean ['}'] = true := by decide
  rw [callText, clean_cons (by decide) (by decide), hquoted htool,
    clean_cons (by decide) (by decide), hquoted hname, clean_cons (by decide) (by decide),
    hquoted hargs, clean_cons (by decide) (by decide), clean_argsText hfilled, hend,
    Bool.and_true]

theorem clean_answerText {body : List Char} (hbody : Body body) :
    clean (answerText body) = clean body := by
  have hname : Plain ['a', 'n', 's', 'w', 'e', 'r'] := by simp [Plain]
  have hend : clean ['}'] = true := by decide
  rw [answerText, clean_cons (by decide) (by decide),
    clean_strings (by simpa using ⟨body_of_plain hname, clean_of_plain hname⟩)
      (by simpa using hbody), hend]
  simp

theorem readValue_argsText {params : List ToolParam} {pairs : List (List Char × List Char)}
    (hfilled : Filled params pairs) (rest : List Char) {fuel : ℕ}
    (hfuel : pairs.length + 1 < fuel) (depth : ℕ) :
    readValue fuel (depth + 1) (argsText pairs ++ rest) =
      if pairs.all fun p => clean p.2
      then some (.object (pairs.map stringProperty), rest) else none := by
  have hsplit : argsText pairs ++ rest = '{' :: (strings pairs ++ '}' :: rest) := by
    simp [argsText]
  rw [hsplit, readValue_strings hfilled.names hfilled.2 rest hfuel]

theorem parseChars_argsText {params : List ToolParam} {pairs : List (List Char × List Char)}
    (hfilled : Filled params pairs) (hclean : (pairs.all fun p => clean p.2) = true) :
    parseChars (argsText pairs) = some (.object (pairs.map stringProperty)) := by
  rw [argsText, parseChars_strings hfilled.names hfilled.2, if_pos hclean]

theorem parseChars_answerText {body : List Char} (hbody : Body body) :
    parseChars (answerText body) =
      if clean body
      then some (.object [stringProperty (['a', 'n', 's', 'w', 'e', 'r'], body)]) else none := by
  have hname : Plain ['a', 'n', 's', 'w', 'e', 'r'] := by simp [Plain]
  rw [answerText, parseChars_strings
    (by simpa using ⟨body_of_plain hname, clean_of_plain hname⟩) (by simpa using hbody)]
  simp

def toolProperty (name : List Char) : JsonProperty JsonElement where
  name := ['t', 'o', 'o', 'l']
  rawText := quoted name
  value := .string name

def argsProperty (pairs : List (List Char × List Char)) : JsonProperty JsonElement where
  name := ['a', 'r', 'g', 's']
  rawText := argsText pairs
  value := .object (pairs.map stringProperty)

theorem readProperties_args {params : List ToolParam} {pairs : List (List Char × List Char)}
    (hfilled : Filled params pairs) {fuel : ℕ} (hfuel : pairs.length + 1 < fuel) (depth : ℕ) :
    readProperties (fuel + 1) (depth + 1)
        ('"' :: (['a', 'r', 'g', 's'] ++ '"' :: ':' :: (argsText pairs ++ ['}']))) =
      if pairs.all fun p => clean p.2 then some ([argsProperty pairs], []) else none := by
  have hargs : Plain ['a', 'r', 'g', 's'] := by simp [Plain]
  have hvalue := readValue_argsText hfilled ['}'] hfuel depth
  have hspace : skipSpace (argsText pairs ++ ['}']) = argsText pairs ++ ['}'] :=
    Json.skipSpace_cons _ rfl
  split_ifs at hvalue ⊢ with hclean
  · exact readProperties_last (body_of_plain hargs) (clean_of_plain hargs) hspace hvalue
  · exact readProperties_fault (body_of_plain hargs) (clean_of_plain hargs) hspace hvalue

/-- A call is read if the strings among its arguments are. -/
theorem parseChars_callText {name : List Char} (hname : Plain name) {params : List ToolParam}
    {pairs : List (List Char × List Char)} (hfilled : Filled params pairs) :
    parseChars (callText name pairs) =
      if pairs.all fun p => clean p.2
      then some (.object [toolProperty name, argsProperty pairs]) else none := by
  have htool : Plain ['t', 'o', 'o', 'l'] := by simp [Plain]
  obtain ⟨fuel, hlength, hfuel⟩ : ∃ fuel, (callText name pairs).length = fuel + 2 ∧
      pairs.length + 1 < fuel := by
    have hstrings := strings_length pairs
    refine ⟨(callText name pairs).length - 2, ?_, ?_⟩
    · simp [callText, argsText, quoted]
    · simp [callText, argsText, quoted]
      omega
  have hvalue := readValue_quoted (body_of_plain hname)
    (',' :: '"' :: (['a', 'r', 'g', 's'] ++ '"' :: ':' :: (argsText pairs ++ ['}']))) fuel 63
  rw [if_pos (clean_of_plain hname)] at hvalue
  have hsplit : callText name pairs = '{' :: '"' :: (['t', 'o', 'o', 'l'] ++
      '"' :: ':' :: (quoted name ++
        ',' :: '"' :: (['a', 'r', 'g', 's'] ++ '"' :: ':' :: (argsText pairs ++ ['}'])))) := by
    simp [callText, quoted]
  apply parseChars_of_readValue
  rw [hlength, hsplit, maxDepth, readValue_brace, readProperties_more (body_of_plain htool)
    (clean_of_plain htool) (skipSpace_quoted _ _) hvalue, readProperties_args hfilled hfuel 62]
  split_ifs <;> rfl

theorem unescape_tool : JsonElement.unescape ['t', 'o', 'o', 'l'] = some "tool" := by decide

theorem unescape_args : JsonElement.unescape ['a', 'r', 'g', 's'] = some "args" := by decide

theorem unescape_answer :
    JsonElement.unescape ['a', 'n', 's', 'w', 'e', 'r'] = some "answer" := by decide

/-- A call whose strings are accepted is parsed as the call it is. -/
theorem parse_callText {tool : ToolSpec} {pairs : List (List Char × List Char)}
    (hfilled : Filled tool.params pairs) (hclean : (pairs.all fun p => clean p.2) = true) :
    ToolCallParser.parse (Utf16.encode (callText tool.name.toList pairs)) =
      .ok (.tool ⟨tool.name, .ofList (argsText pairs)⟩) := by
  have hname := plain_of_identifierSafe tool.safe
  have hparse := parseChars_callText hname hfilled
  rw [if_pos hclean] at hparse
  have htool : JsonElement.tryGetProperty "tool"
      (.object [toolProperty tool.name.toList, argsProperty pairs]) =
        some (toolProperty tool.name.toList) := by
    simp [JsonElement.tryGetProperty, toolProperty, argsProperty, unescape_tool, unescape_args]
  have hargs : JsonElement.tryGetProperty "args"
      (.object [toolProperty tool.name.toList, argsProperty pairs]) =
        some (argsProperty pairs) := by
    simp [JsonElement.tryGetProperty, argsProperty, unescape_args]
  have hstring : JsonElement.getString tool.name.toList = .ok tool.name := by
    rw [JsonElement.getString, unescape_plain hname, String.ofList_toList]
  rw [ToolCallParser.parse, parse_encode, hparse]
  simp only [htool, hargs]
  rw [toolProperty]
  simp only [hstring]
  rfl

theorem parse_argsText {params : List ToolParam} {pairs : List (List Char × List Char)}
    (hfilled : Filled params pairs) (hclean : (pairs.all fun p => clean p.2) = true) :
    JsonDocument.parse (utf16 (.ofList (argsText pairs))) =
      .ok (.object (pairs.map stringProperty)) := by
  rw [utf16_eq, String.toList_ofList, parse_encode, parseChars_argsText hfilled hclean]

/-- An answer whose string is accepted is an object with that one property. -/
theorem parse_answerText {body : List Char} (hbody : Body body) (hclean : clean body = true) :
    JsonDocument.parse (Utf16.encode (answerText body)) =
        .ok (.object [stringProperty (['a', 'n', 's', 'w', 'e', 'r'], body)]) ∧
      ToolCallParser.parse (Utf16.encode (answerText body)) = .ok .answer := by
  have hparse : JsonDocument.parse (Utf16.encode (answerText body)) =
      .ok (.object [stringProperty (['a', 'n', 's', 'w', 'e', 'r'], body)]) := by
    rw [parse_encode, parseChars_answerText hbody, if_pos hclean]
  refine ⟨hparse, ?_⟩
  rw [ToolCallParser.parse, hparse]
  simp [JsonElement.tryGetProperty, stringProperty, unescape_answer]

theorem tryGetProperty_filled {params : List ToolParam} {pairs : List (List Char × List Char)}
    (hfilled : Filled params pairs) {param : ToolParam} (hparam : param ∈ params) :
    ∃ property raw,
      (JsonElement.object (pairs.map stringProperty)).tryGetProperty param.name = some property ∧
        property.value = .string raw := by
  have hname : param.name.toList ∈ pairs.map Prod.fst := by
    rw [hfilled.1]
    exact List.mem_map_of_mem hparam
  obtain ⟨pair, hpair, hfst⟩ := List.mem_map.mp hname
  have hsome : ((JsonElement.object (pairs.map stringProperty)).tryGetProperty
      param.name).isSome = true := by
    rw [JsonElement.tryGetProperty, List.find?_isSome]
    refine ⟨stringProperty pair, by simpa using ⟨_, _, hpair, rfl⟩, ?_⟩
    have hunescape := unescape_plain (plain_of_identifierSafe param.safe)
    simp [stringProperty, hfst, hunescape]
  obtain ⟨property, hproperty⟩ := Option.isSome_iff_exists.mp hsome
  have hmem := List.mem_of_find?_eq_some hproperty
  obtain ⟨other, -, rfl⟩ := List.mem_map.mp (List.mem_reverse.mp hmem)
  exact ⟨_, _, hproperty, rfl⟩

/-- A derived text is JSON, and `Parse` takes it for what its rule says: a call of the tool
with a string for each parameter, or an answer. -/
structure Intended (tools : List ToolSpec) (word : List Char) : Prop where
  isJson : ∃ root, JsonDocument.parse (Utf16.encode word) = .ok root
  calls : ∀ tool ∈ tools, Derives (grammar tools) (toolRule tool) word →
    ∃ call properties, ToolCallParser.parse (Utf16.encode word) = .ok (.tool call) ∧
      call.tool = tool.name ∧
      JsonDocument.parse (utf16 call.argsJson) = .ok (.object properties) ∧
      ∀ param ∈ tool.params, ∃ property raw,
        (JsonElement.object properties).tryGetProperty param.name = some property ∧
          property.value = .string raw
  answers : Derives (grammar tools) answerRule word →
    ToolCallParser.parse (Utf16.encode word) = .ok .answer ∧
      ∃ root, JsonDocument.parse (Utf16.encode word) = .ok root ∧
        root.tryGetProperty "answer" ≠ none

theorem parseChars_isSome_iff (hderives : Derives (grammar tools) (.rule .root) word) :
    (parseChars word).isSome = true ↔ clean word = true := by
  rcases derives_root.mp hderives with hanswer | ⟨tool, -, htool⟩
  · obtain ⟨body, hbody, rfl⟩ := derives_answer.mp hanswer
    rw [parseChars_answerText hbody, clean_answerText hbody]
    split_ifs with hclean <;> simp [hclean]
  · obtain ⟨pairs, hfilled, rfl⟩ := derives_tool.mp htool
    have hname := plain_of_identifierSafe tool.safe
    rw [parseChars_callText hname hfilled, clean_callText hname hfilled]
    split_ifs with hclean <;> simp [hclean]

/-- What is derived is parsed as intended if it has no control character and each of its
backslashes begins an escape of JSON, and only then. -/
theorem intended_iff (hderives : Derives (grammar tools) (.rule .root) word) :
    Intended tools word ↔ clean word = true := by
  have hsome := parseChars_isSome_iff hderives
  constructor
  · intro hintended
    obtain ⟨root, hroot⟩ := hintended.isJson
    rw [← hsome]
    rw [parse_encode] at hroot
    cases hparse : parseChars word with
    | none => simp [hparse] at hroot
    | some value => rfl
  · intro hclean
    constructor
    · obtain ⟨root, hroot⟩ := Option.isSome_iff_exists.mp (hsome.mpr hclean)
      exact ⟨root, by rw [parse_encode, hroot]⟩
    · intro tool _ htool
      obtain ⟨pairs, hfilled, rfl⟩ := derives_tool.mp htool
      rw [clean_callText (plain_of_identifierSafe tool.safe) hfilled] at hclean
      refine ⟨_, pairs.map stringProperty, parse_callText hfilled hclean, rfl,
        parse_argsText hfilled hclean, ?_⟩
      intro param hparam
      exact tryGetProperty_filled hfilled hparam
    · intro hanswer
      obtain ⟨body, hbody, rfl⟩ := derives_answer.mp hanswer
      rw [clean_answerText hbody] at hclean
      obtain ⟨hroot, hparse⟩ := parse_answerText hbody hclean
      refine ⟨hparse, _, hroot, ?_⟩
      simp [JsonElement.tryGetProperty, stringProperty, unescape_answer]

/-- A search with the given query between the quotes. -/
def searchCall (query : List Char) : List Char :=
  callText "search_manuals".toList [("query".toList, query)]

theorem filled_search {query : List Char} (hquery : Body query) :
    Filled ForemanTools.searchManuals.params [("query".toList, query)] := by
  refine ⟨rfl, ?_⟩
  simpa using hquery

theorem derives_searchCall {query : List Char} (hquery : Body query) :
    Derives (grammar ForemanTools.build) (.rule .root) (searchCall query) :=
  derives_root.mpr (Or.inr ⟨ForemanTools.searchManuals, by simp [ForemanTools.build],
    derives_tool.mpr ⟨_, filled_search hquery, rfl⟩⟩)

theorem clean_searchCall {query : List Char} (hquery : Body query) :
    clean (searchCall query) = clean query := by
  have hname : Plain "search_manuals".toList :=
    plain_of_identifierSafe ForemanTools.searchManuals.safe
  rw [searchCall, clean_callText hname (filled_search hquery)]
  simp

theorem intended_searchCall_escaped :
    Derives (grammar ForemanTools.build) (.rule .root) (searchCall ['\\', 'n']) ∧
      Intended ForemanTools.build (searchCall ['\\', 'n']) := by
  have hbody : Body ['\\', 'n'] := .escaped 'n' .nil
  have hclean : clean (searchCall ['\\', 'n']) = true := by
    rw [clean_searchCall hbody]
    decide
  exact ⟨derives_searchCall hbody, (intended_iff (derives_searchCall hbody)).mpr hclean⟩

/-- A line feed in the query is derived, and makes an answer of the call. -/
theorem not_intended_searchCall :
    Derives (grammar ForemanTools.build) (.rule .root) (searchCall ['\n']) ∧
      ¬ Intended ForemanTools.build (searchCall ['\n']) ∧
      JsonDocument.parse (Utf16.encode (searchCall ['\n'])) = .error .jsonException ∧
      ToolCallParser.parse (Utf16.encode (searchCall ['\n'])) = .ok .answer := by
  have hbody : Body ['\n'] := .plain (by decide) (by decide) .nil
  have hderives := derives_searchCall hbody
  have hunclean : ¬ clean (searchCall ['\n']) = true := by
    rw [clean_searchCall hbody]
    decide
  have hnone : parseChars (searchCall ['\n']) = none := by
    rw [← Option.not_isSome_iff_eq_none, parseChars_isSome_iff hderives]
    exact hunclean
  have hparse : JsonDocument.parse (Utf16.encode (searchCall ['\n'])) =
      .error .jsonException := by
    rw [parse_encode, hnone]
  refine ⟨hderives, ?_, hparse, ?_⟩
  · rintro ⟨⟨root, hroot⟩, -, -⟩
    rw [hparse] at hroot
    cases hroot
  · rw [ToolCallParser.parse, hparse]

end GbnfGrammar

end Agent

end NativeInterop
