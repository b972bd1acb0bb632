import NativeInterop.Json
import NativeInterop.Utf16
import Mathlib.Tactic

/-!
# Documents of `System.Text.Json`

`JsonDocument.Parse` takes a sequence of UTF-16 code units.  It transcodes it strictly, and
checks the strings of the document without decoding them: an escaped surrogate on its own is
refused only by `GetString`.  Each of the three ways to fail has an exception of its own.
-/

namespace NativeInterop

/-- A property of an object, with the texts of its name and its value as they stand in the
document. -/
structure JsonProperty (Element : Type) where
  name : List Char
  rawText : List Char
  value : Element

inductive JsonElement where
  | null
  | bool (value : Bool)
  | number (literal : List Char)
  | string (raw : List Char)
  | array (items : List JsonElement)
  | object (properties : List (JsonProperty JsonElement))

namespace JsonDocument

inductive Fault where
  | jsonException
  | argumentException
  | invalidOperationException
  deriving DecidableEq, Repr

open Json (isSpace skipSpace hexDigit readHex4 readNumber)

/-! ## Reading -/

def isEscape (c : Char) : Bool :=
  c = '"' || c = '\\' || c = '/' || c = 'b' || c = 'f' || c = 'n' || c = 'r' || c = 't'

/-- One character of a string as it is written: a plain one, or a whole escape. -/
def readUnit : List Char → Option (List Char × List Char)
  | [] => none
  | c :: rest =>
      if c = '\\' then
        match rest with
        | [] => none
        | mark :: rest =>
            if mark = 'u' then
              (readHex4 rest).map fun (_, behind) => ('\\' :: 'u' :: rest.take 4, behind)
            else if isEscape mark then some (['\\', mark], rest)
            else none
      else if c.toNat < 0x20 then none
      else some ([c], rest)

/-- The text of a string up to its closing quote. -/
def readRaw : ℕ → List Char → Option (List Char × List Char)
  | 0, _ => none
  | fuel + 1, input =>
      if input.head? = some '"' then some ([], input.tail)
      else do
        let (unit, rest) ← readUnit input
        let (raw, rest) ← readRaw fuel rest
        some (unit ++ raw, rest)

def readWord (word : List Char) (value : JsonElement) (input : List Char) :
    Option (JsonElement × List Char) :=
  if word <+: input then some (value, input.drop word.length) else none

/-- `JsonReaderOptions.MaxDepth`, by default. -/
def maxDepth : ℕ := 64

mutual

/-- `depth` is the number of arrays and objects that may still be opened. -/
def readValue : ℕ → ℕ → List Char → Option (JsonElement × List Char)
  | 0, _, _ => none
  | fuel + 1, depth, input =>
      match skipSpace input with
      | '"' :: rest => (readRaw rest.length rest).map fun (raw, rest) => (.string raw, rest)
      | '{' :: rest =>
          if depth = 0 then none
          else
            match skipSpace rest with
            | '}' :: rest => some (.object [], rest)
            | rest =>
                (readProperties fuel (depth - 1) rest).map fun (properties, rest) =>
                  (.object properties, rest)
      | '[' :: rest =>
          if depth = 0 then none
          else
            match skipSpace rest with
            | ']' :: rest => some (.array [], rest)
            | rest =>
                (readItems fuel (depth - 1) rest).map fun (items, rest) => (.array items, rest)
      | 't' :: rest => readWord ['r', 'u', 'e'] (.bool true) rest
      | 'f' :: rest => readWord ['a', 'l', 's', 'e'] (.bool false) rest
      | 'n' :: rest => readWord ['u', 'l', 'l'] .null rest
      | rest => (readNumber rest).map fun (literal, rest) => (.number literal, rest)

def readProperties : ℕ → ℕ → List Char → Option (List (JsonProperty JsonElement) × List Char)
  | 0, _, _ => none
  | fuel + 1, depth, input =>
      match skipSpace input with
      | '"' :: rest => do
          let (name, rest) ← readRaw rest.length rest
          match skipSpace rest with
          | ':' :: rest => do
              let start := skipSpace rest
              let (value, rest) ← readValue fuel depth start
              let property := ⟨name, start.take (start.length - rest.length), value⟩
              match skipSpace rest with
              | '}' :: rest => some ([property], rest)
              | ',' :: rest => do
                  let (properties, rest) ← readProperties fuel depth rest
                  some (property :: properties, rest)
              | _ => none
          | _ => none
      | _ => none

def readItems : ℕ → ℕ → List Char → Option (List JsonElement × List Char)
  | 0, _, _ => none
  | fuel + 1, depth, input => do
      let (value, rest) ← readValue fuel depth input
      match skipSpace rest with
      | ']' :: rest => some ([value], rest)
      | ',' :: rest => do
          let (items, rest) ← readItems fuel depth rest
          some (value :: items, rest)
      | _ => none

end

/-- One value, with nothing but space after it. -/
def parseChars (input : List Char) : Option JsonElement := do
  let (value, rest) ← readValue (input.length + 1) maxDepth input
  if skipSpace rest = [] then some value else none

/-- `JsonDocument.Parse`, and its root element. -/
def parse (text : List UInt16) : Except Fault JsonElement :=
  match Utf16.decode text with
  | none => .error .argumentException
  | some chars =>
      match parseChars chars with
      | none => .error .jsonException
      | some root => .ok root

theorem parse_encode (chars : List Char) :
    parse (Utf16.encode chars) =
      match parseChars chars with
      | none => .error .jsonException
      | some root => .ok root := by
  rw [parse, Utf16.decode_encode]

end JsonDocument

namespace JsonElement

/-- A written string without its escapes. -/
def unescape (raw : List Char) : Option String :=
  (Json.readString (raw.length + 1) (raw ++ ['"'])).map fun (text, _) => .ofList text

/-- The last property under a name. -/
def tryGetProperty (name : String) : JsonElement → Option (JsonProperty JsonElement)
  | .object properties =>
      properties.reverse.find? fun property => unescape property.name = some name
  | _ => none

/-- `GetString` of a string. -/
def getString (raw : List Char) : Except JsonDocument.Fault String :=
  match unescape raw with
  | none => .error .invalidOperationException
  | some text => .ok text

end JsonElement

namespace JsonDocument

open Json (isSpace skipSpace skipSpace_cons hexDigit readHex4)

/-! ## Strings that are accepted -/

/-- Where a check of a string stands, character by character. -/
inductive Scan where
  | plain
  | escaped
  | hex (left : ℕ)
  deriving DecidableEq, Repr

def Scan.step : Scan → Char → Option Scan
  | .plain, c => if c = '\\' then some .escaped else if c.toNat < 0x20 then none else some .plain
  | .escaped, c => if c = 'u' then some (.hex 3) else if isEscape c then some .plain else none
  | .hex 0, c => if (hexDigit c).isSome then some .plain else none
  | .hex (left + 1), c => if (hexDigit c).isSome then some (.hex left) else none

/-- No control character, and every backslash begins an escape of JSON. -/
def clean (text : List Char) : Bool :=
  text.foldlM Scan.step .plain = some .plain

/-- What stands between quotes: a quote or a backslash only behind a backslash. -/
inductive Body : List Char → Prop
  | nil : Body []
  | plain {c : Char} {rest : List Char} (hquote : c ≠ '"') (hslash : c ≠ '\\')
      (hrest : Body rest) : Body (c :: rest)
  | escaped (c : Char) {rest : List Char} (hrest : Body rest) : Body ('\\' :: c :: rest)

theorem Body.append {first second : List Char} (hfirst : Body first) (hsecond : Body second) :
    Body (first ++ second) := by
  induction hfirst with
  | nil => exact hsecond
  | plain hquote hslash _ ih => exact .plain hquote hslash ih
  | escaped c _ ih => exact .escaped c ih

theorem clean_append {first : List Char} (hfirst : clean first = true) (second : List Char) :
    clean (first ++ second) = clean second := by
  have hscan : first.foldlM Scan.step .plain = some .plain := by simpa [clean] using hfirst
  simp [clean, List.foldlM_append, hscan]

theorem clean_cons {c : Char} (hslash : c ≠ '\\') (hprintable : 0x20 ≤ c.toNat)
    (rest : List Char) : clean (c :: rest) = clean rest := by
  simp [clean, Scan.step, hslash, Nat.not_lt.mpr hprintable]

theorem Body.hex {body : List Char} (hbody : Body body) {c : Char} {rest : List Char}
    (hcons : body = c :: rest) (hhex : (hexDigit c).isSome = true) : Body rest := by
  cases hbody with
  | nil => cases hcons
  | plain _ _ hrest =>
      cases hcons
      exact hrest
  | escaped d hrest =>
      cases hcons
      exact absurd hhex (by decide)

/-- Behind the mark of a code unit: four digits, or neither the reader nor the check goes
on. -/
theorem hex_cases (body : List Char) :
    (∃ a b c d behind, body = a :: b :: c :: d :: behind ∧ (hexDigit a).isSome = true ∧
      (hexDigit b).isSome = true ∧ (hexDigit c).isSome = true ∧ (hexDigit d).isSome = true) ∨
    (body.foldlM Scan.step (.hex 3) ≠ some .plain ∧
      ∀ rest, readHex4 (body ++ '"' :: rest) = none) := by
  have hquote : hexDigit '"' = none := by decide
  rcases body with _ | ⟨a, _ | ⟨b, _ | ⟨c, _ | ⟨d, behind⟩⟩⟩⟩
  · right
    refine ⟨by simp, fun rest => ?_⟩
    rcases rest with _ | ⟨x, _ | ⟨y, _ | ⟨z, rest⟩⟩⟩ <;> simp [readHex4, hquote]
  · right
    refine ⟨by cases ha : hexDigit a <;> simp [Scan.step, ha], fun rest => ?_⟩
    rcases rest with _ | ⟨x, _ | ⟨y, rest⟩⟩ <;> simp [readHex4, hquote]
  · right
    refine ⟨?_, fun rest => ?_⟩
    · cases ha : hexDigit a <;> cases hb : hexDigit b <;> simp [Scan.step, ha, hb]
    · rcases rest with _ | ⟨x, rest⟩ <;> simp [readHex4, hquote]
  · right
    refine ⟨?_, fun rest => by simp [readHex4, hquote]⟩
    cases ha : hexDigit a <;> cases hb : hexDigit b <;> cases hc : hexDigit c <;>
      simp [Scan.step, ha, hb, hc]
  · cases ha : hexDigit a <;> cases hb : hexDigit b <;> cases hc : hexDigit c <;>
      cases hd : hexDigit d <;> simp [readHex4, Scan.step, ha, hb, hc, hd]

theorem readUnit_plain {c : Char} (hslash : c ≠ '\\') (rest : List Char) :
    readUnit (c :: rest) = if c.toNat < 0x20 then none else some ([c], rest) := by
  simp [readUnit, hslash]

theorem readUnit_escaped {mark : Char} (hmark : mark ≠ 'u') (rest : List Char) :
    readUnit ('\\' :: mark :: rest) =
      if isEscape mark then some (['\\', mark], rest) else none := by
  simp [readUnit, hmark]

theorem readUnit_unicode (rest : List Char) :
    readUnit ('\\' :: 'u' :: rest) =
      (readHex4 rest).map fun read => ('\\' :: 'u' :: rest.take 4, read.2) := by
  simp [readUnit]

/-- What stands between quotes begins with a character or an escape that the reader takes, or
the check refuses it. -/
def Begins (body : List Char) : Prop :=
  (∃ unit tail, body = unit ++ tail ∧ unit ≠ [] ∧ Body tail ∧ clean body = clean tail ∧
    ∀ rest, readUnit (body ++ '"' :: rest) = some (unit, tail ++ '"' :: rest)) ∨
  (clean body = false ∧ ∀ rest, readUnit (body ++ '"' :: rest) = none)

theorem begins_plain {c : Char} (hslash : c ≠ '\\') {tail : List Char} (htail : Body tail) :
    Begins (c :: tail) := by
  by_cases hcontrol : c.toNat < 0x20
  · right
    refine ⟨by simp [clean, Scan.step, hslash, hcontrol], fun rest => ?_⟩
    rw [List.cons_append, readUnit_plain hslash, if_pos hcontrol]
  · left
    refine ⟨[c], tail, rfl, by simp, htail, clean_cons hslash (Nat.not_lt.mp hcontrol) tail,
      fun rest => ?_⟩
    rw [List.cons_append, readUnit_plain hslash, if_neg hcontrol]

theorem begins_escaped {mark : Char} (hmark : mark ≠ 'u') {tail : List Char}
    (htail : Body tail) : Begins ('\\' :: mark :: tail) := by
  by_cases hescape : isEscape mark = true
  · left
    refine ⟨['\\', mark], tail, rfl, by simp, htail,
      by simp [clean, Scan.step, hmark, hescape], fun rest => ?_⟩
    rw [List.cons_append, List.cons_append, readUnit_escaped hmark, if_pos hescape]
  · right
    refine ⟨by simp [clean, Scan.step, hmark, hescape], fun rest => ?_⟩
    rw [List.cons_append, List.cons_append, readUnit_escaped hmark, if_neg hescape]

theorem begins_unicode {tail : List Char} (htail : Body tail) :
    Begins ('\\' :: 'u' :: tail) := by
  rcases hex_cases tail with ⟨a, b, c, d, behind, rfl, ha, hb, hc, hd⟩ | ⟨hscan, hread⟩
  · left
    have hbehind := (((htail.hex rfl ha).hex rfl hb).hex rfl hc).hex rfl hd
    obtain ⟨_, ha⟩ := Option.isSome_iff_exists.mp ha
    obtain ⟨_, hb⟩ := Option.isSome_iff_exists.mp hb
    obtain ⟨_, hc⟩ := Option.isSome_iff_exists.mp hc
    obtain ⟨_, hd⟩ := Option.isSome_iff_exists.mp hd
    refine ⟨['\\', 'u', a, b, c, d], behind, rfl, by simp, hbehind,
      by simp [clean, Scan.step, ha, hb, hc, hd], fun rest => ?_⟩
    rw [List.cons_append, List.cons_append, readUnit_unicode]
    simp [readHex4, ha, hb, hc, hd]
  · right
    refine ⟨by simpa [clean, Scan.step] using hscan, fun rest => ?_⟩
    rw [List.cons_append, List.cons_append, readUnit_unicode, hread]
    rfl

theorem Body.begins {body : List Char} (hbody : Body body) (hne : body ≠ []) : Begins body := by
  cases hbody with
  | nil => exact absurd rfl hne
  | plain _ hslash hrest => exact begins_plain hslash hrest
  | escaped c hrest =>
      by_cases hunicode : c = 'u'
      · subst hunicode
        exact begins_unicode hrest
      · exact begins_escaped hunicode hrest

theorem Body.head?_ne_quote {body : List Char} (hbody : Body body) :
    body.head? ≠ some '"' := by
  cases hbody with
  | nil => simp
  | plain hquote _ _ => simpa using hquote
  | escaped c _ => simp

/-- The reader and the check agree on what stands between quotes. -/
theorem readRaw_body {body : List Char} (hbody : Body body) (rest : List Char) {fuel : ℕ}
    (hfuel : body.length < fuel) :
    readRaw fuel (body ++ '"' :: rest) = if clean body then some (body, rest) else none := by
  induction fuel generalizing body with
  | zero => omega
  | succ fuel ih =>
      by_cases hne : body = []
      · subst hne
        rfl
      · have hhead : (body ++ '"' :: rest).head? ≠ some '"' := by
          rw [List.head?_append_of_ne_nil _ hne]
          exact hbody.head?_ne_quote
        rw [readRaw, if_neg hhead]
        rcases hbody.begins hne with ⟨unit, tail, hsplit, hunit, htail, hclean, hread⟩ |
          ⟨hclean, hread⟩
        · have hshorter : tail.length < fuel := by
            have hpos := List.length_pos_iff.mpr hunit
            rw [hsplit, List.length_append] at hfuel
            omega
          have hbehind := ih htail hshorter
          rw [hread, hclean]
          by_cases hyes : clean tail = true <;> simp [hbehind, hyes, hsplit]
        · simp [hread, hclean]

theorem readRaw_quoted {body : List Char} (hbody : Body body) (rest : List Char) :
    readRaw (body ++ '"' :: rest).length (body ++ '"' :: rest) =
      if clean body then some (body, rest) else none :=
  readRaw_body hbody rest (by simp)

theorem Scan.step_eq_escaped {scan : Scan} {c : Char} (hstep : scan.step c = some .escaped) :
    scan = .plain ∧ c = '\\' := by
  cases scan with
  | plain =>
      refine ⟨rfl, ?_⟩
      by_contra hslash
      simp [Scan.step, hslash] at hstep
  | escaped =>
      simp only [Scan.step] at hstep
      split_ifs at hstep <;> cases hstep
  | hex left => cases left <;> simp [Scan.step] at hstep

/-- What stands between quotes leaves no escape open, unless one of a code unit. -/
theorem Body.scan_ne_escaped {body : List Char} (hbody : Body body) {scan : Scan}
    (hscan : scan ≠ .escaped) : body.foldlM Scan.step scan ≠ some .escaped := by
  induction hbody generalizing scan with
  | nil => simpa using hscan
  | plain _ hslash _ ih =>
      intro hend
      rw [List.foldlM_cons] at hend
      obtain ⟨next, hstep, hend⟩ := Option.bind_eq_some_iff.mp hend
      refine ih ?_ hend
      rintro rfl
      exact hslash (Scan.step_eq_escaped hstep).2
  | escaped c _ ih =>
      intro hend
      rw [List.foldlM_cons] at hend
      obtain ⟨mark, hmark, hend⟩ := Option.bind_eq_some_iff.mp hend
      rw [List.foldlM_cons] at hend
      obtain ⟨next, hstep, hend⟩ := Option.bind_eq_some_iff.mp hend
      refine ih ?_ hend
      rintro rfl
      have hplain := (Scan.step_eq_escaped hstep).1
      subst hplain
      cases scan with
      | plain => simp [Scan.step] at hmark
      | escaped => exact hscan rfl
      | hex left =>
          have hslash : (hexDigit '\\').isSome = false := by decide
          cases left <;> simp [Scan.step, hslash] at hmark

/-- A closing quote ends the check of what stands before it. -/
theorem clean_body {body : List Char} (hbody : Body body) (rest : List Char) :
    clean (body ++ '"' :: rest) = (clean body && clean rest) := by
  have hquote : (hexDigit '"').isSome = false := by decide
  have hescaped : body.foldlM Scan.step .plain ≠ some .escaped :=
    hbody.scan_ne_escaped (by simp)
  cases hscan : body.foldlM Scan.step .plain with
  | none => simp [clean, List.foldlM_append, hscan]
  | some scan =>
      cases scan with
      | plain => simp [clean, List.foldlM_append, hscan, Scan.step]
      | escaped => exact absurd hscan hescaped
      | hex left => cases left <;> simp [clean, List.foldlM_append, hscan, Scan.step, hquote]

/-! ## Texts without a mark -/

def Plain (text : List Char) : Prop :=
  ∀ c ∈ text, 0x20 ≤ c.toNat ∧ c ≠ '"' ∧ c ≠ '\\'

section Plain

variable {text : List Char}

theorem body_of_plain (hplain : Plain text) :
    Body text := by
  induction text with
  | nil => exact .nil
  | cons c text ih =>
      obtain ⟨⟨-, hquote, hslash⟩, hrest⟩ := List.forall_mem_cons.mp hplain
      exact .plain hquote hslash (ih hrest)

theorem clean_of_plain (hplain : Plain text) :
    clean text = true := by
  induction text with
  | nil => rfl
  | cons c text ih =>
      obtain ⟨⟨hprintable, -, hslash⟩, hrest⟩ := List.forall_mem_cons.mp hplain
      rw [clean_cons hslash hprintable]
      exact ih hrest

theorem readString_plain (hplain : Plain text)
    {fuel : ℕ} (hfuel : text.length < fuel) :
    Json.readString fuel (text ++ ['"']) = some (text, []) := by
  induction text generalizing fuel with
  | nil =>
      obtain ⟨fuel, rfl⟩ : ∃ k, fuel = k + 1 := ⟨fuel - 1, by omega⟩
      rfl
  | cons c text ih =>
      rw [List.length_cons] at hfuel
      obtain ⟨fuel, rfl⟩ : ∃ k, fuel = k + 1 := ⟨fuel - 1, by omega⟩
      obtain ⟨⟨hprintable, hquote, hslash⟩, hrest⟩ := List.forall_mem_cons.mp hplain
      have htail := ih hrest (show text.length < fuel by omega)
      rw [List.cons_append, Json.readString, if_neg (by simpa using hquote), Json.readChar,
        if_neg hslash, if_neg (Nat.not_lt.mpr hprintable)]
      simp [htail]

theorem unescape_plain (hplain : Plain text) :
    JsonElement.unescape text = some (.ofList text) := by
  rw [JsonElement.unescape, readString_plain hplain (Nat.lt_succ_self _)]
  rfl

end Plain

/-! ## Objects of strings -/

theorem readValue_string {body : List Char} (hbody : Body body) (rest : List Char)
    (fuel depth : ℕ) :
    readValue (fuel + 1) depth ('"' :: (body ++ '"' :: rest)) =
      if clean body then some (.string body, rest) else none := by
  have hread := readRaw_quoted hbody rest
  rw [readValue, skipSpace_cons _ (by decide)]
  simp only [hread]
  by_cases hclean : clean body = true <;> simp [hclean]

section Properties

variable {name value : List Char} {element : JsonElement} {rest : List Char} {fuel depth : ℕ}

/-- A property whose value is not read makes the object unreadable. -/
theorem readProperties_fault (hname : Body name) (hclean : clean name = true)
    (hspace : skipSpace value = value) (hvalue : readValue fuel depth value = none) :
    readProperties (fuel + 1) depth ('"' :: (name ++ '"' :: ':' :: value)) = none := by
  have hread := readRaw_quoted hname (':' :: value)
  rw [readProperties, skipSpace_cons _ (by decide)]
  simp only [hread, if_pos hclean]
  simp [skipSpace_cons _ (show isSpace ':' = false by decide), hspace, hvalue]

theorem readProperties_last (hname : Body name) (hclean : clean name = true)
    (hspace : skipSpace (value ++ '}' :: rest) = value ++ '}' :: rest)
    (hvalue : readValue fuel depth (value ++ '}' :: rest) = some (element, '}' :: rest)) :
    readProperties (fuel + 1) depth ('"' :: (name ++ '"' :: ':' :: (value ++ '}' :: rest))) =
      some ([⟨name, value, element⟩], rest) := by
  have hread := readRaw_quoted hname (':' :: (value ++ '}' :: rest))
  rw [readProperties, skipSpace_cons _ (by decide)]
  simp only [hread, if_pos hclean]
  simp [skipSpace_cons _ (show isSpace ':' = false by decide), hspace, hvalue,
    skipSpace_cons _ (show isSpace '}' = false by decide)]

theorem readProperties_more (hname : Body name) (hclean : clean name = true)
    (hspace : skipSpace (value ++ ',' :: rest) = value ++ ',' :: rest)
    (hvalue : readValue fuel depth (value ++ ',' :: rest) = some (element, ',' :: rest)) :
    readProperties (fuel + 1) depth ('"' :: (name ++ '"' :: ':' :: (value ++ ',' :: rest))) =
      (readProperties fuel depth rest).map fun read =>
        (⟨name, value, element⟩ :: read.1, read.2) := by
  have hread := readRaw_quoted hname (':' :: (value ++ ',' :: rest))
  rw [readProperties, skipSpace_cons _ (by decide)]
  simp only [hread, if_pos hclean]
  cases hmore : readProperties fuel depth rest <;>
    simp [skipSpace_cons _ (show isSpace ':' = false by decide), hspace, hvalue, hmore,
      skipSpace_cons _ (show isSpace ',' = false by decide)]

end Properties

def quoted (body : List Char) : List Char :=
  '"' :: (body ++ ['"'])

/-- The properties of an object of strings, without its braces. -/
def strings : List (List Char × List Char) → List Char
  | [] => []
  | [(name, body)] => quoted name ++ ':' :: quoted body
  | (name, body) :: more => quoted name ++ ':' :: (quoted body ++ ',' :: strings more)

theorem strings_cons (pair : List Char × List Char) {more : List (List Char × List Char)}
    (hmore : more ≠ []) :
    strings (pair :: more) = quoted pair.1 ++ ':' :: (quoted pair.2 ++ ',' :: strings more) := by
  cases more with
  | nil => exact absurd rfl hmore
  | cons second more => rfl

def stringProperty (pair : List Char × List Char) : JsonProperty JsonElement where
  name := pair.1
  rawText := quoted pair.2
  value := .string pair.2

theorem clean_quoted {body : List Char} (hbody : Body body) (rest : List Char) :
    clean (quoted body ++ rest) = (clean body && clean rest) := by
  have hsplit : quoted body ++ rest = '"' :: (body ++ '"' :: rest) := by simp [quoted]
  rw [hsplit, clean_cons (by decide) (by decide), clean_body hbody]

theorem clean_strings {pairs : List (List Char × List Char)}
    (hnames : ∀ p ∈ pairs, Body p.1 ∧ clean p.1 = true) (hbodies : ∀ p ∈ pairs, Body p.2)
    (rest : List Char) :
    clean (strings pairs ++ rest) = ((pairs.all fun p => clean p.2) && clean rest) := by
  induction pairs with
  | nil => rfl
  | cons pair more ih =>
      obtain ⟨⟨hname, hclean⟩, hnames⟩ := List.forall_mem_cons.mp hnames
      obtain ⟨hbody, hbodies⟩ := List.forall_mem_cons.mp hbodies
      by_cases hmore : more = []
      · subst hmore
        have hsplit : strings [pair] ++ rest =
            quoted pair.1 ++ ':' :: (quoted pair.2 ++ rest) := by
          simp [strings]
        rw [hsplit, clean_quoted hname, hclean, clean_cons (by decide) (by decide),
          clean_quoted hbody]
        simp
      · have hsplit : strings (pair :: more) ++ rest =
            quoted pair.1 ++ ':' :: (quoted pair.2 ++ ',' :: (strings more ++ rest)) := by
          simp [strings_cons _ hmore]
        rw [hsplit, clean_quoted hname, hclean, clean_cons (by decide) (by decide),
          clean_quoted hbody, clean_cons (by decide) (by decide), ih hnames hbodies]
        simp [Bool.and_assoc]

theorem readValue_quoted {body : List Char} (hbody : Body body) (rest : List Char)
    (fuel depth : ℕ) :
    readValue (fuel + 1) depth (quoted body ++ rest) =
      if clean body then some (.string body, rest) else none := by
  have hsplit : quoted body ++ rest = '"' :: (body ++ '"' :: rest) := by simp [quoted]
  rw [hsplit, readValue_string hbody]

theorem skipSpace_quoted (body rest : List Char) :
    skipSpace (quoted body ++ rest) = quoted body ++ rest :=
  skipSpace_cons _ rfl

theorem readProperties_strings {pair : List Char × List Char}
    {more : List (List Char × List Char)}
    (hnames : ∀ p ∈ pair :: more, Body p.1 ∧ clean p.1 = true)
    (hbodies : ∀ p ∈ pair :: more, Body p.2) (rest : List Char) {fuel : ℕ}
    (hfuel : more.length + 1 < fuel) (depth : ℕ) :
    readProperties fuel depth (strings (pair :: more) ++ '}' :: rest) =
      if (pair :: more).all fun p => clean p.2
      then some ((pair :: more).map stringProperty, rest) else none := by
  induction more generalizing pair fuel with
  | nil =>
      obtain ⟨fuel, rfl⟩ : ∃ k, fuel = k + 2 := ⟨fuel - 2, by simp at hfuel; omega⟩
      obtain ⟨hname, hclean⟩ := hnames pair (by simp)
      have hvalue := readValue_quoted (hbodies pair (by simp)) ('}' :: rest) fuel depth
      have hspace := skipSpace_quoted pair.2 ('}' :: rest)
      have hsplit : strings [pair] ++ '}' :: rest =
          '"' :: (pair.1 ++ '"' :: ':' :: (quoted pair.2 ++ '}' :: rest)) := by
        simp [strings, quoted]
      rw [hsplit]
      by_cases hyes : clean pair.2 = true
      · rw [if_pos hyes] at hvalue
        rw [readProperties_last hname hclean hspace hvalue]
        simp [hyes, stringProperty]
      · rw [if_neg hyes] at hvalue
        rw [readProperties_fault hname hclean hspace hvalue]
        simp [hyes]
  | cons second more ih =>
      rw [List.length_cons] at hfuel
      obtain ⟨fuel, rfl⟩ : ∃ k, fuel = k + 2 := ⟨fuel - 2, by omega⟩
      obtain ⟨⟨hname, hclean⟩, hnames⟩ := List.forall_mem_cons.mp hnames
      obtain ⟨hbody, hbodies⟩ := List.forall_mem_cons.mp hbodies
      have hmore := ih hnames hbodies (show more.length + 1 < fuel + 1 by omega)
      have hvalue := readValue_quoted hbody
        (',' :: (strings (second :: more) ++ '}' :: rest)) fuel depth
      have hspace := skipSpace_quoted pair.2 (',' :: (strings (second :: more) ++ '}' :: rest))
      have hsplit : strings (pair :: second :: more) ++ '}' :: rest =
          '"' :: (pair.1 ++ '"' :: ':' ::
            (quoted pair.2 ++ ',' :: (strings (second :: more) ++ '}' :: rest))) := by
        simp [strings, quoted]
      rw [hsplit]
      by_cases hyes : clean pair.2 = true
      · rw [if_pos hyes] at hvalue
        rw [readProperties_more hname hclean hspace hvalue, hmore]
        by_cases hall : ((second :: more).all fun p => clean p.2) = true
        · rw [if_pos hall, if_pos (by rw [List.all_cons, hyes, hall]; rfl)]
          rfl
        · rw [if_neg hall, if_neg (by rw [List.all_cons, hyes]; exact hall)]
          rfl
      · rw [if_neg hyes] at hvalue
        rw [readProperties_fault hname hclean hspace hvalue]
        simp [hyes]

theorem readValue_brace (tail : List Char) (fuel depth : ℕ) :
    readValue (fuel + 1) (depth + 1) ('{' :: '"' :: tail) =
      (readProperties fuel depth ('"' :: tail)).map fun read => (.object read.1, read.2) := by
  rw [readValue, skipSpace_cons _ (by decide)]
  simp [skipSpace_cons _ (show isSpace '"' = false by decide)]

/-- An object of strings is read if all of its strings are. -/
theorem readValue_strings {pairs : List (List Char × List Char)}
    (hnames : ∀ p ∈ pairs, Body p.1 ∧ clean p.1 = true) (hbodies : ∀ p ∈ pairs, Body p.2)
    (rest : List Char) {fuel : ℕ} (hfuel : pairs.length + 1 < fuel) (depth : ℕ) :
    readValue fuel (depth + 1) ('{' :: (strings pairs ++ '}' :: rest)) =
      if pairs.all fun p => clean p.2
      then some (.object (pairs.map stringProperty), rest) else none := by
  obtain ⟨fuel, rfl⟩ : ∃ k, fuel = k + 1 := ⟨fuel - 1, by omega⟩
  cases pairs with
  | nil =>
      rw [readValue, skipSpace_cons _ (by decide)]
      rfl
  | cons pair more =>
      rw [List.length_cons] at hfuel
      have hread := readProperties_strings hnames hbodies rest
        (show more.length + 1 < fuel by omega) depth
      obtain ⟨tail, htail⟩ : ∃ tail, strings (pair :: more) = '"' :: tail := by
        cases more <;> exact ⟨_, rfl⟩
      rw [htail, List.cons_append] at hread ⊢
      rw [readValue_brace, hread]
      split_ifs <;> rfl

theorem strings_length (pairs : List (List Char × List Char)) :
    pairs.length ≤ (strings pairs).length := by
  induction pairs with
  | nil => simp
  | cons pair more ih =>
      cases more with
      | nil => simp [strings, quoted]
      | cons second more =>
          simp only [strings, List.length_cons, List.length_append] at ih ⊢
          omega

theorem parseChars_of_readValue {input : List Char} {read : Option JsonElement}
    (hread : readValue (input.length + 1) maxDepth input = read.map fun value => (value, [])) :
    parseChars input = read := by
  rw [parseChars, hread]
  cases read with
  | none => rfl
  | some value => rfl

theorem parseChars_strings {pairs : List (List Char × List Char)}
    (hnames : ∀ p ∈ pairs, Body p.1 ∧ clean p.1 = true) (hbodies : ∀ p ∈ pairs, Body p.2) :
    parseChars ('{' :: (strings pairs ++ ['}'])) =
      if pairs.all fun p => clean p.2 then some (.object (pairs.map stringProperty)) else none := by
  have hlength := strings_length pairs
  have hfuel : pairs.length + 1 < ('{' :: (strings pairs ++ ['}'])).length + 1 := by
    simp only [List.length_cons, List.length_append]
    omega
  apply parseChars_of_readValue
  rw [maxDepth, readValue_strings hnames hbodies [] hfuel 63]
  split_ifs <;> rfl

end JsonDocument

end NativeInterop
