import NativeInterop.DelimitedFields
import NativeInterop.PercentEncoding
import NativeInterop.SignedDecimal
import Mathlib.Tactic

/-!
# The parametric showcase commands

A command id is a name and `~key_value` fields.  The clients write the ids of the Lab and the
Latency screens; the engine reads the fields, clamps the numbers and runs what the name stands
for.  `double.TryParse` and `%.6f` are parameters; a `Double` is its bit pattern.
-/

namespace NativeInterop

abbrev Double := UInt64

namespace ShowcaseCommand

open DelimitedFields

abbrev Text := List Char

/-! ## The reader of integers -/

def minInt : ℤ := -2 ^ 31

def maxInt : ℤ := 2 ^ 31 - 1

def isWhite (c : Char) : Bool := c = ' ' ∨ (9 ≤ c.toNat ∧ c.toNat ≤ 13)

/-- The sign of `NumberStyles.Integer`, and what is behind it. -/
def readSign : Text → Text × Text
  | [] => ([], [])
  | c :: rest => if c = '-' ∨ c = '+' then ([c], rest) else ([], c :: rest)

/-- `int.TryParse` with `NumberStyles.Integer`. -/
def tryParseInt (text : Text) : Option ℤ :=
  let (sign, rest) := readSign (text.dropWhile isWhite)
  let digits := rest.takeWhile Char.isDigit
  let trailing := (rest.dropWhile Char.isDigit).dropWhile isWhite
  if trailing.all (· = '\x00') then
    SignedDecimal.parse SignedDecimal.ascii minInt maxInt (sign ++ digits)
  else none

/-! ## The parameters -/

abbrev Params := Entries Char

def parseParams (parts : List Text) : Params :=
  parts.tail.foldl (addField '_') []

def tryGetValue (p : Params) (key : String) : Option Text :=
  p.lookup key.toList

def getD (tryParseDouble : Text → Option Double) (p : Params) (key : String)
    (fallback : Double) : Double :=
  ((tryGetValue p key).bind tryParseDouble).getD fallback

def getIRaw (p : Params) (key : String) (fallback : ℤ) : ℤ :=
  ((tryGetValue p key).bind tryParseInt).getD fallback

def clamp (value lo hi : ℤ) : ℤ := if value < lo then lo else if hi < value then hi else value

def getI (p : Params) (key : String) (fallback lo hi : ℤ) : ℤ :=
  clamp (getIRaw p key fallback) lo hi

def getS (p : Params) (key : String) (fallback : String) : Text :=
  (tryGetValue p key).getD fallback.toList

/-! ## The engine -/

def isCommand (id : Text) : Bool := id.contains '~'

inductive PayloadKind where
  | catalog
  | ragctx
  | mixed
  deriving DecidableEq

inductive Preset where
  | gen0
  | loh
  | pinned
  deriving DecidableEq

/-- What a name and its fields come to: a call with its arguments, or a text that no call
gives. -/
inductive Call where
  | renderColorBase64 (centerX centerY zoom : Double) (maxIter size : ℤ)
  | renderBase64 (cameraAngle : Double) (width height : ℤ)
  | matmulGflops (max : ℤ)
  | parallelScaling (size : ℤ)
  | echo (bytes : ℤ)
  | benchReal (kind : PayloadKind) (reps : ℤ) (clamped : Bool)
  | gcLab (preset : Preset) (mb secs : ℤ) (clamped : Bool)
  | posture
  | traceStats
  | snapshot
  | logStats
  | resetConversation
  | refused (message : Text)
  deriving DecidableEq

def unknown (message : String) : Text := "Unknown showcase command".toList ++ message.toList

def PayloadKind.text : PayloadKind → Text
  | .catalog => "catalog".toList
  | .ragctx => "ragctx".toList
  | .mixed => "mixed".toList

def Preset.text : Preset → Text
  | .gen0 => "gen0".toList
  | .loh => "loh".toList
  | .pinned => "pinned".toList

def runBenchReal (p : Params) : Call :=
  let kind := getS p "kind" "catalog"
  let rawReps := getIRaw p "reps" 5
  let reps := clamp rawReps 1 25
  let run (kind : PayloadKind) : Call := .benchReal kind reps (reps ≠ rawReps)
  if kind = PayloadKind.catalog.text then run .catalog
  else if kind = PayloadKind.ragctx.text then run .ragctx
  else if kind = PayloadKind.mixed.text then run .mixed
  else .refused (unknown ": bench-real (kind=" ++ kind ++ [')'])

def runGcLab (p : Params) : Call :=
  let preset := getS p "preset" "gen0"
  let rawMb := getIRaw p "mb" 64
  let rawSecs := getIRaw p "secs" 5
  let mb := clamp rawMb 1 256
  let secs := clamp rawSecs 1 30
  let run (preset : Preset) : Call := .gcLab preset mb secs (mb ≠ rawMb ∨ secs ≠ rawSecs)
  if preset = Preset.gen0.text then run .gen0
  else if preset = Preset.loh.text then run .loh
  else if preset = Preset.pinned.text then run .pinned
  else .refused (unknown ": gclab (preset=" ++ preset ++ [')'])

/-- A command with a bare word behind its name. -/
def runSub (name word : String) (call : Call) (parts : List Text) : Call :=
  let sub := parts[1]?.getD []
  if sub = word.toList then call
  else .refused (unknown (": " ++ name ++ " (sub=") ++ sub ++ [')'])

def runTrust : List Text → Call := runSub "trust" "posture" .posture

def runTrace : List Text → Call := runSub "trace" "stats" .traceStats

def runMetrics : List Text → Call := runSub "metrics" "snapshot" .snapshot

def runLog : List Text → Call := runSub "log" "stats" .logStats

def runAgent : List Text → Call := runSub "agent" "reset" .resetConversation

section Engine

variable (tryParseDouble : Text → Option Double)

/-- The switch of `Run`.  The constants are `-0.5`, `0.0` and `1.0`. -/
def select (name : String) (parts : List Text) (p : Params) : Call :=
  match name with
  | "viz-mandelbrot" =>
      .renderColorBase64 (getD tryParseDouble p "cx" 0xBFE0000000000000)
        (getD tryParseDouble p "cy" 0) (getD tryParseDouble p "zoom" 0x3FF0000000000000)
        (getI p "iters" 200 16 2000) (getI p "w" 256 32 512)
  | "viz-raymarch" =>
      .renderBase64 (getD tryParseDouble p "angle" 0) (getI p "w" 220 32 512)
        (getI p "h" 220 32 512)
  | "bench-matmul" => .matmulGflops (getI p "max" 384 64 512)
  | "bench-parallel" => .parallelScaling (getI p "size" 480 64 1024)
  | "bench-echo" => .echo (getI p "bytes" 1024 1 1048576)
  | "bench-real" => runBenchReal p
  | "gclab" => runGcLab p
  | "trust" => runTrust parts
  | "trace" => runTrace parts
  | "metrics" => runMetrics parts
  | "log" => runLog parts
  | "agent" => runAgent parts
  | _ => .refused (unknown (": " ++ name))

def callOf (id : Text) : Call :=
  let parts := id.splitOn '~'
  select tryParseDouble (.ofList (parts.headD [])) parts (parseParams parts)

end Engine

structure FeatureRun where
  id : Text
  result : Text
  elapsedMs : Double
  ok : Bool

/-- What the calls give; each may throw.  The storm of the collector's lab is refused while
another one is in flight. -/
structure Engine where
  tryParseDouble : Text → Option Double
  gcLab : Preset → ℤ → ℤ → Bool → Except Text (Option Text)
  resetConversation : Except Text Unit
  result : Call → Except Text Text

def perform (engine : Engine) : Call → Except Text Text
  | .echo bytes => .ok (List.replicate bytes.toNat 'x')
  | .gcLab preset mb secs clamped => do
      match ← engine.gcLab preset mb secs clamped with
      | some payload => .ok payload
      | none =>
          .ok (unknown ": gclab (already running — one storm per process at a time)")
  | .resetConversation => do
      engine.resetConversation
      .ok "\x7b\"reset\":true\x7d".toList
  | .refused message => .ok message
  | call => engine.result call

def run (engine : Engine) (id : Text) (elapsedMs : Double) : FeatureRun :=
  match perform engine (callOf engine.tryParseDouble id) with
  | .ok result =>
      { id, result, elapsedMs, ok := !("Unknown showcase command".toList.isPrefixOf result) }
  | .error message => { id, result := message, elapsedMs, ok := false }

/-! ## The clients -/

section Clients

-- `%.6f` and the like, for a number of decimals.
variable (fixed : ℕ → Double → Text)

def field (key : String) (value : Text) : Text × Text := (key.toList, value)

def command (name : String) (fields : Params) : Text :=
  writeFields '~' '_' name.toList fields

def mandelbrot (cx cy zoom : Double) (iters size : ℤ) : Text :=
  command "viz-mandelbrot" [field "cx" (fixed 6 cx), field "cy" (fixed 6 cy),
    field "zoom" (fixed 6 zoom), field "iters" (Json.integer iters),
    field "w" (Json.integer size), field "h" (Json.integer size)]

def raymarch (angle : Double) (size : ℤ) : Text :=
  command "viz-raymarch" [field "angle" (fixed 3 angle), field "w" (Json.integer size),
    field "h" (Json.integer size)]

def matmul (max : ℤ) : Text :=
  command "bench-matmul" [field "max" (Json.integer max)]

def parallel (size : ℤ) : Text :=
  command "bench-parallel" [field "size" (Json.integer size)]

def benchEcho (bytes : ℤ) : Text :=
  command "bench-echo" [field "bytes" (Json.integer bytes)]

def benchReal (kind : PayloadKind) (reps : ℤ) : Text :=
  command "bench-real" [field "kind" kind.text, field "reps" (Json.integer reps)]

def gcLab (preset : Preset) (mb secs : ℤ) : Text :=
  command "gclab" [field "preset" preset.text, field "mb" (Json.integer mb),
    field "secs" (Json.integer secs)]

/-- The commands that the screens send. -/
inductive Lab where
  | mandelbrot (cx cy zoom : Double) (iters size : ℤ)
  | raymarch (angle : Double) (size : ℤ)
  | matmul (max : ℤ)
  | parallel (size : ℤ)
  | benchEcho (bytes : ℤ)
  | benchReal (kind : PayloadKind) (reps : ℤ)
  | gcLab (preset : Preset) (mb secs : ℤ)

def Lab.command : Lab → Text
  | .mandelbrot cx cy zoom iters size => ShowcaseCommand.mandelbrot fixed cx cy zoom iters size
  | .raymarch angle size => ShowcaseCommand.raymarch fixed angle size
  | .matmul max => ShowcaseCommand.matmul max
  | .parallel size => ShowcaseCommand.parallel size
  | .benchEcho bytes => ShowcaseCommand.benchEcho bytes
  | .benchReal kind reps => ShowcaseCommand.benchReal kind reps
  | .gcLab preset mb secs => ShowcaseCommand.gcLab preset mb secs

end Clients

/-! ## What is read of what was written -/

/-- The range in which a number is run. -/
structure Within (lo hi n : ℤ) : Prop where
  lo_le : lo ≤ n
  le_hi : n ≤ hi

theorem clamp_within {lo hi : ℤ} (hle : lo ≤ hi) (n : ℤ) : Within lo hi (clamp n lo hi) := by
  unfold clamp
  split_ifs with hlo hhi
  · exact ⟨le_rfl, hle⟩
  · exact ⟨hle, le_rfl⟩
  · exact ⟨not_lt.mp hlo, not_lt.mp hhi⟩

theorem clamp_eq_self {lo hi n : ℤ} (hn : Within lo hi n) : clamp n lo hi = n := by
  rw [clamp, if_neg (not_lt.mpr hn.lo_le), if_neg (not_lt.mpr hn.le_hi)]

theorem takeWhile_toDigits (n : ℕ) :
    (Nat.toDigits 10 n).takeWhile Char.isDigit = Nat.toDigits 10 n :=
  List.takeWhile_eq_self_iff.mpr fun _ => Json.isDigit_of_mem_toDigits

theorem dropWhile_toDigits (n : ℕ) : (Nat.toDigits 10 n).dropWhile Char.isDigit = [] :=
  List.dropWhile_eq_nil_iff.mpr fun _ => Json.isDigit_of_mem_toDigits

theorem not_isWhite_of_isDigit {c : Char} (hc : c.isDigit = true) : isWhite c = false := by
  have hrange : 0x30 ≤ c.toNat ∧ c.toNat ≤ 0x39 := Char.isDigit_iff_toNat.mp hc
  have hspace : c ≠ ' ' := by
    rintro rfl
    exact absurd hc (by decide)
  simp only [isWhite, hspace, false_or, decide_eq_false_iff_not]
  omega

theorem magnitude_toDigits (n : ℕ) :
    SignedDecimal.magnitude SignedDecimal.ascii.digitOf (Nat.toDigits 10 n) = some (n : ℤ) := by
  rw [SignedDecimal.magnitude, if_neg (by simp),
    SignedDecimal.valueFrom_ascii fun _ => Json.isDigit_of_mem_toDigits,
    Nat.ofDigitChars_ten_toDigits]
  rfl

theorem signed_integer (n : ℤ) :
    SignedDecimal.signed SignedDecimal.ascii (Json.integer n) = some n := by
  unfold Json.integer
  split_ifs with hneg
  · have hminus : SignedDecimal.signed SignedDecimal.ascii ('-' :: Nat.toDigits 10 n.natAbs) =
        (SignedDecimal.magnitude SignedDecimal.ascii.digitOf
          (Nat.toDigits 10 n.natAbs)).map (- ·) := by
      rw [SignedDecimal.signed]
      exact if_pos rfl
    rw [hminus, magnitude_toDigits, Option.map_some]
    congr 1
    omega
  · rw [SignedDecimal.signed_toDigits]
    congr 1
    omega

/-- An integer is taken apart into its sign and its digits. -/
theorem readSign_integer (n : ℤ) : ∃ sign digits, Json.integer n = sign ++ digits ∧
    readSign ((Json.integer n).dropWhile isWhite) = (sign, digits) ∧
    digits.takeWhile Char.isDigit = digits ∧ digits.dropWhile Char.isDigit = [] := by
  unfold Json.integer
  split_ifs with hneg
  · have hwhite : ¬ isWhite '-' = true := by decide
    refine ⟨['-'], Nat.toDigits 10 n.natAbs, rfl, ?_, takeWhile_toDigits _, dropWhile_toDigits _⟩
    rw [List.dropWhile_cons_of_neg hwhite]
    rfl
  · refine ⟨[], Nat.toDigits 10 n.natAbs, rfl, ?_, takeWhile_toDigits _, dropWhile_toDigits _⟩
    cases htext : Nat.toDigits 10 n.natAbs with
    | nil => exact absurd htext Nat.toDigits_ne_nil
    | cons c rest =>
        have hc : c.isDigit = true := Json.isDigit_of_mem_toDigits (n := n.natAbs) (by simp [htext])
        have hsign : ¬ (c = '-' ∨ c = '+') := by
          rintro (rfl | rfl)
          · exact absurd hc (by decide)
          · exact absurd hc (by decide)
        rw [List.dropWhile_cons_of_neg (by simp [not_isWhite_of_isDigit hc]), readSign,
          if_neg hsign]

theorem tryParseInt_integer (n : ℤ) :
    tryParseInt (Json.integer n) = SignedDecimal.within minInt maxInt n := by
  obtain ⟨sign, digits, htext, hsign, htake, hdrop⟩ := readSign_integer n
  have hparse : SignedDecimal.parse SignedDecimal.ascii minInt maxInt (sign ++ digits) =
      SignedDecimal.within minInt maxInt n := by
    rw [← htext, SignedDecimal.parse, signed_integer, Option.bind_some]
  simp only [tryParseInt, hsign, htake, hdrop, hparse]
  rfl

section RoundTrip

variable (tryParseDouble : Text → Option Double) (fixed : ℕ → Double → Text)

/-- The number that the engine runs for one that a client wrote. -/
def received (fallback lo hi n : ℤ) : ℤ :=
  clamp ((SignedDecimal.within minInt maxInt n).getD fallback) lo hi

/-- The value that the engine has for one that a client wrote with some decimals. -/
def seen (decimals : ℕ) (fallback value : Double) : Double :=
  (tryParseDouble (fixed decimals value)).getD fallback

def isClamped (fallback lo hi n : ℤ) : Bool :=
  received fallback lo hi n ≠ (SignedDecimal.within minInt maxInt n).getD fallback

/-- What a command asks for. -/
def Lab.call : Lab → Call
  | .mandelbrot cx cy zoom iters size =>
      .renderColorBase64 (seen tryParseDouble fixed 6 0xBFE0000000000000 cx)
        (seen tryParseDouble fixed 6 0 cy) (seen tryParseDouble fixed 6 0x3FF0000000000000 zoom)
        (received 200 16 2000 iters) (received 256 32 512 size)
  | .raymarch angle size =>
      .renderBase64 (seen tryParseDouble fixed 3 0 angle) (received 220 32 512 size)
        (received 220 32 512 size)
  | .matmul max => .matmulGflops (received 384 64 512 max)
  | .parallel size => .parallelScaling (received 480 64 1024 size)
  | .benchEcho bytes => .echo (received 1024 1 1048576 bytes)
  | .benchReal kind reps => .benchReal kind (received 5 1 25 reps) (isClamped 5 1 25 reps)
  | .gcLab preset mb secs =>
      .gcLab preset (received 64 1 256 mb) (received 5 1 30 secs)
        (isClamped 64 1 256 mb || isClamped 5 1 30 secs)

theorem tilde_not_mem_integer (n : ℤ) : '~' ∉ Json.integer n := by
  intro hmem
  unfold Json.integer at hmem
  split_ifs at hmem
  · rw [List.mem_cons] at hmem
    rcases hmem with heq | hmem
    · exact absurd heq (by decide)
    · exact absurd (Json.isDigit_of_mem_toDigits hmem) (by decide)
  · exact absurd (Json.isDigit_of_mem_toDigits hmem) (by decide)

variable {tryParseDouble fixed}

theorem callOf_command {name : String} (hname : '~' ∉ name.toList) {fields : Params}
    (hcarried : ∀ entry ∈ fields, Carried '~' '_' entry) :
    callOf tryParseDouble (command name fields) =
      select tryParseDouble name (name.toList :: fields.map (writeField '_')) fields.reverse := by
  have hsplit := splitOn_writeFields (by decide) hname hcarried
  have hread := readFields_writeFields hcarried
  rw [readFields] at hread
  simp only [callOf, command, hsplit, List.headD_cons, String.ofList_toList, parseParams,
    List.tail_cons, hread]

theorem getI_of_integer {p : Params} {key : String} {n : ℤ}
    (hvalue : tryGetValue p key = some (Json.integer n)) (fallback lo hi : ℤ) :
    getI p key fallback lo hi = received fallback lo hi n := by
  rw [getI, getIRaw, hvalue, Option.bind_some, tryParseInt_integer]
  rfl

theorem getD_of_fixed {p : Params} {key : String} {decimals : ℕ} {value : Double}
    (hvalue : tryGetValue p key = some (fixed decimals value)) (fallback : Double) :
    getD tryParseDouble p key fallback =
      seen tryParseDouble fixed decimals fallback value := by
  rw [getD, hvalue, Option.bind_some]
  rfl

/-- Keys are letters, and no value holds a separator. -/
theorem carried_field {key : String} {value : Text}
    (hkey : key.toList ≠ [] ∧ '_' ∉ key.toList ∧ '~' ∉ key.toList) (hvalue : '~' ∉ value) :
    Carried '~' '_' (field key value) where
  key_ne_nil := hkey.1
  mark_not_mem := hkey.2.1
  separator_not_mem_key := hkey.2.2
  separator_not_mem_value := hvalue

theorem tilde_not_mem_kind (kind : PayloadKind) : '~' ∉ kind.text := by
  cases kind <;> decide

theorem tilde_not_mem_preset (preset : Preset) : '~' ∉ preset.text := by
  cases preset <;> decide

def Lab.name : Lab → String
  | .mandelbrot .. => "viz-mandelbrot"
  | .raymarch .. => "viz-raymarch"
  | .matmul _ => "bench-matmul"
  | .parallel _ => "bench-parallel"
  | .benchEcho _ => "bench-echo"
  | .benchReal .. => "bench-real"
  | .gcLab .. => "gclab"

variable (fixed) in
def Lab.fields : Lab → Params
  | .mandelbrot cx cy zoom iters size =>
      [field "cx" (fixed 6 cx), field "cy" (fixed 6 cy), field "zoom" (fixed 6 zoom),
        field "iters" (Json.integer iters), field "w" (Json.integer size),
        field "h" (Json.integer size)]
  | .raymarch angle size =>
      [field "angle" (fixed 3 angle), field "w" (Json.integer size),
        field "h" (Json.integer size)]
  | .matmul max => [field "max" (Json.integer max)]
  | .parallel size => [field "size" (Json.integer size)]
  | .benchEcho bytes => [field "bytes" (Json.integer bytes)]
  | .benchReal kind reps => [field "kind" kind.text, field "reps" (Json.integer reps)]
  | .gcLab preset mb secs =>
      [field "preset" preset.text, field "mb" (Json.integer mb), field "secs" (Json.integer secs)]

theorem Lab.command_eq (lab : Lab) :
    lab.command fixed = ShowcaseCommand.command lab.name (lab.fields fixed) := by
  cases lab <;> rfl

theorem Lab.tilde_not_mem_name (lab : Lab) : '~' ∉ lab.name.toList := by
  cases lab <;>
    rw [Lab.name] <;> decide

theorem Lab.carried (hfixed : ∀ decimals value, '~' ∉ fixed decimals value) (lab : Lab) :
    ∀ entry ∈ lab.fields fixed, Carried '~' '_' entry := by
  have hinteger := tilde_not_mem_integer
  cases lab with
  | mandelbrot cx cy zoom iters size =>
      simp only [Lab.fields, List.forall_mem_cons]
      exact ⟨carried_field (by decide) (hfixed 6 cx), carried_field (by decide) (hfixed 6 cy),
        carried_field (by decide) (hfixed 6 zoom), carried_field (by decide) (hinteger iters),
        carried_field (by decide) (hinteger size), carried_field (by decide) (hinteger size),
        nofun⟩
  | raymarch angle size =>
      simp only [Lab.fields, List.forall_mem_cons]
      exact ⟨carried_field (by decide) (hfixed 3 angle), carried_field (by decide) (hinteger size),
        carried_field (by decide) (hinteger size), nofun⟩
  | matmul max =>
      simp only [Lab.fields, List.forall_mem_cons]
      exact ⟨carried_field (by decide) (hinteger max), nofun⟩
  | parallel size =>
      simp only [Lab.fields, List.forall_mem_cons]
      exact ⟨carried_field (by decide) (hinteger size), nofun⟩
  | benchEcho bytes =>
      simp only [Lab.fields, List.forall_mem_cons]
      exact ⟨carried_field (by decide) (hinteger bytes), nofun⟩
  | benchReal kind reps =>
      simp only [Lab.fields, List.forall_mem_cons]
      exact ⟨carried_field (by decide) (tilde_not_mem_kind kind),
        carried_field (by decide) (hinteger reps), nofun⟩
  | gcLab preset mb secs =>
      simp only [Lab.fields, List.forall_mem_cons]
      exact ⟨carried_field (by decide) (tilde_not_mem_preset preset),
        carried_field (by decide) (hinteger mb), carried_field (by decide) (hinteger secs), nofun⟩

theorem runBenchReal_kind (kind : PayloadKind) {p : Params} {reps : ℤ}
    (hkind : tryGetValue p "kind" = some kind.text)
    (hreps : tryGetValue p "reps" = some (Json.integer reps)) :
    runBenchReal p = .benchReal kind (received 5 1 25 reps) (isClamped 5 1 25 reps) := by
  have hraw : getIRaw p "reps" 5 = (SignedDecimal.within minInt maxInt reps).getD 5 := by
    rw [getIRaw, hreps, Option.bind_some, tryParseInt_integer]
  simp only [runBenchReal, getS, hkind, Option.getD_some, hraw]
  cases kind <;> rfl

theorem runGcLab_preset (preset : Preset) {p : Params} {mb secs : ℤ}
    (hpreset : tryGetValue p "preset" = some preset.text)
    (hmb : tryGetValue p "mb" = some (Json.integer mb))
    (hsecs : tryGetValue p "secs" = some (Json.integer secs)) :
    runGcLab p = .gcLab preset (received 64 1 256 mb) (received 5 1 30 secs)
      (isClamped 64 1 256 mb || isClamped 5 1 30 secs) := by
  have hrawMb : getIRaw p "mb" 64 = (SignedDecimal.within minInt maxInt mb).getD 64 := by
    rw [getIRaw, hmb, Option.bind_some, tryParseInt_integer]
  have hrawSecs : getIRaw p "secs" 5 = (SignedDecimal.within minInt maxInt secs).getD 5 := by
    rw [getIRaw, hsecs, Option.bind_some, tryParseInt_integer]
  simp only [runGcLab, getS, hpreset, Option.getD_some, hrawMb, hrawSecs, Bool.decide_or]
  cases preset <;> rfl

theorem select_lab (lab : Lab) (parts : List Text) :
    select tryParseDouble lab.name parts (lab.fields fixed).reverse =
      lab.call tryParseDouble fixed := by
  cases lab with
  | mandelbrot cx cy zoom iters size =>
      simp only [Lab.name, select, Lab.call, Call.renderColorBase64.injEq]
      exact ⟨getD_of_fixed rfl _, getD_of_fixed rfl _, getD_of_fixed rfl _,
        getI_of_integer rfl _ _ _, getI_of_integer rfl _ _ _⟩
  | raymarch angle size =>
      simp only [Lab.name, select, Lab.call, Call.renderBase64.injEq]
      exact ⟨getD_of_fixed rfl _, getI_of_integer rfl _ _ _, getI_of_integer rfl _ _ _⟩
  | matmul max => exact congrArg Call.matmulGflops (getI_of_integer rfl _ _ _)
  | parallel size => exact congrArg Call.parallelScaling (getI_of_integer rfl _ _ _)
  | benchEcho bytes => exact congrArg Call.echo (getI_of_integer rfl _ _ _)
  | benchReal kind reps => exact runBenchReal_kind kind rfl rfl
  | gcLab preset mb secs => exact runGcLab_preset preset rfl rfl rfl

/-- The engine is asked for what the client's screen stands for. -/
theorem callOf_lab (hfixed : ∀ decimals value, '~' ∉ fixed decimals value) (lab : Lab) :
    callOf tryParseDouble (lab.command fixed) = lab.call tryParseDouble fixed := by
  rw [lab.command_eq, callOf_command lab.tilde_not_mem_name (lab.carried hfixed), select_lab]

theorem tilde_mem_command (name : String) {fields : Params} (hne : fields ≠ []) :
    '~' ∈ command name fields := by
  obtain ⟨entry, rest, rfl⟩ := List.exists_cons_of_ne_nil hne
  rw [command, writeFields, List.flatMap_cons, List.cons_append]
  exact List.mem_append_right _ List.mem_cons_self

theorem Lab.fields_ne_nil (lab : Lab) : lab.fields fixed ≠ [] := by
  cases lab <;> exact List.cons_ne_nil _ _

theorem isCommand_lab (lab : Lab) : isCommand (lab.command fixed) = true := by
  rw [lab.command_eq]
  exact List.contains_iff_mem.mpr (tilde_mem_command lab.name lab.fields_ne_nil)

end RoundTrip

/-! ## What a client can make the engine do -/

/-- The work of a call is bounded, and a refusal says so at its front. -/
def Call.Bounded : Call → Prop
  | .renderColorBase64 _ _ _ maxIter size => Within 16 2000 maxIter ∧ Within 32 512 size
  | .renderBase64 _ width height => Within 32 512 width ∧ Within 32 512 height
  | .matmulGflops max => Within 64 512 max
  | .parallelScaling size => Within 64 1024 size
  | .echo bytes => Within 1 1048576 bytes
  | .benchReal _ reps _ => Within 1 25 reps
  | .gcLab _ mb secs _ => Within 1 256 mb ∧ Within 1 30 secs
  | .posture | .traceStats | .snapshot | .logStats | .resetConversation => True
  | .refused message => "Unknown showcase command".toList <+: message

theorem unknown_prefix (message : String) (rest : Text) :
    "Unknown showcase command".toList <+: unknown message ++ rest :=
  (List.prefix_append _ message.toList).trans (List.prefix_append _ rest)

theorem runBenchReal_bounded (p : Params) : (runBenchReal p).Bounded := by
  have hreps : Within 1 25 (clamp (getIRaw p "reps" 5) 1 25) := clamp_within (by decide) _
  unfold runBenchReal
  simp only
  split_ifs
  · exact hreps
  · exact hreps
  · exact hreps
  · rw [Call.Bounded, List.append_assoc]
    exact unknown_prefix _ _

theorem runGcLab_bounded (p : Params) : (runGcLab p).Bounded := by
  have hmb : Within 1 256 (clamp (getIRaw p "mb" 64) 1 256) := clamp_within (by decide) _
  have hsecs : Within 1 30 (clamp (getIRaw p "secs" 5) 1 30) := clamp_within (by decide) _
  unfold runGcLab
  simp only
  split_ifs
  · exact ⟨hmb, hsecs⟩
  · exact ⟨hmb, hsecs⟩
  · exact ⟨hmb, hsecs⟩
  · rw [Call.Bounded, List.append_assoc]
    exact unknown_prefix _ _

theorem runSub_bounded {name word : String} {call : Call} (hcall : call.Bounded)
    (parts : List Text) : (runSub name word call parts).Bounded := by
  unfold runSub
  simp only
  split_ifs
  · exact hcall
  · rw [Call.Bounded, List.append_assoc]
    exact unknown_prefix _ _

theorem select_bounded (tryParseDouble : Text → Option Double) (name : String)
    (parts : List Text) (p : Params) : (select tryParseDouble name parts p).Bounded := by
  unfold select
  split
  · exact ⟨clamp_within (by decide) _, clamp_within (by decide) _⟩
  · exact ⟨clamp_within (by decide) _, clamp_within (by decide) _⟩
  · exact clamp_within (by decide) _
  · exact clamp_within (by decide) _
  · exact clamp_within (by decide) _
  · exact runBenchReal_bounded p
  · exact runGcLab_bounded p
  · exact runSub_bounded (show Call.Bounded .posture from trivial) parts
  · exact runSub_bounded (show Call.Bounded .traceStats from trivial) parts
  · exact runSub_bounded (show Call.Bounded .snapshot from trivial) parts
  · exact runSub_bounded (show Call.Bounded .logStats from trivial) parts
  · exact runSub_bounded (show Call.Bounded .resetConversation from trivial) parts
  · have hprefix := unknown_prefix (": " ++ name) []
    rw [List.append_nil] at hprefix
    exact hprefix

theorem callOf_bounded (tryParseDouble : Text → Option Double) (id : Text) :
    (callOf tryParseDouble id).Bounded :=
  select_bounded tryParseDouble _ _ _

/-- A refusal is reported as a failure, with its text. -/
theorem run_refused (engine : Engine) {id message : Text} (elapsedMs : Double)
    (hcall : callOf engine.tryParseDouble id = .refused message) :
    run engine id elapsedMs = { id, result := message, elapsedMs, ok := false } := by
  have hbounded : "Unknown showcase command".toList <+: message := by
    have hcallBounded := callOf_bounded engine.tryParseDouble id
    rw [hcall] at hcallBounded
    exact hcallBounded
  have hprefix : ("Unknown showcase command".toList.isPrefixOf message) = true :=
    List.isPrefixOf_iff_prefix.mpr hbounded
  simp only [run, hcall, perform, hprefix, Bool.not_true]

/-- Whatever text arrives, the engine does bounded work or reports a refusal; and the commands
of the screens arrive as they were meant. -/
theorem command_roundTrip (engine : Engine) (fixed : ℕ → Double → Text)
    (hfixed : ∀ decimals value, '~' ∉ fixed decimals value) (elapsedMs : Double) :
    (∀ id, (callOf engine.tryParseDouble id).Bounded ∧
      ∀ message, callOf engine.tryParseDouble id = .refused message →
        run engine id elapsedMs = { id, result := message, elapsedMs, ok := false }) ∧
    ∀ lab : Lab, isCommand (lab.command fixed) = true ∧
      callOf engine.tryParseDouble (lab.command fixed) = lab.call engine.tryParseDouble fixed :=
  ⟨fun id => ⟨callOf_bounded engine.tryParseDouble id, fun _ => run_refused engine elapsedMs⟩,
    fun lab => ⟨isCommand_lab lab, callOf_lab hfixed lab⟩⟩

/-- Zero with some decimals. -/
def zeros (decimals : ℕ) (_ : Double) : Text := '0' :: '.' :: List.replicate decimals '0'

def idle : Engine where
  tryParseDouble text := if text = zeros 3 0 then some 0 else none
  gcLab _ _ _ _ := .ok none
  resetConversation := .ok ()
  result _ := .ok []

theorem command_roundTrip_raymarch :
    callOf idle.tryParseDouble "viz-raymarch~angle_0.000~w_220~h_700".toList =
        .renderBase64 0 220 512 ∧
      callOf idle.tryParseDouble ((Lab.raymarch 0 220).command zeros) =
        .renderBase64 0 220 220 := by
  have htilde : ∀ decimals value, '~' ∉ zeros decimals value := by
    intro decimals value
    simp [zeros]
  have htrip := command_roundTrip idle zeros htilde 0
  refine ⟨by decide +kernel, ?_⟩
  rw [(htrip.2 (.raymarch 0 220)).2]
  decide +kernel

end ShowcaseCommand

end NativeInterop
