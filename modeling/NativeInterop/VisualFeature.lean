import NativeInterop.RasterPayload
import NativeInterop.Utf16

/-!
# The raster payload on iOS

`VisualFeature.image` parses the payload that `RasterPayload.decode` parses on Android.  Swift
reads a string by clusters of characters, leaves the empty components of a header out, takes
sizes of 64 bits and multiplies them unchecked: an overflow stops the process.

The cluster boundaries come from the platform's Unicode tables and are a parameter.
-/

namespace NativeInterop

namespace VisualFeature

abbrev Text := List Char

/-- ASCII without the control characters. -/
def Printable (text : Text) : Prop := ∀ c ∈ text, 0x20 ≤ c.toNat ∧ c.toNat < 0x7F

/-- A Swift string as a sequence of `Character` values. -/
structure Graphemes where
  clusters : Text → List Text
  flatten_clusters : ∀ text, (clusters text).flatten = text
  clusters_ascii : ∀ text, Printable text → clusters text = text.map ([·])

inductive Trap where
  | arithmeticOverflow
  deriving DecidableEq, Repr

structure Dimensions where
  width : ℤ
  height : ℤ
  channels : ℤ
  deriving DecidableEq, Repr

/-- What a `CGImage` is made of. -/
structure Raster where
  dimensions : Dimensions
  data : List UInt8
  deriving DecidableEq, Repr

def minInt : ℤ := -2 ^ 63

def maxInt : ℤ := 2 ^ 63 - 1

def int (text : Text) : Option ℤ := SignedDecimal.parse SignedDecimal.ascii minInt maxInt text

/-- `split(separator:)`, which leaves empty components out. -/
def split (separator : Text) (header : List Text) : List (List Text) :=
  (header.splitOn separator).filter (· ≠ [])

def readChannels : List Text → ℤ
  | [] => 1
  | channels :: _ => (int channels).getD 1

def readDimensions (header : List Text) : Option Dimensions :=
  match (split ['x'] header).map List.flatten with
  | width :: height :: more =>
      if 2 ≤ more.length then none
      else do
        let width ← int width
        let height ← int height
        let channels := readChannels more
        if channels = 1 ∨ channels = 3 then some ⟨width, height, channels⟩ else none
  | _ => none

def readHeader (graphemes : Graphemes) (payload : Text) : Option (Dimensions × Text) :=
  let characters := graphemes.clusters payload
  match characters.idxOf? [':'] with
  | none => none
  | some colon => (readDimensions (characters.take colon)).map fun dimensions =>
      (dimensions, (characters.drop (colon + 1)).flatten)

def multiply (m n : ℤ) : Except Trap ℤ :=
  if minInt ≤ m * n ∧ m * n ≤ maxInt then .ok (m * n) else .error .arithmeticOverflow

/-- `image` behind the header and the base64 text. -/
def draw (dimensions : Dimensions) (data : List UInt8) : Except Trap (Option Raster) := do
  let area ← multiply dimensions.width dimensions.height
  let count ← multiply area dimensions.channels
  return if (data.length : ℤ) = count then some ⟨dimensions, data⟩ else none

def image (graphemes : Graphemes) (payload : Text) : Except Trap (Option Raster) :=
  match readHeader graphemes payload with
  | none => .ok none
  | some (dimensions, body) =>
      match Base64.decode (Utf16.encode body) with
      | none => .ok none
      | some data => draw dimensions data

/-! ## When the two decoders agree -/

/-- No trap, and the checks are passed on the payloads that Android accepts. -/
def Agrees (graphemes : Graphemes) (table : RasterPayload.DigitTable) (payload : Text) : Prop :=
  image graphemes payload ≠ .error .arithmeticOverflow ∧
    ((∃ raster, image graphemes payload = .ok (some raster)) ↔
      ∃ picture, RasterPayload.decode table (Utf16.encode payload) = .ok (some picture))

def FitsInt (n : ℤ) : Prop := minInt ≤ n ∧ n ≤ maxInt

/-- A product of the sizes and channels is out of range. -/
def Overflows (graphemes : Graphemes) (payload : Text) : Prop :=
  ∃ dimensions body data, readHeader graphemes payload = some (dimensions, body) ∧
    Base64.decode (Utf16.encode body) = some data ∧
    ¬ (FitsInt (dimensions.width * dimensions.height) ∧
      FitsInt (dimensions.width * dimensions.height * dimensions.channels))

/-- The body has as many bytes as the header says. -/
def CountsOnIos (graphemes : Graphemes) (payload : Text) : Prop :=
  ∃ dimensions body data, readHeader graphemes payload = some (dimensions, body) ∧
    Base64.decode (Utf16.encode body) = some data ∧
    (data.length : ℤ) = dimensions.width * dimensions.height * dimensions.channels

def CountsOnAndroid (table : RasterPayload.DigitTable) (payload : Text) : Prop :=
  ∃ axes body bytes,
    RasterPayload.readHeader table (Utf16.encode payload) = some (axes, body) ∧
    Base64.decode body = some bytes ∧ axes.w * axes.h ≤ RasterPayload.maxInt ∧
    (bytes.length : ℤ) = axes.w * axes.h * axes.c

/-- Both platforms read the same sizes, channels and body out of the payload. -/
def SameReading (graphemes : Graphemes) (table : RasterPayload.DigitTable) (payload : Text) :
    Prop :=
  ∃ axes body,
    RasterPayload.readHeader table (Utf16.encode payload) = some (axes, Utf16.encode body) ∧
    axes.w * axes.h ≤ RasterPayload.maxInt ∧
    readHeader graphemes payload = some (⟨axes.w, axes.h, axes.c⟩, body)

/-! ## Each decoder by itself -/

theorem draw_eq_ok {dimensions : Dimensions} (data : List UInt8)
    (harea : FitsInt (dimensions.width * dimensions.height))
    (hcount : FitsInt (dimensions.width * dimensions.height * dimensions.channels)) :
    draw dimensions data = .ok
      (if (data.length : ℤ) = dimensions.width * dimensions.height * dimensions.channels then
        some ⟨dimensions, data⟩
      else none) := by
  have hfirst : multiply dimensions.width dimensions.height = .ok _ := if_pos harea
  have hsecond : multiply (dimensions.width * dimensions.height) dimensions.channels = .ok _ :=
    if_pos hcount
  simp only [draw, hfirst, hsecond, Bind.bind, Except.bind]
  rfl

theorem draw_eq_error {dimensions : Dimensions} (data : List UInt8)
    (hoverflow : ¬ (FitsInt (dimensions.width * dimensions.height) ∧
      FitsInt (dimensions.width * dimensions.height * dimensions.channels))) :
    draw dimensions data = .error .arithmeticOverflow := by
  by_cases harea : FitsInt (dimensions.width * dimensions.height)
  · have hfirst : multiply dimensions.width dimensions.height = .ok _ := if_pos harea
    have hsecond : multiply (dimensions.width * dimensions.height) dimensions.channels =
      .error .arithmeticOverflow := if_neg fun hcount => hoverflow ⟨harea, hcount⟩
    simp only [draw, hfirst, hsecond, Bind.bind, Except.bind]
  · have hfirst : multiply dimensions.width dimensions.height = .error .arithmeticOverflow :=
      if_neg harea
    simp only [draw, hfirst, Bind.bind, Except.bind]

variable {graphemes : Graphemes} {table : RasterPayload.DigitTable} {payload : Text}

theorem image_eq_error_iff :
    image graphemes payload = .error .arithmeticOverflow ↔ Overflows graphemes payload := by
  constructor
  · intro htrap
    unfold image at htrap
    split at htrap
    · cases htrap
    · next dimensions body hread =>
        split at htrap
        · cases htrap
        · next data hdata =>
            refine ⟨dimensions, body, data, hread, hdata, fun hfits => ?_⟩
            rw [draw_eq_ok data hfits.1 hfits.2] at htrap
            cases htrap
  · rintro ⟨dimensions, body, data, hread, hdata, hoverflow⟩
    simp only [image, hread, hdata]
    exact draw_eq_error data hoverflow

/-- Without an overflow the length check compares exact numbers. -/
theorem image_eq_ok_some_iff (hfits : ¬ Overflows graphemes payload) :
    (∃ raster, image graphemes payload = .ok (some raster)) ↔ CountsOnIos graphemes payload := by
  have hdraw : ∀ {dimensions body data}, readHeader graphemes payload = some (dimensions, body) →
      Base64.decode (Utf16.encode body) = some data →
      image graphemes payload = .ok
        (if (data.length : ℤ) = dimensions.width * dimensions.height * dimensions.channels then
          some ⟨dimensions, data⟩
        else none) := by
    intro dimensions body data hread hdata
    have hproducts := not_not.mp fun hoverflow =>
      hfits ⟨dimensions, body, data, hread, hdata, hoverflow⟩
    simp only [image, hread, hdata]
    exact draw_eq_ok data hproducts.1 hproducts.2
  constructor
  · rintro ⟨raster, himage⟩
    cases hread : readHeader graphemes payload with
    | none =>
        simp only [image, hread] at himage
        cases himage
    | some found =>
        obtain ⟨dimensions, body⟩ := found
        cases hdata : Base64.decode (Utf16.encode body) with
        | none =>
            simp only [image, hread, hdata] at himage
            cases himage
        | some data =>
            rw [hdraw hread hdata, Except.ok.injEq] at himage
            split_ifs at himage with hcount
            exact ⟨dimensions, body, data, hread, hdata, hcount⟩
  · rintro ⟨dimensions, body, data, hread, hdata, hcount⟩
    exact ⟨⟨dimensions, data⟩, by rw [hdraw hread hdata, if_pos hcount]⟩

theorem decode_eq_ok_some_iff :
    (∃ picture, RasterPayload.decode table (Utf16.encode payload) = .ok (some picture)) ↔
      CountsOnAndroid table payload := by
  constructor
  · rintro ⟨picture, hdecode⟩
    obtain ⟨header, body, axes, bytes, hpayload, hcolon, haxes, hbody, hmax, hcount, -⟩ :=
      RasterPayload.decode_eq_ok_some.mp hdecode
    have hread := RasterPayload.readHeader_eq_some.mpr ⟨header, hpayload, hcolon, haxes⟩
    exact ⟨axes, body, bytes, hread, hbody, hmax, hcount⟩
  · rintro ⟨axes, body, bytes, hread, hbody, hmax, hcount⟩
    obtain ⟨header, hpayload, hcolon, haxes⟩ := RasterPayload.readHeader_eq_some.mp hread
    exact ⟨_, RasterPayload.decode_eq_ok_some.mpr
      ⟨header, body, axes, bytes, hpayload, hcolon, haxes, hbody, hmax, hcount, rfl⟩⟩

/-! ## The two header readers -/

theorem readHeader_eq_some {dimensions : Dimensions} {body : Text} :
    readHeader graphemes payload = some (dimensions, body) ↔
      ∃ front back, graphemes.clusters payload = front ++ [':'] :: back ∧ [':'] ∉ front ∧
        readDimensions front = some dimensions ∧ back.flatten = body := by
  have happend : ∀ {front back}, graphemes.clusters payload = front ++ [':'] :: back →
      [':'] ∉ front → readHeader graphemes payload =
        (readDimensions front).map fun dimensions => (dimensions, back.flatten) := by
    intro front back hclusters hfront
    have hback : (front ++ [':'] :: back).drop (front.length + 1) = back := by
      rw [← List.drop_drop, List.drop_left]
      rfl
    simp only [readHeader, hclusters, RasterPayload.idxOf?_append hfront, List.take_left, hback]
  constructor
  · intro hread
    by_cases hmem : [':'] ∈ graphemes.clusters payload
    · obtain ⟨front, back, hclusters, hfront⟩ := List.eq_append_cons_of_mem hmem
      rw [happend hclusters hfront, Option.map_eq_some_iff] at hread
      obtain ⟨found, hfound, heq⟩ := hread
      cases heq
      exact ⟨front, back, hclusters, hfront, hfound, rfl⟩
    · simp only [readHeader, List.idxOf?_eq_none_iff.mpr hmem] at hread
      cases hread
  · rintro ⟨front, back, hclusters, hfront, hdimensions, rfl⟩
    rw [happend hclusters hfront, hdimensions, Option.map_some]

theorem readDimensions_eq_some {header : List Text} {dimensions : Dimensions} :
    readDimensions header = some dimensions ↔ ∃ width height more,
      (split ['x'] header).map List.flatten = width :: height :: more ∧ more.length ≤ 1 ∧
      int width = some dimensions.width ∧ int height = some dimensions.height ∧
      readChannels more = dimensions.channels ∧
      (dimensions.channels = 1 ∨ dimensions.channels = 3) := by
  unfold readDimensions
  constructor
  · intro hread
    split at hread
    · next width height more hsplit =>
        split_ifs at hread with hmore
        simp only [Option.bind_eq_bind, Option.bind_eq_some_iff] at hread
        obtain ⟨w, hw, h, hh, hread⟩ := hread
        split_ifs at hread with hchannels
        cases hread
        exact ⟨width, height, more, hsplit, by omega, hw, hh, rfl, hchannels⟩
    · cases hread
  · rintro ⟨width, height, more, hsplit, hmore, hw, hh, hc, hchannels⟩
    rw [hsplit]
    simp only [if_neg (by omega : ¬ 2 ≤ more.length), hw, hh, hc, Option.bind_eq_bind,
      Option.bind_some, if_pos hchannels]

section Split

variable {separator : Text} {first behind : List Text}

theorem split_of_not_mem (hmem : separator ∉ first) (hne : first ≠ []) :
    split separator first = [first] := by
  rw [split, List.splitOn_eq_singleton hmem]
  simp [hne]

theorem split_append_cons (hmem : separator ∉ first) (hne : first ≠ []) :
    split separator (first ++ separator :: behind) = first :: split separator behind := by
  rw [split, List.splitOn_append_cons_self_of_not_mem hmem, split]
  simp [hne]

end Split

theorem ascii_of_int {text : Text} {n : ℤ} (hint : int text = some n) :
    text ≠ [] ∧ 'x' ∉ text ∧ ∀ c ∈ text, c.toNat < 0x80 := by
  obtain ⟨hsigned, -⟩ := SignedDecimal.parse_eq_some.mp hint
  obtain ⟨hne, hmem⟩ := SignedDecimal.mem_of_signed hsigned
  refine ⟨hne, fun hx => ?_, fun c hc => ?_⟩
  · rcases hmem 'x' hx with hminus | hplus | hdigit
    · exact absurd hminus (by decide)
    · exact absurd hplus (by decide)
    · exact absurd hdigit (by decide)
  · rcases hmem c hc with rfl | rfl | hdigit
    · decide
    · decide
    · have hisDigit : c.isDigit = true := by
        by_contra hother
        simp [SignedDecimal.ascii, hother] at hdigit
      have hrange : 0x30 ≤ c.toNat ∧ c.toNat ≤ 0x39 := Char.isDigit_iff_toNat.mp hisDigit
      omega

theorem encode_ascii {text : Text} (hascii : ∀ c ∈ text, c.toNat < 0x80) :
    Utf16.encode text = text.map RasterPayload.unitOf := by
  induction text with
  | nil => rfl
  | cons c text ih =>
      rw [List.forall_mem_cons] at hascii
      have hunits : Utf16.units c = [RasterPayload.unitOf c] := if_pos (by omega)
      rw [Utf16.encode, List.flatMap_cons, ← Utf16.encode, hunits, ih hascii.2]
      rfl

/-- A number that Swift reads is the one that Kotlin reads. -/
theorem toIntOrNull_of_int {text : Text} {m n : ℤ} (hint : int text = some m)
    (hunits : RasterPayload.toIntOrNull table (Utf16.encode text) = some n) : m = n := by
  obtain ⟨-, -, hascii⟩ := ascii_of_int hint
  obtain ⟨hchars, -⟩ := SignedDecimal.parse_eq_some.mp hint
  obtain ⟨hsigned, -⟩ := SignedDecimal.parse_eq_some.mp hunits
  rw [encode_ascii hascii, RasterPayload.signed_map_unitOf table hascii, hchars] at hsigned
  exact Option.some.inj hsigned

theorem unitOf_not_mem_encode {text : Text} (hascii : ∀ c ∈ text, c.toNat < 0x80) {d : Char}
    (hd : d.toNat < 0x80) (hmem : d ∉ text) : RasterPayload.unitOf d ∉ Utf16.encode text := by
  rw [encode_ascii hascii]
  intro hunits
  obtain ⟨c, hc, hunit⟩ := List.mem_map.mp hunits
  rw [RasterPayload.unitOf_eq_iff (hascii c hc) hd] at hunit
  exact hmem (hunit ▸ hc)

theorem times_not_mem {text : Text} {n : ℤ} (hint : int text = some n) :
    RasterPayload.times ∉ Utf16.encode text := by
  obtain ⟨-, hx, hascii⟩ := ascii_of_int hint
  exact unitOf_not_mem_encode hascii (by decide : 'x'.toNat < 0x80) hx

/-- A first component that is there on both platforms is the same, and so is what follows it. -/
theorem head_component {header first : List Text} {rest : List (List Text)} {n : ℤ}
    {component : RasterPayload.Text} {others : List RasterPayload.Text}
    (hsplit : split ['x'] header = first :: rest) (hint : int first.flatten = some n)
    (hunits : (Utf16.encode header.flatten).splitOn RasterPayload.times = component :: others)
    (hne : component ≠ []) :
    component = Utf16.encode first.flatten ∧ (others ≠ [] → ∃ behind,
      split ['x'] behind = rest ∧
        (Utf16.encode behind.flatten).splitOn RasterPayload.times = others) := by
  have htimes := times_not_mem hint
  by_cases hmem : ['x'] ∈ header
  · obtain ⟨front, behind, rfl, hfront⟩ := List.eq_append_cons_of_mem hmem
    have hencode : Utf16.encode (front ++ ['x'] :: behind).flatten =
        Utf16.encode front.flatten ++ RasterPayload.times :: Utf16.encode behind.flatten := by
      rw [List.flatten_append, List.flatten_cons, Utf16.encode_append, Utf16.encode_append]
      rfl
    rw [hencode] at hunits
    by_cases hempty : front = []
    · have hnil : RasterPayload.times ∉ Utf16.encode front.flatten := by simp [hempty, Utf16.encode]
      rw [List.splitOn_append_cons_self_of_not_mem hnil, List.cons.injEq] at hunits
      exact absurd hunits.1.symm (by simpa [hempty, Utf16.encode] using hne)
    · rw [split_append_cons hfront hempty, List.cons.injEq] at hsplit
      obtain ⟨rfl, hrest⟩ := hsplit
      rw [List.splitOn_append_cons_self_of_not_mem htimes, List.cons.injEq] at hunits
      exact ⟨hunits.1.symm, fun _ => ⟨behind, hrest, hunits.2⟩⟩
  · have hheader : header ≠ [] := by
      rintro rfl
      cases hsplit
    rw [split_of_not_mem hmem hheader, List.cons.injEq] at hsplit
    obtain ⟨rfl, -⟩ := hsplit
    rw [List.splitOn_eq_singleton htimes, List.cons.injEq] at hunits
    exact ⟨hunits.1.symm, fun hothers => absurd hunits.2.symm hothers⟩

/-- Two readings of one header have the same sizes. -/
theorem sizes_eq {header : List Text} {dimensions : Dimensions} {axes : RasterPayload.Axes}
    (hread : readDimensions header = some dimensions)
    (haxes : RasterPayload.HasAxes table (Utf16.encode header.flatten) axes) :
    dimensions.width = axes.w ∧ dimensions.height = axes.h := by
  obtain ⟨width, height, more, hsplit, -, hwidth, hheight, -⟩ := readDimensions_eq_some.mp hread
  obtain ⟨first, rest, hfirst, rfl, hrest⟩ := List.map_eq_cons_iff.mp hsplit
  obtain ⟨second, others, rfl, rfl, -⟩ := List.map_eq_cons_iff.mp hrest
  obtain ⟨w, h, later, hunits, hw, hh, -⟩ := haxes.components
  have hne : ∀ {component : RasterPayload.Text} {n : ℤ},
      RasterPayload.toIntOrNull table component = some n → component ≠ [] := fun hcomponent =>
    (SignedDecimal.mem_of_signed (SignedDecimal.parse_eq_some.mp hcomponent).1).1
  obtain ⟨rfl, hbehind⟩ := head_component hfirst hwidth hunits (hne hw)
  obtain ⟨behind, hsecond, hbehind⟩ := hbehind (List.cons_ne_nil h later)
  obtain ⟨rfl, -⟩ := head_component hsecond hheight hbehind (hne hh)
  exact ⟨toIntOrNull_of_int hwidth hw, toIntOrNull_of_int hheight hh⟩

theorem colon_not_mem_of_decode {body : RasterPayload.Text} {bytes : List UInt8}
    (hdecode : Base64.decode body = some bytes) : RasterPayload.colon ∉ body := by
  intro hmem
  have hunit : ¬ Base64.IsUnit RasterPayload.colon := by
    simp [Base64.IsUnit, Base64.sextet, Base64.pad, RasterPayload.colon]
  exact hunit (Base64.isUnit_of_decode hdecode _ hmem)

/-- Behind the colon that is the last one there are the same bytes, and they tell the channels. -/
theorem sameReading_of_counts (hios : CountsOnIos graphemes payload)
    (handroid : CountsOnAndroid table payload) : SameReading graphemes table payload := by
  obtain ⟨dimensions, body, data, hread, hdata, hlength⟩ := hios
  obtain ⟨axes, units, bytes, hunits, hbytes, hmax, hcount⟩ := handroid
  obtain ⟨front, back, hclusters, -, hdimensions, rfl⟩ := readHeader_eq_some.mp hread
  obtain ⟨header, hheader, hcolon, haxes⟩ := RasterPayload.readHeader_eq_some.mp hunits
  have hpayload : Utf16.encode payload =
      Utf16.encode front.flatten ++ RasterPayload.colon :: Utf16.encode back.flatten := by
    rw [← graphemes.flatten_clusters payload, hclusters, List.flatten_append, List.flatten_cons,
      Utf16.encode_append, Utf16.encode_append]
    rfl
  obtain ⟨rfl, -, rfl⟩ := (List.append_cons_inj_of_notMem hcolon
    (colon_not_mem_of_decode hbytes)).mp (hheader.symm.trans hpayload)
  obtain ⟨hwidth, hheight⟩ := sizes_eq hdimensions haxes
  have hchannels : dimensions.channels = axes.c := by
    have hpos := haxes.product.1
    have hproducts : axes.w * axes.h * dimensions.channels = axes.w * axes.h * axes.c := by
      rw [← hcount, ← hwidth, ← hheight, ← hlength, Option.some.inj (hdata.symm.trans hbytes)]
    exact mul_left_cancel₀ (by omega) hproducts
  refine ⟨axes, back.flatten, hunits, hmax, ?_⟩
  rw [hread, ← hwidth, ← hheight, ← hchannels]

/-- With the sizes of one reading nothing overflows, and both compare the same numbers. -/
theorem agrees_of_sameReading (hsame : SameReading graphemes table payload) :
    ¬ Overflows graphemes payload ∧
      (CountsOnIos graphemes payload ↔ CountsOnAndroid table payload) := by
  obtain ⟨axes, body, hunits, hmax, hread⟩ := hsame
  obtain ⟨header, -, -, haxes⟩ := RasterPayload.readHeader_eq_some.mp hunits
  have hpos := haxes.product.1
  refine ⟨?_, ?_⟩
  · rintro ⟨dimensions, body', data, hread', -, hoverflow⟩
    rw [hread] at hread'
    cases hread'
    apply hoverflow
    unfold RasterPayload.maxInt at hmax
    simp only [FitsInt, minInt, maxInt]
    rcases haxes.channels with hc | hc
    · rw [hc]
      omega
    · rw [hc]
      omega
  · constructor
    · rintro ⟨dimensions, body', data, hread', hdata, hcount⟩
      rw [hread] at hread'
      cases hread'
      exact ⟨axes, _, data, hunits, hdata, hmax, hcount⟩
    · rintro ⟨axes', body', bytes, hunits', hbytes, -, hcount⟩
      rw [hunits] at hunits'
      cases hunits'
      exact ⟨_, body, bytes, hread, hbytes, hcount⟩

/-! ## The documented layouts -/

def decimal (n : ℕ) : Text := Nat.toDigits 10 n

theorem isDigit_decimal {n : ℕ} : ∀ c ∈ decimal n, 0x30 ≤ c.toNat ∧ c.toNat ≤ 0x39 :=
  fun _ hc => RasterPayload.isDigit_of_mem_toDigits hc

theorem encode_decimal (n : ℕ) : Utf16.encode (decimal n) = RasterPayload.decimal n := by
  apply encode_ascii
  intro c hc
  have hdigit := isDigit_decimal c hc
  omega

theorem encode_sizes (n : ℕ) (rest : Text) : Utf16.encode (decimal n ++ 'x' :: rest) =
    RasterPayload.decimal n ++ RasterPayload.times :: Utf16.encode rest := by
  rw [Utf16.encode_append, encode_decimal]
  rfl

theorem int_decimal {n : ℕ} (hmax : (n : ℤ) ≤ RasterPayload.maxInt) :
    int (decimal n) = some (n : ℤ) := by
  rw [int, SignedDecimal.parse_eq_some, decimal, SignedDecimal.signed_toDigits]
  unfold RasterPayload.maxInt at hmax
  exact ⟨rfl, by unfold minInt; omega, by unfold maxInt; omega⟩

theorem not_mem_decimal {c : Char} (hc : 0x39 < c.toNat) (n : ℕ) : c ∉ decimal n := by
  intro hmem
  have hdigit := isDigit_decimal c hmem
  omega

theorem not_mem_singletons {c : Char} {text : Text} (hmem : c ∉ text) :
    [c] ∉ text.map ([·]) := by
  simpa using hmem

theorem flatten_singletons (text : Text) : (text.map ([·])).flatten = text := by
  rw [← List.flatMap_def, List.flatMap_singleton']

theorem split_decimal (n : ℕ) (rest : Text) :
    split ['x'] ((decimal n ++ 'x' :: rest).map ([·])) =
      (decimal n).map ([·]) :: split ['x'] (rest.map ([·])) := by
  rw [List.map_append, List.map_cons]
  exact split_append_cons (not_mem_singletons (not_mem_decimal (by decide) n)) (by simp [decimal])

theorem sameReading_of_header {header body : Text} {axes : RasterPayload.Axes}
    (hheader : Printable header) (hbody : Printable body) (hcolon : ':' ∉ header)
    (hread : readDimensions (header.map ([·])) = some ⟨axes.w, axes.h, axes.c⟩)
    (haxes : RasterPayload.HasAxes table (Utf16.encode header) axes)
    (hmax : axes.w * axes.h ≤ RasterPayload.maxInt) :
    SameReading graphemes table (header ++ ':' :: body) := by
  have hascii : ∀ c ∈ header, c.toNat < 0x80 := by
    intro c hc
    have hprintable := hheader c hc
    omega
  have hclusters : graphemes.clusters (header ++ ':' :: body) =
      header.map ([·]) ++ [':'] :: body.map ([·]) := by
    rw [graphemes.clusters_ascii, List.map_append, List.map_cons]
    intro c hc
    rcases List.mem_append.mp hc with hfront | hback
    · exact hheader c hfront
    · rcases List.mem_cons.mp hback with rfl | hback
      · decide
      · exact hbody c hback
  refine ⟨axes, body, RasterPayload.readHeader_eq_some.mpr ⟨Utf16.encode header, ?_,
    unitOf_not_mem_encode hascii (by decide : ':'.toNat < 0x80) hcolon, haxes⟩, hmax,
    readHeader_eq_some.mpr ⟨header.map ([·]), body.map ([·]), hclusters, ?_, hread, ?_⟩⟩
  · rw [Utf16.encode_append]
    rfl
  · exact not_mem_singletons hcolon
  · exact flatten_singletons body

theorem readDimensions_gray {w h : ℕ} (hw : (w : ℤ) ≤ RasterPayload.maxInt)
    (hh : (h : ℤ) ≤ RasterPayload.maxInt) :
    readDimensions ((decimal w ++ 'x' :: decimal h).map ([·])) = some ⟨w, h, 1⟩ := by
  refine readDimensions_eq_some.mpr ⟨decimal w, decimal h, [], ?_, Nat.zero_le 1, int_decimal hw,
    int_decimal hh, rfl, .inl rfl⟩
  have hlast := not_mem_singletons (not_mem_decimal (c := 'x') (by decide) h)
  rw [split_decimal, split_of_not_mem hlast (by simp [decimal])]
  simp [flatten_singletons]

theorem readDimensions_color {w h : ℕ} (hw : (w : ℤ) ≤ RasterPayload.maxInt)
    (hh : (h : ℤ) ≤ RasterPayload.maxInt) :
    readDimensions ((decimal w ++ 'x' :: (decimal h ++ 'x' :: ['3'])).map ([·])) =
      some ⟨w, h, 3⟩ := by
  have hthree : readChannels [['3']] = 3 := by decide
  refine readDimensions_eq_some.mpr ⟨decimal w, decimal h, [['3']], ?_, le_rfl, int_decimal hw,
    int_decimal hh, hthree, .inr rfl⟩
  have hlast : split ['x'] (['3'].map ([·])) = [[['3']]] := by decide
  rw [split_decimal, split_decimal, hlast]
  simp [flatten_singletons]

theorem printable_decimal (n : ℕ) : Printable (decimal n) := by
  intro c hc
  have hdigit := isDigit_decimal c hc
  omega

theorem Printable.append_cons {front back : Text} {c : Char} (hfront : Printable front)
    (hc : 0x20 ≤ c.toNat ∧ c.toNat < 0x7F) (hback : Printable back) :
    Printable (front ++ c :: back) :=
  List.forall_mem_append.mpr ⟨hfront, List.forall_mem_cons.mpr ⟨hc, hback⟩⟩

theorem colon_not_mem_sizes (n : ℕ) {rest : Text} (hrest : ':' ∉ rest) :
    ':' ∉ decimal n ++ 'x' :: rest := by
  have hdecimal : ':' ∉ decimal n := not_mem_decimal (by decide) n
  simp [hdecimal, hrest]

variable {w h : ℕ} {body : Text}

/-- The documented layouts of a picture that fits an Android array are read alike. -/
theorem sameReading_layouts (hw : 1 ≤ w) (hh : 1 ≤ h)
    (hmax : (w : ℤ) * h ≤ RasterPayload.maxInt) (hbody : Printable body) :
    SameReading graphemes table (decimal w ++ 'x' :: decimal h ++ ':' :: body) ∧
      SameReading graphemes table
        (decimal w ++ 'x' :: (decimal h ++ 'x' :: ['3']) ++ ':' :: body) := by
  have hwle : w * 1 ≤ w * h := Nat.mul_le_mul_left w hh
  have hhle : 1 * h ≤ w * h := Nat.mul_le_mul_right h hw
  zify at hwle hhle
  have hwmax : (w : ℤ) ≤ RasterPayload.maxInt := by omega
  have hhmax : (h : ℤ) ≤ RasterPayload.maxInt := by omega
  have hgray : RasterPayload.HasAxes table (Utf16.encode (decimal w ++ 'x' :: decimal h))
      ⟨w, h, 1⟩ := by
    rw [encode_sizes, encode_decimal]
    exact RasterPayload.hasAxes_gray table hw hh hwmax hhmax
  have hcolor : RasterPayload.HasAxes table
      (Utf16.encode (decimal w ++ 'x' :: (decimal h ++ 'x' :: ['3']))) ⟨w, h, 3⟩ := by
    rw [encode_sizes, encode_sizes]
    exact RasterPayload.hasAxes_color table hw hh hwmax hhmax
  have hrest : ':' ∉ decimal h := not_mem_decimal (by decide) h
  have hrest' : ':' ∉ decimal h ++ 'x' :: ['3'] := colon_not_mem_sizes h (by decide)
  have hwprintable := printable_decimal w
  have hhprintable := printable_decimal h
  constructor
  · exact sameReading_of_header (hwprintable.append_cons (by decide) hhprintable) hbody
      (colon_not_mem_sizes w hrest) (readDimensions_gray hwmax hhmax) hgray hmax
  · have hthree : Printable ['3'] := by simp [Printable]
    exact sameReading_of_header (hwprintable.append_cons (by decide)
      (hhprintable.append_cons (by decide) hthree)) hbody
      (colon_not_mem_sizes w hrest') (readDimensions_color hwmax hhmax) hcolor hmax

/-- The iOS decoder agrees with Android's exactly when both read the same header and body, or
when nothing overflows and the bytes are as many as neither header says. -/
theorem image_agrees_iff (graphemes : Graphemes) (table : RasterPayload.DigitTable)
    (payload : Text) : Agrees graphemes table payload ↔
      SameReading graphemes table payload ∨
        (¬ Overflows graphemes payload ∧ ¬ CountsOnIos graphemes payload ∧
          ¬ CountsOnAndroid table payload) := by
  rw [Agrees, Ne, image_eq_error_iff, decode_eq_ok_some_iff]
  constructor
  · rintro ⟨hfits, hagree⟩
    rw [image_eq_ok_some_iff hfits] at hagree
    by_cases hios : CountsOnIos graphemes payload
    · exact .inl (sameReading_of_counts hios (hagree.mp hios))
    · exact .inr ⟨hfits, hios, fun handroid => hios (hagree.mpr handroid)⟩
  · rintro (hsame | ⟨hfits, hios, handroid⟩)
    · obtain ⟨hfits, hagree⟩ := agrees_of_sameReading hsame
      rw [image_eq_ok_some_iff hfits]
      exact ⟨hfits, hagree⟩
    · rw [image_eq_ok_some_iff hfits]
      exact ⟨hfits, iff_of_false hios handroid⟩

/-- Every character by itself, as in texts without joined characters. -/
def singletons : Graphemes where
  clusters text := text.map ([·])
  flatten_clusters := flatten_singletons
  clusters_ascii _ _ := rfl

def trapping : Text := "9223372036854775807x2:".toList

def emptyComponent : Text := "1x1x:AA==".toList

def fourthComponent : Text := "1x1x1x1:AA==".toList

theorem image_not_agrees :
    image singletons trapping = .error .arithmeticOverflow ∧
    ¬ Agrees singletons RasterPayload.arabicIndic trapping ∧
    ¬ Agrees singletons RasterPayload.arabicIndic emptyComponent ∧
    ¬ Agrees singletons RasterPayload.arabicIndic fourthComponent := by
  have htrap : image singletons trapping = .error .arithmeticOverflow := by decide
  have hpass : image singletons emptyComponent = .ok (some ⟨⟨1, 1, 1⟩, [0]⟩) := by decide
  have hrefused : RasterPayload.decode RasterPayload.arabicIndic (Utf16.encode emptyComponent) =
      .ok none := by decide
  have hnone : image singletons fourthComponent = .ok none := by decide
  have hdrawn : RasterPayload.decode RasterPayload.arabicIndic (Utf16.encode fourthComponent) =
      .ok (some ⟨1, 1, [RasterPayload.opaqueArgb 0 0 0]⟩) := by decide
  refine ⟨htrap, fun hagrees => hagrees.1 htrap, fun hagrees => ?_, fun hagrees => ?_⟩
  · obtain ⟨picture, hpicture⟩ := hagrees.2.mp ⟨_, hpass⟩
    rw [hrefused] at hpicture
    cases hpicture
  · obtain ⟨raster, hraster⟩ := hagrees.2.mpr ⟨_, hdrawn⟩
    rw [hnone] at hraster
    cases hraster

end VisualFeature

end NativeInterop
