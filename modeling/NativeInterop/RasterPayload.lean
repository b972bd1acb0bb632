import NativeInterop.Base64
import NativeInterop.SignedDecimal
import Mathlib.Tactic

/-!
# The raster payload

The engine packs a picture as its sizes, a colon and the base64 text of its bytes, and
`RasterPayload.decode` unpacks it on Android.  Reading an array outside its bounds and making
one of negative size are faults here; the decoder meets neither, and what it returns is what
the bytes say.

Which units besides the ASCII ones are digits is up to the platform, and a parameter.
-/

namespace NativeInterop

open SignedDecimal (Alphabet parse signed)

namespace RasterPayload

abbrev Text := List UInt16

abbrev Pixel := BitVec 32

inductive Fault where
  | arrayIndexOutOfBounds
  | negativeArraySize
  deriving DecidableEq, Repr

structure RasterImage where
  width : ℤ
  height : ℤ
  pixels : List Pixel
  deriving DecidableEq, Repr

def colon : UInt16 := 0x3A

def times : UInt16 := 0x78

/-! ## Integers -/

/-- `Character.digit`. -/
structure DigitTable where
  digitOf : UInt16 → Option ℕ
  digitOf_ascii : ∀ unit, unit.toNat < 0x80 → digitOf unit =
    if 0x30 ≤ unit.toNat ∧ unit.toNat ≤ 0x39 then some (unit.toNat - 0x30) else none

def DigitTable.alphabet (table : DigitTable) : Alphabet UInt16 where
  digitOf := table.digitOf
  plus := 0x2B
  minus := 0x2D

def maxInt : ℤ := 2 ^ 31 - 1

def toIntOrNull (table : DigitTable) (text : Text) : Option ℤ :=
  parse table.alphabet (-2 ^ 31) maxInt text

def toInt (n : ℤ) : ℤ := n.bmod (2 ^ 32)

def toLong (n : ℤ) : ℤ := n.bmod (2 ^ 64)

/-! ## The header -/

structure Axes where
  w : ℤ
  h : ℤ
  c : ℤ
  deriving DecidableEq, Repr

def readChannels (table : DigitTable) : List Text → Option ℤ
  | [] => some 1
  | c :: _ => toIntOrNull table c

def readAxes (table : DigitTable) (header : Text) : Option Axes :=
  match header.splitOn times with
  | w :: h :: more => do
      let w ← toIntOrNull table w
      let h ← toIntOrNull table h
      let c ← readChannels table more
      if w ≤ 0 ∨ h ≤ 0 ∨ (c ≠ 1 ∧ c ≠ 3) then none else some ⟨w, h, c⟩
  | _ => none

def readHeader (table : DigitTable) (payload : Text) : Option (Axes × Text) :=
  match payload.idxOf? colon with
  | none => none
  | some n =>
      if n ≤ 0 then none
      else (readAxes table (payload.take n)).map fun axes => (axes, payload.drop (n + 1))

/-! ## The pixels -/

def byteAt (bytes : List UInt8) (i : ℕ) : Except Fault (BitVec 32) :=
  match bytes[i]? with
  | some byte => .ok (byte.toBitVec.signExtend 32 &&& 0xFF)
  | none => .error .arrayIndexOutOfBounds

def newIntArray (size : ℤ) : Except Fault ℕ :=
  if size < 0 then .error .negativeArraySize else .ok size.toNat

def argb (red green blue : BitVec 32) : Pixel :=
  (0xFF <<< 24) ||| (red <<< 16) ||| (green <<< 8) ||| blue

/-- The loop over the pixels of one byte each, from byte `i` on. -/
def grayPixels (bytes : List UInt8) : ℕ → ℕ → Except Fault (List Pixel)
  | _, 0 => .ok []
  | i, n + 1 => do
      let v ← byteAt bytes i
      let rest ← grayPixels bytes (i + 1) n
      return argb v v v :: rest

def rgbPixels (bytes : List UInt8) : ℕ → ℕ → Except Fault (List Pixel)
  | _, 0 => .ok []
  | b, n + 1 => do
      let red ← byteAt bytes b
      let green ← byteAt bytes (b + 1)
      let blue ← byteAt bytes (b + 2)
      let rest ← rgbPixels bytes (b + 3) n
      return argb red green blue :: rest

def readPixels (c : ℤ) (bytes : List UInt8) (count : ℕ) : Except Fault (List Pixel) :=
  if c = 1 then grayPixels bytes 0 count else rgbPixels bytes 0 count

/-- `decode` behind the header and the base64 text. -/
def draw (axes : Axes) (bytes : List UInt8) : Except Fault (Option RasterImage) :=
  let pixelCount := toLong (axes.w * axes.h)
  if maxInt < pixelCount then .ok none
  else if (bytes.length : ℤ) ≠ toLong (pixelCount * axes.c) then .ok none
  else do
    let count ← newIntArray (toInt (axes.w * axes.h))
    let pixels ← readPixels axes.c bytes count
    return some ⟨axes.w, axes.h, pixels⟩

def decode (table : DigitTable) (payload : Text) : Except Fault (Option RasterImage) :=
  match readHeader table payload with
  | none => .ok none
  | some (axes, body) =>
      match Base64.decode body with
      | none => .ok none
      | some bytes => draw axes bytes

/-! ## What a payload says -/

/-- Opaque, with a byte for each colour. -/
def opaqueArgb (red green blue : UInt8) : Pixel :=
  0xFF#8 ++ red.toBitVec ++ green.toBitVec ++ blue.toBitVec

/-- The pixel that the bytes have at an index, for one or three channels. -/
def pixelAt (c : ℤ) (bytes : List UInt8) (i : ℕ) : Option Pixel :=
  if c = 1 then bytes[i]?.map fun gray => opaqueArgb gray gray gray
  else do
    let red ← bytes[3 * i]?
    let green ← bytes[3 * i + 1]?
    let blue ← bytes[3 * i + 2]?
    some (opaqueArgb red green blue)

/-- Two sizes that are positive, and the channels, one where they are not given. -/
structure HasAxes (table : DigitTable) (header : Text) (axes : Axes) : Prop where
  components : ∃ w h more, header.splitOn times = w :: h :: more ∧
    toIntOrNull table w = some axes.w ∧ toIntOrNull table h = some axes.h ∧
    ((more = [] ∧ axes.c = 1) ∨
      ∃ c later, more = c :: later ∧ toIntOrNull table c = some axes.c)
  w_pos : 1 ≤ axes.w
  h_pos : 1 ≤ axes.h
  channels : axes.c = 1 ∨ axes.c = 3

structure Depicts (table : DigitTable) (payload : Text) (image : RasterImage) : Prop where
  exists_parts : ∃ header body axes bytes, payload = header ++ colon :: body ∧
    colon ∉ header ∧ HasAxes table header axes ∧ Base64.decode body = some bytes ∧
    axes.w * axes.h ≤ maxInt ∧ (bytes.length : ℤ) = axes.w * axes.h * axes.c ∧
    image.width = axes.w ∧ image.height = axes.h ∧
    (image.pixels.length : ℤ) = axes.w * axes.h ∧
    ∀ i, i < image.pixels.length →
      ∃ pixel, image.pixels[i]? = some pixel ∧ pixelAt axes.c bytes i = some pixel

/-! ## Reading the header -/

theorem readChannels_eq_some {table : DigitTable} {more : List Text} {n : ℤ} :
    readChannels table more = some n ↔
      (more = [] ∧ n = 1) ∨ ∃ c later, more = c :: later ∧ toIntOrNull table c = some n := by
  cases more with
  | nil => simp [readChannels, eq_comm]
  | cons c later => simp [readChannels]

theorem readAxes_eq_some {table : DigitTable} {header : Text} {axes : Axes} :
    readAxes table header = some axes ↔ HasAxes table header axes := by
  unfold readAxes
  constructor
  · intro hread
    split at hread
    · next w h more hsplit =>
        simp only [Option.bind_eq_bind, Option.bind_eq_some_iff] at hread
        obtain ⟨width, hw, height, hh, channels, hc, hread⟩ := hread
        split_ifs at hread with hbad
        have hgood : 1 ≤ width ∧ 1 ≤ height ∧ (channels = 1 ∨ channels = 3) := by omega
        cases hread
        exact ⟨⟨w, h, more, hsplit, hw, hh, readChannels_eq_some.mp hc⟩, hgood.1, hgood.2.1,
          hgood.2.2⟩
    · cases hread
  · rintro ⟨⟨w, h, more, hsplit, hw, hh, hmore⟩, hwidth, hheight, hchannels⟩
    have hgood : ¬ (axes.w ≤ 0 ∨ axes.h ≤ 0 ∨ (axes.c ≠ 1 ∧ axes.c ≠ 3)) := by omega
    rw [hsplit]
    simp only [hw, hh, readChannels_eq_some.mpr hmore, Option.bind_eq_bind, Option.bind_some,
      if_neg hgood]

theorem idxOf?_append {α : Type*} [BEq α] [LawfulBEq α] {a : α} {front back : List α}
    (hfront : a ∉ front) : (front ++ a :: back).idxOf? a = some front.length := by
  induction front with
  | nil => simp [List.idxOf?_cons]
  | cons first front ih =>
      rw [List.mem_cons, not_or] at hfront
      rw [List.cons_append, List.idxOf?_cons, ih hfront.2]
      simp [Ne.symm hfront.1]

theorem readHeader_append (table : DigitTable) {front : Text} (hfront : colon ∉ front)
    (body : Text) : readHeader table (front ++ colon :: body) =
      (readAxes table front).map fun axes => (axes, body) := by
  have hbody : (front ++ colon :: body).drop (front.length + 1) = body := by
    rw [← List.drop_drop, List.drop_left]
    rfl
  rw [readHeader, idxOf?_append hfront]
  simp only [List.take_left, hbody]
  split_ifs with hempty
  · obtain rfl := List.length_eq_zero_iff.mp (Nat.le_zero.mp hempty)
    rfl
  · rfl

theorem readHeader_eq_some {table : DigitTable} {payload body : Text} {axes : Axes} :
    readHeader table payload = some (axes, body) ↔
      ∃ header, payload = header ++ colon :: body ∧ colon ∉ header ∧
        HasAxes table header axes := by
  constructor
  · intro hread
    by_cases hmem : colon ∈ payload
    · obtain ⟨front, back, rfl, hfront⟩ := List.eq_append_cons_of_mem hmem
      rw [readHeader_append table hfront, Option.map_eq_some_iff] at hread
      obtain ⟨found, hfound, heq⟩ := hread
      cases heq
      exact ⟨front, rfl, hfront, readAxes_eq_some.mp hfound⟩
    · rw [readHeader, List.idxOf?_eq_none_iff.mpr hmem] at hread
      cases hread
  · rintro ⟨header, rfl, hheader, haxes⟩
    rw [readHeader_append table hheader, readAxes_eq_some.mpr haxes, Option.map_some]

/-! ## Reading the pixels -/

theorem lowByte (byte : BitVec 8) : byte.signExtend 32 &&& 0xFF = byte.setWidth 32 := by
  ext i hi
  rw [BitVec.getElem_and, BitVec.getElem_signExtend, BitVec.getElem_setWidth]
  interval_cases i <;> simp

theorem argb_eq (red green blue : UInt8) :
    argb (red.toBitVec.setWidth 32) (green.toBitVec.setWidth 32) (blue.toBitVec.setWidth 32) =
      opaqueArgb red green blue := by
  apply BitVec.eq_of_getLsbD_eq (w := 8 + 8 + 8 + 8)
  intro i hi
  simp only [argb, opaqueArgb, BitVec.getLsbD_or, BitVec.getLsbD_append,
    BitVec.getLsbD_shiftLeft, BitVec.getLsbD_setWidth]
  interval_cases i <;> simp

theorem byteAt_of_getElem? {bytes : List UInt8} {i : ℕ} {byte : UInt8}
    (hbyte : bytes[i]? = some byte) : byteAt bytes i = .ok (byte.toBitVec.setWidth 32) := by
  rw [byteAt, hbyte]
  simp only [lowByte]

/-- Three bytes a pixel. -/
def triples : List UInt8 → List Pixel
  | red :: green :: blue :: rest => opaqueArgb red green blue :: triples rest
  | _ => []

def pixelsOf (c : ℤ) (bytes : List UInt8) : List Pixel :=
  if c = 1 then bytes.map fun gray => opaqueArgb gray gray gray else triples bytes

theorem grayPixels_eq (bytes before rest : List UInt8) (hbytes : bytes = before ++ rest) :
    grayPixels bytes before.length rest.length = .ok (pixelsOf 1 rest) := by
  induction rest generalizing before with
  | nil => rfl
  | cons gray rest ih =>
      have hbyte : bytes[before.length]? = some gray := by simp [hbytes]
      have hrest := ih (before ++ [gray]) (by rw [hbytes, List.append_assoc]; rfl)
      rw [List.length_append, List.length_singleton] at hrest
      rw [List.length_cons, grayPixels, byteAt_of_getElem? hbyte, hrest]
      simp only [pixelsOf, if_true, List.map_cons, ← argb_eq]
      rfl

theorem rgbPixels_eq (bytes before rest : List UInt8) (n : ℕ) (hbytes : bytes = before ++ rest)
    (hlength : rest.length = 3 * n) :
    rgbPixels bytes before.length n = .ok (triples rest) := by
  induction n generalizing before rest with
  | zero =>
      obtain rfl := List.length_eq_zero_iff.mp hlength
      rfl
  | succ n ih =>
      match rest, hlength with
      | red :: green :: blue :: rest, hlength =>
          have hred : bytes[before.length]? = some red := by simp [hbytes]
          have hgreen : bytes[before.length + 1]? = some green := by simp [hbytes]
          have hblue : bytes[before.length + 2]? = some blue := by simp [hbytes]
          have hrest := ih (before ++ [red, green, blue]) rest (by simp [hbytes])
            (by simp only [List.length_cons] at hlength; omega)
          have hthree : (before ++ [red, green, blue]).length = before.length + 3 := by simp
          rw [hthree] at hrest
          rw [rgbPixels, byteAt_of_getElem? hred, byteAt_of_getElem? hgreen,
            byteAt_of_getElem? hblue, hrest]
          simp only [triples, ← argb_eq]
          rfl

theorem toInt_eq {n : ℤ} (hle : 0 ≤ n) (hmax : n ≤ maxInt) : toInt n = n := by
  unfold maxInt at hmax
  exact Int.bmod_eq_of_le (by omega) (by omega)

theorem toLong_eq {n : ℤ} (hle : 0 ≤ n) (hmax : n < 2 ^ 63) : toLong n = n :=
  Int.bmod_eq_of_le (by omega) (by omega)

/-- The product of two sizes is exact as a `Long`. -/
theorem HasAxes.product {table : DigitTable} {header : Text} {axes : Axes}
    (haxes : HasAxes table header axes) :
    1 ≤ axes.w * axes.h ∧ axes.w * axes.h < 2 ^ 63 := by
  obtain ⟨w, h, more, -, hw, hh, -⟩ := haxes.components
  obtain ⟨-, -, hwmax⟩ := SignedDecimal.parse_eq_some.mp hw
  obtain ⟨-, -, hhmax⟩ := SignedDecimal.parse_eq_some.mp hh
  have hwpos := haxes.w_pos
  have hhpos := haxes.h_pos
  unfold maxInt at hwmax hhmax
  have hproduct : axes.w * axes.h ≤ (2 ^ 31 - 1) * (2 ^ 31 - 1) :=
    mul_le_mul hwmax hhmax (by omega) (by omega)
  have hone : 1 * 1 ≤ axes.w * axes.h := mul_le_mul hwpos hhpos (by omega) (by omega)
  exact ⟨by omega, by omega⟩

theorem readPixels_eq {c : ℤ} {bytes : List UInt8} {count : ℕ} (hchannels : c = 1 ∨ c = 3)
    (hlength : (bytes.length : ℤ) = count * c) :
    readPixels c bytes count = .ok (pixelsOf c bytes) := by
  rw [readPixels]
  rcases hchannels with rfl | rfl
  · have hcount : bytes.length = count := by omega
    have hgray := grayPixels_eq bytes [] bytes rfl
    rw [hcount] at hgray
    rw [if_pos rfl]
    exact hgray
  · have hcount : bytes.length = 3 * count := by omega
    rw [if_neg (by decide), pixelsOf, if_neg (by decide)]
    exact rgbPixels_eq bytes [] bytes count rfl hcount

/-- With sizes from a header, the arrays are read within their bounds. -/
theorem draw_eq {table : DigitTable} {header : Text} {axes : Axes}
    (haxes : HasAxes table header axes) (bytes : List UInt8) :
    draw axes bytes = .ok
      (if axes.w * axes.h ≤ maxInt ∧ (bytes.length : ℤ) = axes.w * axes.h * axes.c then
        some ⟨axes.w, axes.h, pixelsOf axes.c bytes⟩
      else none) := by
  obtain ⟨hpos, hproduct⟩ := haxes.product
  have hchannels := haxes.channels
  rw [draw, toLong_eq (by omega) hproduct]
  by_cases hmax : maxInt < axes.w * axes.h
  · rw [if_neg (by omega : ¬ (axes.w * axes.h ≤ maxInt ∧ _))]
    exact if_pos hmax
  have hle : axes.w * axes.h ≤ maxInt := by omega
  have hsize : toLong (axes.w * axes.h * axes.c) = axes.w * axes.h * axes.c := by
    unfold maxInt at hle
    rcases hchannels with hc | hc
    · rw [hc]
      exact toLong_eq (by omega) (by omega)
    · rw [hc]
      exact toLong_eq (by omega) (by omega)
  have hcount : newIntArray (toInt (axes.w * axes.h)) = .ok (axes.w * axes.h).toNat := by
    rw [toInt_eq (by omega) hle, newIntArray, if_neg (by omega)]
  simp only [if_neg hmax, hsize, hcount]
  by_cases hlength : (bytes.length : ℤ) = axes.w * axes.h * axes.c
  · have hpixels : readPixels axes.c bytes (axes.w * axes.h).toNat =
        .ok (pixelsOf axes.c bytes) := by
      refine readPixels_eq hchannels ?_
      rw [Int.toNat_of_nonneg (by omega)]
      exact hlength
    rw [if_neg (not_not.mpr hlength), if_pos ⟨hle, hlength⟩]
    simp only [Bind.bind, Except.bind, hpixels]
    rfl
  · rw [if_pos hlength, if_neg fun hboth => hlength hboth.2]

theorem decode_eq_none_of_no_header {table : DigitTable} {payload : Text}
    (hread : readHeader table payload = none) : decode table payload = .ok none := by
  rw [decode, hread]

/-- What the decoder returns: nothing, or the picture of the bytes. -/
theorem decode_eq_ok_some {table : DigitTable} {payload : Text} {image : RasterImage} :
    decode table payload = .ok (some image) ↔ ∃ header body axes bytes,
      payload = header ++ colon :: body ∧ colon ∉ header ∧ HasAxes table header axes ∧
      Base64.decode body = some bytes ∧ axes.w * axes.h ≤ maxInt ∧
      (bytes.length : ℤ) = axes.w * axes.h * axes.c ∧
      image = ⟨axes.w, axes.h, pixelsOf axes.c bytes⟩ := by
  constructor
  · intro hdecode
    cases hread : readHeader table payload with
    | none =>
        rw [decode_eq_none_of_no_header hread] at hdecode
        cases hdecode
    | some found =>
        obtain ⟨axes, body⟩ := found
        obtain ⟨header, hpayload, hcolon, haxes⟩ := readHeader_eq_some.mp hread
        rw [decode, hread] at hdecode
        cases hbody : Base64.decode body with
        | none =>
            simp only [hbody] at hdecode
            cases hdecode
        | some bytes =>
            simp only [hbody, draw_eq haxes, Except.ok.injEq] at hdecode
            split_ifs at hdecode with hfits
            cases hdecode
            exact ⟨header, body, axes, bytes, hpayload, hcolon, haxes, hbody, hfits.1, hfits.2,
              rfl⟩
  · rintro ⟨header, body, axes, bytes, hpayload, hcolon, haxes, hbody, hmax, hlength, rfl⟩
    have hread := readHeader_eq_some.mpr ⟨header, hpayload, hcolon, haxes⟩
    rw [decode, hread]
    simp only [hbody, draw_eq haxes, if_pos (And.intro hmax hlength)]

theorem exists_decode (table : DigitTable) (payload : Text) :
    ∃ result, decode table payload = .ok result := by
  cases hread : readHeader table payload with
  | none => exact ⟨none, decode_eq_none_of_no_header hread⟩
  | some found =>
      obtain ⟨axes, body⟩ := found
      obtain ⟨header, -, -, haxes⟩ := readHeader_eq_some.mp hread
      rw [decode, hread]
      cases hbody : Base64.decode body with
      | none => exact ⟨none, by simp only [hbody]⟩
      | some bytes =>
          simp only [hbody]
          exact ⟨_, draw_eq haxes bytes⟩

theorem getElem?_triples (bytes : List UInt8) (i : ℕ) :
    (triples bytes)[i]? = pixelAt 3 bytes i := by
  have hunfold : ∀ more j, pixelAt 3 more j = (do
      let red ← more[3 * j]?
      let green ← more[3 * j + 1]?
      let blue ← more[3 * j + 2]?
      some (opaqueArgb red green blue)) := fun _ _ => if_neg (by decide)
  induction bytes using triples.induct generalizing i with
  | case1 red green blue rest ih =>
      cases i with
      | zero => rw [hunfold]; rfl
      | succ i =>
          have hthree : 3 * (i + 1) = 3 * i + 3 := by omega
          rw [triples, List.getElem?_cons_succ, ih, hunfold, hunfold, hthree]
          rfl
  | case2 bytes hshort =>
      have hlength : bytes.length < 3 := by
        match bytes, hshort with
        | [], _ => decide
        | [_], _ => simp
        | [_, _], _ => simp
        | red :: green :: blue :: rest, hshort => exact absurd rfl (hshort red green blue rest)
      have hblue : bytes[3 * i + 2]? = none := List.getElem?_eq_none (by omega)
      rw [triples.eq_2 bytes hshort, hunfold, hblue]
      simp

theorem getElem?_pixelsOf (c : ℤ) (bytes : List UInt8) (i : ℕ) :
    (pixelsOf c bytes)[i]? = pixelAt c bytes i := by
  rw [pixelsOf]
  split_ifs with hone
  · rw [List.getElem?_map, pixelAt, if_pos hone]
  · rw [getElem?_triples, pixelAt, pixelAt, if_neg hone, if_neg (by decide)]

theorem length_triples {bytes : List UInt8} {n : ℕ} (hlength : bytes.length = 3 * n) :
    (triples bytes).length = n := by
  induction n generalizing bytes with
  | zero =>
      obtain rfl := List.length_eq_zero_iff.mp hlength
      rfl
  | succ n ih =>
      match bytes, hlength with
      | red :: green :: blue :: rest, hlength =>
          rw [triples, List.length_cons, ih]
          simp only [List.length_cons] at hlength
          omega

theorem length_pixelsOf {c n : ℤ} {bytes : List UInt8} (hchannels : c = 1 ∨ c = 3)
    (hlength : (bytes.length : ℤ) = n * c) : ((pixelsOf c bytes).length : ℤ) = n := by
  rcases hchannels with rfl | rfl
  · rw [pixelsOf, if_pos rfl, List.length_map]
    omega
  · rw [pixelsOf, if_neg (by decide), length_triples (n := n.toNat) (by omega)]
    omega

theorem depicts_of_decode {table : DigitTable} {payload : Text} {image : RasterImage}
    (hdecode : decode table payload = .ok (some image)) : Depicts table payload image := by
  obtain ⟨header, body, axes, bytes, hpayload, hcolon, haxes, hbody, hmax, hlength, rfl⟩ :=
    decode_eq_ok_some.mp hdecode
  refine ⟨header, body, axes, bytes, hpayload, hcolon, haxes, hbody, hmax, hlength, rfl, rfl,
    length_pixelsOf haxes.channels hlength, ?_⟩
  intro i hi
  refine ⟨(pixelsOf axes.c bytes)[i], List.getElem?_eq_getElem hi, ?_⟩
  rw [← getElem?_pixelsOf]
  exact List.getElem?_eq_getElem hi

/-! ## The engine's packing -/

def unitOf (c : Char) : UInt16 := .ofNat c.toNat

/-- An `int` in an interpolated string. -/
def decimal (n : ℕ) : Text := (Nat.toDigits 10 n).map unitOf

def renderBase64 (size : ℕ) (pixels : List UInt8) : Text :=
  decimal size ++ times :: (decimal size ++ colon :: Base64.encode pixels)

def renderColorBase64 (size : ℕ) (pixels : List UInt8) : Text :=
  decimal size ++ times :: (decimal size ++ times :: unitOf '3' :: colon :: Base64.encode pixels)

theorem toNat_unitOf {c : Char} (hascii : c.toNat < 0x80) : (unitOf c).toNat = c.toNat := by
  rw [unitOf, UInt16.toNat_ofNat']
  omega

/-- ASCII characters are told by their units. -/
theorem unitOf_eq_iff {c d : Char} (hc : c.toNat < 0x80) (hd : d.toNat < 0x80) :
    unitOf c = unitOf d ↔ c = d := by
  rw [← UInt16.toNat_inj, toNat_unitOf hc, toNat_unitOf hd, Char.toNat_inj]

theorem digitOf_unitOf (table : DigitTable) {c : Char} (hascii : c.toNat < 0x80) :
    table.digitOf (unitOf c) = SignedDecimal.ascii.digitOf c := by
  have hunit := toNat_unitOf hascii
  have hdigit : c.isDigit = true ↔ 0x30 ≤ c.toNat ∧ c.toNat ≤ 0x39 := Char.isDigit_iff_toNat
  rw [table.digitOf_ascii (unitOf c) (by omega), hunit]
  simp only [SignedDecimal.ascii, hdigit]

/-- In ASCII every platform reads one number. -/
theorem signed_map_unitOf (table : DigitTable) {text : List Char}
    (hascii : ∀ c ∈ text, c.toNat < 0x80) :
    signed table.alphabet (text.map unitOf) = signed SignedDecimal.ascii text := by
  apply SignedDecimal.signed_map
  · exact fun c hc => digitOf_unitOf table (hascii c hc)
  · exact fun c hc => unitOf_eq_iff (d := '-') (hascii c hc) (by decide)
  · exact fun c hc => unitOf_eq_iff (d := '+') (hascii c hc) (by decide)

theorem isDigit_of_mem_toDigits {n : ℕ} {c : Char} (hmem : c ∈ Nat.toDigits 10 n) :
    0x30 ≤ c.toNat ∧ c.toNat ≤ 0x39 :=
  Char.isDigit_iff_toNat.mp (Nat.isDigit_of_mem_toDigits (by decide) (by decide) hmem)

theorem toIntOrNull_decimal (table : DigitTable) {n : ℕ} (hmax : (n : ℤ) ≤ maxInt) :
    toIntOrNull table (decimal n) = some (n : ℤ) := by
  have hascii : ∀ c ∈ Nat.toDigits 10 n, c.toNat < 0x80 := by
    intro c hc
    have hdigit := isDigit_of_mem_toDigits hc
    omega
  rw [toIntOrNull, SignedDecimal.parse_eq_some, decimal, signed_map_unitOf table hascii,
    SignedDecimal.signed_toDigits]
  exact ⟨rfl, by omega, hmax⟩

theorem not_mem_decimal {unit : UInt16} (hunit : 0x39 < unit.toNat) (n : ℕ) :
    unit ∉ decimal n := by
  intro hmem
  obtain ⟨c, hc, rfl⟩ := List.mem_map.mp hmem
  have hdigit := isDigit_of_mem_toDigits hc
  rw [toNat_unitOf (by omega)] at hunit
  omega

theorem splitOn_decimal (size : ℕ) {rest : Text} :
    (decimal size ++ times :: rest).splitOn times = decimal size :: rest.splitOn times :=
  List.splitOn_append_cons_self_of_not_mem (not_mem_decimal (by decide) size) rest

theorem toIntOrNull_three (table : DigitTable) : toIntOrNull table [unitOf '3'] = some 3 := by
  have hascii : ∀ c ∈ ['3'], c.toNat < 0x80 := by simp
  have hsigned : signed SignedDecimal.ascii ['3'] = some 3 := rfl
  rw [toIntOrNull, SignedDecimal.parse_eq_some]
  exact ⟨(signed_map_unitOf table hascii).trans hsigned, by decide, by decide⟩

variable (table : DigitTable) {size w h : ℕ}

theorem hasAxes_gray (hwpos : 1 ≤ w) (hhpos : 1 ≤ h) (hw : (w : ℤ) ≤ maxInt)
    (hh : (h : ℤ) ≤ maxInt) : HasAxes table (decimal w ++ times :: decimal h) ⟨w, h, 1⟩ where
  components := by
    refine ⟨decimal w, decimal h, [], ?_, toIntOrNull_decimal table hw,
      toIntOrNull_decimal table hh, .inl ⟨rfl, rfl⟩⟩
    rw [splitOn_decimal, List.splitOn_eq_singleton (not_mem_decimal (by decide) h)]
  w_pos := by simpa using hwpos
  h_pos := by simpa using hhpos
  channels := .inl rfl

theorem hasAxes_color (hwpos : 1 ≤ w) (hhpos : 1 ≤ h) (hw : (w : ℤ) ≤ maxInt)
    (hh : (h : ℤ) ≤ maxInt) :
    HasAxes table (decimal w ++ times :: (decimal h ++ times :: [unitOf '3'])) ⟨w, h, 3⟩ where
  components := by
    refine ⟨decimal w, decimal h, [[unitOf '3']], ?_, toIntOrNull_decimal table hw,
      toIntOrNull_decimal table hh, .inr ⟨_, [], rfl, toIntOrNull_three table⟩⟩
    rw [splitOn_decimal, splitOn_decimal, List.splitOn_eq_singleton (by decide)]
  w_pos := by simpa using hwpos
  h_pos := by simpa using hhpos
  channels := .inr rfl

theorem colon_not_mem_sizes (size : ℕ) {rest : Text} (hrest : colon ∉ rest) :
    colon ∉ decimal size ++ times :: rest := by
  have hdecimal : colon ∉ decimal size := not_mem_decimal (by decide) size
  have hne : colon ≠ times := by decide
  simp [hdecimal, hne, hrest]

/-- The sizes that the engine draws are in range. -/
theorem size_le (hmax : size * size * 3 ≤ 2 ^ 31 - 1) (hpos : 1 ≤ size) :
    (size : ℤ) ≤ maxInt ∧ (size : ℤ) * size ≤ maxInt := by
  have hsize : size * 1 ≤ size * size := Nat.mul_le_mul_left size hpos
  unfold maxInt
  constructor
  · omega
  · have hsquare : size * size ≤ 2 ^ 31 - 1 := by omega
    zify at hsquare
    simpa using hsquare

theorem decode_renderBase64 (hpos : 1 ≤ size) (hmax : size * size * 3 ≤ 2 ^ 31 - 1)
    {pixels : List UInt8} (hlength : pixels.length = size * size) :
    decode table (renderBase64 size pixels) =
      .ok (some ⟨size, size, pixels.map fun gray => opaqueArgb gray gray gray⟩) := by
  obtain ⟨hsize, hsquare⟩ := size_le hmax hpos
  refine decode_eq_ok_some.mpr ⟨decimal size ++ times :: decimal size, Base64.encode pixels,
    ⟨size, size, 1⟩, pixels, by simp [renderBase64],
    colon_not_mem_sizes size (not_mem_decimal (by decide) size),
    hasAxes_gray table hpos hpos hsize hsize, Base64.decode_encode pixels, hsquare, ?_, ?_⟩
  · rw [hlength]
    push_cast
    ring
  · rw [pixelsOf, if_pos rfl]

theorem decode_renderColorBase64 (hpos : 1 ≤ size) (hmax : size * size * 3 ≤ 2 ^ 31 - 1)
    {pixels : List UInt8} (hlength : pixels.length = size * size * 3) :
    decode table (renderColorBase64 size pixels) = .ok (some ⟨size, size, triples pixels⟩) := by
  obtain ⟨hsize, hsquare⟩ := size_le hmax hpos
  have hthree : colon ∉ [unitOf '3'] := by decide
  refine decode_eq_ok_some.mpr ⟨decimal size ++ times :: (decimal size ++ times :: [unitOf '3']),
    Base64.encode pixels, ⟨size, size, 3⟩, pixels, by simp [renderColorBase64],
    colon_not_mem_sizes size (colon_not_mem_sizes size hthree),
    hasAxes_color table hpos hpos hsize hsize, Base64.decode_encode pixels, hsquare, ?_, ?_⟩
  · rw [hlength]
    push_cast
    ring
  · rw [pixelsOf, if_neg (by decide : ¬ (3 : ℤ) = 1)]

/-- The decoder is total, returns what the payload depicts, and undoes the engine's packing. -/
theorem decode_total_exact_inverse (table : DigitTable) :
    (∀ payload, ∃ result, decode table payload = .ok result) ∧
    (∀ payload image, decode table payload = .ok (some image) →
      Depicts table payload image) ∧
    (∀ size pixels, 1 ≤ size → size * size * 3 ≤ 2 ^ 31 - 1 → pixels.length = size * size →
      decode table (renderBase64 size pixels) =
        .ok (some ⟨size, size, pixels.map fun gray => opaqueArgb gray gray gray⟩)) ∧
    (∀ size pixels, 1 ≤ size → size * size * 3 ≤ 2 ^ 31 - 1 →
      pixels.length = size * size * 3 →
        decode table (renderColorBase64 size pixels) =
          .ok (some ⟨size, size, triples pixels⟩)) :=
  ⟨exists_decode table, fun _ _ hdecode => depicts_of_decode hdecode,
    fun _ _ hpos hmax hlength => decode_renderBase64 table hpos hmax hlength,
    fun _ _ hpos hmax hlength => decode_renderColorBase64 table hpos hmax hlength⟩

/-- The ASCII digits and the Arabic-Indic ones. -/
def arabicIndic : DigitTable where
  digitOf unit :=
    if 0x30 ≤ unit.toNat ∧ unit.toNat ≤ 0x39 then some (unit.toNat - 0x30)
    else if 0x660 ≤ unit.toNat ∧ unit.toNat ≤ 0x669 then some (unit.toNat - 0x660)
    else none
  digitOf_ascii := by
    intro unit hunit
    split_ifs <;> first | rfl | omega

theorem decode_total_exact_inverse_one :
    (∃ result, decode arabicIndic (renderBase64 1 [0x7F]) = .ok result) ∧
    (∀ image, decode arabicIndic (renderBase64 1 [0x7F]) = .ok (some image) →
      Depicts arabicIndic (renderBase64 1 [0x7F]) image) ∧
    decode arabicIndic (renderBase64 1 [0x7F]) =
      .ok (some ⟨1, 1, [opaqueArgb 0x7F 0x7F 0x7F]⟩) ∧
    decode arabicIndic (renderColorBase64 1 [1, 2, 3]) = .ok (some ⟨1, 1, [opaqueArgb 1 2 3]⟩) :=
  ⟨(decode_total_exact_inverse arabicIndic).1 _, (decode_total_exact_inverse arabicIndic).2.1 _,
    (decode_total_exact_inverse arabicIndic).2.2.1 1 [0x7F] le_rfl (by decide) rfl,
    (decode_total_exact_inverse arabicIndic).2.2.2 1 [1, 2, 3] le_rfl (by decide) rfl⟩

end RasterPayload

end NativeInterop
