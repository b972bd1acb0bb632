import NativeInterop.Benchmarks
import NativeInterop.ShowcaseCommand
import NativeInterop.VisualFeature
import Mathlib.Tactic

/-!
# The software renderers

`FractalRenderer` and `Raymarcher` fill a buffer row by row and pack it as base64 behind its
sizes.  Both clients take the packed text apart again.  Floating-point arithmetic is a parameter:
nothing is assumed of it.
-/

namespace NativeInterop

/-! ## Filling a buffer -/

namespace RowMajor

/-- `pixels[offset] = …`, for one byte after the other. -/
def storeBytes : List UInt8 → ℕ → List UInt8 → Option (List UInt8)
  | pixels, _, [] => some pixels
  | pixels, offset, byte :: bytes =>
      (Benchmarks.store pixels offset byte).bind fun pixels => storeBytes pixels (offset + 1) bytes

/-- The bytes of a pixel. -/
def channelsOf (colour : UInt8 × UInt8 × UInt8) : List UInt8 := [colour.1, colour.2.1, colour.2.2]

/-- The loops over the rows and over the columns of a row. -/
def fill (width height channels : ℕ) (colour : ℕ → ℕ → List UInt8) : Option (List UInt8) :=
  (List.range height).foldlM (fun pixels py =>
    (List.range width).foldlM (fun pixels px =>
      storeBytes pixels ((py * width + px) * channels) (colour py px)) pixels)
    (List.replicate (width * height * channels) 0)

/-- The buffer with its first `count` pixels drawn. -/
def drawn (width height channels : ℕ) (colour : ℕ → ℕ → List UInt8) (count : ℕ) : List UInt8 :=
  ((List.range count).flatMap fun i => colour (i / width) (i % width)) ++
    List.replicate ((width * height - count) * channels) 0

theorem storeBytes_append (front old rest bytes : List UInt8)
    (hlength : old.length = bytes.length) :
    storeBytes (front ++ (old ++ rest)) front.length bytes = some (front ++ (bytes ++ rest)) := by
  induction bytes generalizing front old with
  | nil =>
      obtain rfl := List.length_eq_zero_iff.mp hlength
      rfl
  | cons byte bytes ih =>
      cases old with
      | nil => cases hlength
      | cons first old =>
          have hbound : front.length < (front ++ (first :: old ++ rest)).length := by simp
          have hset : (front ++ (first :: old ++ rest)).set front.length byte =
              (front ++ [byte]) ++ (old ++ rest) := by
            simp [List.set_append_right]
          have hnext := ih (front ++ [byte]) old (by simpa using hlength)
          rw [List.length_append, List.length_singleton] at hnext
          rw [storeBytes, Benchmarks.store, if_pos hbound, Option.bind_some, hset, hnext]
          simp

variable {width height channels : ℕ} {colour : ℕ → ℕ → List UInt8}

theorem length_colours (hcolour : ∀ py px, (colour py px).length = channels) (count : ℕ) :
    ((List.range count).flatMap fun i => colour (i / width) (i % width)).length =
      count * channels := by
  simp [List.length_flatMap, hcolour]

/-- One pass of the inner loop draws the next pixel. -/
theorem storeBytes_drawn (hcolour : ∀ py px, (colour py px).length = channels) {py px : ℕ}
    (hpy : py < height) (hpx : px < width) :
    storeBytes (drawn width height channels colour (py * width + px))
        ((py * width + px) * channels) (colour py px) =
      some (drawn width height channels colour (py * width + px + 1)) := by
  have hlt : py * width + px < width * height := by
    calc py * width + px < py * width + width := by omega
      _ = width * (py + 1) := by ring
      _ ≤ width * height := Nat.mul_le_mul_left width hpy
  have hcount : width * height - (py * width + px) =
      1 + (width * height - (py * width + px + 1)) := by omega
  have hrest : List.replicate ((width * height - (py * width + px)) * channels) (0 : UInt8) =
      List.replicate channels 0 ++
        List.replicate ((width * height - (py * width + px + 1)) * channels) 0 := by
    rw [List.replicate_append_replicate, hcount]
    congr 1
    ring
  have hstored := storeBytes_append
    ((List.range (py * width + px)).flatMap fun i => colour (i / width) (i % width))
    (List.replicate channels 0)
    (List.replicate ((width * height - (py * width + px + 1)) * channels) 0) (colour py px)
    (by rw [List.length_replicate, hcolour])
  have hdiv : (py * width + px) / width = py := Benchmarks.index_div hpx
  have hmod : (py * width + px) % width = px := Benchmarks.index_mod hpx
  rw [length_colours hcolour] at hstored
  rw [drawn, hrest, hstored, drawn, List.range_succ, List.flatMap_append, List.flatMap_singleton,
    hdiv, hmod, List.append_assoc]

theorem row_drawn (hcolour : ∀ py px, (colour py px).length = channels) {py : ℕ}
    (hpy : py < height) {count : ℕ} (hcount : count ≤ width) :
    (List.range count).foldlM (fun pixels px =>
        storeBytes pixels ((py * width + px) * channels) (colour py px))
        (drawn width height channels colour (py * width)) =
      some (drawn width height channels colour (py * width + count)) := by
  induction count with
  | zero => rfl
  | succ count ih =>
      rw [List.range_succ, List.foldlM_append, ih (by omega)]
      simp only [Option.bind_eq_bind, Option.bind_some, List.foldlM_cons, List.foldlM_nil,
        storeBytes_drawn hcolour hpy (show count < width by omega)]
      rfl

theorem rows_drawn (hcolour : ∀ py px, (colour py px).length = channels) {count : ℕ}
    (hcount : count ≤ height) :
    (List.range count).foldlM (fun pixels py =>
        (List.range width).foldlM (fun pixels px =>
          storeBytes pixels ((py * width + px) * channels) (colour py px)) pixels)
        (drawn width height channels colour 0) =
      some (drawn width height channels colour (count * width)) := by
  induction count with
  | zero => rw [zero_mul]; rfl
  | succ count ih =>
      rw [List.range_succ, List.foldlM_append, ih (by omega)]
      simp only [Option.bind_eq_bind, Option.bind_some, List.foldlM_cons, List.foldlM_nil,
        row_drawn hcolour (show count < height by omega) le_rfl]
      rw [Nat.succ_mul]
      rfl

/-- No write is out of bounds, and every pixel is drawn once, in its place. -/
theorem fill_eq (hcolour : ∀ py px, (colour py px).length = channels) :
    fill width height channels colour =
      some ((List.range (width * height)).flatMap fun i => colour (i / width) (i % width)) := by
  have hstart : List.replicate (width * height * channels) 0 =
      drawn width height channels colour 0 := rfl
  rw [fill, hstart, rows_drawn hcolour le_rfl, drawn, mul_comm height width, Nat.sub_self,
    zero_mul, List.replicate_zero, List.append_nil]

end RowMajor

/-! ## The renderers -/

/-- `double` arithmetic, the numbers that a literal or an integer stands for, and the cast to
`byte`. -/
structure Floats where
  add : Double → Double → Double
  sub : Double → Double → Double
  mul : Double → Double → Double
  div : Double → Double → Double
  le : Double → Double → Bool
  literal : ℚ → Double
  toByte : Double → UInt8

namespace FractalRenderer

variable (f : Floats)

/-- One pass of `z ↦ z² + c`. -/
def step (x0 y0 : Double) (z : Double × Double) : Double × Double :=
  (f.add (f.sub (f.mul z.1 z.1) (f.mul z.2 z.2)) x0,
    f.add (f.mul (f.mul (f.literal 2) z.1) z.2) y0)

/-- The condition of the loop, apart from the budget. -/
def stays (z : Double × Double) : Bool :=
  f.le (f.add (f.mul z.1 z.1) (f.mul z.2 z.2)) (f.literal 4)

def escapeLoop (x0 y0 : Double) (maxIter : ℕ) (z : Double × Double) (iteration : ℕ) : ℕ :=
  if stays f z ∧ iteration < maxIter then
    escapeLoop x0 y0 maxIter (step f x0 y0 z) (iteration + 1)
  else iteration
termination_by maxIter - iteration

/-- The iteration at which a point escapes, or the budget. -/
def iterations (x0 y0 : Double) (maxIter : ℕ) : ℕ :=
  escapeLoop f x0 y0 maxIter (f.literal 0, f.literal 0) 0

/-- `low + ((high - low) * p / (size - 1))`. -/
def coordinate (low high : Double) (size p : ℕ) : Double :=
  f.add low (f.div (f.mul (f.sub high low) (f.literal p)) (f.literal ((size : ℚ) - 1)))

def Size : ℕ := 128

def MaxIterations : ℕ := 100

/-- The grey of a point, from the iteration at which it escapes. -/
def grey (iteration : ℕ) : UInt8 :=
  if MaxIterations ≤ iteration then 0 else .ofNat (255 - iteration * 255 / MaxIterations)

/-- The iterations of the pixel at `px`, `py` of the fixed view. -/
def iterationsAt (py px : ℕ) : ℕ :=
  iterations f (coordinate f (f.literal (-2)) (f.literal 1) Size px)
    (coordinate f (f.literal (-3 / 2)) (f.literal (3 / 2)) Size py) MaxIterations

def render : Option (List UInt8) :=
  RowMajor.fill Size Size 1 fun py px => [grey (iterationsAt f py px)]

def palette (t : Double) : UInt8 × UInt8 × UInt8 :=
  let rest := f.sub (f.literal 1) t
  let scaled (factors : List Double) (start : ℚ) : UInt8 :=
    f.toByte (f.mul (factors.foldl f.mul (f.literal start)) (f.literal 255))
  (scaled [rest, t, t, t] 9, scaled [rest, rest, t, t] 15, scaled [rest, rest, rest, t] (17 / 2))

/-- Half of the width that is seen; a zoom that is not positive counts as one. -/
def halfWidth (zoom : Double) : Double :=
  f.div (f.literal (3 / 2)) (if f.le zoom (f.literal 0) then f.literal 1 else zoom)

/-- The colour of the pixel at `px`, `py`. -/
def colourAt (centerX centerY zoom : Double) (maxIter size py px : ℕ) : UInt8 × UInt8 × UInt8 :=
  let half := halfWidth f zoom
  let x0 := coordinate f (f.sub centerX half) (f.add centerX half) size px
  let y0 := coordinate f (f.sub centerY half) (f.add centerY half) size py
  let iteration := iterations f x0 y0 maxIter
  if maxIter ≤ iteration then (0, 0, 0)
  else palette f (f.div (f.literal iteration) (f.literal maxIter))

def renderColor (centerX centerY zoom : Double) (maxIter size : ℕ) : Option (List UInt8) :=
  RowMajor.fill size size 3 fun py px =>
    RowMajor.channelsOf (colourAt f centerX centerY zoom maxIter size py px)

/-! ### The escape iteration -/

def orbit (x0 y0 : Double) (k : ℕ) : Double × Double :=
  (step f x0 y0)^[k] (f.literal 0, f.literal 0)

/-- The first iteration at which the orbit does not stay, or the budget. -/
structure IsEscape (x0 y0 : Double) (maxIter n : ℕ) : Prop where
  le_budget : n ≤ maxIter
  stays_before : ∀ k < n, stays f (orbit f x0 y0 k) = true
  leaves : n < maxIter → stays f (orbit f x0 y0 n) = false

variable {f}

theorem escapeLoop_isEscape {x0 y0 : Double} {maxIter iteration : ℕ} {z : Double × Double}
    (hz : z = orbit f x0 y0 iteration) (hle : iteration ≤ maxIter)
    (hbefore : ∀ k < iteration, stays f (orbit f x0 y0 k) = true) :
    IsEscape f x0 y0 maxIter (escapeLoop f x0 y0 maxIter z iteration) := by
  induction z, iteration using escapeLoop.induct f x0 y0 maxIter with
  | case1 z iteration hmore ih =>
      rw [escapeLoop, if_pos hmore]
      refine ih ?_ hmore.2 ?_
      · rw [hz, orbit, orbit, Function.iterate_succ_apply']
      · intro k hk
        rcases Nat.lt_succ_iff_lt_or_eq.mp hk with hlt | rfl
        · exact hbefore k hlt
        · rw [← hz]
          exact hmore.1
  | case2 z iteration hstop =>
      rw [escapeLoop, if_neg hstop]
      refine ⟨hle, hbefore, fun hlt => ?_⟩
      rw [← hz]
      exact Bool.eq_false_iff.mpr fun hstays => hstop ⟨hstays, hlt⟩

theorem iterations_isEscape (x0 y0 : Double) (maxIter : ℕ) :
    IsEscape f x0 y0 maxIter (iterations f x0 y0 maxIter) :=
  escapeLoop_isEscape rfl (Nat.zero_le maxIter) nofun

/-- The budget is used up by the points that stay, and only by them. -/
theorem iterations_eq_budget_iff (x0 y0 : Double) (maxIter : ℕ) :
    iterations f x0 y0 maxIter = maxIter ↔
      ∀ k < maxIter, stays f (orbit f x0 y0 k) = true := by
  have hescape : IsEscape f x0 y0 maxIter (iterations f x0 y0 maxIter) :=
    iterations_isEscape x0 y0 maxIter
  constructor
  · intro heq
    rw [heq] at hescape
    exact hescape.stays_before
  · intro hstays
    by_contra hne
    have hlt : iterations f x0 y0 maxIter < maxIter := by
      have hle := hescape.le_budget
      omega
    have hleaves := hescape.leaves hlt
    rw [hstays _ hlt] at hleaves
    cases hleaves

theorem toNat_grey {n : ℕ} (hn : n ≤ MaxIterations) :
    (grey n).toNat = if n = MaxIterations then 0 else 255 - n * 255 / 100 := by
  unfold MaxIterations at hn ⊢
  unfold grey MaxIterations
  split_ifs with hle heq heq
  · rfl
  · omega
  · omega
  · rw [UInt8.toNat_ofNat']
    omega

/-- A point is the brighter, the earlier it escapes. -/
theorem grey_lt_iff {m n : ℕ} (hm : m ≤ MaxIterations) (hn : n ≤ MaxIterations) :
    grey m < grey n ↔ n < m := by
  rw [UInt8.lt_iff_toNat_lt, toNat_grey hm, toNat_grey hn]
  unfold MaxIterations at hm hn ⊢
  split_ifs <;> omega

end FractalRenderer

/-! ## What the clients show -/

namespace VisualFeature

/-- `Convert.ToBase64String`. -/
def base64Text (bytes : List UInt8) : Text :=
  (Base64.encode bytes).map fun unit => Char.ofNat unit.toNat

theorem unit_range {unit : UInt16} (hunit : Base64.IsUnit unit) :
    0x20 ≤ unit.toNat ∧ unit.toNat < 0x7F := by
  rcases hunit with rfl | hsextet
  · decide
  · unfold Base64.sextet at hsextet
    split_ifs at hsextet with hupper hlower hdigit hplus hslash
    · omega
    · omega
    · omega
    · subst hplus
      decide
    · subst hslash
      decide
    · cases hsextet

theorem encode_range (bytes : List UInt8) :
    ∀ unit ∈ Base64.encode bytes, 0x20 ≤ unit.toNat ∧ unit.toNat < 0x7F := fun unit hunit =>
  unit_range (Base64.isUnit_of_decode (Base64.decode_encode bytes) unit hunit)

theorem toNat_ofNat_unit {unit : UInt16} (hunit : unit.toNat < 0x7F) :
    (Char.ofNat unit.toNat).toNat = unit.toNat := by
  have hvalid : unit.toNat.isValidChar := .inl (by omega)
  rw [Char.ofNat, dif_pos hvalid]
  rfl

theorem printable_base64Text (bytes : List UInt8) : Printable (base64Text bytes) := by
  intro c hc
  obtain ⟨unit, hunit, rfl⟩ := List.mem_map.mp hc
  have hrange := encode_range bytes unit hunit
  rw [toNat_ofNat_unit hrange.2]
  exact hrange

theorem encode_base64Text (bytes : List UInt8) :
    Utf16.encode (base64Text bytes) = Base64.encode bytes := by
  have hascii : ∀ c ∈ base64Text bytes, c.toNat < 0x80 := fun c hc => by
    have hprintable := printable_base64Text bytes c hc
    omega
  rw [encode_ascii hascii, base64Text, List.map_map]
  refine (List.map_congr_left fun unit hunit => ?_).trans (List.map_id _)
  have hrange := encode_range bytes unit hunit
  simp only [Function.comp_apply, RasterPayload.unitOf, toNat_ofNat_unit hrange.2, id]
  exact UInt16.ofNat_toNat

/-- `{w}x{h}:{base64}`. -/
def packGrey (w h : ℕ) (pixels : List UInt8) : Text :=
  decimal w ++ 'x' :: decimal h ++ ':' :: base64Text pixels

/-- `{w}x{h}x3:{base64}`. -/
def packColour (w h : ℕ) (pixels : List UInt8) : Text :=
  decimal w ++ 'x' :: (decimal h ++ 'x' :: ['3']) ++ ':' :: base64Text pixels

/-- Both clients show the picture of the bytes. -/
structure Shown (graphemes : Graphemes) (table : RasterPayload.DigitTable) (payload : Text)
    (w h : ℕ) (c : ℤ) (bytes : List UInt8) : Prop where
  ios : image graphemes payload = .ok (some ⟨⟨w, h, c⟩, bytes⟩)
  android : RasterPayload.decode table (Utf16.encode payload) =
    .ok (some ⟨w, h, RasterPayload.pixelsOf c bytes⟩)

theorem shown_of_header {graphemes : Graphemes} {table : RasterPayload.DigitTable} {header : Text}
    {w h : ℕ} {c : ℤ} {bytes : List UInt8} (hprintable : Printable header) (hcolon : ':' ∉ header)
    (hread : readDimensions (header.map ([·])) = some ⟨w, h, c⟩)
    (haxes : RasterPayload.HasAxes table (Utf16.encode header) ⟨w, h, c⟩)
    (hmax : (w : ℤ) * h ≤ RasterPayload.maxInt) (hlength : (bytes.length : ℤ) = w * h * c) :
    Shown graphemes table (header ++ ':' :: base64Text bytes) w h c bytes := by
  have hascii : ∀ d ∈ header, d.toNat < 0x80 := fun d hd => by
    have hrange := hprintable d hd
    omega
  have hunits : Utf16.encode (header ++ ':' :: base64Text bytes) =
      Utf16.encode header ++ RasterPayload.colon :: Base64.encode bytes := by
    rw [Utf16.encode_append, ← encode_base64Text bytes]
    rfl
  have hfront : RasterPayload.colon ∉ Utf16.encode header :=
    unitOf_not_mem_encode hascii (by decide : ':'.toNat < 0x80) hcolon
  constructor
  · have hall : Printable (header ++ ':' :: base64Text bytes) :=
      hprintable.append_cons (by decide) (printable_base64Text bytes)
    have hclusters : graphemes.clusters (header ++ ':' :: base64Text bytes) =
        header.map ([·]) ++ [':'] :: (base64Text bytes).map ([·]) := by
      rw [graphemes.clusters_ascii _ hall, List.map_append, List.map_cons]
    have hheader : readHeader graphemes (header ++ ':' :: base64Text bytes) =
        some (⟨w, h, c⟩, base64Text bytes) :=
      readHeader_eq_some.mpr ⟨_, _, hclusters, not_mem_singletons hcolon, hread,
        flatten_singletons _⟩
    have hproducts : FitsInt ((w : ℤ) * h) ∧ FitsInt ((w : ℤ) * h * c) := by
      have hpos : 0 ≤ (w : ℤ) * h := by positivity
      have hchannels : c = 1 ∨ c = 3 := haxes.channels
      unfold FitsInt minInt maxInt
      unfold RasterPayload.maxInt at hmax
      rcases hchannels with rfl | rfl <;> omega
    have hdecode : Base64.decode (Utf16.encode (base64Text bytes)) = some bytes := by
      rw [encode_base64Text, Base64.decode_encode]
    have hdraw := @draw_eq_ok ⟨w, h, c⟩ bytes hproducts.1 hproducts.2
    simp only [image, hheader, hdecode, hdraw]
    rw [if_pos hlength]
  · rw [hunits]
    exact RasterPayload.decode_eq_ok_some.mpr ⟨Utf16.encode header, Base64.encode bytes, ⟨w, h, c⟩,
      bytes, rfl, hfront, haxes, Base64.decode_encode bytes, hmax, hlength, rfl⟩

section Sizes

variable {graphemes : Graphemes} {table : RasterPayload.DigitTable} {w h : ℕ} {bytes : List UInt8}

theorem sizes_le_maxInt (hw : 1 ≤ w) (hh : 1 ≤ h) (hmax : (w : ℤ) * h ≤ RasterPayload.maxInt) :
    (w : ℤ) ≤ RasterPayload.maxInt ∧ (h : ℤ) ≤ RasterPayload.maxInt := by
  have hwle : w * 1 ≤ w * h := Nat.mul_le_mul_left w hh
  have hhle : 1 * h ≤ w * h := Nat.mul_le_mul_right h hw
  zify at hwle hhle
  exact ⟨by omega, by omega⟩

theorem shown_packGrey (hw : 1 ≤ w) (hh : 1 ≤ h) (hmax : (w : ℤ) * h ≤ RasterPayload.maxInt)
    (hlength : bytes.length = w * h) :
    Shown graphemes table (packGrey w h bytes) w h 1 bytes := by
  obtain ⟨hwmax, hhmax⟩ := sizes_le_maxInt hw hh hmax
  have haxes : RasterPayload.HasAxes table (Utf16.encode (decimal w ++ 'x' :: decimal h))
      ⟨w, h, 1⟩ := by
    rw [encode_sizes, encode_decimal]
    exact RasterPayload.hasAxes_gray table hw hh hwmax hhmax
  refine shown_of_header ((printable_decimal w).append_cons (by decide) (printable_decimal h))
    (colon_not_mem_sizes w (not_mem_decimal (by decide) h)) (readDimensions_gray hwmax hhmax) haxes
    hmax ?_
  rw [hlength]
  push_cast
  ring

theorem shown_packColour (hw : 1 ≤ w) (hh : 1 ≤ h) (hmax : (w : ℤ) * h ≤ RasterPayload.maxInt)
    (hlength : bytes.length = w * h * 3) :
    Shown graphemes table (packColour w h bytes) w h 3 bytes := by
  obtain ⟨hwmax, hhmax⟩ := sizes_le_maxInt hw hh hmax
  have hthree : Printable ['3'] := by simp [Printable]
  have haxes : RasterPayload.HasAxes table
      (Utf16.encode (decimal w ++ 'x' :: (decimal h ++ 'x' :: ['3']))) ⟨w, h, 3⟩ := by
    rw [encode_sizes, encode_sizes]
    exact RasterPayload.hasAxes_color table hw hh hwmax hhmax
  refine shown_of_header ((printable_decimal w).append_cons (by decide)
      ((printable_decimal h).append_cons (by decide) hthree))
    (colon_not_mem_sizes w (colon_not_mem_sizes h (by decide))) (readDimensions_color hwmax hhmax)
    haxes hmax ?_
  rw [hlength]
  push_cast
  ring

end Sizes

end VisualFeature

namespace RowMajor

open VisualFeature

def argbOf (colour : UInt8 × UInt8 × UInt8) : RasterPayload.Pixel :=
  RasterPayload.opaqueArgb colour.1 colour.2.1 colour.2.2

theorem triples_flatMap {α : Type*} (colour : α → UInt8 × UInt8 × UInt8) (points : List α) :
    RasterPayload.triples (points.flatMap fun point => channelsOf (colour point)) =
      points.map fun point => argbOf (colour point) := by
  induction points with
  | nil => rfl
  | cons point points ih =>
      rw [List.flatMap_cons, channelsOf, List.cons_append, List.cons_append, List.cons_append,
        List.nil_append, RasterPayload.triples, ih]
      rfl

theorem getElem?_points {α : Type*} {w h py px : ℕ} (hpy : py < h) (hpx : px < w)
    (value : ℕ → ℕ → α) :
    ((List.range (w * h)).map fun i => value (i / w) (i % w))[py * w + px]? =
      some (value py px) := by
  have hlt : py * w + px < w * h := by
    calc py * w + px < py * w + w := by omega
      _ = w * (py + 1) := by ring
      _ ≤ w * h := Nat.mul_le_mul_left w hpy
  rw [List.getElem?_map, List.getElem?_range hlt, Option.map_some, Benchmarks.index_div hpx,
    Benchmarks.index_mod hpx]

/-- A buffer of colours is shown pixel by pixel. -/
theorem fill_shown (graphemes : Graphemes) (table : RasterPayload.DigitTable) {w h : ℕ}
    (hw : 1 ≤ w) (hh : 1 ≤ h) (hmax : (w : ℤ) * h ≤ RasterPayload.maxInt)
    (colour : ℕ → ℕ → UInt8 × UInt8 × UInt8) :
    ∃ bytes, fill w h 3 (fun py px => channelsOf (colour py px)) = some bytes ∧
      Shown graphemes table (packColour w h bytes) w h 3 bytes ∧
      ∀ py px, py < h → px < w →
        (RasterPayload.pixelsOf 3 bytes)[py * w + px]? = some (argbOf (colour py px)) := by
  have hchannels : ∀ py px, (channelsOf (colour py px)).length = 3 := fun _ _ => rfl
  refine ⟨_, fill_eq hchannels, shown_packColour hw hh hmax ?_, ?_⟩
  · exact length_colours hchannels (w * h)
  · intro py px hpy hpx
    rw [RasterPayload.pixelsOf, if_neg (by decide), triples_flatMap]
    exact getElem?_points hpy hpx fun py px => argbOf (colour py px)

end RowMajor

namespace FractalRenderer

open VisualFeature

/-- The picture of the fixed view: black where the orbit stays, and the brighter, the earlier it
leaves. -/
structure Pictures (f : Floats) (pixels : List UInt8) : Prop where
  grey_at : ∀ py px, py < Size → px < Size →
    pixels[py * Size + px]? = some (grey (iterationsAt f py px))
  black_iff : ∀ py px, grey (iterationsAt f py px) = 0 ↔ ∀ k < MaxIterations,
    stays f (orbit f (coordinate f (f.literal (-2)) (f.literal 1) Size px)
      (coordinate f (f.literal (-3 / 2)) (f.literal (3 / 2)) Size py) k) = true
  darker_iff : ∀ py px py' px', grey (iterationsAt f py px) < grey (iterationsAt f py' px') ↔
    iterationsAt f py' px' < iterationsAt f py px

theorem iterationsAt_le (f : Floats) (py px : ℕ) : iterationsAt f py px ≤ MaxIterations :=
  (iterations_isEscape _ _ _).le_budget

theorem grey_eq_zero_iff {n : ℕ} (hn : n ≤ MaxIterations) : grey n = 0 ↔ n = MaxIterations := by
  rw [← UInt8.toNat_inj, toNat_grey hn]
  unfold MaxIterations at hn ⊢
  split_ifs with hlast
  · simp [hlast]
  · simp only [UInt8.toNat_zero]
    omega

/-- The fractal of the catalog is drawn within its buffer and shown by both clients. -/
theorem render_shown (f : Floats) (graphemes : Graphemes) (table : RasterPayload.DigitTable) :
    ∃ pixels, render f = some pixels ∧ Pictures f pixels ∧
      Shown graphemes table (packGrey Size Size pixels) Size Size 1 pixels := by
  have hgrey : ∀ py px, [grey (iterationsAt f py px)].length = 1 := fun _ _ => rfl
  refine ⟨_, RowMajor.fill_eq hgrey, ⟨?_, ?_, ?_⟩, shown_packGrey (by decide) (by decide)
    (by decide) ?_⟩
  · intro py px hpy hpx
    rw [← List.map_eq_flatMap]
    exact RowMajor.getElem?_points hpy hpx fun py px => grey (iterationsAt f py px)
  · intro py px
    rw [grey_eq_zero_iff (iterationsAt_le f py px), iterationsAt, iterations_eq_budget_iff]
  · intro py px py' px'
    exact grey_lt_iff (iterationsAt_le f py px) (iterationsAt_le f py' px')
  · rw [RowMajor.length_colours hgrey, mul_one]

end FractalRenderer

/-! ## The pictures of the Lab -/

namespace ShowcaseCommand

open VisualFeature

/-- The shading of the raymarcher: an angle, the sizes, and a pixel. -/
abbrev Shading := Double → ℕ → ℕ → ℕ → ℕ → UInt8 × UInt8 × UInt8

def pack (w h : ℕ) : Option (List UInt8) → Except Text Text
  | some pixels => .ok (packColour w h pixels)
  | none => .error "Index was outside the bounds of the array.".toList

def renderColorBase64 (f : Floats) (centerX centerY zoom : Double) (maxIter size : ℕ) :
    Except Text Text :=
  pack size size (FractalRenderer.renderColor f centerX centerY zoom maxIter size)

def renderBase64 (shading : Shading) (cameraAngle : Double) (width height : ℕ) :
    Except Text Text :=
  pack width height (RowMajor.fill width height 3 fun py px =>
    RowMajor.channelsOf (shading cameraAngle width height py px))

/-- The engine with the renderers in their places. -/
def Engine.drawing (engine : Engine) (f : Floats) (shading : Shading) : Engine where
  tryParseDouble := engine.tryParseDouble
  gcLab := engine.gcLab
  resetConversation := engine.resetConversation
  result
    | .renderColorBase64 centerX centerY zoom maxIter size =>
        renderColorBase64 f centerX centerY zoom maxIter.toNat size.toNat
    | .renderBase64 cameraAngle width height =>
        ShowcaseCommand.renderBase64 shading cameraAngle width.toNat height.toNat
    | call => engine.result call

/-- A run that succeeds with a picture of `w × h` pixels on both clients. -/
def Draws (graphemes : Graphemes) (table : RasterPayload.DigitTable) (answer : FeatureRun)
    (w h : ℕ) (colour : ℕ → ℕ → UInt8 × UInt8 × UInt8) : Prop :=
  answer.ok = true ∧ ∃ bytes, Shown graphemes table answer.result w h 3 bytes ∧
    ∀ py px, py < h → px < w →
      (RasterPayload.pixelsOf 3 bytes)[py * w + px]? = some (RowMajor.argbOf (colour py px))

section Drawing

variable {engine : Engine} {f : Floats} {shading : Shading} {id : Text} {elapsedMs : Double}

/-- A picture begins with a digit. -/
theorem not_isPrefixOf_pack (w h : ℕ) (bytes : List UInt8) :
    "Unknown showcase command".toList.isPrefixOf (packColour w h bytes) = false := by
  rw [packColour]
  cases hsize : decimal w with
  | nil => exact absurd hsize Nat.toDigits_ne_nil
  | cons first rest =>
      have hdigit := isDigit_decimal (n := w) first (by simp [hsize])
      have hne : ¬ 'U' = first := by
        rintro rfl
        exact absurd hdigit (by decide)
      refine Bool.eq_false_iff.mpr fun hprefix => hne ?_
      obtain ⟨tail, htail⟩ := List.isPrefixOf_iff_prefix.mp hprefix
      exact (List.cons.inj htail).1

theorem draws_of_result {w h : ℕ} {colour : ℕ → ℕ → UInt8 × UInt8 × UInt8}
    (graphemes : Graphemes) (table : RasterPayload.DigitTable) (hw : 1 ≤ w) (hh : 1 ≤ h)
    (hmax : (w : ℤ) * h ≤ RasterPayload.maxInt)
    (hresult : perform engine (callOf engine.tryParseDouble id) =
      pack w h (RowMajor.fill w h 3 fun py px => RowMajor.channelsOf (colour py px))) :
    Draws graphemes table (run engine id elapsedMs) w h colour := by
  obtain ⟨bytes, hfill, hshown, hpixels⟩ := RowMajor.fill_shown graphemes table hw hh hmax colour
  rw [hfill, pack] at hresult
  simp only [Draws, run, hresult, not_isPrefixOf_pack, Bool.not_false]
  exact ⟨trivial, bytes, hshown, hpixels⟩

end Drawing

theorem received_within (n : ℤ) {fallback lo hi : ℤ} (hle : lo ≤ hi) :
    Within lo hi (received fallback lo hi n) :=
  clamp_within hle _

/-- Numbers within the bounds are run as they were asked for. -/
theorem received_eq_self {fallback lo hi n : ℤ} (hn : Within lo hi n) (hlo : minInt ≤ lo)
    (hhi : hi ≤ maxInt) : received fallback lo hi n = n := by
  have hwithin : SignedDecimal.within minInt maxInt n = some n :=
    SignedDecimal.within_eq_some.mpr ⟨rfl, hlo.trans hn.lo_le, hn.le_hi.trans hhi⟩
  rw [received, hwithin, Option.getD_some, clamp_eq_self hn]

/-- The side of a picture that was asked for. -/
def side (fallback size : ℤ) : ℕ := (received fallback 32 512 size).toNat

theorem side_range (fallback size : ℤ) : 32 ≤ side fallback size ∧ side fallback size ≤ 512 := by
  have hwithin : Within 32 512 (received fallback 32 512 size) := received_within size (by decide)
  have hlo := hwithin.lo_le
  have hhi := hwithin.le_hi
  unfold side
  omega

theorem side_eq {fallback : ℤ} {size : ℕ} (hlo : 32 ≤ size) (hhi : size ≤ 512) :
    side fallback size = size := by
  have hn : Within 32 512 (size : ℤ) := ⟨by omega, by omega⟩
  rw [side, received_eq_self hn (by decide) (by decide), Int.toNat_natCast]

/-- What a Lab screen asks for is what both clients show: the picture of its size, every pixel
in its colour. -/
theorem lab_draws (engine : Engine) (f : Floats) (shading : Shading)
    (fixed : ℕ → Double → Text) (hfixed : ∀ decimals value, '~' ∉ fixed decimals value)
    (graphemes : Graphemes) (table : RasterPayload.DigitTable) (elapsedMs : Double) :
    (∀ cx cy zoom iters size, Draws graphemes table
      (run (engine.drawing f shading) (mandelbrot fixed cx cy zoom iters size) elapsedMs)
      (side 256 size) (side 256 size)
      (FractalRenderer.colourAt f (seen engine.tryParseDouble fixed 6 0xBFE0000000000000 cx)
        (seen engine.tryParseDouble fixed 6 0 cy)
        (seen engine.tryParseDouble fixed 6 0x3FF0000000000000 zoom)
        (received 200 16 2000 iters).toNat (side 256 size))) ∧
    (∀ angle size, Draws graphemes table
      (run (engine.drawing f shading) (raymarch fixed angle size) elapsedMs)
      (side 220 size) (side 220 size)
      (shading (seen engine.tryParseDouble fixed 3 0 angle) (side 220 size) (side 220 size))) ∧
    ∀ fallback (size : ℕ), 32 ≤ size → size ≤ 512 → side fallback size = size := by
  have hcall := fun lab => @callOf_lab engine.tryParseDouble fixed hfixed lab
  have hbounds : ∀ fallback size, 1 ≤ side fallback size ∧
      (side fallback size : ℤ) * side fallback size ≤ RasterPayload.maxInt := by
    intro fallback size
    obtain ⟨hlo, hhi⟩ := side_range fallback size
    have hsquare : side fallback size * side fallback size ≤ 512 * 512 := Nat.mul_le_mul hhi hhi
    unfold RasterPayload.maxInt
    zify at hsquare
    exact ⟨by omega, by omega⟩
  refine ⟨fun cx cy zoom iters size => ?_, fun angle size => ?_, fun _ _ => side_eq⟩
  · obtain ⟨hpos, hmax⟩ := hbounds 256 size
    refine draws_of_result graphemes table hpos hpos hmax ?_
    have hasked := hcall (.mandelbrot cx cy zoom iters size)
    rw [Lab.command] at hasked
    rw [Engine.drawing]
    simp only [hasked]
    rfl
  · obtain ⟨hpos, hmax⟩ := hbounds 220 size
    refine draws_of_result graphemes table hpos hpos hmax ?_
    have hasked := hcall (.raymarch angle size)
    rw [Lab.command] at hasked
    rw [Engine.drawing]
    simp only [hasked]
    rfl

/-- Arithmetic in which everything is zero. -/
def blank : Floats where
  add _ _ := 0
  sub _ _ := 0
  mul _ _ := 0
  div _ _ := 0
  le _ _ := true
  literal _ := 0
  toByte _ := 0

/-- An even sky. -/
def sky : Shading := fun _ _ _ _ _ => (25, 40, 82)

theorem lab_draws_sky : Draws singletons RasterPayload.arabicIndic
    (run (idle.drawing blank sky) (raymarch zeros 0 220) 0) 220 220 (sky 0 220 220) := by
  have htilde : ∀ decimals value, '~' ∉ zeros decimals value := by
    intro decimals value
    simp [zeros]
  have hdraws := (lab_draws idle blank sky zeros htilde singletons RasterPayload.arabicIndic
    0).2.1 0 220
  have hside : side 220 220 = 220 := side_eq (by decide : 32 ≤ 220) (by decide)
  rw [hside] at hdraws
  exact hdraws

end ShowcaseCommand

end NativeInterop
