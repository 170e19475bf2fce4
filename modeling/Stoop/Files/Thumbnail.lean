import Mathlib
import Stoop.Files.ImageSize
import Stoop.Lib.Cells

/-!
# A thumbnail's pixels

`internal/files/thumbnail_image.go`: which image is worth a thumbnail (`wantsThumbnail`), the block it is reduced
by (`reductionFactor`), the reducing (`shrinkBy`) and the turning (`orient`).

Pixel memory is a list of bytes; an index out of it and a division by zero are traps (`Lib.Trap`). The `uint32`
sums are added up by `add`: the code's wraps (`wrapping`), and `checked` traps where a sum would not fit its word.
What fills the band from the decoded image is the image library's (`draw`).
-/

set_option autoImplicit false

namespace Stoop.Files

open Stoop.Lib
open Stoop.Lib.Bytes (readFull)

/-- The square a thumbnail fits inside. -/
def ThumbnailSize : Nat := 1024

def maxThumbnailSide : Nat := 20000
def maxThumbnailAspect : Nat := 20

def thumbnailTypes : List String := ["image/png", "image/jpeg", "image/webp"]

/-- `"acTL"` and `"IDAT"`. -/
def acTL : Bytes := [0x61, 0x63, 0x54, 0x4C]
def idat : Bytes := [0x49, 0x44, 0x41, 0x54]

/-- The loop of `pngAnimated`: so many chunks more, from a position in the file. -/
def pngChunks (file : Bytes) : Nat → Nat → Bool
  | 0, _ => true
  | n + 1, position =>
    match readFull 8 (file.drop position) with
    | none => false
    | some (chunk, _) =>
      if chunk.drop 4 = acTL then true
      else if chunk.drop 4 = idat then false
      -- The data, then its CRC.
      else pngChunks file n (position + 8 + ByteOrder.big.toNat (chunk.take 4) + 4)

def pngAnimated (file : Bytes) : Bool := pngChunks file 256 8

def webpAnimated (data : Bytes) : Bool :=
  (data.drop 12).take 4 = vp8x && match data[20]? with
    | some flags => flags &&& 0x02 != 0
    | none => false

def wantsThumbnail (contentType : String) (head : Bytes) (width height : Nat) : Bool :=
  if !thumbnailTypes.contains contentType || (contentType = "image/webp" && webpAnimated head)
      || (contentType = "image/png" && pngAnimated head) then false
  else
    let longer := max width height
    let shorter := min width height
    longer > ThumbnailSize && longer ≤ maxThumbnailSide && shorter > 0 && longer ≤ shorter * maxThumbnailAspect

/-- The block `shrinkBy` averages. -/
def reductionFactor (width height : Nat) : Nat :=
  (max width height + 2 * ThumbnailSize - 1) / (2 * ThumbnailSize)

/-! ## Images -/

structure Point where
  x : Int
  y : Int
  deriving DecidableEq, Repr

/-- A rectangle whose corners are in order. -/
structure Rectangle where
  min : Point
  max : Point
  ordered : min.x ≤ max.x ∧ min.y ≤ max.y

namespace Rectangle

def dx (r : Rectangle) : Nat := (r.max.x - r.min.x).toNat
def dy (r : Rectangle) : Nat := (r.max.y - r.min.y).toNat

end Rectangle

/-- `image.Rect(0, 0, width, height)`. -/
def rect (width height : Nat) : Rectangle where
  min := ⟨0, 0⟩
  max := ⟨width, height⟩
  ordered := ⟨Int.natCast_nonneg width, Int.natCast_nonneg height⟩

/-- A decoded image: its bounds, and each pixel's four channels as premultiplied colour. -/
structure Image where
  bounds : Rectangle
  rgba : Point → Fin 4 → UInt8

/-- `image.RGBA`, its rectangle from the origin. -/
structure RGBA where
  pix : Bytes
  stride : Nat
  width : Nat
  height : Nat
  deriving DecidableEq, Repr

def newRGBA (width height : Nat) : RGBA where
  pix := List.replicate (height * (width * 4)) 0
  stride := width * 4
  width := width
  height := height

/-! ## Reducing -/

/-- Adds as the code does. -/
def wrapping (a b : UInt32) : Except Trap UInt32 := .ok (a + b)

/-- Adds where the sum fits its word. -/
def checked (a b : UInt32) : Except Trap UInt32 :=
  if a.toNat + b.toNat < 2 ^ 32 then .ok (a + b) else .error .wrapped

/-- A band's sums, four to a cell, and its counts. -/
structure Tally where
  sums : List UInt32
  counts : List UInt32
  deriving DecidableEq, Repr

section Shrink

variable (add : UInt32 → UInt32 → Except Trap UInt32) (draw : RGBA → Rectangle → Image → Point → RGBA)

/-- `xs[i] += a`. -/
def bump (xs : List UInt32) (i : Nat) (a : UInt32) : Except Trap (List UInt32) := do
  store xs i (← add (← load xs i) a)

/-- The body of `shrinkBy`'s innermost loop. -/
def tallyPixel (line : Bytes) (factor column : Nat) (tally : Tally) : Except Trap Tally := do
  let cell ← divide column factor
  let sums ← bump add tally.sums (cell * 4) (← load line (column * 4)).toUInt32
  let sums ← bump add sums (cell * 4 + 1) (← load line (column * 4 + 1)).toUInt32
  let sums ← bump add sums (cell * 4 + 2) (← load line (column * 4 + 2)).toUInt32
  let sums ← bump add sums (cell * 4 + 3) (← load line (column * 4 + 3)).toUInt32
  let counts ← bump add tally.counts cell 1
  return ⟨sums, counts⟩

def tallyLine (band : RGBA) (srcWidth factor row : Nat) (tally : Tally) : Except Trap Tally := do
  let line ← part band.pix (row * band.stride) (row * band.stride + srcWidth * 4)
  forRange srcWidth (tallyPixel add line factor) tally

/-- `uint8((sum + count/2) / count)`. -/
def mean (sum count : UInt32) : Except Trap UInt8 := do
  let total ← add sum (count / 2)
  if count = 0 then .error .divideByZero else return (total / count).toUInt8

/-- One cell's channels. -/
def meanCell (tally : Tally) (cell : Nat) (out : Bytes) : Except Trap Bytes := do
  let count ← load tally.counts cell
  forRange 4 (fun channel out => do
    store out (cell * 4 + channel) (← mean add (← load tally.sums (cell * 4 + channel)) count)) out

/-- The body of `shrinkBy`'s outer loop, over the band and the result. -/
def shrinkRow (src : Image) (factor srcWidth width outRow : Nat) (images : RGBA × RGBA) :
    Except Trap (RGBA × RGBA) := do
  let top := src.bounds.min.y + outRow * factor
  let rows := (min (factor : Int) (src.bounds.max.y - top)).toNat
  let band := draw images.1 (rect srcWidth rows) src ⟨src.bounds.min.x, top⟩
  let dst := images.2
  let tally ← forRange rows (tallyLine add band srcWidth factor)
    ⟨List.replicate (width * 4) 0, List.replicate width 0⟩
  let out ← part dst.pix (outRow * dst.stride) (outRow * dst.stride + width * 4)
  let out ← forRange width (meanCell add tally) out
  -- out is dst's own memory.
  let pix ← blit dst.pix (outRow * dst.stride) out
  return (band, { dst with pix := pix })

/-- `shrinkBy`, adding by `add`. -/
def shrinkWith (src : Image) (factor : Nat) : Except Trap RGBA := do
  let srcWidth := src.bounds.dx
  let width ← divide (srcWidth + factor - 1) factor
  let height ← divide (src.bounds.dy + factor - 1) factor
  let images ← forRange height (shrinkRow add draw src factor srcWidth width)
    (newRGBA srcWidth (min factor src.bounds.dy), newRGBA width height)
  return images.2

end Shrink

/-- Averages each block of so many pixels a side into one. -/
def shrinkBy (draw : RGBA → Rectangle → Image → Point → RGBA) (src : Image) (factor : Nat) : Except Trap RGBA :=
  shrinkWith wrapping draw src factor

/-! ## Turning -/

def swapsAxes (orientation : Nat) : Bool := 5 ≤ orientation && orientation ≤ 8

def outWidth (orientation width height : Nat) : Nat := if swapsAxes orientation then height else width
def outHeight (orientation width height : Nat) : Nat := if swapsAxes orientation then width else height

/-- `toX, toY`: where a pixel goes. -/
def moved (orientation width height row column : Nat) : Nat × Nat :=
  match orientation with
  | 2 => (width - 1 - column, row) -- mirrored left to right
  | 3 => (width - 1 - column, height - 1 - row) -- upside down
  | 4 => (column, height - 1 - row) -- flipped top to bottom
  | 5 => (row, column) -- transposed
  | 6 => (height - 1 - row, column) -- a quarter turn clockwise
  | 7 => (height - 1 - row, width - 1 - column) -- transverse
  | 8 => (row, width - 1 - column) -- a quarter turn anticlockwise
  | _ => (0, 0)

/-- One pixel copied to where it goes. -/
def movePixel (pix : Bytes) (stride width height orientation row column : Nat) (out : Bytes) :
    Except Trap Bytes := do
  let spot := moved orientation width height row column
  let pixel ← part pix (row * stride + column * 4) (row * stride + column * 4 + 4)
  blit out ((spot.2 * outWidth orientation width height + spot.1) * 4) pixel

structure Turned where
  out : Bytes
  outWidth : Nat
  outHeight : Nat
  turned : Bool
  deriving DecidableEq, Repr

/-- Four-byte pixels turned the way an EXIF orientation asks, with no gaps between rows. -/
def orient (pix : Bytes) (stride width height orientation : Nat) : Except Trap Turned :=
  if orientation < 2 ∨ orientation > 8 then .ok ⟨pix, width, height, false⟩
  else do
    let outWidth := outWidth orientation width height
    let outHeight := outHeight orientation width height
    let out ← forRange height (fun row => forRange width (movePixel pix stride width height orientation row))
      (List.replicate (outWidth * outHeight * 4) 0)
    return ⟨out, outWidth, outHeight, true⟩

end Stoop.Files
