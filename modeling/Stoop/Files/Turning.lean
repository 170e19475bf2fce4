import Mathlib.Data.Set.Function
import Mathlib.Tactic.IntervalCases
import Stoop.Files.Shrinking

/-!
# What turning an image computes

Where a pixel goes is undone by where the undoing orientation sends it (`moved_moved`), so each orientation takes
the pixels one to one onto the turned image's. `orient`'s loops then write each pixel's four bytes in a place of
their own, and what is in a place of the result is what was in the place it came from (`turnedPix`).
-/

set_option autoImplicit false

namespace Stoop.Files

open Stoop.Lib

/-- The orientation that undoes one. -/
def undo : Nat → Nat
  | 6 => 8
  | 8 => 6
  | orientation => orientation

section Moved

variable {orientation width height row column : Nat}

theorem undo_bounds (h2 : 2 ≤ orientation) (h8 : orientation ≤ 8) : 2 ≤ undo orientation ∧
    undo orientation ≤ 8 := by
  interval_cases orientation <;> decide

theorem undo_undo (h2 : 2 ≤ orientation) (h8 : orientation ≤ 8) : undo (undo orientation) = orientation := by
  interval_cases orientation <;> rfl

/-- Undone, the turned image has the size it had. -/
theorem size_undo (h2 : 2 ≤ orientation) (h8 : orientation ≤ 8) :
    outWidth (undo orientation) (outWidth orientation width height) (outHeight orientation width height) = width ∧
      outHeight (undo orientation) (outWidth orientation width height) (outHeight orientation width height) =
        height := by
  interval_cases orientation <;> exact ⟨rfl, rfl⟩

theorem moved_lt (h2 : 2 ≤ orientation) (h8 : orientation ≤ 8) (hrow : row < height) (hcolumn : column < width) :
    (moved orientation width height row column).1 < outWidth orientation width height ∧
      (moved orientation width height row column).2 < outHeight orientation width height := by
  interval_cases orientation <;> simp [moved, outWidth, outHeight, swapsAxes] <;> omega

/-- A pixel moved and moved back is where it was. -/
theorem moved_moved (h2 : 2 ≤ orientation) (h8 : orientation ≤ 8) (hrow : row < height)
    (hcolumn : column < width) :
    moved (undo orientation) (outWidth orientation width height) (outHeight orientation width height)
      (moved orientation width height row column).2 (moved orientation width height row column).1 =
      (column, row) := by
  interval_cases orientation <;> simp [moved, undo, outWidth, outHeight, swapsAxes] <;> omega

/-- The same the other way around. -/
theorem moved_back (h2 : 2 ≤ orientation) (h8 : orientation ≤ 8) {x y : Nat}
    (hx : x < outWidth orientation width height) (hy : y < outHeight orientation width height) :
    (moved (undo orientation) (outWidth orientation width height)
      (outHeight orientation width height) y x).1 < width ∧
    (moved (undo orientation) (outWidth orientation width height)
      (outHeight orientation width height) y x).2 < height ∧
    moved orientation width height
      (moved (undo orientation) (outWidth orientation width height) (outHeight orientation width height) y x).2
      (moved (undo orientation) (outWidth orientation width height) (outHeight orientation width height) y x).1 =
      (x, y) := by
  obtain ⟨hundo2, hundo8⟩ := undo_bounds h2 h8
  have hlt := moved_lt hundo2 hundo8 hy hx
  have hback := moved_moved hundo2 hundo8 hy hx
  rw [undo_undo h2 h8] at hback
  rw [(size_undo h2 h8).1, (size_undo h2 h8).2] at hlt hback
  exact ⟨hlt.1, hlt.2, hback⟩

/-- An orientation takes the pixels one to one onto the turned image's. -/
theorem bijOn_moved (h2 : 2 ≤ orientation) (h8 : orientation ≤ 8) :
    Set.BijOn (fun p : Nat × Nat => moved orientation width height p.2 p.1) {p | p.1 < width ∧ p.2 < height}
      {p | p.1 < outWidth orientation width height ∧ p.2 < outHeight orientation width height} := by
  refine ⟨fun p hp => moved_lt h2 h8 hp.2 hp.1, fun p hp q hq hpq => ?_, fun p hp => ?_⟩
  · have hback := moved_moved h2 h8 hp.2 hp.1
    dsimp only at hpq
    rw [hpq, moved_moved h2 h8 hq.2 hq.1] at hback
    exact hback.symm
  · obtain ⟨hwidth, hheight, hmoved⟩ := moved_back h2 h8 hp.1 hp.2
    exact ⟨_, ⟨hwidth, hheight⟩, hmoved⟩

end Moved

/-! ## The loops -/

/-- Four-byte pixels in rows a stride apart. -/
structure Raster where
  pix : Bytes
  stride : Nat
  width : Nat
  height : Nat
  wide : width * 4 ≤ stride
  holds : ∀ row < height, ∀ column < width, row * stride + column * 4 + 4 ≤ pix.length

/-- A pixel's four bytes. -/
def pixelAt (pix : Bytes) (stride row column : Nat) : Bytes := (pix.drop (row * stride + column * 4)).take 4

section Loops

variable (img : Raster) (orientation : Nat)

/-- The column and row of the pixel that goes to a byte of the result. -/
def comesFrom (i : Nat) : Nat × Nat :=
  moved (undo orientation) (outWidth orientation img.width img.height)
    (outHeight orientation img.width img.height)
    (i / 4 / outWidth orientation img.width img.height) (i / 4 % outWidth orientation img.width img.height)

/-- A byte of the result. -/
def turnedByte (i : Nat) : UInt8 :=
  img.pix.getD ((comesFrom img orientation i).2 * img.stride + (comesFrom img orientation i).1 * 4 + i % 4) 0

def outBytes : Nat :=
  outWidth orientation img.width img.height * outHeight orientation img.width img.height * 4

/-- The result before a pixel is moved. -/
def turnedPix (row column : Nat) : Bytes :=
  cells (outBytes img orientation) fun i =>
    if (comesFrom img orientation i).2 < row ∨
        (comesFrom img orientation i).2 = row ∧ (comesFrom img orientation i).1 < column then
      turnedByte img orientation i
    else 0

variable {img orientation} {row column : Nat}

theorem comesFrom_lt (h2 : 2 ≤ orientation) (h8 : orientation ≤ 8) {i : Nat} (hi : i < outBytes img orientation) :
    (comesFrom img orientation i).1 < img.width ∧ (comesFrom img orientation i).2 < img.height ∧
      moved orientation img.width img.height (comesFrom img orientation i).2 (comesFrom img orientation i).1 =
        (i / 4 % outWidth orientation img.width img.height,
          i / 4 / outWidth orientation img.width img.height) := by
  have hpixel : i / 4 < outWidth orientation img.width img.height * outHeight orientation img.width img.height := by
    unfold outBytes at hi
    omega
  have hpos : 0 < outWidth orientation img.width img.height := Nat.pos_of_mul_pos_right (Nat.zero_lt_of_lt hpixel)
  exact moved_back h2 h8 (Nat.mod_lt _ hpos) (Nat.div_lt_of_lt_mul hpixel)

/-- The bytes a pixel is moved to are those that come from it. -/
theorem comesFrom_eq_iff (h2 : 2 ≤ orientation) (h8 : orientation ≤ 8) (hrow : row < img.height)
    (hcolumn : column < img.width) {i : Nat} (hi : i < outBytes img orientation) :
    comesFrom img orientation i = (column, row) ↔
      i / 4 = (moved orientation img.width img.height row column).2 * outWidth orientation img.width img.height +
        (moved orientation img.width img.height row column).1 := by
  obtain ⟨-, -, hmoved⟩ := comesFrom_lt h2 h8 hi
  constructor
  · intro hfrom
    rw [hfrom] at hmoved
    rw [hmoved, Nat.mul_comm]
    exact (Nat.div_add_mod _ _).symm
  · intro hspot
    have hlt := (@moved_lt orientation img.width img.height row column h2 h8 hrow hcolumn).1
    rw [comesFrom, hspot, Nat.mul_comm, Nat.mul_add_mod, Nat.mod_eq_of_lt hlt, Nat.mul_add_div (by omega),
      Nat.div_eq_of_lt hlt, Nat.add_zero]
    exact moved_moved h2 h8 hrow hcolumn

theorem spot_lt (h2 : 2 ≤ orientation) (h8 : orientation ≤ 8) (hrow : row < img.height)
    (hcolumn : column < img.width) :
    ((moved orientation img.width img.height row column).2 * outWidth orientation img.width img.height +
      (moved orientation img.width img.height row column).1) * 4 + 4 ≤ outBytes img orientation := by
  obtain ⟨hx, hy⟩ := @moved_lt orientation img.width img.height row column h2 h8 hrow hcolumn
  have hroom := Nat.mul_le_mul_right (outWidth orientation img.width img.height) (Nat.succ_le_of_lt hy)
  rw [Nat.succ_mul, Nat.mul_comm (outHeight _ _ _)] at hroom
  unfold outBytes
  omega

theorem movePixel_eq (h2 : 2 ≤ orientation) (h8 : orientation ≤ 8) (hrow : row < img.height)
    (hcolumn : column < img.width) :
    movePixel img.pix img.stride img.width img.height orientation row column
      (turnedPix img orientation row column) =
      .ok (turnedPix img orientation row (column + 1)) := by
  have hspot := @spot_lt img orientation row column h2 h8 hrow hcolumn
  have hread : part img.pix (row * img.stride + column * 4) (row * img.stride + column * 4 + 4) =
      .ok (cells 4 fun i => img.pix.getD (row * img.stride + column * 4 + i) 0) := by
    rw [part, if_pos ⟨Nat.le_add_right _ _, img.holds row hrow column hcolumn⟩, Nat.add_sub_cancel_left,
      take_drop_eq_cells (img.holds row hrow column hcolumn)]
  rw [movePixel, hread, ok_then, turnedPix, blit_cells hspot]
  refine congrArg Except.ok (cells_congr fun i hi => ?_)
  have hiff := comesFrom_eq_iff h2 h8 hrow hcolumn hi
  by_cases hfrom : comesFrom img orientation i = (column, row)
  · have hi4 := hiff.mp hfrom
    rw [if_pos (by omega), if_pos (by rw [hfrom]; omega), turnedByte, hfrom]
    dsimp only
    congr 1
    omega
  · have hi4 := mt hiff.mpr hfrom
    rw [if_neg (by omega)]
    refine if_congr ?_ rfl rfl
    have hne : ¬((comesFrom img orientation i).1 = column ∧ (comesFrom img orientation i).2 = row) := by
      rintro ⟨hc, hr⟩
      exact hfrom (Prod.ext hc hr)
    omega

/-- Every pixel is moved. -/
theorem orient_eq (h2 : 2 ≤ orientation) (h8 : orientation ≤ 8) :
    orient img.pix img.stride img.width img.height orientation =
      .ok ⟨cells (outBytes img orientation) (turnedByte img orientation),
        outWidth orientation img.width img.height,
        outHeight orientation img.width img.height, true⟩ := by
  have hline (row : Nat) (hrow : row < img.height) :
      forRange img.width (movePixel img.pix img.stride img.width img.height orientation row)
        (turnedPix img orientation row 0) = .ok (turnedPix img orientation (row + 1) 0) := by
    have hend : turnedPix img orientation row img.width = turnedPix img orientation (row + 1) 0 := by
      refine cells_congr fun i hi => if_congr ?_ rfl rfl
      have := comesFrom_lt h2 h8 hi
      omega
    rw [← hend]
    exact forRange_eq (turnedPix img orientation row) fun column hcolumn => movePixel_eq h2 h8 hrow hcolumn
  have hstart : List.replicate
    (outWidth orientation img.width img.height * outHeight orientation img.width img.height * 4)
      (0 : UInt8) = turnedPix img orientation 0 0 := by
    rw [replicate_eq_cells]
    exact cells_congr fun i _ => (if_neg (by omega)).symm
  have hend : turnedPix img orientation img.height 0 =
      cells (outBytes img orientation) (turnedByte img orientation) :=
    cells_congr fun i hi => if_pos (.inl (comesFrom_lt h2 h8 hi).2.1)
  have hloop := forRange_eq (fun row => turnedPix img orientation row 0) hline
  rw [orient, if_neg (by omega)]
  dsimp only
  rw [hstart, hloop, hend]
  rfl

/-- A byte of the result, by the pixel it comes from. -/
theorem turnedByte_moved (h2 : 2 ≤ orientation) (h8 : orientation ≤ 8) (hrow : row < img.height)
    (hcolumn : column < img.width) {k : Nat} (hk : k < 4) :
    turnedByte img orientation
        ((moved orientation img.width img.height row column).2 * (outWidth orientation img.width img.height * 4) +
          (moved orientation img.width img.height row column).1 * 4 + k) =
      img.pix.getD (row * img.stride + column * 4 + k) 0 := by
  have hspot := @spot_lt img orientation row column h2 h8 hrow hcolumn
  have hbyte : (moved orientation img.width img.height row column).2 *
    (outWidth orientation img.width img.height * 4) +
      (moved orientation img.width img.height row column).1 * 4 =
      ((moved orientation img.width img.height row column).2 * outWidth orientation img.width img.height +
        (moved orientation img.width img.height row column).1) * 4 := by ring
  rw [hbyte, turnedByte, (comesFrom_eq_iff h2 h8 hrow hcolumn (by omega)).mpr (by omega)]
  dsimp only
  congr 1
  omega

end Loops

/-- What a turned image is of its pixels: each four bytes in a place of their own, and no place without. -/
structure Turns (img : Raster) (orientation : Nat) (result : Turned) : Prop where
  turned : result.turned = true
  width : result.outWidth = outWidth orientation img.width img.height
  height : result.outHeight = outHeight orientation img.width img.height
  length : result.out.length = result.outWidth * result.outHeight * 4
  places : Set.BijOn (fun p : Nat × Nat => moved orientation img.width img.height p.2 p.1)
    {p | p.1 < img.width ∧ p.2 < img.height} {p | p.1 < result.outWidth ∧ p.2 < result.outHeight}
  pixels {row column : Nat} : row < img.height → column < img.width →
    pixelAt result.out (result.outWidth * 4) (moved orientation img.width img.height row column).2
      (moved orientation img.width img.height row column).1 = pixelAt img.pix img.stride row column

theorem orient_turns (img : Raster) {orientation : Nat} (h2 : 2 ≤ orientation) (h8 : orientation ≤ 8) :
    ∃ result, orient img.pix img.stride img.width img.height orientation = .ok result ∧
      Turns img orientation result := by
  refine ⟨_, orient_eq h2 h8, rfl, rfl, rfl, length_cells, bijOn_moved h2 h8, fun {row column} hrow hcolumn => ?_⟩
  have hspot := @spot_lt img orientation row column h2 h8 hrow hcolumn
  have hlow : (moved orientation img.width img.height row column).2 *
      (outWidth orientation img.width img.height * 4) +
      (moved orientation img.width img.height row column).1 * 4 + 4 ≤ outBytes img orientation := by
    rw [← Nat.mul_assoc]
    omega
  rw [pixelAt, pixelAt, take_drop_cells hlow, take_drop_eq_cells (img.holds row hrow column hcolumn) 0]
  exact cells_congr fun k hk => turnedByte_moved h2 h8 hrow hcolumn hk

/-- A turned image is one to turn back. -/
def Turns.raster {img : Raster} {orientation : Nat} {result : Turned}
    (h : Turns img orientation result) : Raster where
  pix := result.out
  stride := result.outWidth * 4
  width := result.outWidth
  height := result.outHeight
  wide := Nat.le_refl _
  holds row hrow column hcolumn := by
    have hroom := Nat.mul_le_mul_right result.outWidth (Nat.succ_le_of_lt hrow)
    rw [h.length]
    rw [Nat.succ_mul, Nat.mul_comm result.outHeight] at hroom
    rw [← Nat.mul_assoc]
    omega

/-- Turned by the orientation that undoes it, an image has each pixel where it was. -/
theorem Turns.undone {img : Raster} {orientation : Nat} (h2 : 2 ≤ orientation) (h8 : orientation ≤ 8)
    {result back : Turned} (h : Turns img orientation result) (hback : Turns h.raster (undo orientation) back) :
    back.outWidth = img.width ∧ back.outHeight = img.height ∧ back.out.length = img.width * img.height * 4 ∧
      ∀ row < img.height, ∀ column < img.width,
        pixelAt back.out (img.width * 4) row column = pixelAt img.pix img.stride row column := by
  have hsize := @size_undo orientation img.width img.height h2 h8
  rw [← h.width, ← h.height] at hsize
  have hwidth : back.outWidth = img.width := hback.width.trans hsize.1
  have hheight : back.outHeight = img.height := hback.height.trans hsize.2
  refine ⟨hwidth, hheight, by rw [hback.length, hwidth, hheight], fun row hrow column hcolumn => ?_⟩
  have hplace := h.places.mapsTo (show (column, row) ∈ {p : Nat × Nat | p.1 < img.width ∧ p.2 < img.height} from
    ⟨hcolumn, hrow⟩)
  have hmoved := @moved_moved orientation img.width img.height row column h2 h8 hrow hcolumn
  rw [← h.width, ← h.height] at hmoved
  have hpixel : pixelAt back.out (back.outWidth * 4)
      (moved (undo orientation) result.outWidth result.outHeight
        (moved orientation img.width img.height row column).2
          (moved orientation img.width img.height row column).1).2
      (moved (undo orientation) result.outWidth result.outHeight
        (moved orientation img.width img.height row column).2
          (moved orientation img.width img.height row column).1).1 =
      pixelAt result.out (result.outWidth * 4) (moved orientation img.width img.height row column).2
        (moved orientation img.width img.height row column).1 := hback.pixels hplace.2 hplace.1
  rw [hmoved, hwidth] at hpixel
  exact hpixel.trans (h.pixels hrow hcolumn)

/-! ## A thumbnail's arithmetic -/

/-- Whatever shape is worth a thumbnail, its reducing divides by no zero and wraps no sum (adding with a check for
it does the same), and each byte is its block's rounded mean. Whatever raster is turned, its pixels are all there. -/
theorem thumbnail_arithmetic {draw : RGBA → Rectangle → Image → Point → RGBA} (hdraw : Draws draw) :
    (∀ (contentType : String) (head : Bytes) (src : Image),
      wantsThumbnail contentType head src.bounds.dx src.bounds.dy = true →
      let factor := reductionFactor src.bounds.dx src.bounds.dy
      ∃ dst, shrinkWith checked draw src factor = .ok dst ∧ shrinkBy draw src factor = .ok dst ∧
        Averages src factor dst ∧ max dst.width dst.height ≤ 2 * ThumbnailSize ∧ 0 < dst.width ∧ 0 < dst.height) ∧
    ∀ (img : Raster) (orientation : Nat), 2 ≤ orientation → orientation ≤ 8 →
      ∃ result, orient img.pix img.stride img.width img.height orientation = .ok result ∧
        Turns img orientation result ∧
        ∃ back, orient result.out (result.outWidth * 4) result.outWidth result.outHeight (undo orientation) =
            .ok back ∧
          back.outWidth = img.width ∧ back.outHeight = img.height ∧ back.out.length = img.width * img.height * 4 ∧
          ∀ row < img.height, ∀ column < img.width,
            pixelAt back.out (img.width * 4) row column = pixelAt img.pix img.stride row column := by
  constructor
  · intro contentType head src hwants factor
    obtain ⟨hside, hwidth, hheight⟩ := shape_of_wantsThumbnail hwants
    obtain ⟨hpos, hten, hlonger⟩ : 0 < factor ∧ factor ≤ 10 ∧ _ := reductionFactor_bounds hside hwidth
    have hfits : 256 * (factor * factor) < 2 ^ 32 := by
      have := Nat.mul_le_mul hten hten
      omega
    refine ⟨reduced src factor, shrinkWith_eq exact_checked hdraw hpos hfits,
      shrinkWith_eq exact_wrapping hdraw hpos hfits, averages_reduced hpos, ?_, ?_, ?_⟩
    · exact Nat.max_le.mpr ⟨side_le hpos (Nat.le_trans (Nat.le_max_left _ _) hlonger),
        side_le hpos (Nat.le_trans (Nat.le_max_right _ _) hlonger)⟩
    · exact Nat.div_pos (by omega) hpos
    · exact Nat.div_pos (by omega) hpos
  · intro img orientation h2 h8
    obtain ⟨result, hresult, hturns⟩ := orient_turns img h2 h8
    obtain ⟨hundo2, hundo8⟩ := undo_bounds h2 h8
    obtain ⟨back, hback, hbackTurns⟩ := orient_turns hturns.raster hundo2 hundo8
    exact ⟨result, hresult, hturns, back, hback, hturns.undone h2 h8 hbackTurns⟩

/-- Draws a pixel at a time. -/
def drawEach (dst : RGBA) (r : Rectangle) (src : Image) (sp : Point) : RGBA :=
  { dst with pix := cells dst.pix.length fun i =>
      let p := sourcePoint r sp (i % dst.stride / 4) (i / dst.stride)
      if r.Contains ⟨(i % dst.stride / 4 : Nat), (i / dst.stride : Nat)⟩ ∧ src.bounds.Contains p then
        src.rgba p (channelOf i)
      else dst.pix.getD i 0 }

theorem draws_drawEach : Draws drawEach where
  whole _ _ _ h := ⟨h.stride, length_cells.trans h.length⟩
  width _ _ _ _ := rfl
  height _ _ _ _ := rfl
  replaces {dst r src sp x y} h hx hy hr hsrc k := by
    have hroom := Nat.mul_le_mul_right (dst.width * 4) (Nat.succ_le_of_lt hy)
    rw [Nat.succ_mul] at hroom
    have hcolumn : (y * (dst.width * 4) + (x * 4 + k)) % (dst.width * 4) = x * 4 + k := by
      rw [Nat.mul_add_mod_self_right, Nat.mod_eq_of_lt (by omega)]
    have hrow : (y * (dst.width * 4) + (x * 4 + k)) / (dst.width * 4) = y := by
      rw [Nat.mul_comm, Nat.mul_add_div (by omega), Nat.div_eq_of_lt (by omega), Nat.add_zero]
    have hpixel : (x * 4 + k.val) / 4 = x := by omega
    have hchannel : channelOf (y * (dst.width * 4) + (x * 4 + k)) = k := by
      rw [← Nat.mul_assoc, ← Nat.add_assoc, ← Nat.add_mul, channelOf_eq]
    rw [drawEach, h.length, h.stride, getElem?_cells, if_pos (by omega)]
    dsimp only
    rw [hcolumn, hrow, hpixel, hchannel, if_pos ⟨hr, hsrc⟩]

/-- A photo with a partial block at its right edge, and a raster of two pixels whose rows lie twelve bytes
apart. -/
def photo : Image where
  bounds := rect 2051 1000
  rgba p k := UInt8.ofNat (p.x.toNat + p.y.toNat + k)

def pair : Raster where
  pix := [1, 2, 3, 4, 5, 6, 7, 8, 0, 0, 0, 0]
  stride := 12
  width := 2
  height := 1
  wide := by decide
  holds := by decide

theorem photo_and_pair :
    (∃ dst, shrinkBy drawEach photo 2 = .ok dst ∧ Averages photo 2 dst ∧ max dst.width dst.height ≤ 2048) ∧
      ∃ result, orient pair.pix 12 2 1 6 = .ok result ∧ Turns pair 6 result := by
  obtain ⟨hshrinks, hturns⟩ := thumbnail_arithmetic draws_drawEach
  obtain ⟨dst, -, hdst, haverages, hsize, -⟩ := hshrinks "image/jpeg" [] photo (by decide)
  obtain ⟨result, hresult, hturned, -⟩ := hturns pair 6 (by decide) (by decide)
  exact ⟨⟨dst, hdst, haverages, hsize⟩, result, hresult, hturned⟩

end Stoop.Files
