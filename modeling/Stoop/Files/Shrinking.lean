import Mathlib.Tactic.FinCases
import Stoop.Files.Thumbnail
import Stoop.Lib.Blocks

/-!
# What reducing an image computes

The loops of `shrinkBy` are followed turn by turn. A band's sums and counts, in words of 32 bits, are those of the
block so far (`tallied`), and stay under `2 ^ 32` while a block has fewer than 4096 pixels a side, so that adding
with or without the check for it is the same (`Exact`). The result is the rounded mean of each block (`reduced`).
-/

set_option autoImplicit false

namespace Stoop.Files

open Stoop.Lib

/-! ## Words -/

/-- Adding that is right where the sum fits its word. -/
def Exact (add : UInt32 → UInt32 → Except Trap UInt32) : Prop :=
  ∀ a b, a.toNat + b.toNat < 2 ^ 32 → add a b = .ok (a + b)

theorem exact_wrapping : Exact wrapping := fun _ _ _ => rfl

theorem exact_checked : Exact checked := fun _ _ h => if_pos h

/-- Words that hold numbers. -/
def words (n : Nat) (f : Nat → Nat) : List UInt32 := cells n fun i => UInt32.ofNat (f i)

theorem words_congr {n : Nat} {f g : Nat → Nat} (h : ∀ i < n, f i = g i) : words n f = words n g :=
  cells_congr fun i hi => congrArg UInt32.ofNat (h i hi)

/-- The channel a byte of four to a cell is of. -/
def channelOf (i : Nat) : Fin 4 := Fin.ofNat 4 i

theorem channelOf_eq {cell : Nat} (k : Fin 4) : channelOf (cell * 4 + k) = k := by
  apply Fin.ext
  change (cell * 4 + k) % 4 = k
  omega

section Sums

variable {add : UInt32 → UInt32 → Except Trap UInt32}

theorem add_ofNat (hadd : Exact add) {m n : Nat} (h : m + n < 2 ^ 32) :
    add (UInt32.ofNat m) (UInt32.ofNat n) = .ok (UInt32.ofNat (m + n)) := by
  have hm : (UInt32.ofNat m).toNat = m := UInt32.toNat_ofNat_of_lt' (Nat.lt_of_le_of_lt (Nat.le_add_right m n) h)
  have hn : (UInt32.ofNat n).toNat = n := UInt32.toNat_ofNat_of_lt' (Nat.lt_of_le_of_lt (Nat.le_add_left n m) h)
  rw [UInt32.ofNat_add]
  exact hadd _ _ (by rwa [hm, hn])

theorem bump_words (hadd : Exact add) {n i m : Nat} {f : Nat → Nat} (hi : i < n) (h : f i + m < 2 ^ 32) :
    bump add (words n f) i (UInt32.ofNat m) = .ok (words n fun k => f k + if k = i then m else 0) := by
  rw [bump, words, load_cells hi, ok_then, add_ofNat hadd h, ok_then, store_cells hi]
  congr 1
  apply cells_congr
  intro k _
  beta_reduce
  by_cases hk : k = i
  · subst hk
    rw [Function.update_self, if_pos rfl]
  · rw [Function.update_of_ne hk, if_neg hk, Nat.add_zero]

theorem toUInt32_eq (b : UInt8) : b.toUInt32 = UInt32.ofNat b.toNat := by
  apply UInt32.toNat.inj
  have hbyte := UInt8.toNat_lt b
  rw [UInt8.toNat_toUInt32, UInt32.toNat_ofNat_of_lt' (by change b.toNat < 4294967296; omega)]

theorem bump_byte (hadd : Exact add) {n i : Nat} {f : Nat → Nat} {b : UInt8} (hi : i < n)
    (h : f i + b.toNat < 2 ^ 32) :
    bump add (words n f) i b.toUInt32 = .ok (words n fun k => f k + if k = i then b.toNat else 0) := by
  rw [toUInt32_eq]
  exact bump_words hadd hi h

/-- A pixel's four channels added to its cell. -/
theorem bump_cell (hadd : Exact add) {n cell : Nat} {f : Nat → Nat} {bytes : Fin 4 → UInt8} {β : Type}
    (rest : List UInt32 → Except Trap β) (hcell : cell * 4 + 4 ≤ n)
    (h : ∀ k : Fin 4, f (cell * 4 + k) + (bytes k).toNat < 2 ^ 32) :
    (do
      let sums ← bump add (words n f) (cell * 4) (bytes 0).toUInt32
      let sums ← bump add sums (cell * 4 + 1) (bytes 1).toUInt32
      let sums ← bump add sums (cell * 4 + 2) (bytes 2).toUInt32
      let sums ← bump add sums (cell * 4 + 3) (bytes 3).toUInt32
      rest sums) = rest (words n fun i => f i + if i / 4 = cell then (bytes (channelOf i)).toNat else 0) := by
  have h0 : f (cell * 4) + (bytes 0).toNat < 2 ^ 32 := h 0
  have h1 : f (cell * 4 + 1) + (bytes 1).toNat < 2 ^ 32 := h 1
  have h2 : f (cell * 4 + 2) + (bytes 2).toNat < 2 ^ 32 := h 2
  have h3 : f (cell * 4 + 3) + (bytes 3).toNat < 2 ^ 32 := h 3
  rw [bump_byte hadd (by omega) h0, ok_then, bump_byte hadd (by omega) (by simpa using h1), ok_then,
    bump_byte hadd (by omega) (by simpa using h2), ok_then,
    bump_byte hadd (by omega) (by simpa using h3), ok_then]
  congr 1
  apply words_congr
  intro i _
  by_cases hi : i / 4 = cell
  · rw [if_pos hi]
    obtain ⟨k, rfl⟩ : ∃ k : Fin 4, i = cell * 4 + k := ⟨channelOf i, by change i = cell * 4 + i % 4; omega⟩
    rw [channelOf_eq]
    fin_cases k <;> simp
  · rw [if_neg hi, if_neg (by omega), if_neg (by omega), if_neg (by omega), if_neg (by omega)]

/-- The rounded mean, of sums that fit their words. -/
theorem mean_ofNat (hadd : Exact add) {total count : Nat} (hpos : 0 < count) (h : total + count < 2 ^ 32) :
    mean add (UInt32.ofNat total) (UInt32.ofNat count) = .ok (UInt8.ofNat ((total + count / 2) / count)) := by
  have hhalf : UInt32.ofNat count / 2 = UInt32.ofNat (count / 2) :=
    (UInt32.ofNat_div (by omega) (by decide)).symm
  have hne : UInt32.ofNat count ≠ 0 := by
    intro hzero
    have := congrArg UInt32.toNat hzero
    rw [UInt32.toNat_ofNat_of_lt' (Nat.lt_of_le_of_lt (Nat.le_add_left count total) h)] at this
    exact Nat.ne_of_gt hpos this
  rw [mean, hhalf, add_ofNat hadd (by omega), ok_then, if_neg hne, ← UInt32.ofNat_div (by omega) (by omega),
    UInt32.toUInt8_ofNat']
  rfl

end Sums

/-! ## A band -/

section Band

variable (v : Nat → Nat → Fin 4 → UInt8) (factor width srcWidth : Nat)

/-- What a cell's sum takes of a pixel, and its count. -/
def amount (cell : Nat) (k : Fin 4) (row column : Nat) : Nat :=
  if column / factor = cell then (v row column k).toNat else 0

def one (cell _row column : Nat) : Nat := if column / factor = cell then 1 else 0

/-- The sums and counts of a band before a pixel of it. -/
def tallied (row column : Nat) : Tally where
  sums := words (width * 4) fun i => upTo (amount v factor (i / 4) (channelOf i)) srcWidth row column
  counts := words width fun cell => upTo (one factor cell) srcWidth row column

variable {v factor width srcWidth}

theorem amount_le (cell : Nat) (k : Fin 4) (row column : Nat) :
    amount v factor cell k row column ≤ 255 * one factor cell row column := by
  have hbyte := UInt8.toNat_lt (v row column k)
  unfold amount one
  split <;> omega

/-- A cell's sum so far is at most 255 to each pixel counted. -/
theorem sum_le (cell : Nat) (k : Fin 4) (row column : Nat) :
    upTo (amount v factor cell k) srcWidth row column ≤ 255 * upTo (one factor cell) srcWidth row column := by
  rw [← upTo_mul]
  exact upTo_le_upTo (amount_le cell k)

variable {add : UInt32 → UInt32 → Except Trap UInt32} {band : RGBA} {line : Bytes} {row column rows : Nat}

/-- A pixel added to its cell. -/
theorem tallyPixel_tallied (hadd : Exact add)
    (hline : ∀ k : Fin 4, load line (column * 4 + k) = .ok (v row column k)) (hpos : 0 < factor)
    (hcell : column / factor < width)
    (hfits : ∀ cell, 255 * upTo (one factor cell) srcWidth row (column + 1) < 2 ^ 32) :
    tallyPixel add line factor column (tallied v factor width srcWidth row column) =
      .ok (tallied v factor width srcWidth row (column + 1)) := by
  have hsum (k : Fin 4) : upTo (amount v factor (column / factor) k) srcWidth row column +
      (v row column k).toNat < 2 ^ 32 := by
    have := Nat.lt_of_le_of_lt (sum_le (v := v) (column / factor) k row (column + 1)) (hfits _)
    rwa [upTo_column, amount, if_pos rfl] at this
  have hcount : upTo (one factor (column / factor)) srcWidth row column + 1 < 2 ^ 32 := by
    have := hfits (column / factor)
    rw [upTo_column, one, if_pos rfl] at this
    omega
  have hroom (k : Fin 4) : upTo (amount v factor ((column / factor * 4 + k) / 4)
      (channelOf (column / factor * 4 + k))) srcWidth row column + (v row column k).toNat < 2 ^ 32 := by
    rw [channelOf_eq, show (column / factor * 4 + k.val) / 4 = column / factor by omega]
    exact hsum k
  have h0 : load line (column * 4) = .ok (v row column 0) := hline 0
  have h1 : load line (column * 4 + 1) = .ok (v row column 1) := hline 1
  have h2 : load line (column * 4 + 2) = .ok (v row column 2) := hline 2
  have h3 : load line (column * 4 + 3) = .ok (v row column 3) := hline 3
  rw [tallyPixel, divide_of_pos hpos, ok_then, h0, h1, h2, h3]
  simp only [ok_then]
  rw [tallied, bump_cell hadd _ (by omega) hroom, show (1 : UInt32) = UInt32.ofNat 1 from rfl,
    bump_words hadd hcell hcount, ok_then]
  refine congrArg Except.ok (congrArg₂ Tally.mk (words_congr fun i _ => ?_) (words_congr fun cell _ => ?_))
  · rw [upTo_column, amount, eq_comm]
    congr 1
    exact if_congr eq_comm rfl rfl
  · rw [upTo_column, one, eq_comm]
    congr 1
    exact if_congr eq_comm rfl rfl

/-- A line added up. -/
theorem tallyLine_tallied (hadd : Exact add) (hpos : 0 < factor)
    (hpart : part band.pix (row * band.stride) (row * band.stride + srcWidth * 4) = .ok line)
    (hline : ∀ column < srcWidth, ∀ k : Fin 4, load line (column * 4 + k) = .ok (v row column k))
    (hcell : ∀ column < srcWidth, column / factor < width)
    (hfits : ∀ cell, ∀ column ≤ srcWidth, 255 * upTo (one factor cell) srcWidth row column < 2 ^ 32) :
    tallyLine add band srcWidth factor row (tallied v factor width srcWidth row 0) =
      .ok (tallied v factor width srcWidth (row + 1) 0) := by
  have hrow : tallied v factor width srcWidth row srcWidth = tallied v factor width srcWidth (row + 1) 0 := by
    simp only [tallied, upTo_row]
  rw [tallyLine, hpart, ok_then, ← hrow]
  apply forRange_eq (tallied v factor width srcWidth row)
  intro column hcolumn
  exact tallyPixel_tallied hadd (hline column hcolumn) hpos (hcell column hcolumn) fun cell =>
    hfits cell (column + 1) hcolumn

end Band

/-! ## The image library -/

/-- An image whose pixels lie row after row with no gaps. -/
structure RGBA.Whole (img : RGBA) : Prop where
  stride : img.stride = img.width * 4
  length : img.pix.length = img.height * (img.width * 4)

theorem whole_newRGBA (width height : Nat) : (newRGBA width height).Whole where
  stride := rfl
  length := List.length_replicate

def Rectangle.Contains (r : Rectangle) (p : Point) : Prop :=
  r.min.x ≤ p.x ∧ p.x < r.max.x ∧ r.min.y ≤ p.y ∧ p.y < r.max.y

instance (r : Rectangle) (p : Point) : Decidable (r.Contains p) := inferInstanceAs (Decidable (_ ∧ _))

/-- The point of the source that goes to a point of the rectangle drawn. -/
def sourcePoint (r : Rectangle) (sp : Point) (x y : Nat) : Point := ⟨sp.x + (x - r.min.x), sp.y + (y - r.min.y)⟩

/-- What drawing is relied on for: the rectangle takes the source's pixels from a point on. -/
structure Draws (draw : RGBA → Rectangle → Image → Point → RGBA) : Prop where
  whole {dst : RGBA} (r : Rectangle) (src : Image) (sp : Point) : dst.Whole → (draw dst r src sp).Whole
  width (dst : RGBA) (r : Rectangle) (src : Image) (sp : Point) : (draw dst r src sp).width = dst.width
  height (dst : RGBA) (r : Rectangle) (src : Image) (sp : Point) : (draw dst r src sp).height = dst.height
  replaces {dst : RGBA} {r : Rectangle} {src : Image} {sp : Point} {x y : Nat} : dst.Whole → x < dst.width →
    y < dst.height → r.Contains ⟨x, y⟩ → src.bounds.Contains (sourcePoint r sp x y) →
    ∀ k : Fin 4, (draw dst r src sp).pix[y * (dst.width * 4) + (x * 4 + k)]? =
      some (src.rgba (sourcePoint r sp x y) k)

/-- A pixel's channel, by its row and column. -/
def Image.pixel (src : Image) (row column : Nat) (k : Fin 4) : UInt8 :=
  src.rgba ⟨src.bounds.min.x + column, src.bounds.min.y + row⟩ k

/-! ## The reduced image -/

section Reduced

variable (src : Image) (factor : Nat)

/-- The sum of a block's channel. -/
def blockSum (cell outRow : Nat) (k : Fin 4) : Nat :=
  ∑ p ∈ block src.bounds.dx src.bounds.dy factor cell outRow, (src.pixel p.2 p.1 k).toNat

def blockCount (cell outRow : Nat) : Nat := (block src.bounds.dx src.bounds.dy factor cell outRow).card

/-- The rounded mean of a block's channel. -/
def blockMean (cell outRow : Nat) (k : Fin 4) : UInt8 :=
  UInt8.ofNat ((blockSum src factor cell outRow k + blockCount src factor cell outRow / 2) /
    blockCount src factor cell outRow)

def cellsWide : Nat := (src.bounds.dx + factor - 1) / factor
def cellsHigh : Nat := (src.bounds.dy + factor - 1) / factor

/-- The result's bytes, once so many rows of it are written. -/
def reducedPix (rows : Nat) : Bytes :=
  cells (cellsHigh src factor * (cellsWide src factor * 4)) fun i =>
    if i < rows * (cellsWide src factor * 4) then
      blockMean src factor (i / 4 % cellsWide src factor) (i / 4 / cellsWide src factor) (channelOf i)
    else 0

def reducedRows (rows : Nat) : RGBA where
  pix := reducedPix src factor rows
  stride := cellsWide src factor * 4
  width := cellsWide src factor
  height := cellsHigh src factor

/-- Each block's rounded mean. -/
def reduced : RGBA := reducedRows src factor (cellsHigh src factor)

variable {src factor}

theorem blockCount_le (hpos : 0 < factor) (cell outRow : Nat) :
    blockCount src factor cell outRow ≤ factor * factor := card_block_le hpos

theorem blockSum_le (cell outRow : Nat) (k : Fin 4) :
    blockSum src factor cell outRow k ≤ 255 * blockCount src factor cell outRow := by
  rw [blockSum, blockCount, Nat.mul_comm]
  apply Finset.sum_le_card_nsmul
  intro p _
  have := UInt8.toNat_lt (src.pixel p.2 p.1 k)
  omega

theorem tallied_block (hpos : 0 < factor) (outRow : Nat) :
    tallied (fun r c k => src.pixel (outRow * factor + r) c k) factor (cellsWide src factor) src.bounds.dx
      (blockRows src.bounds.dy factor outRow) 0 =
    ⟨words (cellsWide src factor * 4) fun i => blockSum src factor (i / 4) outRow (channelOf i),
      words (cellsWide src factor) fun cell => blockCount src factor cell outRow⟩ := by
  rw [tallied]
  congr 2
  · funext i
    exact (sum_block hpos fun y x => (src.pixel y x (channelOf i)).toNat).symm
  · funext cell
    exact (card_block hpos).symm

section Cell

variable {add : UInt32 → UInt32 → Except Trap UInt32}

/-- A cell's four bytes written. -/
theorem meanCell_eq (hadd : Exact add) {cell outRow : Nat} {tally : Tally} (hcell : cell < cellsWide src factor)
    (hsums : tally.sums = words (cellsWide src factor * 4) fun i => blockSum src factor (i / 4) outRow
      (channelOf i))
    (hcounts : tally.counts = words (cellsWide src factor) fun c => blockCount src factor c outRow)
    (hcount : 0 < blockCount src factor cell outRow) (hfits : 256 * blockCount src factor cell outRow < 2 ^ 32)
    (f : Nat → UInt8) :
    meanCell add tally cell (cells (cellsWide src factor * 4) f) = .ok (cells (cellsWide src factor * 4) fun i =>
      if i / 4 = cell then blockMean src factor cell outRow (channelOf i) else f i) := by
  let st (channel : Nat) : Bytes := cells (cellsWide src factor * 4) fun i =>
    if i / 4 = cell ∧ i < cell * 4 + channel then blockMean src factor cell outRow (channelOf i) else f i
  have hfirst : cells (cellsWide src factor * 4) f = st 0 := cells_congr fun i _ => (if_neg (by omega)).symm
  have hlast : st 4 = cells (cellsWide src factor * 4) fun i =>
      if i / 4 = cell then blockMean src factor cell outRow (channelOf i) else f i :=
    cells_congr fun i _ => if_congr (by omega) rfl rfl
  rw [meanCell, hcounts, words, load_cells hcell, ok_then, hfirst, ← hlast]
  apply forRange_eq st
  intro channel hchannel
  have hcellOf : (cell * 4 + channel) / 4 = cell := by omega
  have hsum := @blockSum_le src factor cell outRow (channelOf (cell * 4 + channel))
  rw [hsums, words, load_cells (by omega), ok_then, hcellOf, mean_ofNat hadd hcount (by omega), ok_then,
    store_cells (by omega)]
  refine congrArg Except.ok (cells_congr fun i _ => ?_)
  by_cases hi : i = cell * 4 + channel
  · rw [hi, Function.update_self, if_pos (by omega), blockMean]
  · rw [Function.update_of_ne hi]
    exact if_congr (by omega) rfl rfl

/-- The band's row of results. -/
theorem meanRow_eq (hadd : Exact add) {outRow : Nat} {tally : Tally}
    (hsums : tally.sums = words (cellsWide src factor * 4) fun i => blockSum src factor (i / 4) outRow
      (channelOf i))
    (hcounts : tally.counts = words (cellsWide src factor) fun c => blockCount src factor c outRow)
    (hcount : ∀ cell < cellsWide src factor, 0 < blockCount src factor cell outRow)
    (hfits : ∀ cell, 256 * blockCount src factor cell outRow < 2 ^ 32) (f : Nat → UInt8) :
    forRange (cellsWide src factor) (meanCell add tally) (cells (cellsWide src factor * 4) f) =
      .ok (cells (cellsWide src factor * 4) fun i => blockMean src factor (i / 4) outRow (channelOf i)) := by
  let st (cell : Nat) : Bytes := cells (cellsWide src factor * 4) fun i =>
    if i / 4 < cell then blockMean src factor (i / 4) outRow (channelOf i) else f i
  have hfirst : cells (cellsWide src factor * 4) f = st 0 := cells_congr fun i _ => (if_neg (by omega)).symm
  have hlast : st (cellsWide src factor) = cells (cellsWide src factor * 4) fun i =>
      blockMean src factor (i / 4) outRow (channelOf i) := cells_congr fun i hi => if_pos (by omega)
  rw [hfirst, ← hlast]
  apply forRange_eq st
  intro cell hcell
  rw [meanCell_eq hadd hcell hsums hcounts (hcount cell hcell) (hfits cell)]
  refine congrArg Except.ok (cells_congr fun i _ => ?_)
  by_cases hi : i / 4 = cell
  · rw [if_pos hi, if_pos (by omega), hi]
  · rw [if_neg hi]
    exact if_congr (by omega) rfl rfl

end Cell

section Run

variable {draw : RGBA → Rectangle → Image → Point → RGBA}

/-- The band after so many rows of the result. -/
def bandAt (draw : RGBA → Rectangle → Image → Point → RGBA) (src : Image) (factor : Nat) : Nat → RGBA
  | 0 => newRGBA src.bounds.dx (min factor src.bounds.dy)
  | outRow + 1 => draw (bandAt draw src factor outRow) (rect src.bounds.dx
    (blockRows src.bounds.dy factor outRow)) src
      ⟨src.bounds.min.x, src.bounds.min.y + outRow * factor⟩

theorem bandAt_shape (hdraw : Draws draw) (outRow : Nat) : (bandAt draw src factor outRow).Whole ∧
    (bandAt draw src factor outRow).width = src.bounds.dx ∧
    (bandAt draw src factor outRow).height = min factor src.bounds.dy := by
  induction outRow with
  | zero => exact ⟨whole_newRGBA _ _, rfl, rfl⟩
  | succ outRow ih =>
    obtain ⟨hwhole, hwidth, hheight⟩ := ih
    exact ⟨hdraw.whole _ _ _ hwhole, (hdraw.width _ _ _ _).trans hwidth, (hdraw.height _ _ _ _).trans hheight⟩

/-- What is in the band once a row's rectangle is drawn. -/
theorem bandAt_pix (hdraw : Draws draw) {outRow row column : Nat}
    (hrow : row < blockRows src.bounds.dy factor outRow) (hcolumn : column < src.bounds.dx) (k : Fin 4) :
    (bandAt draw src factor (outRow + 1)).pix[row * (src.bounds.dx * 4) + (column * 4 + k)]? =
      some (src.pixel (outRow * factor + row) column k) := by
  obtain ⟨hwhole, hwidth, hheight⟩ := @bandAt_shape src factor draw hdraw outRow
  have hrows : blockRows src.bounds.dy factor outRow ≤ min factor src.bounds.dy ∧
      blockRows src.bounds.dy factor outRow ≤ src.bounds.dy - outRow * factor := by
    unfold blockRows
    omega
  have hpoint : sourcePoint (rect src.bounds.dx (blockRows src.bounds.dy factor outRow))
      ⟨src.bounds.min.x, src.bounds.min.y + outRow * factor⟩ column row =
      ⟨src.bounds.min.x + column, src.bounds.min.y + (outRow * factor + row : Nat)⟩ := by
    simp only [sourcePoint, rect, Point.mk.injEq]
    push_cast
    omega
  have hwithin : src.bounds.Contains ⟨src.bounds.min.x + column, src.bounds.min.y +
    (outRow * factor + row : Nat)⟩ := by
    have hdx : (src.bounds.dx : Int) = src.bounds.max.x - src.bounds.min.x :=
      Int.toNat_of_nonneg (Int.sub_nonneg_of_le src.bounds.ordered.1)
    have hdy : (src.bounds.dy : Int) = src.bounds.max.y - src.bounds.min.y :=
      Int.toNat_of_nonneg (Int.sub_nonneg_of_le src.bounds.ordered.2)
    simp only [Rectangle.Contains]
    omega
  have hrect : (rect src.bounds.dx (blockRows src.bounds.dy factor outRow)).Contains ⟨column, row⟩ :=
    ⟨Int.natCast_nonneg _, Int.ofNat_lt.mpr hcolumn, Int.natCast_nonneg _, Int.ofNat_lt.mpr hrow⟩
  have h := hdraw.replaces hwhole (by omega) (by omega) hrect (hpoint ▸ hwithin) k
  rw [hpoint, hwidth] at h
  exact h

variable {add : UInt32 → UInt32 → Except Trap UInt32}

/-- How far the source goes on below a band's top. -/
theorem rows_eq (outRow : Nat) :
    (min (factor : Int) (src.bounds.max.y - (src.bounds.min.y + outRow * factor))).toNat =
      blockRows src.bounds.dy factor outRow := by
  rw [blockRows, Rectangle.dy]
  have : ((outRow * factor : Nat) : Int) = outRow * factor := Int.natCast_mul outRow factor
  omega

/-- A line of the band. -/
theorem bandAt_line (hdraw : Draws draw) {outRow row : Nat} (hrow : row < blockRows src.bounds.dy factor outRow) :
    ∃ line, part (bandAt draw src factor (outRow + 1)).pix (row * (src.bounds.dx * 4))
        (row * (src.bounds.dx * 4) + src.bounds.dx * 4) = .ok line ∧
      ∀ column < src.bounds.dx, ∀ k : Fin 4,
        load line (column * 4 + k) = .ok (src.pixel (outRow * factor + row) column k) := by
  obtain ⟨hwhole, hwidth, hheight⟩ := @bandAt_shape src factor draw hdraw (outRow + 1)
  have hrows : row + 1 ≤ min factor src.bounds.dy := by
    unfold blockRows at hrow
    omega
  have hroom : (row + 1) * (src.bounds.dx * 4) ≤ min factor src.bounds.dy * (src.bounds.dx * 4) :=
    Nat.mul_le_mul_right _ hrows
  rw [Nat.succ_mul] at hroom
  have hlength := hwhole.length
  rw [hwidth, hheight] at hlength
  refine ⟨_, if_pos ⟨Nat.le_add_right _ _, by omega⟩, fun column hcolumn k => ?_⟩
  rw [load, List.getElem?_take_of_lt (by omega), List.getElem?_drop, bandAt_pix hdraw hrow hcolumn k]

theorem count_fits (hpos : 0 < factor) (hfits : 256 * (factor * factor) < 2 ^ 32) {outRow row : Nat}
    (hrow : row < blockRows src.bounds.dy factor outRow) (cell : Nat) {column : Nat}
    (hcolumn : column ≤ src.bounds.dx) :
    255 * upTo (one factor cell) src.bounds.dx row column < 2 ^ 32 := by
  have hsofar : upTo (one factor cell) src.bounds.dx row column ≤ blockCount src factor cell outRow := by
    rw [blockCount, card_block hpos]
    exact upTo_le_rows hrow hcolumn
  have hblock := @blockCount_le src factor hpos cell outRow
  omega

/-- A band added up. -/
theorem tallyBand_eq (hadd : Exact add) (hdraw : Draws draw) (hpos : 0 < factor)
    (hfits : 256 * (factor * factor) < 2 ^ 32) (outRow : Nat) :
    forRange (blockRows src.bounds.dy factor outRow)
      (tallyLine add (bandAt draw src factor (outRow + 1)) src.bounds.dx factor)
      ⟨List.replicate (cellsWide src factor * 4) 0, List.replicate (cellsWide src factor) 0⟩ =
      .ok ⟨words (cellsWide src factor * 4) fun i => blockSum src factor (i / 4) outRow (channelOf i),
        words (cellsWide src factor) fun cell => blockCount src factor cell outRow⟩ := by
  obtain ⟨hwhole, hwidth, -⟩ := @bandAt_shape src factor draw hdraw (outRow + 1)
  have hstride : (bandAt draw src factor (outRow + 1)).stride = src.bounds.dx * 4 := by rw [hwhole.stride, hwidth]
  let st (row : Nat) : Tally := tallied (fun r c k => src.pixel (outRow * factor + r) c k) factor
    (cellsWide src factor) src.bounds.dx row 0
  have hzero : (⟨List.replicate (cellsWide src factor * 4) 0, List.replicate (cellsWide src factor) 0⟩ : Tally) =
      st 0 := by
    rw [replicate_eq_cells, replicate_eq_cells]
    rfl
  rw [hzero, ← tallied_block hpos outRow]
  apply forRange_eq st
  intro row hrow
  obtain ⟨line, hpart, hline⟩ := bandAt_line hdraw hrow
  rw [← hstride] at hpart
  exact tallyLine_tallied hadd hpos (by rw [← hpart, hstride]) hline
    (fun column hcolumn => lt_blocks hpos hcolumn)
      fun cell column hcolumn => count_fits hpos hfits hrow cell hcolumn

/-- A byte of a result's row, among all its bytes. -/
theorem row_byte {width outRow i : Nat} (hlow : outRow * (width * 4) ≤ i) (hhigh : i < outRow *
    (width * 4) + width * 4) :
    (i - outRow * (width * 4)) / 4 = i / 4 % width ∧ i / 4 / width = outRow ∧
      channelOf (i - outRow * (width * 4)) = channelOf i := by
  obtain ⟨j, rfl⟩ := Nat.exists_eq_add_of_le hlow
  have hj : j < width * 4 := by omega
  have hi : (outRow * (width * 4) + j) / 4 = j / 4 + width * outRow := by
    rw [show outRow * (width * 4) = 4 * (width * outRow) by ring]
    omega
  have hdiv : j / 4 < width := by omega
  refine ⟨?_, ?_, ?_⟩
  · rw [Nat.add_sub_cancel_left, hi, Nat.add_mul_mod_self_left, Nat.mod_eq_of_lt hdiv]
  · rw [hi, Nat.add_mul_div_left _ _ (by omega), Nat.div_eq_of_lt hdiv, Nat.zero_add]
  · apply Fin.ext
    change (outRow * (width * 4) + j - outRow * (width * 4)) % 4 = (outRow * (width * 4) + j) % 4
    rw [Nat.add_sub_cancel_left, ← Nat.mul_assoc, Nat.mul_add_mod_self_right]

/-- A band and its row of the result. -/
theorem shrinkRow_eq (hadd : Exact add) (hdraw : Draws draw) (hpos : 0 < factor)
    (hfits : 256 * (factor * factor) < 2 ^ 32) {outRow : Nat} (hrow : outRow < cellsHigh src factor) :
    shrinkRow add draw src factor src.bounds.dx (cellsWide src factor) outRow
        (bandAt draw src factor outRow, reducedRows src factor outRow) =
      .ok (bandAt draw src factor (outRow + 1), reducedRows src factor (outRow + 1)) := by
  have hcount (cell : Nat) : 256 * blockCount src factor cell outRow < 2 ^ 32 :=
    Nat.lt_of_le_of_lt (Nat.mul_le_mul_left 256 (blockCount_le hpos cell outRow)) hfits
  have hblocks (cell : Nat) (hcell : cell < cellsWide src factor) : 0 < blockCount src factor cell outRow :=
    Finset.card_pos.mpr (block_nonempty hpos hcell hrow)
  have hroom : (outRow + 1) * (cellsWide src factor * 4) ≤ cellsHigh src factor * (cellsWide src factor * 4) :=
    Nat.mul_le_mul_right _ hrow
  rw [Nat.succ_mul] at hroom
  have hband : draw (bandAt draw src factor outRow) (rect src.bounds.dx
    (blockRows src.bounds.dy factor outRow)) src
      ⟨src.bounds.min.x, src.bounds.min.y + outRow * factor⟩ = bandAt draw src factor (outRow + 1) := rfl
  simp only [shrinkRow, rows_eq, hband, tallyBand_eq hadd hdraw hpos hfits, ok_then]
  rw [reducedRows, reducedPix, part_cells (Nat.le_add_right _ _) hroom, ok_then, Nat.add_sub_cancel_left,
    meanRow_eq hadd rfl rfl hblocks hcount, ok_then, blit_cells hroom, ok_then]
  refine congrArg (fun pix => Except.ok (_, RGBA.mk pix _ _ _)) (cells_congr fun i _ => ?_)
  split
  · rename_i hi
    obtain ⟨hcell, hout, hk⟩ := row_byte hi.1 hi.2
    rw [if_pos (by rw [Nat.succ_mul]; exact hi.2), hcell, hout, hk]
  · rename_i hi
    exact if_congr (by rw [Nat.succ_mul]; omega) rfl rfl

/-- Reducing an image, adding in either way, ends with each block's rounded mean. -/
theorem shrinkWith_eq (hadd : Exact add) (hdraw : Draws draw) (hpos : 0 < factor)
    (hfits : 256 * (factor * factor) < 2 ^ 32) : shrinkWith add draw src factor = .ok (reduced src factor) := by
  have hzero : newRGBA (cellsWide src factor) (cellsHigh src factor) = reducedRows src factor 0 := by
    rw [newRGBA, reducedRows, reducedPix, replicate_eq_cells]
    congr 1
    exact cells_congr fun i _ => (if_neg (by omega)).symm
  have hrun := forRange_eq (fun outRow => (bandAt draw src factor outRow, reducedRows src factor outRow))
    fun outRow hrow => @shrinkRow_eq src factor draw add hadd hdraw hpos hfits outRow hrow
  have hwide : divide (src.bounds.dx + factor - 1) factor = .ok (cellsWide src factor) := divide_of_pos hpos
  have hhigh : divide (src.bounds.dy + factor - 1) factor = .ok (cellsHigh src factor) := divide_of_pos hpos
  rw [← hzero, bandAt] at hrun
  rw [shrinkWith, hwide, ok_then, hhigh, ok_then, hrun]
  rfl

end Run

/-- What a reduced image is of its source: each byte the rounded mean of its block's, every pixel in one block. -/
structure Averages (src : Image) (factor : Nat) (dst : RGBA) : Prop where
  whole : dst.Whole
  covers {row column : Nat} : row < src.bounds.dy → column < src.bounds.dx →
    row / factor < dst.height ∧ column / factor < dst.width
  nonempty {cell outRow : Nat} : cell < dst.width → outRow < dst.height →
    (block src.bounds.dx src.bounds.dy factor cell outRow).Nonempty
  mean {cell outRow : Nat} : cell < dst.width → outRow < dst.height → ∀ k : Fin 4,
    ∃ byte, dst.pix[outRow * dst.stride + (cell * 4 + k)]? = some byte ∧
      (byte.toNat : Int) = round
        ((∑ p ∈ block src.bounds.dx src.bounds.dy factor cell outRow, ((src.pixel p.2 p.1 k).toNat : ℚ)) /
          (block src.bounds.dx src.bounds.dy factor cell outRow).card)

theorem toNat_blockMean {cell outRow : Nat} (hcount : 0 < blockCount src factor cell outRow) (k : Fin 4) :
    ((blockMean src factor cell outRow k).toNat : Int) = round
      ((∑ p ∈ block src.bounds.dx src.bounds.dy factor cell outRow, ((src.pixel p.2 p.1 k).toNat : ℚ)) /
        (block src.bounds.dx src.bounds.dy factor cell outRow).card) := by
  have hle := @blockSum_le src factor cell outRow k
  have hbyte : (blockSum src factor cell outRow k + blockCount src factor cell outRow / 2) /
      blockCount src factor cell outRow < 256 := by
    rw [Nat.div_lt_iff_lt_mul hcount]
    omega
  rw [blockMean, UInt8.toNat_ofNat_of_lt' hbyte, ← round_div_natCast _ _ hcount, blockSum, blockCount,
    Nat.cast_sum]

theorem averages_reduced (hpos : 0 < factor) : Averages src factor (reduced src factor) where
  whole := ⟨rfl, length_cells⟩
  covers hrow hcolumn := ⟨lt_blocks hpos hrow, lt_blocks hpos hcolumn⟩
  nonempty hcell hrow := block_nonempty hpos hcell hrow
  mean {cell outRow} hcell hrow k := by
    change cell < cellsWide src factor at hcell
    change outRow < cellsHigh src factor at hrow
    have hroom : (outRow + 1) * (cellsWide src factor * 4) ≤ cellsHigh src factor * (cellsWide src factor * 4) :=
      Nat.mul_le_mul_right _ hrow
    rw [Nat.succ_mul] at hroom
    refine ⟨blockMean src factor cell outRow k, ?_, toNat_blockMean
      (Finset.card_pos.mpr (block_nonempty hpos hcell hrow)) k⟩
    obtain ⟨hx, hy, hk⟩ := @row_byte (cellsWide src factor) outRow
      (outRow * (cellsWide src factor * 4) + (cell * 4 + k)) (Nat.le_add_right _ _) (by omega)
    rw [Nat.add_sub_cancel_left] at hx hk
    have hcellOf : (cell * 4 + k.val) / 4 = cell := by omega
    change (reducedPix src factor (cellsHigh src factor))[outRow * (cellsWide src factor * 4) +
      (cell * 4 + k.val)]? = _
    rw [reducedPix, getElem?_cells, if_pos (by omega), if_pos (by omega), hy, ← hx, hcellOf, ← hk, channelOf_eq]

end Reduced

/-! ## A thumbnail's factor -/

theorem shape_of_wantsThumbnail {contentType : String} {head : Bytes} {width height : Nat}
    (h : wantsThumbnail contentType head width height = true) :
    max width height ≤ maxThumbnailSide ∧ 0 < width ∧ 0 < height := by
  unfold wantsThumbnail at h
  split at h
  · cases h
  · simp only [Bool.and_eq_true, decide_eq_true_eq] at h
    omega

theorem reductionFactor_bounds {width height : Nat} (hside : max width height ≤ maxThumbnailSide)
    (hwidth : 0 < width) :
    0 < reductionFactor width height ∧ reductionFactor width height ≤ 10 ∧
      max width height ≤ 2 * ThumbnailSize * reductionFactor width height := by
  unfold reductionFactor
  simp only [ThumbnailSize, maxThumbnailSide] at *
  omega

/-- A side of the result, by a factor that brings the image within twice the thumbnail's size. -/
theorem side_le {side factor : Nat} (hpos : 0 < factor) (h : side ≤ 2 * ThumbnailSize * factor) :
    (side + factor - 1) / factor ≤ 2 * ThumbnailSize := by
  rw [Nat.div_le_iff_le_mul_add_pred hpos]
  rw [Nat.mul_comm] at h
  omega


end Stoop.Files
