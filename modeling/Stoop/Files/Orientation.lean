import Mathlib
import Stoop.Files.ImageSize

/-!
# The walks are safe on any bytes, and right on well-formed ones

No walk reaches out of what it has, whatever the file's bytes are, and an orientation is a number up to eight.
Well-formed files are written out here byte by byte (`JPEGHeader`, `ExtendedWebP`, `Directory`), as what their
formats hold and nothing of how they are read; each walk then returns what its file holds.
-/

set_option autoImplicit false

namespace Stoop.Files

open Stoop.Lib
open Stoop.Lib.Bytes (readFull uint)

/-! ## Any bytes -/

theorem jpegSegments_ok (n : Nat) (tiff : Option Bytes) (reader : Bytes) :
    ∃ walked, jpegSegments n tiff reader = .ok walked := by
  induction n generalizing tiff reader with
  | zero => exact ⟨_, rfl⟩
  | succ n ih =>
    cases reader with
    | nil => exact ⟨_, rfl⟩
    | cons first reader =>
      simp only [jpegSegments]
      split
      · exact ⟨_, rfl⟩
      · split
        · exact ⟨_, rfl⟩
        next code reader _ =>
          split
          · exact ⟨_, rfl⟩
          · split
            · exact ih _ _
            · split
              · exact ⟨_, rfl⟩
              · split
                · exact ⟨_, rfl⟩
                next lengthBytes reader hlength =>
                  have htwo := Bytes.length_of_readFull hlength
                  rw [Bytes.uint_of_le (Nat.le_of_eq htwo.symm), Bytes.ok_bind]
                  split
                  · exact ⟨_, rfl⟩
                  · split
                    · split
                      · exact ⟨_, rfl⟩
                      · exact ih _ _
                    · split
                      · exact ⟨_, rfl⟩
                      next segment reader _ =>
                        split
                        next hexif =>
                          rw [Bytes.sliceFrom_of_le hexif.length_le, Bytes.ok_bind]
                          exact ih _ _
                        · exact ih _ _

theorem webpChunks_ok (file : Bytes) (riffEnd n position : Nat) :
    ∃ found, webpChunks file riffEnd n position = .ok found := by
  induction n generalizing position with
  | zero => exact ⟨_, rfl⟩
  | succ n ih =>
    simp only [webpChunks]
    split
    · exact ⟨_, rfl⟩
    · split
      · exact ⟨_, rfl⟩
      next chunk reader hchunk =>
        have hlength := Bytes.length_of_readFull hchunk
        rw [Bytes.uint_sliceFrom _ (Nat.le_of_eq hlength.symm), Bytes.slice_of_le (Nat.zero_le _) (by omega)]
        simp only [Bytes.ok_bind]
        split
        · exact ⟨_, rfl⟩
        · split
          · split
            · exact ⟨_, rfl⟩
            · split <;> exact ⟨_, rfl⟩
          · exact ih _

theorem tiffEntries_ok (order : ByteOrder) (tiff : Bytes) (n entry : Nat) :
    ∃ v ≤ 8, tiffEntries order tiff n entry = .ok v := by
  induction n generalizing entry with
  | zero => exact ⟨0, Nat.zero_le _, rfl⟩
  | succ n ih =>
    simp only [tiffEntries]
    split
    · exact ⟨0, Nat.zero_le _, rfl⟩
    next hroom =>
      have hentry : entry + 12 ≤ tiff.length := Nat.not_lt.mp hroom
      rw [Bytes.uint_sliceFrom _ (by omega)]
      split
      · exact ih _
      · rw [Bytes.uint_sliceFrom _ (by omega), Bytes.uint_sliceFrom _ (by omega)]
        split
        · exact ⟨0, Nat.zero_le _, rfl⟩
        · rw [Bytes.uint_sliceFrom _ (by omega)]
          split
          · exact ⟨0, Nat.zero_le _, rfl⟩
          next hvalue => exact ⟨_, Nat.not_lt.mp (not_or.mp hvalue).2, rfl⟩

theorem tiffOrientation_ok (tiff : Bytes) : ∃ v ≤ 8, tiffOrientation tiff = .ok v := by
  simp only [tiffOrientation]
  split
  · exact ⟨0, Nat.zero_le _, rfl⟩
  next hheader =>
    have hlength : 8 ≤ tiff.length := Nat.not_lt.mp hheader
    rw [Bytes.slice_of_le (by omega) (by omega), Bytes.ok_bind]
    split
    · exact ⟨0, Nat.zero_le _, rfl⟩
    next order _ =>
      have hfour : 4 ≤ ((tiff.drop 4).take (8 - 4)).length := by
        rw [List.length_take, List.length_drop]
        omega
      rw [Bytes.slice_of_le (by omega) hlength, Bytes.ok_bind, Bytes.uint_of_le hfour, Bytes.ok_bind]
      split
      · exact ⟨0, Nat.zero_le _, rfl⟩
      next hroom =>
        rw [Bytes.uint_sliceFrom _ (Nat.not_lt.mp hroom)]
        exact tiffEntries_ok order tiff _ _

theorem jpegWalk_ok (file : Bytes) : ∃ walked, jpegWalk file = .ok walked := by
  simp only [jpegWalk]
  split
  · exact ⟨_, rfl⟩
  · split
    · exact jpegSegments_ok _ _ _
    · exact ⟨_, rfl⟩

theorem webpExif_ok (file : Bytes) : ∃ found, webpExif file = .ok found := by
  simp only [webpExif]
  split
  · exact ⟨_, rfl⟩
  next header _ hheader =>
    have hlength := Bytes.length_of_readFull hheader
    have hfour : 4 ≤ ((header.drop 4).take (8 - 4)).length := by
      rw [List.length_take, List.length_drop]
      omega
    rw [Bytes.slice_of_le (by omega) (by omega), Bytes.slice_of_le (by omega) (by omega),
      Bytes.slice_of_le (by omega) (by omega), Bytes.slice_of_le (by omega) (by omega),
      Bytes.index_of_lt (by omega)]
    simp only [Bytes.ok_bind]
    split
    · exact ⟨_, rfl⟩
    · rw [Bytes.uint_of_le hfour, Bytes.ok_bind]
      exact webpChunks_ok _ _ _ _

/-- The orientation of any file, of either type or another. -/
theorem exifOrientation_ok (file : Bytes) (contentType : String) :
    ∃ v ≤ 8, exifOrientation file contentType = .ok v := by
  have hnone : ∃ v ≤ 8, (.ok 0 : Except Fault Nat) = .ok v := ⟨0, Nat.zero_le _, rfl⟩
  simp only [exifOrientation]
  split
  · obtain ⟨walked, hwalked⟩ := jpegWalk_ok file
    rw [hwalked, Bytes.ok_bind, Bytes.ok_bind]
    split
    · exact hnone
    · exact tiffOrientation_ok _
  · obtain ⟨found, hfound⟩ := webpExif_ok file
    rw [hfound, Bytes.ok_bind]
    split
    · exact hnone
    · exact tiffOrientation_ok _
  · exact hnone

/-! ## A JPEG's header -/

/-- The codes of the markers that carry a length and come before a frame header. -/
def carriesLength (code : UInt8) : Bool :=
  code != 0xFF && code != 0xD8 && !isFrameHeader code && !hasNoLength code && !stopsWalk code

/-- A marker segment: its code, and what it holds if it holds anything. -/
inductive Segment
  | bare (code : UInt8) (plain : hasNoLength code = true)
  | holding (code : UInt8) (payload : Bytes) (long : carriesLength code = true)
    (fits : payload.length + 2 < 256 ^ 2)

/-- A marker, with as many fill bytes before its code as there are. -/
def markerBytes (fill : Nat) (code : UInt8) : Bytes := 0xFF :: (List.replicate fill 0xFF ++ [code])

def Segment.bytes : Segment → Bytes
  | .bare code _ => [code]
  | .holding code payload _ _ => code :: ByteOrder.big.number 2 (payload.length + 2) ++ payload

/-- The TIFF block of an EXIF segment. -/
def Segment.tiff : Segment → Option Bytes
  | .bare _ _ => none
  | .holding code payload _ _ =>
    if code = 0xE1 ∧ exifHeader <+: payload then some (payload.drop exifHeader.length) else none

/-- A JPEG up to its frame header: segments, each with fill bytes before its code, and the frame header's
marker. -/
structure JPEGHeader where
  segments : List (Nat × Segment)
  fill : Nat
  frame : UInt8
  starts : isFrameHeader frame = true

namespace JPEGHeader

def segmentBytes (seg : Nat × Segment) : Bytes := 0xFF :: (List.replicate seg.1 0xFF ++ seg.2.bytes)

def bytes (jpeg : JPEGHeader) : Bytes :=
  [0xFF, 0xD8] ++ jpeg.segments.flatMap segmentBytes ++ markerBytes jpeg.fill jpeg.frame

/-- The TIFF block of the first EXIF segment. -/
def tiff (jpeg : JPEGHeader) : Option Bytes := jpeg.segments.findSome? fun seg => seg.2.tiff

/-- The walk's limits, in which the frame header's is the last segment. -/
def Within (jpeg : JPEGHeader) : Prop :=
  jpeg.segments.length < maxJPEGSegments ∧ jpeg.bytes.length ≤ maxJPEGWalk

instance (jpeg : JPEGHeader) : Decidable jpeg.Within := inferInstanceAs (Decidable (_ ∧ _))

end JPEGHeader

theorem markerCode_fill {code : UInt8} (h : code ≠ 0xFF) (fill : Nat) (reader : Bytes) :
    markerCode (List.replicate fill 0xFF ++ code :: reader) = some (code, reader) := by
  induction fill with
  | zero => exact if_neg h
  | succ fill ih => exact (if_pos rfl).trans ih

theorem ne_fill_of_frame {code : UInt8} (h : isFrameHeader code = true) : code ≠ 0xFF := by
  rintro rfl
  exact absurd h (by decide)

theorem ne_fill_of_noLength {code : UInt8} (h : hasNoLength code = true) : code ≠ 0xFF := by
  rintro rfl
  exact absurd h (by decide)

theorem not_frame_of_noLength {code : UInt8} (h : hasNoLength code = true) : isFrameHeader code = false := by
  simp only [hasNoLength, isFrameHeader, Bool.or_eq_true, Bool.and_eq_true, beq_iff_eq, decide_eq_true_eq] at *
  grind

/-- What the walk makes of one segment: the TIFF block it held, or this one's where there was none. -/
theorem jpegSegments_segment (n : Nat) (tiff : Option Bytes) (seg : Nat × Segment) (reader : Bytes) :
    jpegSegments (n + 1) tiff (JPEGHeader.segmentBytes seg ++ reader) =
      jpegSegments n (tiff.or seg.2.tiff) reader := by
  obtain ⟨fill, seg⟩ := seg
  simp only [JPEGHeader.segmentBytes, List.cons_append, List.append_assoc, jpegSegments, ne_eq, not_true_eq_false,
    if_false]
  cases seg with
  | bare code plain =>
    simp only [Segment.bytes, List.singleton_append, markerCode_fill (ne_fill_of_noLength plain),
      not_frame_of_noLength plain, plain, Bool.false_eq_true, if_false, if_true, Segment.tiff, Option.or_none]
  | holding code payload long fits =>
    simp only [carriesLength, Bool.and_eq_true, bne_iff_ne, Bool.not_eq_true'] at long
    obtain ⟨⟨⟨⟨hfill, -⟩, hframe⟩, hplain⟩, hstop⟩ := long
    have hcount : uint .big 2 (ByteOrder.big.number 2 (payload.length + 2)) = .ok (payload.length + 2) := by
      have hread := @Bytes.uint_number [] _ 2 .big fits
      rwa [List.append_nil] at hread
    simp only [Segment.bytes, List.cons_append, List.append_assoc, markerCode_fill hfill, hframe, hplain, hstop,
      Bool.false_eq_true, if_false, Bytes.readFull_append ByteOrder.length_number, hcount, Bytes.ok_bind,
      Nat.add_sub_cancel, Bytes.readFull_append (rfl : payload.length = payload.length)]
    rw [if_neg (by omega)]
    by_cases hskip : tiff.isSome ∨ code ≠ 0xE1 ∨ payload.length < exifHeader.length
    · rw [if_pos hskip]
      cases tiff with
      | some block => rfl
      | none =>
        have hother : ¬(code = 0xE1 ∧ exifHeader <+: payload) := by
          rintro ⟨hcode, hexif⟩
          rcases hskip with hsome | hcode' | hshort
          · cases hsome
          · exact hcode' hcode
          · exact absurd hexif.length_le (Nat.not_le.mpr hshort)
        rw [Segment.tiff, if_neg hother, Option.or_none]
    · rw [if_neg hskip]
      obtain ⟨hnone, hcode, -⟩ : tiff = none ∧ code = 0xE1 ∧ exifHeader.length ≤ payload.length := by
        simpa using hskip
      subst hnone
      by_cases hexif : exifHeader <+: payload
      · rw [if_pos hexif, Bytes.sliceFrom_of_le hexif.length_le, Bytes.ok_bind, Segment.tiff,
          if_pos ⟨hcode, hexif⟩, Option.none_or]
      · rw [if_neg hexif, Segment.tiff, if_neg fun h => hexif h.2, Option.none_or]

theorem jpegSegments_run (n : Nat) (tiff : Option Bytes) (segs : List (Nat × Segment)) (reader : Bytes) :
    jpegSegments (n + segs.length) tiff (segs.flatMap JPEGHeader.segmentBytes ++ reader) =
      jpegSegments n (tiff.or (segs.findSome? fun seg => seg.2.tiff)) reader := by
  induction segs generalizing tiff with
  | nil => rw [List.findSome?_nil, Option.or_none]; rfl
  | cons seg segs ih =>
    rw [List.flatMap_cons, List.append_assoc, List.length_cons, ← Nat.add_assoc, jpegSegments_segment, ih,
      Option.or_assoc]
    congr 2
    rw [List.findSome?_cons]
    cases seg.2.tiff <;> rfl

theorem jpegSegments_frame {frame : UInt8} (h : isFrameHeader frame = true) (n : Nat) (tiff : Option Bytes)
    (fill : Nat) (reader : Bytes) :
    jpegSegments (n + 1) tiff (markerBytes fill frame ++ reader) = .ok (tiff, frame) := by
  simp only [markerBytes, List.cons_append, List.append_assoc, List.nil_append, jpegSegments, ne_eq,
    not_true_eq_false, if_false, markerCode_fill (ne_fill_of_frame h), h, if_true]

/-- The walk finds what a header holds. -/
theorem jpegWalk_bytes {jpeg : JPEGHeader} (h : jpeg.Within) (rest : Bytes) :
    jpegWalk (jpeg.bytes ++ rest) = .ok (jpeg.tiff, jpeg.frame) := by
  obtain ⟨hsegments, hlength⟩ := h
  obtain ⟨n, hn⟩ : ∃ n, maxJPEGSegments = n + 1 + jpeg.segments.length :=
    ⟨maxJPEGSegments - 1 - jpeg.segments.length, by omega⟩
  have htake : (jpeg.bytes ++ rest).take maxJPEGWalk =
      [0xFF, 0xD8] ++ (jpeg.segments.flatMap JPEGHeader.segmentBytes ++ (markerBytes jpeg.fill jpeg.frame ++
        rest.take (maxJPEGWalk - jpeg.bytes.length))) := by
    rw [List.take_append, List.take_of_length_le hlength]
    simp only [JPEGHeader.bytes, List.append_assoc]
  rw [jpegWalk, htake, Bytes.readFull_append (rfl : [0xFF, 0xD8].length = 2)]
  dsimp only
  rw [if_pos rfl, hn, jpegSegments_run, jpegSegments_frame jpeg.starts, Option.none_or]
  rfl

/-! ## An extended WebP -/

structure Chunk where
  fourCC : Bytes
  payload : Bytes
  named : fourCC.length = 4
  fits : payload.length < 256 ^ 4

namespace Chunk

/-- A chunk as it lies in a file, padded to an even length. -/
def bytes (c : Chunk) : Bytes :=
  c.fourCC ++ ByteOrder.little.number 4 c.payload.length ++ c.payload ++ List.replicate (c.payload.length % 2) 0

variable {c : Chunk}

theorem length_bytes : c.bytes.length = 8 + c.payload.length + c.payload.length % 2 := by
  simp only [bytes, List.length_append, c.named, ByteOrder.length_number, List.length_replicate]

/-- A chunk's four letters and size. -/
def header (c : Chunk) : Bytes := c.fourCC ++ ByteOrder.little.number 4 c.payload.length

theorem length_header : c.header.length = 8 := by
  rw [header, List.length_append, c.named, ByteOrder.length_number]

theorem bytes_eq : c.bytes = c.header ++ (c.payload ++ List.replicate (c.payload.length % 2) 0) := by
  simp only [bytes, header, List.append_assoc]

end Chunk

/-- A WebP in the extended format: the flags and the rest of its VP8X chunk, and the chunks after it. The flag
for EXIF is set where there is an EXIF chunk. -/
structure ExtendedWebP where
  flags : UInt8
  settings : Bytes
  chunks : List Chunk
  sized : settings.length = 9
  flagged : flags &&& exifFlag = 0 → ∀ c ∈ chunks, c.fourCC ≠ exif
  fits : 22 + (chunks.flatMap Chunk.bytes).length < 256 ^ 4

namespace ExtendedWebP

variable (image : ExtendedWebP)

/-- The VP8X chunk. -/
def first : Chunk where
  fourCC := vp8x
  payload := image.flags :: image.settings
  named := rfl
  fits := by
    rw [List.length_cons, image.sized]
    decide

/-- What the RIFF size counts. -/
def body : Bytes := webp ++ (image.first :: image.chunks).flatMap Chunk.bytes

def bytes : Bytes := riff ++ ByteOrder.little.number 4 image.body.length ++ image.body

/-- The first EXIF chunk. -/
def exifChunk : Option Chunk := image.chunks.find? fun c => c.fourCC = exif

/-- The walk's limits: the EXIF chunk is among the first chunks, and no larger than the walk reads. -/
def Within : Prop :=
  ∀ c ∈ image.exifChunk, c ∈ image.chunks.take (maxWebPChunks - 1) ∧ c.payload.length ≤ maxExifBytes

end ExtendedWebP

/-- What the walk makes of a chunk at hand. -/
theorem webpChunks_chunk {file rest : Bytes} {riffEnd position : Nat} (n : Nat) {c : Chunk}
    (hhere : file.drop position = c.bytes ++ rest) (hend : position + c.bytes.length ≤ riffEnd) :
    webpChunks file riffEnd (n + 1) position =
      if c.fourCC = exif then
        if maxExifBytes < c.payload.length then .ok none else .ok (some (trimExifHeader c.payload))
      else webpChunks file riffEnd n (position + c.bytes.length) := by
  rw [Chunk.length_bytes] at hend
  have hsize : c.header.drop 4 = ByteOrder.little.number 4 c.payload.length ++ [] := by
    rw [List.append_nil]
    exact List.drop_left' c.named
  have hname : c.header.slice 0 4 = .ok c.fourCC := by
    rw [Bytes.slice_of_le (Nat.zero_le _) (by rw [Chunk.length_header]; omega)]
    exact congrArg Except.ok (List.take_left' c.named)
  simp only [webpChunks, hhere, Chunk.bytes_eq, List.append_assoc, Bytes.readFull_append Chunk.length_header]
  rw [if_neg (by omega), Bytes.uint_sliceFrom_number _ hsize (by decide) c.fits, if_neg (by omega), hname,
    Bytes.ok_bind, ← Chunk.bytes_eq, Chunk.length_bytes, Bytes.readFull_append (rfl : c.payload.length = _)]
  simp only [Nat.add_assoc]

/-- A walk through chunks to the end finds the first EXIF chunk among those it looks at. -/
theorem webpChunks_run {file rest : Bytes} {riffEnd : Nat} (n position : Nat) {chunks : List Chunk}
    (hhere : file.drop position = chunks.flatMap Chunk.bytes ++ rest)
    (hend : position + (chunks.flatMap Chunk.bytes).length = riffEnd) :
    webpChunks file riffEnd n position =
      .ok (((chunks.take n).find? fun c => c.fourCC = exif).bind fun c =>
        if maxExifBytes < c.payload.length then none else some (trimExifHeader c.payload)) := by
  induction chunks generalizing n position with
  | nil =>
    have hpast : position = riffEnd := hend
    cases n with
    | zero => rfl
    | succ n => exact if_pos (by omega)
  | cons c chunks ih =>
    cases n with
    | zero => rfl
    | succ n =>
      rw [List.flatMap_cons, List.append_assoc] at hhere
      rw [List.flatMap_cons, List.length_append] at hend
      rw [webpChunks_chunk n hhere (by omega), List.take_succ_cons, List.find?_cons]
      by_cases hname : c.fourCC = exif
      · rw [if_pos hname, decide_eq_true hname, Option.bind_some]
        split <;> rfl
      · rw [if_neg hname, decide_eq_false hname]
        refine ih n _ ?_ (by omega)
        rw [← List.drop_drop, hhere, List.drop_left' rfl]

/-- What is found among the first elements is what is found. -/
theorem find?_take {α : Type} {p : α → Bool} {l : List α} {n : Nat} (h : ∀ a ∈ l.find? p, a ∈ l.take n) :
    (l.take n).find? p = l.find? p := by
  have hsplit : l.find? p = ((l.take n).find? p).or ((l.drop n).find? p) := by
    rw [← List.find?_append, List.take_append_drop]
  cases hfind : (l.take n).find? p with
  | some a => rw [hsplit, hfind, Option.some_or]
  | none =>
    symm
    refine Option.eq_none_iff_forall_not_mem.mpr fun a ha => ?_
    exact List.find?_eq_none.mp hfind a (h a ha) (List.find?_some ha)

namespace ExtendedWebP

variable (image : ExtendedWebP)

/-- A file up to the flags. -/
def opening : Bytes :=
  riff ++ (ByteOrder.little.number 4 image.body.length ++
    (webp ++ (vp8x ++ (ByteOrder.little.number 4 10 ++ [image.flags]))))

theorem first_bytes : image.first.bytes =
    vp8x ++ (ByteOrder.little.number 4 10 ++ (image.flags :: image.settings)) := by
  have hsize : (image.flags :: image.settings).length = 10 := by rw [List.length_cons, image.sized]
  simp only [Chunk.bytes, first, hsize, List.append_assoc, Nat.reduceMod, List.replicate_zero, List.append_nil]

theorem bytes_eq : image.bytes =
    image.opening ++ (image.settings ++ image.chunks.flatMap Chunk.bytes) := by
  simp only [bytes, opening, body, List.flatMap_cons, first_bytes, List.append_assoc, List.cons_append,
    List.nil_append]

theorem length_body : image.body.length = 22 + (image.chunks.flatMap Chunk.bytes).length := by
  have hwebp : webp.length = 4 := rfl
  have hfirst : image.first.bytes.length = 18 := by rw [Chunk.length_bytes, first, List.length_cons, image.sized]
  rw [body, List.flatMap_cons, List.length_append, List.length_append, hwebp, hfirst]
  omega

theorem length_opening : image.opening.length = 21 := by
  simp only [opening, List.length_append, ByteOrder.length_number]
  rfl

/-- What the walk reads off the first bytes. -/
theorem opening_reads : image.opening.slice 0 4 = .ok riff ∧
    image.opening.slice 4 8 = .ok (ByteOrder.little.number 4 image.body.length) ∧
    image.opening.slice 8 12 = .ok webp ∧ image.opening.slice 12 16 = .ok vp8x ∧
    image.opening.index 20 = .ok image.flags := by
  have hfour : (ByteOrder.little.number 4 image.body.length).length = 4 := ByteOrder.length_number
  have hwebp : image.opening =
      (riff ++ ByteOrder.little.number 4 image.body.length) ++
        (webp ++ (vp8x ++ (ByteOrder.little.number 4 10 ++ [image.flags]))) := by
    simp only [opening, List.append_assoc]
  have hvp8x : image.opening =
      (riff ++ ByteOrder.little.number 4 image.body.length ++ webp) ++
        (vp8x ++ (ByteOrder.little.number 4 10 ++ [image.flags])) := by
    simp only [opening, List.append_assoc]
  have hflags : image.opening =
      (riff ++ ByteOrder.little.number 4 image.body.length ++ webp ++ vp8x ++ ByteOrder.little.number 4 10) ++
        [image.flags] := by
    simp only [opening, List.append_assoc]
  refine ⟨@Bytes.slice_append 0 4 [] riff _ rfl rfl, Bytes.slice_append rfl (by rw [hfour]), ?_, ?_, ?_⟩
  · rw [hwebp]
    exact Bytes.slice_append (by rw [List.length_append, hfour]; rfl) rfl
  · rw [hvp8x]
    exact Bytes.slice_append (by rw [List.length_append, List.length_append, hfour]; rfl) rfl
  · rw [hflags]
    exact Bytes.index_append (by simp only [List.length_append, ByteOrder.length_number]; rfl)

end ExtendedWebP

/-- The walk finds a file's EXIF chunk. -/
theorem webpExif_bytes {image : ExtendedWebP} (h : image.Within) (rest : Bytes) :
    webpExif (image.bytes ++ rest) = .ok (image.exifChunk.map fun c => trimExifHeader c.payload) := by
  obtain ⟨hriff, hsize, hwebp, hvp8x, hflags⟩ := image.opening_reads
  have hfits : image.body.length < 256 ^ 4 := image.length_body ▸ image.fits
  have hcount : uint .little 4 (ByteOrder.little.number 4 image.body.length) = .ok image.body.length := by
    have hread := @Bytes.uint_number [] _ 4 .little hfits
    rwa [List.append_nil] at hread
  have hread : readFull 21 (image.bytes ++ rest) =
      some (image.opening, image.settings ++ image.chunks.flatMap Chunk.bytes ++ rest) := by
    rw [image.bytes_eq, List.append_assoc]
    exact Bytes.readFull_append image.length_opening
  simp only [webpExif, hread, hriff, hsize, hwebp, hvp8x, hflags, hcount, Bytes.ok_bind, ne_eq, not_true_eq_false,
    false_or]
  split
  next hplain =>
    have hnone : image.exifChunk = none := by
      refine List.find?_eq_none.mpr fun c hc => ?_
      rw [decide_eq_true_eq]
      exact image.flagged hplain c hc
    rw [hnone, Option.map_none]
  next =>
    have hhere : (image.bytes ++ rest).drop 12 = (image.first :: image.chunks).flatMap Chunk.bytes ++ rest := by
      have hstart : image.bytes ++ rest =
          (riff ++ ByteOrder.little.number 4 image.body.length ++ webp) ++
            ((image.first :: image.chunks).flatMap Chunk.bytes ++ rest) := by
        simp only [ExtendedWebP.bytes, ExtendedWebP.body, List.append_assoc]
      rw [hstart]
      exact List.drop_left' (by simp only [List.length_append, ByteOrder.length_number]; rfl)
    have hend : 12 + ((image.first :: image.chunks).flatMap Chunk.bytes).length = 8 + image.body.length := by
      have hfour : webp.length = 4 := rfl
      rw [ExtendedWebP.body, List.length_append, hfour]
      omega
    rw [webpChunks_run maxWebPChunks 12 hhere hend]
    have hfirst : ((image.first :: image.chunks).take maxWebPChunks).find? (fun c => decide (c.fourCC = exif)) =
        image.exifChunk := by
      have hvp8x : decide (image.first.fourCC = exif) = false := decide_eq_false (by decide : vp8x ≠ exif)
      change (image.first :: image.chunks.take (maxWebPChunks - 1)).find? _ = _
      rw [List.find?_cons, hvp8x]
      exact find?_take fun c hc => (h c hc).1
    rw [hfirst]
    cases hexif : image.exifChunk with
    | none => rfl
    | some c =>
      rw [Option.bind_some, if_neg (Nat.not_lt.mpr (h c hexif).2), Option.map_some]

/-! ## The first directory of a TIFF block -/

/-- An entry of a directory, as the block's byte order has it. -/
structure Entry where
  tag : Nat
  kind : Nat
  count : Nat
  value : Bytes
  tag_lt : tag < 256 ^ 2
  kind_lt : kind < 256 ^ 2
  count_lt : count < 256 ^ 4
  sized : value.length = 4

namespace Entry

variable (e : Entry) (order : ByteOrder)

def bytes : Bytes := order.number 2 e.tag ++ order.number 2 e.kind ++ order.number 4 e.count ++ e.value

/-- The value of an orientation entry, one SHORT from 1 to 8; 0 where it is no such thing. -/
def orientation : Nat :=
  let value := order.toNat (e.value.take 2)
  if e.kind = typeShort ∧ e.count = 1 ∧ 1 ≤ value ∧ value ≤ 8 then value else 0

theorem length_bytes : (e.bytes order).length = entrySize := by
  simp only [bytes, List.length_append, ByteOrder.length_number, e.sized]
  rfl

end Entry

structure Directory where
  entries : List Entry
  counted : entries.length < 256 ^ 2

namespace Directory

variable (dir : Directory) (order : ByteOrder)

def bytes : Bytes := order.number 2 dir.entries.length ++ dir.entries.flatMap (·.bytes order)

/-- What the first orientation entry says. -/
def orientation : Nat := ((dir.entries.find? fun e => e.tag = orientationTag).map (·.orientation order)).getD 0

end Directory

/-- A block whose first directory lies at an offset; of the rest of it nothing is said. -/
structure IsTIFF (order : ByteOrder) (offset : Nat) (dir : Directory) (tiff : Bytes) : Prop where
  header : byteOrderMark order ++ order.number 4 offset <+: tiff
  offset_lt : offset < 256 ^ 4
  directory : dir.bytes order <+: tiff.drop offset

/-- Where the fields of an entry at hand are. -/
theorem fields_of_entry {order : ByteOrder} {tiff rest : Bytes} {entry : Nat} {e : Entry}
    (hhere : tiff.drop entry = e.bytes order ++ rest) :
    tiff.drop entry = order.number 2 e.tag ++
        (order.number 2 e.kind ++ (order.number 4 e.count ++ (e.value ++ rest))) ∧
      tiff.drop (entry + 2) = order.number 2 e.kind ++ (order.number 4 e.count ++ (e.value ++ rest)) ∧
      tiff.drop (entry + 4) = order.number 4 e.count ++ (e.value ++ rest) ∧
      tiff.drop (entry + 8) = e.value ++ rest := by
  have htag : tiff.drop entry = order.number 2 e.tag ++
      (order.number 2 e.kind ++ (order.number 4 e.count ++ (e.value ++ rest))) := by
    rw [hhere, Entry.bytes]
    simp only [List.append_assoc]
  have hkind : tiff.drop (entry + 2) =
      order.number 2 e.kind ++ (order.number 4 e.count ++ (e.value ++ rest)) := by
    rw [← List.drop_drop, htag, List.drop_left' ByteOrder.length_number]
  have hcount : tiff.drop (entry + 4) = order.number 4 e.count ++ (e.value ++ rest) := by
    rw [show entry + 4 = entry + 2 + 2 from rfl, ← List.drop_drop, hkind, List.drop_left' ByteOrder.length_number]
  refine ⟨htag, hkind, hcount, ?_⟩
  rw [show entry + 8 = entry + 4 + 4 from rfl, ← List.drop_drop, hcount, List.drop_left' ByteOrder.length_number]

/-- The walk through a directory's entries finds the first orientation entry. -/
theorem tiffEntries_run {order : ByteOrder} {tiff rest : Bytes} (entries : List Entry) (entry : Nat)
    (hhere : tiff.drop entry = entries.flatMap (·.bytes order) ++ rest) :
    tiffEntries order tiff entries.length entry =
      .ok (((entries.find? fun e => e.tag = orientationTag).map (·.orientation order)).getD 0) := by
  induction entries generalizing entry with
  | nil => rfl
  | cons e entries ih =>
    rw [List.flatMap_cons, List.append_assoc] at hhere
    obtain ⟨htag, hkind, hcount, hvalue⟩ := fields_of_entry hhere
    have hroom : entry + entrySize ≤ tiff.length := by
      have hlength := congrArg List.length hhere
      rw [List.length_drop, List.length_append, e.length_bytes, entrySize] at hlength
      rw [entrySize]
      omega
    have hlast : entry + 8 + 2 ≤ tiff.length := by
      rw [entrySize] at hroom
      omega
    rw [List.length_cons, tiffEntries, if_neg (Nat.not_lt.mpr hroom),
      Bytes.uint_sliceFrom_number _ htag (by decide) e.tag_lt, List.find?_cons]
    by_cases horientation : e.tag = orientationTag
    · rw [if_neg (not_not_intro horientation), decide_eq_true horientation,
        Bytes.uint_sliceFrom_number _ hkind (by decide) e.kind_lt,
        Bytes.uint_sliceFrom_number _ hcount (by decide) e.count_lt, Bytes.uint_sliceFrom _ hlast, hvalue,
        List.take_append_of_le_length (by rw [e.sized]; decide)]
      simp only [Option.map_some, Option.getD_some, Entry.orientation]
      by_cases hshort : e.kind = typeShort ∧ e.count = 1
      · rw [if_neg (by simpa using hshort)]
        by_cases hvalid : 1 ≤ order.toNat (e.value.take 2) ∧ order.toNat (e.value.take 2) ≤ 8
        · rw [if_neg (by omega), if_pos ⟨hshort.1, hshort.2, hvalid⟩]
        · rw [if_pos (by omega), if_neg fun h => hvalid h.2.2]
      · rw [if_pos (not_and_or.mp hshort), if_neg fun h => hshort ⟨h.1, h.2.1⟩]
    · rw [if_pos horientation, decide_eq_false horientation]
      refine ih _ ?_
      rw [← List.drop_drop, hhere, List.drop_left' (e.length_bytes order)]

theorem byteOrder_mark (order : ByteOrder) : byteOrder (byteOrderMark order) = some order := by
  cases order <;> rfl

/-- The orientation of a block is its first directory's, wherever that lies and in either byte order. -/
theorem tiffOrientation_eq {order : ByteOrder} {offset : Nat} {dir : Directory} {tiff : Bytes}
    (h : IsTIFF order offset dir tiff) : tiffOrientation tiff = .ok (dir.orientation order) := by
  obtain ⟨⟨rest, hheader⟩, hoffset, ⟨after, hdirectory⟩⟩ := h
  have hmark : (byteOrderMark order).length = 4 := by cases order <;> rfl
  have hfour : (order.number 4 offset).length = 4 := ByteOrder.length_number
  have hlength : 8 ≤ tiff.length := by
    rw [← hheader, List.length_append, List.length_append, hmark, hfour]
    omega
  have hread : tiff.slice 0 4 = .ok (byteOrderMark order) ∧ tiff.slice 4 8 = .ok (order.number 4 offset) := by
    rw [← hheader, List.append_assoc]
    exact ⟨@Bytes.slice_append 0 4 [] _ _ rfl (by rw [hmark]), Bytes.slice_append hmark (by rw [hfour])⟩
  have hcount : uint order 4 (order.number 4 offset) = .ok offset := by
    have hread := @Bytes.uint_number [] _ 4 order hoffset
    rwa [List.append_nil] at hread
  rw [Directory.bytes, List.append_assoc] at hdirectory
  have hroom : offset + 2 ≤ tiff.length := by
    have hdir := congrArg List.length hdirectory
    rw [List.length_drop, List.length_append, ByteOrder.length_number] at hdir
    omega
  rw [tiffOrientation, if_neg (Nat.not_lt.mpr hlength), hread.1, Bytes.ok_bind, byteOrder_mark]
  dsimp only
  rw [hread.2, Bytes.ok_bind, hcount, Bytes.ok_bind, if_neg (Nat.not_lt.mpr hroom),
    Bytes.uint_sliceFrom_number _ hdirectory.symm (by decide) dir.counted]
  refine @tiffEntries_run order tiff after dir.entries _ ?_
  rw [← List.drop_drop, ← hdirectory, List.drop_left' ByteOrder.length_number]

/-! ## The walks -/

/-- **The header walks.** On any bytes, as either type, they end without reaching out of what they have, and the
orientation is at most 8. Off a JPEG's header within the limits the walk returns the first EXIF segment's block
and the frame header's code, whatever follows; off an extended WebP within them its EXIF chunk, less a JPEG's
prefix; and of a TIFF block the orientation of its first directory. -/
theorem header_walks :
    (∀ file contentType, ∃ v ≤ 8, exifOrientation file contentType = .ok v) ∧
      (∀ file, (∃ walked, jpegWalk file = .ok walked) ∧ (∃ found, webpExif file = .ok found) ∧
        ∃ v ≤ 8, tiffOrientation file = .ok v) ∧
      (∀ jpeg : JPEGHeader, jpeg.Within → ∀ rest,
        jpegWalk (jpeg.bytes ++ rest) = .ok (jpeg.tiff, jpeg.frame)) ∧
      (∀ image : ExtendedWebP, image.Within → ∀ rest,
        webpExif (image.bytes ++ rest) = .ok (image.exifChunk.map fun c => trimExifHeader c.payload)) ∧
      ∀ order offset dir tiff, IsTIFF order offset dir tiff →
        tiffOrientation tiff = .ok (dir.orientation order) :=
  ⟨exifOrientation_ok, fun file => ⟨jpegWalk_ok file, webpExif_ok file, tiffOrientation_ok file⟩,
    fun _ h => jpegWalk_bytes h, fun _ h => webpExif_bytes h, fun _ _ _ _ h => tiffOrientation_eq h⟩

/-- A directory of one entry, which says a quarter turn. -/
def turned : Directory where
  entries := [⟨orientationTag, typeShort, 1, [0, 6, 0, 0], by decide, by decide, by decide, rfl⟩]
  counted := by decide

def turnedBlock : Bytes := byteOrderMark .big ++ ByteOrder.big.number 4 8 ++ turned.bytes .big

/-- A photo whose EXIF segment has a fill byte before its code. -/
def turnedPhoto : JPEGHeader where
  segments := [(1, .holding 0xE1 (exifHeader ++ turnedBlock) (by decide) (by decide))]
  fill := 0
  frame := 0xC0
  starts := by decide

def turnedWebP : ExtendedWebP where
  flags := exifFlag
  settings := List.replicate 9 0
  chunks := [⟨exif, exifHeader ++ turnedBlock, rfl, by decide⟩]
  sized := rfl
  flagged := fun h => absurd h (by decide)
  fits := by decide

/-- Both hold the block, and it says so. -/
theorem turned_walks :
    jpegWalk (turnedPhoto.bytes ++ []) = .ok (some turnedBlock, 0xC0) ∧
      webpExif (turnedWebP.bytes ++ []) = .ok (some turnedBlock) ∧ tiffOrientation turnedBlock = .ok 6 := by
  obtain ⟨-, -, hjpeg, hwebp, htiff⟩ := header_walks
  refine ⟨hjpeg turnedPhoto (by decide) [], hwebp turnedWebP (fun c hc => ?_) [], ?_⟩
  · cases hc
    exact ⟨List.mem_cons_self, by decide⟩
  · exact htiff .big 8 turned turnedBlock ⟨by decide, by decide, by decide⟩

end Stoop.Files
