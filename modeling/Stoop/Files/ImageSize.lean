import Stoop.Lib.Bytes

/-!
# An image's EXIF orientation

`internal/files/image_size.go`: `exifOrientation` and the three walks under it. `jpegWalk` goes through a JPEG's
marker segments to its frame header, `webpExif` through a WebP's RIFF chunks to its EXIF chunk, and
`tiffOrientation` through the first directory of the TIFF block either holds.

A file is the bytes it has. A read past its end is an error the walks answer for; a slice past the bytes at hand
would be a fault of the program (`Lib.Fault`), and every number off the file is read through one.
-/

set_option autoImplicit false

namespace Stoop.Files

open Stoop.Lib
open Stoop.Lib.Bytes (readFull uint)

def maxExifBytes : Nat := 64 * 1024

/-- `"Exif\x00\x00"`. -/
def exifHeader : Bytes := [0x45, 0x78, 0x69, 0x66, 0x00, 0x00]

def maxJPEGSegments : Nat := 64
def maxJPEGWalk : Nat := 256 * 1024
def maxWebPChunks : Nat := 32

/-! ## JPEG -/

def isFrameHeader (code : UInt8) : Bool :=
  0xC0 ≤ code && code ≤ 0xCF && code != 0xC4 && code != 0xC8 && code != 0xCC

/-- TEM and the restart markers have no length. -/
def hasNoLength (code : UInt8) : Bool := code == 0x01 || (0xD0 ≤ code && code ≤ 0xD7)

/-- Not a marker, the end of the image or the start of the scan. -/
def stopsWalk (code : UInt8) : Bool := code == 0x00 || code == 0xD9 || code == 0xDA

/-- A marker's code, after any number of fill bytes. -/
def markerCode : Bytes → Option (UInt8 × Bytes)
  | [] => none
  | code :: reader => if code = 0xFF then markerCode reader else some (code, reader)

/-- The loop of `jpegWalk`: so many segments more, with the TIFF block found so far. -/
def jpegSegments : Nat → Option Bytes → Bytes → Except Fault (Option Bytes × UInt8)
  | 0, tiff, _ => .ok (tiff, 0)
  | _ + 1, tiff, [] => .ok (tiff, 0)
  | n + 1, tiff, first :: reader =>
    if first ≠ 0xFF then .ok (tiff, 0)
    else match markerCode reader with
      | none => .ok (tiff, 0)
      | some (code, reader) =>
        if isFrameHeader code then .ok (tiff, code)
        else if hasNoLength code then jpegSegments n tiff reader
        else if stopsWalk code then .ok (tiff, 0)
        else match readFull 2 reader with
          | none => .ok (tiff, 0)
          | some (lengthBytes, reader) => do
            let counted ← uint .big 2 lengthBytes
            -- the length counts its own two bytes
            if counted < 2 then .ok (tiff, 0)
            else
              let length := counted - 2
              if tiff.isSome ∨ code ≠ 0xE1 ∨ length < exifHeader.length then
                match readFull length reader with
                | none => .ok (tiff, 0)
                | some (_, reader) => jpegSegments n tiff reader
              else match readFull length reader with
                | none => .ok (none, 0)
                | some (segment, reader) =>
                  if exifHeader <+: segment then do
                    jpegSegments n (some (← segment.sliceFrom exifHeader.length)) reader
                  else jpegSegments n tiff reader

def jpegWalk (file : Bytes) : Except Fault (Option Bytes × UInt8) :=
  match readFull 2 (file.take maxJPEGWalk) with
  | none => .ok (none, 0)
  | some (soi, reader) => if soi = [0xFF, 0xD8] then jpegSegments maxJPEGSegments none reader else .ok (none, 0)

/-! ## WebP -/

def riff : Bytes := [0x52, 0x49, 0x46, 0x46]
def webp : Bytes := [0x57, 0x45, 0x42, 0x50]
def vp8x : Bytes := [0x56, 0x50, 0x38, 0x58]
def exif : Bytes := [0x45, 0x58, 0x49, 0x46]

def exifFlag : UInt8 := 0x08

/-- `bytes.TrimPrefix(payload, exifHeader)`. -/
def trimExifHeader (payload : Bytes) : Bytes :=
  if exifHeader <+: payload then payload.drop exifHeader.length else payload

/-- The loop of `webpExif`: so many chunks more, from a position. -/
def webpChunks (file : Bytes) (riffEnd : Nat) : Nat → Nat → Except Fault (Option Bytes)
  | 0, _ => .ok none
  | n + 1, position =>
    if riffEnd < position + 8 then .ok none
    -- a seek past the end is no error, and the read then finds nothing
    else match readFull 8 (file.drop position) with
      | none => .ok none
      | some (chunk, reader) => do
        let size ← uint .little 4 (← chunk.sliceFrom 4)
        if riffEnd < position + 8 + size then .ok none
        else if (← chunk.slice 0 4) = exif then
          if maxExifBytes < size then .ok none
          else match readFull size reader with
            | none => .ok none
            | some (payload, _) => .ok (some (trimExifHeader payload))
        -- chunks are padded to an even length
        else webpChunks file riffEnd n (position + 8 + size + size % 2)

def webpExif (file : Bytes) : Except Fault (Option Bytes) :=
  match readFull 21 file with
  | none => .ok none
  | some (header, _) => do
    if (← header.slice 0 4) ≠ riff ∨ (← header.slice 8 12) ≠ webp ∨ (← header.slice 12 16) ≠ vp8x ∨
        (← header.index 20) &&& exifFlag = 0 then .ok none
    else
      let riffEnd := 8 + (← uint .little 4 (← header.slice 4 8))
      -- the first chunk is VP8X itself
      webpChunks file riffEnd maxWebPChunks 12

/-! ## TIFF -/

/-- `II*\x00` or `MM\x00*`. -/
def byteOrderMark : ByteOrder → Bytes
  | .little => [0x49, 0x49, 0x2A, 0x00]
  | .big => [0x4D, 0x4D, 0x00, 0x2A]

def byteOrder (mark : Bytes) : Option ByteOrder :=
  if mark = byteOrderMark .little then some .little
  else if mark = byteOrderMark .big then some .big
  else none

def entrySize : Nat := 12
def orientationTag : Nat := 0x0112
def typeShort : Nat := 3

/-- The loop of `tiffOrientation`: so many entries more, from the one that begins at an offset. -/
def tiffEntries (order : ByteOrder) (tiff : Bytes) : Nat → Nat → Except Fault Nat
  | 0, _ => .ok 0
  | n + 1, entry =>
    if tiff.length < entry + entrySize then .ok 0
    else do
      if (← uint order 2 (← tiff.sliceFrom entry)) ≠ orientationTag then
        tiffEntries order tiff n (entry + entrySize)
      -- one SHORT, held in the first two bytes of the value field
      else if (← uint order 2 (← tiff.sliceFrom (entry + 2))) ≠ typeShort ∨
          (← uint order 4 (← tiff.sliceFrom (entry + 4))) ≠ 1 then .ok 0
      else
        let value ← uint order 2 (← tiff.sliceFrom (entry + 8))
        if value < 1 ∨ 8 < value then .ok 0 else .ok value

def tiffOrientation (tiff : Bytes) : Except Fault Nat :=
  if tiff.length < 8 then .ok 0
  else do
    match byteOrder (← tiff.slice 0 4) with
    | none => .ok 0
    | some order =>
      let ifd ← uint order 4 (← tiff.slice 4 8)
      if tiff.length < ifd + 2 then .ok 0
      else
        let count ← uint order 2 (← tiff.sliceFrom ifd)
        tiffEntries order tiff count (ifd + 2)

/-! ## The orientation -/

def exifOrientation (file : Bytes) (contentType : String) : Except Fault Nat := do
  let tiff ← match contentType with
    | "image/jpeg" => do .ok (← jpegWalk file).1
    | "image/webp" => webpExif file
    | _ => .ok none
  match tiff with
  | none => .ok 0
  | some tiff => tiffOrientation tiff

end Stoop.Files
