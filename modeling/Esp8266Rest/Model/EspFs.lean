import Esp8266Rest.Lib.CStr
import Esp8266Rest.Lib.Layout
import Esp8266Rest.Lib.Texts

/-!
# Images of files (`mkespfsimage/main.c`, `espfs.c_`)

`mkespfsimage` writes the files whose names it reads into one image, on a little-endian host; `espFsOpen`
looks for a file in the image that lies in flash, and `espFsRead` reads it in pieces.  What the encoder of
the compressed files does is a parameter.  `EFS_HEATSHRINK` is defined nowhere, so the reader has no
decoder.  A pointer into flash is an integer.
-/

namespace Esp8266Rest.Model

open Esp8266Rest.Lib.CStr Esp8266Rest.Lib.Layout Esp8266Rest.Lib.Texts

/-- `EspFsHeader` -/
structure EspFsHeader where
  magic : Int32
  flags : Int8
  compression : Int8
  nameLen : Int16
  fileLenComp : Int32
  fileLenDecomp : Int32
  deriving DecidableEq, Repr

/-- The `packed` header in memory. -/
def espFsHeader : Codec EspFsHeader :=
  (Codec.int32.prod (Codec.int8.prod (Codec.int8.prod (Codec.int16.prod
    (Codec.int32.prod Codec.int32))))).map
    ⟨fun ⟨m, f, c, n, l, d⟩ => ⟨m, f, c, n, l, d⟩,
      fun h => (h.magic, h.flags, h.compression, h.nameLen, h.fileLenComp, h.fileLenDecomp),
      fun _ => rfl, fun _ => rfl⟩

/-- `sizeof(EspFsHeader)` -/
def headerSize : ℕ := 16

def flagLastfile : Int8 := 1

def compressNone : Int8 := 0

def compressHeatshrink : Int8 := 1

/-- `"ESfs"` -/
def espFsMagic : Int32 := 0x73665345

/-! ### The image -/

section Image

variable (compress : Bytes → Bytes)

/-- "Round to next 32bit boundary" -/
def roundUp (n : ℕ) : ℕ := if n % 4 ≠ 0 then n + (4 - n % 4) else n

/-- The compression and the data that a file is stored with; `main` passes one of the two kinds.  A file that
compressing makes longer is stored as it is. -/
def storedAs (compression : Int8) (fdat : Bytes) : Int8 × Bytes :=
  if compression = compressNone then (compressNone, fdat)
  else if fdat.length < (compress fdat).length then (compressNone, fdat)
  else (compressHeatshrink, compress fdat)

/-- What `handleFile` writes; `name` is the memory from the name on, of which it writes up to the next
boundary.  An empty file cannot be mapped, and nothing is written. -/
def handleFile (compression : Int8) (name fdat : Bytes) : Bytes :=
  if fdat = [] then []
  else
    let (compression, cdat) := storedAs compress compression fdat
    let nameLen := roundUp ((cstr name).length + 1)
    espFsHeader.enc
        { magic := espFsMagic, flags := 0, compression, nameLen := Int16.ofNat nameLen,
          fileLenComp := Int32.ofNat cdat.length, fileLenDecomp := Int32.ofNat fdat.length } ++
      name.take nameLen ++ cdat ++ List.replicate (roundUp cdat.length - cdat.length) 0

/-- What `finishArchive` writes. -/
def finishArchive : Bytes :=
  espFsHeader.enc
    { magic := espFsMagic, flags := flagLastfile, compression := compressNone, nameLen := 0,
      fileLenComp := 0, fileLenDecomp := 0 }

/-- A file that `main` comes to: the memory from the buffer with its name on, and its contents. -/
structure HostFile where
  fileName : Bytes
  data : Bytes
  deriving DecidableEq, Repr

/-- "Strip off './' or '/' madness." -/
def realName (fileName : Bytes) : Bytes :=
  let name := if fileName.head? = some 46 then fileName.drop 1 else fileName
  if name.head? = some 47 then name.drop 1 else name

/-- What `main` writes for these files. -/
def mkespfsimage (compression : Int8) (files : List HostFile) : Bytes :=
  files.flatMap (fun f => handleFile compress compression (realName f.fileName) f.data) ++ finishArchive

end Image

/-! ### The reader -/

/-- `EspFsFile` -/
structure EspFsFile where
  header : ℤ
  decompressor : Int8
  posDecomp : ℤ
  posStart : ℤ
  posComp : ℤ
  deriving DecidableEq, Repr

section Reader

variable (flash : Mem)

/-- `memcpyAligned` reads aligned words only. -/
def memcpyAligned (src : ℤ) (len : ℕ) : Bytes :=
  (List.range len).map fun x : ℕ =>
    let b := (src + x) % 4
    let w := Codec.word.dec (flash.slice (src + x - b) 4)
    if b = 0 then w.toUInt8
    else if b = 1 then (w >>> 8).toUInt8
    else if b = 2 then (w >>> 16).toUInt8
    else (w >>> 24).toUInt8

/-- The loop of `espFsOpen` at `p`, at most `fuel` times; `stack` is what lies behind `namebuf`, and `malloc`
says whether there is memory.  `some none` is a null pointer. -/
def findFile (stack : Bytes) (malloc : Bool) (fileName : Bytes) : ℕ → ℤ → Option (Option EspFsFile)
  | 0, _ => none
  | fuel + 1, p =>
    let h := espFsHeader.dec (flash.slice p headerSize)
    if h.magic ≠ espFsMagic then some none
    else if h.flags &&& flagLastfile ≠ 0 then some none
    else
      let hpos := p
      let p := p + headerSize
      if cstr (flash.slice p 256 ++ stack) = fileName then
        let p := p + h.nameLen.toInt
        if malloc then
          if h.compression = compressNone then
            some (some { header := hpos, decompressor := h.compression, posDecomp := 0, posStart := p,
                         posComp := p })
          else some none
        else some none
      else
        let p := p + (h.nameLen.toInt + h.fileLenComp.toInt)
        findFile stack malloc fileName fuel (if p % 4 ≠ 0 then p + (4 - p % 4) else p)

/-- `ESPFS_POS`, where flash is mapped. -/
def espFsPos : ℤ := 0x12000 + 0x40200000

/-- `espFsOpen`, with the loop run at most `fuel` times. -/
def espFsOpen (stack : Bytes) (malloc : Bool) (fuel : ℕ) (fileName : Bytes) : Option (Option EspFsFile) :=
  findFile flash stack malloc ((cstr fileName).dropWhile (· = 47)) fuel espFsPos

/-- `espFsRead` on an open file: the bytes that it puts into `buff`, and its result. -/
def espFsRead (fh : EspFsFile) (len : ℤ) : EspFsFile × Bytes × ℤ :=
  let flen := (Codec.word.dec (memcpyAligned flash (fh.header + 8) 4)).toInt32
  if fh.decompressor = compressNone then
    let toRead := flen.toInt - (fh.posComp - fh.posStart)
    let len := if len > toRead then toRead else len
    ({ fh with posDecomp := fh.posDecomp + len, posComp := fh.posComp + len },
      memcpyAligned flash fh.posComp len.toNat, len)
  else (fh, [], 0)

end Reader

end Esp8266Rest.Model
