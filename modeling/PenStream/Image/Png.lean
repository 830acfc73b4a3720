import PenStream.Canvas.Basic

namespace PenStream.Png

-- The content of an image file or of a part of it.
abbrev Bytes := List UInt8

def signature : Bytes :=
  [0x89, 0x50, 0x4E, 0x47, 0x0D, 0x0A, 0x1A, 0x0A]

def bigEndian (n : UInt32) : Bytes :=
  [(n >>> 24).toUInt8, (n >>> 16).toUInt8, (n >>> 8).toUInt8, n.toUInt8]

def littleEndian (n : UInt16) : Bytes :=
  [n.toUInt8, (n >>> 8).toUInt8]

def crcBit (c : UInt32) : UInt32 :=
  if c &&& 1 = 1 then (0xEDB88320 : UInt32) ^^^ (c >>> 1) else c >>> 1

def crcByte (c : UInt32) (b : UInt8) : UInt32 :=
  crcBit <| crcBit <| crcBit <| crcBit <| crcBit <| crcBit <| crcBit <| crcBit <| c ^^^ b.toUInt32

-- The cyclic redundancy check of a chunk.
def crc (bytes : Bytes) : UInt32 :=
  bytes.foldl crcByte 0xFFFFFFFF ^^^ 0xFFFFFFFF

-- The checksum of the stored bytes: their sum, and the sum of their sums.
def adler (bytes : Bytes) : UInt32 :=
  let (a, b) := bytes.foldl (fun (a, b) x =>
    let a := (a + x.toUInt32) % 65521
    (a, (b + a) % 65521)) ((1 : UInt32), (0 : UInt32))
  (b <<< 16) ||| a

-- A named part of the file, with its length in front and its check behind.
def chunk (name : String) (content : Bytes) : Bytes :=
  let named := name.toUTF8.toList ++ content
  bigEndian (.ofNat content.length) ++ named ++ bigEndian (crc named)

-- The bytes in stored blocks, of which `n` are full.
def storedBlocks : (n : Nat) → Bytes → Bytes
  | 0,     bytes =>
    let size : UInt16 := .ofNat bytes.length
    1 :: littleEndian size ++ littleEndian (size ^^^ 0xFFFF) ++ bytes
  | n + 1, bytes =>
    0 :: littleEndian 0xFFFF ++ littleEndian 0 ++ bytes.take 0xFFFF ++
      storedBlocks n (bytes.drop 0xFFFF)

def stored (bytes : Bytes) : Bytes :=
  [0x78, 0x01] ++ storedBlocks (bytes.length / 0xFFFF) bytes ++ bigEndian (adler bytes)

variable {s : Size}

-- The rows, each after the number of a filter that changes nothing.
def scanlines (c : Canvas s) : Bytes :=
  (List.finRange s.height).flatMap fun y =>
    0 :: (List.finRange s.width).flatMap fun x => (c.get ⟨x, y⟩).bytes

def header (s : Size) : Bytes :=
  bigEndian (.ofNat s.width) ++ bigEndian (.ofNat s.height) ++ [8, 6, 0, 0, 0]

def encode (c : Canvas s) : ByteArray :=
  ⟨(signature ++ chunk "IHDR" (header s) ++ chunk "IDAT" (stored (scanlines c)) ++
    chunk "IEND" []).toArray⟩

end PenStream.Png
