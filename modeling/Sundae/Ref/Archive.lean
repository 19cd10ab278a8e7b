import Sundae.Ref.Buffer

/-!
# Archives

libjag: an archive of entries by the hash of their names, and the map files in
it. Bytes are a list, and a pointer into them is what follows it. What bzlib
makes of packed bytes is a parameter.
-/

namespace Sundae.Ref

def bufGetu24 (b : List Nat) (offset : Nat) : Option Nat :=
  match b[offset]?, b[offset + 1]?, b[offset + 2]? with
  | some x, some y, some z => some (x * 65536 + y * 256 + z)
  | _, _, _ => none

/-- `jag_bzip2_decompress`, by the packed bytes and the unpacked length. -/
abbrev Bzip2 := List Nat → Nat → Option (List Nat)

/-! ## Entries -/

/-- `struct jag_entry`, but for `must_free`. -/
structure JagEntry where
  nameHash : Nat
  unpackedLen : Nat
  packedLen : Nat
  data : List Nat := []
  deriving DecidableEq, Repr

def jagEntryHeaderSize : Nat := 10
def jagPerFileMetadataStart : Nat := 2

def jagReadEntry (b : List Nat) (off : Nat) : Option JagEntry :=
  match bufGetu32 b off, bufGetu24 b (off + 4), bufGetu24 b (off + 7) with
  | some nameHash, some unpackedLen, some packedLen => some { nameHash, unpackedLen, packedLen }
  | _, _, _ => none

/-- `hash * 61 + toupper(c) - 32` in `uint32_t`, one character after another. -/
def jagHashEntryName (s : List Char) : Nat :=
  s.foldl (fun hash c => (hash * 61 + c.toUpper.toNat + (4294967296 - 32)) % 4294967296) 0

/-- The loop of `jag_find_entry` from the `i`-th entry on, with `n` to go. -/
def jagFindLoop (b : List Nat) (targetHash : Nat) : Nat → Nat → Nat → Option JagEntry
  | 0, _, _ => none
  | n + 1, i, offset =>
    match jagReadEntry b (jagPerFileMetadataStart + jagEntryHeaderSize * i) with
    | none => none
    | some entry =>
      if entry.nameHash = targetHash then some { entry with data := b.drop offset }
      else jagFindLoop b targetHash n (i + 1) (offset + entry.packedLen)

def jagFindEntry (b : List Nat) (name : List Char) : Option JagEntry :=
  match bufGetu16 b 0 with
  | none => none
  | some numEntries =>
    jagFindLoop b (jagHashEntryName name) numEntries 0
      (jagPerFileMetadataStart + numEntries * jagEntryHeaderSize)

/-- The data of an entry, unpacked. -/
def jagUnpackEntry (bzip2 : Bzip2) (entry : JagEntry) : Option (List Nat) :=
  if entry.packedLen = entry.unpackedLen then some entry.data
  else bzip2 (entry.data.take entry.packedLen) entry.unpackedLen

/-- `jag_read_header` and the rest of `jag_unpack_file`, from the bytes of the
file. -/
def jagUnpackFile (bzip2 : Bzip2) (f : List Nat) : Option (List Nat) :=
  match bufGetu24 f 0, bufGetu24 f 3 with
  | some unpackedLen, some packedLen =>
    let packed := (f.drop 6).take packedLen
    if packed.length ≠ packedLen then none
    else if unpackedLen = packedLen then some packed
    else bzip2 packed unpackedLen
  | _, _ => none

/-! ## Map files -/

def jagMapChunkSize : Nat := 48
def jagMapChunkArea : Nat := 2304

/-- `struct jag_tile` -/
structure JagTile where
  height : Nat := 0
  colour : Nat := 0
  boundHoriz : Nat := 0
  boundVert : Nat := 0
  boundDiag : Nat := 0
  roof : Nat := 0
  overlay : Nat := 0
  locDirection : Nat := 0
  deriving DecidableEq, Repr

/-- A loop of `jag_map_read_jm`, with `n` tiles to go: `width` bytes to a tile. -/
def readLayer (get : Nat → Option Nat) (width : Nat) : Nat → Nat → Option (List Nat)
  | 0, _ => some []
  | n + 1, offset =>
    match get offset with
    | none => none
    | some val => (readLayer get width n (offset + width)).map (val :: ·)

/-- `jag_map_read_jm`: eight layers, of which the fifth has two bytes to a tile. -/
def jagMapReadJm (b : List Nat) (len : Nat) : Option (Nat → JagTile) :=
  let u8 := readLayer (bufGetu8 (b.take len)) 1 jagMapChunkArea
  let u16 := readLayer (bufGetu16 (b.take len)) 2 jagMapChunkArea
  match u8 0, u8 2304, u8 4608, u8 6912, u16 9216, u8 13824, u8 16128, u8 18432 with
  | some height, some colour, some boundHoriz, some boundVert, some boundDiag, some roof,
    some overlay, some locDirection =>
    some fun i =>
      { height := height.getD i 0, colour := colour.getD i 0
        boundHoriz := boundHoriz.getD i 0, boundVert := boundVert.getD i 0
        boundDiag := boundDiag.getD i 0, roof := roof.getD i 0, overlay := overlay.getD i 0
        locDirection := locDirection.getD i 0 }
  | _, _, _, _, _, _, _, _ => none

end Sundae.Ref
