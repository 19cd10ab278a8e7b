import Mathlib.Data.Nat.ModEq
import Sundae.Ref.MapLoad

/-!
# What the loader finds in an archive

The writer is not in the repository, so it is written here: the headers of the
files one after another, then what they hold, packed or as it is. The reader
keeps two offsets, one into each part, and what an offset stands for is what is
left of the part behind it. That is the invariant of its loop.

A file is found by the hash of its name alone. The names of two chunks have
different hashes, so each chunk of the map gets its own file.
-/

namespace Sundae.Proofs

open Sundae.Ref

/-! ## Writing -/

def u16Bytes (n : Nat) : List Nat := [n / 256, n % 256]

def u24Bytes (n : Nat) : List Nat := [n / 65536, n / 256 % 256, n % 256]

def u32Bytes (n : Nat) : List Nat := [n / 16777216, n / 65536 % 256, n / 256 % 256, n % 256]

/-- What may be written in place of the data: the data, or bytes of another
length that bzlib makes the data of. -/
structure Packing (bzip2 : Bzip2) (data : List Nat) where
  bytes : List Nat
  unpacks : bytes = data ∨ bytes.length ≠ data.length ∧ bzip2 bytes data.length = some data

/-- The data as it is. -/
def Packing.stored (bzip2 : Bzip2) (data : List Nat) : Packing bzip2 data := ⟨data, .inl rfl⟩

structure ArchiveFile where
  nameHash : Nat
  unpackedLen : Nat
  bytes : List Nat

def ArchiveFile.header (file : ArchiveFile) : List Nat :=
  u32Bytes file.nameHash ++ u24Bytes file.unpackedLen ++ u24Bytes file.bytes.length

def archiveBytes (files : List ArchiveFile) : List Nat :=
  u16Bytes files.length ++ files.flatMap ArchiveFile.header ++ files.flatMap ArchiveFile.bytes

def jagFileBytes {bzip2 : Bzip2} {archive : List Nat} (p : Packing bzip2 archive) : List Nat :=
  u24Bytes archive.length ++ u24Bytes p.bytes.length ++ p.bytes

/-- The eight layers of a map file. -/
def jmBytes (tiles : List JagTile) : List Nat :=
  tiles.map JagTile.height ++ (tiles.map JagTile.colour ++ (tiles.map JagTile.boundHoriz ++
    (tiles.map JagTile.boundVert ++ (tiles.flatMap (fun t => u16Bytes t.boundDiag) ++
      (tiles.map JagTile.roof ++ (tiles.map JagTile.overlay ++ tiles.map JagTile.locDirection))))))

/-! ## Numbers -/

section Numbers

variable {b rest : List Nat} {off n : Nat}

theorem getElem?_of_drop {l : List Nat} (h : b.drop off = l) (i : Nat) : b[off + i]? = l[i]? := by
  rw [← h, List.getElem?_drop]

theorem bufGetu8_of_drop (h : b.drop off = n :: rest) : bufGetu8 b off = some n := by
  simpa [bufGetu8] using getElem?_of_drop h 0

theorem bufGetu16_of_drop (h : b.drop off = u16Bytes n ++ rest) : bufGetu16 b off = some n := by
  have h0 := getElem?_of_drop h 0
  have h1 := getElem?_of_drop h 1
  simp only [u16Bytes, List.cons_append, List.nil_append, List.getElem?_cons_zero,
    List.getElem?_cons_succ, Nat.add_zero] at h0 h1
  simp only [bufGetu16, h0, h1]
  congr 1
  omega

theorem bufGetu24_of_drop (h : b.drop off = u24Bytes n ++ rest) : bufGetu24 b off = some n := by
  have h0 := getElem?_of_drop h 0
  have h1 := getElem?_of_drop h 1
  have h2 := getElem?_of_drop h 2
  simp only [u24Bytes, List.cons_append, List.nil_append, List.getElem?_cons_zero,
    List.getElem?_cons_succ, Nat.add_zero] at h0 h1 h2
  simp only [bufGetu24, h0, h1, h2]
  congr 1
  omega

theorem bufGetu32_of_drop (h : b.drop off = u32Bytes n ++ rest) : bufGetu32 b off = some n := by
  have hhigh : b.drop off = u16Bytes (n / 65536) ++ (u16Bytes (n % 65536) ++ rest) := by
    have h0 : n / 16777216 = n / 65536 / 256 := by omega
    have h2 : n / 256 % 256 = n % 65536 / 256 := by omega
    have h3 : n % 256 = n % 65536 % 256 := by omega
    rw [h, u32Bytes, h0, h2, h3]
    rfl
  have hlow : b.drop (off + 2) = u16Bytes (n % 65536) ++ rest := by
    rw [← List.drop_drop, hhigh]
    rfl
  simp only [bufGetu32, bufGetu16_of_drop hhigh, bufGetu16_of_drop hlow]
  congr 1
  omega

end Numbers

/-! ## Finding an entry -/

/-- The first of the files with the hash, as the reader gives it: what it holds
is a pointer, so the files after it follow. -/
def firstWith (hash : Nat) : List ArchiveFile → Option JagEntry
  | [] => none
  | file :: rest =>
    if file.nameHash = hash then
      some ⟨file.nameHash, file.unpackedLen, file.bytes.length,
        file.bytes ++ rest.flatMap ArchiveFile.bytes⟩
    else firstWith hash rest

theorem jagReadEntry_of_drop {b rest : List Nat} {off : Nat} {file : ArchiveFile}
    (h : b.drop off = file.header ++ rest) :
    jagReadEntry b off = some ⟨file.nameHash, file.unpackedLen, file.bytes.length, []⟩ := by
  rw [ArchiveFile.header, List.append_assoc, List.append_assoc] at h
  have hlen : b.drop (off + 4) =
      u24Bytes file.unpackedLen ++ (u24Bytes file.bytes.length ++ rest) := by
    rw [← List.drop_drop, h]
    rfl
  have hpacked : b.drop (off + 7) = u24Bytes file.bytes.length ++ rest := by
    rw [← List.drop_drop, h]
    rfl
  simp only [jagReadEntry, bufGetu32_of_drop h, bufGetu24_of_drop hlen, bufGetu24_of_drop hpacked]

/-- The loop, from where the two offsets are. -/
theorem jagFindLoop_of_drop {b : List Nat} (rest : List Nat) (hash : Nat)
    {files : List ArchiveFile} : ∀ {i offset : Nat},
      b.drop (jagPerFileMetadataStart + jagEntryHeaderSize * i) =
        files.flatMap ArchiveFile.header ++ rest →
      b.drop offset = files.flatMap ArchiveFile.bytes →
      jagFindLoop b hash files.length i offset = firstWith hash files := by
  induction files with
  | nil =>
      intro i offset _ _
      rfl
  | cons file files ih =>
      intro i offset hheaders hdata
      rw [List.flatMap_cons, List.append_assoc] at hheaders
      rw [List.flatMap_cons] at hdata
      simp only [List.length_cons, jagFindLoop, jagReadEntry_of_drop hheaders, firstWith]
      split
      · rw [hdata]
      · refine ih ?_ ?_
        · rw [Nat.mul_succ, ← Nat.add_assoc, ← List.drop_drop, hheaders]
          rfl
        · rw [← List.drop_drop, hdata, List.drop_left]

theorem flatMap_header_length (files : List ArchiveFile) :
    (files.flatMap ArchiveFile.header).length = files.length * jagEntryHeaderSize := by
  induction files with
  | nil => rfl
  | cons file files ih =>
      rw [List.flatMap_cons, List.length_append, ih, List.length_cons, Nat.succ_mul]
      show jagEntryHeaderSize + _ = _
      omega

/-- A name finds the first file with its hash. -/
theorem jagFindEntry_archive (files : List ArchiveFile) (name : List Char) :
    jagFindEntry (archiveBytes files) name = firstWith (jagHashEntryName name) files := by
  have hcount : (archiveBytes files).drop 0 = u16Bytes files.length ++
      (files.flatMap ArchiveFile.header ++ files.flatMap ArchiveFile.bytes) := by
    rw [List.drop_zero, archiveBytes, List.append_assoc]
  simp only [jagFindEntry, bufGetu16_of_drop hcount]
  refine jagFindLoop_of_drop (files.flatMap ArchiveFile.bytes) _ ?_ ?_
  · rw [archiveBytes, List.append_assoc]
    rfl
  · rw [archiveBytes]
    refine List.drop_left' ?_
    rw [List.length_append, flatMap_header_length]
    rfl

/-! ## Unpacking -/

/-- What an entry unpacks to begins with what was packed. -/
theorem jagUnpackEntry_packing {bzip2 : Bzip2} {data : List Nat} (p : Packing bzip2 data)
    (hash : Nat) (rest : List Nat) :
    ∃ out, jagUnpackEntry bzip2 ⟨hash, data.length, p.bytes.length, p.bytes ++ rest⟩ = some out ∧
      out.take data.length = data := by
  rcases p.unpacks with hstored | ⟨hlen, hbzip2⟩
  · refine ⟨p.bytes ++ rest, ?_, ?_⟩
    · simp only [jagUnpackEntry, hstored, if_true]
    · rw [hstored, List.take_left]
  · refine ⟨data, ?_, List.take_length⟩
    simp only [jagUnpackEntry, if_neg hlen, List.take_left, hbzip2]

theorem jagUnpackFile_packing {bzip2 : Bzip2} {archive : List Nat} (p : Packing bzip2 archive) :
    jagUnpackFile bzip2 (jagFileBytes p) = some archive := by
  have hunpacked : (jagFileBytes p).drop 0 =
      u24Bytes archive.length ++ (u24Bytes p.bytes.length ++ p.bytes) := by
    rw [List.drop_zero, jagFileBytes, List.append_assoc]
  have hpacked : (jagFileBytes p).drop 3 = u24Bytes p.bytes.length ++ p.bytes := rfl
  have hbytes : (jagFileBytes p).drop 6 = p.bytes := rfl
  simp only [jagUnpackFile, bufGetu24_of_drop hunpacked, bufGetu24_of_drop hpacked, hbytes,
    List.take_length, ne_eq, not_true, if_false]
  rcases p.unpacks with hstored | ⟨hlen, hbzip2⟩
  · rw [hstored, if_pos rfl]
  · rw [if_neg (Ne.symm hlen), hbzip2]

/-! ## Map files -/

/-- A layer is read back, and the next begins where it ends. -/
theorem readLayer_of_drop {b rest : List Nat} {get : Nat → Option Nat} {width : Nat}
    {enc : Nat → List Nat} (hwidth : ∀ n, (enc n).length = width)
    (hget : ∀ off n rest, b.drop off = enc n ++ rest → get off = some n) :
    ∀ {l : List Nat} {off : Nat}, b.drop off = l.flatMap enc ++ rest →
      readLayer get width l.length off = some l ∧ b.drop (off + width * l.length) = rest := by
  intro l
  induction l with
  | nil =>
      intro off h
      exact ⟨rfl, by simpa using h⟩
  | cons n l ih =>
      intro off h
      rw [List.flatMap_cons, List.append_assoc] at h
      have hnext : b.drop (off + width) = l.flatMap enc ++ rest := by
        rw [← List.drop_drop, h]
        exact List.drop_left' (hwidth n)
      obtain ⟨hread, hrest⟩ := ih hnext
      refine ⟨?_, ?_⟩
      · rw [List.length_cons, readLayer, hget off n _ h, hread]
        rfl
      · rw [← hrest, List.length_cons, Nat.mul_succ, Nat.add_assoc, Nat.add_comm width]

theorem flatMap_singleton (l : List Nat) : l.flatMap (fun n => [n]) = l := by
  induction l with
  | nil => rfl
  | cons n l ih => rw [List.flatMap_cons, ih, List.singleton_append]

section Layers

variable {b rest : List Nat} {tiles : List JagTile} {off : Nat}

theorem readLayer_u8 {f : JagTile → Nat} (harea : tiles.length = jagMapChunkArea)
    (h : b.drop off = tiles.map f ++ rest) :
    readLayer (bufGetu8 b) 1 jagMapChunkArea off = some (tiles.map f) ∧
      b.drop (off + 2304) = rest := by
  have hwidth : ∀ n : Nat, [n].length = 1 := fun _ => rfl
  have hlayer := readLayer_of_drop (l := tiles.map f) hwidth (fun _ _ _ => bufGetu8_of_drop)
    (by rw [flatMap_singleton]; exact h)
  rw [List.length_map, harea] at hlayer
  exact hlayer

theorem readLayer_u16 (harea : tiles.length = jagMapChunkArea)
    (h : b.drop off = tiles.flatMap (fun t => u16Bytes t.boundDiag) ++ rest) :
    readLayer (bufGetu16 b) 2 jagMapChunkArea off = some (tiles.map JagTile.boundDiag) ∧
      b.drop (off + 4608) = rest := by
  have hwidth : ∀ n, (u16Bytes n).length = 2 := fun _ => rfl
  have hlayer := readLayer_of_drop (l := tiles.map JagTile.boundDiag) hwidth
    (fun _ _ _ => bufGetu16_of_drop) (by rw [List.flatMap_map]; exact h)
  rw [List.length_map, harea] at hlayer
  exact hlayer

end Layers

/-- The tiles of a map file are read back. -/
theorem jagMapReadJm_jmBytes {tiles : List JagTile} (harea : tiles.length = jagMapChunkArea)
    {b : List Nat} (hb : b.take (jmBytes tiles).length = jmBytes tiles) :
    jagMapReadJm b (jmBytes tiles).length = some fun i => tiles.getD i {} := by
  obtain ⟨h0, hd⟩ := readLayer_u8 harea (List.drop_zero.trans rfl : (jmBytes tiles).drop 0 = _)
  obtain ⟨h1, hd⟩ := readLayer_u8 harea hd
  obtain ⟨h2, hd⟩ := readLayer_u8 harea hd
  obtain ⟨h3, hd⟩ := readLayer_u8 harea hd
  obtain ⟨h4, hd⟩ := readLayer_u16 harea hd
  obtain ⟨h5, hd⟩ := readLayer_u8 harea hd
  obtain ⟨h6, hd⟩ := readLayer_u8 harea hd
  obtain ⟨h7, -⟩ := readLayer_u8 harea (hd.trans (List.append_nil _).symm)
  simp only [jagMapReadJm, hb]
  simp only [Nat.zero_add, Nat.reduceAdd] at h0 h1 h2 h3 h4 h5 h6 h7
  simp only [h0, h1, h2, h3, h4, h5, h6, h7]
  congr 1
  funext i
  by_cases hi : i < tiles.length
  · simp [List.getD, hi]
  · simp [List.getD, Nat.le_of_not_lt hi]

/-! ## The names of the chunks -/

/-- The hash of a name, before it is cut to 32 bits. -/
theorem foldl_hash (l : List Char) (hash : Nat) :
    l.foldl (fun hash c => (hash * 61 + c.toUpper.toNat + (4294967296 - 32)) % 4294967296)
        (hash % 4294967296) =
      l.foldl (fun hash c => hash * 61 + c.toUpper.toNat + (4294967296 - 32)) hash %
        4294967296 := by
  induction l generalizing hash with
  | nil => rfl
  | cons c l ih =>
      have hstep : (hash % 4294967296 * 61 + c.toUpper.toNat + (4294967296 - 32)) % 4294967296 =
          (hash * 61 + c.toUpper.toNat + (4294967296 - 32)) % 4294967296 := by omega
      rw [List.foldl_cons, List.foldl_cons, hstep, ih]

theorem digitChar_toUpper {d : Nat} (h : d < 10) : (Nat.digitChar d).toUpper.toNat = 48 + d := by
  revert d
  decide

/-- The number a name spells in base 61. -/
def mapNumber (plane x y : Nat) : Nat :=
  13845841 * plane + 226981 * (x / 10) + 3721 * (x % 10) + 61 * (y / 10) + y % 10

theorem jagHashEntryName_mapName {plane x y : Nat} (hplane : plane < 10) (hx : x < 100)
    (hy : y < 100) : jagHashEntryName (mapName plane x y) =
      (226981 * (mapNumber plane x y + 38232059225) + 54701) % 4294967296 := by
  have hfold := foldl_hash (mapName plane x y) 0
  rw [Nat.zero_mod] at hfold
  rw [jagHashEntryName, hfold]
  have hm : ('m' : Char).toUpper.toNat = 77 := rfl
  have hdot : ('.' : Char).toUpper.toNat = 46 := rfl
  have hj : ('j' : Char).toUpper.toNat = 74 := rfl
  simp only [mapName, List.foldl_cons, List.foldl_nil, digitChar_toUpper hplane,
    digitChar_toUpper (show x / 10 < 10 by omega), digitChar_toUpper (show x % 10 < 10 by omega),
    digitChar_toUpper (show y / 10 < 10 by omega), digitChar_toUpper (show y % 10 < 10 by omega),
    hm, hdot, hj, mapNumber]
  omega

theorem mapNumber_lt {plane x y : Nat} (hplane : plane < 10) (hx : x < 100) (hy : y < 100) :
    mapNumber plane x y < 4294967296 := by
  unfold mapNumber
  omega

theorem mapNumber_inj {plane x y plane' x' y' : Nat} (hx : x < 100) (hy : y < 100)
    (hx' : x' < 100) (hy' : y' < 100) (h : mapNumber plane x y = mapNumber plane' x' y') :
    plane = plane' ∧ x = x' ∧ y = y' := by
  unfold mapNumber at h
  omega

/-- Two chunks have names of different hashes: 61 is odd, and the digits are
too few to come round. -/
theorem jagHashEntryName_inj {plane x y plane' x' y' : Nat} (hplane : plane < 10) (hx : x < 100)
    (hy : y < 100) (hplane' : plane' < 10) (hx' : x' < 100) (hy' : y' < 100)
    (h : jagHashEntryName (mapName plane x y) = jagHashEntryName (mapName plane' x' y')) :
    plane = plane' ∧ x = x' ∧ y = y' := by
  rw [jagHashEntryName_mapName hplane hx hy, jagHashEntryName_mapName hplane' hx' hy'] at h
  have hmul : 226981 * (mapNumber plane x y + 38232059225) ≡
      226981 * (mapNumber plane' x' y' + 38232059225) [MOD 4294967296] :=
    Nat.ModEq.add_right_cancel' _ h
  have hsum := Nat.ModEq.cancel_left_of_coprime (by decide) hmul
  have hnumber := Nat.ModEq.add_right_cancel' _ hsum
  refine mapNumber_inj hx hy hx' hy' ?_
  rw [Nat.ModEq, Nat.mod_eq_of_lt (mapNumber_lt hplane hx hy),
    Nat.mod_eq_of_lt (mapNumber_lt hplane' hx' hy')] at hnumber
  exact hnumber

theorem mem_mapChunks {plane x y : Nat} (h : (plane, x, y) ∈ mapChunks) :
    plane < 10 ∧ x < 100 ∧ y < 100 := by
  simp only [mapChunks, List.mem_flatMap, List.mem_map, List.mem_range, List.mem_range'_1] at h
  obtain ⟨plane', hplane, x', hx, y', hy, heq⟩ := h
  simp only [Prod.mk.injEq] at heq
  omega

/-! ## Loading -/

/-- A map file of a chunk, and how it is stored. -/
structure MapFile (bzip2 : Bzip2) where
  plane : Nat
  x : Nat
  y : Nat
  listed : (plane, x, y) ∈ mapChunks
  tiles : List JagTile
  area : tiles.length = jagMapChunkArea
  packing : Packing bzip2 (jmBytes tiles)

namespace MapFile

variable {bzip2 : Bzip2}

def isOf (plane x y : Nat) (file : MapFile bzip2) : Bool :=
  file.plane == plane && file.x == x && file.y == y

def archiveFile (file : MapFile bzip2) : ArchiveFile where
  nameHash := jagHashEntryName (mapName file.plane file.x file.y)
  unpackedLen := (jmBytes file.tiles).length
  bytes := file.packing.bytes

theorem isOf_iff {plane x y : Nat} {file : MapFile bzip2} (h : (plane, x, y) ∈ mapChunks) :
    file.isOf plane x y = true ↔
      file.archiveFile.nameHash = jagHashEntryName (mapName plane x y) := by
  obtain ⟨hplane, hx, hy⟩ := mem_mapChunks h
  obtain ⟨hplane', hx', hy'⟩ := mem_mapChunks file.listed
  simp only [isOf, Bool.and_eq_true, beq_iff_eq, and_assoc]
  constructor
  · rintro ⟨rfl, rfl, rfl⟩
    rfl
  · exact jagHashEntryName_inj hplane' hx' hy' hplane hx hy

end MapFile

/-- The archive of the map files. -/
def mapArchive {bzip2 : Bzip2} (files : List (MapFile bzip2)) : List Nat :=
  archiveBytes (files.map MapFile.archiveFile)

section Load

variable {bzip2 : Bzip2}

/-- What the maps draw in the world, by the tiles of each chunk: the chunks that
have none are blocked. -/
def drawMap (d : MapData) (files : List (MapFile bzip2)) (w : MapWorld) (plane x y : Nat) :
    Except Assert MapWorld :=
  match files.find? (MapFile.isOf plane x y) with
  | none => .ok (fillMapChunk w x y plane)
  | some file => loadMapChunk d (fun i => file.tiles.getD i {}) w x y plane

def drawMaps (d : MapData) (files : List (MapFile bzip2)) :
    List (Nat × Nat × Nat) → MapWorld → Except Assert MapWorld
  | [], w => .ok w
  | (plane, x, y) :: rest, w =>
    match drawMap d files w plane x y with
    | .error a => .error a
    | .ok w => drawMaps d files rest w

/-- The file of a chunk is what its name finds. -/
theorem firstWith_mapName {plane x y : Nat} (h : (plane, x, y) ∈ mapChunks)
    (files : List (MapFile bzip2)) :
    (files.find? (MapFile.isOf plane x y) = none ∧
      firstWith (jagHashEntryName (mapName plane x y)) (files.map MapFile.archiveFile) = none) ∨
    ∃ file hash rest, files.find? (MapFile.isOf plane x y) = some file ∧
      firstWith (jagHashEntryName (mapName plane x y)) (files.map MapFile.archiveFile) =
        some ⟨hash, (jmBytes file.tiles).length, file.packing.bytes.length,
          file.packing.bytes ++ rest⟩ := by
  induction files with
  | nil => exact .inl ⟨rfl, rfl⟩
  | cons file files ih =>
      rw [List.map_cons, firstWith]
      by_cases hfile : file.isOf plane x y = true
      · rw [List.find?_cons_of_pos hfile, if_pos ((MapFile.isOf_iff h).1 hfile)]
        exact .inr ⟨file, _, _, rfl, rfl⟩
      · rw [List.find?_cons_of_neg hfile, if_neg fun heq => hfile ((MapFile.isOf_iff h).2 heq)]
        exact ih

theorem loadMapFile_archive {plane x y : Nat} (h : (plane, x, y) ∈ mapChunks) (d : MapData)
    (files : List (MapFile bzip2)) (w : MapWorld) :
    loadMapFile bzip2 d (mapArchive files) w plane x y = drawMap d files w plane x y := by
  rw [loadMapFile, drawMap, mapArchive, jagFindEntry_archive]
  rcases firstWith_mapName h files with ⟨hnone, hfirst⟩ | ⟨file, hash, rest, hsome, hfirst⟩
  · rw [hnone, hfirst]
  · obtain ⟨out, hout, hdata⟩ := jagUnpackEntry_packing file.packing hash rest
    rw [hsome, hfirst]
    simp only [hout, jagMapReadJm_jmBytes file.area hdata]

theorem loadMapFiles_archive (d : MapData) (files : List (MapFile bzip2)) :
    ∀ {chunks : List (Nat × Nat × Nat)}, (∀ chunk ∈ chunks, chunk ∈ mapChunks) → ∀ w,
      loadMapFiles bzip2 d (mapArchive files) chunks w = drawMaps d files chunks w := by
  intro chunks
  induction chunks with
  | nil =>
      intro _ w
      rfl
  | cons chunk chunks ih =>
      obtain ⟨plane, x, y⟩ := chunk
      intro hlisted w
      rw [loadMapFiles, drawMaps, loadMapFile_archive (hlisted _ List.mem_cons_self)]
      cases drawMap d files w plane x y with
      | error a => rfl
      | ok w => exact ih (fun chunk hchunk => hlisted chunk (List.mem_cons_of_mem _ hchunk)) w

/-- Whatever map files an archive was made of, in whatever order, each stored or
packed, and the archive itself stored or packed: what is loaded from its bytes is
what the tiles of the files draw, each in its own chunk. -/
theorem maps_loaded (d : MapData) (files : List (MapFile bzip2))
    (p : Packing bzip2 (mapArchive files)) (w : MapWorld) :
    loadMapsJag bzip2 d (jagFileBytes p) w = some (drawMaps d files mapChunks w) := by
  rw [loadMapsJag, jagUnpackFile_packing, Option.map_some,
    loadMapFiles_archive d files fun _ h => h]

end Load

/-- A blocked floor with location 0 on it in the corner of a chunk, and nothing
elsewhere. -/
def quarryTiles : List JagTile :=
  { boundDiag := jagMapDiagLoc + 1, overlay := 1 } :: List.replicate 2303 {}

def noBzip2 : Bzip2 := fun _ _ => none

/-- Its file, stored as it is. -/
def quarryFile : MapFile noBzip2 where
  plane := 0
  x := 50
  y := 50
  listed := by simp [mapChunks]
  tiles := quarryTiles
  area := by rw [quarryTiles, List.length_cons, List.length_replicate]; rfl
  packing := .stored noBzip2 _

/-- Location 0 blocks its tile, and so does floor 0. -/
def quarryData : MapData where
  loc id := if id = 0 then some ⟨1, 1, .blocking, false⟩ else none
  bound _ := none
  floor id := if id = 0 then some true else none
  interactive _ := false
  surfaceHeight _ := 0

theorem maps_loaded_quarry :
    loadMapsJag noBzip2 quarryData
      (jagFileBytes (.stored noBzip2 (mapArchive [quarryFile]))) {} =
      some (drawMaps quarryData [quarryFile] mapChunks {}) :=
  maps_loaded quarryData [quarryFile] (.stored noBzip2 _) {}

end Sundae.Proofs
