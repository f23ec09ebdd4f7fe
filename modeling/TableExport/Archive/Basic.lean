import TableExport.Archive.Checksum
import TableExport.Archive.Inflate
import TableExport.Entries

/-!
# Archives

An archive holds parts under names. A directory at its end says where each part lies; bytes before
the archive do not count. A part is stored or deflated, and has a checksum.

* `Archive.open?` reads the directory.
* `Archive.read?` finds a part, without regard to the case of letters and the kind of slashes.
* `Archive.pack` makes an archive of stored parts.
-/

namespace TableExport

/-- What the directory says about a part. -/
structure ArchiveEntry where
  flags : Nat
  method : Nat
  checksum : Nat
  packedSize : Nat
  /-- Where the header of the part lies. -/
  offset : Nat

/-- An archive: its bytes and its directory. -/
structure Archive where
  bytes : ByteArray
  entries : Entries ArchiveEntry

/-- The content of a part. Where it is not whole, reading fails at its end. -/
structure PartContent where
  bytes : ByteArray
  whole : Bool

namespace Archive

/-- The number in some bytes, the least significant first; missing bytes count as zero. -/
def number (bytes : ByteArray) (position : Nat) : Nat → Nat
  | 0 => 0
  | count + 1 =>
    ((bytes[position]?).map UInt8.toNat).getD 0 + 256 * number bytes (position + 1) count

/-- Whether a position starts a record with a signature. -/
def hasSignature (bytes : ByteArray) (position signature : Nat) : Bool :=
  position + 4 ≤ bytes.size && number bytes position 4 == signature

/-- The signature of the record at the end of the directory. -/
def endSignature : Nat := 0x06054B50

/-- The signature of a record of the directory. -/
def entrySignature : Nat := 0x02014B50

/-- The signature of the header of a part. -/
def partSignature : Nat := 0x04034B50

/-- The last position, among those below `count`, of a record at the end of the directory whose
comment fits into the bytes. -/
def endRecord? (bytes : ByteArray) : Nat → Option Nat
  | 0 => none
  | position + 1 =>
    if hasSignature bytes position endSignature && position + 22 ≤ bytes.size &&
        position + 22 + number bytes (position + 20) 2 ≤ bytes.size then some position
    else endRecord? bytes position

/-- The name in some bytes; bytes that are no text are replaced. -/
def nameOf (bytes : ByteArray) : String :=
  match String.fromUTF8? bytes with
  | some text => text
  | none => String.ofList (bytes.toList.map fun byte => Char.ofNat byte.toNat)

/-- Reads records of the directory from a position. -/
def readEntries? (bytes : ByteArray) (shift : Nat) :
    Nat → Nat → Entries ArchiveEntry → Option (Entries ArchiveEntry)
  | 0, _, entries => some entries
  | count + 1, position, entries =>
    if !hasSignature bytes position entrySignature || bytes.size < position + 46 then none
    else
      let nameSize := number bytes (position + 28) 2
      let size := 46 + nameSize + number bytes (position + 30) 2 + number bytes (position + 32) 2
      if bytes.size < position + size then none
      else
        let entry : ArchiveEntry :=
          { flags := number bytes (position + 8) 2
            method := number bytes (position + 10) 2
            checksum := number bytes (position + 16) 4
            packedSize := number bytes (position + 20) 4
            offset := shift + number bytes (position + 42) 4 }
        let name := nameOf (bytes.extract (position + 46) (position + 46 + nameSize))
        readEntries? bytes shift count (position + size) (entries.put name entry)

/-- Reads the directory of an archive. The bytes before the archive are found from where the
directory ends. -/
def open? (bytes : ByteArray) : Option Archive := do
  let record ← endRecord? bytes bytes.size
  let count := number bytes (record + 10) 2
  let size := number bytes (record + 12) 4
  let offset := number bytes (record + 16) 4
  let shift := record - (size + offset)
  let shift :=
    if count = 0 || hasSignature bytes (shift + offset) entrySignature then shift else 0
  let entries ← readEntries? bytes shift count (shift + offset) []
  return ⟨bytes, entries⟩

/-- A name as it is compared: slashes of one kind and letters of one case. -/
def folded (name : String) : String :=
  name.map fun c => if c = '\\' then '/' else c.toLower

/-- The part with a name, compared without regard to case and slashes. -/
def find? (archive : Archive) (name : String) : Option ArchiveEntry :=
  (archive.entries.find? fun entry => folded entry.1 == folded name).map Prod.snd

/-- The content of a part; `none` when it is locked, packed in an unknown way or has no header. -/
def content? (archive : Archive) (entry : ArchiveEntry) : Option PartContent :=
  let bytes := archive.bytes
  if entry.flags % 2 = 1 || !hasSignature bytes entry.offset partSignature then none
  else
    let start :=
      entry.offset + 30 + number bytes (entry.offset + 26) 2 + number bytes (entry.offset + 28) 2
    let packed := bytes.extract start (start + entry.packedSize)
    let unpacked : Option (ByteArray × Bool) :=
      if entry.method = 0 then some (packed, true)
      else if entry.method = 8 then some (Inflate.run packed)
      else none
    unpacked.map fun (content, whole) =>
      ⟨content, whole && (checksum content).toNat == entry.checksum⟩

/-! ## Packing -/

/-- A number in some bytes, the least significant first. -/
def numberBytes (n : Nat) : Nat → List UInt8
  | 0 => []
  | count + 1 => (n % 256).toUInt8 :: numberBytes (n / 256) count

/-- Some numbers, each in a number of bytes. -/
def record (fields : List (Nat × Nat)) : ByteArray :=
  ⟨(fields.flatMap fun (n, size) => numberBytes n size).toArray⟩

/-- The fields that the header of a part shares with its record in the directory. -/
def partFields (name : String) (content : ByteArray) : List (Nat × Nat) :=
  [(20, 2), (0x800, 2), (0, 2), (0, 2), (0x21, 2), ((checksum content).toNat, 4),
    (content.size, 4), (content.size, 4), (name.utf8ByteSize, 2), (0, 2)]

/-- Adds a stored part to the bytes of the parts and to the directory. -/
def packPart (packed : ByteArray × ByteArray × Nat) (part : String × ByteArray) :
    ByteArray × ByteArray × Nat :=
  let (body, directory, count) := packed
  let (name, content) := part
  let fields := partFields name content
  let header := record ((partSignature, 4) :: fields)
  let entry := record ((entrySignature, 4) :: (20, 2) :: fields ++
    [(0, 2), (0, 2), (0, 2), (0, 4), (body.size, 4)])
  (body ++ header ++ name.toUTF8 ++ content, directory ++ entry ++ name.toUTF8, count + 1)

/-- The archive of some stored parts. -/
def pack (parts : List (String × ByteArray)) : ByteArray :=
  let (body, directory, count) := parts.foldl packPart (ByteArray.empty, ByteArray.empty, 0)
  body ++ directory ++ record
    [(endSignature, 4), (0, 2), (0, 2), (count, 2), (count, 2), (directory.size, 4),
      (body.size, 4), (0, 2)]

end Archive

end TableExport
