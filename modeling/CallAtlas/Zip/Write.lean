import CallAtlas.Zip.Archive

/-!
# Writing zip archives

Every entry is written with its sizes and its checksum behind it, and the directory at the end. The
name of a directory ends in a slash, and it has no content.
-/

namespace CallAtlas.Zip

/-- A file or directory to be put into an archive. -/
structure Item where
  name : String
  content : List UInt8
  /-- The content is written in compressed form. -/
  compressed : Bool := false
  deriving DecidableEq, Repr

/-- An item that has no place in an archive. -/
inductive WriteProblem where
  /-- A directory has content. -/
  | contentOfDirectory
  deriving DecidableEq, Repr

def WriteProblem.message : WriteProblem → String
  | .contentOfDirectory => "zip: write to directory"

/-- A number in `n` bytes, the low one first. -/
def lowFirst : Nat → Nat → List UInt8
  | 0, _ => []
  | n + 1, v => UInt8.ofNat v :: lowFirst n (v / 256)

/-- Compressed data that only stores its content, in blocks of at most 65535 bytes. -/
def deflateStored : Nat → List UInt8 → List UInt8
  | 0, _ => []
  | n + 1, data =>
    let block := data.take 65535
    let rest := data.drop 65535
    (if rest.isEmpty then 1 else 0) :: (lowFirst 2 block.length ++
      (lowFirst 2 (65535 - block.length) ++ (block ++
        (if rest.isEmpty then [] else deflateStored n rest))))

namespace Item

def isDirectory (i : Item) : Bool :=
  i.name.endsWith "/"

/-- The way the content is written. -/
def method (i : Item) : Nat :=
  if i.compressed ∧ ¬ i.isDirectory then 8 else 0

/-- The name as it stands in the archive. -/
def nameBytes (i : Item) : List UInt8 :=
  Text.toBytes i.name

/-- The flags of an item: whether its sizes stand behind it, and that its name is not plain. -/
def flags (i : Item) : Nat :=
  (if i.isDirectory then 0 else 8) + (if i.name.toList.all (·.toNat < 128) then 0 else 0x800)

/-- The fields that an item has both in its head and in the directory. The sizes are given only where they are
    known. -/
def commonFields (i : Item) (checksum packed size : Nat) : List UInt8 :=
  lowFirst 2 20 ++ lowFirst 2 i.flags ++ lowFirst 2 i.method ++ lowFirst 4 0 ++
    lowFirst 4 checksum ++ lowFirst 4 packed ++ lowFirst 4 size ++
    lowFirst 2 i.nameBytes.length ++ lowFirst 2 0

end Item

/-- An item made ready for an archive. -/
structure Member where
  item : Item
  /-- The content as it stands in the archive. -/
  packed : List UInt8
  packedSize : Nat
  size : Nat
  checksum : Nat

/-- Makes an item ready. -/
def Item.member (i : Item) : Member :=
  let size := i.content.length
  let packed := if i.method = 8 then deflateStored (size + 1) i.content else i.content
  { item := i, packed, packedSize := packed.length, size, checksum := Zip.checksum i.content }

namespace Member

/-- What stands before the content. -/
def head (m : Member) : List UInt8 :=
  lowFirst 4 entryMark ++ m.item.commonFields 0 0 0 ++ m.item.nameBytes

/-- What stands behind the content. -/
def descriptor (m : Member) : List UInt8 :=
  if m.item.isDirectory then []
  else lowFirst 4 descriptorMark ++ lowFirst 4 m.checksum ++ lowFirst 4 m.packedSize ++
    lowFirst 4 m.size

/-- The bytes of a member with what follows them in the archive. -/
def before (m : Member) (rest : List UInt8) : List UInt8 :=
  m.head ++ (m.packed ++ (m.descriptor ++ rest))

/-- The number of bytes that a member takes. -/
def extent (m : Member) : Nat :=
  30 + m.item.nameBytes.length + m.packedSize + if m.item.isDirectory then 0 else 16

/-- A member in the directory. -/
def record (m : Member) (position : Nat) : List UInt8 :=
  lowFirst 4 directoryMark ++ lowFirst 2 20 ++
    m.item.commonFields m.checksum m.packedSize m.size ++
    lowFirst 2 0 ++ lowFirst 2 0 ++ lowFirst 2 0 ++ lowFirst 4 0 ++ lowFirst 4 position ++
    m.item.nameBytes

end Member

/-- The directory of members that follow each other from a position on. -/
def directory (position : Nat) : List Member → List UInt8
  | [] => []
  | m :: ms => m.record position ++ directory (position + m.extent) ms

/-- The record at the end of an archive: how many items there are, and where their directory is. -/
def endRecord (count size position : Nat) : List UInt8 :=
  [0x50, 0x4b, 5, 6] ++ lowFirst 4 0 ++ lowFirst 2 count ++ lowFirst 2 count ++ lowFirst 4 size ++
    lowFirst 4 position ++ lowFirst 2 0

/-- The archive of some items. -/
def archiveOf (items : List Item) : List UInt8 :=
  let members := items.map Item.member
  let records := directory 0 members
  let size := members.foldl (fun n m => n + m.extent) 0
  members.foldr Member.before (records ++ endRecord items.length records.length size)

/-- Writes an archive. -/
def write (items : List Item) : Except WriteProblem (List UInt8) :=
  if items.any fun i => i.isDirectory && !i.content.isEmpty then .error .contentOfDirectory
  else .ok (archiveOf items)

end CallAtlas.Zip
