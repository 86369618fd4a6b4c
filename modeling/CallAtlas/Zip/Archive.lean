import CallAtlas.Text.Raw
import CallAtlas.Zip.Checksum
import CallAtlas.Zip.Inflate

/-!
# Zip archives

An archive ends in a directory of its entries and a record that says where the directory is. What
stands before the archive does not matter, since the record is searched from the end. Entries are
stored or compressed, and carry their size and a checksum.
-/

namespace CallAtlas.Zip

open Text (RawText)

/-- Why an archive or an entry of it cannot be read. -/
inductive Problem where
  | format
  | unexpectedEnd
  | endOfData
  /-- An entry starts before the archive, which is in a file or only in memory. -/
  | negativePosition (file : Option RawText)
  | algorithm
  | checksum
  | inflate (fault : InflateFault)
  deriving DecidableEq, Repr

/-- The wording of a problem. -/
def Problem.message : Problem → RawText
  | .format => "zip: not a valid zip file"
  | .unexpectedEnd => "unexpected EOF"
  | .endOfData => "EOF"
  | .negativePosition none => "bytes.Reader.ReadAt: negative offset"
  | .negativePosition (some file) => "readat " ++ file ++ ": negative offset"
  | .algorithm => "zip: unsupported compression algorithm"
  | .checksum => "zip: checksum error"
  | .inflate f => f.message

/-- An entry as the directory describes it. -/
structure Entry where
  name : RawText
  isDirectory : Bool
  /-- The checksum is repeated behind the content. -/
  hasDescriptor : Bool
  method : Nat
  checksum : Nat
  /-- The number of bytes in the archive. -/
  packedSize : Nat
  /-- The number of bytes of the content. -/
  size : Nat
  /-- Where the entry starts in the byte string. -/
  position : Int
  deriving DecidableEq, Repr

/-- An archive: a byte string and the entries it holds. -/
structure Archive where
  /-- The file that the archive is in. -/
  file : Option RawText
  data : Array UInt8
  entries : List Entry
  deriving DecidableEq, Repr

/-! ### Fields -/

/-- A number whose low byte comes first. -/
def littleEndian (bytes : List UInt8) : Nat :=
  bytes.foldr (fun b n => b.toNat + 256 * n) 0

/-- The number in `n` bytes from position `i` on. -/
def field (bytes : List UInt8) (i n : Nat) : Nat :=
  littleEndian ((bytes.drop i).take n)

/-- What marks an entry of the directory. -/
def directoryMark : Nat := 0x02014b50

/-- What marks the start of an entry. -/
def entryMark : Nat := 0x04034b50

/-- What marks a repeated checksum. -/
def descriptorMark : Nat := 0x08074b50

/-- What marks the record of a large archive. -/
def wideEndMark : Nat := 0x06064b50

/-- What marks the reference to the record of a large archive. -/
def wideLocatorMark : Nat := 0x07064b50

/-! ### The directory -/

/-- The extra fields of an entry, by their numbers. -/
def extraFields : Nat → List UInt8 → List (Nat × List UInt8)
  | 0, _ => []
  | n + 1, bytes =>
    if bytes.length < 4 then []
    else if bytes.length < 4 + field bytes 2 2 then []
    else (field bytes 0 2, (bytes.drop 4).take (field bytes 2 2))
      :: extraFields n (bytes.drop (4 + field bytes 2 2))

/-- The largest number of four bytes, which stands for one that does not fit. -/
def widest : Nat := 0xffffffff

/-- Where an entry is and how large. -/
structure Extent where
  size : Nat
  packedSize : Nat
  position : Nat
  deriving DecidableEq, Repr

/-- Takes a number of eight bytes from an extra field for large archives if one is missing. -/
def widen (missing : Bool) (value : Nat) (extra : List UInt8) : Option (Nat × List UInt8) :=
  if !missing then some (value, extra)
  else if extra.length < 8 then none
  else some (field extra 0 8, extra.drop 8)

/-- Completes an extent by an extra field for large archives. Sizes that did not fit are taken from every such
    field, a position only until there is one. -/
def Extent.completedBy (given e : Extent) (extra : List UInt8) : Option Extent := do
  let (size, extra) ← widen (given.size = widest) e.size extra
  let (packedSize, extra) ← widen (given.packedSize = widest) e.packedSize extra
  let (position, _) ← widen (e.position = widest) e.position extra
  return { size, packedSize, position }

/-- The number of extra fields for large archives. -/
def wideField : Nat := 1

/-- An extent with what stands in the extra fields of its entry. -/
def Extent.completed (given : Extent) (extra : List UInt8) : Option Extent :=
  ((extraFields extra.length extra).filter (·.1 = wideField)).foldlM
    (fun e f => given.completedBy e f.2) given

/-- A number of eight bytes as one with a sign. -/
def signed (n : Nat) : Int :=
  if n < Nat.pow 2 63 then n else n - Nat.pow 2 64

/-- The attributes of an entry say that it is a directory. What they mean depends on the system that made
    them. -/
def attributesOfDirectory (system attributes : Nat) : Bool :=
  if system = 3 ∨ system = 19 then attributes / 65536 % 65536 / 4096 = 4
  else if system = 0 ∨ system = 11 ∨ system = 14 then attributes.testBit 4
  else false

/-- The first entry of a directory and what follows it. -/
def readEntry (bytes : List UInt8) : Except Problem (Entry × List UInt8) :=
  if bytes.isEmpty then .error .endOfData
  else if (bytes.take 46).length < 46 then .error .unexpectedEnd
  else if field bytes 0 4 ≠ directoryMark then .error .format
  else
    let nameSize := field bytes 28 2
    let extraSize := field bytes 30 2
    let total := nameSize + extraSize + field bytes 32 2
    let rest := bytes.drop 46
    if rest.isEmpty ∧ 0 < total then .error .endOfData
    else if (rest.take total).length < total then .error .unexpectedEnd
    else
      let name : RawText := ⟨rest.take nameSize⟩
      let given : Extent := ⟨field bytes 24 4, field bytes 20 4, field bytes 42 4⟩
      match given.completed ((rest.drop nameSize).take extraSize) with
      | none => .error .format
      | some extent =>
        .ok ({ name, size := extent.size, packedSize := extent.packedSize
               position := signed extent.position
               isDirectory := name.bytes.getLast? = some 0x2f ||
                 attributesOfDirectory (field bytes 4 2 / 256) (field bytes 38 4)
               hasDescriptor := (field bytes 8 2).testBit 3
               method := field bytes 10 2
               checksum := field bytes 16 4 }, rest.drop total)

/-- The entries of a directory, at most `n`, and why there are no more. -/
def readEntries : Nat → List UInt8 → List Entry × Problem
  | 0, _ => ([], .endOfData)
  | n + 1, bytes =>
    match readEntry bytes with
    | .error p => ([], p)
    | .ok (e, rest) =>
      let (es, p) := readEntries n rest
      (e :: es, p)

/-! ### The end record -/

/-- The shortest suffix of a byte string that has a property. -/
def lastSuffix? (p : List UInt8 → Bool) : List UInt8 → Option (List UInt8)
  | [] => none
  | b :: r => (lastSuffix? p r).or (if p (b :: r) then some (b :: r) else none)

/-- A byte string starts with an end record, its comment left aside. -/
def startsEnd : List UInt8 → Bool
  | 0x50 :: 0x4b :: 5 :: 6 :: r => 18 ≤ r.length
  | _ => false

/-- The end record in the last `window` bytes with what follows it. A record whose comment is cut off is
    none. -/
def endRecordIn? (data : List UInt8) (window : Nat) : Option (List UInt8) := do
  let r ← lastSuffix? startsEnd (data.drop (data.length - window))
  if 22 + field r 20 2 ≤ r.length then some r else none

/-- The end record is searched near the end first. -/
def endRecord? (data : List UInt8) : Option (List UInt8) :=
  (endRecordIn? data 1024).or (if 1024 < data.length then endRecordIn? data 66560 else none)

/-- Where the directory is. -/
structure Place where
  records : Nat
  size : Nat
  offset : Nat
  /-- Where the record stands that says so. -/
  record : Int
  deriving DecidableEq, Repr

/-- The record of a large archive, if the end record is preceded by a reference to it. -/
def widePlace (data : List UInt8) (place : Place) : Except Problem Place :=
  let locator := (data.drop (place.record.toNat - 20)).take 20
  if place.record < 20 ∨ field locator 0 4 ≠ wideLocatorMark ∨ field locator 4 4 ≠ 0 ∨
      field locator 16 4 ≠ 1 then .ok place
  else
    let position := field locator 8 8
    let record := (data.drop position).take 56
    if signed position < 0 then .ok place
    else if record.length < 56 then .error .endOfData
    else if field record 0 4 ≠ wideEndMark then .error .format
    else .ok {
      records := field record 32 8, size := field record 40 8, offset := field record 48 8
      record := position }

/-- Where the directory of an archive is. -/
def findPlace (data : List UInt8) : Except Problem Place :=
  match endRecord? data with
  | none => .error .format
  | some r =>
    let place : Place := {
      records := field r 10 2, size := field r 12 4, offset := field r 16 4
      record := data.length - r.length }
    if place.records = 0xffff ∨ place.size = widest ∨ place.offset = widest then widePlace data place
    else .ok place

/-- How far the archive starts behind the start of the byte string. An archive whose positions count from the
    start of the byte string all the same starts there. -/
def Place.base (data : List UInt8) (place : Place) : Int :=
  let base := place.record - place.size - place.offset
  if 0 < base then
    match readEntry (data.drop place.offset) with
    | .ok _ => 0
    | .error _ => base
  else base

/-- Reads the directory of an archive, which is in a file or only in memory. The number of entries in the end
    record counts only modulo 65536. -/
def read (file : Option RawText) (data : List UInt8) : Except Problem Archive := do
  let place ← findPlace data
  if signed place.size < 0 ∨ signed place.offset < 0 then throw .format
  if place.record < place.size ∨ (data.length : Int) ≤ place.record - place.size then throw .format
  let base := place.base data
  let start := (base + place.offset).toNat
  let (entries, stop) := readEntries (data.length + 1) (data.drop start)
  if stop ≠ .endOfData ∧ entries.length % 65536 = place.records % 65536 then
    return {
      file, data := data.toArray
      entries := entries.map fun e => { e with position := e.position + base } }
  else throw stop

/-! ### Contents -/

namespace Archive

/-- At most `count` bytes of an archive from position `start` on. -/
def slice (a : Archive) (start count : Nat) : List UInt8 :=
  (a.data.extract start (start + count)).toList

/-- Where the content of an entry starts. -/
def contentStart (a : Archive) (e : Entry) : Except Problem Nat :=
  if e.position < 0 then .error (.negativePosition a.file)
  else
    let head := a.slice e.position.toNat 30
    if head.length < 30 then .error .endOfData
    else if field head 0 4 ≠ entryMark then .error .format
    else .ok (e.position.toNat + 30 + field head 26 2 + field head 28 2)

/-- The bytes of an entry as they stand in the archive, and how to read them. -/
def openEntry (a : Archive) (e : Entry) :
    Except Problem (List UInt8 × Option InflateFault) := do
  let packed := a.slice (← a.contentStart e) e.packedSize
  match e.method with
  | 0 => return (packed, none)
  | 8 => return inflate packed
  | _ => throw .algorithm

/-- The checksum that is repeated behind the content of an entry is that of the directory. -/
def checkDescriptor (a : Archive) (e : Entry) : Except Problem Unit := do
  let bytes := a.slice ((← a.contentStart e) + e.packedSize) 16
  let rest := if field bytes 0 4 = descriptorMark then bytes.drop 4 else bytes
  if bytes.length < 4 ∨ rest.length < 12 then throw .unexpectedEnd
  if field rest 0 4 ≠ e.checksum then throw .checksum

/-- The content of an entry that was opened: it has the size and the checksum that the directory gives. A
    checksum of zero that is not repeated counts as not given. -/
def checkContent (a : Archive) (e : Entry) (opened : List UInt8 × Option InflateFault) :
    Except Problem (List UInt8) := do
  if e.size < opened.1.length then throw .format
  if let some fault := opened.2 then throw (.inflate fault)
  if opened.1.length < e.size then throw .unexpectedEnd
  if e.hasDescriptor then
    a.checkDescriptor e
    if Zip.checksum opened.1 ≠ e.checksum then throw .checksum
  else if e.checksum ≠ 0 ∧ Zip.checksum opened.1 ≠ e.checksum then throw .checksum
  return opened.1

end Archive

end CallAtlas.Zip
