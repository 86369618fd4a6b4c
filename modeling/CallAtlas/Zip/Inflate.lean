import CallAtlas.Zip.Huffman

/-!
# Inflating

Reads compressed data: blocks that are stored or coded, the symbols of a coded block being bytes or
copies of what came before. Data that ends early and data that cannot be right are told apart, and
what was read before the fault is kept.
-/

namespace CallAtlas.Zip

/-- Why compressed data cannot be read. -/
inductive InflateFault where
  /-- The data ends inside a block. -/
  | truncated
  /-- The data is wrong somewhere in its first bytes. -/
  | corrupt (before : Nat)
  deriving DecidableEq, Repr

/-- The wording of a fault. -/
def InflateFault.message : InflateFault → String
  | .truncated => "unexpected EOF"
  | .corrupt n => s!"flate: corrupt input before offset {n}"

namespace Inflate

/-- Data in the middle of being read. -/
structure State where
  rest : List UInt8
  /-- How many bytes were taken off the data. -/
  taken : Nat
  /-- Bits that were taken and not used yet, the first one lowest. -/
  bits : Nat
  bitCount : Nat
  output : Array UInt8

/-- A step of reading. A fault keeps what was read before. -/
abbrev Step := ExceptT InflateFault (StateM State)

/-- Refuses the data. -/
def refuse {α : Type} : Step α := do
  throw (.corrupt (← get).taken)

/-- Takes one byte. -/
def takeByte : Step UInt8 := do
  let s ← get
  match s.rest with
  | [] => throw .truncated
  | b :: r =>
    set { s with rest := r, taken := s.taken + 1 }
    return b

/-- Takes one byte to the bits at hand. -/
def moreBits : Step Unit := do
  let b ← takeByte
  modify fun s =>
    { s with bits := s.bits + b.toNat * Nat.pow 2 s.bitCount, bitCount := s.bitCount + 8 }

/-- Has `n` bits at hand; every byte brings eight, so `n` attempts are enough. -/
def fill (n : Nat) : Step Unit :=
  attempt n
where
  /-- Takes bytes while bits are missing, at most so many. -/
  attempt : Nat → Step Unit
    | 0 => return ()
    | k + 1 => do
      if (← get).bitCount < n then
        moreBits
        attempt k

/-- Drops bits that are at hand. -/
def dropBits (n : Nat) : Step Unit :=
  modify fun s => { s with bits := s.bits / Nat.pow 2 n, bitCount := s.bitCount - n }

/-- A number of `n` bits, the lowest first. -/
def takeBits (n : Nat) : Step Nat := do
  fill n
  let value := (← get).bits % Nat.pow 2 n
  dropBits n
  return value

/-- The most bits of a code word. -/
def longestWord : Nat := 15

/-- The next symbol of a code. A word that the bits at hand could start is looked up; where it is longer than
    they are, more are taken. -/
def symbol (book : Codebook) : Step Nat :=
  attempt (longestWord + 1) book.least
where
  /-- Looks with at least `n` bits at hand. -/
  attempt : Nat → Nat → Step Nat
    | 0, _ => refuse
    | k + 1, n => do
      fill n
      let s ← get
      match book.find? s.bits with
      | none => refuse
      | some w =>
        if w.size ≤ s.bitCount then
          dropBits w.size
          return w.symbol
        else attempt k w.size

/-! ### Output -/

/-- Adds a byte. -/
def emit (b : UInt8) : Step Unit :=
  modify fun s => { s with output := s.output.push b }

/-- Repeats what stands `distance` bytes back, byte by byte. -/
def copyBack (distance : Nat) : Nat → Step Unit
  | 0 => return ()
  | n + 1 => do
    let s ← get
    emit (s.output.getD (s.output.size - distance) 0)
    copyBack distance n

/-- How far back a copy can reach. -/
def window : Nat := 32768

/-! ### Blocks -/

/-- Copies stored bytes. -/
def copyStored : Nat → Step Unit
  | 0 => return ()
  | n + 1 => do
    emit (← takeByte)
    copyStored n

/-- A number of two bytes, the low one first. -/
def takeWord : Step Nat := do
  let low ← takeByte
  let high ← takeByte
  return low.toNat + 256 * high.toNat

/-- A block that is stored behind its length and the complement of that. -/
def storedBlock : Step Unit := do
  modify fun s => { s with bits := 0, bitCount := 0 }
  let n ← takeWord
  let check ← takeWord
  if n + check = 65535 then copyStored n else refuse

/-- The base and the number of extra bits of a symbol in a table. -/
def scaled (table : List (Nat × Nat)) (i : Nat) : Step Nat :=
  match table[i]? with
  | none => refuse
  | some (base, extra) => return base + (← takeBits extra)

/-- The lengths of copies by symbol, from symbol 257 on. -/
def lengthTable : List (Nat × Nat) :=
  [(3, 0), (4, 0), (5, 0), (6, 0), (7, 0), (8, 0), (9, 0), (10, 0),
   (11, 1), (13, 1), (15, 1), (17, 1), (19, 2), (23, 2), (27, 2), (31, 2),
   (35, 3), (43, 3), (51, 3), (59, 3), (67, 4), (83, 4), (99, 4), (115, 4),
   (131, 5), (163, 5), (195, 5), (227, 5), (258, 0)]

/-- The distances of copies by symbol. -/
def distanceTable : List (Nat × Nat) :=
  [(1, 0), (2, 0), (3, 0), (4, 0), (5, 1), (7, 1), (9, 2), (13, 2), (17, 3), (25, 3), (33, 4), (49, 4),
   (65, 5), (97, 5), (129, 6), (193, 6), (257, 7), (385, 7), (513, 8), (769, 8), (1025, 9), (1537, 9),
   (2049, 10), (3073, 10), (4097, 11), (6145, 11), (8193, 12), (12289, 12), (16385, 13), (24577, 13)]

/-- The symbol that ends a block. -/
def endOfBlock : Nat := 256

/-- The symbols of a coded block, at most `n`. -/
def codedBlock (literals : Codebook) (distance : Step Nat) : Nat → Step Unit
  | 0 => throw .truncated
  | n + 1 => do
    let v ← symbol literals
    if v < endOfBlock then
      emit (UInt8.ofNat v)
      codedBlock literals distance n
    else if v = endOfBlock then return ()
    else
      let length ← scaled lengthTable (v - 257)
      let d ← scaled distanceTable (← distance)
      if d ≤ min (← get).output.size window then
        copyBack d length
        codedBlock literals distance n
      else refuse

/-- The code of literals in a block that brings none. -/
def fixedLiterals : Codebook :=
  (Codebook.ofLengths? (List.replicate 144 8 ++ List.replicate 112 9 ++ List.replicate 24 7 ++
    List.replicate 8 8)).getD ⟨0, []⟩

/-- The distance symbol of a block that brings no code: five bits, the highest first. -/
def fixedDistance : Step Nat := do
  return reverseBits 5 (← takeBits 5)

/-- The order in which the lengths of the code for lengths are given. -/
def lengthOrder : List Nat :=
  [16, 17, 18, 0, 8, 7, 9, 6, 10, 5, 11, 4, 12, 3, 13, 2, 14, 1, 15]

/-- The code with the given lengths, or a fault. -/
def codebook (lengths : List Nat) : Step Codebook :=
  (Codebook.ofLengths? lengths).elim refuse pure

/-- Adds a run of equal lengths, which must not lead beyond `total`. -/
def addRun (total : Nat) (sofar : List Nat) (base extra value : Nat) : Step (List Nat) := do
  let n := base + (← takeBits extra)
  if sofar.length + n ≤ total then return List.replicate n value ++ sofar else refuse

/-- Code lengths up to `total` of them, the last one first; every symbol brings at least one. -/
def codeLengths (book : Codebook) (total : Nat) : Nat → List Nat → Step (List Nat)
  | 0, sofar => return sofar
  | n + 1, sofar =>
    if total ≤ sofar.length then return sofar
    else do
      let v ← symbol book
      if v < 16 then codeLengths book total n (v :: sofar)
      else if v = 16 then
        match sofar with
        | [] => refuse
        | last :: _ => codeLengths book total n (← addRun total sofar 3 2 last)
      else if v = 17 then codeLengths book total n (← addRun total sofar 3 3 0)
      else codeLengths book total n (← addRun total sofar 11 7 0)

/-- The codes that a block brings: for literals and for distances. -/
def readCodes : Step (Codebook × Codebook) := do
  fill 14
  let literalCount := (← takeBits 5) + 257
  if 286 < literalCount then refuse
  let distanceCount := (← takeBits 5) + 1
  if 30 < distanceCount then refuse
  let given ← (List.replicate ((← takeBits 4) + 4) 3).mapM takeBits
  let lengthOf := fun s => ((lengthOrder.zip given).lookup s).getD 0
  let book ← codebook ((List.range 19).map lengthOf)
  let total := literalCount + distanceCount
  let lengths := (← codeLengths book total total []).reverse
  let literals ← codebook (lengths.take literalCount)
  let distances ← codebook (lengths.drop literalCount)
  return ({ literals with least := max literals.least (lengths.getD endOfBlock 0) }, distances)

/-- One block; the answer says whether it is the last. Every symbol takes at least one bit of the data, so
    `symbols` of them are enough. -/
def block (symbols : Nat) : Step Bool := do
  fill 3
  let final ← takeBits 1
  let kind ← takeBits 2
  if kind = 0 then storedBlock
  else if kind = 1 then codedBlock fixedLiterals fixedDistance symbols
  else if kind = 2 then
    let (literals, distances) ← readCodes
    codedBlock literals (symbol distances) symbols
  else refuse
  return final = 1

/-- Blocks up to the last one, at most `n`. -/
def blocks (symbols : Nat) : Nat → Step Unit
  | 0 => throw .truncated
  | n + 1 => do
    if !(← block symbols) then blocks symbols n

end Inflate

/-- What compressed data holds up to its end or its first fault, and the fault. -/
def inflate (data : List UInt8) : List UInt8 × Option InflateFault :=
  let steps := 8 * data.length + 1
  let (result, s) := (Inflate.blocks steps steps).run
    { rest := data, taken := 0, bits := 0, bitCount := 0, output := #[] }
  (s.output.toList, match result with | .ok _ => none | .error f => some f)

end CallAtlas.Zip
