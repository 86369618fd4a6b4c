/-!
# Huffman codes

Codes given by the length of the code word of every symbol: shorter words come first, and words of one
length are numbered in the order of their symbols. The bits of a word arrive with the highest first,
so a word is kept reversed, as the remainder that the bits read so far leave.
-/

namespace CallAtlas.Zip

/-- The code word of a symbol. -/
structure CodeWord where
  size : Nat
  /-- The word with its first bit lowest. -/
  reversed : Nat
  symbol : Nat
  deriving DecidableEq, Repr

/-- The code words of a set of symbols. -/
structure Codebook where
  /-- The number of bits to have at hand before a word is looked for. -/
  least : Nat
  words : List CodeWord
  deriving DecidableEq, Repr

/-- The `n` low bits of a number in reverse. -/
def reverseBits : Nat → Nat → Nat
  | 0, _ => 0
  | n + 1, x => (x % 2) * Nat.pow 2 n + reverseBits n (x / 2)

namespace Codebook

/-- How many words have a length. -/
def countOf (lengths : List Nat) (n : Nat) : Nat :=
  if n = 0 then 0 else lengths.count n

/-- The first word of a length, as a number. -/
def firstWord (lengths : List Nat) : Nat → Nat
  | 0 => 0
  | n + 1 => 2 * (firstWord lengths n + countOf lengths n)

/-- The words of the symbols from `symbol` on, `earlier` being the lengths of those before. -/
def wordsFrom (all : List Nat) (earlier : List Nat) (symbol : Nat) : List Nat → List CodeWord
  | [] => []
  | 0 :: rest => wordsFrom all (0 :: earlier) (symbol + 1) rest
  | (n + 1) :: rest =>
    { size := n + 1, symbol
      reversed := reverseBits (n + 1) (firstWord all (n + 1) + earlier.count (n + 1)) }
      :: wordsFrom all ((n + 1) :: earlier) (symbol + 1) rest

/-- Every sequence of bits starts with a word. A single word of one bit is accepted as well. -/
def isComplete (lengths : List Nat) : Bool :=
  let longest := lengths.foldl max 0
  let next := firstWord lengths longest + countOf lengths longest
  next = Nat.pow 2 longest || (next = 1 && longest = 1)

/-- The code with the given lengths; a length of zero gives a symbol no word. Codes that are neither complete
    nor empty are refused. -/
def ofLengths? (lengths : List Nat) : Option Codebook :=
  if lengths.all (· = 0) then some ⟨0, []⟩
  else if isComplete lengths then
    some ⟨(lengths.filter (· ≠ 0)).foldl min 15, wordsFrom lengths [] 0 lengths⟩
  else none

/-- The word that bits start with, where bits that are not read yet count as zero. -/
def find? (b : Codebook) (bits : Nat) : Option CodeWord :=
  b.words.find? fun w => bits % Nat.pow 2 w.size = w.reversed

end Codebook

end CallAtlas.Zip
