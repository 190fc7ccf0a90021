import DanglingBond.Prelude
import DanglingBond.Random.Source

/-!
# The ChaCha stream

The random numbers of the program are the key stream of ChaCha with twelve rounds, read as 64-bit
words. The key is expanded from a 64-bit seed by a linear congruential generator, and the words are
numbered by a 64-bit block counter that starts at zero.
-/

namespace DanglingBond

abbrev ChaChaBlock := Vector UInt32 16

/-- A reader of the key stream: the key, the next block, and what is unread of the current one. -/
structure ChaCha where
  key : Vector UInt32 8
  nextBlock : Nat := 0
  unread : List UInt64 := []
deriving Repr

namespace ChaCha

def rotateLeft (word : UInt32) (count : UInt32) : UInt32 := word <<< count ||| word >>> (32 - count)

def quarterRound (s : ChaChaBlock) (a b c d : Fin 16) : ChaChaBlock :=
  let s := s.set a (s[a] + s[b])
  let s := s.set d (rotateLeft (s[d] ^^^ s[a]) 16)
  let s := s.set c (s[c] + s[d])
  let s := s.set b (rotateLeft (s[b] ^^^ s[c]) 12)
  let s := s.set a (s[a] + s[b])
  let s := s.set d (rotateLeft (s[d] ^^^ s[a]) 8)
  let s := s.set c (s[c] + s[d])
  s.set b (rotateLeft (s[b] ^^^ s[c]) 7)

/-- A round over the columns of the block followed by one over its diagonals. -/
def doubleRound (s : ChaChaBlock) : ChaChaBlock :=
  let s := quarterRound s 0 4 8 12
  let s := quarterRound s 1 5 9 13
  let s := quarterRound s 2 6 10 14
  let s := quarterRound s 3 7 11 15
  let s := quarterRound s 0 5 10 15
  let s := quarterRound s 1 6 11 12
  let s := quarterRound s 2 7 8 13
  quarterRound s 3 4 9 14

/-- The block before any round: four constants, the key, the block number and a zero stream. -/
def initialBlock (key : Vector UInt32 8) (number : Nat) : ChaChaBlock :=
  let constants : Vector UInt32 4 := #v[0x61707865, 0x3320646e, 0x79622d32, 0x6b206574]
  let position : Vector UInt32 4 := #v[number.toUInt32, (number / 2 ^ 32).toUInt32, 0, 0]
  constants ++ key ++ position

def block (key : Vector UInt32 8) (number : Nat) : ChaChaBlock :=
  let start := initialBlock key number
  let mixed := Nat.repeat doubleRound 6 start
  mixed.zipWith (· + ·) start

/-- The words of a block two by two, the first of a pair being the lower half. -/
def pairs (words : ChaChaBlock) : List UInt64 :=
  (List.finRange 8).map fun i =>
    (words[2 * i.val]).toUInt64 ||| (words[2 * i.val + 1]).toUInt64 <<< 32

/-- Expands a seed into a key, one word per step of a linear congruential generator. -/
def ofSeed (seed : UInt64) : ChaCha :=
  let step (state : UInt64) : UInt64 := state * 6364136223846793005 + 11634580027462260723
  let word (state : UInt64) : UInt32 :=
    let x := (((state >>> 18) ^^^ state) >>> 27).toUInt32
    let count := (state >>> 59).toUInt32
    x >>> count ||| x <<< (32 - count)
  { key := Vector.ofFn fun i => word (Nat.repeat step (i.val + 1) seed) }

def next (reader : ChaCha) : UInt64 × ChaCha :=
  match reader.unread with
  | word :: unread => (word, { reader with unread })
  | [] =>
    let words := pairs (block reader.key reader.nextBlock)
    (words.headD 0, { reader with nextBlock := reader.nextBlock + 1, unread := words.tail })

/-- How often a word is rejected in a row before one is taken regardless; each is rejected with a
probability below one half. -/
def maxRejections : Nat := 1024

/-- Draws an index below `bound`: a word scaled down to the bound, taken if its fraction lies in the
zone in which all indices are equally likely. -/
def drawIndex (bound : Nat) (positive : 0 < bound) : Nat → ChaCha → Fin bound × ChaCha
  | rejections, reader =>
    let (word, rest) := reader.next
    let product := word.toNat * bound
    let index : Fin bound :=
      ⟨product / 2 ^ 64, Nat.div_lt_of_lt_mul (Nat.mul_lt_mul_of_pos_right word.toNat_lt positive)⟩
    let zone := bound * 2 ^ (63 - bound.log2) - 1
    match rejections with
    | 0 => (index, rest)
    | rejections + 1 =>
      if product % 2 ^ 64 ≤ zone then (index, rest) else drawIndex bound positive rejections rest

instance : RandomSource ChaCha where
  draw bound positive := drawIndex bound positive maxRejections

end ChaCha

end DanglingBond
