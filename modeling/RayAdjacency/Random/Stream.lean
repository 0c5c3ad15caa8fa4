import RayAdjacency.Outcome

/-!
# Random words

`RandomStream` is the output of the ChaCha block function with eight rounds, read as 64-bit words:
a key spread from a 64-bit seed, a 64-bit block counter from zero, and the words of the current
block that have not been drawn yet. Equal seeds give equal streams.

Models `ChaCha8Rng`.
-/

namespace RayAdjacency

/-- The sixteen words of a block. -/
abbrev Block := Vector UInt32 16

namespace Block

/-- Rotates a word to the left. -/
private def rotate (w : UInt32) (n : UInt32) : UInt32 := (w <<< n) ||| (w >>> (32 - n))

/-- Mixes the words at four places. -/
private def quarter (s : Block) (a b c d : Fin 16) : Block :=
  let wa := s[a] + s[b]
  let wd := rotate (s[d] ^^^ wa) 16
  let wc := s[c] + wd
  let wb := rotate (s[b] ^^^ wc) 12
  let wa := wa + wb
  let wd := rotate (wd ^^^ wa) 8
  let wc := wc + wd
  let wb := rotate (wb ^^^ wc) 7
  (((s.set a wa).set b wb).set c wc).set d wd

/-- One round over the columns and one over the diagonals. -/
private def doubleRound (s : Block) : Block :=
  let s := quarter (quarter (quarter (quarter s 0 4 8 12) 1 5 9 13) 2 6 10 14) 3 7 11 15
  quarter (quarter (quarter (quarter s 0 5 10 15) 1 6 11 12) 2 7 8 13) 3 4 9 14

/-- The block after eight rounds, added to the block itself. -/
def scramble (s : Block) : Block :=
  let mixed := doubleRound (doubleRound (doubleRound (doubleRound s)))
  Vector.zipWith (· + ·) mixed s

/-- The input block of a key and a counter. -/
def input (key : Vector UInt32 8) (counter : UInt64) : Block :=
  let constants : Vector UInt32 4 := #v[0x61707865, 0x3320646e, 0x79622d32, 0x6b206574]
  let position : Vector UInt32 4 := #v[counter.toUInt32, (counter >>> 32).toUInt32, 0, 0]
  constants ++ key ++ position

/-- The words of a block in pairs, the first of a pair in the low half. -/
def pairs : List UInt32 → List UInt64
  | low :: high :: rest => (low.toUInt64 ||| (high.toUInt64 <<< 32)) :: pairs rest
  | _ => []

end Block

/-- A stream of random 64-bit words. -/
structure RandomStream where
  key : Vector UInt32 8
  /-- The number of the next block. -/
  counter : UInt64
  /-- The words of the current block that are still to be drawn. -/
  pending : List UInt64

namespace RandomStream

/-- The generator that spreads a seed: its state after one step, and the word it yields. -/
private def spread (state : UInt64) : UInt64 × UInt32 :=
  let state := state * 6364136223846793005 + 11634580027462260723
  let folded := (((state >>> 18) ^^^ state) >>> 27).toUInt32
  let turn := (state >>> 59).toUInt32
  (state, (folded >>> turn) ||| (folded <<< ((32 - turn) % 32)))

/-- The first `n` words spread from a seed. -/
private def spreadWords : Nat → UInt64 → List UInt32
  | 0, _ => []
  | n + 1, state => let (state, word) := spread state; word :: spreadWords n state

/-- The stream of a seed. -/
def ofSeed (seed : UInt64) : RandomStream where
  key := Vector.ofFn fun i ↦ (spreadWords 8 seed).getD i 0
  counter := 0
  pending := []

/-- The next word. -/
def next (s : RandomStream) : UInt64 × RandomStream :=
  match s.pending with
  | word :: rest => (word, { s with pending := rest })
  | [] =>
    let words := Block.pairs (Block.input s.key s.counter).scramble.toList
    (words.headD 0, { s with counter := s.counter + 1, pending := words.tail })

end RandomStream
end RayAdjacency
