/-!
# Random numbers

The key stream of ChaCha with twelve rounds, under a key that a 64-bit seed is stretched to. A
stream with the same seed yields the same numbers on every machine.
-/

namespace Doomtown.ChaCha

/-- The sixteen words that a block is computed from and consists of. -/
abbrev Words := Vector UInt32 16

/-! ## Blocks -/

/-- Rotate a word to the left, by more than no bits and fewer than all. -/
def rotateLeft (w : UInt32) (n : UInt32) : UInt32 := (w <<< n) ||| (w >>> (32 - n))

/-- Mix four words. -/
def quarterRound (s : Words) (i j k l : Fin 16) : Words :=
  let a := s[i] + s[j]
  let d := rotateLeft (s[l] ^^^ a) 16
  let c := s[k] + d
  let b := rotateLeft (s[j] ^^^ c) 12
  let a := a + b
  let d := rotateLeft (d ^^^ a) 8
  let c := c + d
  let b := rotateLeft (b ^^^ c) 7
  (((s.set i a).set j b).set k c).set l d

/-- Mix the columns, then the diagonals. -/
def doubleRound (s : Words) : Words :=
  let s := quarterRound s 0 4 8 12
  let s := quarterRound s 1 5 9 13
  let s := quarterRound s 2 6 10 14
  let s := quarterRound s 3 7 11 15
  let s := quarterRound s 0 5 10 15
  let s := quarterRound s 1 6 11 12
  let s := quarterRound s 2 7 8 13
  quarterRound s 3 4 9 14

/-- The words that a block is computed from: four constants, the key, the number of the block in
two words, and two zeros. -/
def initial (key : Vector UInt32 8) (block : Nat) : Words :=
  #v[0x61707865, 0x3320646e, 0x79622d32, 0x6b206574,
    key[0], key[1], key[2], key[3], key[4], key[5], key[6], key[7],
    UInt32.ofNat block, UInt32.ofNat (block >>> 32), 0, 0]

/-- A block of the key stream. -/
def block (key : Vector UInt32 8) (n : Nat) : Words :=
  let start := initial key n
  let mixed := Nat.repeat doubleRound 6 start
  Vector.zipWith (· + ·) start mixed

/-! ## Seeds -/

/-- The state that follows in the stretching of a seed. -/
def stretch (state : UInt64) : UInt64 := state * 6364136223846793005 + 11634580027462260723

/-- The word that a state of the stretching yields: some of its bits, rotated to the right by its
highest five. -/
def seedWord (state : UInt64) : UInt32 :=
  let mixed := (((state >>> 18) ^^^ state) >>> 27).toUInt32
  let turn := (state >>> 59).toUInt32
  if turn = 0 then mixed else rotateLeft mixed (32 - turn)

/-- The key that a seed is stretched to: one word for each of the eight states after it. -/
def keyOfSeed (seed : UInt64) : Vector UInt32 8 :=
  Vector.ofFn fun i => seedWord (Nat.repeat stretch (i.val + 1) seed)

/-! ## Streams -/

/-- A place in a key stream, counted in words. -/
structure Stream where
  key : Vector UInt32 8
  position : Nat

namespace Stream

/-- The start of the stream of a seed. -/
def ofSeed (seed : Nat) : Stream := ⟨keyOfSeed (UInt64.ofNat seed), 0⟩

/-- The word at the place of the stream. -/
def word (s : Stream) : UInt32 :=
  (block s.key (s.position / 16)).get ⟨s.position % 16, Nat.mod_lt _ (by decide)⟩

/-- Draw 64 bits: the next word and, above it, the word after that. -/
def draw (s : Stream) : Nat × Stream :=
  let low := s.word
  let s := { s with position := s.position + 1 }
  let high := s.word
  (low.toNat + high.toNat <<< 32, { s with position := s.position + 1 })

/-- The largest low half for which a draw below `n` counts, so that all numbers are equally
likely: one less than `n` with its bits moved to the top of 64. -/
def zone (n : Nat) : Nat := n <<< (63 - n.log2) - 1

/-- Draw a number below `n`, at most `tries` times; if no draw counts it is zero. -/
def drawBelow (n : Nat) : Nat → Stream → Nat × Stream
  | 0, s => (0, s)
  | tries + 1, s =>
    let (v, s) := s.draw
    let product := v * n
    if product % UInt64.size ≤ zone n then (product >>> 64, s) else drawBelow n tries s

/-- A number below `n`. At least every other draw counts, so that a thousand draws suffice. -/
def below (n : Nat) (s : Stream) : Nat × Stream := drawBelow n 1000 s

end Stream

end Doomtown.ChaCha
