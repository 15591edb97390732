/-!
# Random — random bytes from a seed

A generator is a fixed stream of words, chosen by its key, and the number of words drawn from it so
far.  `Generator.word` reads the stream at any place, `peek` gives the byte that is drawn next and
`advance` moves on.

The stream is made of blocks of sixteen words.  A block comes from a key of eight words and a block
number by twenty rounds of additions, exclusive ors and rotations; a double round works on the four
columns of the state and then on its four diagonals.
-/

namespace Chip8

/-! ## Blocks of the stream -/

namespace ChaCha

abbrev Key := Vector UInt32 8

abbrev State := Vector UInt32 16

def rotateLeft (w : UInt32) (bits : UInt32) : UInt32 :=
  (w <<< bits) ||| (w >>> (32 - bits))

/-- Mix four words of the state. -/
def quarterRound (s : State) (a b c d : Fin 16) : State :=
  let wa := s[a] + s[b]
  let wd := rotateLeft (s[d] ^^^ wa) 16
  let wc := s[c] + wd
  let wb := rotateLeft (s[b] ^^^ wc) 12
  let wa := wa + wb
  let wd := rotateLeft (wd ^^^ wa) 8
  let wc := wc + wd
  let wb := rotateLeft (wb ^^^ wc) 7
  (((s.set a wa).set b wb).set c wc).set d wd

/-- One round on the columns and one on the diagonals. -/
def doubleRound (s : State) : State :=
  let s := quarterRound s 0 4 8 12
  let s := quarterRound s 1 5 9 13
  let s := quarterRound s 2 6 10 14
  let s := quarterRound s 3 7 11 15
  let s := quarterRound s 0 5 10 15
  let s := quarterRound s 1 6 11 12
  let s := quarterRound s 2 7 8 13
  quarterRound s 3 4 9 14

def start (key : Key) (number : Nat) : State :=
  -- four constants, the key, the number with its low word first, and two words of zero
  #v[0x61707865, 0x3320646e, 0x79622d32, 0x6b206574,
    key[0], key[1], key[2], key[3], key[4], key[5], key[6], key[7],
    UInt32.ofNat number, UInt32.ofNat (number / 0x100000000), 0, 0]

/-- The block with this number: ten double rounds, added to the state they began with. -/
def block (key : Key) (number : Nat) : State :=
  let s := start key number
  (Nat.repeat doubleRound 10 s).zipWith (· + ·) s

end ChaCha

/-! ## Generators -/

structure Generator where
  key : ChaCha.Key
  drawn : Nat
  deriving DecidableEq, Repr

namespace Generator

/-! ### Keys from seeds -/

/-- The next state of the linear generator that spreads a seed over a key. -/
def spread (state : UInt64) : UInt64 :=
  state * 6364136223846793005 + 11634580027462260723

/-- The word that a state gives. -/
def mix (state : UInt64) : UInt32 :=
  -- the high bits are folded and rotated by as much as the highest five of them say
  let folded := (((state >>> 18) ^^^ state) >>> 27).toUInt32
  let amount := (state >>> 59).toUInt32
  (folded >>> amount) ||| (folded <<< ((32 - amount) % 32))

def spreadTimes (seed : UInt64) (count : Nat) : UInt64 :=
  Nat.repeat spread count seed

/-- The generator of a seed, from which nothing was drawn. -/
def ofSeed (seed : UInt64) : Generator :=
  ⟨Vector.ofFn fun i => mix (spreadTimes seed (i.val + 1)), 0⟩

/-! ### Drawing -/

def word (g : Generator) (k : Nat) : UInt32 :=
  (ChaCha.block g.key (k / 16)).get ⟨k % 16, Nat.mod_lt k (by decide)⟩

/-- The byte that is drawn next: the low byte of the next word. -/
def peek (g : Generator) : UInt8 :=
  (g.word g.drawn).toUInt8

def advance (g : Generator) : Generator :=
  { g with drawn := g.drawn + 1 }

end Generator
end Chip8
