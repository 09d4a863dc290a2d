import OrderRail.Random.Draw

/-!
# The ChaCha key stream and its seeds

A key of eight words selects an endless stream of blocks of sixteen words, twelve rounds each,
addressed by a 64-bit counter with nonce zero. A 64-bit seed is stretched to a key by eight steps
of a linear congruential generator whose output is permuted by a rotation that the state chooses.
-/

namespace OrderRail

/-- The key of a stream. -/
abbrev Key := Vector UInt32 8

namespace KeyStream

/-- The sixteen words on which the rounds work. -/
abbrev State := Vector UInt32 16

/-- Rotate a word to the left. -/
def rotateLeft (x : UInt32) (n : UInt32) : UInt32 := (x <<< n) ||| (x >>> (32 - n))

/-- Mix four words of the state. -/
def quarterRound (s : State) (a b c d : Fin 16) : State :=
  let s := s.set a (s[a] + s[b])
  let s := s.set d (rotateLeft (s[d] ^^^ s[a]) 16)
  let s := s.set c (s[c] + s[d])
  let s := s.set b (rotateLeft (s[b] ^^^ s[c]) 12)
  let s := s.set a (s[a] + s[b])
  let s := s.set d (rotateLeft (s[d] ^^^ s[a]) 8)
  let s := s.set c (s[c] + s[d])
  s.set b (rotateLeft (s[b] ^^^ s[c]) 7)

/-- A round over the columns and one over the diagonals. -/
def doubleRound (s : State) : State :=
  let s := quarterRound s 0 4 8 12
  let s := quarterRound s 1 5 9 13
  let s := quarterRound s 2 6 10 14
  let s := quarterRound s 3 7 11 15
  let s := quarterRound s 0 5 10 15
  let s := quarterRound s 1 6 11 12
  let s := quarterRound s 2 7 8 13
  quarterRound s 3 4 9 14

/-- The state before the rounds: four constants, the key, the counter and a zero nonce. -/
def start (key : Key) (counter : UInt64) : State :=
  #v[0x61707865, 0x3320646e, 0x79622d32, 0x6b206574,
    key[0], key[1], key[2], key[3], key[4], key[5], key[6], key[7],
    counter.toUInt32, (counter >>> 32).toUInt32, 0, 0]

/-- The block at a counter: twelve rounds, then the first state added word by word. -/
def block (key : Key) (counter : UInt64) : State :=
  let first := start key counter
  let last := Nat.repeat doubleRound 6 first
  Vector.zipWith (· + ·) last first

/-- The word at a position of the stream of blocks. -/
def word (key : Key) (position : Nat) : UInt32 :=
  (block key (UInt64.ofNat (position / 16))).get ⟨position % 16, Nat.mod_lt _ (by decide)⟩

/-- A word of the stream is the sum of what the rounds make of its block and of what they start
with. -/
theorem word_eq (key : Key) (position : Nat) :
    word key position =
      let first := start key (UInt64.ofNat (position / 16))
      let last := Nat.repeat doubleRound 6 first
      last.get ⟨position % 16, Nat.mod_lt _ (by decide)⟩ +
        first.get ⟨position % 16, Nat.mod_lt _ (by decide)⟩ :=
  Vector.getElem_zipWith _

end KeyStream

/-- The unused key stream of a key. -/
def Words.ofKey (key : Key) : Words := Words.fresh (KeyStream.word key)

namespace Seed

/-- One step of the generator that stretches seeds. -/
def advance (s : UInt64) : UInt64 := s * 6364136223846793005 + 11634580027462260723

/-- The word that a state gives: its high bits, rotated right by its topmost five. -/
def output (s : UInt64) : UInt32 :=
  let high : UInt32 := (((s >>> 18) ^^^ s) >>> 27).toUInt32
  let turn : UInt32 := (s >>> 59).toUInt32
  (high >>> turn) ||| (high <<< (32 - turn))

/-- The outputs of the `count` states after `s`. -/
def outputs : Nat → UInt64 → List UInt32
  | 0, _ => []
  | count + 1, s => output (advance s) :: outputs count (advance s)

/-- The key to which a seed is stretched. -/
def key (seed : UInt64) : Key :=
  Vector.ofFn fun i => (outputs 8 seed).getD i.val 0

end Seed

end OrderRail
