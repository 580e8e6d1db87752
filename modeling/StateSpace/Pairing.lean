/-!
# Hashing by pairing

Structured keys are hashed by pairing their parts. The pairing numbers the pairs of naturals along
the sides of growing squares, so no two pairs of 32-bit words share a number; beyond that the
arithmetic wraps at 64 bits, and a hash is only a hint that is confirmed by comparing keys.
-/

namespace StateSpace

/-- The number of a pair: below the diagonal the squares are filled upwards, above it sideways. -/
def pair (a b : UInt64) : UInt64 :=
  if a < b then b * b + a else a * a + a + b

/-- The number of a triple, paired from the left. -/
def pair3 (a b c : UInt64) : UInt64 := pair (pair a b) c

/-- One step of the hash of a sequence: the state is scrambled, paired with the next word and
spread by an odd factor. -/
def mixWord (acc w : UInt64) : UInt64 :=
  pair (((acc <<< 5) ||| (acc >>> 59)) ^^^ (acc >>> 27)) w * 0x100000001b3

/-- The hash of a sequence of words. -/
def mixWords (words : List UInt64) : UInt64 := words.foldl mixWord 0x9e3779b9

/-- The word whose `bits` lowest bits are set: what it leaves of a hash selects one of `2^bits`
slots. -/
def lowBits (bits : Nat) : UInt64 := UInt64.ofNat (1 <<< bits - 1)

/-- Types whose values are hashed to one word. -/
class WordHash (α : Type) where
  /-- The hash of a value; different values may share it. -/
  wordHash : α → UInt64

export WordHash (wordHash)

instance : WordHash UInt64 := ⟨id⟩

instance : WordHash (UInt64 × UInt64) := ⟨fun p => pair p.1 p.2⟩

instance : WordHash (UInt64 × UInt64 × UInt64) := ⟨fun p => pair3 p.1 p.2.1 p.2.2⟩

end StateSpace
