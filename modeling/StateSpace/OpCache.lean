import StateSpace.Fault
import StateSpace.Pairing
import Std.Data.HashMap

/-!
# Operation caches

A direct-mapped cache remembers results by key. Keys whose hashes select the same slot displace each
other, and a look-up compares the whole key, so an answer is never that of another key.
-/

namespace StateSpace

/-- A cache of at most one result per slot, with counts of the look-ups. -/
structure OpCache (κ ν : Type) where
  slots : Std.HashMap UInt64 (κ × ν)
  /-- Bits of a hash that select the slot. -/
  mask : UInt64
  hits : Nat
  misses : Nat

namespace OpCache

variable {κ ν : Type}

/-- An empty cache of `2^bits` slots. -/
def create (bits : Nat) : Except Fault (OpCache κ ν) :=
  if bits ≤ 31 then
    .ok { slots := ∅, mask := lowBits bits, hits := 0, misses := 0 }
  else .error .cacheBits

variable [WordHash κ]

/-- The slot of a key. -/
def slot (c : OpCache κ ν) (k : κ) : UInt64 := wordHash k &&& c.mask

/-- The result kept for a key. -/
def peek [DecidableEq κ] (c : OpCache κ ν) (k : κ) : Option ν :=
  match c.slots[c.slot k]? with
  | some (k', v) => if k' = k then some v else none
  | none => none

/-- Looks a key up and counts the look-up. -/
def get [DecidableEq κ] (c : OpCache κ ν) (k : κ) : Option ν × OpCache κ ν :=
  match c.peek k with
  | some v => (some v, { c with hits := c.hits + 1 })
  | none => (none, { c with misses := c.misses + 1 })

/-- Keeps a result, in place of whatever its slot held. -/
def insert (c : OpCache κ ν) (k : κ) (v : ν) : OpCache κ ν :=
  let i := c.slot k
  { c with slots := c.slots.insert i (k, v) }

end OpCache

end StateSpace
