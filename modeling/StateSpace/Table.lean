import StateSpace.Fault
import StateSpace.Pairing
import Std.Data.HashMap

/-!
# Tables of cells

A table hands out indices of cells. Index 0 is a sentry that is always occupied and never handed
out. Released cells are reused before the table grows, the last released first. `Table.put` stores
each value once: values that share a bucket are chained through their cells, in the order in which
they came.
-/

namespace StateSpace

/-- A cell of a table. -/
structure Cell (α : Type) where
  value : α
  /-- The next cell of the same bucket, 0 at the end of the chain. -/
  next : Nat
  occupied : Bool
deriving Repr

/-- Storage addressed by index, with a free list and hash buckets. -/
structure Table (α : Type) where
  cells : Array (Cell α)
  /-- The first cell of each bucket that has one. -/
  heads : Std.HashMap UInt64 Nat
  /-- Bits of a hash that select the bucket. -/
  mask : UInt64
  /-- Released cells, the next one to reuse first. -/
  free : List Nat
  /-- Number of occupied cells, the sentry apart. -/
  live : Nat

namespace Table

variable {α : Type}

/-- An empty table with `2^bits` buckets, at most `2^16` of them. -/
def create [Inhabited α] (bits : Nat) : Except Fault (Table α) :=
  if bits ≤ 31 then
    .ok { cells := #[⟨default, 0, true⟩], heads := ∅, mask := lowBits (min bits 16),
          free := [], live := 0 }
  else .error .tableBits

/-- Number of cells ever made. -/
def size (t : Table α) : Nat := t.cells.size - 1

/-- Whether a cell is occupied; the sentry must not be asked for. -/
def occupied (t : Table α) (i : Nat) : Except Fault Bool :=
  if i = 0 then .error .zeroIndex
  else match t.cells[i]? with
    | some c => .ok c.occupied
    | none => .ok false

/-- The value of an occupied cell. -/
def get (t : Table α) (i : Nat) : Except Fault α :=
  if i = 0 then .error .zeroIndex
  else match t.cells[i]? with
    | some c => if c.occupied then .ok c.value else .error (.vacant i)
    | none => .error (.vacant i)

/-- The next cell of a chain; that of the sentry is 0. -/
def next (t : Table α) (i : Nat) : Except Fault Nat :=
  match t.cells[i]? with
  | some c => .ok c.next
  | none => .error .outOfRange

/-- Occupies a cell with a value: the last released one, or a new one. -/
def add (v : α) : Action (Table α) Nat := fun t =>
  match t.free with
  | i :: free =>
    .ok i { t with cells := t.cells.setIfInBounds i ⟨v, 0, true⟩, free, live := t.live + 1 }
  | [] =>
    let i := t.cells.size
    .ok i { t with cells := t.cells.push ⟨v, 0, true⟩, live := t.live + 1 }

/-- Releases an occupied cell and returns what it held. -/
def take [Inhabited α] (i : Nat) : Action (Table α) α := fun t =>
  match t.get i with
  | .error e => .error e t
  | .ok v =>
    .ok v { t with cells := t.cells.setIfInBounds i ⟨default, 0, false⟩,
                   free := i :: t.free, live := t.live - 1 }

/-- Replaces the value of an occupied cell. -/
def modify (i : Nat) (f : α → α) : Action (Table α) Unit := fun t =>
  match t.get i with
  | .error e => .error e t
  | .ok _ => .ok () { t with cells := t.cells.modify i fun c => { c with value := f c.value } }

/-- Makes `j` the next cell after `i`. -/
def link (i j : Nat) (t : Table α) : Table α :=
  { t with cells := t.cells.modify i fun c => { c with next := j } }

/-- What a walk along a chain ends with. -/
inductive Probe where
  /-- The value is at this index. -/
  | found (i : Nat)
  /-- The value is not on the chain, which ends at this index. -/
  | last (i : Nat)
deriving DecidableEq, Repr

/-- Walks a chain from cell `i` in search of a value, along at most `fuel` cells. -/
def probe [DecidableEq α] (t : Table α) (v : α) : Nat → Nat → Except Fault Probe
  | 0, i => .ok (.last i)
  | fuel + 1, i =>
    match t.get i with
    | .error e => .error e
    | .ok w =>
      if w = v then .ok (.found i)
      else match t.next i with
        | .error e => .error e
        | .ok 0 => .ok (.last i)
        | .ok j => t.probe v fuel j

/-- The bucket of a value. -/
def bucket [WordHash α] (t : Table α) (v : α) : UInt64 := wordHash v &&& t.mask

/-- The index of a value, which is stored if it is not there yet. A chain visits no cell twice, so
the number of cells bounds the walk. -/
def put [DecidableEq α] [WordHash α] (v : α) : Action (Table α) Nat := fun t =>
  let b := t.bucket v
  match t.heads.getD b 0 with
  | 0 =>
    match add v t with
    | .ok i t => .ok i { t with heads := t.heads.insert b i }
    | .error e t => .error e t
  | head =>
    match t.probe v t.cells.size head with
    | .error e => .error e t
    | .ok (.found i) => .ok i t
    | .ok (.last j) =>
      match add v t with
      | .ok i t => .ok i (t.link j i)
      | .error e t => .error e t

end Table

end StateSpace
