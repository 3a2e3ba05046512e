/-! A bounded cache of compiled things, by a key.

A key is compiled when it is first asked for, and what comes of it is kept. A cache that is full is emptied
before the next entry goes in. A compilation that fails leaves nothing behind but the count of the miss.
-/

set_option autoImplicit false

namespace QueryTree

structure CacheStats where
  entries : Nat
  hits : Nat
  misses : Nat
  compiles : Nat
  evictions : Nat
  deriving DecidableEq, Repr, Inhabited

structure Cache (κ ν : Type) where
  capacity : Nat
  entries : List (κ × ν) := []
  hits : Nat := 0
  misses : Nat := 0
  compiles : Nat := 0
  /-- How often the cache was emptied because it was full. -/
  evictions : Nat := 0

namespace Cache

variable {κ ν ε : Type}

/-- An empty cache with room for one entry at least. -/
def ofCapacity (capacity : Nat) : Cache κ ν := { capacity := max capacity 1 }

def size (c : Cache κ ν) : Nat := c.entries.length

def isFull (c : Cache κ ν) : Bool := c.capacity ≤ c.size

def find? [BEq κ] (c : Cache κ ν) (key : κ) : Option ν := (c.entries.find? (·.1 == key)).map (·.2)

/-- Keep what an absent key was compiled to. -/
def insert (c : Cache κ ν) (key : κ) (value : ν) : Cache κ ν :=
  { c with
    entries := (key, value) :: if c.isFull then [] else c.entries
    misses := c.misses + 1
    compiles := c.compiles + 1
    evictions := if c.isFull then c.evictions + 1 else c.evictions }

/-- The entry of a key, compiled when absent. -/
def getOrCompile [BEq κ] (key : κ) (compile : κ → Except ε ν) :
    ExceptT ε (StateM (Cache κ ν)) ν := fun c =>
  match c.find? key with
  | some value => (.ok value, { c with hits := c.hits + 1 })
  | none =>
    match compile key with
    | .ok value => (.ok value, c.insert key value)
    | .error e => (.error e, { c with misses := c.misses + 1 })

/-- Without entries; the counts go on. -/
def clear (c : Cache κ ν) : Cache κ ν := { c with entries := [] }

def stats (c : Cache κ ν) : CacheStats :=
  { entries := c.size, hits := c.hits, misses := c.misses, compiles := c.compiles, evictions := c.evictions }

end Cache

end QueryTree
