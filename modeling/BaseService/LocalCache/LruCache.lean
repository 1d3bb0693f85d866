import BaseService.Java
import BaseService.Data.Links

/-!
# `LruCache`

The bounded hash table under `TimedCache`: hash chains, and two LRU lists for the items seen once
and more than once. Items are references; each field of `CacheItem` is a map from references, so
that `item._prevLru` is `s.prevLru item`.

An operation is `none` when it does not complete: a null pointer is followed or a loop does not
end. Loops over a hash chain carry a fuel of the number of allocated items, which a chain without
repetition never exceeds; the eviction loop leaves its state unchanged once it stops removing
items, so its fuel is decisive as well. Listeners (`CacheListener`, `LruListener`) are not run:
`_isEnableListeners` stays `true` and no listener is registered by the cache itself.
-/

namespace BaseService.LocalCache
open Function (update)
open Links (relink rehead)

/-- A reference to a `CacheItem`. -/
abbrev Ref := Nat

structure LruCache (K V : Type) where
  capacity : Int
  capacity1 : Int
  /-- `_entries`, of `length` buckets. -/
  entries : Nat → Option Ref
  length : Nat
  prime : Nat
  size1 : Int
  head1 : Option Ref
  tail1 : Option Ref
  size2 : Int
  head2 : Option Ref
  tail2 : Option Ref
  lruTimeout : Int
  isLruTailRemove : Bool
  lruCounter : Int
  isEnableStatistics : Bool
  cacheHitCount : Int
  missCount : Int
  -- the fields of the items
  nextHash : Ref → Option Ref
  prevLru : Ref → Option Ref
  nextLru : Ref → Option Ref
  itemLruCounter : Ref → Int
  key : Ref → Option K
  value : Ref → Option V
  hitCount : Ref → Int
  /-- The number of items created so far; the next one gets this reference. -/
  allocated : Nat

/-! ## Construction -/

/-- `Primes.PRIMES`. -/
def PRIMES : List Nat :=
  [1, 2, 3, 7, 13, 31, 61, 127, 251, 509, 1021, 2039, 4093, 8191, 16381, 32749, 65521, 131071,
    262139, 524287, 1048573, 2097143, 4194301, 8388593, 16777213, 33554393, 67108859, 134217689,
    268435399]

/-- `Primes.getBiggestPrime`. -/
def getBiggestPrime (value : Nat) : Nat := (PRIMES.reverse.find? (· ≤ value)).getD 2

/-- `for (capacity = 16; capacity < bound; capacity *= 2) {}`. After 28 doublings the `int` is `0`
and stays `0`, so a loop that outlives its fuel of 32 never ends. -/
def tableSize (bound : Int) : Nat → Int → Option Int
  | 0, _ => none
  | fuel + 1, capacity =>
    if capacity < bound then tableSize bound fuel (wrapInt (capacity * 2)) else some capacity

namespace LruCache
variable {K V : Type}

/-- `new LruCache(initialCapacity, isStatistics)`. -/
def new (initialCapacity : Int) (isStatistics : Bool) : Option (LruCache K V) :=
  (tableSize (wrapInt (2 * initialCapacity)) 32 16).map fun capacity =>
    { capacity := initialCapacity
      capacity1 := initialCapacity.tdiv 2
      entries := fun _ => none
      length := capacity.toNat
      prime := getBiggestPrime capacity.toNat
      size1 := 0, head1 := none, tail1 := none
      size2 := 0, head2 := none, tail2 := none
      lruTimeout := if initialCapacity > 32 then initialCapacity.tdiv 32 else 1
      isLruTailRemove := false
      lruCounter := 0
      isEnableStatistics := isStatistics
      cacheHitCount := 0
      missCount := 0
      nextHash := fun _ => none
      prevLru := fun _ => none
      nextLru := fun _ => none
      itemLruCounter := fun _ => 0
      key := fun _ => none
      value := fun _ => none
      hitCount := fun _ => 0
      allocated := 0 }

def size (s : LruCache K V) : Int := wrapInt (s.size1 + s.size2)

/-! ## The LRU lists -/

/-- `x & 0x3fffffff`. -/
def mask (x : Int) : Int := x % 0x40000000

/-- The item between `prevLru` and `nextLru` leaves the used-once list. -/
def unlink1 (s : LruCache K V) (prevLru nextLru : Option Ref) : LruCache K V :=
  { s with
    nextLru := relink s.nextLru prevLru nextLru
    head1 := rehead s.head1 prevLru nextLru
    prevLru := relink s.prevLru nextLru prevLru
    tail1 := rehead s.tail1 nextLru prevLru }

/-- The item between `prevLru` and `nextLru` leaves the used-twice list. -/
def unlink2 (s : LruCache K V) (prevLru nextLru : Option Ref) : LruCache K V :=
  { s with
    nextLru := relink s.nextLru prevLru nextLru
    head2 := rehead s.head2 prevLru nextLru
    prevLru := relink s.prevLru nextLru prevLru
    tail2 := rehead s.tail2 nextLru prevLru }

/-- The first hit moves an item from the used-once list to the head of the used-twice list. -/
def promote (s : LruCache K V) (item : Ref) : LruCache K V :=
  let prevLru := s.prevLru item
  let nextLru := s.nextLru item
  let s := { s with
    prevLru := update s.prevLru item none
    nextLru := update s.nextLru item s.head2 }
  let s := s.unlink1 prevLru nextLru
  { s with
    prevLru := relink s.prevLru s.head2 (some item)
    tail2 := rehead s.tail2 s.head2 (some item)
    head2 := some item
    size1 := wrapInt (s.size1 - 1)
    size2 := wrapInt (s.size2 + 1) }

/-- A later hit moves an item to the head of the used-twice list. -/
def moveToHead (s : LruCache K V) (item : Ref) : Option (LruCache K V) :=
  let prevLru := s.prevLru item
  let nextLru := s.nextLru item
  if s.head2 = some item then some s
  else
    let s := { s with
      prevLru := update s.prevLru item none
      nextLru := update s.nextLru item s.head2 }
    match prevLru, s.head2 with
    | some p, some h =>
      let s := { s with
        nextLru := update s.nextLru p nextLru
        prevLru := update s.prevLru h (some item)
        head2 := some item }
      some { s with
        prevLru := relink s.prevLru nextLru prevLru
        tail2 := rehead s.tail2 nextLru prevLru }
    -- `prevLru._nextLru` or `_head2._prevLru` of null
    | _, _ => none

/-- `_lruCounter = (_lruCounter + 1) & 0x3fffffff; item._lruCounter = _lruCounter;`. -/
def stamp (s : LruCache K V) (item : Ref) : LruCache K V :=
  let s := { s with lruCounter := mask (s.lruCounter + 1) }
  { s with itemLruCounter := update s.itemLruCounter item s.lruCounter }

def updateLruImpl (s : LruCache K V) (item : Ref) : Option (LruCache K V) :=
  let s := s.stamp item
  let hitCount := s.hitCount item
  -- item deleted before update
  if hitCount ≤ 0 then some s
  else
    let s := { s with hitCount := update s.hitCount item (wrapInt (hitCount + 1)) }
    if hitCount = 1 then some (s.promote item) else s.moveToHead item

/-- Update the LRU only if the item was not used recently. -/
def updateLru (s : LruCache K V) (item : Ref) : Option (LruCache K V) :=
  let delta := mask (s.lruCounter - s.itemLruCounter item)
  if s.lruTimeout < delta ∨ delta < 0 then s.updateLruImpl item else some s

def removeLruItem (s : LruCache K V) (item : Ref) : LruCache K V :=
  let s := { s with lruCounter := mask (s.lruCounter + 1) }
  let prevLru := s.prevLru item
  let nextLru := s.nextLru item
  let s := { s with
    prevLru := update s.prevLru item none
    nextLru := update s.nextLru item none }
  let hitCount := s.hitCount item
  let s := { s with hitCount := update s.hitCount item (-1) }
  if hitCount ≤ 0 then s
  else if hitCount = 1 then
    { s with size1 := wrapInt (s.size1 - 1) }.unlink1 prevLru nextLru
  else
    { s with size2 := wrapInt (s.size2 - 1) }.unlink2 prevLru nextLru

/-! ## The hash table -/

variable [DecidableEq K] [HashCode K]

/-- The bucket of a key: `(okey.hashCode() & 0x7fffffff) % _prime`. -/
def bucket (s : LruCache K V) (okey : K) : Nat :=
  (hashCode okey &&& 0x7fffffff#32).toNat % s.prime

/-- The item of `okey` in the chain from a reference on. -/
def findItem (s : LruCache K V) (okey : K) : Nat → Option Ref → Option (Option Ref)
  | _, none => some none
  | 0, some _ => none
  | fuel + 1, some item =>
    if s.key item = some okey then some (some item) else findItem s okey fuel (s.nextHash item)

omit [DecidableEq K] [HashCode K] in
/-- `if (_isEnableStatistics) _hitCount++;`. -/
def countHit (s : LruCache K V) : LruCache K V :=
  if s.isEnableStatistics then { s with cacheHitCount := wrapLong (s.cacheHitCount + 1) } else s

omit [DecidableEq K] [HashCode K] in
/-- `if (_isEnableStatistics) _missCount++;`. -/
def countMiss (s : LruCache K V) : LruCache K V :=
  if s.isEnableStatistics then { s with missCount := wrapLong (s.missCount + 1) } else s

def get (s : LruCache K V) (key : K) : Option (LruCache K V × Option V) := do
  let item ← s.findItem key s.allocated (s.entries (s.bucket key))
  match item with
  | some item =>
    let s ← s.updateLru item
    let s := s.countHit
    some (s, s.value item)
  | none => some (s.countMiss, none)

/-- The item of `okey` and the item before it in its chain. -/
def findPrev (s : LruCache K V) (okey : K) :
    Nat → Option Ref → Option Ref → Option (Option (Option Ref × Ref))
  | _, _, none => some none
  | 0, _, some _ => none
  | fuel + 1, prevItem, some item =>
    if s.key item = some okey then some (some (prevItem, item))
    else findPrev s okey fuel (some item) (s.nextHash item)

omit [DecidableEq K] [HashCode K] in
/-- `if (prevItem != null) prevItem._nextHash = nextHash; else _entries[hash] = nextHash;`. -/
def unchain (s : LruCache K V) (hash : Nat) (prevItem : Option Ref) (item : Ref) : LruCache K V :=
  match prevItem with
  | some p => { s with nextHash := update s.nextHash p (s.nextHash item) }
  | none => { s with entries := update s.entries hash (s.nextHash item) }

def remove (s : LruCache K V) (key : K) : Option (LruCache K V × Option V) := do
  let hash := s.bucket key
  let found ← s.findPrev key s.allocated none (s.entries hash)
  match found with
  | none => some (s, none)
  | some (prevItem, item) =>
    let s := s.removeLruItem item
    let s := s.unchain hash prevItem item
    some (s, s.value item)

/-- Removes the last item of a list; `false` when both lists are empty. -/
def removeTail (s : LruCache K V) : Option (LruCache K V × Bool) :=
  let tail := if s.capacity1 ≤ s.size1 then s.tail1 else none
  match (tail.or s.tail2).or s.tail1 with
  | none => some (s, false)
  | some tail => do
    let key ← s.key tail
    let (s, _) ← s.remove key
    some (s, true)

/-- `while (_capacity <= _size1 + _size2 && removeTail()) {}`. -/
def removeTails : Nat → LruCache K V → Option (LruCache K V)
  | 0, _ => none
  | fuel + 1, s =>
    if s.capacity ≤ s.size then do
      let (s, more) ← s.removeTail
      if more then removeTails fuel s else some s
    else some s

/-- Removes LRU items until the cache is below capacity. -/
def removeLru (s : LruCache K V) : Option (LruCache K V) :=
  if s.capacity ≤ s.size then
    if s.isLruTailRemove then some s
    else do
      let s ← removeTails (s.allocated + 2) { s with isLruTailRemove := true }
      some { s with isLruTailRemove := false }
  else some s

/-- A new item enters the used-once list and its hash chain. -/
def insert (s : LruCache K V) (key : K) (value : V) : LruCache K V :=
  let hash := s.bucket key
  let next := s.entries hash
  let item := s.allocated
  { s with
    allocated := s.allocated + 1
    key := update s.key item (some key)
    value := update s.value item (some value)
    hitCount := update s.hitCount item 1
    lruCounter := mask (s.lruCounter + 1)
    size1 := wrapInt (s.size1 + 1)
    itemLruCounter := update s.itemLruCounter item (wrapInt (-(s.lruTimeout + 16)))
    nextLru := update s.nextLru item s.head1
    prevLru := relink (update s.prevLru item none) s.head1 (some item)
    head1 := some item
    tail1 := if s.tail1 = none then some item else s.tail1
    nextHash := update s.nextHash item next
    entries := update s.entries hash (some item) }

/-- `compareAndPut(testValue, key, value, isCompare)`. -/
def compareAndPut [DecidableEq V] (s : LruCache K V) (testValue : Option V) (key : K) (value : V)
    (isCompare : Bool) : Option (LruCache K V × Option V) := do
  let s ← s.removeLru
  let item ← s.findItem key s.allocated (s.entries (s.bucket key))
  match item with
  | some item =>
    -- matching item gets replaced
    let s ← s.updateLru item
    let oldValue := s.value item
    if isCompare ∧ testValue ≠ oldValue then some (s, oldValue)
    else
      let s := { s with value := update s.value item (some value) }
      let oldValue := if some value = oldValue then none else oldValue
      if isCompare ∧ testValue ≠ oldValue then some (s, none) else some (s, oldValue)
  | none =>
    if isCompare ∧ testValue ≠ none then some (s, none) else some (s.insert key value, none)

def put [DecidableEq V] (s : LruCache K V) (key : K) (value : V) :
    Option (LruCache K V × Option V) :=
  s.compareAndPut none key value false

omit [DecidableEq K] [HashCode K] in
/-- `for (; item != null; item = item._nextHash) removeLruItem(item);`. -/
def clearChain : Nat → LruCache K V → Option Ref → Option (LruCache K V)
  | _, s, none => some s
  | 0, _, some _ => none
  | fuel + 1, s, some item => clearChain fuel (s.removeLruItem item) (s.nextHash item)

/-- The buckets below `n`, the last one first. -/
def clearBuckets : Nat → LruCache K V → Option (LruCache K V)
  | 0, s => some s
  | i + 1, s => do
    let item := s.entries i
    let s := { s with entries := update s.entries i none }
    let s ← clearChain s.allocated s item
    clearBuckets i s

def clear (s : LruCache K V) : Option (LruCache K V) :=
  if s.size1 = 0 ∧ s.size2 = 0 then some s else clearBuckets s.length s

/-- What the hash table answers for a key. -/
def lookup (s : LruCache K V) (key : K) : Option V :=
  (s.findItem key s.allocated (s.entries (s.bucket key))).join.bind s.value

end LruCache

end BaseService.LocalCache
