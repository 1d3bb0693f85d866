import BaseService.LocalCache.LruCache

/-!
# `TimedCache`

Entries with deadlines over an `LruCache`, and a second `LruCache` for the groups. An `Entry` is
mutable and lives behind a reference. Every reading of `System.currentTimeMillis()` is an argument;
`get` has two, the one of `getGroup` and the one of `isValid`.

As in `LruCache`, `none` is an operation that does not complete; an exception keeps the changes
made before it. The keys are not null.
-/

namespace BaseService.LocalCache
open Function (update)

structure CacheGroup where
  group : String
  timestamp : Int64
  deriving DecidableEq, Repr

def CacheGroup.equals (this other : CacheGroup) : Bool :=
  other.group = this.group ∧ other.timestamp = this.timestamp

/-- `TimedCache.Entry`. -/
structure Entry (V : Type) where
  expireInterval : Int64
  checkTime : Int64
  value : Option V
  group : Option CacheGroup

namespace Entry
variable {V : Type}

/-- `isValid()`. -/
def isValid (this : Entry V) (now : Int64) : Bool := now < this.checkTime + this.expireInterval

/-- `isValid(group)`. -/
def isValidGroup (this : Entry V) (group : CacheGroup) (now : Int64) : Bool :=
  match this.group with
  | some g => g.equals group
  | none => now < this.checkTime + this.expireInterval

def setExpireInterval (this : Entry V) (expireInterval now : Int64) : Entry V :=
  { this with expireInterval := expireInterval, checkTime := now }

end Entry

structure TimedCache (K V : Type) where
  cache : LruCache K Ref
  groupCache : Option (LruCache String CacheGroup)
  expireInterval : Int64
  /-- The entries created so far. -/
  entry : Ref → Entry V
  allocated : Nat

namespace TimedCache
variable {K V : Type}

/-- `if (isGroup) _groupCache = new LruCache(capacity);`. -/
def newGroupCache (capacity : Int) (isGroup : Bool) :
    Option (Option (LruCache String CacheGroup)) :=
  if isGroup then (LruCache.new capacity false).map some else some none

/-- The constructors; `isGroup` is `false` in the one without groups. -/
def new (capacity : Int) (expireInterval : Int64) (isGroup : Bool) : Option (TimedCache K V) := do
  let cache ← LruCache.new capacity false
  let groupCache ← newGroupCache capacity isGroup
  some { cache, groupCache, expireInterval, allocated := 0,
         entry := fun _ => ⟨0, 0, none, none⟩ }

variable [DecidableEq K] [HashCode K]

/-- `put(key, value, group)`; `put(key, value)` is the one without a group. -/
def put (t : TimedCache K V) (key : K) (value : Option V) (group : Option CacheGroup)
    (now : Int64) : Option (TimedCache K V × Option V) := do
  let entry := t.allocated
  let t := { t with
    entry := update t.entry entry ⟨t.expireInterval, now, value, group⟩
    allocated := t.allocated + 1 }
  let (cache, oldValue) ← t.cache.put key entry
  some ({ t with cache }, oldValue.bind fun r => (t.entry r).value)

omit [DecidableEq K] [HashCode K] in
def getGroup (t : TimedCache K V) (key : String) (now : Int64) :
    Option (TimedCache K V × Outcome CacheGroup) :=
  match t.groupCache with
  | none => some (t, .error .nullPointer)
  | some groupCache => do
    let (groupCache, group) ← groupCache.get key
    match group with
    | some group => some ({ t with groupCache := some groupCache }, .ok group)
    | none =>
      let group : CacheGroup := ⟨key, now⟩
      let (groupCache, _) ← groupCache.put key group
      some ({ t with groupCache := some groupCache }, .ok group)

omit [DecidableEq K] [HashCode K] in
def refrushGroup (t : TimedCache K V) (key : String) (now : Int64) :
    Option (TimedCache K V × Outcome Unit) :=
  match t.groupCache with
  | none => some (t, .error .nullPointer)
  | some groupCache => do
    let (groupCache, _) ← groupCache.put key ⟨key, now⟩
    some ({ t with groupCache := some groupCache }, .ok ())

/-- `_cache.remove(key); return null;`. -/
def drop (t : TimedCache K V) (key : K) : Option (TimedCache K V × Outcome (Option V)) := do
  let (cache, _) ← t.cache.remove key
  some ({ t with cache }, .ok none)

def get (t : TimedCache K V) (key : K) (groupNow now : Int64) :
    Option (TimedCache K V × Outcome (Option V)) := do
  let (cache, entry) ← t.cache.get key
  let t := { t with cache }
  match entry with
  | none => some (t, .ok none)
  | some r =>
    let entry := t.entry r
    match entry.group with
    | some g =>
      let (t, group) ← t.getGroup g.group groupNow
      match group with
      | .error e => some (t, .error e)
      | .ok group =>
        if entry.isValid now ∧ entry.isValidGroup group now then some (t, .ok entry.value)
        else t.drop key
    | none => if entry.isValid now then some (t, .ok entry.value) else t.drop key

/-- `entry.setExpireInterval(expireInterval)` of the entry of a reference. -/
def setExpireInterval (t : TimedCache K V) (r : Ref) (expireInterval now : Int64) :
    TimedCache K V :=
  { t with entry := update t.entry r ((t.entry r).setExpireInterval expireInterval now) }

/-- `expireInterval(key, expireInterval)`. -/
def expireIntervalOf (t : TimedCache K V) (key : K) (expireInterval now : Int64) :
    Option (TimedCache K V) := do
  let (cache, entry) ← t.cache.get key
  let t := { t with cache }
  match entry with
  | none => some t
  | some r => some (t.setExpireInterval r expireInterval now)

/-- `get(key, expireInterval)`. -/
def getRemains (t : TimedCache K V) (key : K) (expireInterval now : Int64) :
    Option (TimedCache K V × Option V) := do
  let (cache, entry) ← t.cache.get key
  let t := { t with cache }
  match entry with
  | none => some (t, none)
  | some r =>
    let t := t.setExpireInterval r expireInterval now
    some (t, (t.entry r).value)

def remove (t : TimedCache K V) (key : K) : Option (TimedCache K V × Option V) := do
  let (cache, entry) ← t.cache.remove key
  some ({ t with cache }, entry.bind fun r => (t.entry r).value)

omit [DecidableEq K] [HashCode K] in
def removeAll (t : TimedCache K V) : Option (TimedCache K V) := do
  let cache ← t.cache.clear
  some { t with cache }

/-! ## The calls of a client -/

end TimedCache

/-- A call with its clock readings. -/
inductive Call (K V : Type)
  | put (key : K) (value : Option V) (group : Option CacheGroup) (now : Int64)
  | getGroup (key : String) (now : Int64)
  | refrushGroup (key : String) (now : Int64)
  | get (key : K) (groupNow now : Int64)
  | expireInterval (key : K) (expireInterval now : Int64)
  | getRemains (key : K) (expireInterval now : Int64)
  | remove (key : K)
  | removeAll
  deriving DecidableEq

/-- What a call answers. -/
inductive Answer (V : Type)
  | value (v : Option V)
  | group (g : CacheGroup)
  | void
  | thrown (e : Thrown)
  deriving DecidableEq

/-- The answer of a call that may throw. -/
def Answer.of {α V : Type} (f : α → Answer V) : Outcome α → Answer V
  | .ok a => f a
  | .error e => .thrown e

namespace TimedCache
variable {K V : Type} [DecidableEq K] [HashCode K]

def call (t : TimedCache K V) : Call K V → Option (TimedCache K V × Answer V)
  | .put k v g now => (t.put k v g now).map fun p => (p.1, .value p.2)
  | .getGroup g now => (t.getGroup g now).map fun p => (p.1, .of .group p.2)
  | .refrushGroup g now => (t.refrushGroup g now).map fun p => (p.1, .of (fun _ => .void) p.2)
  | .get k groupNow now => (t.get k groupNow now).map fun p => (p.1, .of .value p.2)
  | .expireInterval k d now => (t.expireIntervalOf k d now).map fun t => (t, .void)
  | .getRemains k d now => (t.getRemains k d now).map fun p => (p.1, .value p.2)
  | .remove k => (t.remove k).map fun p => (p.1, .value p.2)
  | .removeAll => t.removeAll.map fun t => (t, .void)

end TimedCache

end BaseService.LocalCache
