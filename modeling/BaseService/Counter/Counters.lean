import BaseService.Counter.CounterKey
import BaseService.LocalCache.Keys
import BaseService.Redis.Server
import BaseService.StringUtils

/-!
# `Counters`

The counters are entries of Redis under a prefix and the text of their key. A constant with a cache keeps
what `getCount` has read there.

* `JedisFactory` : the commands that the counters send;
* `Counters`, `Counting` : the constants, their caches and the server;
* `incr`, `reset`, `getCount` and so on : the methods;
* `Change` : the calls that write; `apply_leaves` : they leave the caches and the other entries.
-/

namespace BaseService.Counter
open Function (update)
open LocalCache (TimedCache)

/-! ## `JedisFactory` -/

namespace JedisFactory

/-- `get`; null for an entry that is no string. -/
def get (key : String) (server : Redis.Server) : Option String :=
  match server key with
  | some (.string s) => some s
  | _ => none

def set (key value : String) (server : Redis.Server) : Redis.Server × Option String :=
  match Redis.Command.exec ⟨key, .set value⟩ server with
  | some (server, _) => (server, some "OK")
  | none => (server, none)

/-- `incrBy`; the exception of an error reply is caught. -/
def incrBy (key : String) (increment : Int) (server : Redis.Server) : Redis.Server × Int :=
  match Redis.Command.exec ⟨key, .incrBy increment⟩ server with
  | some (server, .integer n) => (server, n)
  | _ => (server, -1)

end JedisFactory

/-! ## The constants -/

inductive Counters
  | CLIENT_SUB_COUNTER
  | CLIENT_CLOUD_COUNTER
  deriving DecidableEq, Repr

namespace Counters

/-- The field `prefix`. -/
def counterPrefix : Counters → String
  | CLIENT_SUB_COUNTER => "C_CLIENT_SUB_"
  | CLIENT_CLOUD_COUNTER => "C_CLIENT_CLOUD_"

def needCache : Counters → Bool
  | CLIENT_SUB_COUNTER => true
  | CLIENT_CLOUD_COUNTER => false

def cacheCapacity : Int := 10000

def cacheExpire : Int64 := 30 * 1000

/-- `COUNTER_CACHE` as the constructors make it. -/
def newCache (this : Counters) : Option (TimedCache String Int64) :=
  if this.needCache then TimedCache.new cacheCapacity cacheExpire false else none

end Counters

/-- The server, and `COUNTER_CACHE` of each constant. -/
structure Counting where
  server : Redis.Server
  cache : Counters → Option (TimedCache String Int64)

namespace Counting

def init (server : Redis.Server) : Counting := ⟨server, Counters.newCache⟩

def setCache (s : Counting) (this : Counters) (cache : TimedCache String Int64) : Counting :=
  { s with cache := update s.cache this (some cache) }

theorem setCache_cases {s : Counting} {this counter : Counters} {cache cache' : TimedCache String Int64}
    (h : (s.setCache this cache).cache counter = some cache') :
    counter = this ∧ cache' = cache ∨ s.cache counter = some cache' := by
  have h : update s.cache this (some cache) counter = some cache' := h
  rw [Function.update_apply] at h
  split at h
  · next heq => exact .inl ⟨heq, (Option.some.inj h).symm⟩
  · exact .inr h

/-- The assignment to `count` for what `JedisFactory.get` returns. -/
def parse (s : Counting) (key : String) (count : Option Int64) : Option Int64 :=
  match JedisFactory.get key s.server with
  | none => count
  | some ret => if StringUtils.isBlank ret then count else some ((Long.valueOf ret).getD (-1))

end Counting

/-- `count.longValue()`. -/
def longValue : Option Int64 → Outcome Int64
  | some count => .ok count
  | none => .error .nullPointer

namespace Counters
variable {ν : Type} [ToString ν] (this : Counters) (counterKey : CounterKey ν)

/-- The exception of a key without parts is caught. -/
def incrBy (increment : Int) (s : Counting) : Counting × Int :=
  match counterKey.toString with
  | none => (s, 0)
  | some key =>
    let (server, n) := JedisFactory.incrBy (this.counterPrefix ++ key) increment s.server
    ({ s with server := server }, n)

def incr (s : Counting) : Counting × Int := this.incrBy counterKey 1 s

def decr (s : Counting) : Counting × Int := this.incrBy counterKey (-1) s

/-- Nothing is caught here. -/
def decrBy (decrement : Int) (s : Counting) : Counting × Outcome Int :=
  match counterKey.toString with
  | none => (s, .error .indexOutOfBounds)
  | some key =>
    let (server, n) := JedisFactory.incrBy (this.counterPrefix ++ key) (-decrement) s.server
    ({ s with server := server }, .ok n)

def reset (count : Int64) (s : Counting) : Counting × Outcome Bool :=
  match counterKey.toString with
  | none => (s, .error .indexOutOfBounds)
  | some key =>
    let (server, ret) := JedisFactory.set (this.counterPrefix ++ key) (toString count) s.server
    ({ s with server := server }, .ok (ret.any fun ret => !StringUtils.isBlank ret))

/-- `getCount`, with the clock as the cache reads it; `none` : an operation of the cache does not
complete. -/
def getCount (now now' : Int64) (s : Counting) : Option (Counting × Outcome Int64) :=
  match counterKey.toString with
  | none => some (s, .error .indexOutOfBounds)
  | some key =>
    match s.cache this with
    | none => some (s, longValue (s.parse (this.counterPrefix ++ key) (some (-1))))
    | some cache => do
      let (cache, count) ← cache.get key now now
      let s := s.setCache this cache
      match count with
      | .error e => some (s, .error e)
      | .ok (some count) => some (s, .ok count)
      | .ok none =>
        let count := s.parse (this.counterPrefix ++ key) none
        let (cache, _) ← cache.put key count none now'
        some (s.setCache this cache, longValue count)

end Counters

/-! ## The calls that write -/

/-- A call that writes. -/
inductive Change
  | incr
  | incrBy (increment : Int64)
  | decr
  | decrBy (decrement : Int64)
  | reset (count : Int64)

namespace Change
variable {ν : Type} [ToString ν]

/-- What the call makes of the state. -/
def apply (this : Counters) (counterKey : CounterKey ν) (s : Counting) : Change → Counting
  | incr => (this.incr counterKey s).1
  | incrBy increment => (this.incrBy counterKey increment.toInt s).1
  | decr => (this.decr counterKey s).1
  | decrBy decrement => (this.decrBy counterKey decrement.toInt s).1
  | reset count => (this.reset counterKey count s).1

/-- The state that a call leaves: the caches are the same, and so are the entries of other texts. -/
structure Leaves (this : Counters) (counterKey : CounterKey ν) (s s' : Counting) : Prop where
  cache : s'.cache = s.cache
  entry {key' : String} : (∀ key, counterKey.toString = some key → key' ≠ this.counterPrefix ++ key) →
    s'.server key' = s.server key'

/-- An error reply leaves the server as it is. -/
theorem incrBy_other {key key' : String} (h : key' ≠ key) (increment : Int) (server : Redis.Server) :
    (JedisFactory.incrBy key increment server).1 key' = server key' := by
  unfold JedisFactory.incrBy
  split
  · next hexec =>
    obtain ⟨r, -, heq⟩ := Option.map_eq_some_iff.1 hexec
    rw [← (Prod.mk.inj heq).1]
    exact Function.update_of_ne h ..
  · rfl

theorem set_other {key key' : String} (h : key' ≠ key) (value : String) (server : Redis.Server) :
    (JedisFactory.set key value server).1 key' = server key' :=
  Function.update_of_ne h ..

variable (this : Counters) (counterKey : CounterKey ν) (s : Counting)

theorem incrBy_leaves (increment : Int) :
    Leaves this counterKey s (this.incrBy counterKey increment s).1 := by
  unfold Counters.incrBy
  split
  · exact ⟨rfl, fun _ => rfl⟩
  · next key hkey => exact ⟨rfl, fun h => incrBy_other (h key hkey) increment s.server⟩

theorem decrBy_leaves (decrement : Int) :
    Leaves this counterKey s (this.decrBy counterKey decrement s).1 := by
  unfold Counters.decrBy
  split
  · exact ⟨rfl, fun _ => rfl⟩
  · next key hkey => exact ⟨rfl, fun h => incrBy_other (h key hkey) (-decrement) s.server⟩

theorem reset_leaves (count : Int64) :
    Leaves this counterKey s (this.reset counterKey count s).1 := by
  unfold Counters.reset
  split
  · exact ⟨rfl, fun _ => rfl⟩
  · next key hkey => exact ⟨rfl, fun h => set_other (h key hkey) _ s.server⟩

theorem apply_leaves (change : Change) :
    Leaves this counterKey s (change.apply this counterKey s) := by
  cases change with
  | incr => exact incrBy_leaves this counterKey s 1
  | incrBy increment => exact incrBy_leaves this counterKey s increment.toInt
  | decr => exact incrBy_leaves this counterKey s (-1)
  | decrBy decrement => exact decrBy_leaves this counterKey s decrement.toInt
  | reset count => exact reset_leaves this counterKey s count

/-- What `reset` leaves in the entry. -/
theorem get_reset {key : String} (hkey : counterKey.toString = some key) (count : Int64) :
    JedisFactory.get (this.counterPrefix ++ key) ((reset count).apply this counterKey s).server =
      some (ToString.toString count) := by
  rw [apply, Counters.reset, hkey, JedisFactory.get]
  show (match update s.server _ (some (Redis.Value.string _)) _ with | some (.string s) => _ | _ => _) = _
  rw [Function.update_self]

end Change

end BaseService.Counter
