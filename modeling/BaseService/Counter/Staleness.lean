import BaseService.Counter.Counters
import BaseService.LocalCache.LiveEntries

/-!
# How old the counts are

A count is read from Redis, or from a local cache that the writes bypass.

* `denoted` : the count that an entry of Redis stands for;
* `Timeline` : the calls one after the other on a clock, with the moments that have passed;
* `Bounded` : `getCount` returns a count that the entry denoted at some moment of the last
  `cacheExpire` milliseconds;
* `Served` : there is no cache, or it has a count for the key, or the entry has a text;
* `getCount_cached` : what `getCount` does with a cache;
* `bounded_iff_served` : the calls of a run that are bounded.
-/

namespace BaseService.Counter
open Function (update)
open LocalCache (TimedCache Entry Store)

/-- The entry has a text that is not blank. -/
def Stated (key : String) (server : Redis.Server) : Prop :=
  ∃ ret, JedisFactory.get key server = some ret ∧ StringUtils.isBlank ret = false

/-- An entry that is absent, blank or no number denotes -1. -/
def denoted (key : String) (server : Redis.Server) : Int64 :=
  match JedisFactory.get key server with
  | none => -1
  | some ret => if StringUtils.isBlank ret then -1 else (Long.valueOf ret).getD (-1)

/-- A call of `getCount`, with the clock as the cache reads it. -/
structure Reading (ν : Type) where
  counter : Counters
  counterKey : CounterKey ν
  now : Int64
  now' : Int64

/-- The counters on a clock in milliseconds. -/
structure Timeline where
  counting : Counting
  clock : Int64
  /-- The moments at which a call has ended. -/
  past : List (Int64 × Redis.Server)

namespace Timeline
variable {ν : Type} [ToString ν]

def start (server : Redis.Server) (clock : Int64) : Timeline := ⟨.init server, clock, []⟩

def after (s : Timeline) (counting : Counting) (clock : Int64) : Timeline :=
  ⟨counting, clock, s.past ++ [(clock, counting.server)]⟩

inductive Label (ν : Type)
  | change (counter : Counters) (counterKey : CounterKey ν) (change : Change)
  | getCount (r : Reading ν)

inductive Step : Timeline → Label ν → Timeline → Prop
  | change {s : Timeline} {counter : Counters} {counterKey : CounterKey ν} {change : Change}
    {clock : Int64} :
    s.clock ≤ clock →
      Step s (.change counter counterKey change)
        (s.after (change.apply counter counterKey s.counting) clock)
  | getCount {s : Timeline} {r : Reading ν} {counting : Counting} {o : Outcome Int64} :
    s.clock ≤ r.now → r.now ≤ r.now' →
      r.counter.getCount r.counterKey r.now r.now' s.counting = some (counting, o) →
      Step s (.getCount r) (s.after counting r.now')

/-- The call returns a count that its entry denoted less than `cacheExpire` milliseconds before the call
looked; or then, if the counter is not cached. -/
def Bounded (s : Timeline) (r : Reading ν) : Prop :=
  ∃ counting v, r.counter.getCount r.counterKey r.now r.now' s.counting = some (counting, .ok v) ∧
    ∃ key, r.counterKey.toString = some key ∧
      ∃ moment ∈ s.past ++ [(r.now, s.counting.server)],
        denoted (r.counter.counterPrefix ++ key) moment.2 = v ∧
        r.now.toInt ≤ moment.1.toInt + Counters.cacheExpire.toInt ∧
        (r.counter.needCache = false → moment = (r.now, s.counting.server))

end Timeline

/-- The count that a cache has for a key. -/
def held (cache : TimedCache String Int64) (key : String) (now : Int64) : Option Int64 :=
  (cache.view.entries key).bind fun e => if e.isValid now then e.value else none

/-- The counter has no cache, or the cache has a count for the key, or the entry has a text. -/
def Timeline.Served {ν : Type} (s : Timeline) (r : Reading ν) (key : String) : Prop :=
  r.counter.needCache = false ∨
    (∃ cache, s.counting.cache r.counter = some cache ∧ held cache key r.now ≠ none) ∨
    Stated (r.counter.counterPrefix ++ key) s.counting.server

/-! ## `getCount` -/

theorem parse_stated {s : Counting} {key : String} (h : Stated key s.server) (count : Option Int64) :
    s.parse key count = some (denoted key s.server) := by
  obtain ⟨ret, hret, hblank⟩ := h
  rw [Counting.parse, denoted, hret]
  simp [hblank]

theorem parse_not_stated {s : Counting} {key : String} (h : ¬ Stated key s.server)
    (count : Option Int64) : s.parse key count = count ∧ denoted key s.server = -1 := by
  rw [Counting.parse, denoted]
  cases hret : JedisFactory.get key s.server with
  | none => exact ⟨rfl, rfl⟩
  | some ret =>
    have hblank : StringUtils.isBlank ret = true := by
      by_contra hnot
      exact h ⟨ret, hret, by simpa using hnot⟩
    simp [hblank]

/-- Without a cache -1 is there before the entry is read. -/
theorem parse_default (s : Counting) (key : String) :
    s.parse key (some (-1)) = some (denoted key s.server) := by
  by_cases h : Stated key s.server
  · exact parse_stated h _
  · rw [(parse_not_stated h _).1, (parse_not_stated h (some (-1))).2]

/-- A cache whose entries belong to no groups loses some of them. -/
structure Shrunk (cache cache' : TimedCache String Int64) : Prop where
  inv : cache'.Inv
  expireInterval : cache'.view.expireInterval = cache.view.expireInterval
  entries {key : String} {e : Entry Int64} :
    cache'.view.entries key = some e → cache.view.entries key = some e

/-- `get` on a store without groups. -/
theorem get_plain {s s' : Store String Int64} {key : String} {now : Int64}
    {a : LocalCache.Answer Int64} (h : Store.Step s (.get key now now) a s')
    (hplain : ∀ key e, s.entries key = some e → e.group = none) :
    a = .value ((s.entries key).bind fun e => if e.isValid now then e.value else none) ∧
      s'.expireInterval = s.expireInterval ∧
      ∀ key' e, s'.entries key' = some e → s.entries key' = some e := by
  have hjudge {e : Entry Int64} {o : Outcome Bool} {s' : Store String Int64}
      (he : s.entries key = some e) (hj : s.Judge e now now o s') :
      o = .ok (e.isValid now) ∧ s' = s := by
    cases hj with
    | plain => exact ⟨rfl, rfl⟩
    | grouped hg => rw [hplain key e he] at hg; cases hg
    | thrown hg => rw [hplain key e he] at hg; cases hg
  cases h with
  | miss he => exact ⟨by rw [he]; rfl, rfl, fun _ _ he' => he'⟩
  | live he hj =>
    obtain ⟨hvalid, rfl⟩ := hjudge he hj
    rw [he, Option.bind_some, if_pos (Except.ok.inj hvalid).symm]
    exact ⟨rfl, rfl, fun _ _ he' => he'⟩
  | dead he hj =>
    obtain ⟨hvalid, rfl⟩ := hjudge he hj
    rw [he, Option.bind_some, if_neg (by rw [← Except.ok.inj hvalid]; exact Bool.false_ne_true)]
    exact ⟨rfl, rfl, fun _ _ he' => (Store.erase_entries he').2⟩
  | getThrown he hj => cases (hjudge he hj).1

/-- `TimedCache.get` returns what the cache holds. -/
theorem get_held {cache : TimedCache String Int64} (hi : cache.Inv)
    (hplain : ∀ key e, cache.view.entries key = some e → e.group = none) (key : String) (now : Int64) :
    ∃ cache', cache.get key now now = some (cache', .ok (held cache key now)) ∧ Shrunk cache cache' := by
  obtain ⟨cache', o, hget⟩ := TimedCache.get_completes hi key now now fun e g he hg => by
    rw [hplain key e he] at hg
    cases hg
  obtain ⟨hi', hstep⟩ := TimedCache.get_refines hi hget
  obtain ⟨ha, hinterval, hentries⟩ := get_plain hstep hplain
  refine ⟨cache', ?_, hi', hinterval, fun h => hentries _ _ h⟩
  rw [hget]
  cases o with
  | error e => cases ha
  | ok count => rw [LocalCache.Answer.value.inj ha]; rfl

/-- The caches keep the invariant of `TimedCache`, and their entries belong to no groups. -/
structure Plain (cache : TimedCache String Int64) : Prop where
  inv : cache.Inv
  group : ∀ key e, cache.view.entries key = some e → e.group = none

section
variable {ν : Type} [ToString ν] {s : Counting} {r : Reading ν} {key : String}

theorem getCount_uncached (hkey : r.counterKey.toString = some key)
    (hcache : s.cache r.counter = none) :
    r.counter.getCount r.counterKey r.now r.now' s =
      some (s, .ok (denoted (r.counter.counterPrefix ++ key) s.server)) := by
  unfold Counters.getCount
  rw [hkey]
  simp only [hcache, parse_default]
  rfl

/-- **With a cache** the count that it holds is returned; without one in it, what is read from the entry is
put there first, a null included. -/
theorem getCount_cached (hkey : r.counterKey.toString = some key) {cache : TimedCache String Int64}
    (hcache : s.cache r.counter = some cache) (h : Plain cache) :
    ∃ cache', cache.get key r.now r.now = some (cache', .ok (held cache key r.now)) ∧
      Shrunk cache cache' ∧
      r.counter.getCount r.counterKey r.now r.now' s = match held cache key r.now with
        | some count => some (s.setCache r.counter cache', .ok count)
        | none =>
          (cache'.put key (s.parse (r.counter.counterPrefix ++ key) none) none r.now').map fun p =>
            (s.setCache r.counter p.1,
              longValue (s.parse (r.counter.counterPrefix ++ key) none)) := by
  obtain ⟨cache', hget, hshrunk⟩ := get_held h.inv h.group key r.now
  refine ⟨cache', hget, hshrunk, ?_⟩
  unfold Counters.getCount
  rw [hkey]
  simp only [hcache, hget, Option.bind_eq_bind, Option.bind_some]
  cases held cache key r.now with
  | some count => rfl
  | none =>
    have hparse : (s.setCache r.counter cache').parse (r.counter.counterPrefix ++ key) none =
        s.parse (r.counter.counterPrefix ++ key) none := rfl
    have hset (c : TimedCache String Int64) :
        (s.setCache r.counter cache').setCache r.counter c = s.setCache r.counter c := by
      rw [Counting.setCache, Counting.setCache, Counting.setCache, Function.update_idem]
    simp only [hparse, hset]
    cases cache'.put key (s.parse (r.counter.counterPrefix ++ key) none) none r.now' <;> rfl

end

/-! ## The caches in a run -/

/-- The counts in a cache were denoted at the moments at which they were put there. -/
structure Dated (counter : Counters) (past : List (Int64 × Redis.Server))
    (cache : TimedCache String Int64) : Prop where
  plain : Plain cache
  expireInterval : cache.view.expireInterval = Counters.cacheExpire
  deadline {key : String} {e : Entry Int64} : cache.view.entries key = some e →
    e.expireInterval = Counters.cacheExpire ∧ 0 ≤ e.checkTime
  value {key : String} {e : Entry Int64} {v : Int64} :
    cache.view.entries key = some e → e.value = some v →
      ∃ moment ∈ past, moment.1 = e.checkTime ∧ denoted (counter.counterPrefix ++ key) moment.2 = v

section
variable {counter : Counters} {past past' : List (Int64 × Redis.Server)}
  {cache cache' : TimedCache String Int64}

theorem Dated.mono (h : Dated counter past cache) (hpast : past ⊆ past') :
    Dated counter past' cache := by
  refine ⟨h.plain, h.expireInterval, h.deadline, fun he hv => ?_⟩
  obtain ⟨moment, hmem, hmoment⟩ := h.value he hv
  exact ⟨moment, hpast hmem, hmoment⟩

theorem Dated.shrink (h : Dated counter past cache) (hs : Shrunk cache cache') :
    Dated counter past cache' :=
  ⟨⟨hs.inv, fun key e he => h.plain.group key e (hs.entries he)⟩,
    hs.expireInterval.trans h.expireInterval, fun he => h.deadline (hs.entries he),
    fun he hv => h.value (hs.entries he) hv⟩

theorem Dated.put (h : Dated counter past cache) {key : String} {count old : Option Int64}
    {now : Int64} (hnow : 0 ≤ now) (hput : cache.put key count none now = some (cache', old))
    (hcount : ∀ v, count = some v →
      ∃ moment ∈ past, moment.1 = now ∧ denoted (counter.counterPrefix ++ key) moment.2 = v) :
    Dated counter past cache' := by
  obtain ⟨hi, hstep⟩ := TimedCache.put_refines h.plain.inv hput
  generalize hview : cache'.view = view at hstep
  generalize hold : cache.view = oldView at hstep
  cases hstep with
  | put ha =>
    have hentry (key' : String) (e : Entry Int64) (he : cache'.view.entries key' = some e) :
        key' = key ∧ e = ⟨Counters.cacheExpire, now, count, none⟩ ∨
          cache.view.entries key' = some e := by
      rw [hview] at he
      by_cases hk : key' = key
      · left
        have hself := ha.self
        rw [← hold, h.expireInterval] at hself
        exact ⟨hk, Option.some.inj (he.symm.trans (hk ▸ hself))⟩
      · right
        rcases ha.other key' hk with heq | heq
        · rw [hold]
          exact heq.symm.trans he
        · exact absurd (heq.symm.trans he) nofun
    refine ⟨⟨hi, fun key' e he => ?_⟩, ?_, fun he => ?_, fun he hv => ?_⟩
    · rcases hentry key' e he with ⟨-, rfl⟩ | he
      · rfl
      · exact h.plain.group key' e he
    · rw [hview, ← h.expireInterval, hold]
    · rcases hentry _ _ he with ⟨-, rfl⟩ | he
      · exact ⟨rfl, hnow⟩
      · exact h.deadline he
    · rcases hentry _ _ he with ⟨rfl, rfl⟩ | he
      · exact hcount _ hv
      · exact h.value he hv

end

namespace Timeline
variable {ν : Type} [ToString ν]

structure Invariant (s : Timeline) : Prop where
  clock : 0 ≤ s.clock
  caches (counter : Counters) : (s.counting.cache counter).isSome = counter.needCache
  dated {counter : Counters} {cache : TimedCache String Int64} :
    s.counting.cache counter = some cache → Dated counter s.past cache

theorem Invariant.after {s : Timeline} (h : s.Invariant) {clock : Int64} (hclock : s.clock ≤ clock)
    {server : Redis.Server} : Invariant (s.after { s.counting with server := server } clock) :=
  ⟨Int64.le_trans h.clock hclock, h.caches, fun hc => (h.dated hc).mono (List.subset_append_left ..)⟩

/-- The step leaves another cache of a counter. -/
theorem Invariant.setCache {s : Timeline} (h : s.Invariant) {clock : Int64} (hclock : s.clock ≤ clock)
    {counter : Counters} {cache cache' : TimedCache String Int64}
    (hcache : s.counting.cache counter = some cache)
    (hdated : Dated counter (s.past ++ [(clock, s.counting.server)]) cache') :
    Invariant (s.after (s.counting.setCache counter cache') clock) := by
  refine ⟨Int64.le_trans h.clock hclock, fun counter' => ?_, fun {counter' c} hc => ?_⟩
  · show (update s.counting.cache counter (some cache') counter').isSome = _
    rw [Function.update_apply]
    split
    · next heq => rw [heq, ← h.caches, hcache]; rfl
    · exact h.caches counter'
  · rcases Counting.setCache_cases hc with ⟨rfl, rfl⟩ | hc
    · exact hdated
    · exact (h.dated hc).mono (List.subset_append_left ..)

theorem Invariant.step {s s' : Timeline} {l : Label ν} (h : s.Invariant) (hs : Step s l s') :
    s'.Invariant := by
  cases hs with
  | @change counter counterKey change clock hclock =>
    have heq : change.apply counter counterKey s.counting =
        ⟨(change.apply counter counterKey s.counting).server, s.counting.cache⟩ := by
      rw [← (Change.apply_leaves counter counterKey s.counting change).cache]
    rw [heq]
    exact h.after hclock
  | @getCount r counting o hnow hnow' hget =>
    have hclock := Int64.le_trans hnow hnow'
    cases hkey : r.counterKey.toString with
    | none =>
      unfold Counters.getCount at hget
      rw [hkey] at hget
      cases hget
      exact h.after hclock
    | some key =>
      cases hcache : s.counting.cache r.counter with
      | none =>
        rw [getCount_uncached hkey hcache] at hget
        cases hget
        exact h.after hclock
      | some cache =>
        have hdated := (h.dated hcache).mono (List.subset_append_left s.past
          [(r.now', s.counting.server)])
        obtain ⟨cache', -, hshrunk, hspec⟩ := getCount_cached hkey hcache hdated.plain
        rw [hspec] at hget
        cases hheld : held cache key r.now with
        | some count =>
          rw [hheld] at hget
          cases hget
          exact h.setCache hclock hcache (hdated.shrink hshrunk)
        | none =>
          rw [hheld] at hget
          obtain ⟨⟨cache'', old⟩, hput, heq⟩ := Option.map_eq_some_iff.1 hget
          cases heq
          refine h.setCache hclock hcache ((hdated.shrink hshrunk).put
            (Int64.le_trans h.clock hclock) hput fun v hv => ?_)
          refine ⟨_, List.mem_concat_self, rfl, ?_⟩
          by_cases hstated : Stated (r.counter.counterPrefix ++ key) s.counting.server
          · rw [parse_stated hstated] at hv
            exact Option.some.inj hv
          · rw [(parse_not_stated hstated none).1] at hv
            cases hv

/-- A new cache has no entries. -/
theorem newCache_spec {counter : Counters} {cache : TimedCache String Int64}
    (h : counter.newCache = some cache) :
    cache.Inv ∧ (∀ key, cache.view.entries key = none) ∧
      cache.view.expireInterval = Counters.cacheExpire := by
  unfold Counters.newCache at h
  split at h
  · obtain ⟨hi, hentries, -, hinterval⟩ := TimedCache.new_spec (by decide) h
    exact ⟨hi, fun key => by rw [hentries], hinterval⟩
  · cases h

theorem Invariant.start {server : Redis.Server} {clock : Int64} (hclock : 0 ≤ clock) :
    (start server clock).Invariant := by
  refine ⟨hclock, fun counter => ?_, fun {counter cache} hcache => ?_⟩
  · show (counter.newCache).isSome = _
    unfold Counters.newCache
    cases counter.needCache with
    | false => rfl
    | true => exact TimedCache.new_isSome (by decide) (by decide) Counters.cacheExpire false
  · obtain ⟨hi, hentries, hinterval⟩ := newCache_spec hcache
    have hnone (key : String) (e : Entry Int64) : cache.view.entries key ≠ some e := by
      rw [hentries]
      exact nofun
    exact ⟨⟨hi, fun key e he => absurd he (hnone key e)⟩, hinterval,
      fun he => absurd he (hnone _ _), fun he => absurd he (hnone _ _)⟩

/-- The caches have been hit so often at most. -/
def Hits (s : Timeline) (n : Nat) : Prop :=
  ∀ counter cache, s.counting.cache counter = some cache → cache.Counts Counters.cacheCapacity n

/-- Of the calls only `getCount` uses a cache, once or twice. -/
theorem Hits.step {s s' : Timeline} {l : Label ν} {n : Nat} (h : s.Hits n) (hi : s.Invariant)
    (hn : n + 2 < 2 ^ 31) (hs : Step s l s') : s'.Hits (n + 2) := by
  have hmono {cache : TimedCache String Int64} {m : Nat} (hm : m ≤ n + 2)
      (hc : cache.Counts Counters.cacheCapacity m) : cache.Counts Counters.cacheCapacity (n + 2) :=
    ⟨hc.cache.mono hm, fun g hg => (hc.groupCache g hg).mono hm⟩
  have hsame : ∀ counter cache, s.counting.cache counter = some cache →
      cache.Counts Counters.cacheCapacity (n + 2) := fun counter cache hc =>
    hmono (Nat.le_add_right n 2) (h counter cache hc)
  have hset {counter : Counters} {cache : TimedCache String Int64}
      (hc : cache.Counts Counters.cacheCapacity (n + 2)) {clock : Int64} :
      (s.after (s.counting.setCache counter cache) clock).Hits (n + 2) := by
    intro counter' cache' hc'
    rcases Counting.setCache_cases hc' with ⟨-, rfl⟩ | hc'
    · exact hc
    · exact hsame counter' cache' hc'
  cases hs with
  | @change counter counterKey change clock hclock =>
    intro counter' cache hc
    have hcache := (Change.apply_leaves counter counterKey s.counting change).cache
    exact hsame counter' cache ((congrFun hcache counter').symm.trans hc)
  | @getCount r counting o hnow hnow' hget =>
    cases hkey : r.counterKey.toString with
    | none =>
      unfold Counters.getCount at hget
      rw [hkey] at hget
      cases hget
      exact hsame
    | some key =>
      cases hcache : s.counting.cache r.counter with
      | none =>
        rw [getCount_uncached hkey hcache] at hget
        cases hget
        exact hsame
      | some cache =>
        obtain ⟨cache', hrun, -, hspec⟩ := getCount_cached hkey hcache (hi.dated hcache).plain
        have hcounts := (h r.counter cache hcache).get (by omega) hrun
        rw [hspec] at hget
        cases hheld : held cache key r.now with
        | some count =>
          rw [hheld] at hget
          cases hget
          exact hset (hmono (Nat.le_succ _) hcounts)
        | none =>
          rw [hheld] at hget
          obtain ⟨⟨cache'', old⟩, hput, heq⟩ := Option.map_eq_some_iff.1 hget
          cases heq
          exact hset (hcounts.put (by omega) hput)

theorem Hits.start (server : Redis.Server) (clock : Int64) : (start server clock).Hits 0 := by
  intro counter cache hcache
  have hcache : counter.newCache = some cache := hcache
  unfold Counters.newCache at hcache
  split at hcache
  · exact TimedCache.new_counts (by decide) hcache
  · cases hcache

/-! ## Runs -/

variable {server : Redis.Server} {clock : Int64} {ls : List (Label ν)} {s : Timeline}

theorem run_invariant (hclock : 0 ≤ clock) (h : Run Step (start server clock) ls s) :
    s.Invariant ∧ (2 * ls.length < 2 ^ 31 → s.Hits (2 * ls.length)) := by
  refine h.history (I := fun ls s => s.Invariant ∧ (2 * ls.length < 2 ^ 31 → s.Hits (2 * ls.length)))
    ⟨.start hclock, fun _ => .start server clock⟩ fun ls s l s' ⟨hi, hhits⟩ hs => ?_
  refine ⟨hi.step hs, fun hlen => ?_⟩
  rw [List.length_append, List.length_singleton, Nat.mul_add] at hlen ⊢
  exact (hhits (by omega)).step hi hlen hs

variable {r : Reading ν} {key : String}

/-- What is left of a call that is not served: a null is cached, and then dereferenced. -/
theorem getCount_unserved (h : s.Invariant) (hkey : r.counterKey.toString = some key)
    (hserved : ¬ s.Served r key) :
    ∃ cache cache', s.counting.cache r.counter = some cache ∧
      cache.get key r.now r.now = some (cache', .ok none) ∧
      r.counter.getCount r.counterKey r.now r.now' s.counting =
        (cache'.put key none none r.now').map fun p =>
          (s.counting.setCache r.counter p.1, .error .nullPointer) := by
  simp only [Served, not_or, not_exists, not_and, not_not, Bool.not_eq_false] at hserved
  obtain ⟨hneed, hheld, hstated⟩ := hserved
  obtain ⟨cache, hcache⟩ := Option.isSome_iff_exists.1 ((h.caches r.counter).trans hneed)
  obtain ⟨cache', hget, -, hspec⟩ := getCount_cached hkey hcache (h.dated hcache).plain
  rw [hheld cache hcache] at hget hspec
  rw [(parse_not_stated hstated none).1] at hspec
  exact ⟨cache, cache', hcache, hget, hspec⟩

theorem served_of_bounded (h : s.Invariant) (hkey : r.counterKey.toString = some key)
    (hb : s.Bounded r) : s.Served r key := by
  obtain ⟨counting, v, hget, -⟩ := hb
  by_contra hserved
  obtain ⟨-, cache', -, -, hspec⟩ := getCount_unserved h hkey hserved
  obtain ⟨p, -, heq⟩ := Option.map_eq_some_iff.1 (hspec.symm.trans hget)
  cases heq

theorem throws_of_unserved {n : Nat} (h : s.Invariant) (hhits : s.Hits n) (hn : n + 2 < 2 ^ 31)
    (hkey : r.counterKey.toString = some key) (hserved : ¬ s.Served r key) :
    ∃ counting, r.counter.getCount r.counterKey r.now r.now' s.counting =
      some (counting, .error .nullPointer) := by
  obtain ⟨cache, cache', hcache, hget, hspec⟩ := getCount_unserved h hkey hserved
  have hcounts := (hhits r.counter cache hcache).get (by omega) hget
  obtain ⟨c, o, hput, -⟩ := TimedCache.put_counts hcounts (by omega) key none none r.now'
  rw [hput] at hspec
  exact ⟨_, hspec⟩

/-- A count that a cache holds was denoted when it was put there. -/
theorem moment_of_held {counter : Counters} {past : List (Int64 × Redis.Server)}
    {cache : TimedCache String Int64} (h : Dated counter past cache) {now v : Int64} (hnow : 0 ≤ now)
    (hheld : held cache key now = some v) :
    ∃ moment ∈ past, denoted (counter.counterPrefix ++ key) moment.2 = v ∧
      now.toInt ≤ moment.1.toInt + Counters.cacheExpire.toInt := by
  obtain ⟨e, he, hv⟩ := Option.bind_eq_some_iff.1 hheld
  split at hv
  · next hvalid =>
    obtain ⟨hinterval, hcheck⟩ := h.deadline he
    obtain ⟨moment, hmem, hmoment, hdenoted⟩ := h.value he hv
    rw [Entry.isValid, decide_eq_true_eq] at hvalid
    have hlt := lt_of_lt_deadline hnow hcheck hvalid
    rw [hinterval] at hlt
    exact ⟨moment, hmem, hdenoted, by rw [hmoment]; exact hlt.le⟩
  · cases hv

theorem bounded_of_served {n : Nat} (h : s.Invariant) (hhits : s.Hits n) (hn : n + 2 < 2 ^ 31)
    (hkey : r.counterKey.toString = some key) (hnow : s.clock ≤ r.now) (hserved : s.Served r key) :
    s.Bounded r := by
  have hlast : (r.now, s.counting.server) ∈ s.past ++ [(r.now, s.counting.server)] :=
    List.mem_concat_self
  have hself : r.now.toInt ≤ r.now.toInt + Counters.cacheExpire.toInt := by
    have hexpire : Counters.cacheExpire.toInt = 30000 := by decide
    omega
  cases hcache : s.counting.cache r.counter with
  | none =>
    exact ⟨_, _, getCount_uncached hkey hcache, key, hkey, _, hlast, rfl, hself, fun _ => rfl⟩
  | some cache =>
    have hneed : r.counter.needCache = true := by
      rw [← h.caches, hcache]
      rfl
    have huncached {p : Prop} : r.counter.needCache = false → p := fun hfalse => by
      rw [hneed] at hfalse
      cases hfalse
    have hdated := h.dated hcache
    obtain ⟨cache', hrun, -, hspec⟩ := getCount_cached hkey hcache hdated.plain
    cases hheld : held cache key r.now with
    | some v =>
      rw [hheld] at hspec
      obtain ⟨moment, hmem, hmoment⟩ :=
        moment_of_held hdated (Int64.le_trans h.clock hnow) hheld
      exact ⟨_, v, hspec, key, hkey, moment, List.mem_append_left _ hmem, hmoment.1, hmoment.2,
        huncached⟩
    | none =>
      have hstated : Stated (r.counter.counterPrefix ++ key) s.counting.server := by
        rcases hserved with hfalse | ⟨c, hc, hsome⟩ | hstated
        · exact huncached hfalse
        · obtain rfl := Option.some.inj (hcache.symm.trans hc)
          exact absurd hheld hsome
        · exact hstated
      have hcounts := (hhits r.counter cache hcache).get (by omega) hrun
      obtain ⟨c, o, hput, -⟩ := TimedCache.put_counts hcounts (by omega) key
        (s.counting.parse (r.counter.counterPrefix ++ key) none) none r.now'
      rw [hheld] at hspec
      simp only [hput, Option.map_some] at hspec
      rw [parse_stated hstated] at hspec
      exact ⟨_, _, hspec, key, hkey, _, hlast, rfl, hself, huncached⟩

/-- **The calls of `getCount` that are bounded**: those that are served. For the one direction the run has
to be short enough that the hit counts of the cache have not overflowed. -/
theorem bounded_iff_served (hclock : 0 ≤ clock) (h : Run Step (start server clock) ls s)
    (hkey : r.counterKey.toString = some key) (hnow : s.clock ≤ r.now) :
    (s.Bounded r → s.Served r key) ∧
      (2 * ls.length + 2 < 2 ^ 31 → s.Served r key → s.Bounded r) := by
  obtain ⟨hi, hhits⟩ := run_invariant hclock h
  exact ⟨served_of_bounded hi hkey,
    fun hlen => bounded_of_served hi (hhits (by omega)) hlen hkey hnow⟩

/-- A count is reset to 5 and then read through the cache. -/
theorem bounded_after_reset :
    ∃ s, Run Step (start (fun _ => none) 0)
        [Label.change .CLIENT_SUB_COUNTER
          (CounterKey.built (ν := Int) [(some "id", some (.simple (.string "x")))]) (.reset 5)] s ∧
      s.Bounded ⟨.CLIENT_SUB_COUNTER,
        CounterKey.built (ν := Int) [(some "id", some (.simple (.string "x")))], 1, 2⟩ := by
  have hkey := CounterKey.toString_part (ν := Int) "id" (.string "x")
  generalize CounterKey.built (ν := Int) [(some "id", some (.simple (.string "x")))] = counterKey at hkey
  have hrun := Run.single (@Step.change Int _ (start (fun _ => none) 0) .CLIENT_SUB_COUNTER
    counterKey (.reset 5) 0 (Int64.le_refl 0))
  refine ⟨_, hrun, (bounded_iff_served (Int64.le_refl 0) hrun (r := ⟨.CLIENT_SUB_COUNTER, counterKey, 1, 2⟩)
    hkey (by decide : (0 : Int64) ≤ 1)).2
    (by rw [List.length_singleton]; decide) (.inr (.inr ?_))⟩
  exact ⟨"5", Change.get_reset _ counterKey _ hkey 5, by decide⟩

/-- A cached counter of which Redis has no entry. -/
theorem not_bounded_absent :
    ∃ counterKey : CounterKey Int, counterKey.toString = some "x" ∧
      ¬ (start (fun _ => none) 0).Bounded ⟨.CLIENT_SUB_COUNTER, counterKey, 0, 0⟩ ∧
      ∃ counting, Counters.CLIENT_SUB_COUNTER.getCount counterKey 0 0
        (Counting.init fun _ => none) = some (counting, .error .nullPointer) := by
  have hkey := CounterKey.toString_part (ν := Int) "id" (.string "x")
  generalize CounterKey.built (ν := Int) [(some "id", some (.simple (.string "x")))] = counterKey at hkey
  have hinv : (start (fun _ => none) 0).Invariant := .start (Int64.le_refl 0)
  let r : Reading Int := ⟨.CLIENT_SUB_COUNTER, counterKey, 0, 0⟩
  have hserved : ¬ (start (fun _ => none) 0).Served r "x" := by
    rintro (hneed | ⟨cache, hcache, hheld⟩ | ⟨ret, hret, -⟩)
    · cases hneed
    · have hcache : Counters.newCache .CLIENT_SUB_COUNTER = some cache := hcache
      obtain ⟨-, hentries, -⟩ := newCache_spec hcache
      exact hheld (by rw [held, hentries]; rfl)
    · cases hret
  have hthrows := throws_of_unserved (r := r) hinv (.start _ 0) (by decide) hkey hserved
  exact ⟨counterKey, hkey, fun hb => hserved (served_of_bounded (r := r) hinv hkey hb), hthrows⟩

end Timeline

end BaseService.Counter
