import BaseService.LocalCache.LruCounted
import BaseService.LocalCache.TimedRefines

/-!
# The keys of a `TimedCache`

* `listKeys` : the keys in the order of the `KeyIterator`, first the used-twice list;
* `Operation`, `operate` : the calls of `TimedCache` together with the readings of its statistics;
* `Counts t capacity n` : both caches of `t` are exact after `n` hits; every operation completes
  and costs each of them at most one, `call_counts_of` none unless it `HitsAt` an item with `n`;
* `listKeys_residents` : **after fewer than `2 ^ 31` operations the keys listed are those of the
  hash table, each once, and there are at most `capacity` of them.**
-/

namespace BaseService.LocalCache
open Function (update)
open Links

/-! ## The iterator -/

/-- `KeyIterator`, over the cache it was made for. -/
structure KeyIterator where
  item : Option Ref
  isHead1 : Bool

namespace LruCache
variable {K V : Type}

/-- `keys()`: `init` starts with the used-twice list unless it is empty. -/
def keys (s : LruCache K V) : KeyIterator :=
  if s.head2 = none then ⟨s.head1, true⟩ else ⟨s.head2, false⟩

/-- `next()`. -/
def nextKey (s : LruCache K V) (it : KeyIterator) : KeyIterator × Option K :=
  let entry := it.item
  let it := { it with item := it.item.bind s.nextLru }
  let it := if it.item = none ∧ it.isHead1 = false then ⟨s.head1, true⟩ else it
  (it, entry.bind s.key)

/-- `while (ki.hasNext()) keys.add(ki.next());`. There are two iterators at each item, so that a
loop of more rounds never ends. -/
def collect (s : LruCache K V) : Nat → KeyIterator → Option (List (Option K))
  | 0, it => if it.item = none then some [] else none
  | fuel + 1, it =>
    if it.item = none then some []
    else do
      let (it, key) := s.nextKey it
      let keys ← collect s fuel it
      some (key :: keys)

/-- The key of an item in the hash table. -/
def InTable (s : LruCache K V) (key : K) : Prop :=
  ∃ hash < s.length, ∃ item, Visits s.nextHash item (s.entries hash) ∧ s.key item = some key

section
variable {s : LruCache K V} {l l₁ l₂ : List Ref} {o : Option Ref} {fuel : Nat}

theorem collect_head1 (h : Chain s.nextLru o l) (hf : l.length ≤ fuel) :
    s.collect fuel ⟨o, true⟩ = some (l.map s.key) := by
  induction l generalizing o fuel with
  | nil =>
    rw [show o = none from h]
    cases fuel <;> rfl
  | cons a l ih =>
    obtain ⟨rfl, h⟩ := h
    cases fuel with
    | zero => simp at hf
    | succ fuel =>
      have hrest := ih h (by simpa using hf)
      simp [collect, nextKey, hrest]

/-- The used-twice list, then the used-once list. -/
theorem collect_head2 (h₁ : Chain s.nextLru s.head1 l₁) (h : Chain s.nextLru o l) (ho : o ≠ none)
    (hf : l.length + l₁.length ≤ fuel) :
    s.collect fuel ⟨o, false⟩ = some ((l ++ l₁).map s.key) := by
  induction l generalizing o fuel with
  | nil => exact absurd h ho
  | cons a l ih =>
    obtain ⟨rfl, h⟩ := h
    cases fuel with
    | zero => simp at hf
    | succ fuel =>
      rw [List.length_cons] at hf
      by_cases hn : s.nextLru a = none
      · have hl : l = [] := by
          cases l with
          | nil => rfl
          | cons b l => exact absurd (h.1.symm.trans hn) (Option.some_ne_none b)
        subst hl
        have hrest : s.collect fuel ⟨s.head1, true⟩ = some (l₁.map s.key) := by
          refine collect_head1 h₁ ?_
          rw [List.length_nil] at hf
          omega
        simp [collect, nextKey, hn, hrest]
      · have hrest : s.collect fuel ⟨s.nextLru a, false⟩ = some ((l ++ l₁).map s.key) :=
          ih h hn (by omega)
        simp [collect, nextKey, hn, hrest]

theorem collect_keys (h₁ : Chain s.nextLru s.head1 l₁) (h₂ : Chain s.nextLru s.head2 l₂)
    (hf : l₂.length + l₁.length ≤ fuel) : s.collect fuel s.keys = some ((l₂ ++ l₁).map s.key) := by
  unfold keys
  split
  · next hnone =>
    have hl : l₂ = [] := by
      cases l₂ with
      | nil => rfl
      | cons b l => exact absurd (h₂.1.symm.trans hnone) (Option.some_ne_none b)
    subst hl
    exact collect_head1 h₁ (by simpa using hf)
  · next hsome => exact collect_head2 h₁ h₂ hsome hf

end

variable [DecidableEq K] [HashCode K] {s : LruCache K V} {capacity : Int} {n : Nat}

omit [DecidableEq K] in
theorem Table.inTable_iff {chains : Nat → List Ref} (h : Table s chains) {k : K} :
    s.InTable k ↔ ∃ r, Resident chains r ∧ s.key r = some k := by
  constructor
  · rintro ⟨i, -, r, hv, hk⟩
    exact ⟨r, ⟨i, (h.chain i).visits_iff.mp hv⟩, hk⟩
  · rintro ⟨r, ⟨i, hr⟩, hk⟩
    refine ⟨i, ?_, r, (h.chain i).visits_iff.mpr hr, hk⟩
    rw [← h.bucket_eq hr hk]
    exact h.bucket_lt k

omit [DecidableEq K] in
/-- Two items of the table have different keys. -/
theorem Table.key_inj {chains : Nat → List Ref} (h : Table s chains) {r r' : Ref} {k : K}
    (hr : Resident chains r) (hr' : Resident chains r') (hk : s.key r = some k)
    (hk' : s.key r' = some k) : r = r' := by
  obtain ⟨i, hi⟩ := hr
  obtain ⟨j, hj⟩ := hr'
  have hij : i = j := by rw [← h.bucket_eq hi hk, h.bucket_eq hj hk']
  subst hij
  exact h.inj i r hi r' hj (hk.trans hk'.symm)

omit [DecidableEq K] in
theorem Exact.enableStatistics (h : Exact s capacity n) (isEnable : Bool) :
    Exact { s with isEnableStatistics := isEnable } capacity n := by
  obtain ⟨chains, l₁, l₂, ht, hc⟩ := h.layout
  refine ⟨⟨chains, l₁, l₂, ht.congr ⟨rfl, rfl, rfl, rfl, rfl, rfl, rfl, rfl⟩, ?_⟩,
    h.isLruTailRemove, h.capacity_eq⟩
  exact hc.congr (hc.lists.congr rfl rfl rfl rfl rfl rfl rfl rfl rfl rfl rfl rfl) rfl

omit [DecidableEq K] in
/-- **The lists show the table.** -/
theorem Exact.keys (h : Exact s capacity n) (hcap : 1 ≤ capacity) :
    ∃ ks : List K, s.collect (2 * s.allocated) s.keys = some (ks.map some) ∧ ks.Nodup ∧
      (∀ k, k ∈ ks ↔ s.InTable k) ∧ s.size = ks.length ∧ s.size ≤ capacity := by
  obtain ⟨chains, l₁, l₂, ht, hc⟩ := h.layout
  have hl₁ : Chain s.nextLru s.head1 l₁ :=
    hc.lists.list₁.chain (fun r hr => (hc.lists.once r hr).1)
  have hl₂ : Chain s.nextLru s.head2 l₂ := hc.lists.list₂.chain hc.listed
  have hlen := hc.lists.length_le
  have hlive : ∀ r, r ∈ l₂ ++ l₁ ↔ Resident chains r := fun r => by
    rw [← hc.mem_iff, List.mem_append, List.mem_append, or_comm]
  have hkey : ∀ r ∈ l₂ ++ l₁, ∃ k, s.key r = some k := by
    intro r hr
    obtain ⟨i, hi⟩ := (hlive r).mp hr
    obtain ⟨k, -, hk, -, -⟩ := ht.item i r hi
    exact ⟨k, hk⟩
  have hnd : (l₂ ++ l₁).Nodup := List.perm_append_comm.nodup_iff.mp hc.lists.nodup
  have hinj : ((l₂ ++ l₁).map s.key).Nodup := by
    apply hnd.map_on
    intro r hr r' hr' he
    obtain ⟨k, hk⟩ := hkey r hr
    exact ht.key_inj ((hlive r).mp hr) ((hlive r').mp hr') hk (he.symm.trans hk)
  have hrun : s.collect (2 * s.allocated) s.keys = some ((l₂ ++ l₁).map s.key) :=
    collect_keys hl₁ hl₂ (by omega)
  have hmem : ∀ k, some k ∈ (l₂ ++ l₁).map s.key ↔ s.InTable k := by
    intro k
    rw [List.mem_map, ht.inTable_iff]
    exact exists_congr fun r => and_congr_left fun _ => hlive r
  have hsize := hc.lists.size_eq
  have hfits := hc.lists.fits
  have hcount : ((l₂ ++ l₁).map s.key).length = l₁.length + l₂.length := by
    rw [List.length_map, List.length_append, Nat.add_comm]
  obtain ⟨ks, hks⟩ : ∃ ks : List K, (l₂ ++ l₁).map s.key = ks.map some := by
    refine ⟨(l₂ ++ l₁).filterMap s.key, ?_⟩
    rw [List.map_filterMap, ← List.filterMap_eq_map']
    refine List.filterMap_congr (fun r hr => ?_)
    obtain ⟨k, hk⟩ := hkey r hr
    rw [hk]
    rfl
  rw [hks] at hinj hrun hmem hcount
  refine ⟨ks, hrun, hinj.of_map some, fun k => ?_, ?_, ?_⟩
  · rw [← hmem, List.mem_map]
    simp
  · rw [List.length_map] at hcount
    omega
  · rw [h.capacity_eq] at hfits
    omega

end LruCache

/-! ## The operations of `TimedCache` -/

namespace TimedCache
variable {K V : Type}

def setEnableStats (t : TimedCache K V) (isEnable : Bool) : TimedCache K V :=
  { t with cache := { t.cache with isEnableStatistics := isEnable } }

def size (t : TimedCache K V) : Int := t.cache.size

def hitCount (t : TimedCache K V) : Int := t.cache.cacheHitCount

def missCount (t : TimedCache K V) : Int := t.cache.missCount

def listKeys (t : TimedCache K V) : Option (List (Option K)) :=
  t.cache.collect (2 * t.cache.allocated) t.cache.keys

end TimedCache

inductive Operation (K V : Type)
  | call (c : Call K V)
  | setEnableStats (isEnable : Bool)
  | size
  | hitCount
  | missCount
  | listKeys

/-- What an operation answers. -/
inductive Reading (K V : Type)
  | answer (a : Answer V)
  | void
  | number (n : Int)
  | keys (ks : List (Option K))

namespace TimedCache
variable {K V : Type} [DecidableEq K] [HashCode K]

def operate (t : TimedCache K V) : Operation K V → Option (TimedCache K V × Reading K V)
  | .call c => (t.call c).map fun p => (p.1, .answer p.2)
  | .setEnableStats isEnable => some (t.setEnableStats isEnable, .void)
  | .size => some (t, .number t.size)
  | .hitCount => some (t, .number t.hitCount)
  | .missCount => some (t, .number t.missCount)
  | .listKeys => t.listKeys.map fun ks => (t, .keys ks)

/-- One operation after another. -/
def operateAll : TimedCache K V → List (Operation K V) → Option (TimedCache K V)
  | t, [] => some t
  | t, op :: ops => (t.operate op).bind fun p => operateAll p.1 ops

/-! ## Each operation is one hit at most -/

structure Counts (t : TimedCache K V) (capacity : Int) (n : Nat) : Prop where
  cache : t.cache.Exact capacity n
  groupCache : ∀ c, t.groupCache = some c → c.Exact capacity n

/-- A call counts a hit of an item that has had `n`. -/
def HitsAt (t : TimedCache K V) (c : Call K V) (n : Nat) : Prop :=
  match c with
  | .put k _ _ _ => ∃ c, t.cache.removeLru = some c ∧ c.HitsAt k n
  | .getGroup name _ => ∃ c, t.groupCache = some c ∧ c.HitsAt name n
  | .refrushGroup name _ => ∃ c c', t.groupCache = some c ∧ c.removeLru = some c' ∧ c'.HitsAt name n
  | .get k _ _ => t.cache.HitsAt k n ∨ ∃ r g c, t.cache.lookup k = some r ∧
      (t.entry r).group = some g ∧ t.groupCache = some c ∧ c.HitsAt g.group n
  | .expireInterval k _ _ | .getRemains k _ _ => t.cache.HitsAt k n
  | .remove _ | .removeAll => False

section
variable {t : TimedCache K V} {capacity : Int} {n : Nat}

omit [DecidableEq K] in
theorem Counts.mono (h : t.Counts capacity n) {m : Nat} (hm : n ≤ m) : t.Counts capacity m :=
  ⟨h.cache.mono hm, fun c hc => (h.groupCache c hc).mono hm⟩

theorem put_counts_of (h : t.Counts capacity n) (h₁ : 1 ≤ n) (hn : n < 2 ^ 31) {k : K}
    (hk : ∀ c, t.cache.removeLru = some c → ¬ c.HitsAt k n) (v : Option V) (g : Option CacheGroup)
    (now : Int64) : ∃ t' o, t.put k v g now = some (t', o) ∧ t'.Counts capacity n := by
  obtain ⟨c, o, hput, hc⟩ := LruCache.put_exact h.cache h₁ hn hk t.allocated
  unfold put
  simp only [hput, Option.bind_eq_bind, Option.bind_some]
  exact ⟨_, _, rfl, hc, h.groupCache⟩

theorem put_counts (h : t.Counts capacity n) (hn : n + 1 < 2 ^ 31) (k : K) (v : Option V)
    (g : Option CacheGroup) (now : Int64) :
    ∃ t' o, t.put k v g now = some (t', o) ∧ t'.Counts capacity (n + 1) :=
  put_counts_of (h.mono (Nat.le_succ n)) (by omega) hn
    (h.cache.not_hitsAt_removeLru (Nat.lt_succ_self n) k) v g now

theorem Counts.put (h : t.Counts capacity n) (hn : n + 1 < 2 ^ 31) {k : K} {v old : Option V}
    {g : Option CacheGroup} {now : Int64} {t' : TimedCache K V} (hput : t.put k v g now = some (t', old)) :
    t'.Counts capacity (n + 1) := by
  obtain ⟨t₁, o, hrun, hcounts⟩ := put_counts h hn k v g now
  cases hrun.symm.trans hput
  exact hcounts

omit [DecidableEq K] [HashCode K] in
/-- `getGroup` leaves the cache itself alone. A group that is missing is not hit but put. -/
theorem getGroup_counts (h : ∀ c, t.groupCache = some c → c.Exact capacity n) (h₁ : 1 ≤ n)
    (hn : n < 2 ^ 31) {name : String} (hname : ∀ c, t.groupCache = some c → ¬ c.HitsAt name n)
    (now : Int64) :
    ∃ t' o, t.getGroup name now = some (t', o) ∧ t'.cache = t.cache ∧
      ∀ c, t'.groupCache = some c → c.Exact capacity n := by
  unfold getGroup
  cases hg : t.groupCache with
  | none =>
    refine ⟨t, _, rfl, rfl, fun c hc => ?_⟩
    rw [hg] at hc
    cases hc
  | some c =>
    have hc := h c hg
    cases hl : c.lookup name with
    | none =>
      obtain ⟨c₁, hget, hc₁, hnone⟩ := LruCache.get_miss_exact hc hl
      obtain ⟨c₂, o, hput, hc₂⟩ :=
        LruCache.put_exact hc₁ h₁ hn (hc₁.not_hitsAt_of_none hnone) ⟨name, now⟩
      simp only [hget, hput, Option.bind_eq_bind, Option.bind_some]
      exact ⟨_, _, rfl, rfl, fun c' hc' => Option.some.inj hc' ▸ hc₂⟩
    | some g =>
      obtain ⟨c₁, hget, hc₁⟩ := LruCache.get_exact hc hn (hname c hg)
      rw [hl] at hget
      simp only [hget, Option.bind_eq_bind, Option.bind_some]
      exact ⟨_, _, rfl, rfl, fun c' hc' => Option.some.inj hc' ▸ hc₁⟩

omit [DecidableEq K] in
theorem refrushGroup_counts (h : t.Counts capacity n) (h₁ : 1 ≤ n) (hn : n < 2 ^ 31) {name : String}
    (hname : ∀ c c', t.groupCache = some c → c.removeLru = some c' → ¬ c'.HitsAt name n)
    (now : Int64) :
    ∃ t' o, t.refrushGroup name now = some (t', o) ∧ t'.Counts capacity n := by
  unfold refrushGroup
  cases hg : t.groupCache with
  | none =>
    refine ⟨t, _, rfl, h.cache, fun c hc => ?_⟩
    rw [hg] at hc
    cases hc
  | some c =>
    obtain ⟨c₁, o, hput, hc₁⟩ := LruCache.put_exact (h.groupCache c hg) h₁ hn
      (fun c' => hname c c' hg) ⟨name, now⟩
    simp only [hput, Option.bind_eq_bind, Option.bind_some]
    exact ⟨_, _, rfl, h.cache, fun c' hc' => Option.some.inj hc' ▸ hc₁⟩

theorem drop_counts (h : t.Counts capacity n) (k : K) :
    ∃ t' o, t.drop k = some (t', o) ∧ t'.Counts capacity n := by
  obtain ⟨c, hrun, hc⟩ := LruCache.remove_exact h.cache k
  unfold drop
  simp only [hrun, Option.bind_eq_bind, Option.bind_some]
  exact ⟨_, _, rfl, hc, h.groupCache⟩

/-- A valid entry is answered, any other one is dropped. -/
theorem verdict_counts (h : t.Counts capacity n) (k : K) (v : Option V) (p : Prop) [Decidable p] :
    ∃ t' o, (if p then some (t, .ok v) else t.drop k) = some (t', o) ∧ t'.Counts capacity n := by
  split
  · exact ⟨t, _, rfl, h⟩
  · exact drop_counts h k

theorem get_counts (h : t.Counts capacity n) (h₁ : 1 ≤ n) (hn : n < 2 ^ 31) {k : K}
    (hk : ¬ t.cache.HitsAt k n)
    (hgroup : ∀ r g c, t.cache.lookup k = some r → (t.entry r).group = some g →
      t.groupCache = some c → ¬ c.HitsAt g.group n) (groupNow now : Int64) :
    ∃ t' o, t.get k groupNow now = some (t', o) ∧ t'.Counts capacity n := by
  obtain ⟨c, hget, hc⟩ := LruCache.get_exact h.cache hn hk
  have hi : Counts { t with cache := c } capacity n := ⟨hc, h.groupCache⟩
  unfold get
  simp only [hget, Option.bind_eq_bind, Option.bind_some]
  cases hr : t.cache.lookup k with
  | none => exact ⟨_, _, rfl, hi⟩
  | some r =>
    dsimp only
    cases hg : (t.entry r).group with
    | none => exact verdict_counts hi k _ _
    | some g =>
      obtain ⟨t₁, o, hrun, hcache, hcounts⟩ := getGroup_counts (t := { t with cache := c })
        h.groupCache h₁ hn (fun c' hc' => hgroup r g c' hr hg hc') groupNow
      have hi₁ : t₁.Counts capacity n := ⟨hcache ▸ hc, hcounts⟩
      simp only [hrun, Option.bind_some]
      cases o with
      | error e => exact ⟨_, _, rfl, hi₁⟩
      | ok g' => exact verdict_counts hi₁ k _ _

theorem expireIntervalOf_counts (h : t.Counts capacity n) (hn : n < 2 ^ 31) {k : K}
    (hk : ¬ t.cache.HitsAt k n) (d now : Int64) :
    ∃ t', t.expireIntervalOf k d now = some t' ∧ t'.Counts capacity n := by
  obtain ⟨c, hget, hc⟩ := LruCache.get_exact h.cache hn hk
  unfold expireIntervalOf
  simp only [hget, Option.bind_eq_bind, Option.bind_some]
  cases t.cache.lookup k with
  | none => exact ⟨_, rfl, hc, h.groupCache⟩
  | some r => exact ⟨_, rfl, hc, h.groupCache⟩

theorem getRemains_counts (h : t.Counts capacity n) (hn : n < 2 ^ 31) {k : K}
    (hk : ¬ t.cache.HitsAt k n) (d now : Int64) :
    ∃ t' o, t.getRemains k d now = some (t', o) ∧ t'.Counts capacity n := by
  obtain ⟨c, hget, hc⟩ := LruCache.get_exact h.cache hn hk
  unfold getRemains
  simp only [hget, Option.bind_eq_bind, Option.bind_some]
  cases t.cache.lookup k with
  | none => exact ⟨_, _, rfl, hc, h.groupCache⟩
  | some r => exact ⟨_, _, rfl, hc, h.groupCache⟩

/-- A call in which no item is hit that has had `n`. -/
theorem call_counts_of (h : t.Counts capacity n) (h₁ : 1 ≤ n) (hn : n < 2 ^ 31) {c : Call K V}
    (hc : ¬ t.HitsAt c n) : ∃ t' a, t.call c = some (t', a) ∧ t'.Counts capacity n := by
  cases c with
  | put k v g now =>
    obtain ⟨t', o, hrun, h'⟩ := put_counts_of h h₁ hn
      (fun c' hc' hhits => hc ⟨c', hc', hhits⟩) v g now
    exact ⟨t', _, by rw [call, hrun]; rfl, h'⟩
  | getGroup name now =>
    obtain ⟨t', o, hrun, hcache, hg⟩ := getGroup_counts h.groupCache h₁ hn
      (fun c' hc' hhits => hc ⟨c', hc', hhits⟩) now
    exact ⟨t', _, by rw [call, hrun]; rfl, hcache ▸ h.cache, hg⟩
  | refrushGroup name now =>
    obtain ⟨t', o, hrun, h'⟩ := refrushGroup_counts h h₁ hn
      (fun c' c'' hc' hc'' hhits => hc ⟨c', c'', hc', hc'', hhits⟩) now
    exact ⟨t', _, by rw [call, hrun]; rfl, h'⟩
  | get k groupNow now =>
    obtain ⟨t', o, hrun, h'⟩ := get_counts h h₁ hn (fun hhits => hc (.inl hhits))
      (fun r g c' hr hg hc' hhits => hc (.inr ⟨r, g, c', hr, hg, hc', hhits⟩)) groupNow now
    exact ⟨t', _, by rw [call, hrun]; rfl, h'⟩
  | expireInterval k d now =>
    obtain ⟨t', hrun, h'⟩ := expireIntervalOf_counts h hn hc d now
    exact ⟨t', _, by rw [call, hrun]; rfl, h'⟩
  | getRemains k d now =>
    obtain ⟨t', o, hrun, h'⟩ := getRemains_counts h hn hc d now
    exact ⟨t', _, by rw [call, hrun]; rfl, h'⟩
  | remove k =>
    obtain ⟨c, hrun, hc⟩ := LruCache.remove_exact h.cache k
    refine ⟨{ t with cache := c }, .value ((t.cache.lookup k).bind fun r => (t.entry r).value), ?_,
      hc, h.groupCache⟩
    simp only [call, remove, hrun, Option.bind_eq_bind, Option.bind_some, Option.map_some]
  | removeAll =>
    obtain ⟨c, hrun, hc⟩ := LruCache.clear_exact h.cache
    refine ⟨{ t with cache := c }, .void, ?_, hc, h.groupCache⟩
    simp only [call, removeAll, hrun, Option.bind_eq_bind, Option.bind_some, Option.map_some]

theorem Counts.not_hitsAt (h : t.Counts capacity n) {m : Nat} (hm : n < m) (c : Call K V) :
    ¬ t.HitsAt c m := by
  cases c with
  | put k v g now =>
    rintro ⟨c, hc, hhits⟩
    exact h.cache.not_hitsAt_removeLru hm k c hc hhits
  | getGroup name now =>
    rintro ⟨c, hc, hhits⟩
    exact (h.groupCache c hc).not_hitsAt hm hhits
  | refrushGroup name now =>
    rintro ⟨c, c', hc, hc', hhits⟩
    exact (h.groupCache c hc).not_hitsAt_removeLru hm name c' hc' hhits
  | get k groupNow now =>
    rintro (hhits | ⟨r, g, c, -, -, hc, hhits⟩)
    · exact h.cache.not_hitsAt hm hhits
    · exact (h.groupCache c hc).not_hitsAt hm hhits
  | expireInterval k d now => exact h.cache.not_hitsAt hm
  | getRemains k d now => exact h.cache.not_hitsAt hm
  | remove k => exact id
  | removeAll => exact id

theorem call_counts (h : t.Counts capacity n) (hn : n + 1 < 2 ^ 31) (c : Call K V) :
    ∃ t' a, t.call c = some (t', a) ∧ t'.Counts capacity (n + 1) :=
  call_counts_of (h.mono (Nat.le_succ n)) (by omega) hn (h.not_hitsAt (Nat.lt_succ_self n) c)

theorem Counts.get (h : t.Counts capacity n) (hn : n + 1 < 2 ^ 31) {k : K} {groupNow now : Int64}
    {t' : TimedCache K V} {o : Outcome (Option V)} (hget : t.get k groupNow now = some (t', o)) :
    t'.Counts capacity (n + 1) := by
  obtain ⟨t₁, a, hrun, hcounts⟩ := call_counts h hn (.get k groupNow now)
  rw [call, hget] at hrun
  cases hrun
  exact hcounts

theorem operate_counts (h : t.Counts capacity n) (hcap : 1 ≤ capacity) (hn : n + 1 < 2 ^ 31)
    (op : Operation K V) : ∃ t' a, t.operate op = some (t', a) ∧ t'.Counts capacity (n + 1) := by
  have h' : t.Counts capacity (n + 1) := h.mono (Nat.le_succ n)
  cases op with
  | call c =>
    obtain ⟨t', a, hrun, ht⟩ := call_counts h hn c
    exact ⟨t', _, by rw [operate, hrun]; rfl, ht⟩
  | setEnableStats isEnable => exact ⟨_, _, rfl, h'.cache.enableStatistics isEnable, h'.groupCache⟩
  | size => exact ⟨t, _, rfl, h'⟩
  | hitCount => exact ⟨t, _, rfl, h'⟩
  | missCount => exact ⟨t, _, rfl, h'⟩
  | listKeys =>
    obtain ⟨ks, hrun, -⟩ := h.cache.keys hcap
    refine ⟨t, .keys (ks.map some), ?_, h'⟩
    rw [operate, listKeys, hrun]
    rfl

theorem operateAll_counts (hcap : 1 ≤ capacity) (ops : List (Operation K V)) :
    ∀ {t : TimedCache K V} {n : Nat}, t.Counts capacity n → n + ops.length < 2 ^ 31 →
      ∃ t', t.operateAll ops = some t' ∧ t'.Counts capacity (n + ops.length) := by
  induction ops with
  | nil => exact fun {t n} h _ => ⟨t, rfl, h⟩
  | cons op ops ih =>
    intro t n h hn
    rw [List.length_cons] at hn ⊢
    obtain ⟨t₁, a, hrun, h₁⟩ := operate_counts h hcap (by omega) op
    obtain ⟨t', hrun', h'⟩ := ih h₁ (by omega)
    refine ⟨t', ?_, ?_⟩
    · rw [operateAll, hrun]
      exact hrun'
    · rwa [show n + (ops.length + 1) = n + 1 + ops.length by omega]

omit [DecidableEq K] in
theorem new_counts {expireInterval : Int64} {isGroup : Bool} (hcap : capacity < 2 ^ 31)
    (hs : new capacity expireInterval isGroup = some t) : t.Counts capacity 0 := by
  obtain ⟨c, hc, hs⟩ := Option.bind_eq_some_iff.mp hs
  obtain ⟨g, hg, hs⟩ := Option.bind_eq_some_iff.mp hs
  cases hs
  refine ⟨LruCache.new_exact hcap hc, ?_⟩
  rintro c' rfl
  cases isGroup with
  | false => cases hg
  | true =>
    obtain ⟨c'', hc'', he⟩ := Option.map_eq_some_iff.mp hg
    cases he
    exact LruCache.new_exact hcap hc''

end

/-- **The lists and the table agree**: every run of fewer than `2 ^ 31` operations completes, and
then `listKeys` lists the keys of the hash table, each once; there are `size()` of them and at most
`capacity`. -/
theorem listKeys_residents {capacity : Int} (h₁ : 1 ≤ capacity) (h₂ : capacity ≤ 2 ^ 29)
    (expireInterval : Int64) (isGroup : Bool) :
    ∃ t₀ : TimedCache K V, new capacity expireInterval isGroup = some t₀ ∧
      ∀ ops : List (Operation K V), ops.length < 2 ^ 31 →
        ∃ t, t₀.operateAll ops = some t ∧
          ∃ ks : List K, t.listKeys = some (ks.map some) ∧ ks.Nodup ∧
            (∀ k, k ∈ ks ↔ t.cache.InTable k) ∧ t.size = ks.length ∧ t.size ≤ capacity := by
  obtain ⟨t₀, hnew⟩ := Option.isSome_iff_exists.mp
    (new_isSome (K := K) (V := V) (by omega) h₂ expireInterval isGroup)
  refine ⟨t₀, hnew, fun ops hlen => ?_⟩
  obtain ⟨t, hrun, h⟩ := operateAll_counts h₁ ops (new_counts (by omega) hnew) (by omega)
  exact ⟨t, hrun, h.cache.keys h₁⟩

theorem listKeys_residents_one :
    ∃ t₀ : TimedCache String Nat, new 1 5 true = some t₀ ∧
      ∀ ops : List (Operation String Nat), ops.length < 2 ^ 31 →
        ∃ t, t₀.operateAll ops = some t ∧
          ∃ ks : List String, t.listKeys = some (ks.map some) ∧ ks.Nodup ∧
            (∀ k, k ∈ ks ↔ t.cache.InTable k) ∧ t.size = ks.length ∧ t.size ≤ 1 :=
  listKeys_residents (by decide) (by decide) 5 true

end TimedCache

end BaseService.LocalCache
