import BaseService.LocalCache.LruSpec

/-!
# Hit counts that do not overflow

While no hit count has overflowed, a removal leaves no dead node behind, and the LRU lists hold the
items of the table and no others.

* `Counted s live l₁ l₂ n` : the lists hold exactly the `live` items, each hit at most `n` times;
* `Exact s capacity n` : so do those of the items of the table;
* `HitsAt` : a lookup counts a hit of an item that has had `n`;
* `get_exact`, `remove_exact`, `put_exact`, `clear_exact` : each operation completes and keeps the
  bound, unless it hits an item that has had `n`. In `put` this means that every round of the eviction
  loop makes room.
-/

namespace BaseService.LocalCache
open Function (update)
open Links

namespace LruCache
variable {K V : Type}

structure Counted (s : LruCache K V) (live : Ref → Prop) (l₁ l₂ : List Ref) (n : Nat) : Prop where
  lists : Lru s live l₁ l₂
  hits : ∀ r, live r → 1 ≤ s.hitCount r ∧ s.hitCount r ≤ n
  listed : ∀ r ∈ l₂, live r

/-! ## The LRU lists -/

theorem moveToHead_hits {s s' : LruCache K V} {r : Ref} (h : s.moveToHead r = some s') :
    s'.capacity = s.capacity ∧ s'.hitCount = s.hitCount := by
  unfold moveToHead at h
  dsimp only at h
  split at h
  · cases h
    exact ⟨rfl, rfl⟩
  · split at h
    · cases h
      exact ⟨rfl, rfl⟩
    · cases h

theorem updateLru_hits {s s' : LruCache K V} {r : Ref} (h : s.updateLru r = some s') :
    s'.capacity = s.capacity ∧ (s'.hitCount = s.hitCount ∨
      s'.hitCount = update s.hitCount r (wrapInt (s.hitCount r + 1))) := by
  unfold updateLru at h
  dsimp only at h
  split at h
  swap
  · cases h
    exact ⟨rfl, Or.inl rfl⟩
  unfold updateLruImpl at h
  dsimp only at h
  split at h
  · cases h
    exact ⟨rfl, Or.inl rfl⟩
  · split at h
    · cases h
      exact ⟨rfl, Or.inr rfl⟩
    · obtain ⟨hcap, hc⟩ := moveToHead_hits h
      exact ⟨hcap, Or.inr hc⟩

theorem removeLruItem_hits (s : LruCache K V) (r : Ref) :
    (s.removeLruItem r).hitCount = update s.hitCount r (-1) := by
  unfold removeLruItem
  dsimp only
  split
  · rfl
  · split <;> rfl

section Counted
variable {s s' : LruCache K V} {live live' : Ref → Prop} {l₁ l₂ : List Ref} {n : Nat} {r : Ref}

theorem Counted.mem_iff (h : Counted s live l₁ l₂ n) : r ∈ l₁ ++ l₂ ↔ live r := by
  rw [List.mem_append]
  constructor
  · rintro (hr | hr)
    · exact (h.lists.once r hr).1
    · exact h.listed r hr
  · exact h.lists.cover r

theorem Lru.nodup (h : Lru s live l₁ l₂) : (l₁ ++ l₂).Nodup := by
  apply List.nodup_append.mpr
  exact ⟨h.list₁.nodup, h.list₂.nodup, fun x hx y hy e => h.disjoint hx (e ▸ hy)⟩

theorem Lru.length_le (h : Lru s live l₁ l₂) : l₁.length + l₂.length ≤ s.allocated := by
  have hsub : l₁ ++ l₂ ⊆ List.range s.allocated := fun r hr =>
    List.mem_range.mpr (h.keyed r (List.mem_append.mp hr)).1
  have hle := (h.nodup.subperm hsub).length_le
  rwa [List.length_range, List.length_append] at hle

theorem Counted.mono (h : Counted s live l₁ l₂ n) {m : Nat} (hm : n ≤ m) :
    Counted s live l₁ l₂ m := by
  refine ⟨h.lists, fun r hr => ?_, h.listed⟩
  have := h.hits r hr
  omega

theorem Counted.congr (h : Counted s live l₁ l₂ n) (hl : Lru s' live l₁ l₂)
    (hc : s'.hitCount = s.hitCount) : Counted s' live l₁ l₂ n :=
  ⟨hl, hc ▸ h.hits, h.listed⟩

/-- A hit is counted, unless the item was used recently. -/
def Due (s : LruCache K V) (r : Ref) : Prop := s.lruTimeout < mask (s.lruCounter - s.itemLruCounter r)

theorem mask_nonneg (x : Int) : ¬ mask x < 0 := by
  unfold mask
  omega

theorem updateLru_of_not_due (h : ¬ Due s r) : s.updateLru r = some s := by
  unfold LruCache.updateLru
  exact if_neg (not_or.mpr ⟨h, mask_nonneg _⟩)

/-- A hit of an item that has fewer than `n`, if it is counted. -/
theorem Counted.updateLru (h : Counted s live l₁ l₂ n) (hl : live r) (hn : n < 2 ^ 31)
    (hr : Due s r → s.hitCount r ≠ n) :
    ∃ s' l₁' l₂', s.updateLru r = some s' ∧ Counted s' live l₁' l₂' n ∧ s'.capacity = s.capacity := by
  by_cases hdue : Due s r
  swap
  · exact ⟨s, l₁, l₂, updateLru_of_not_due hdue, h, rfl⟩
  have hlt := hr hdue
  have hr₀ := h.hits r hl
  obtain ⟨s', l₁', l₂', hrun, hlists, hperm⟩ := h.lists.updateLru hl
  obtain ⟨hcap, hc⟩ := updateLru_hits hrun
  refine ⟨s', l₁', l₂', hrun, ⟨hlists, fun x hx => ?_, fun x hx => ?_⟩, hcap⟩
  · have hx₀ := h.hits x hx
    rcases hc with hc | hc
    · rwa [hc]
    · rw [hc]
      by_cases hxr : x = r
      · subst hxr
        rw [Function.update_self, wrapInt_of_range (by omega) (by omega)]
        omega
      · rwa [Function.update_of_ne hxr]
  · exact h.mem_iff.mp (hperm.mem_iff.mp (List.mem_append_right _ hx))

theorem Counted.removeLruItem (h : Counted s live l₁ l₂ n) (hl : live r) :
    ∃ l₁' l₂', Counted (s.removeLruItem r) (fun x => live x ∧ x ≠ r) l₁' l₂' n ∧
      l₁'.length + l₂'.length + 1 = l₁.length + l₂.length := by
  obtain ⟨l₁', l₂', hlists, hperm⟩ := h.lists.removeLruItem hl
  have hp := hperm (by have := h.hits r hl; omega)
  have hnd : (r :: (l₁' ++ l₂')).Nodup := hp.nodup_iff.mpr h.lists.nodup
  refine ⟨l₁', l₂', ⟨hlists, fun x hx => ?_, fun x hx => ?_⟩, ?_⟩
  · rw [removeLruItem_hits, Function.update_of_ne hx.2]
    exact h.hits x hx.1
  · have hmem : x ∈ l₁' ++ l₂' := List.mem_append_right _ hx
    refine ⟨h.mem_iff.mp (hp.mem_iff.mp (List.mem_cons_of_mem _ hmem)), ?_⟩
    rintro rfl
    exact (List.nodup_cons.mp hnd).1 hmem
  · have hlen := hp.length_eq
    rw [List.length_cons, List.length_append, List.length_append] at hlen
    omega

theorem Counted.live_congr (h : Counted s live l₁ l₂ n) (hl : ∀ x, live x ↔ live' x) :
    Counted s live' l₁ l₂ n := by
  rwa [show live' = live from funext fun x => propext (hl x).symm]

end Counted

/-! ## The table -/

variable [DecidableEq K] [HashCode K]

structure Exact (s : LruCache K V) (capacity : Int) (n : Nat) : Prop where
  layout : ∃ chains l₁ l₂, Table s chains ∧ Counted s (Resident chains) l₁ l₂ n
  isLruTailRemove : s.isLruTailRemove = false
  capacity_eq : s.capacity = capacity

section
variable {s s' : LruCache K V} {chains : Nat → List Ref} {l₁ l₂ : List Ref} {k : K} {n : Nat}
  {capacity : Int} {r : Ref}

omit [DecidableEq K] in
theorem Exact.mono (h : Exact s capacity n) {m : Nat} (hm : n ≤ m) : Exact s capacity m := by
  obtain ⟨chains, l₁, l₂, ht, hc⟩ := h.layout
  exact ⟨⟨chains, l₁, l₂, ht, hc.mono hm⟩, h.isLruTailRemove, h.capacity_eq⟩

omit [DecidableEq K] in
theorem Exact.countHit (h : Exact s capacity n) : Exact s.countHit capacity n := by
  obtain ⟨chains, l₁, l₂, ht, hc⟩ := h.layout
  have hs := countHit_sameTable s
  refine ⟨⟨chains, l₁, l₂, ht.congr hs, hc.congr hc.lists.countHit ?_⟩,
    hs.isLruTailRemove.trans h.isLruTailRemove, ?_⟩
  · unfold LruCache.countHit
    split <;> rfl
  · rw [← h.capacity_eq]
    unfold LruCache.countHit
    split <;> rfl

omit [DecidableEq K] in
theorem Exact.countMiss (h : Exact s capacity n) : Exact s.countMiss capacity n := by
  obtain ⟨chains, l₁, l₂, ht, hc⟩ := h.layout
  have hs := countMiss_sameTable s
  refine ⟨⟨chains, l₁, l₂, ht.congr hs, hc.congr hc.lists.countMiss ?_⟩,
    hs.isLruTailRemove.trans h.isLruTailRemove, ?_⟩
  · unfold LruCache.countMiss
    split <;> rfl
  · rw [← h.capacity_eq]
    unfold LruCache.countMiss
    split <;> rfl

/-- The item of a key that is answered. -/
theorem Table.found (h : Table s chains) {v : V} (hv : s.lookup k = some v) :
    ∃ r ∈ chains (s.bucket k), s.key r = some k ∧
      s.findItem k s.allocated (s.entries (s.bucket k)) = some (some r) := by
  cases hf : (chains (s.bucket k)).find? (fun r => decide (s.key r = some k)) with
  | none =>
    rw [lookup, h.findItem_eq, hf] at hv
    cases hv
  | some r =>
    refine ⟨r, List.mem_of_find?_eq_some hf, ?_, ?_⟩
    · simpa using List.find?_some hf
    · rw [h.findItem_eq, hf]

theorem Table.not_found (h : Table s chains) (hk : s.lookup k = none) :
    (∀ r ∈ chains (s.bucket k), s.key r ≠ some k) ∧
      s.findItem k s.allocated (s.entries (s.bucket k)) = some none := by
  have hnone : ∀ r ∈ chains (s.bucket k), s.key r ≠ some k := by
    intro r hr hrk
    obtain ⟨-, v, -, hv, -⟩ := h.item _ r hr
    rw [h.lookup_of_mem hr hrk, hv] at hk
    cases hk
  refine ⟨hnone, ?_⟩
  rw [h.findItem_eq, List.find?_eq_none.mpr (fun r hr => by simpa using hnone r hr)]

/-- An item that is found is in the table. -/
theorem Table.resident_of_findItem (h : Table s chains)
    (hf : s.findItem k s.allocated (s.entries (s.bucket k)) = some (some r)) : Resident chains r := by
  rw [h.findItem_eq, Option.some.injEq] at hf
  exact ⟨_, List.mem_of_find?_eq_some hf⟩

/-- A lookup of `k` counts a hit of an item that has had `n`. -/
def HitsAt (s : LruCache K V) (k : K) (n : Nat) : Prop :=
  ∃ r, s.findItem k s.allocated (s.entries (s.bucket k)) = some (some r) ∧ Due s r ∧ s.hitCount r = n

theorem Counted.not_hitsAt (ht : Table s chains) (hc : Counted s (Resident chains) l₁ l₂ n) {m : Nat}
    (hm : n < m) : ¬ s.HitsAt k m := by
  rintro ⟨r, hf, -, hhits⟩
  have hle := hc.hits r (ht.resident_of_findItem hf)
  omega

/-- A key without an item is not hit. -/
theorem Table.not_hitsAt (h : Table s chains) (hk : s.lookup k = none) {m : Nat} : ¬ s.HitsAt k m := by
  rintro ⟨r, hf, -⟩
  rw [(h.not_found hk).2] at hf
  cases hf

theorem Exact.not_hitsAt (h : Exact s capacity n) {m : Nat} (hm : n < m) : ¬ s.HitsAt k m := by
  obtain ⟨chains, l₁, l₂, ht, hc⟩ := h.layout
  exact hc.not_hitsAt ht hm

/-! ## `get` -/

/-- Unless the lookup hits an item that has had `n`. -/
theorem get_exact (h : Exact s capacity n) (hn : n < 2 ^ 31) (hk : ¬ s.HitsAt k n) :
    ∃ s', s.get k = some (s', s.lookup k) ∧ Exact s' capacity n := by
  obtain ⟨chains, l₁, l₂, ht, hc⟩ := h.layout
  cases hlookup : s.lookup k with
  | none =>
    refine ⟨s.countMiss, ?_, h.countMiss⟩
    simp only [LruCache.get, (ht.not_found hlookup).2, Option.bind_eq_bind, Option.bind_some]
  | some v =>
    obtain ⟨r, hr, hrk, hf⟩ := ht.found hlookup
    obtain ⟨s₁, l₁', l₂', hrun, hc', hcap⟩ := hc.updateLru (r := r) ⟨_, hr⟩ hn
      fun hdue hhits => hk ⟨r, hf, hdue, hhits⟩
    have hs := updateLru_sameTable hrun
    have hv : s₁.countHit.value r = some v := by
      rw [(countHit_sameTable s₁).value, hs.value, ← ht.lookup_of_mem hr hrk, hlookup]
    refine ⟨s₁.countHit, ?_, ?_⟩
    · simp only [LruCache.get, hf, Option.bind_eq_bind, Option.bind_some, hrun, hv]
    · apply Exact.countHit
      exact ⟨⟨chains, l₁', l₂', ht.congr hs, hc'⟩, hs.isLruTailRemove.trans h.isLruTailRemove,
        hcap.trans h.capacity_eq⟩

/-- A miss hits nothing. -/
theorem get_miss_exact (h : Exact s capacity n) (hk : s.lookup k = none) :
    ∃ s', s.get k = some (s', none) ∧ Exact s' capacity n ∧ s'.lookup k = none := by
  obtain ⟨chains, l₁, l₂, ht, hc⟩ := h.layout
  refine ⟨s.countMiss, ?_, h.countMiss, (lookup_congr (countMiss_sameTable s) k).trans hk⟩
  simp only [LruCache.get, (ht.not_found hk).2, Option.bind_eq_bind, Option.bind_some]

/-! ## `remove` -/

omit [DecidableEq K] [HashCode K] in
theorem unchain_lists (s : LruCache K V) (hash : Nat) (prevItem : Option Ref) (item : Ref) :
    (s.unchain hash prevItem item).hitCount = s.hitCount ∧
      (s.unchain hash prevItem item).capacity = s.capacity ∧
      (s.unchain hash prevItem item).isLruTailRemove = s.isLruTailRemove := by
  cases prevItem <;> exact ⟨rfl, rfl, rfl⟩

/-- Removing the key of a resident item shortens the lists. -/
theorem Counted.remove (ht : Table s chains) (hc : Counted s (Resident chains) l₁ l₂ n)
    (hr : r ∈ chains (s.bucket k)) (hk : s.key r = some k) :
    ∃ s' chains' l₁' l₂', s.remove k = some (s', s.lookup k) ∧ Table s' chains' ∧
      Counted s' (Resident chains') l₁' l₂' n ∧ s'.capacity = s.capacity ∧
      s'.isLruTailRemove = s.isLruTailRemove ∧
      l₁'.length + l₂'.length + 1 = l₁.length + l₂.length := by
  obtain ⟨prevItem, chains', hrun, ht', hres⟩ := Layout.remove_found ⟨ht, hc.lists⟩ hr hk
  obtain ⟨l₁', l₂', hc', hlen⟩ := hc.removeLruItem (r := r) ⟨_, hr⟩
  obtain ⟨hhits, hcap, hflag⟩ :=
    unchain_lists (s.removeLruItem r) (s.bucket k) prevItem r
  refine ⟨_, chains', l₁', l₂', hrun, ht', ?_, ?_, ?_, hlen⟩
  · exact (hc'.congr (hc'.lists.unchain _ _ _) hhits).live_congr hres
  · rw [hcap, removeLruItem_capacity]
  · rw [hflag, (removeLruItem_sameTable s r).isLruTailRemove]

theorem remove_exact (h : Exact s capacity n) (k : K) :
    ∃ s', s.remove k = some (s', s.lookup k) ∧ Exact s' capacity n := by
  obtain ⟨chains, l₁, l₂, ht, hc⟩ := h.layout
  cases hk : s.lookup k with
  | none =>
    exact ⟨s, Layout.remove_none ⟨ht, hc.lists⟩ (ht.not_found hk).1, h⟩
  | some v =>
    obtain ⟨r, hr, hrk, -⟩ := ht.found hk
    obtain ⟨s', chains', l₁', l₂', hrun, ht', hc', hcap, hflag, -⟩ := hc.remove ht hr hrk
    rw [hk] at hrun
    exact ⟨s', hrun, ⟨⟨chains', l₁', l₂', ht', hc'⟩, hflag.trans h.isLruTailRemove,
      hcap.trans h.capacity_eq⟩⟩

/-! ## Eviction -/

omit [DecidableEq K] [HashCode K] in
/-- The item that is removed is the last of a list. -/
theorem Lru.tail_mem {live : Ref → Prop} (h : Lru s live l₁ l₂)
    (htail : ((if s.capacity1 ≤ s.size1 then s.tail1 else none).or s.tail2).or s.tail1 = some r) :
    r ∈ l₁ ++ l₂ := by
  have htails : s.tail1 = some r ∨ s.tail2 = some r := by
    rw [Option.or_eq_some_iff, Option.or_eq_some_iff] at htail
    rcases htail with (h' | h') | h'
    · split at h'
      · exact Or.inl h'
      · cases h'
    · exact Or.inr h'.2
    · exact Or.inl h'.2
  rw [h.list₁.tail_eq, h.list₂.tail_eq] at htails
  rw [List.mem_append]
  exact htails.imp List.mem_of_mem_getLast? List.mem_of_mem_getLast?

/-- `removeTail` removes the key of an item, unless there is none. -/
theorem Counted.removeTail_cases (ht : Table s chains) (hc : Counted s (Resident chains) l₁ l₂ n) :
    (l₁.length + l₂.length = 0 ∧ s.removeTail = some (s, false)) ∨
      ∃ r k, r ∈ chains (s.bucket k) ∧ s.key r = some k ∧
        s.removeTail = (s.remove k).map fun p => (p.1, true) := by
  unfold LruCache.removeTail
  dsimp only
  split
  · next hnone =>
    rw [Option.or_eq_none_iff, Option.or_eq_none_iff] at hnone
    have h₁ := hnone.2
    have h₂ := hnone.1.2
    rw [hc.lists.list₁.tail_eq, List.getLast?_eq_none_iff] at h₁
    rw [hc.lists.list₂.tail_eq, List.getLast?_eq_none_iff] at h₂
    left
    simp [h₁, h₂]
  · next tail htail =>
    right
    obtain ⟨i, hi⟩ := hc.mem_iff.mp (hc.lists.tail_mem htail)
    obtain ⟨k, -, hk, -, -⟩ := ht.item i tail hi
    rw [← ht.bucket_eq hi hk] at hi
    refine ⟨tail, k, hi, hk, ?_⟩
    simp only [hk, Option.bind_eq_bind, Option.bind_some, Option.map_eq_bind]
    rfl

/-- `removeTail` takes out one item, unless there is none. -/
theorem Counted.removeTail (ht : Table s chains) (hc : Counted s (Resident chains) l₁ l₂ n) :
    (l₁.length + l₂.length = 0 ∧ s.removeTail = some (s, false)) ∨
      ∃ s' chains' l₁' l₂', s.removeTail = some (s', true) ∧ Table s' chains' ∧
        Counted s' (Resident chains') l₁' l₂' n ∧ s'.capacity = s.capacity ∧
        s'.isLruTailRemove = s.isLruTailRemove ∧
        l₁'.length + l₂'.length + 1 = l₁.length + l₂.length := by
  rcases hc.removeTail_cases ht with hnone | ⟨r, k, hr, hk, htail⟩
  · exact .inl hnone
  · obtain ⟨s', chains', l₁', l₂', hrun, hrest⟩ := hc.remove ht hr hk
    refine .inr ⟨s', chains', l₁', l₂', ?_, hrest⟩
    rw [htail, hrun]
    rfl

/-- **The eviction loop ends** once its fuel exceeds the number of items. -/
theorem Counted.removeTails (fuel : Nat) :
    ∀ {s : LruCache K V} {chains : Nat → List Ref} {l₁ l₂ : List Ref}, Table s chains →
      Counted s (Resident chains) l₁ l₂ n → l₁.length + l₂.length < fuel →
      ∃ s' chains' l₁' l₂', s.removeTails fuel = some s' ∧ Table s' chains' ∧
        Counted s' (Resident chains') l₁' l₂' n ∧ s'.capacity = s.capacity ∧
        s'.isLruTailRemove = s.isLruTailRemove ∧ Room s' l₁' l₂' := by
  induction fuel with
  | zero =>
    intro s chains l₁ l₂ _ _ hf
    omega
  | succ fuel ih =>
    intro s chains l₁ l₂ ht hc hf
    rw [LruCache.removeTails]
    split
    swap
    · next hlt =>
      exact ⟨s, chains, l₁, l₂, rfl, ht, hc, rfl, rfl,
        Layout.room ⟨ht, hc.lists⟩ (by omega)⟩
    rcases hc.removeTail ht with ⟨hzero, hrun⟩ |
      ⟨s₁, chains₁, m₁, m₂, hrun, ht₁, hc₁, hcap, hflag, hlen⟩
    · refine ⟨s, chains, l₁, l₂, ?_, ht, hc, rfl, rfl, ?_⟩
      · simp [hrun]
      · unfold Room
        omega
    · obtain ⟨s', chains', l₁', l₂', hrun', ht', hc', hcap', hflag', hroom⟩ :=
        ih ht₁ hc₁ (by omega)
      refine ⟨s', chains', l₁', l₂', ?_, ht', hc', hcap'.trans hcap, hflag'.trans hflag, hroom⟩
      simpa [hrun] using hrun'

theorem Exact.removeLru (h : Exact s capacity n) :
    ∃ s' chains l₁ l₂, s.removeLru = some s' ∧ Table s' chains ∧
      Counted s' (Resident chains) l₁ l₂ n ∧ s'.capacity = capacity ∧
      s'.isLruTailRemove = false ∧ Room s' l₁ l₂ := by
  obtain ⟨chains, l₁, l₂, ht, hc⟩ := h.layout
  unfold LruCache.removeLru
  split
  swap
  · next hlt =>
    exact ⟨s, chains, l₁, l₂, rfl, ht, hc, h.capacity_eq, h.isLruTailRemove,
      Layout.room ⟨ht, hc.lists⟩ (by omega)⟩
  rw [h.isLruTailRemove, if_neg Bool.false_ne_true]
  have hflag := Layout.flag ⟨ht, hc.lists⟩ true
  have hlen := hc.lists.length_le
  obtain ⟨s', chains', l₁', l₂', hrun, ht', hc', hcap, -, hroom⟩ :=
    (hc.congr hflag.lists rfl).removeTails (s.allocated + 2) hflag.table (by omega)
  have hflag' := Layout.flag ⟨ht', hc'.lists⟩ false
  refine ⟨{ s' with isLruTailRemove := false }, chains', l₁', l₂', ?_, hflag'.table,
    hc'.congr hflag'.lists rfl, hcap.trans h.capacity_eq, rfl, hroom⟩
  simp only [hrun, Option.bind_eq_bind, Option.bind_some]

/-! ## `put` -/

theorem Counted.insert (ht : Table s chains) (hc : Counted s (Resident chains) l₁ l₂ n) (h₁ : 1 ≤ n)
    (v : V) (hk : s.lookup k = none) (hroom : Room s l₁ l₂) :
    ∃ chains', Table (s.insert k v) chains' ∧
      Counted (s.insert k v) (Resident chains') (s.allocated :: l₁) l₂ n := by
  have hl := Layout.insert ⟨ht, hc.lists⟩ v hk hroom
  refine ⟨_, hl.table, hl.lists, fun r hr => ?_, fun r hr => ?_⟩
  · show 1 ≤ update s.hitCount s.allocated 1 r ∧ update s.hitCount s.allocated 1 r ≤ _
    by_cases hra : r = s.allocated
    · rw [hra, Function.update_self]
      omega
    · rw [Function.update_of_ne hra]
      have hold : Resident chains r := by
        apply hc.mem_iff.mp
        rcases hl.lists.cover r hr with hr | hr
        · exact List.mem_append_left _ ((List.mem_cons.mp hr).resolve_left hra)
        · exact List.mem_append_right _ hr
      exact hc.hits r hold
  · obtain ⟨i, hi⟩ := hc.listed r hr
    by_cases hb : i = s.bucket k
    · subst hb
      refine ⟨s.bucket k, ?_⟩
      rw [Function.update_self]
      exact List.mem_cons_of_mem _ hi
    · exact ⟨i, by rwa [Function.update_of_ne hb]⟩

/-- **`put` always completes.** Its lookup comes after the eviction. -/
theorem put_exact [DecidableEq V] (h : Exact s capacity n) (h₁ : 1 ≤ n) (hn : n < 2 ^ 31)
    (hk : ∀ s₁, s.removeLru = some s₁ → ¬ s₁.HitsAt k n) (v : V) :
    ∃ s' o, s.put k v = some (s', o) ∧ Exact s' capacity n := by
  obtain ⟨s₁, chains, l₁, l₂, hrun, ht, hc, hcap, hflag, hroom⟩ := h.removeLru
  unfold put compareAndPut
  simp only [hrun, Option.bind_eq_bind, Option.bind_some]
  cases hlookup : s₁.lookup k with
  | none =>
    obtain ⟨chains', ht', hc'⟩ := hc.insert ht h₁ v hlookup hroom
    refine ⟨s₁.insert k v, none, ?_, ⟨⟨chains', _, _, ht', hc'⟩, hflag, hcap⟩⟩
    simp [(ht.not_found hlookup).2]
  | some old =>
    obtain ⟨r, hr, -, hf⟩ := ht.found hlookup
    obtain ⟨s₂, l₁', l₂', hrun₂, hc₂, hcap₂⟩ := hc.updateLru (r := r) ⟨_, hr⟩ hn
      fun hdue hhits => hk s₁ hrun ⟨r, hf, hdue, hhits⟩
    have hs := updateLru_sameTable hrun₂
    have hl : Lru { s₂ with value := update s₂.value r (some v) } (Resident chains) l₁' l₂' :=
      hc₂.lists.congr rfl rfl rfl rfl rfl rfl rfl rfl rfl rfl rfl rfl
    refine ⟨{ s₂ with value := update s₂.value r (some v) },
      if some v = s₂.value r then none else s₂.value r, ?_,
      ⟨⟨chains, l₁', l₂', (ht.congr hs).assign r v, hc₂.congr hl rfl⟩,
        hs.isLruTailRemove.trans hflag, hcap₂.trans hcap⟩⟩
    simp only [hf, hrun₂, Option.bind_some, Bool.false_eq_true, false_and, ↓reduceIte]

/-- An eviction does not bring a key in. -/
theorem Exact.not_hitsAt_of_none (h : Exact s capacity n) (hk : s.lookup k = none) {m : Nat} :
    ∀ s₁, s.removeLru = some s₁ → ¬ s₁.HitsAt k m := by
  intro s₁ hs₁
  obtain ⟨chains, l₁, l₂, ht, hc⟩ := h.layout
  obtain ⟨hevicts, -, chains', l₁', l₂', hl, -⟩ :=
    removeLru_spec ⟨⟨chains, l₁, l₂, ht, hc.lists⟩, h.isLruTailRemove⟩ hs₁
  refine hl.table.not_hitsAt ?_
  rcases hevicts k with heq | hnone
  · rw [heq, hk]
  · exact hnone

theorem Exact.not_hitsAt_removeLru (h : Exact s capacity n) {m : Nat} (hm : n < m) (k : K) :
    ∀ s₁, s.removeLru = some s₁ → ¬ s₁.HitsAt k m := by
  intro s₁ hs₁
  obtain ⟨s', chains, l₁, l₂, hrun, ht, hc, -⟩ := h.removeLru
  rw [hrun, Option.some.injEq] at hs₁
  subst hs₁
  exact hc.not_hitsAt ht hm

/-! ## `clear` -/

omit [DecidableEq K] in
theorem clear_exact (h : Exact s capacity n) : ∃ s', s.clear = some s' ∧ Exact s' capacity n := by
  obtain ⟨chains, l₁, l₂, ht, hc⟩ := h.layout
  obtain ⟨s', hrun, ht', ⟨hcap, l₁', l₂', hc'⟩, hflag⟩ :=
    ht.clear (P := fun s live => s.capacity = capacity ∧ ∃ l₁ l₂, Counted s live l₁ l₂ n)
      (fun s live r hp hr => by
        obtain ⟨hcap, l₁, l₂, hc⟩ := hp
        obtain ⟨l₁', l₂', hc', -⟩ := hc.removeLruItem hr
        exact ⟨(removeLruItem_capacity s r).trans hcap, l₁', l₂', hc'⟩)
      (fun s live e hp => by
        obtain ⟨hcap, l₁, l₂, hc⟩ := hp
        exact ⟨hcap, l₁, l₂,
          hc.congr (hc.lists.congr rfl rfl rfl rfl rfl rfl rfl rfl rfl rfl rfl rfl) rfl⟩)
      ⟨h.capacity_eq, l₁, l₂, hc⟩ (Layout.chains_of_sizes ⟨ht, hc.lists⟩)
  exact ⟨s', hrun, ⟨⟨_, l₁', l₂', ht', hc'⟩, hflag.trans h.isLruTailRemove, hcap⟩⟩

/-! ## Construction -/

omit [DecidableEq K] in
theorem new_exact {initialCapacity : Int} (h : initialCapacity < 2 ^ 31) {isStatistics : Bool}
    (hs : new initialCapacity isStatistics = some s) : Exact s initialCapacity 0 := by
  obtain ⟨ht, hl⟩ := new_layout h hs
  refine ⟨⟨fun _ => [], [], [], ht, hl, fun r hr => ?_, fun r hr => by cases hr⟩, ?_, ?_⟩
  · obtain ⟨i, hi⟩ := hr
    cases hi
  all_goals
    obtain ⟨c, -, rfl⟩ := Option.map_eq_some_iff.mp hs
    rfl

end

end LruCache

end BaseService.LocalCache
