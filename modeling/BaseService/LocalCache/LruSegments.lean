import BaseService.Data.Segments
import BaseService.LocalCache.LruCounted

/-!
# `LruCache` in two segments

* `Segmented s capacity n a` : the two lists of the cache hold the entries of the segments `a`, in their
  order, and no item has had more than `n` hits;
* `get_segmented`, `remove_segmented`, `put_segmented`, `clear_segmented` : a call of the cache is one of
  the segments;
-/

namespace BaseService.LocalCache
open Function (update)
open Links

namespace LruCache
variable {K V : Type}

/-! ## The lists after a call -/

section Lists
variable {s s' : LruCache K V} {live : Ref → Prop} {l₁ l₂ : List Ref} {n : Nat} {r : Ref}

/-- A hit that is counted moves the item to the front of the used-twice list. -/
theorem Lru.hit (h : Lru s live l₁ l₂) (hl : live r) (hpos : 0 < s.hitCount r) (hdue : Due s r) :
    ∃ s', s.updateLru r = some s' ∧ Lru s' live (l₁.erase r) (r :: l₂.erase r) := by
  unfold LruCache.updateLru
  rw [if_pos (.inl hdue)]
  unfold updateLruImpl
  have h₀ : Lru (s.stamp r) live l₁ l₂ :=
    h.congr rfl rfl rfl rfl rfl rfl rfl rfl rfl rfl rfl rfl
  have hpos₀ : 0 < (s.stamp r).hitCount r := hpos
  generalize s.stamp r = s₀ at h₀ hpos₀ ⊢
  dsimp only
  rw [if_neg (by omega)]
  split
  · next hone =>
    have hr := h₀.mem₁ hl hone
    rw [hone, show wrapInt (1 + 1) = 2 from by decide, List.erase_of_not_mem (h₀.disjoint hr)]
    exact ⟨_, rfl, h₀.promote hr⟩
  · next hne =>
    have hr := h₀.mem₂ hl hne
    have hlt := h₀.hit_lt r
    have hc : wrapInt (s₀.hitCount r + 1) ≠ 1 ∧ wrapInt (s₀.hitCount r + 1) < 2 ^ 31 := by
      unfold wrapInt
      omega
    rw [List.erase_of_not_mem fun hr₁ => h₀.disjoint hr₁ hr]
    exact (h₀.bump hr hc.1 hc.2).toFront hr hl

theorem Counted.hit (h : Counted s live l₁ l₂ n) (hl : live r) (hn : n < 2 ^ 31) (hdue : Due s r)
    (hr : s.hitCount r ≠ n) :
    ∃ s', s.updateLru r = some s' ∧ Counted s' live (l₁.erase r) (r :: l₂.erase r) n ∧
      s'.capacity = s.capacity := by
  have hpos := h.hits r hl
  obtain ⟨s', hrun, hlists⟩ := h.lists.hit hl (by omega) hdue
  obtain ⟨s'', l₁', l₂', hrun', hcounted, hcap⟩ := h.updateLru hl hn fun _ => hr
  obtain rfl := Option.some.inj (hrun.symm.trans hrun')
  refine ⟨s', hrun, ⟨hlists, hcounted.hits, fun x hx => ?_⟩, hcap⟩
  rcases List.mem_cons.1 hx with rfl | hx
  · exact hl
  · exact h.listed x (List.mem_of_mem_erase hx)

theorem Counted.erase (h : Counted s live l₁ l₂ n) (hl : live r) :
    Counted (s.removeLruItem r) (fun x => live x ∧ x ≠ r) (l₁.erase r) (l₂.erase r) n := by
  have hpos := h.hits r hl
  obtain ⟨l₁', l₂', hlists, herase⟩ := h.lists.removeLruItem_erase hl
  obtain ⟨rfl, rfl⟩ := herase (by omega)
  refine ⟨hlists, fun x hx => ?_, fun x hx => ?_⟩
  · rw [removeLruItem_hits, Function.update_of_ne hx.2]
    exact h.hits x hx.1
  · obtain ⟨hne, hx⟩ := (h.lists.list₂.nodup.mem_erase_iff).1 hx
    exact ⟨h.listed x hx, hne⟩

theorem moveToHead_capacity1 (h : s.moveToHead r = some s') : s'.capacity1 = s.capacity1 := by
  unfold moveToHead at h
  dsimp only at h
  split at h
  · cases h
    rfl
  · split at h
    · cases h
      rfl
    · cases h

theorem updateLru_capacity1 (h : s.updateLru r = some s') : s'.capacity1 = s.capacity1 := by
  unfold updateLru at h
  dsimp only at h
  split at h
  swap
  · cases h
    rfl
  unfold updateLruImpl at h
  dsimp only at h
  split at h
  · cases h
    rfl
  · split at h
    · cases h
      rfl
    · exact (moveToHead_capacity1 h).trans rfl

theorem removeLruItem_capacity1 (s : LruCache K V) (r : Ref) :
    (s.removeLruItem r).capacity1 = s.capacity1 := by
  unfold removeLruItem
  dsimp only
  split
  · rfl
  · split <;> rfl

theorem countHit_capacities (s : LruCache K V) :
    s.countHit.capacity = s.capacity ∧ s.countHit.capacity1 = s.capacity1 ∧
      s.countHit.hitCount = s.hitCount := by
  unfold LruCache.countHit
  split <;> exact ⟨rfl, rfl, rfl⟩

theorem countMiss_capacities (s : LruCache K V) :
    s.countMiss.capacity = s.capacity ∧ s.countMiss.capacity1 = s.capacity1 ∧
      s.countMiss.hitCount = s.hitCount := by
  unfold LruCache.countMiss
  split <;> exact ⟨rfl, rfl, rfl⟩

theorem unchain_capacity1 (s : LruCache K V) (hash : Nat) (prevItem : Option Ref) (item : Ref) :
    (s.unchain hash prevItem item).capacity1 = s.capacity1 := by
  cases prevItem <;> rfl

/-! ## The entries of a list -/

/-- The key and the value of an item. -/
def entry (s : LruCache K V) (r : Ref) : Option (K × V) :=
  (s.key r).bind fun k => (s.value r).map fun v => (k, v)

theorem entry_eq_some {p : K × V} : s.entry r = some p ↔ s.key r = some p.1 ∧ s.value r = some p.2 := by
  obtain ⟨k, v⟩ := p
  unfold entry
  constructor
  · intro h
    obtain ⟨k', hk, h⟩ := Option.bind_eq_some_iff.1 h
    obtain ⟨v', hv, h⟩ := Option.map_eq_some_iff.1 h
    cases h
    exact ⟨hk, hv⟩
  · rintro ⟨hk, hv⟩
    rw [hk, hv]
    rfl

theorem SameTable.entry (h : SameTable s s') : s'.entry = s.entry := by
  unfold LruCache.entry
  rw [h.key, h.value]

/-- Two lists correspond. -/
def Holds (s : LruCache K V) (l : List Ref) (es : List (K × V)) : Prop := l.map s.entry = es.map some

variable {l : List Ref} {es : List (K × V)} {p : K × V}

theorem Holds.mem (h : Holds s l es) : p ∈ es ↔ ∃ r ∈ l, s.entry r = some p := by
  have hmem : some p ∈ es.map some ↔ some p ∈ l.map s.entry := by rw [h]
  rwa [List.mem_map_of_injective (Option.some_injective _), List.mem_map] at hmem

theorem Holds.length (h : Holds s l es) : l.length = es.length := by
  have hlength := congrArg List.length h
  rwa [List.length_map, List.length_map] at hlength

theorem Holds.getLast? (h : Holds s l es) : l.getLast?.map s.entry = es.getLast?.map some := by
  rw [← List.getLast?_map, ← List.getLast?_map, h]

theorem Holds.congr (h : Holds s l es) (hs : ∀ r ∈ l, s'.entry r = s.entry r) : Holds s' l es :=
  (List.map_congr_left hs).trans h

theorem Holds.cons (h : Holds s l es) (hr : s.entry r = some p) : Holds s (r :: l) (p :: es) := by
  rw [Holds, List.map_cons, List.map_cons, hr, h]

theorem Holds.filter (h : Holds s l es) {P : Ref → Bool} {Q : K × V → Bool}
    (hPQ : ∀ r ∈ l, ∀ p, s.entry r = some p → P r = Q p) : Holds s (l.filter P) (es.filter Q) := by
  induction l generalizing es with
  | nil =>
    cases es with
    | nil => rfl
    | cons p es => cases h
  | cons r l ih =>
    cases es with
    | nil => cases h
    | cons p es =>
      rw [Holds, List.map_cons, List.map_cons, List.cons.injEq] at h
      obtain ⟨hr, h⟩ := h
      have hrest := ih h fun x hx => hPQ x (List.mem_cons_of_mem _ hx)
      rw [List.filter_cons, List.filter_cons, hPQ r (List.mem_cons_self ..) p hr]
      split
      · exact hrest.cons hr
      · exact hrest

/-- Taking out an item takes out its key. -/
theorem Holds.erase [DecidableEq K] (h : Holds s l es) (hnodup : l.Nodup) {k : K}
    (hk : ∀ x ∈ l, s.key x = some k ↔ x = r) : Holds s (l.erase r) (Segments.without es k) := by
  rw [hnodup.erase_eq_filter]
  refine h.filter fun x hx p hp => ?_
  obtain ⟨hkey, -⟩ := entry_eq_some.1 hp
  have hiff := hk x hx
  rw [hkey, Option.some.injEq] at hiff
  rw [bne, beq_eq_decide, ← decide_not]
  exact decide_eq_decide.2 (not_congr hiff.symm)

theorem Holds.map (h : Holds s l es) {g : K × V → K × V}
    (hg : ∀ r ∈ l, s'.entry r = (s.entry r).map g) : Holds s' l (es.map g) := by
  have hentries : l.map s'.entry = (l.map s.entry).map (Option.map g) := by
    rw [List.map_map]
    exact List.map_congr_left hg
  rw [Holds, hentries, h, List.map_map, List.map_map]
  rfl

/-- A new value for an item is one for its key. -/
theorem Holds.assign [DecidableEq K] (h : Holds s l es) {k : K}
    (hk : ∀ x ∈ l, s.key x = some k ↔ x = r) (hv : ∀ x ∈ l, s.entry x ≠ none) (v : V) :
    Holds { s with value := update s.value r (some v) } l (Segments.assign es k v) := by
  refine h.map fun x hx => ?_
  obtain ⟨p, hp⟩ := Option.ne_none_iff_exists'.1 (hv x hx)
  obtain ⟨hkey, hvalue⟩ := entry_eq_some.1 hp
  rw [hp, Option.map_some, entry_eq_some]
  show s.key x = _ ∧ update s.value r (some v) x = _
  have hiff := hk x hx
  rw [hkey, Option.some.injEq] at hiff
  by_cases hxr : x = r
  · rw [if_pos (hiff.2 hxr), hxr, Function.update_self, ← hxr, hkey, hiff.2 hxr]
    exact ⟨rfl, rfl⟩
  · rw [if_neg fun he => hxr (hiff.1 he), Function.update_of_ne hxr]
    exact ⟨hkey, hvalue⟩

end Lists

/-! ## The segments of a cache -/

variable [DecidableEq K] [HashCode K]

structure Segmented (s : LruCache K V) (flag : Bool) (capacity : Int) (n : Nat) (a : Segments K V) : Prop
    where
  layout : ∃ chains l₁ l₂, Table s chains ∧ Counted s (Resident chains) l₁ l₂ n ∧ Holds s l₁ a.once ∧
    Holds s l₂ a.twice
  isLruTailRemove : s.isLruTailRemove = flag
  capacity_eq : s.capacity = capacity
  capacity1_eq : s.capacity1 = capacity.tdiv 2

section
variable {s s' : LruCache K V} {chains : Nat → List Ref} {l₁ l₂ l : List Ref} {k : K} {v : V} {n : Nat}
  {flag : Bool} {capacity : Int} {r : Ref} {a a' : Segments K V} {p : K × V}

omit [DecidableEq K] in
/-- No two items of the table have a key. -/
theorem Table.key_iff (h : Table s chains) (hr : Resident chains r) (hk : s.key r = some k) :
    ∀ x, Resident chains x → (s.key x = some k ↔ x = r) := by
  rintro x ⟨i, hx⟩
  obtain ⟨j, hr⟩ := hr
  refine ⟨fun hxk => ?_, fun he => he ▸ hk⟩
  rw [← h.bucket_eq hx hxk] at hx
  rw [← h.bucket_eq hr hk] at hr
  exact h.inj _ x hx r hr (hxk.trans hk.symm)

omit [DecidableEq K] in
theorem Table.entry_ne_none (h : Table s chains) (hr : Resident chains r) : s.entry r ≠ none := by
  obtain ⟨i, hr⟩ := hr
  obtain ⟨k, v, hk, hv, -⟩ := h.item i r hr
  have hp : s.entry r = some (k, v) := entry_eq_some.2 ⟨hk, hv⟩
  rw [hp]
  nofun

omit [DecidableEq K] [HashCode K] in
/-- The entries of the segments are those of the items. -/
theorem Counted.mem_entries (hc : Counted s (Resident chains) l₁ l₂ n) (h₁ : Holds s l₁ a.once)
    (h₂ : Holds s l₂ a.twice) : p ∈ a.entries ↔ ∃ r, Resident chains r ∧ s.entry r = some p := by
  rw [Segments.entries, List.mem_append, h₁.mem, h₂.mem]
  constructor
  · rintro (⟨r, hr, hp⟩ | ⟨r, hr, hp⟩)
    · exact ⟨r, hc.mem_iff.1 (List.mem_append_left _ hr), hp⟩
    · exact ⟨r, hc.mem_iff.1 (List.mem_append_right _ hr), hp⟩
  · rintro ⟨r, hr, hp⟩
    exact (List.mem_append.1 (hc.mem_iff.2 hr)).imp (fun hr => ⟨r, hr, hp⟩) fun hr => ⟨r, hr, hp⟩

omit [DecidableEq K] in
theorem Segmented.fits (h : Segmented s flag capacity n a) : Segments.Fits capacity a := by
  obtain ⟨chains, l₁, l₂, ht, hc, h₁, h₂⟩ := h.layout
  have hentries : Holds s (l₁ ++ l₂) a.entries := by
    rw [Holds, Segments.entries, List.map_append, List.map_append, h₁, h₂]
  refine ⟨?_, ?_⟩
  · have hkeys : (l₁ ++ l₂).map s.key = (a.entries.map Prod.fst).map some := by
      have hfst : (l₁ ++ l₂).map s.key = ((l₁ ++ l₂).map s.entry).map (Option.map Prod.fst) := by
        rw [List.map_map]
        refine List.map_congr_left fun x hx => ?_
        obtain ⟨p, hp⟩ := Option.ne_none_iff_exists'.1 (ht.entry_ne_none (hc.mem_iff.1 hx))
        rw [Function.comp_apply, hp, (entry_eq_some.1 hp).1]
        rfl
      rw [hfst, hentries, List.map_map, List.map_map]
      rfl
    refine List.Nodup.of_map some ?_
    rw [← hkeys]
    refine List.Nodup.map_on (fun x hx y hy he => ?_) hc.lists.nodup
    obtain ⟨i, hi⟩ := hc.mem_iff.1 hx
    obtain ⟨k, v, hk, -, -⟩ := ht.item i x hi
    exact ((ht.key_iff (hc.mem_iff.1 hy) (he ▸ hk)) x (hc.mem_iff.1 hx)).1 hk
  · have hfits := hc.lists.fits
    rw [h.capacity_eq] at hfits
    rw [Segments.size, ← h₁.length, ← h₂.length]
    exact hfits

/-- **The segments answer as the table does.** -/
theorem Segmented.lookup_eq (h : Segmented s flag capacity n a) (k : K) : a.lookup k = s.lookup k := by
  have hdistinct := h.fits.distinct
  obtain ⟨chains, l₁, l₂, ht, hc, h₁, h₂⟩ := h.layout
  refine Option.ext fun v => ?_
  rw [hdistinct.lookup_eq_some, hc.mem_entries h₁ h₂, ht.lookup_eq_some]
  constructor
  · rintro ⟨r, ⟨i, hi⟩, hp⟩
    exact ⟨i, r, hi, entry_eq_some.1 hp⟩
  · rintro ⟨i, r, hi, hp⟩
    exact ⟨r, ⟨i, hi⟩, entry_eq_some.2 hp⟩

/-- The item of a key, and its entry. -/
theorem Segmented.find_eq (h : Segmented s flag capacity n a) {chains : Nat → List Ref} (ht : Table s chains)
    (hr : Resident chains r) (hp : s.entry r = some p) : a.find p.1 = some p := by
  have hlookup := h.lookup_eq p.1
  obtain ⟨hk, hv⟩ := entry_eq_some.1 hp
  obtain ⟨i, hi⟩ := hr
  rw [ht.lookup_of_mem hi hk, hv, h.fits.distinct.lookup_eq_some] at hlookup
  exact h.fits.distinct.find_eq hlookup

theorem Segmented.find_none (h : Segmented s flag capacity n a) : a.find k = none ↔ s.lookup k = none := by
  rw [← h.lookup_eq, Segments.lookup, Option.map_eq_none_iff]

/-! ## `get` -/

/-- A hit uses the entry again, or leaves the lists. -/
theorem Segmented.updateLru (h : Segmented s flag capacity n a) (hn : n < 2 ^ 31) (ht : Table s chains)
    (hr : Resident chains r) (hp : s.entry r = some p) (hhits : Due s r → s.hitCount r ≠ n) :
    ∃ s' a', s.updateLru r = some s' ∧ Segments.Used a p a' ∧ Segmented s' flag capacity n a' := by
  by_cases hdue : Due s r
  swap
  · exact ⟨s, a, updateLru_of_not_due hdue, .inl rfl, h⟩
  obtain ⟨chains', l₁, l₂, ht', hc, h₁, h₂⟩ := h.layout
  have hres : Resident chains' r := (ht.resident_iff ht' r).1 hr
  obtain ⟨s', hrun, hc', hcap⟩ := hc.hit hres hn hdue (hhits hdue)
  have hs := updateLru_sameTable hrun
  have hkey : ∀ x, Resident chains' x → (s.key x = some p.1 ↔ x = r) :=
    ht'.key_iff hres (entry_eq_some.1 hp).1
  have hentry : ∀ x, s'.entry x = s.entry x := fun x => congrFun hs.entry x
  refine ⟨s', a.hit p, hrun, .inr rfl,
    ⟨⟨chains', _, _, ht'.congr hs, hc', ?_, ?_⟩, hs.isLruTailRemove.trans h.isLruTailRemove,
      hcap.trans h.capacity_eq, (updateLru_capacity1 hrun).trans h.capacity1_eq⟩⟩
  · refine (h₁.erase hc.lists.list₁.nodup fun x hx => hkey x ?_).congr fun x _ => hentry x
    exact hc.mem_iff.1 (List.mem_append_left _ hx)
  · refine (Holds.cons (h₂.erase hc.lists.list₂.nodup fun x hx => hkey x ?_) hp).congr
      fun x _ => hentry x
    exact hc.mem_iff.1 (List.mem_append_right _ hx)

omit [DecidableEq K] in
theorem Segmented.congr (h : Segmented s flag capacity n a) (hs : SameTable s s')
    (hlists : ∀ {live : Ref → Prop} {l₁ l₂ : List Ref}, Lru s live l₁ l₂ → Lru s' live l₁ l₂)
    (hcap : s'.capacity = s.capacity) (hcap₁ : s'.capacity1 = s.capacity1)
    (hhits : s'.hitCount = s.hitCount) : Segmented s' flag capacity n a := by
  obtain ⟨chains, l₁, l₂, ht, hc, h₁, h₂⟩ := h.layout
  have hentry : ∀ x, s'.entry x = s.entry x := fun x => congrFun hs.entry x
  exact ⟨⟨chains, l₁, l₂, ht.congr hs, hc.congr (hlists hc.lists) hhits, h₁.congr fun x _ => hentry x,
    h₂.congr fun x _ => hentry x⟩, hs.isLruTailRemove.trans h.isLruTailRemove,
    hcap.trans h.capacity_eq, hcap₁.trans h.capacity1_eq⟩

omit [DecidableEq K] in
theorem Segmented.countHit (h : Segmented s flag capacity n a) : Segmented s.countHit flag capacity n a := by
  obtain ⟨hcap, hcap₁, hhits⟩ := countHit_capacities s
  exact h.congr (countHit_sameTable s) Lru.countHit hcap hcap₁ hhits

omit [DecidableEq K] in
theorem Segmented.countMiss (h : Segmented s flag capacity n a) : Segmented s.countMiss flag capacity n a := by
  obtain ⟨hcap, hcap₁, hhits⟩ := countMiss_capacities s
  exact h.congr (countMiss_sameTable s) Lru.countMiss hcap hcap₁ hhits

/-- **`get`** is a hit of the segments, or a miss. -/
theorem get_segmented [DecidableEq V] (h : Segmented s flag capacity n a) (hn : n < 2 ^ 31)
    (hk : ¬ s.HitsAt k n) :
    ∃ s' a', s.get k = some (s', s.lookup k) ∧
      Segments.Step capacity (capacity.tdiv 2) a (.get k, s.lookup k) a' ∧ Segmented s' flag capacity n a' := by
  obtain ⟨chains, l₁, l₂, ht, hc, -⟩ := h.layout
  cases hlookup : s.lookup k with
  | none =>
    refine ⟨s.countMiss, a, ?_, .miss (h.find_none.2 hlookup), h.countMiss⟩
    simp only [LruCache.get, (ht.not_found hlookup).2, Option.bind_eq_bind, Option.bind_some]
  | some v =>
    obtain ⟨r, hr, hrk, hf⟩ := ht.found hlookup
    have hv : s.value r = some v := (ht.lookup_of_mem hr hrk).symm.trans hlookup
    have hp : s.entry r = some (k, v) := entry_eq_some.2 ⟨hrk, hv⟩
    obtain ⟨s₁, a', hrun, hused, hseg⟩ := h.updateLru hn ht ⟨_, hr⟩ hp
      fun hdue hhits => hk ⟨r, hf, hdue, hhits⟩
    have hv₁ : s₁.countHit.value r = some v := by
      rw [(countHit_sameTable s₁).value, (updateLru_sameTable hrun).value, hv]
    refine ⟨s₁.countHit, a', ?_, .get (h.find_eq ht ⟨_, hr⟩ hp) hused, hseg.countHit⟩
    simp only [LruCache.get, hf, Option.bind_eq_bind, Option.bind_some, hrun, hv₁]

/-! ## `remove` -/

/-- The item of a key leaves its list. -/
theorem Segmented.remove_found (h : Segmented s flag capacity n a) (ht : Table s chains)
    (hr : r ∈ chains (s.bucket k)) (hk : s.key r = some k) :
    ∃ s', s.remove k = some (s', s.lookup k) ∧ Segmented s' flag capacity n (a.erase k) := by
  obtain ⟨chains₁, l₁, l₂, ht₁, hc, h₁, h₂⟩ := h.layout
  have hres : Resident chains₁ r := (ht.resident_iff ht₁ r).1 ⟨_, hr⟩
  have hr₁ : r ∈ chains₁ (s.bucket k) := by
    obtain ⟨i, hi⟩ := hres
    rwa [← ht₁.bucket_eq hi hk] at hi
  obtain ⟨prevItem, chains', hrun, ht', hresident⟩ := Layout.remove_found ⟨ht₁, hc.lists⟩ hr₁ hk
  have hs := removeLruItem_sameTable s r
  obtain ⟨uk, uv, -⟩ := unchain_fields (s.removeLruItem r) (s.bucket k) prevItem r
  obtain ⟨hhits, hcap, hflag⟩ := unchain_lists (s.removeLruItem r) (s.bucket k) prevItem r
  have hentry : ∀ x, ((s.removeLruItem r).unchain (s.bucket k) prevItem r).entry x = s.entry x := by
    intro x
    rw [entry, uk, uv, ← entry, hs.entry]
  have hkey : ∀ x, Resident chains₁ x → (s.key x = some k ↔ x = r) := ht₁.key_iff hres hk
  refine ⟨_, hrun, ⟨⟨chains', l₁.erase r, l₂.erase r, ht', ?_, ?_, ?_⟩, ?_, ?_, ?_⟩⟩
  · have hc' := hc.erase hres
    exact (hc'.congr (hc'.lists.unchain _ _ _) hhits).live_congr hresident
  · refine (h₁.erase hc.lists.list₁.nodup fun x hx => hkey x ?_).congr fun x _ => hentry x
    exact hc.mem_iff.1 (List.mem_append_left _ hx)
  · refine (h₂.erase hc.lists.list₂.nodup fun x hx => hkey x ?_).congr fun x _ => hentry x
    exact hc.mem_iff.1 (List.mem_append_right _ hx)
  · rw [hflag, hs.isLruTailRemove, h.isLruTailRemove]
  · rw [hcap, removeLruItem_capacity, h.capacity_eq]
  · rw [unchain_capacity1, removeLruItem_capacity1, h.capacity1_eq]

/-- **`remove`** takes out the entry of the key. -/
theorem remove_segmented (h : Segmented s flag capacity n a) (k : K) :
    ∃ s', s.remove k = some (s', s.lookup k) ∧ Segmented s' flag capacity n (a.erase k) := by
  obtain ⟨chains, l₁, l₂, ht, hc, -⟩ := h.layout
  cases hlookup : s.lookup k with
  | some v =>
    obtain ⟨r, hr, hrk, -⟩ := ht.found hlookup
    rw [← hlookup]
    exact h.remove_found ht hr hrk
  | none =>
    have hnone := Segments.find_none.1 (h.find_none.2 hlookup)
    have herase : a.erase k = a := by
      unfold Segments.erase
      rw [Segments.without_of_forall fun p hp => hnone p (List.mem_append_left _ hp),
        Segments.without_of_forall fun p hp => hnone p (List.mem_append_right _ hp)]
    rw [herase]
    exact ⟨s, Layout.remove_none ⟨ht, hc.lists⟩ (ht.not_found hlookup).1, h⟩

/-! ## Eviction -/

omit [DecidableEq K] in
theorem Segmented.size_eq (h : Segmented s flag capacity n a) : s.size = a.size := by
  obtain ⟨chains, l₁, l₂, ht, hc, h₁, h₂⟩ := h.layout
  rw [hc.lists.size_eq, Segments.size, ← h₁.length, ← h₂.length, Nat.cast_add]

omit [DecidableEq K] in
theorem Segmented.setFlag (h : Segmented s flag capacity n a) (b : Bool) :
    Segmented { s with isLruTailRemove := b } b capacity n a := by
  obtain ⟨chains, l₁, l₂, ht, hc, h₁, h₂⟩ := h.layout
  have hl := Layout.flag ⟨ht, hc.lists⟩ b
  exact ⟨⟨chains, l₁, l₂, hl.table, hc.congr hl.lists rfl, h₁, h₂⟩, rfl, h.capacity_eq, h.capacity1_eq⟩

/-- **`removeTail`** evicts the victim, if there is one. -/
theorem Segmented.removeTail (h : Segmented s flag capacity n a) :
    (a.size = 0 ∧ s.removeTail = some (s, false)) ∨
      (a.size ≠ 0 ∧ ∃ s', s.removeTail = some (s', true) ∧
        Segmented s' flag capacity n (a.evict (capacity.tdiv 2))) := by
  obtain ⟨chains, l₁, l₂, ht, hc, h₁, h₂⟩ := h.layout
  have hvictim : (((if s.capacity1 ≤ s.size1 then s.tail1 else none).or s.tail2).or s.tail1).map s.entry =
      (a.victim (capacity.tdiv 2)).map some := by
    rw [Segments.victim, h.capacity1_eq, hc.lists.size₁, h₁.length, hc.lists.list₁.tail_eq,
      hc.lists.list₂.tail_eq, Option.map_or, Option.map_or, Option.map_or, Option.map_or, apply_ite
      (Option.map s.entry), apply_ite (Option.map some), h₁.getLast?, h₂.getLast?]
    rfl
  cases htail : ((if s.capacity1 ≤ s.size1 then s.tail1 else none).or s.tail2).or s.tail1 with
  | none =>
    rw [htail, Option.map_none, eq_comm, Option.map_eq_none_iff] at hvictim
    refine .inl ⟨Segments.victim_none hvictim, ?_⟩
    unfold LruCache.removeTail
    simp only [htail]
  | some tail =>
    rw [htail, Option.map_some, eq_comm, Option.map_eq_some_iff] at hvictim
    obtain ⟨p, hvictim, hp⟩ := hvictim
    obtain ⟨hk, -⟩ := entry_eq_some.1 hp.symm
    obtain ⟨i, hi⟩ := hc.mem_iff.1 (hc.lists.tail_mem htail)
    rw [← ht.bucket_eq hi hk] at hi
    obtain ⟨s', hrun, hseg⟩ := h.remove_found ht hi hk
    refine .inr ⟨fun hzero => ?_, s', ?_, ?_⟩
    · rw [Segments.victim_empty _ hzero] at hvictim
      cases hvictim
    · unfold LruCache.removeTail
      simp only [htail, hk, hrun, Option.bind_eq_bind, Option.bind_some]
    · rwa [Segments.evict, hvictim]

/-- The eviction loop takes out one entry. -/
theorem Segmented.removeTails (h : Segmented s flag capacity n a) (hfull : capacity ≤ a.size)
    (fuel : Nat) :
    ∃ s', s.removeTails (fuel + 2) = some s' ∧ Segmented s' flag capacity n (a.evict (capacity.tdiv 2)) := by
  have hfits := h.fits.size
  rw [LruCache.removeTails, h.capacity_eq, h.size_eq, if_pos hfull]
  rcases h.removeTail with ⟨hzero, hrun⟩ | ⟨hpos, s₁, hrun, h₁⟩
  · rw [Segments.evict_empty _ hzero]
    exact ⟨s, by simp [hrun], h⟩
  · refine ⟨s₁, ?_, h₁⟩
    have hsize₁ := h.fits.distinct.evict_size hpos (capacity.tdiv 2)
    rw [hrun, Option.bind_eq_bind, Option.bind_some]
    dsimp only
    rw [if_pos rfl, LruCache.removeTails, h₁.capacity_eq, h₁.size_eq]
    split
    swap
    · rfl
    -- nothing fits in, and nothing is left
    rcases h₁.removeTail with ⟨hzero, hrun₁⟩ | ⟨hpos₁, -⟩
    · simp [hrun₁]
    · omega

/-- **`removeLru`** makes room for one entry. -/
theorem Segmented.removeLru (h : Segmented s false capacity n a) :
    ∃ s', s.removeLru = some s' ∧ Segmented s' false capacity n (a.room capacity (capacity.tdiv 2)) := by
  have hiff : s.capacity ≤ s.size ↔ capacity ≤ a.size := by rw [h.capacity_eq, h.size_eq]
  unfold LruCache.removeLru Segments.room
  by_cases hfull : capacity ≤ a.size
  swap
  · rw [if_neg (mt hiff.1 hfull), if_neg hfull]
    exact ⟨s, rfl, h⟩
  rw [if_pos (hiff.2 hfull), if_pos hfull, h.isLruTailRemove, if_neg Bool.false_ne_true]
  obtain ⟨s', hrun, hseg⟩ := (h.setFlag true).removeTails hfull s.allocated
  refine ⟨{ s' with isLruTailRemove := false }, ?_, hseg.setFlag false⟩
  rw [hrun]
  rfl

/-! ## `put` -/

theorem Segmented.insert (h : Segmented s flag capacity n (a.room capacity (capacity.tdiv 2)))
    (hfits : Segments.Fits capacity a) (h₁ : 1 ≤ n) (v : V) (hnone : s.lookup k = none) :
    Segmented (s.insert k v) flag capacity n ((a.room capacity (capacity.tdiv 2)).insert k v) := by
  have hroom := hfits.room_size (capacity.tdiv 2)
  obtain ⟨chains, l₁, l₂, ht, hc, hl₁, hl₂⟩ := h.layout
  have hplace : Room s l₁ l₂ := by
    rw [Segments.size, ← hl₁.length, ← hl₂.length] at hroom
    rw [Room, h.capacity_eq]
    omega
  obtain ⟨chains', ht', hc'⟩ := hc.insert ht h₁ v hnone hplace
  have hold {x : Ref} (hx : x ∈ l₁ ∨ x ∈ l₂) : (s.insert k v).entry x = s.entry x := by
    have hne : x ≠ s.allocated := Nat.ne_of_lt (hc.lists.keyed x hx).1
    unfold entry
    show (update s.key s.allocated (some k) x).bind (fun k' =>
      (update s.value s.allocated (some v) x).map fun v' => (k', v')) = _
    rw [Function.update_of_ne hne, Function.update_of_ne hne]
  have hnew : (s.insert k v).entry s.allocated = some (k, v) := by
    rw [entry_eq_some]
    exact ⟨Function.update_self .., Function.update_self ..⟩
  exact ⟨⟨chains', _, _, ht', hc', (hl₁.congr fun x hx => hold (.inl hx)).cons hnew,
    hl₂.congr fun x hx => hold (.inr hx)⟩, h.isLruTailRemove, h.capacity_eq, h.capacity1_eq⟩

theorem Segmented.assign (h : Segmented s flag capacity n a) (ht : Table s chains)
    (hr : Resident chains r) (hk : s.key r = some k) (v : V) :
    Segmented { s with value := update s.value r (some v) } flag capacity n (a.store k v) := by
  obtain ⟨chains', l₁, l₂, ht', hc, h₁, h₂⟩ := h.layout
  have hres : Resident chains' r := (ht.resident_iff ht' r).1 hr
  have hkey : ∀ x, Resident chains' x → (s.key x = some k ↔ x = r) := ht'.key_iff hres hk
  have hl : Lru { s with value := update s.value r (some v) } (Resident chains') l₁ l₂ :=
    hc.lists.congr rfl rfl rfl rfl rfl rfl rfl rfl rfl rfl rfl rfl
  refine ⟨⟨chains', l₁, l₂, ht'.assign r v, hc.congr hl rfl, ?_, ?_⟩, h.isLruTailRemove, h.capacity_eq,
    h.capacity1_eq⟩
  · have hmem {x : Ref} (hx : x ∈ l₁) : Resident chains' x := hc.mem_iff.1 (List.mem_append_left _ hx)
    exact h₁.assign (fun x hx => hkey x (hmem hx)) (fun x hx => ht'.entry_ne_none (hmem hx)) v
  · have hmem {x : Ref} (hx : x ∈ l₂) : Resident chains' x := hc.mem_iff.1 (List.mem_append_right _ hx)
    exact h₂.assign (fun x hx => hkey x (hmem hx)) (fun x hx => ht'.entry_ne_none (hmem hx)) v

/-- **`put`** makes room, and puts in an entry or uses one again. -/
theorem put_segmented [DecidableEq V] (h : Segmented s false capacity n a) (h₁ : 1 ≤ n) (hn : n < 2 ^ 31)
    (hk : ∀ s₁, s.removeLru = some s₁ → ¬ s₁.HitsAt k n) (v : V) :
    ∃ s' o a', s.put k v = some (s', o) ∧
      Segments.Step capacity (capacity.tdiv 2) a (.put k v, o) a' ∧ Segmented s' false capacity n a' := by
  obtain ⟨s₁, hrun, hroom⟩ := h.removeLru
  obtain ⟨chains, l₁, l₂, ht, hc, -⟩ := hroom.layout
  unfold put compareAndPut
  simp only [hrun, Option.bind_eq_bind, Option.bind_some]
  cases hlookup : s₁.lookup k with
  | none =>
    refine ⟨s₁.insert k v, none, _, ?_, .insert (hroom.find_none.2 hlookup),
      hroom.insert h.fits h₁ v hlookup⟩
    simp [(ht.not_found hlookup).2]
  | some old =>
    obtain ⟨r, hr, hrk, hf⟩ := ht.found hlookup
    have hv : s₁.value r = some old := (ht.lookup_of_mem hr hrk).symm.trans hlookup
    have hp : s₁.entry r = some (k, old) := entry_eq_some.2 ⟨hrk, hv⟩
    obtain ⟨s₂, a', hrun₂, hused, hseg⟩ := hroom.updateLru hn ht ⟨_, hr⟩ hp
      fun hdue hhits => hk s₁ hrun ⟨r, hf, hdue, hhits⟩
    have hs := updateLru_sameTable hrun₂
    have hv₂ : s₂.value r = some old := by rw [hs.value, hv]
    refine ⟨{ s₂ with value := update s₂.value r (some v) }, if v = old then none else some old, _, ?_,
      .put (hroom.find_eq ht ⟨_, hr⟩ hp) hused,
      hseg.assign (ht.congr hs) ⟨_, hr⟩ (by rw [hs.key, hrk]) v⟩
    simp only [hf, hrun₂, hv₂, Option.bind_some, Bool.false_eq_true, false_and, ↓reduceIte,
      Option.some.injEq]

/-! ## `clear` -/

omit [DecidableEq K] in
/-- **`clear`** empties the segments. -/
theorem clear_segmented (h : Segmented s flag capacity n a) :
    ∃ s', s.clear = some s' ∧ Segmented s' flag capacity n .empty := by
  obtain ⟨chains, l₁, l₂, ht, hc, -⟩ := h.layout
  obtain ⟨s', hrun, ht', ⟨hcap, hcap₁, l₁', l₂', hc'⟩, hflag⟩ :=
    ht.clear (P := fun s live => s.capacity = capacity ∧ s.capacity1 = capacity.tdiv 2 ∧
        ∃ l₁ l₂, Counted s live l₁ l₂ n)
      (fun s live r hp hr => by
        obtain ⟨hcap, hcap₁, l₁, l₂, hc⟩ := hp
        exact ⟨(removeLruItem_capacity s r).trans hcap, (removeLruItem_capacity1 s r).trans hcap₁, _, _,
          hc.erase hr⟩)
      (fun s live e hp => by
        obtain ⟨hcap, hcap₁, l₁, l₂, hc⟩ := hp
        exact ⟨hcap, hcap₁, l₁, l₂,
          hc.congr (hc.lists.congr rfl rfl rfl rfl rfl rfl rfl rfl rfl rfl rfl rfl) rfl⟩)
      ⟨h.capacity_eq, h.capacity1_eq, l₁, l₂, hc⟩ (Layout.chains_of_sizes ⟨ht, hc.lists⟩)
  have hempty : l₁' ++ l₂' = [] := by
    refine List.eq_nil_iff_forall_not_mem.2 fun x hx => ?_
    obtain ⟨i, hi⟩ := hc'.mem_iff.1 hx
    cases hi
  obtain ⟨rfl, rfl⟩ := List.append_eq_nil_iff.1 hempty
  exact ⟨s', hrun, ⟨_, _, _, ht', hc', rfl, rfl⟩, hflag.trans h.isLruTailRemove, hcap, hcap₁⟩

omit [DecidableEq K] in
theorem new_segmented (hcap : capacity < 2 ^ 31) {isStatistics : Bool}
    (hnew : new capacity isStatistics = some s) : Segmented s false capacity 0 .empty := by
  obtain ⟨ht, hl⟩ := new_layout hcap hnew
  have hc : Counted s (Resident fun _ => []) [] [] 0 := by
    refine ⟨hl, fun r hr => ?_, fun r hr => by cases hr⟩
    obtain ⟨i, hi⟩ := hr
    cases hi
  obtain ⟨c, -, rfl⟩ := Option.map_eq_some_iff.1 hnew
  exact ⟨⟨_, _, _, ht, hc, rfl, rfl⟩, rfl, rfl, rfl⟩

end

end LruCache

end BaseService.LocalCache
