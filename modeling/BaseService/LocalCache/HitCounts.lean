import BaseService.LocalCache.Keys

/-!
# Hit counts that overflow

The hit count of an item grows with every promotion. An item with `2 ^ 31 - 1` hits gets a negative hit
count with the next one: it looks deleted, and its removal leaves it in its list.

* `Linked` : the lists hold exactly the items of the table, split by positive hit counts;
* `Undeleted` : so they do, and a removal or an eviction takes an item out of its list;
* `Hit` : what a counted hit does to the counters;
* `Spoilt` : an item is in a list that is not to be there, or looks deleted; `Spoilt.not_undeleted`;
* `linked_iff` : the runs of a `TimedCache` in which no hit count overflows;
* `Turn` : three keys are looked up in turn, and all hits are counted; `turn_rounds` : as often as one
  likes.
-/

namespace BaseService.LocalCache
open Function (update)
open Links

namespace LruCache
variable {K V : Type} [DecidableEq K] [HashCode K]

/-! ## Items in their lists -/

/-- `chains` are the hash chains, and `l₁` and `l₂` the LRU lists. -/
structure Linked (s : LruCache K V) (chains : Nat → List Ref) (l₁ l₂ : List Ref) : Prop where
  table : Table s chains
  list₁ : DList (Resident chains) s.nextLru s.prevLru s.head1 s.tail1 l₁
  list₂ : DList (Resident chains) s.nextLru s.prevLru s.head2 s.tail2 l₂
  size₁ : s.size1 = l₁.length
  size₂ : s.size2 = l₂.length
  positive : ∀ r, Resident chains r → 0 < s.hitCount r
  mem₁ : ∀ r, r ∈ l₁ ↔ Resident chains r ∧ s.hitCount r = 1
  mem₂ : ∀ r, r ∈ l₂ ↔ Resident chains r ∧ 1 < s.hitCount r

/-- In `s'` the item `r` of `s` is no more, and its list is shorter. -/
structure Unlinks (s : LruCache K V) (r : Ref) (s' : LruCache K V) : Prop where
  linked : ∃ chains l₁ l₂, Linked s' chains l₁ l₂ ∧ ¬ Resident chains r
  size₁ : s'.size1 = if s.hitCount r = 1 then s.size1 - 1 else s.size1
  size₂ : s'.size2 = if s.hitCount r = 1 then s.size2 else s.size2 - 1

structure Undeleted (s : LruCache K V) : Prop where
  linked : ∃ chains l₁ l₂, Linked s chains l₁ l₂
  removes : ∀ k r, s.findItem k s.allocated (s.entries (s.bucket k)) = some (some r) →
    ∃ s', s.remove k = some (s', s.value r) ∧ Unlinks s r s'
  evicts : s.size1 + s.size2 = 0 ∧ s.removeTail = some (s, false) ∨
    ∃ s' r, s.removeTail = some (s', true) ∧ Unlinks s r s'

section
variable {s s' : LruCache K V} {chains chains' : Nat → List Ref} {l₁ l₂ : List Ref} {k : K} {n : Nat}
  {capacity : Int} {r : Ref}

omit [DecidableEq K] in
theorem Counted.linked (ht : Table s chains) (hc : Counted s (Resident chains) l₁ l₂ n) :
    Linked s chains l₁ l₂ := by
  have hpos (r : Ref) (hr : Resident chains r) : 1 ≤ s.hitCount r := (hc.hits r hr).1
  refine ⟨ht, hc.lists.list₁, hc.lists.list₂, hc.lists.size₁, hc.lists.size₂, hpos, fun r => ?_,
    fun r => ?_⟩
  · exact ⟨hc.lists.once r, fun hr => hc.lists.mem₁ hr.1 hr.2⟩
  · constructor
    · intro hr
      have hres := hc.listed r hr
      have hne := hc.lists.twice r hr hres
      have hle := hpos r hres
      exact ⟨hres, by omega⟩
    · rintro ⟨hres, hlt⟩
      exact hc.lists.mem₂ hres (by omega)

theorem length_without {l l' : List Ref} (hl : l.Nodup) (hl' : l'.Nodup)
    (h : ∀ x, x ∈ l' ↔ x ≠ r ∧ x ∈ l) :
    (l'.length : Int) = if r ∈ l then (l.length : Int) - 1 else l.length := by
  have hperm : l'.Perm (l.erase r) := by
    rw [List.perm_ext_iff_of_nodup hl' (hl.erase r)]
    intro x
    rw [h, hl.mem_erase_iff]
  have hlen := hperm.length_eq
  split
  · next hr =>
    have hpos := List.length_pos_of_mem hr
    rw [List.length_erase_of_mem hr] at hlen
    omega
  · next hr =>
    rw [List.erase_of_not_mem hr] at hlen
    omega

omit [DecidableEq K] in
/-- Without one item, its list is shorter. -/
theorem Linked.unlinks {l₁' l₂' : List Ref} (h : Linked s chains l₁ l₂) (hr : Resident chains r)
    (h' : Linked s' chains' l₁' l₂') (hres : ∀ x, Resident chains x ∧ x ≠ r ↔ Resident chains' x)
    (hhits : s'.hitCount = update s.hitCount r (-1)) : Unlinks s r s' := by
  have hold {x : Ref} (hx : x ≠ r) : s'.hitCount x = s.hitCount x := by
    rw [hhits, Function.update_of_ne hx]
  have hmem₁ (x : Ref) : x ∈ l₁' ↔ x ≠ r ∧ x ∈ l₁ := by
    rw [h'.mem₁, h.mem₁, ← hres]
    by_cases hx : x = r
    · simp [hx]
    · simp [hx, hold hx]
  have hmem₂ (x : Ref) : x ∈ l₂' ↔ x ≠ r ∧ x ∈ l₂ := by
    rw [h'.mem₂, h.mem₂, ← hres]
    by_cases hx : x = r
    · simp [hx]
    · simp [hx, hold hx]
  -- the hit count says which list `r` was in
  have hone : r ∈ l₁ ↔ s.hitCount r = 1 := by
    rw [h.mem₁]
    exact and_iff_right hr
  have hmore : r ∈ l₂ ↔ ¬ s.hitCount r = 1 := by
    have hpos := h.positive r hr
    rw [h.mem₂, and_iff_right hr]
    omega
  refine ⟨⟨chains', l₁', l₂', h', fun hr' => ((hres r).2 hr').2 rfl⟩, ?_, ?_⟩
  · rw [h'.size₁, h.size₁, length_without h.list₁.nodup h'.list₁.nodup hmem₁]
    simp only [hone]
  · rw [h'.size₂, h.size₂, length_without h.list₂.nodup h'.list₂.nodup hmem₂]
    simp only [hmore, ite_not]

/-- While no hit count has overflowed, a removal unlinks the item. -/
theorem Counted.unlinks (ht : Table s chains) (hc : Counted s (Resident chains) l₁ l₂ n)
    (hr : r ∈ chains (s.bucket k)) (hk : s.key r = some k) :
    ∃ s', s.remove k = some (s', s.lookup k) ∧ Unlinks s r s' := by
  obtain ⟨prevItem, chains', hrun, ht', hres⟩ := Layout.remove_found ⟨ht, hc.lists⟩ hr hk
  obtain ⟨l₁', l₂', hc', -⟩ := hc.removeLruItem (r := r) ⟨_, hr⟩
  obtain ⟨hhits, -, -⟩ := unchain_lists (s.removeLruItem r) (s.bucket k) prevItem r
  have hcounted := (hc'.congr (hc'.lists.unchain (s.bucket k) prevItem r) hhits).live_congr hres
  refine ⟨_, hrun, (hc.linked ht).unlinks ⟨_, hr⟩ (hcounted.linked ht') hres ?_⟩
  rw [hhits, removeLruItem_hits]

theorem Exact.undeleted (h : Exact s capacity n) : Undeleted s := by
  obtain ⟨chains, l₁, l₂, ht, hc⟩ := h.layout
  refine ⟨⟨chains, l₁, l₂, hc.linked ht⟩, fun k r hf => ?_, ?_⟩
  · rw [ht.findItem_eq, Option.some.injEq] at hf
    have hr := List.mem_of_find?_eq_some hf
    have hk : s.key r = some k := by simpa using List.find?_some hf
    rw [← ht.lookup_of_mem hr hk]
    exact hc.unlinks ht hr hk
  · rcases hc.removeTail_cases ht with ⟨hzero, htail⟩ | ⟨r, k, hr, hk, htail⟩
    · refine .inl ⟨?_, htail⟩
      rw [hc.lists.size₁, hc.lists.size₂]
      omega
    · obtain ⟨s', hrun, hunlinks⟩ := hc.unlinks ht hr hk
      refine .inr ⟨s', r, ?_, hunlinks⟩
      rw [htail, hrun]
      rfl

/-! ## A hit that is counted -/

omit [DecidableEq K] [HashCode K] in
theorem moveToHead_stamps (h : s.moveToHead r = some s') :
    s'.lruCounter = s.lruCounter ∧ s'.itemLruCounter = s.itemLruCounter ∧
      s'.lruTimeout = s.lruTimeout ∧ s'.hitCount = s.hitCount := by
  unfold moveToHead at h
  dsimp only at h
  split at h
  · cases h
    exact ⟨rfl, rfl, rfl, rfl⟩
  · split at h
    · cases h
      exact ⟨rfl, rfl, rfl, rfl⟩
    · cases h

/-- What a counted hit of `r` does to the counters. -/
structure Hit (s : LruCache K V) (r : Ref) (s' : LruCache K V) : Prop where
  lruCounter : s'.lruCounter = mask (s.lruCounter + 1)
  itemLruCounter : s'.itemLruCounter = update s.itemLruCounter r (mask (s.lruCounter + 1))
  lruTimeout : s'.lruTimeout = s.lruTimeout
  hitCount : s'.hitCount = update s.hitCount r (wrapInt (s.hitCount r + 1))

omit [DecidableEq K] [HashCode K] in
theorem hit_of_due (hdue : Due s r) (hpos : 0 < s.hitCount r) (h : s.updateLru r = some s') :
    Hit s r s' := by
  unfold LruCache.updateLru at h
  dsimp only at h
  rw [if_pos (.inl hdue)] at h
  unfold updateLruImpl at h
  dsimp only at h
  have hle : ¬ (s.stamp r).hitCount r ≤ 0 := not_le.mpr hpos
  rw [if_neg hle] at h
  split at h
  · cases h
    exact ⟨rfl, rfl, rfl, rfl⟩
  · obtain ⟨hcounter, hitem, htimeout, hhits⟩ := moveToHead_stamps h
    exact ⟨hcounter, hitem, htimeout, hhits⟩

omit [DecidableEq K] [HashCode K] in
theorem Hit.countHit (h : Hit s r s') : Hit s r s'.countHit := by
  unfold LruCache.countHit
  split
  · exact ⟨h.lruCounter, h.itemLruCounter, h.lruTimeout, h.hitCount⟩
  · exact h

/-- A lookup that counts a hit. -/
theorem Layout.get_hit (h : Layout s chains l₁ l₂)
    (hf : s.findItem k s.allocated (s.entries (s.bucket k)) = some (some r)) (hdue : Due s r)
    (hpos : 0 < s.hitCount r) :
    ∃ s' l₁' l₂', s.get k = some (s', s.lookup k) ∧ Layout s' chains l₁' l₂' ∧ SameTable s s' ∧
      Hit s r s' := by
  obtain ⟨s', l₁', l₂', hrun, hlayout, hsame⟩ := h.get k
  refine ⟨s', l₁', l₂', hrun, hlayout, hsame, ?_⟩
  simp only [LruCache.get, hf, Option.bind_eq_bind, Option.bind_some] at hrun
  obtain ⟨s₁, hupdate, hs'⟩ := Option.bind_eq_some_iff.mp hrun
  rw [Option.some.injEq, Prod.mk.injEq] at hs'
  rw [← hs'.1]
  exact (hit_of_due hdue hpos hupdate).countHit

/-! ## An item that looks deleted -/

/-- There is an item in a list that is not in the table, or has a hit count that is not positive. -/
def Spoilt (s : LruCache K V) : Prop :=
  ∃ chains l₁ l₂, Layout s chains l₁ l₂ ∧
    ∃ r ∈ l₁ ++ l₂, Resident chains r → s.hitCount r ≤ 0

omit [DecidableEq K] in
theorem Linked.nodup (h : Linked s chains l₁ l₂) : (l₁ ++ l₂).Nodup := by
  apply List.nodup_append.mpr
  refine ⟨h.list₁.nodup, h.list₂.nodup, fun x hx y hy heq => ?_⟩
  subst heq
  have hone := ((h.mem₁ x).1 hx).2
  have hlt := ((h.mem₂ x).1 hy).2
  omega

/-- A list that misses one of another is shorter. -/
theorem length_lt_of_misses {l l' : List Ref} (hl' : l'.Nodup) (hsub : ∀ x ∈ l', x ≠ r ∧ x ∈ l)
    (hr : r ∈ l) : l'.length < l.length := by
  have hsub' : l' ⊆ l.erase r := fun x hx => (List.mem_erase_of_ne (hsub x hx).1).mpr (hsub x hx).2
  have hlen := (hl'.subperm hsub').length_le
  have hpos := List.length_pos_of_mem hr
  rw [List.length_erase_of_mem hr] at hlen
  omega

omit [DecidableEq K] in
/-- The lists are as long as those that hold the items of the table, so there is no room for others. -/
theorem Spoilt.not_linked (h : Spoilt s) : ¬ Linked s chains' l₁ l₂ := by
  intro h'
  obtain ⟨chains, m₁, m₂, hl, r, hr, hbad⟩ := h
  have hnot : ¬ Resident chains r := fun hres => by
    have hpos := h'.positive r ((hl.table.resident_iff h'.table r).1 hres)
    have hle := hbad hres
    omega
  have hsub (x : Ref) (hx : x ∈ l₁ ++ l₂) : x ≠ r ∧ x ∈ m₁ ++ m₂ := by
    have hres : Resident chains x := by
      rw [hl.table.resident_iff h'.table]
      rcases List.mem_append.mp hx with hx | hx
      · exact ((h'.mem₁ x).1 hx).1
      · exact ((h'.mem₂ x).1 hx).1
    refine ⟨?_, List.mem_append.mpr (hl.lists.cover x hres)⟩
    rintro rfl
    exact hnot hres
  have hlt := length_lt_of_misses h'.nodup hsub hr
  rw [List.length_append, List.length_append] at hlt
  have hsize₁ := hl.lists.size₁
  have hsize₂ := hl.lists.size₂
  rw [h'.size₁] at hsize₁
  rw [h'.size₂] at hsize₂
  omega

theorem Spoilt.not_undeleted (h : Spoilt s) : ¬ Undeleted s := by
  intro hundeleted
  obtain ⟨chains, l₁, l₂, hlinked⟩ := hundeleted.linked
  exact h.not_linked hlinked

omit [DecidableEq K] in
theorem spoilt_of_hit (h : Layout s' chains l₁ l₂) (hr : Resident chains r) (hhit : Hit s r s')
    (hmax : s.hitCount r = 2 ^ 31 - 1) : Spoilt s' := by
  refine ⟨chains, l₁, l₂, h, r, List.mem_append.mpr (h.lists.cover r hr), fun _ => ?_⟩
  rw [hhit.hitCount, Function.update_self, hmax]
  decide

/-- The next hit of an item that has had as many as an `int` can hold. -/
theorem Layout.get_spoilt (h : Layout s chains l₁ l₂) (hk : s.HitsAt k (2 ^ 31 - 1)) :
    ∃ s', s.get k = some (s', s.lookup k) ∧ Spoilt s' := by
  obtain ⟨r, hf, hdue, hmax⟩ := hk
  obtain ⟨s', l₁', l₂', hrun, hlayout, -, hhit⟩ := h.get_hit hf hdue (by rw [hmax]; decide)
  exact ⟨s', hrun, spoilt_of_hit hlayout (h.table.resident_of_findItem hf) hhit hmax⟩

theorem Exact.get_spoilt (h : Exact s capacity n) (hk : s.HitsAt k (2 ^ 31 - 1)) :
    ∃ s', s.get k = some (s', s.lookup k) ∧ Spoilt s' := by
  obtain ⟨chains, l₁, l₂, ht, hc⟩ := h.layout
  exact Layout.get_spoilt ⟨ht, hc.lists⟩ hk

theorem Exact.put_spoilt [DecidableEq V] (h : Exact s capacity n) {s₁ : LruCache K V}
    (hs₁ : s.removeLru = some s₁) (hk : s₁.HitsAt k (2 ^ 31 - 1)) (v : V) :
    ∃ s' o, s.put k v = some (s', o) ∧ Spoilt s' := by
  obtain ⟨s₀, chains, l₁, l₂, hrun, ht, hc, -⟩ := h.removeLru
  rw [hrun, Option.some.injEq] at hs₁
  subst hs₁
  obtain ⟨r, hf, hdue, hmax⟩ := hk
  have hr := ht.resident_of_findItem hf
  obtain ⟨s₂, l₁', l₂', hrun₂, hl, -⟩ := hc.lists.updateLru hr
  have hhit := hit_of_due hdue (by rw [hmax]; decide) hrun₂
  let s' : LruCache K V := { s₂ with value := update s₂.value r (some v) }
  have hlayout : Layout s' chains l₁' l₂' := by
    refine ⟨(ht.congr (updateLru_sameTable hrun₂)).assign r v, ?_⟩
    exact hl.congr rfl rfl rfl rfl rfl rfl rfl rfl rfl rfl rfl rfl
  have hhit' : Hit s₀ r s' := ⟨hhit.lruCounter, hhit.itemLruCounter, hhit.lruTimeout, hhit.hitCount⟩
  refine ⟨s', if some v = s₂.value r then none else s₂.value r, ?_, spoilt_of_hit hlayout hr hhit' hmax⟩
  unfold put compareAndPut
  simp only [hrun, hf, hrun₂, Option.bind_eq_bind, Option.bind_some, Bool.false_eq_true, false_and,
    ↓reduceIte]
  rfl

omit [DecidableEq K] [HashCode K] in
theorem removeLruItem_of_nonpos (h : s.hitCount r ≤ 0) :
    (s.removeLruItem r).size1 = s.size1 ∧ (s.removeLruItem r).size2 = s.size2 := by
  unfold LruCache.removeLruItem
  dsimp only
  rw [if_pos h]
  exact ⟨rfl, rfl⟩

/-- A removal does not help. -/
theorem Spoilt.remove (h : Spoilt s) {o : Option V} (hrun : s.remove k = some (s', o)) : Spoilt s' := by
  obtain ⟨chains, l₁, l₂, hl, x, hx, hbad⟩ := h
  by_cases hfound : ∃ r ∈ chains (s.bucket k), s.key r = some k
  swap
  · push Not at hfound
    rw [hl.remove_none hfound] at hrun
    cases hrun
    exact ⟨chains, l₁, l₂, hl, x, hx, hbad⟩
  obtain ⟨r, hr, hk⟩ := hfound
  have hres : Resident chains r := ⟨_, hr⟩
  obtain ⟨prevItem, chains', hrun', ht', hiff⟩ := hl.remove_found hr hk
  obtain ⟨l₁', l₂', hl', hperm⟩ := hl.lists.removeLruItem hres
  obtain ⟨hhits, -, -⟩ := unchain_lists (s.removeLruItem r) (s.bucket k) prevItem r
  rw [hrun', Option.some.injEq, Prod.mk.injEq] at hrun
  obtain ⟨rfl, -⟩ := hrun
  have hlists := (hl'.unchain (s.bucket k) prevItem r).live_congr hiff
  have hlayout : Layout _ chains' l₁' l₂' := ⟨ht', hlists⟩
  refine ⟨chains', l₁', l₂', hlayout, ?_⟩
  by_cases hpos : 0 < s.hitCount r
  · have hxr : x ≠ r := by
      rintro rfl
      have hle := hbad hres
      omega
    refine ⟨x, ?_, fun hx' => ?_⟩
    · have hmem := (hperm hpos).mem_iff.mpr hx
      exact (List.mem_cons.mp hmem).resolve_left hxr
    · rw [hhits, removeLruItem_hits, Function.update_of_ne hxr]
      exact hbad ((hiff x).2 hx').1
  · -- `r` stays, so that the lists are longer than the table
    by_contra hnone
    push Not at hnone
    have hsub (y : Ref) (hy : y ∈ l₁' ++ l₂') : y ≠ r ∧ y ∈ l₁ ++ l₂ := by
      obtain ⟨hyres, hyr⟩ := (hiff y).2 (hnone y hy).1
      exact ⟨hyr, List.mem_append.mpr (hl.lists.cover y hyres)⟩
    have hlt := length_lt_of_misses hlists.nodup hsub (List.mem_append.mpr (hl.lists.cover r hres))
    rw [List.length_append, List.length_append] at hlt
    obtain ⟨hsize₁, hsize₂⟩ := removeLruItem_of_nonpos (not_lt.mp hpos)
    have hlen₁ := hl'.size₁
    have hlen₂ := hl'.size₂
    rw [hsize₁, hl.lists.size₁] at hlen₁
    rw [hsize₂, hl.lists.size₂] at hlen₂
    omega

/-! ## Three keys that are looked up in turn -/

/-- `k` has the item `r` with `n` hits; the counter has gone on by `age` since the last one. -/
def Stands (s : LruCache K V) (k : K) (r : Ref) (age : Int) (n : Nat) : Prop :=
  s.findItem k s.allocated (s.entries (s.bucket k)) = some (some r) ∧
    mask (s.lruCounter - s.itemLruCounter r) = age ∧ s.hitCount r = n

instance (s : LruCache K V) (k : K) (r : Ref) (age : Int) (n : Nat) : Decidable (Stands s k r age n) :=
  inferInstanceAs (Decidable (_ ∧ _ ∧ _))

/-- It is the turn of `k₀`. -/
structure Turn (s : LruCache K V) (k₀ k₁ k₂ : K) (n₀ n₁ n₂ : Nat) : Prop where
  layout : ∃ chains l₁ l₂, Layout s chains l₁ l₂
  lruTimeout : s.lruTimeout = 1
  first : ∃ r, Stands s k₀ r 2 n₀
  second : ∃ r, Stands s k₁ r 1 n₁
  third : ∃ r, Stands s k₂ r 0 n₂

theorem Stands.due {r : Ref} (h : Stands s k r 2 n) (htimeout : s.lruTimeout = 1) : Due s r := by
  unfold Due
  rw [h.2.1, htimeout]
  decide

theorem Hit.stands (hhit : Hit s r s') (hsame : SameTable s s') {age : Int} {k' : K} {m : Nat}
    (h : ∃ x, Stands s k' x age m) (hr : mask (s.lruCounter - s.itemLruCounter r) = 2)
    (hne : age ≠ 2) (hlt : age + 1 < 0x40000000) : ∃ x, Stands s' k' x (age + 1) m := by
  obtain ⟨x, hf, hage, hhits⟩ := h
  have hxr : x ≠ r := by
    rintro rfl
    exact hne (hage.symm.trans hr)
  refine ⟨x, (findItem_congr hsame k').trans hf, ?_, ?_⟩
  · rw [hhit.lruCounter, hhit.itemLruCounter, Function.update_of_ne hxr]
    unfold mask at hage ⊢
    omega
  · rw [hhit.hitCount, Function.update_of_ne hxr]
    exact hhits

/-- The key is hit, and then it is the turn of the next one. -/
theorem Turn.get {k₀ k₁ k₂ : K} {n₀ n₁ n₂ : Nat} (h : Turn s k₀ k₁ k₂ n₀ n₁ n₂) (hpos : 0 < n₀)
    (hlt : n₀ + 1 < 2 ^ 31) :
    ∃ s', s.get k₀ = some (s', s.lookup k₀) ∧ Turn s' k₁ k₂ k₀ n₁ n₂ (n₀ + 1) := by
  obtain ⟨chains, l₁, l₂, hl⟩ := h.layout
  obtain ⟨r, hr⟩ := h.first
  have hdue := hr.due h.lruTimeout
  obtain ⟨hf, hage, hhits⟩ := hr
  obtain ⟨s', l₁', l₂', hrun, hl', hsame, hhit⟩ := hl.get_hit hf hdue (by omega)
  refine ⟨s', hrun, ⟨chains, l₁', l₂', hl'⟩, hhit.lruTimeout.trans h.lruTimeout, ?_, ?_, ?_⟩
  · exact hhit.stands hsame h.second hage (by decide) (by decide)
  · exact hhit.stands hsame h.third hage (by decide) (by decide)
  · refine ⟨r, (findItem_congr hsame k₀).trans hf, ?_, ?_⟩
    · rw [hhit.lruCounter, hhit.itemLruCounter, Function.update_self]
      unfold mask
      omega
    · rw [hhit.hitCount, Function.update_self, hhits, wrapInt_of_range (by omega) (by omega)]
      omega

theorem Turn.hitsAt {k₀ k₁ k₂ : K} {n₀ n₁ n₂ : Nat} (h : Turn s k₀ k₁ k₂ n₀ n₁ n₂) :
    s.HitsAt k₀ n₀ := by
  obtain ⟨r, hr⟩ := h.first
  exact ⟨r, hr.1, hr.due h.lruTimeout, hr.2.2⟩

end

end LruCache

namespace TimedCache
variable {K V : Type} [DecidableEq K] [HashCode K]

/-! ## Calls -/

/-- A call, with its answer. -/
def Steps (t : TimedCache K V) (l : Call K V × Answer V) (t' : TimedCache K V) : Prop :=
  Calls t l.1 l.2 t'

structure Undeleted (t : TimedCache K V) : Prop where
  cache : t.cache.Undeleted
  groupCache : ∀ c, t.groupCache = some c → c.Undeleted

def Spoilt (t : TimedCache K V) : Prop :=
  t.cache.Spoilt ∨ ∃ c, t.groupCache = some c ∧ c.Spoilt

section
variable {t t' : TimedCache K V} {capacity : Int} {n : Nat} {k : K} {name : String}

theorem Counts.undeleted (h : t.Counts capacity n) : t.Undeleted :=
  ⟨h.cache.undeleted, fun c hc => (h.groupCache c hc).undeleted⟩

theorem Spoilt.not_undeleted (h : t.Spoilt) : ¬ t.Undeleted := by
  intro hundeleted
  rcases h with hcache | ⟨c, hc, hgroup⟩
  · exact hcache.not_undeleted hundeleted.cache
  · exact hgroup.not_undeleted (hundeleted.groupCache c hc)

theorem Spoilt.drop {o : Outcome (Option V)} (h : t.Spoilt) (hrun : t.drop k = some (t', o)) :
    t'.Spoilt := by
  unfold TimedCache.drop at hrun
  obtain ⟨⟨c, v⟩, hremove, hrun⟩ := Option.bind_eq_some_iff.mp hrun
  cases hrun
  exact h.imp_left fun hcache => hcache.remove hremove

omit [DecidableEq K] [HashCode K] in
theorem getGroup_cache {now : Int64} {o : Outcome CacheGroup}
    (hrun : t.getGroup name now = some (t', o)) : t'.cache = t.cache := by
  unfold getGroup at hrun
  split at hrun
  · cases hrun
    rfl
  · obtain ⟨⟨c, g⟩, -, hrun⟩ := Option.bind_eq_some_iff.mp hrun
    dsimp only at hrun
    split at hrun
    · cases hrun
      rfl
    · obtain ⟨⟨c', g'⟩, -, hrun⟩ := Option.bind_eq_some_iff.mp hrun
      cases hrun
      rfl

omit [DecidableEq K] [HashCode K] in
theorem getGroup_spoilt {now : Int64} {o : Outcome CacheGroup} {c : LruCache String CacheGroup}
    (hg : t.groupCache = some c) (hc : c.Exact capacity n) (hhits : c.HitsAt name (2 ^ 31 - 1))
    (hrun : t.getGroup name now = some (t', o)) : ∃ c', t'.groupCache = some c' ∧ c'.Spoilt := by
  obtain ⟨c', hget, hspoilt⟩ := hc.get_spoilt hhits
  have hfound : c.lookup name ≠ none := fun hnone => by
    obtain ⟨chains, l₁, l₂, ht, -⟩ := hc.layout
    exact ht.not_hitsAt hnone hhits
  obtain ⟨g, hlookup⟩ := Option.ne_none_iff_exists'.mp hfound
  unfold getGroup at hrun
  simp only [hg, hget, hlookup, Option.bind_eq_bind, Option.bind_some] at hrun
  cases hrun
  exact ⟨c', rfl, hspoilt⟩

/-- `get` looks up the key, and then its group, and may drop the entry. -/
theorem get_cases {groupNow now : Int64} {o : Outcome (Option V)}
    (hrun : t.get k groupNow now = some (t', o)) {c : LruCache K Ref}
    (hget : t.cache.get k = some (c, t.cache.lookup k)) :
    ∃ t₁ : TimedCache K V,
      (match (t.cache.lookup k).bind fun r => (t.entry r).group with
        | none => t₁ = { t with cache := c }
        | some g => ∃ o', getGroup { t with cache := c } g.group groupNow = some (t₁, o')) ∧
      (t' = t₁ ∨ ∃ o', t₁.drop k = some (t', o')) := by
  have hverdict {t₁ : TimedCache K V} {p : Prop} [Decidable p] {v : Option V}
      (h : (if p then some (t₁, .ok v) else t₁.drop k) = some (t', o)) :
      t' = t₁ ∨ ∃ o', t₁.drop k = some (t', o') := by
    split at h
    · cases h
      exact .inl rfl
    · exact .inr ⟨o, h⟩
  unfold TimedCache.get at hrun
  simp only [hget, Option.bind_eq_bind, Option.bind_some] at hrun
  cases hr : t.cache.lookup k with
  | none =>
    rw [hr] at hrun
    cases hrun
    exact ⟨_, rfl, .inl rfl⟩
  | some r =>
    rw [hr] at hrun
    dsimp only at hrun
    rw [Option.bind_some]
    cases hg : (t.entry r).group with
    | none =>
      rw [hg] at hrun
      exact ⟨_, rfl, hverdict hrun⟩
    | some g =>
      rw [hg] at hrun
      obtain ⟨⟨t₁, o'⟩, hgroup, hrun⟩ := Option.bind_eq_some_iff.mp hrun
      refine ⟨t₁, ⟨o', hgroup⟩, ?_⟩
      cases o' with
      | error e =>
        cases hrun
        exact .inl rfl
      | ok g' => exact hverdict hrun

theorem get_spoilt {groupNow now : Int64} {o : Outcome (Option V)} (h : t.Counts capacity n)
    (hhits : t.HitsAt (.get k groupNow now) (2 ^ 31 - 1))
    (hrun : t.get k groupNow now = some (t', o)) : t'.Spoilt := by
  have hdone {t₁ : TimedCache K V} (ht₁ : t₁.Spoilt)
      (hend : t' = t₁ ∨ ∃ o', t₁.drop k = some (t', o')) : t'.Spoilt := by
    rcases hend with rfl | ⟨o', hdrop⟩
    · exact ht₁
    · exact ht₁.drop hdrop
  rcases hhits with hhits | ⟨r, g, c', hr, hg, hc', hhits⟩
  · obtain ⟨c, hget, hspoilt⟩ := h.cache.get_spoilt hhits
    obtain ⟨t₁, hgroup, hend⟩ := get_cases hrun hget
    refine hdone (.inl ?_) hend
    split at hgroup
    · rwa [hgroup]
    · obtain ⟨o', hgroup⟩ := hgroup
      rwa [getGroup_cache hgroup]
  · obtain ⟨chains, l₁, l₂, ht, hc⟩ := h.cache.layout
    obtain ⟨c, -, -, hget, -⟩ := LruCache.Layout.get ⟨ht, hc.lists⟩ k
    obtain ⟨t₁, hgroup, hend⟩ := get_cases hrun hget
    rw [hr, Option.bind_some, hg] at hgroup
    obtain ⟨o', hgroup⟩ := hgroup
    refine hdone (.inr ?_) hend
    exact getGroup_spoilt (t := { t with cache := c }) hc' (h.groupCache c' hc') hhits hgroup

/-- **A call that hits an item once too often.** -/
theorem call_spoilt {c : Call K V} {a : Answer V} (h : t.Counts capacity n)
    (hhits : t.HitsAt c (2 ^ 31 - 1)) (hrun : t.call c = some (t', a)) : t'.Spoilt := by
  cases c with
  | put k v g now =>
    obtain ⟨c, hc, hhits⟩ := hhits
    obtain ⟨c', o, hput, hspoilt⟩ := h.cache.put_spoilt hc hhits t.allocated
    simp only [call, put, hput, Option.bind_eq_bind, Option.bind_some, Option.map_some] at hrun
    cases hrun
    exact .inl hspoilt
  | getGroup name now =>
    obtain ⟨c, hc, hhits⟩ := hhits
    obtain ⟨⟨t₁, o⟩, hgroup, hrun⟩ := Option.map_eq_some_iff.mp hrun
    cases hrun
    exact .inr (getGroup_spoilt hc (h.groupCache c hc) hhits hgroup)
  | refrushGroup name now =>
    obtain ⟨c, c', hc, hc', hhits⟩ := hhits
    obtain ⟨c₂, o, hput, hspoilt⟩ := (h.groupCache c hc).put_spoilt hc' hhits ⟨name, now⟩
    simp only [call, refrushGroup, hc, hput, Option.bind_eq_bind, Option.bind_some,
      Option.map_some] at hrun
    cases hrun
    exact .inr ⟨c₂, rfl, hspoilt⟩
  | get k groupNow now =>
    obtain ⟨⟨t₁, o⟩, hget, hrun⟩ := Option.map_eq_some_iff.mp hrun
    cases hrun
    exact get_spoilt h hhits hget
  | expireInterval k d now =>
    obtain ⟨c, hget, hspoilt⟩ := h.cache.get_spoilt hhits
    simp only [call, expireIntervalOf, hget, Option.bind_eq_bind, Option.bind_some] at hrun
    cases hr : t.cache.lookup k <;> rw [hr] at hrun <;> cases hrun <;> exact .inl hspoilt
  | getRemains k d now =>
    obtain ⟨c, hget, hspoilt⟩ := h.cache.get_spoilt hhits
    simp only [call, getRemains, hget, Option.bind_eq_bind, Option.bind_some] at hrun
    cases hr : t.cache.lookup k <;> rw [hr] at hrun <;> cases hrun <;> exact .inl hspoilt
  | remove k => exact hhits.elim
  | removeAll => exact hhits.elim

/-! ## Runs -/

theorem Counts.undeleted_iff_hitsAt {c : Call K V} {a : Answer V} (h : t.Counts capacity (2 ^ 31 - 1))
    (hrun : t.call c = some (t', a)) : t'.Undeleted ↔ ¬ t.HitsAt c (2 ^ 31 - 1) := by
  constructor
  · exact fun hundeleted hhits => (call_spoilt h hhits hrun).not_undeleted hundeleted
  · intro hhits
    obtain ⟨t₁, a₁, hrun₁, h₁⟩ := call_counts_of h (by decide) (by decide) hhits
    cases hrun₁.symm.trans hrun
    exact h₁.undeleted

/-- **The runs in which no item looks deleted**: no item is hit, unless recently used, that has had as
many hits as an `int` can hold. -/
theorem linked_iff {expireInterval : Int64} {isGroup : Bool} {t₀ : TimedCache K V}
    {ls : List (Call K V × Answer V)} (hcap : capacity < 2 ^ 31)
    (hnew : new capacity expireInterval isGroup = some t₀) :
    t₀.Undeleted ∧ (Run (fun t l t' => Steps t l t' ∧ t'.Undeleted) t₀ ls t ↔
      Run (fun t l t' => Steps t l t' ∧ ¬ t.HitsAt l.1 (2 ^ 31 - 1)) t₀ ls t) := by
  have h₀ := (new_counts hcap hnew).mono (Nat.zero_le (2 ^ 31 - 1))
  refine ⟨h₀.undeleted, Run.congr (I := fun t => t.Counts capacity (2 ^ 31 - 1)) h₀ ?_ ?_⟩
  · exact fun t l t' h => and_congr_right fun hrun => h.undeleted_iff_hitsAt hrun
  · rintro t l t' h ⟨hrun, hundeleted⟩
    obtain ⟨t₁, a₁, hrun₁, h₁⟩ := call_counts_of h (by decide) (by decide)
      ((h.undeleted_iff_hitsAt hrun).1 hundeleted)
    cases hrun₁.symm.trans hrun
    exact h₁

/-- A new cache with one key. -/
theorem linked_iff_put : ∃ (t₀ t : TimedCache String Nat) (a : Answer Nat), new 16 1 true = some t₀ ∧
    t₀.Undeleted ∧
    Run (fun t l t' => Steps t l t' ∧ t'.Undeleted) t₀ [(.put "a" (some 1) (some ⟨"g", 0⟩) 0, a)] t := by
  have hcap : (16 : Int) < 2 ^ 31 := by decide
  obtain ⟨t₀, hnew⟩ : ∃ t₀ : TimedCache String Nat, new 16 1 true = some t₀ :=
    Option.isSome_iff_exists.mp (new_isSome (by decide) (by decide) 1 true)
  have h₀ := new_counts hcap hnew
  obtain ⟨t, a, hrun, -⟩ := call_counts h₀ (by decide) (.put "a" (some 1) (some ⟨"g", 0⟩) 0)
  have hguarded : Run (fun t l t' => Steps t l t' ∧ ¬ t.HitsAt l.1 (2 ^ 31 - 1)) t₀
      [(.put "a" (some 1) (some ⟨"g", 0⟩) 0, a)] t := .single ⟨hrun, h₀.not_hitsAt (by decide) _⟩
  exact ⟨t₀, t, a, hnew, (linked_iff hcap hnew).imp_right fun hiff => hiff.2 hguarded⟩

/-! ## A run with an overflow -/

theorem getRemains_run {c : LruCache K Ref} {e : Option Ref} (hget : t.cache.get k = some (c, e))
    (d now : Int64) : ∃ t' a, Calls t (.getRemains k d now) a t' ∧ t'.cache = c := by
  unfold Calls call getRemains
  simp only [hget, Option.bind_eq_bind, Option.bind_some]
  cases e with
  | none => exact ⟨_, _, rfl, rfl⟩
  | some r => exact ⟨_, _, rfl, rfl⟩

variable {k₀ k₁ k₂ : K} {n₀ n₁ n₂ : Nat}

theorem turn_step (h : t.cache.Turn k₀ k₁ k₂ n₀ n₁ n₂) (hpos : 0 < n₀) (hlt : n₀ + 1 < 2 ^ 31) :
    ∃ t' l, Steps t l t' ∧ t'.cache.Turn k₁ k₂ k₀ n₁ n₂ (n₀ + 1) := by
  obtain ⟨c, hget, hturn⟩ := h.get hpos hlt
  obtain ⟨t', a, hrun, hcache⟩ := getRemains_run hget 1 0
  refine ⟨t', (.getRemains k₀ 1 0, a), hrun, ?_⟩
  rwa [hcache]

/-- Each key is looked up once. -/
theorem turn_round (h : t.cache.Turn k₀ k₁ k₂ n n n) (hpos : 0 < n) (hlt : n + 1 < 2 ^ 31) :
    ∃ t' ls, Run Steps t ls t' ∧
      t'.cache.Turn k₀ k₁ k₂ (n + 1) (n + 1) (n + 1) := by
  obtain ⟨t₁, l₁, hrun₁, h₁⟩ := turn_step h hpos hlt
  obtain ⟨t₂, l₂, hrun₂, h₂⟩ := turn_step h₁ hpos hlt
  obtain ⟨t₃, l₃, hrun₃, h₃⟩ := turn_step h₂ hpos hlt
  exact ⟨t₃, _, ((Run.single hrun₁).snoc hrun₂).snoc hrun₃, h₃⟩

theorem turn_rounds {m : Nat} (h : t.cache.Turn k₀ k₁ k₂ m m m) (hpos : 0 < m) (hm : m ≤ n)
    (hn : n < 2 ^ 31) :
    ∃ t' ls, Run Steps t ls t' ∧ t'.cache.Turn k₀ k₁ k₂ n n n := by
  induction n, hm using Nat.le_induction with
  | base => exact ⟨t, [], .nil, h⟩
  | succ n hm ih =>
    obtain ⟨t₁, ls, hrun, h₁⟩ := ih (by omega)
    obtain ⟨t₂, ls', hrun', h₂⟩ := turn_round h₁ (by omega) (by omega)
    exact ⟨t₂, _, hrun.append hrun', h₂⟩

end

/-- Three keys that have been put and looked up once. -/
theorem turn_start : ∃ (t₀ t : TimedCache String Nat) (ls : List (Call String Nat × Answer Nat)),
    new 16 1 false = some t₀ ∧ Run Steps t₀ ls t ∧ t.cache.Turn "a" "b" "c" 2 2 2 := by
  have h : observe 16 1 false 0 [.put "a" (some 1) none 0, .put "b" (some 2) none 0,
      .put "c" (some 3) none 0, .getRemains "a" 1 0, .getRemains "b" 1 0, .getRemains "c" 1 0]
      (fun p => decide (p.1.cache.lruTimeout = 1 ∧ p.1.cache.Stands "a" 0 2 2 ∧
        p.1.cache.Stands "b" 1 1 2 ∧ p.1.cache.Stands "c" 2 0 2)) =
      some ([(.put "a" (some 1) none 0, .value none), (.put "b" (some 2) none 0, .value none),
        (.put "c" (some 3) none 0, .value none), (.getRemains "a" 1 0, .value (some 1)),
        (.getRemains "b" 1 0, .value (some 2)), (.getRemains "c" 1 0, .value (some 3))], true) := by
    decide
  obtain ⟨t, clock, hreaches, h⟩ := Reaches.of_observe (by decide) (by decide) h
  obtain ⟨t₀, clock₀, hnew, -, hrun⟩ := hreaches.run
  obtain ⟨-, hrun⟩ := hrun.simulate (I := fun _ => True) (f := Prod.fst) Steps trivial
    fun p l p' _ hs => ⟨trivial, hs.1⟩
  obtain ⟨⟨⟨chains, l₁, l₂, hl⟩, -⟩, -⟩ := hreaches.view.1
  obtain ⟨htimeout, ha, hb, hc⟩ := of_decide_eq_true h
  exact ⟨t₀, t, _, hnew, hrun, ⟨chains, l₁, l₂, hl⟩, htimeout, ⟨0, ha⟩, ⟨1, hb⟩, ⟨2, hc⟩⟩

/-- Three keys that are looked up in turn, each `2 ^ 31 - 1` times. -/
theorem not_linked_overflow : ¬ ∀ (t₀ t : TimedCache String Nat)
    (ls : List (Call String Nat × Answer Nat)), new 16 1 false = some t₀ →
      Run Steps t₀ ls t → t.Undeleted := by
  intro h
  obtain ⟨t₀, t₁, ls, hnew, hrun, hturn⟩ := turn_start
  obtain ⟨t₂, ls', hrun', hturn⟩ :=
    turn_rounds (n := 2 ^ 31 - 1) hturn (by decide) (by decide) (by decide)
  obtain ⟨chains, l₁, l₂, hl⟩ := hturn.layout
  obtain ⟨c, hget, hspoilt⟩ := hl.get_spoilt hturn.hitsAt
  obtain ⟨t₃, a, hlast, rfl⟩ := getRemains_run hget 1 0
  have hlast : Steps t₂ (.getRemains "a" 1 0, a) t₃ := hlast
  have hall := (hrun.append hrun').snoc hlast
  exact hspoilt.not_undeleted (h _ _ _ hnew hall).cache

end TimedCache

end BaseService.LocalCache
