import BaseService.LocalCache.LruTable

/-!
# What the operations of `LruCache` do

The cache seen as a partial map `s.lookup : K → Option V`:

* `get_spec`, `remove_spec`, `clear_spec` : these always complete and do what they say;
* `put_spec` : a `put` that completes stores its value and may evict other keys.
-/

namespace BaseService.LocalCache
open Function (update)
open Links

namespace LruCache
variable {K V : Type}

section Lists
variable {s : LruCache K V} {live live' : Ref → Prop} {l₁ l₂ : List Ref}

theorem Lru.live_congr (h : Lru s live l₁ l₂) (hl : ∀ x, live x ↔ live' x) :
    Lru s live' l₁ l₂ := by
  rwa [show live' = live from funext fun x => propext (hl x).symm]

theorem countHit_sameTable (s : LruCache K V) : SameTable s s.countHit := by
  unfold countHit
  split <;> exact ⟨rfl, rfl, rfl, rfl, rfl, rfl, rfl, rfl⟩

theorem countMiss_sameTable (s : LruCache K V) : SameTable s s.countMiss := by
  unfold countMiss
  split <;> exact ⟨rfl, rfl, rfl, rfl, rfl, rfl, rfl, rfl⟩

theorem Lru.countHit (h : Lru s live l₁ l₂) : Lru s.countHit live l₁ l₂ := by
  unfold LruCache.countHit
  split
  · exact h.congr rfl rfl rfl rfl rfl rfl rfl rfl rfl rfl rfl rfl
  · exact h

theorem Lru.countMiss (h : Lru s live l₁ l₂) : Lru s.countMiss live l₁ l₂ := by
  unfold LruCache.countMiss
  split
  · exact h.congr rfl rfl rfl rfl rfl rfl rfl rfl rfl rfl rfl rfl
  · exact h

theorem Lru.unchain (h : Lru s live l₁ l₂) (hash : Nat) (prevItem : Option Ref) (item : Ref) :
    Lru (s.unchain hash prevItem item) live l₁ l₂ := by
  cases prevItem <;> exact h.congr rfl rfl rfl rfl rfl rfl rfl rfl rfl rfl rfl rfl

/-- A new item enters the used-once list. -/
theorem Lru.insert [DecidableEq K] [HashCode K] (h : Lru s live l₁ l₂) (k : K) (v : V)
    (hroom : (l₁.length + l₂.length + 1 : Int) ≤ max 1 s.capacity)
    (hlive : ∀ x, live' x ↔ live x ∨ x = s.allocated) :
    Lru (s.insert k v) live' (s.allocated :: l₁) l₂ := by
  have hne : ∀ x, x ∈ l₁ ∨ x ∈ l₂ → x ≠ s.allocated := fun x hx e =>
    Nat.lt_irrefl _ (e ▸ (h.keyed x hx).1)
  have hfresh₁ : s.allocated ∉ l₁ := fun hx => hne _ (Or.inl hx) rfl
  have hlt := h.length_lt
  have hcap := h.capacity_lt
  have hhead : s.head1 ≠ some s.allocated := by
    rw [h.list₁.head_eq]
    exact fun e => hfresh₁ (List.mem_of_mem_head? e)
  have htail : rehead s.tail1 s.head1 (some s.allocated) =
      if s.tail1 = none then some s.allocated else s.tail1 := by
    rw [h.list₁.tail_eq, h.list₁.head_eq]
    cases l₁ <;> simp [rehead]
  have hold : ∀ y, y ∈ l₁ ∨ y ∈ l₂ → live' y → live y := fun y hy hl =>
    ((hlive y).mp hl).resolve_right (hne y hy)
  constructor
  · show DList _ _ _ (some s.allocated) (if s.tail1 = none then some s.allocated else s.tail1) _
    rw [← htail]
    refine h.list₁.push hfresh₁ (Function.update_self _ _ _) ?_
      (fun y hy => Function.update_of_ne (hne y (Or.inl hy)) _ _)
      (fun y hy => relink_update (hne y (Or.inl hy)) _ _ _) (fun y hy => hold y (Or.inl hy))
    show relink (update s.prevLru s.allocated none) s.head1 (some s.allocated) s.allocated = none
    rw [relink_of_ne hhead, Function.update_self]
  · refine h.list₂.frame (fun y hy => Or.inl ⟨Function.update_of_ne (hne y (Or.inr hy)) _ _, ?_,
      hold y (Or.inr hy)⟩)
    refine relink_update_of_ne (hne y (Or.inr hy)) (fun e => ?_) _ _
    rw [h.list₁.head_eq] at e
    exact h.disjoint (List.mem_of_mem_head? e) hy
  · show wrapInt (s.size1 + 1) = _
    rw [h.size₁, wrapInt_of_range (by omega) (by omega), List.length_cons]
    omega
  · exact h.size₂
  · intro y hy
    show live' y ∧ update s.hitCount s.allocated 1 y = 1
    rcases List.mem_cons.mp hy with rfl | hy
    · exact ⟨(hlive _).mpr (Or.inr rfl), Function.update_self _ _ _⟩
    · rw [Function.update_of_ne (hne y (Or.inl hy))]
      exact ⟨(hlive y).mpr (Or.inl (h.once y hy).1), (h.once y hy).2⟩
  · intro y hy hl
    show update s.hitCount s.allocated 1 y ≠ 1
    rw [Function.update_of_ne (hne y (Or.inr hy))]
    exact h.twice y hy (hold y (Or.inr hy) hl)
  · intro y hy
    rcases (hlive y).mp hy with hl | rfl
    · exact (h.cover y hl).imp_left (List.mem_cons_of_mem _)
    · exact Or.inl (by simp)
  · intro y hy
    show y < s.allocated + 1 ∧ ∃ k', update s.key s.allocated (some k) y = some k'
    by_cases hya : y = s.allocated
    · rw [hya]
      exact ⟨Nat.lt_succ_self _, k, Function.update_self _ _ _⟩
    · have hy' : y ∈ l₁ ∨ y ∈ l₂ := hy.imp_left (fun h' => (List.mem_cons.mp h').resolve_left hya)
      rw [Function.update_of_ne hya]
      exact ⟨Nat.lt_succ_of_lt (h.keyed y hy').1, (h.keyed y hy').2⟩
  · intro y
    show update s.hitCount s.allocated 1 y < 2 ^ 31
    by_cases hya : y = s.allocated
    · rw [hya, Function.update_self]; decide
    · rw [Function.update_of_ne hya]; exact h.hit_lt y
  · exact hcap
  · rw [List.length_cons]
    show _ ≤ max 1 s.capacity
    omega

end Lists

variable [DecidableEq K] [HashCode K]

/-- Where the chains and the LRU lists lie. -/
structure Layout (s : LruCache K V) (chains : Nat → List Ref) (l₁ l₂ : List Ref) : Prop where
  table : Table s chains
  lists : Lru s (Resident chains) l₁ l₂

/-- The invariant between two operations. -/
def Inv (s : LruCache K V) : Prop :=
  (∃ chains l₁ l₂, Layout s chains l₁ l₂) ∧ s.isLruTailRemove = false

/-- `s'` answers no key that `s` does not answer in the same way. -/
def Evicts (s s' : LruCache K V) : Prop := ∀ k, s'.lookup k = s.lookup k ∨ s'.lookup k = none

theorem Evicts.refl (s : LruCache K V) : Evicts s s := fun _ => Or.inl rfl

theorem Evicts.trans {s₁ s₂ s₃ : LruCache K V} (h₁ : Evicts s₁ s₂) (h₂ : Evicts s₂ s₃) :
    Evicts s₁ s₃ := by
  intro k
  rcases h₂ k with h | h
  · rw [h]; exact h₁ k
  · exact Or.inr h

section
variable {s s' : LruCache K V} {chains : Nat → List Ref} {l₁ l₂ : List Ref} {k : K}

/-! ## `get` -/

theorem Layout.get (h : Layout s chains l₁ l₂) (k : K) :
    ∃ s' l₁' l₂', s.get k = some (s', s.lookup k) ∧ Layout s' chains l₁' l₂' ∧ SameTable s s' := by
  unfold LruCache.get lookup
  rw [h.table.findItem_eq]
  cases hf : (chains (s.bucket k)).find? (fun r => decide (s.key r = some k)) with
  | none =>
    exact ⟨s.countMiss, l₁, l₂, rfl, ⟨h.table.congr (countMiss_sameTable s), h.lists.countMiss⟩,
      countMiss_sameTable s⟩
  | some r =>
    obtain ⟨s', l₁', l₂', hu, hl, -⟩ := h.lists.updateLru ⟨_, List.mem_of_find?_eq_some hf⟩
    have hs := (updateLru_sameTable hu).trans (countHit_sameTable s')
    refine ⟨s'.countHit, l₁', l₂', ?_, ⟨h.table.congr hs, hl.countHit⟩, hs⟩
    simp only [Option.bind_eq_bind, Option.bind_some, hu, Option.join_some, hs.value]

/-- **`get` answers the map** and leaves it as it is. -/
theorem get_spec (h : Inv s) (k : K) :
    ∃ s', s.get k = some (s', s.lookup k) ∧ Inv s' ∧ ∀ k', s'.lookup k' = s.lookup k' := by
  obtain ⟨⟨chains, l₁, l₂, h⟩, hflag⟩ := h
  obtain ⟨s', l₁', l₂', hg, hl, hs⟩ := h.get k
  exact ⟨s', hg, ⟨⟨chains, l₁', l₂', hl⟩, by rw [hs.isLruTailRemove, hflag]⟩, lookup_congr hs⟩

/-! ## `remove` -/

omit [DecidableEq K] [HashCode K] in
theorem removeLruItem_capacity (s : LruCache K V) (r : Ref) :
    (s.removeLruItem r).capacity = s.capacity := by
  unfold removeLruItem
  dsimp only
  split
  · rfl
  · split <;> rfl

/-- `remove` takes the item of the key out of the LRU lists and out of its chain. -/
theorem Layout.remove_found (h : Layout s chains l₁ l₂) {r : Ref} (hr : r ∈ chains (s.bucket k))
    (hk : s.key r = some k) :
    ∃ prevItem chains',
      s.remove k = some ((s.removeLruItem r).unchain (s.bucket k) prevItem r, s.lookup k) ∧
      Table ((s.removeLruItem r).unchain (s.bucket k) prevItem r) chains' ∧
      ∀ x, Resident chains x ∧ x ≠ r ↔ Resident chains' x := by
  have hc := h.table.chain (s.bucket k)
  have hlen := h.table.length_le (s.bucket k)
  obtain ⟨pre, post, hl⟩ := List.append_of_mem hr
  have hnd := h.table.nodup (s.bucket k)
  have hpre : ∀ x ∈ pre, s.key x ≠ some k := by
    intro x hx hxk
    have : x = r := h.table.inj _ x (by rw [hl]; exact List.mem_append_left _ hx) r hr
      (by rw [hxk, hk])
    rw [hl] at hnd
    exact (List.nodup_append.mp hnd).2.2 x hx r (by simp) this
  rw [hl] at hc hlen
  have hfind := findPrev_chain (p := none) hc hlen hpre hk
  rw [Option.or_none] at hfind
  have hs := removeLruItem_sameTable s r
  have ht := (h.table.congr hs).unchain hl
  obtain ⟨-, uv, -⟩ := unchain_fields (s.removeLruItem r) (s.bucket k) pre.getLast? r
  refine ⟨pre.getLast?, _, ?_, ht, fun x => ⟨?_, ?_⟩⟩
  · unfold LruCache.remove
    simp only [hfind, Option.bind_eq_bind, Option.bind_some, uv, hs.value,
      h.table.lookup_of_mem hr hk]
  · rintro ⟨⟨i, hi⟩, hxr⟩
    refine ⟨i, ?_⟩
    by_cases hib : i = s.bucket k
    · subst hib
      rw [Function.update_self]
      rw [hl] at hi
      simpa [hxr] using hi
    · rwa [Function.update_of_ne hib]
  · rintro ⟨i, hi⟩
    by_cases hib : i = s.bucket k
    · subst hib
      rw [Function.update_self] at hi
      have hmem : x ∈ chains (s.bucket k) := by
        rw [hl]
        rcases List.mem_append.mp hi with h' | h'
        · exact List.mem_append_left _ h'
        · exact List.mem_append_right _ (List.mem_cons_of_mem _ h')
      refine ⟨⟨_, hmem⟩, ?_⟩
      rintro rfl
      rw [hl] at hnd
      exact (List.nodup_cons.mp (List.nodup_middle.mp hnd)).1 hi
    · rw [Function.update_of_ne hib] at hi
      exact ⟨⟨i, hi⟩, fun e => hib (h.table.bucket_unique hi (e ▸ hr))⟩

theorem Layout.remove_none (h : Layout s chains l₁ l₂)
    (hk : ∀ r ∈ chains (s.bucket k), s.key r ≠ some k) : s.remove k = some (s, none) := by
  unfold LruCache.remove
  simp only [findPrev_none (h.table.chain _) (h.table.length_le _) hk, Option.bind_eq_bind,
    Option.bind_some]

theorem Layout.remove (h : Layout s chains l₁ l₂) (k : K) :
    ∃ s' chains' l₁' l₂', s.remove k = some (s', s.lookup k) ∧ Layout s' chains' l₁' l₂' ∧
      s'.capacity = s.capacity ∧ s'.isLruTailRemove = s.isLruTailRemove ∧
      ∀ k', s'.lookup k' = if k' = k then none else s.lookup k' := by
  by_cases hk : ∃ r ∈ chains (s.bucket k), s.key r = some k
  · obtain ⟨r, hr, hk⟩ := hk
    have hs := removeLruItem_sameTable s r
    obtain ⟨l₁', l₂', hl', -⟩ := h.lists.removeLruItem (r := r) ⟨_, hr⟩
    obtain ⟨prevItem, chains', hrun, ht, hres⟩ := h.remove_found hr hk
    obtain ⟨uk, uv, -⟩ := unchain_fields (s.removeLruItem r) (s.bucket k) prevItem r
    refine ⟨(s.removeLruItem r).unchain (s.bucket k) prevItem r, chains', l₁', l₂', hrun,
      ⟨ht, (hl'.unchain _ _ _).live_congr hres⟩, ?_, ?_, fun k' => ?_⟩
    · rw [← removeLruItem_capacity s r]
      cases prevItem <;> rfl
    · rw [← hs.isLruTailRemove]
      cases prevItem <;> rfl
    · refine Option.ext fun v => ?_
      rw [ht.lookup_eq_some]
      simp only [uk, uv, hs.key, hs.value]
      constructor
      · rintro ⟨i, x, hx, hxk, hxv⟩
        obtain ⟨⟨j, hj⟩, hxr⟩ := (hres x).mpr ⟨i, hx⟩
        have hne : k' ≠ k := by
          rintro rfl
          have hjb := h.table.bucket_eq hj hxk
          exact hxr (h.table.inj _ x (hjb ▸ hj) r hr (by rw [hxk, hk]))
        rw [if_neg hne, h.table.lookup_eq_some]
        exact ⟨j, x, hj, hxk, hxv⟩
      · split
        · intro hv; cases hv
        · next hne =>
          intro hv
          obtain ⟨j, x, hj, hxk, hxv⟩ := h.table.lookup_eq_some.mp hv
          have hxr : x ≠ r := by
            rintro rfl
            rw [hk] at hxk
            exact hne (Option.some.inj hxk).symm
          obtain ⟨i, hi⟩ := (hres x).mp ⟨⟨j, hj⟩, hxr⟩
          exact ⟨i, x, hi, hxk, hxv⟩
  · push Not at hk
    have hnone := h.table.lookup_eq_none hk
    refine ⟨s, chains, l₁, l₂, ?_, h, rfl, rfl, fun k' => ?_⟩
    · rw [h.remove_none hk, hnone]
    · split
      · next he => rw [he, hnone]
      · rfl

/-- **`remove` erases the key** and answers what it held. -/
theorem remove_spec (h : Inv s) (k : K) :
    ∃ s', s.remove k = some (s', s.lookup k) ∧ Inv s' ∧
      ∀ k', s'.lookup k' = if k' = k then none else s.lookup k' := by
  obtain ⟨⟨chains, l₁, l₂, h⟩, hflag⟩ := h
  obtain ⟨s', chains', l₁', l₂', hr, hl, -, hf, hk⟩ := h.remove k
  exact ⟨s', hr, ⟨⟨chains', l₁', l₂', hl⟩, by rw [hf, hflag]⟩, hk⟩

/-! ## Eviction -/

/-- What an eviction keeps. -/
structure Evicted (s s' : LruCache K V) : Prop where
  evicts : Evicts s s'
  capacity : s'.capacity = s.capacity
  isLruTailRemove : s'.isLruTailRemove = s.isLruTailRemove

theorem Evicted.refl (s : LruCache K V) : Evicted s s := ⟨Evicts.refl s, rfl, rfl⟩

theorem Evicted.trans {s₁ s₂ s₃ : LruCache K V} (h₁ : Evicted s₁ s₂) (h₂ : Evicted s₂ s₃) :
    Evicted s₁ s₃ :=
  ⟨h₁.evicts.trans h₂.evicts, h₂.capacity.trans h₁.capacity,
    h₂.isLruTailRemove.trans h₁.isLruTailRemove⟩

/-- `removeTail` takes out one key, or finds both lists empty. -/
theorem Layout.removeTail {more : Bool} (h : Layout s chains l₁ l₂)
    (hs : s.removeTail = some (s', more)) :
    Evicted s s' ∧ (∃ chains' l₁' l₂', Layout s' chains' l₁' l₂') ∧
      (more = false → s' = s ∧ l₁ = [] ∧ l₂ = []) := by
  unfold LruCache.removeTail at hs
  dsimp only at hs
  split at hs
  · next hnone =>
    simp only [Option.some.injEq, Prod.mk.injEq] at hs
    obtain ⟨rfl, rfl⟩ := hs
    rw [Option.or_eq_none_iff, Option.or_eq_none_iff] at hnone
    have h₁ := hnone.2
    have h₂ := hnone.1.2
    rw [h.lists.list₁.tail_eq, List.getLast?_eq_none_iff] at h₁
    rw [h.lists.list₂.tail_eq, List.getLast?_eq_none_iff] at h₂
    exact ⟨Evicted.refl s, ⟨chains, l₁, l₂, h⟩, fun _ => ⟨rfl, h₁, h₂⟩⟩
  · next tail _ =>
    cases hkey : s.key tail with
    | none => simp [hkey] at hs
    | some k =>
      obtain ⟨s₁, chains', l₁', l₂', hr, hl, hcap, hflag, hk⟩ := h.remove k
      simp only [hkey, hr, Option.bind_eq_bind, Option.bind_some, Option.some.injEq,
        Prod.mk.injEq] at hs
      obtain ⟨rfl, rfl⟩ := hs
      refine ⟨⟨fun k' => ?_, hcap, hflag⟩, ⟨chains', l₁', l₂', hl⟩, fun e => by cases e⟩
      rw [hk]
      split
      · exact Or.inr rfl
      · exact Or.inl rfl

/-- There is room for one more item. -/
def Room (s : LruCache K V) (l₁ l₂ : List Ref) : Prop :=
  (l₁.length + l₂.length + 1 : Int) ≤ max 1 s.capacity

omit [DecidableEq K] in
theorem Layout.room (h : Layout s chains l₁ l₂) (hs : s.size < s.capacity) : Room s l₁ l₂ := by
  rw [h.lists.size_eq] at hs
  unfold Room
  omega

theorem removeTails_spec (fuel : Nat) :
    ∀ {s : LruCache K V} {chains : Nat → List Ref} {l₁ l₂ : List Ref}, Layout s chains l₁ l₂ →
      s.removeTails fuel = some s' →
      Evicted s s' ∧ ∃ chains' l₁' l₂', Layout s' chains' l₁' l₂' ∧ Room s' l₁' l₂' := by
  induction fuel with
  | zero => intro s chains l₁ l₂ _ hs; cases hs
  | succ fuel ih =>
    intro s chains l₁ l₂ h hs
    rw [removeTails] at hs
    split at hs
    · obtain ⟨⟨s₁, more⟩, ht, hs⟩ := Option.bind_eq_some_iff.mp hs
      obtain ⟨he, ⟨chains', l₁', l₂', hl⟩, hstop⟩ := h.removeTail ht
      cases more with
      | true =>
        obtain ⟨he', hl'⟩ := ih hl hs
        exact ⟨he.trans he', hl'⟩
      | false =>
        obtain rfl : s₁ = s' := Option.some.inj hs
        obtain ⟨rfl, rfl, rfl⟩ := hstop rfl
        refine ⟨he, chains, [], [], h, ?_⟩
        unfold Room
        simp
    · next hlt =>
      obtain rfl : s = s' := Option.some.inj hs
      exact ⟨Evicted.refl s, chains, l₁, l₂, h, h.room (by omega)⟩

omit [DecidableEq K] in
theorem Layout.flag (h : Layout s chains l₁ l₂) (b : Bool) :
    Layout { s with isLruTailRemove := b } chains l₁ l₂ :=
  ⟨⟨h.table.chain, h.table.nodup, h.table.lt, h.table.item, h.table.inj, h.table.bucket_lt⟩,
    h.lists.congr rfl rfl rfl rfl rfl rfl rfl rfl rfl rfl rfl rfl⟩

theorem lookup_flag (s : LruCache K V) (b : Bool) (k : K) :
    ({ s with isLruTailRemove := b } : LruCache K V).lookup k = s.lookup k := by
  have hf : ∀ fuel o, ({ s with isLruTailRemove := b } : LruCache K V).findItem k fuel o =
      s.findItem k fuel o := by
    intro fuel
    induction fuel with
    | zero => intro o; cases o <;> rfl
    | succ fuel ih =>
      intro o
      cases o with
      | none => rfl
      | some r => rw [findItem, findItem, ih]
  exact congrArg (fun o : Option (Option Ref) => o.join.bind s.value) (hf _ _)

/-- **An eviction that ends leaves room for a new item** and changes no answer but to null. -/
theorem removeLru_spec (h : Inv s) (hs : s.removeLru = some s') :
    Evicts s s' ∧ s'.isLruTailRemove = false ∧
      ∃ chains l₁ l₂, Layout s' chains l₁ l₂ ∧ Room s' l₁ l₂ := by
  obtain ⟨⟨chains, l₁, l₂, h⟩, hflag⟩ := h
  unfold removeLru at hs
  split at hs
  · rw [hflag, if_neg Bool.false_ne_true] at hs
    obtain ⟨s₁, ht, hs⟩ := Option.bind_eq_some_iff.mp hs
    cases hs
    obtain ⟨he, chains', l₁', l₂', hl, hroom⟩ := removeTails_spec _ (h.flag true) ht
    refine ⟨fun k => ?_, rfl, chains', l₁', l₂', hl.flag false, hroom⟩
    rw [lookup_flag s₁]
    have hk := he.evicts k
    rwa [lookup_flag s] at hk
  · next hlt =>
    cases hs
    exact ⟨Evicts.refl s, hflag, chains, l₁, l₂, h, h.room (by omega)⟩

/-! ## `put` -/

theorem Layout.insert (h : Layout s chains l₁ l₂) (v : V) (hn : s.lookup k = none)
    (hroom : Room s l₁ l₂) :
    Layout (s.insert k v) (update chains (s.bucket k) (s.allocated :: chains (s.bucket k)))
      (s.allocated :: l₁) l₂ := by
  refine ⟨h.table.insert v hn, h.lists.insert k v hroom (fun x => ?_)⟩
  constructor
  · rintro ⟨i, hi⟩
    by_cases hb : i = s.bucket k
    · subst hb
      rw [Function.update_self] at hi
      rcases List.mem_cons.mp hi with h' | h'
      · exact Or.inr h'
      · exact Or.inl ⟨_, h'⟩
    · rw [Function.update_of_ne hb] at hi
      exact Or.inl ⟨i, hi⟩
  · rintro (⟨i, hi⟩ | rfl)
    · by_cases hb : i = s.bucket k
      · subst hb
        exact ⟨_, by rw [Function.update_self]; exact List.mem_cons_of_mem _ hi⟩
      · exact ⟨i, by rwa [Function.update_of_ne hb]⟩
    · exact ⟨s.bucket k, by rw [Function.update_self]; exact List.mem_cons_self⟩

theorem Layout.lookup_insert (h : Layout s chains l₁ l₂) (v : V) (hn : s.lookup k = none) (k' : K) :
    (s.insert k v).lookup k' = if k' = k then some v else s.lookup k' := by
  have ht := h.table.insert v hn
  have hres : ∀ i, ∀ r ∈ chains i, r ≠ s.allocated := fun i r hr e =>
    Nat.lt_irrefl _ (e ▸ h.table.lt i r hr)
  refine Option.ext fun w => ?_
  rw [ht.lookup_eq_some]
  show (∃ i, ∃ r ∈ update chains (s.bucket k) (s.allocated :: chains (s.bucket k)) i,
    update s.key s.allocated (some k) r = some k' ∧
      update s.value s.allocated (some v) r = some w) ↔ _
  constructor
  · rintro ⟨i, r, hr, hk, hv⟩
    by_cases hra : r = s.allocated
    · rw [hra, Function.update_self] at hk hv
      rw [if_pos (Option.some.inj hk).symm, hv]
    · rw [Function.update_of_ne hra] at hk hv
      have hr' : r ∈ chains i := by
        by_cases hb : i = s.bucket k
        · subst hb
          rw [Function.update_self] at hr
          exact (List.mem_cons.mp hr).resolve_left hra
        · rwa [Function.update_of_ne hb] at hr
      have hl : s.lookup k' = some w := h.table.lookup_eq_some.mpr ⟨i, r, hr', hk, hv⟩
      have hne : k' ≠ k := by
        rintro rfl
        rw [hn] at hl
        cases hl
      rw [if_neg hne, hl]
  · intro hw
    split at hw
    · next he =>
      refine ⟨s.bucket k, s.allocated, ?_, ?_, ?_⟩
      · rw [Function.update_self]; exact List.mem_cons_self
      · rw [Function.update_self, he]
      · rw [Function.update_self, hw]
    · obtain ⟨i, r, hr, hk, hv⟩ := h.table.lookup_eq_some.mp hw
      refine ⟨i, r, ?_, ?_, ?_⟩
      · by_cases hb : i = s.bucket k
        · subst hb
          rw [Function.update_self]
          exact List.mem_cons_of_mem _ hr
        · rwa [Function.update_of_ne hb]
      · rw [Function.update_of_ne (hres i r hr), hk]
      · rw [Function.update_of_ne (hres i r hr), hv]

theorem Table.lookup_assign (h : Table s chains) {r : Ref} {i : Nat} (hr : r ∈ chains i)
    (hk : s.key r = some k) (v : V) (k' : K) :
    ({ s with value := update s.value r (some v) } : LruCache K V).lookup k' =
      if k' = k then some v else s.lookup k' := by
  have ht := h.assign r v
  by_cases he : k' = k
  · rw [if_pos he, ht.lookup_of_mem hr (he ▸ hk)]
    exact Function.update_self _ _ _
  · rw [if_neg he]
    refine Option.ext fun w => ?_
    rw [ht.lookup_eq_some, h.lookup_eq_some]
    refine exists_congr fun j => exists_congr fun x => and_congr_right fun _ => ?_
    refine and_congr_right fun (hx : s.key x = some k') => ?_
    have hne : x ≠ r := by
      rintro rfl
      rw [hk] at hx
      exact he (Option.some.inj hx).symm
    show update s.value r (some v) x = some w ↔ _
    rw [Function.update_of_ne hne]

/-- **A `put` that completes stores its value**; other keys keep theirs or are evicted. -/
theorem put_spec [DecidableEq V] {v : V} {o : Option V} (h : Inv s)
    (hs : s.put k v = some (s', o)) :
    Inv s' ∧ s'.lookup k = some v ∧
      ∀ k', k' ≠ k → s'.lookup k' = s.lookup k' ∨ s'.lookup k' = none := by
  unfold put compareAndPut at hs
  obtain ⟨s₁, hr, hs⟩ := Option.bind_eq_some_iff.mp hs
  obtain ⟨he, hflag, chains, l₁, l₂, hl, hroom⟩ := removeLru_spec h hr
  rw [hl.table.findItem_eq] at hs
  cases hf : (chains (s₁.bucket k)).find? (fun r => decide (s₁.key r = some k)) with
  | some r =>
    have hmem := List.mem_of_find?_eq_some hf
    have hk : s₁.key r = some k := by simpa using List.find?_some hf
    obtain ⟨s₂, l₁', l₂', hu, hl', -⟩ := hl.lists.updateLru ⟨_, hmem⟩
    have hst := updateLru_sameTable hu
    have ht := hl.table.congr hst
    have hk₂ : s₂.key r = some k := by rw [hst.key, hk]
    simp only [hf, hu, Option.bind_eq_bind, Option.bind_some, Bool.false_eq_true, false_and,
      ↓reduceIte, Option.some.injEq, Prod.mk.injEq] at hs
    obtain ⟨rfl, -⟩ := hs
    refine ⟨⟨⟨chains, l₁', l₂', ht.assign r v, ?_⟩, ?_⟩, ?_, fun k' hne => ?_⟩
    · exact hl'.congr rfl rfl rfl rfl rfl rfl rfl rfl rfl rfl rfl rfl
    · exact hst.isLruTailRemove.trans hflag
    · rw [ht.lookup_assign hmem hk₂, if_pos rfl]
    · rw [ht.lookup_assign hmem hk₂, if_neg hne, lookup_congr hst]
      exact he k'
  | none =>
    have hnone : s₁.lookup k = none := by
      rw [lookup, hl.table.findItem_eq, hf]
      rfl
    simp only [hf, Option.bind_eq_bind, Option.bind_some, Bool.false_eq_true, false_and,
      ↓reduceIte, Option.some.injEq, Prod.mk.injEq] at hs
    obtain ⟨rfl, -⟩ := hs
    refine ⟨⟨⟨_, _, _, hl.insert v hnone hroom⟩, hflag⟩, ?_, fun k' hne => ?_⟩
    · rw [hl.lookup_insert v hnone, if_pos rfl]
    · rw [hl.lookup_insert v hnone, if_neg hne]
      exact he k'

/-! ## `clear` -/

section Clear
-- what is known of the LRU lists and the items that live in them
variable {P : LruCache K V → (Ref → Prop) → Prop}

omit [DecidableEq K] [HashCode K] in
/-- Every item of a chain leaves the LRU lists. -/
theorem clearChain_spec
    (hstep : ∀ s live r, P s live → live r → P (s.removeLruItem r) (fun x => live x ∧ x ≠ r))
    {l : List Ref} :
    ∀ {fuel : Nat} {s : LruCache K V} {live : Ref → Prop} {o : Option Ref},
      Chain s.nextHash o l → l.Nodup → l.length ≤ fuel → (∀ r ∈ l, live r) → P s live →
      ∃ s', clearChain fuel s o = some s' ∧ SameTable s s' ∧ P s' (fun x => live x ∧ x ∉ l) := by
  induction l with
  | nil =>
    intro fuel s live o hc _ _ _ h
    rw [show o = none from hc]
    refine ⟨s, by cases fuel <;> rfl, SameTable.refl s, ?_⟩
    simpa using h
  | cons a l ih =>
    intro fuel s live o hc hnd hf hlive h
    obtain ⟨rfl, hc⟩ := hc
    obtain ⟨ha, hnd⟩ := List.nodup_cons.mp hnd
    cases fuel with
    | zero => simp at hf
    | succ fuel =>
      have hs := removeLruItem_sameTable s a
      have hc' : Chain (s.removeLruItem a).nextHash (s.nextHash a) l := by rwa [hs.nextHash]
      obtain ⟨s', hrun, hs', hl'⟩ := ih hc' hnd (by simpa using hf)
        (fun r hr => ⟨hlive r (List.mem_cons_of_mem _ hr), fun e => ha (e ▸ hr)⟩)
        (hstep s live a h (hlive a (by simp)))
      refine ⟨s', hrun, hs.trans hs', ?_⟩
      simpa only [List.mem_cons, not_or, and_assoc] using hl'

omit [DecidableEq K] in
/-- The table with an emptied bucket. -/
theorem Table.emptied (h : Table s chains) (i : Nat) :
    Table { s with entries := update s.entries i none } (update chains i []) := by
  have hsub : ∀ j, ∀ r ∈ update chains i [] j, r ∈ chains j := by
    intro j r hr
    by_cases hji : j = i
    · subst hji
      rw [Function.update_self] at hr
      cases hr
    · rwa [Function.update_of_ne hji] at hr
  refine ⟨fun j => ?_, fun j => ?_, fun j r hr => h.lt j r (hsub j r hr),
    fun j r hr => h.item j r (hsub j r hr),
    fun j r hr r' hr' => h.inj j r (hsub j r hr) r' (hsub j r' hr'), h.bucket_lt⟩
  · show Chain s.nextHash (update s.entries i none j) _
    by_cases hji : j = i
    · subst hji
      rw [Function.update_self, Function.update_self]
      exact rfl
    · rw [Function.update_of_ne hji, Function.update_of_ne hji]
      exact h.chain j
  · by_cases hji : j = i
    · subst hji
      rw [Function.update_self]
      exact List.nodup_nil
    · rw [Function.update_of_ne hji]
      exact h.nodup j

omit [DecidableEq K] in
theorem clearBuckets_spec
    (hstep : ∀ s live r, P s live → live r → P (s.removeLruItem r) (fun x => live x ∧ x ≠ r))
    (hentries : ∀ s live e, P s live → P { s with entries := e } live) (n : Nat) :
    ∀ {s : LruCache K V} {chains : Nat → List Ref}, Table s chains → P s (Resident chains) →
      (∀ j, n ≤ j → chains j = []) →
      ∃ s', clearBuckets n s = some s' ∧ Table s' (fun _ => []) ∧ P s' (Resident fun _ => []) ∧
        s'.isLruTailRemove = s.isLruTailRemove := by
  induction n with
  | zero =>
    intro s chains ht h hempty
    have : chains = fun _ => [] := funext fun j => hempty j (Nat.zero_le j)
    subst this
    exact ⟨s, rfl, ht, h, rfl⟩
  | succ n ih =>
    intro s chains ht h hempty
    obtain ⟨s₁, hrun, hs, hl⟩ := clearChain_spec hstep
      (s := { s with entries := update s.entries n none }) (ht.chain n) (ht.nodup n)
      (ht.length_le n) (fun r hr => ⟨n, hr⟩) (hentries s _ _ h)
    have hres : ∀ x, Resident chains x ∧ x ∉ chains n ↔ Resident (update chains n []) x := by
      intro x
      constructor
      · rintro ⟨⟨j, hj⟩, hn⟩
        have hjn : j ≠ n := fun e => hn (e ▸ hj)
        exact ⟨j, by rwa [Function.update_of_ne hjn]⟩
      · rintro ⟨j, hj⟩
        by_cases hjn : j = n
        · subst hjn
          rw [Function.update_self] at hj
          cases hj
        · rw [Function.update_of_ne hjn] at hj
          exact ⟨⟨j, hj⟩, fun e => hjn (ht.bucket_unique hj e)⟩
    simp only [hres] at hl
    obtain ⟨s', hrun', ht', hl', hflag⟩ := ih ((ht.emptied n).congr hs) hl
      (fun j hj => by
        by_cases hjn : j = n
        · rw [hjn, Function.update_self]
        · rw [Function.update_of_ne hjn]
          exact hempty j (by omega))
    refine ⟨s', ?_, ht', hl', hflag.trans hs.isLruTailRemove⟩
    rw [clearBuckets]
    exact (congrArg (Option.bind · (clearBuckets n)) hrun).trans hrun'

omit [DecidableEq K] in
/-- `clear` walks over every bucket, or finds both lists empty. -/
theorem Table.clear
    (hstep : ∀ s live r, P s live → live r → P (s.removeLruItem r) (fun x => live x ∧ x ≠ r))
    (hentries : ∀ s live e, P s live → P { s with entries := e } live)
    (ht : Table s chains) (h : P s (Resident chains))
    (hzero : s.size1 = 0 → s.size2 = 0 → chains = fun _ => []) :
    ∃ s', s.clear = some s' ∧ Table s' (fun _ => []) ∧ P s' (Resident fun _ => []) ∧
      s'.isLruTailRemove = s.isLruTailRemove := by
  unfold LruCache.clear
  split
  · next hz =>
    have hempty := hzero hz.1 hz.2
    subst hempty
    exact ⟨s, rfl, ht, h, rfl⟩
  · refine clearBuckets_spec hstep hentries s.length ht h (fun j hj => ?_)
    refine List.eq_nil_iff_forall_not_mem.mpr (fun r hr => ?_)
    obtain ⟨k, -, -, -, hb⟩ := ht.item j r hr
    have := ht.bucket_lt k
    omega

end Clear

omit [DecidableEq K] in
/-- With both sizes zero nothing is resident, so the early exit of `clear` loses no item. -/
theorem Layout.chains_of_sizes (h : Layout s chains l₁ l₂) (h₁ : s.size1 = 0) (h₂ : s.size2 = 0) :
    chains = fun _ => [] := by
  have h₁ : l₁ = [] := List.length_eq_zero_iff.mp (by have := h.lists.size₁; omega)
  have h₂ : l₂ = [] := List.length_eq_zero_iff.mp (by have := h.lists.size₂; omega)
  subst h₁ h₂
  refine funext fun i => List.eq_nil_iff_forall_not_mem.mpr (fun r hr => ?_)
  rcases h.lists.cover r ⟨_, hr⟩ with h' | h' <;> cases h'

theorem Layout.lookup_empty (h : Layout s (fun _ => []) l₁ l₂) (k : K) : s.lookup k = none :=
  h.table.lookup_eq_none (fun r hr => by cases hr)

/-- **`clear` empties the map.** -/
theorem clear_spec (h : Inv s) :
    ∃ s', s.clear = some s' ∧ Inv s' ∧ ∀ k, s'.lookup k = none := by
  obtain ⟨⟨chains, l₁, l₂, h⟩, hflag⟩ := h
  obtain ⟨s', hrun, ht, ⟨l₁', l₂', hl⟩, hf⟩ :=
    h.table.clear (P := fun s live => ∃ l₁ l₂, Lru s live l₁ l₂)
      (fun s live r hp hr => by
        obtain ⟨l₁, l₂, hl⟩ := hp
        obtain ⟨l₁', l₂', hl', -⟩ := hl.removeLruItem hr
        exact ⟨l₁', l₂', hl'⟩)
      (fun s live e hp => by
        obtain ⟨l₁, l₂, hl⟩ := hp
        exact ⟨l₁, l₂, hl.congr rfl rfl rfl rfl rfl rfl rfl rfl rfl rfl rfl rfl⟩)
      ⟨l₁, l₂, h.lists⟩ h.chains_of_sizes
  have hempty : Layout s' (fun _ => []) l₁' l₂' := ⟨ht, hl⟩
  exact ⟨s', hrun, ⟨⟨_, l₁', l₂', hempty⟩, hf.trans hflag⟩, hempty.lookup_empty⟩

/-! ## Construction -/

theorem getBiggestPrime_le {n : Nat} (h : 0 < n) :
    0 < getBiggestPrime n ∧ getBiggestPrime n ≤ n := by
  unfold getBiggestPrime
  cases hf : PRIMES.reverse.find? (· ≤ n) with
  | none =>
    have := List.find?_eq_none.mp hf 1 (by decide)
    simp at this
    omega
  | some p =>
    have hpos : ∀ q ∈ PRIMES.reverse, 0 < q := by decide
    exact ⟨hpos p (List.mem_of_find?_eq_some hf), by simpa using List.find?_some hf⟩

theorem tableSize_pos {bound c : Int} {fuel : Nat} (h : tableSize bound fuel 16 = some c) :
    0 < c := by
  have hle : ∀ fuel (cap : Int), tableSize bound fuel cap = some c → bound ≤ c := by
    intro fuel
    induction fuel with
    | zero => intro cap h; cases h
    | succ fuel ih =>
      intro cap h
      rw [tableSize] at h
      split at h
      · exact ih _ h
      · cases h
        omega
  by_cases hb : 16 < bound
  · have := hle _ _ h
    omega
  · cases fuel with
    | zero => cases h
    | succ fuel =>
      rw [tableSize, if_neg hb] at h
      cases h
      decide

theorem tableSize_isSome {bound : Int} (hb : bound ≤ 2 ^ 30) {fuel : Nat} :
    ∀ {i : Nat}, i ≤ 26 → 26 < i + fuel → (tableSize bound fuel (16 * 2 ^ i)).isSome := by
  induction fuel with
  | zero => intro i hi hf; omega
  | succ fuel ih =>
    intro i hi hf
    rw [tableSize]
    split
    · next hlt =>
      have hi' : i ≠ 26 := by
        rintro rfl
        norm_num at hlt
        omega
      have hpow : (2 : Int) ^ (i + 1) ≤ 2 ^ 26 := pow_le_pow_right₀ (by decide) (by omega)
      have hpos : (0 : Int) < 2 ^ (i + 1) := by positivity
      have hstep : wrapInt (16 * 2 ^ i * 2) = 16 * 2 ^ (i + 1) := by
        rw [mul_assoc, ← pow_succ, wrapInt_of_range (by omega) (by omega)]
      rw [hstep]
      exact ih (by omega) (by omega)
    · rfl

omit [DecidableEq K] [HashCode K] in
/-- A cache of any capacity up to `2 ^ 29` can be built. -/
theorem new_isSome {initialCapacity : Int} (h₀ : 0 ≤ initialCapacity)
    (h : initialCapacity ≤ 2 ^ 29) (isStatistics : Bool) :
    (new initialCapacity isStatistics : Option (LruCache K V)).isSome := by
  have hw : wrapInt (2 * initialCapacity) ≤ 2 ^ 30 := by
    rw [wrapInt_of_range (by omega) (by omega)]
    omega
  have h32 := @tableSize_isSome _ hw 32 0 (by decide) (by decide)
  rw [new, Option.isSome_map]
  simpa using h32

omit [DecidableEq K] in
theorem new_layout {initialCapacity : Int} (h : initialCapacity < 2 ^ 31) {isStatistics : Bool}
    (hs : new initialCapacity isStatistics = some s) : Layout s (fun _ => []) [] [] := by
  obtain ⟨c, hc, rfl⟩ := Option.map_eq_some_iff.mp hs
  have hpos := tableSize_pos hc
  obtain ⟨hp, hle⟩ := getBiggestPrime_le (n := c.toNat) (by omega)
  refine ⟨⟨fun _ => rfl, fun _ => List.nodup_nil, fun _ r hr => (by cases hr),
    fun _ r hr => (by cases hr), fun _ r hr => (by cases hr), fun k => ?_⟩,
    ⟨DList.empty _ _ _, DList.empty _ _ _, rfl, rfl, fun r hr => (by cases hr),
      fun r hr => (by cases hr), ?_, ?_, fun r => ?_, h, ?_⟩⟩
  · exact lt_of_lt_of_le (Nat.mod_lt _ hp) hle
  · rintro r ⟨i, hr⟩
    cases hr
  · rintro r (hr | hr) <;> cases hr
  · show (0 : Int) < 2 ^ 31
    decide
  · simp

/-- **A new cache satisfies the invariant** and is empty. -/
theorem new_spec {initialCapacity : Int} (h : initialCapacity < 2 ^ 31) {isStatistics : Bool}
    (hs : new initialCapacity isStatistics = some s) : Inv s ∧ ∀ k, s.lookup k = none := by
  have hl := new_layout h hs
  obtain ⟨c, -, rfl⟩ := Option.map_eq_some_iff.mp hs
  exact ⟨⟨⟨fun _ => [], [], [], hl⟩, rfl⟩, fun k => rfl⟩

end

end LruCache

end BaseService.LocalCache
