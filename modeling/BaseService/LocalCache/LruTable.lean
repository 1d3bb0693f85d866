import BaseService.LocalCache.LruInvariant

/-!
# The hash table of `LruCache`

* `SameTable s s'` : an operation on the LRU lists leaves the hash table alone;
* `Table s chains` : the chain of bucket `i` is `chains i`;
* `Table.lookup_eq_some` : a key is answered with the value of its one item;
* `Table.unchain`, `Table.insert`, `Table.assign` : the three changes of the table.
-/

namespace BaseService.LocalCache
open Function (update)
open Links

namespace LruCache
variable {K V : Type}

/-! ## Operations on the lists only -/

structure SameTable (s s' : LruCache K V) : Prop where
  entries : s'.entries = s.entries
  length : s'.length = s.length
  prime : s'.prime = s.prime
  nextHash : s'.nextHash = s.nextHash
  key : s'.key = s.key
  value : s'.value = s.value
  allocated : s'.allocated = s.allocated
  isLruTailRemove : s'.isLruTailRemove = s.isLruTailRemove

theorem SameTable.refl (s : LruCache K V) : SameTable s s := ⟨rfl, rfl, rfl, rfl, rfl, rfl, rfl, rfl⟩

theorem SameTable.trans {s₁ s₂ s₃ : LruCache K V} (h₁ : SameTable s₁ s₂) (h₂ : SameTable s₂ s₃) :
    SameTable s₁ s₃ :=
  ⟨h₂.entries.trans h₁.entries, h₂.length.trans h₁.length, h₂.prime.trans h₁.prime,
    h₂.nextHash.trans h₁.nextHash, h₂.key.trans h₁.key, h₂.value.trans h₁.value,
    h₂.allocated.trans h₁.allocated, h₂.isLruTailRemove.trans h₁.isLruTailRemove⟩

theorem moveToHead_sameTable {s s' : LruCache K V} {r : Ref} (h : s.moveToHead r = some s') :
    SameTable s s' := by
  unfold moveToHead at h
  dsimp only at h
  split at h
  · cases h
    exact SameTable.refl s
  · split at h
    · cases h
      exact ⟨rfl, rfl, rfl, rfl, rfl, rfl, rfl, rfl⟩
    · cases h

theorem updateLru_sameTable {s s' : LruCache K V} {r : Ref} (h : s.updateLru r = some s') :
    SameTable s s' := by
  unfold updateLru at h
  dsimp only at h
  split at h
  swap
  · cases h
    exact SameTable.refl s
  unfold updateLruImpl at h
  have h₀ : SameTable s (s.stamp r) := ⟨rfl, rfl, rfl, rfl, rfl, rfl, rfl, rfl⟩
  generalize s.stamp r = s₀ at h h₀
  dsimp only at h
  split at h
  · cases h
    exact h₀
  · split at h
    · cases h
      exact h₀.trans ⟨rfl, rfl, rfl, rfl, rfl, rfl, rfl, rfl⟩
    · obtain ⟨h1, h2, h3, h4, h5, h6, h7, h8⟩ := moveToHead_sameTable h
      exact h₀.trans ⟨h1, h2, h3, h4, h5, h6, h7, h8⟩

theorem removeLruItem_sameTable (s : LruCache K V) (r : Ref) : SameTable s (s.removeLruItem r) := by
  unfold removeLruItem
  dsimp only
  split
  · exact ⟨rfl, rfl, rfl, rfl, rfl, rfl, rfl, rfl⟩
  · split <;> exact ⟨rfl, rfl, rfl, rfl, rfl, rfl, rfl, rfl⟩

/-! ## Chains -/

variable [DecidableEq K] [HashCode K]

omit [DecidableEq K] in
theorem bucket_congr {s s' : LruCache K V} (h : s'.prime = s.prime) (k : K) :
    s'.bucket k = s.bucket k := by
  rw [bucket, bucket, h]

structure Table (s : LruCache K V) (chains : Nat → List Ref) : Prop where
  chain : ∀ i, Chain s.nextHash (s.entries i) (chains i)
  nodup : ∀ i, (chains i).Nodup
  lt : ∀ i, ∀ r ∈ chains i, r < s.allocated
  item : ∀ i, ∀ r ∈ chains i, ∃ k v, s.key r = some k ∧ s.value r = some v ∧ s.bucket k = i
  inj : ∀ i, ∀ r ∈ chains i, ∀ r' ∈ chains i, s.key r = s.key r' → r = r'
  bucket_lt : ∀ k, s.bucket k < s.length

/-- The items in the table. -/
def Resident (chains : Nat → List Ref) (r : Ref) : Prop := ∃ i, r ∈ chains i

section Table
variable {s s' : LruCache K V} {chains : Nat → List Ref} {k : K} {r : Ref}

omit [DecidableEq K] in
theorem Table.congr (h : Table s chains) (hs : SameTable s s') : Table s' chains := by
  refine ⟨?_, h.nodup, ?_, ?_, ?_, ?_⟩
  · rw [hs.nextHash, hs.entries]; exact h.chain
  · rw [hs.allocated]; exact h.lt
  · intro i r hr
    obtain ⟨k, v, hk, hv, hb⟩ := h.item i r hr
    exact ⟨k, v, by rw [hs.key, hk], by rw [hs.value, hv], by rw [bucket_congr hs.prime, hb]⟩
  · rw [hs.key]; exact h.inj
  · intro k
    rw [bucket_congr hs.prime, hs.length]
    exact h.bucket_lt k

omit [DecidableEq K] in
theorem Table.resident_iff {chains' : Nat → List Ref} (h : Table s chains)
    (h' : Table s chains') (r : Ref) :
    Resident chains r ↔ Resident chains' r :=
  exists_congr fun i => (h.chain i).visits_iff.symm.trans (h'.chain i).visits_iff

omit [DecidableEq K] in
theorem Table.length_le (h : Table s chains) (i : Nat) : (chains i).length ≤ s.allocated := by
  have hsub : chains i ⊆ List.range s.allocated := fun r hr => List.mem_range.mpr (h.lt i r hr)
  have := ((h.nodup i).subperm hsub).length_le
  rwa [List.length_range] at this

omit [DecidableEq K] in
/-- An item sits in the bucket of its key. -/
theorem Table.bucket_eq (h : Table s chains) {i : Nat} (hr : r ∈ chains i) (hk : s.key r = some k) :
    s.bucket k = i := by
  obtain ⟨k', v, hk', -, hb⟩ := h.item i r hr
  rw [hk] at hk'
  rwa [Option.some.inj hk']

omit [DecidableEq K] in
theorem Table.bucket_unique (h : Table s chains) {i j : Nat} (hi : r ∈ chains i)
    (hj : r ∈ chains j) : i = j := by
  obtain ⟨k, v, hk, -, hb⟩ := h.item i r hi
  rw [← hb, h.bucket_eq hj hk]

omit [HashCode K] in
theorem findItem_chain {o : Option Ref} {l : List Ref} (h : Chain s.nextHash o l) {fuel : Nat}
    (hf : l.length ≤ fuel) :
    s.findItem k fuel o = some (l.find? (fun r => decide (s.key r = some k))) := by
  induction l generalizing o fuel with
  | nil =>
    rw [show o = none from h]
    cases fuel <;> rfl
  | cons a l ih =>
    obtain ⟨rfl, h⟩ := h
    cases fuel with
    | zero => simp at hf
    | succ fuel =>
      rw [findItem, List.find?_cons]
      by_cases hk : s.key a = some k
      · simp [hk]
      · rw [if_neg hk, ih h (by simpa using hf)]
        simp [hk]

theorem Table.findItem_eq (h : Table s chains) (k : K) (i : Nat) :
    s.findItem k s.allocated (s.entries i) =
      some ((chains i).find? (fun r => decide (s.key r = some k))) :=
  findItem_chain (h.chain i) (h.length_le i)

/-- **A key is answered with the value of its item.** -/
theorem Table.lookup_eq_some (h : Table s chains) {v : V} :
    s.lookup k = some v ↔ ∃ i, ∃ r ∈ chains i, s.key r = some k ∧ s.value r = some v := by
  rw [lookup, h.findItem_eq, Option.join_some]
  constructor
  · intro hv
    obtain ⟨r, hr, hv⟩ := Option.bind_eq_some_iff.mp hv
    exact ⟨_, r, List.mem_of_find?_eq_some hr, by simpa using List.find?_some hr, hv⟩
  · rintro ⟨i, r, hr, hk, hv⟩
    rw [h.bucket_eq hr hk]
    cases hf : (chains i).find? (fun r => decide (s.key r = some k)) with
    | none =>
      have := List.find?_eq_none.mp hf r hr
      simp [hk] at this
    | some r' =>
      have hk' : s.key r' = some k := by simpa using List.find?_some hf
      have : r' = r := h.inj i r' (List.mem_of_find?_eq_some hf) r hr (by rw [hk, hk'])
      rw [this, Option.bind_some, hv]

theorem Table.lookup_of_mem (h : Table s chains) {i : Nat} (hr : r ∈ chains i)
    (hk : s.key r = some k) : s.lookup k = s.value r := by
  obtain ⟨k', v, -, hv, -⟩ := h.item i r hr
  rw [hv]
  exact h.lookup_eq_some.mpr ⟨i, r, hr, hk, hv⟩

theorem Table.lookup_eq_none (h : Table s chains) (hn : ∀ r ∈ chains (s.bucket k), s.key r ≠ some k) :
    s.lookup k = none := by
  cases hl : s.lookup k with
  | none => rfl
  | some v =>
    obtain ⟨i, r, hr, hk, -⟩ := h.lookup_eq_some.mp hl
    rw [← h.bucket_eq hr hk] at hr
    exact absurd hk (hn r hr)

/-- The item of a key. -/
theorem findItem_congr (hs : SameTable s s') (k : K) :
    s'.findItem k s'.allocated (s'.entries (s'.bucket k)) =
      s.findItem k s.allocated (s.entries (s.bucket k)) := by
  have hf : ∀ fuel o, s'.findItem k fuel o = s.findItem k fuel o := by
    intro fuel
    induction fuel with
    | zero => intro o; cases o <;> rfl
    | succ fuel ih =>
      intro o
      cases o with
      | none => rfl
      | some r => rw [findItem, findItem, hs.key, hs.nextHash, ih]
  rw [hf, hs.allocated, hs.entries, bucket_congr hs.prime]

theorem lookup_congr (hs : SameTable s s') (k : K) : s'.lookup k = s.lookup k := by
  rw [lookup, lookup, findItem_congr hs, hs.value]

/-! ## Taking an item out of its chain -/

omit [HashCode K] in
theorem findPrev_chain {o p : Option Ref} {pre post : List Ref} {item : Ref}
    (h : Chain s.nextHash o (pre ++ item :: post)) {fuel : Nat}
    (hf : (pre ++ item :: post).length ≤ fuel) (hpre : ∀ r ∈ pre, s.key r ≠ some k)
    (hk : s.key item = some k) :
    s.findPrev k fuel p o = some (some (pre.getLast?.or p, item)) := by
  induction pre generalizing o p fuel with
  | nil =>
    obtain ⟨rfl, -⟩ := h
    cases fuel with
    | zero => simp at hf
    | succ fuel => rw [findPrev, if_pos hk]; rfl
  | cons a pre ih =>
    obtain ⟨rfl, h⟩ := h
    cases fuel with
    | zero => simp at hf
    | succ fuel =>
      rw [findPrev, if_neg (hpre a (by simp)), ih h (by simpa using hf)
        (fun r hr => hpre r (List.mem_cons_of_mem _ hr))]
      cases pre with
      | nil => rfl
      | cons b pre => simp [List.getLast?_cons]

omit [HashCode K] in
theorem findPrev_none {o p : Option Ref} {l : List Ref} (h : Chain s.nextHash o l) {fuel : Nat}
    (hf : l.length ≤ fuel) (hl : ∀ r ∈ l, s.key r ≠ some k) :
    s.findPrev k fuel p o = some none := by
  induction l generalizing o p fuel with
  | nil =>
    rw [show o = none from h]
    cases fuel <;> rfl
  | cons a l ih =>
    obtain ⟨rfl, h⟩ := h
    cases fuel with
    | zero => simp at hf
    | succ fuel =>
      rw [findPrev, if_neg (hl a (by simp)), ih h (by simpa using hf)
        (fun r hr => hl r (List.mem_cons_of_mem _ hr))]

omit [DecidableEq K] [HashCode K] in
theorem unchain_fields (s : LruCache K V) (hash : Nat) (prevItem : Option Ref) (item : Ref) :
    (s.unchain hash prevItem item).key = s.key ∧ (s.unchain hash prevItem item).value = s.value ∧
      (s.unchain hash prevItem item).allocated = s.allocated ∧
      (s.unchain hash prevItem item).prime = s.prime ∧
      (s.unchain hash prevItem item).length = s.length := by
  cases prevItem <;> exact ⟨rfl, rfl, rfl, rfl, rfl⟩

omit [DecidableEq K] in
theorem Table.unchain (h : Table s chains) {i : Nat} {pre post : List Ref} {item : Ref}
    (hl : chains i = pre ++ item :: post) :
    Table (s.unchain i pre.getLast? item) (update chains i (pre ++ post)) := by
  obtain ⟨hk, hv, ha, hp, hlen⟩ := unchain_fields s i pre.getLast? item
  have hc := h.chain i
  have hnd := h.nodup i
  rw [hl] at hc hnd
  have hsub : ∀ j, ∀ r ∈ update chains i (pre ++ post) j, r ∈ chains j := by
    intro j r hr
    by_cases hji : j = i
    · subst hji
      rw [Function.update_self] at hr
      rw [hl]
      rcases List.mem_append.mp hr with h' | h'
      · exact List.mem_append_left _ h'
      · exact List.mem_append_right _ (List.mem_cons_of_mem _ h')
    · rwa [Function.update_of_ne hji] at hr
  refine ⟨fun j => ?_, fun j => ?_, fun j r hr => ?_, fun j r hr => ?_, fun j r hr r' hr' => ?_,
    fun k => ?_⟩
  · cases hlast : pre.getLast? with
    | none =>
      rw [List.getLast?_eq_none_iff] at hlast
      subst hlast
      show Chain s.nextHash (update s.entries i (s.nextHash item) j) _
      by_cases hji : j = i
      · subst hji
        rw [Function.update_self, Function.update_self]
        exact hc.2
      · rw [Function.update_of_ne hji, Function.update_of_ne hji]
        exact h.chain j
    | some p =>
      obtain ⟨pre', rfl⟩ : ∃ pre', pre = pre' ++ [p] := List.getLast?_eq_some_iff.mp hlast
      show Chain (update s.nextHash p (s.nextHash item)) (s.entries j) _
      by_cases hji : j = i
      · subst hji
        rw [List.append_assoc] at hc hnd
        rw [Function.update_self, List.append_assoc]
        exact hc.remove hnd
      · rw [Function.update_of_ne hji]
        refine (h.chain j).frame (fun b hb => Function.update_of_ne (fun e => hji ?_) _ _)
        exact h.bucket_unique (e ▸ hb) (hl ▸ by simp)
  · by_cases hji : j = i
    · subst hji
      rw [Function.update_self]
      exact (List.nodup_middle.mp hnd).of_cons
    · rw [Function.update_of_ne hji]
      exact h.nodup j
  · rw [ha]
    exact h.lt j r (hsub j r hr)
  · rw [hk, hv]
    simp only [bucket_congr hp]
    exact h.item j r (hsub j r hr)
  · rw [hk]
    exact h.inj j r (hsub j r hr) r' (hsub j r' hr')
  · rw [bucket_congr hp, hlen]
    exact h.bucket_lt k

/-! ## A new item -/

theorem Table.insert (h : Table s chains) (v : V) (hn : s.lookup k = none) :
    Table (s.insert k v) (update chains (s.bucket k) (s.allocated :: chains (s.bucket k))) := by
  have hfresh : ∀ i, s.allocated ∉ chains i := fun i hi => lt_irrefl _ (h.lt i _ hi)
  have hne : ∀ i, ∀ r ∈ chains i, r ≠ s.allocated := fun i r hr e => hfresh i (e ▸ hr)
  have hmem : ∀ i, ∀ r ∈ update chains (s.bucket k) (s.allocated :: chains (s.bucket k)) i,
      r = s.allocated ∧ i = s.bucket k ∨ r ∈ chains i := by
    intro i r hr
    by_cases hi : i = s.bucket k
    · rw [hi, Function.update_self] at hr
      rcases List.mem_cons.mp hr with h' | h'
      · exact Or.inl ⟨h', hi⟩
      · exact Or.inr (hi ▸ h')
    · rw [Function.update_of_ne hi] at hr
      exact Or.inr hr
  have hkey : ∀ i, ∀ r ∈ chains i, update s.key s.allocated (some k) r = s.key r :=
    fun i r hr => Function.update_of_ne (hne i r hr) _ _
  have hother : ∀ i, ∀ r ∈ chains i, s.key r ≠ some k := by
    intro i r hr hk
    obtain ⟨-, v, -, hv, -⟩ := h.item i r hr
    rw [h.lookup_of_mem hr hk, hv] at hn
    cases hn
  refine ⟨fun i => ?_, fun i => ?_, fun i r hr => ?_, fun i r hr => ?_, fun i r hr r' hr' he => ?_,
    h.bucket_lt⟩
  · show Chain (update s.nextHash s.allocated (s.entries (s.bucket k)))
      (update s.entries (s.bucket k) (some s.allocated) i) _
    by_cases hi : i = s.bucket k
    · subst hi
      rw [Function.update_self, Function.update_self]
      exact (h.chain _).push (hfresh _)
    · rw [Function.update_of_ne hi, Function.update_of_ne hi]
      exact (h.chain i).frame (fun b hb => Function.update_of_ne (hne i b hb) _ _)
  · by_cases hi : i = s.bucket k
    · subst hi
      rw [Function.update_self]
      exact List.nodup_cons.mpr ⟨hfresh _, h.nodup _⟩
    · rw [Function.update_of_ne hi]
      exact h.nodup i
  · show r < s.allocated + 1
    rcases hmem i r hr with ⟨rfl, -⟩ | hr
    · exact Nat.lt_succ_self _
    · exact Nat.lt_succ_of_lt (h.lt i r hr)
  · show ∃ k' v', update s.key s.allocated (some k) r = some k' ∧
      update s.value s.allocated (some v) r = some v' ∧ s.bucket k' = i
    rcases hmem i r hr with ⟨rfl, hi⟩ | hr
    · exact ⟨k, v, Function.update_self _ _ _, Function.update_self _ _ _, hi.symm⟩
    · rw [Function.update_of_ne (hne i r hr), Function.update_of_ne (hne i r hr)]
      exact h.item i r hr
  · change update s.key s.allocated (some k) r = update s.key s.allocated (some k) r' at he
    rcases hmem i r hr with ⟨rfl, -⟩ | hr <;> rcases hmem i r' hr' with ⟨rfl, -⟩ | hr'
    · rfl
    · rw [Function.update_self, hkey i r' hr'] at he
      exact absurd he.symm (hother i r' hr')
    · rw [Function.update_self, hkey i r hr] at he
      exact absurd he (hother i r hr)
    · rw [hkey i r hr, hkey i r' hr'] at he
      exact h.inj i r hr r' hr' he

/-! ## A new value for an item -/

omit [DecidableEq K] in
theorem Table.assign (h : Table s chains) (r : Ref) (v : V) :
    Table { s with value := update s.value r (some v) } chains := by
  refine ⟨h.chain, h.nodup, h.lt, fun i r' hr' => ?_, h.inj, h.bucket_lt⟩
  obtain ⟨k, v', hk, hv', hb⟩ := h.item i r' hr'
  by_cases hrr : r' = r
  · exact ⟨k, v, hk, by subst hrr; exact Function.update_self _ _ _, hb⟩
  · exact ⟨k, v', hk, by rw [← hv']; exact Function.update_of_ne hrr _ _, hb⟩

end Table

end LruCache

end BaseService.LocalCache
