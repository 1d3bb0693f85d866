import BaseService.LocalCache.Factory

/-!
# The size of the hash table

The constructor of `LruCache` doubles an `int` until it is no longer below twice the capacity, which
is an `int`, too.

* `Doubles` : the loop, without a fuel; `tableSize_iff` : the fuel of `tableSize` is enough;
* `not_doubles` : above `2 ^ 30` the loop comes to `0` and never ends;
* `Proper` : the table is as large as it should be, and all indices are inside their arrays;
* `constructed_iff` : the capacities for which there is such a cache.
-/

namespace BaseService.LocalCache

/-! ## The loop -/

/-- `for (; capacity < bound; capacity *= 2) {}` ends with a result. -/
inductive Doubles (bound : Int) : Int → Int → Prop
  | done {capacity : Int} : bound ≤ capacity → Doubles bound capacity capacity
  | double {capacity result : Int} : capacity < bound →
    Doubles bound (wrapInt (capacity * 2)) result → Doubles bound capacity result

theorem doubles_of_tableSize {bound capacity result : Int} {fuel : Nat}
    (h : tableSize bound fuel capacity = some result) : Doubles bound capacity result := by
  induction fuel generalizing capacity with
  | zero => simp [tableSize] at h
  | succ fuel ih =>
    unfold tableSize at h
    split at h
    · next hlt => exact .double hlt (ih h)
    · obtain rfl := Option.some.inj h
      exact .done (by omega)

/-- The powers of two that are `int`s, and what comes after them. -/
def Doubled (x : Int) : Prop := (∃ i ≤ 30, 4 ≤ i ∧ x = 2 ^ i) ∨ x = -2 ^ 31 ∨ x = 0

theorem Doubled.double {x : Int} (h : Doubled x) : Doubled (wrapInt (x * 2)) := by
  unfold Doubled at h ⊢
  rcases h with ⟨i, hi, h4, rfl⟩ | rfl | rfl
  · rw [← pow_succ]
    by_cases h30 : i = 30
    · subst h30
      right
      left
      unfold wrapInt
      norm_num
    · left
      have hle : (2 : Int) ^ (i + 1) ≤ 2 ^ 30 := pow_le_pow_right₀ (by norm_num) (by omega)
      have hpos : (0 : Int) < 2 ^ (i + 1) := by positivity
      exact ⟨i + 1, by omega, by omega, wrapInt_of_range (by omega) (by omega)⟩
  · right
    right
    unfold wrapInt
    norm_num
  · right
    right
    unfold wrapInt
    norm_num

theorem Doubled.le {x : Int} (h : Doubled x) : x ≤ 2 ^ 30 := by
  unfold Doubled at h
  rcases h with ⟨i, hi, -, rfl⟩ | rfl | rfl
  · exact pow_le_pow_right₀ (by norm_num) hi
  · norm_num
  · norm_num

theorem doubled_start : Doubled 16 := by
  unfold Doubled
  left
  exact ⟨4, by omega, le_refl 4, by norm_num⟩

theorem Doubles.spec {bound capacity result : Int} (h : Doubles bound capacity result)
    (hc : Doubled capacity) : Doubled result ∧ bound ≤ result := by
  induction h with
  | done hle => exact ⟨hc, hle⟩
  | double _ _ ih => exact ih hc.double

/-- **The loop that never ends.** -/
theorem not_doubles {bound : Int} (h : 2 ^ 30 < bound) : ¬ ∃ result, Doubles bound 16 result := by
  rintro ⟨result, hd⟩
  have hresult := hd.spec doubled_start
  have hle := hresult.1.le
  omega

/-- Up to `2 ^ 30` the result is a power of two. -/
theorem Doubles.power {bound capacity result : Int} (hb : bound ≤ 2 ^ 30)
    (h : Doubles bound capacity result) (hc : ∃ i ≤ 30, 4 ≤ i ∧ capacity = 2 ^ i) :
    ∃ i ≤ 30, 4 ≤ i ∧ result = 2 ^ i := by
  induction h with
  | done _ => exact hc
  | double hlt _ ih =>
    apply ih
    obtain ⟨i, hi, h4, rfl⟩ := hc
    have h30 : i ≠ 30 := by
      rintro rfl
      omega
    have hle : (2 : Int) ^ (i + 1) ≤ 2 ^ 30 := pow_le_pow_right₀ (by norm_num) (by omega)
    have hpos : (0 : Int) < 2 ^ (i + 1) := by positivity
    refine ⟨i + 1, by omega, by omega, ?_⟩
    rw [← pow_succ, wrapInt_of_range (by omega) (by omega)]

theorem Doubles.unique {bound capacity result result' : Int} (h : Doubles bound capacity result)
    (h' : Doubles bound capacity result') : result = result' := by
  induction h with
  | done hle =>
    cases h' with
    | done _ => rfl
    | double hlt _ => omega
  | double hlt _ ih =>
    cases h' with
    | done hle => omega
    | double _ h' => exact ih h'

/-- A loop that ends does so before the fuel of `LruCache.new` is used up. -/
theorem tableSize_iff {bound result : Int} :
    tableSize bound 32 16 = some result ↔ Doubles bound 16 result := by
  refine ⟨doubles_of_tableSize, fun h => ?_⟩
  have hb : bound ≤ 2 ^ 30 := by
    by_contra hlt
    exact not_doubles (not_le.mp hlt) ⟨result, h⟩
  have hsome : (tableSize bound 32 (16 * 2 ^ 0)).isSome :=
    LruCache.tableSize_isSome hb (by omega) (by omega)
  obtain ⟨result', hresult'⟩ := Option.isSome_iff_exists.1 hsome
  rw [pow_zero, mul_one] at hresult'
  rw [hresult', h.unique (doubles_of_tableSize hresult')]

/-! ## The indices -/

namespace LruCache
variable {K V : Type}

/-- `_locks.length`. -/
def locks (s : LruCache K V) : Nat := (s.length >>> 3) + 1

/-- The index of the lock of a bucket. -/
def getLock (hash : Nat) : Nat := hash >>> 3

/-- `(hashCode & 0x7fffffff) % _prime`. -/
def bucketOf (s : LruCache K V) (hashCode : BitVec 32) : Nat :=
  (hashCode &&& 0x7fffffff#32).toNat % s.prime

theorem bucket_eq_bucketOf [HashCode K] (s : LruCache K V) (key : K) :
    s.bucket key = s.bucketOf (hashCode key) := rfl

theorem getLock_lt (s : LruCache K V) {i : Nat} (h : i < s.length) : getLock i < s.locks := by
  unfold getLock locks
  rw [Nat.shiftRight_eq_div_pow, Nat.shiftRight_eq_div_pow]
  have := Nat.div_le_div_right (c := 2 ^ 3) h.le
  omega

/-- The arrays of a cache of some capacity. -/
structure Proper (s : LruCache K V) (capacity : Int) : Prop where
  power : ∃ i, s.length = 2 ^ i
  minimum : 16 ≤ s.length
  twice : 0 < capacity → (∃ i, (2 : Int) ^ i < 2 ^ 31 ∧ 2 * capacity ≤ 2 ^ i) →
    2 * capacity ≤ s.length
  prime_pos : 0 < s.prime
  bucket : ∀ hashCode, s.bucketOf hashCode < s.length
  lock : ∀ hashCode, getLock (s.bucketOf hashCode) < s.locks

/-- A power of two that is an `int` is at most `2 ^ 30`. -/
theorem pow_le_of_lt {i : Nat} (h : (2 : Int) ^ i < 2 ^ 31) : (2 : Int) ^ i ≤ 2 ^ 30 := by
  have hi : i < 31 := (pow_lt_pow_iff_right₀ (by norm_num)).1 h
  exact pow_le_pow_right₀ (by norm_num) (by omega)

theorem new_isSome_of_le {capacity : Int} (hb : wrapInt (2 * capacity) ≤ 2 ^ 30)
    (isStatistics : Bool) : (new capacity isStatistics : Option (LruCache K V)).isSome := by
  have hsome : (tableSize (wrapInt (2 * capacity)) 32 (16 * 2 ^ 0)).isSome :=
    tableSize_isSome hb (by omega) (by omega)
  rw [pow_zero, mul_one] at hsome
  unfold new
  rw [Option.isSome_map, hsome]

/-- A cache that has been made is proper. -/
theorem new_proper {capacity : Int} (hb : wrapInt (2 * capacity) ≤ 2 ^ 30) {isStatistics : Bool}
    {s : LruCache K V} (hs : new capacity isStatistics = some s) : s.Proper capacity := by
  obtain ⟨c, hc, rfl⟩ := Option.map_eq_some_iff.1 hs
  have hdoubles := doubles_of_tableSize hc
  obtain ⟨i, hi, h4, rfl⟩ := hdoubles.power hb ⟨4, by omega, le_refl 4, by norm_num⟩
  have hle := (hdoubles.spec doubled_start).2
  have hlength : ((2 : Int) ^ i).toNat = 2 ^ i := by
    rw [← Int.toNat_natCast (2 ^ i)]
    push_cast
    rfl
  have h16 : 16 ≤ 2 ^ i := Nat.pow_le_pow_right (n := 2) (by omega) h4
  obtain ⟨hpos, hprime⟩ := getBiggestPrime_le (n := 2 ^ i) (by omega)
  have hbucket (hashCode : BitVec 32) :
      (hashCode &&& 0x7fffffff#32).toNat % getBiggestPrime (2 ^ i) < 2 ^ i :=
    (Nat.mod_lt _ hpos).trans_le hprime
  simp only [hlength]
  refine ⟨⟨i, rfl⟩, h16, fun hcapacity htwice => ?_, hpos, hbucket, fun hashCode => ?_⟩
  · obtain ⟨j, hj, hle'⟩ := htwice
    have := pow_le_of_lt hj
    rw [wrapInt_of_range (by omega) (by omega)] at hle
    push_cast
    exact hle
  · exact getLock_lt _ (hbucket hashCode)

theorem new_none {capacity : Int} (h : 2 ^ 30 < wrapInt (2 * capacity)) (isStatistics : Bool) :
    (new capacity isStatistics : Option (LruCache K V)) = none := by
  unfold new
  cases hc : tableSize (wrapInt (2 * capacity)) 32 16 with
  | none => rfl
  | some c =>
    refine absurd ?_ (not_doubles h)
    exact ⟨c, tableSize_iff.1 hc⟩

end LruCache

/-! ## The caches -/

namespace TimedCache

structure Proper {K V : Type} (t : TimedCache K V) (capacity : Int) : Prop where
  cache : t.cache.Proper capacity
  groupCache : ∀ g ∈ t.groupCache, g.Proper capacity

/-- Every constructor ends, with proper arrays. -/
def Constructs (K V : Type) (capacity : Int) : Prop :=
  ∀ expireInterval isGroup,
    ∃ t : TimedCache K V, new capacity expireInterval isGroup = some t ∧ t.Proper capacity

variable {K V : Type}

theorem constructs_of_le {capacity : Int} (hb : wrapInt (2 * capacity) ≤ 2 ^ 30) :
    Constructs K V capacity := by
  intro expireInterval isGroup
  obtain ⟨c, hc⟩ := Option.isSome_iff_exists.1
    (LruCache.new_isSome_of_le (K := K) (V := Ref) hb false)
  obtain ⟨g, hg⟩ := Option.isSome_iff_exists.1
    (LruCache.new_isSome_of_le (K := String) (V := CacheGroup) hb false)
  have hnew : ∃ t : TimedCache K V, new capacity expireInterval isGroup = some t ∧ t.cache = c ∧
      (t.groupCache = none ∨ t.groupCache = some g) := by
    cases isGroup <;> simp [new, newGroupCache, hc, hg]
  obtain ⟨t, ht, rfl, hgroup⟩ := hnew
  refine ⟨t, ht, LruCache.new_proper hb hc, fun g' hg' => ?_⟩
  rcases hgroup with hnone | hsome
  · rw [hnone] at hg'
    cases hg'
  · rw [hsome] at hg'
    obtain rfl := Option.some.inj hg'
    exact LruCache.new_proper hb hg

theorem new_none {capacity : Int} (h : 2 ^ 30 < wrapInt (2 * capacity)) (expireInterval : Int64)
    (isGroup : Bool) : (new capacity expireInterval isGroup : Option (TimedCache K V)) = none := by
  unfold new
  rw [LruCache.new_none h]
  rfl

theorem constructs_iff {capacity : Int} :
    Constructs K V capacity ↔ wrapInt (2 * capacity) ≤ 2 ^ 30 := by
  refine ⟨fun h => ?_, constructs_of_le⟩
  by_contra hlt
  obtain ⟨t, ht, -⟩ := h 0 false
  rw [new_none (by omega)] at ht
  cases ht

end TimedCache

/-- Every method of the factory ends that makes a new module, with proper arrays. -/
def Process.Constructs {O V C : Type} [DecidableEq C] (this : Process O V C) (capacity : Int) : Prop :=
  ∀ r : Request C, r.capacity = capacity → this.INSTANCE_LIST r.moduleName = none →
    ∃ this' made, this.instanceOf r = some this' ∧ this'.INSTANCE_LIST r.moduleName = some made ∧
      made.timedCache.Proper capacity

theorem Process.constructs_of {O V C : Type} [DecidableEq C] (this : Process O V C) {capacity : Int}
    (h : TimedCache.Constructs (Key O) V capacity) : this.Constructs capacity := by
  rintro r rfl hnew
  obtain ⟨t, ht, hproper⟩ := h r.expireInterval r.isGroup
  have hinst : ∃ this', this.instanceOf r = some this' := by
    unfold Process.instanceOf
    simp only [hnew, ht]
    exact ⟨_, rfl⟩
  obtain ⟨this', hthis'⟩ := hinst
  obtain ⟨t', ht', -, hlist, -⟩ := Process.instanceOf_new hnew hthis'
  rw [ht] at ht'
  obtain rfl := Option.some.inj ht'
  have hmade := congrFun hlist r.moduleName
  rw [Function.update_self] at hmade
  exact ⟨this', _, hthis', hmade, hproper⟩

/-- The capacities whose double is an `int` above `2 ^ 30`. -/
theorem wrapInt_double_le_iff {c : Int} (h₁ : -2 ^ 31 ≤ c) (h₂ : c < 2 ^ 31) :
    wrapInt (2 * c) ≤ 2 ^ 30 ↔
      ¬ (2 ^ 29 < c ∧ c < 2 ^ 30 ∨ -2 ^ 31 + 2 ^ 29 < c ∧ c < -2 ^ 30) := by
  unfold wrapInt
  omega

/-- **The capacities of which a cache can be made.** -/
theorem constructed_iff {O V C : Type} [DecidableEq C] (this : Process O V C) (capacity : Int32) :
    TimedCache.Constructs (Key O) V capacity.toInt ∧ this.Constructs capacity.toInt ↔
      ¬ (2 ^ 29 < capacity.toInt ∧ capacity.toInt < 2 ^ 30 ∨
        -2 ^ 31 + 2 ^ 29 < capacity.toInt ∧ capacity.toInt < -2 ^ 30) := by
  rw [← wrapInt_double_le_iff capacity.le_toInt capacity.toInt_lt,
    ← TimedCache.constructs_iff (K := Key O) (V := V)]
  exact ⟨And.left, fun h => ⟨h, this.constructs_of h⟩⟩

/-- Just above `2 ^ 29`. -/
theorem not_constructed :
    ¬ TimedCache.Constructs String String 536870913 ∧
      ¬ ∃ result, Doubles (wrapInt (2 * 536870913)) 16 result := by
  have hlt : (2 : Int) ^ 30 < wrapInt (2 * 536870913) := by decide
  refine ⟨fun h => ?_, not_doubles hlt⟩
  have hle := TimedCache.constructs_iff.1 h
  omega

end BaseService.LocalCache
