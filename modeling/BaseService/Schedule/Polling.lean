import BaseService.Schedule.DiscoveryUtil

/-!
# `getPollingServie` at every index

* `polls` : calls one after the other on the same list;
* `Polled` : a call selects an instance, and as many calls as there are instances select each once;
* `InTurn` : the indices of these calls neither pass zero nor the end of the 32-bit integers;
* `polled_of_inTurn` : the calls go through the list, forwards or backwards;
* `polled_iff` : for different instances nothing else does.
-/

namespace BaseService.Schedule.DiscoveryUtil
variable {ι : Type}

/-- So many calls with what they return; the list of instances does not change. -/
def polls (allInstance : List ι) : Nat → DiscoveryUtil ι → List (Option ι)
  | 0, _ => []
  | k + 1, this =>
    let (x, this) := getPollingServie allInstance this
    x :: polls allInstance k this

/-- What `POLLING` is for. -/
structure Polled (allInstance : List ι) (this : DiscoveryUtil ι) : Prop where
  /-- The call throws no exception and returns an element. -/
  selects : ∃ x ∈ allInstance, (getPollingServie allInstance this).1 = some x
  /-- The next calls return each instance once. -/
  each : (polls allInstance allInstance.length this).Perm (allInstance.map some)

/-- The indices of `n` calls from `index` on: none of them is negative; or none is positive, and the
least integer is among them only if `n` divides its absolute value; or the last of them is the least
integer, and `n` divides its absolute value. -/
def InTurn (n : Nat) (index : Int32) : Prop :=
  (0 ≤ index.toInt ∧ index.toInt + n ≤ 2 ^ 31) ∨
  (index.toInt < 0 ∧ index.toInt + n ≤ 1 ∧ (index = Int32.minValue → n ∣ 2 ^ 31)) ∨
  (index.toInt + n = 2 ^ 31 + 1 ∧ n ∣ 2 ^ 31)

instance (n : Nat) (index : Int32) : Decidable (InTurn n index) :=
  inferInstanceAs (Decidable (_ ∨ _ ∨ _))

/-! ## The indices of later calls -/

theorem toInt_later (index : Int32) (k : Nat) :
    (index + .ofNat k).toInt = (index.toInt + k).bmod (2 ^ 32) := by
  have hk : (Int32.ofNat k).toInt = (k : Int).bmod (2 ^ 32) := Int32.toInt_ofNat' ..
  rw [Int32.toInt_add, hk, Int.add_bmod_bmod]

/-- Up to the overflow included, the absolute value is that of the sum. -/
theorem natAbs_later {index : Int32} {k : Nat} (h : index.toInt + k ≤ 2 ^ 31) :
    (index + .ofNat k).toInt.natAbs = (index.toInt + k).natAbs := by
  have hle := index.le_toInt
  rw [toInt_later, Int.bmod_def]
  split <;> omega

theorem later_eq_minValue_iff {index : Int32} {k : Nat} (h : index.toInt + k ≤ 2 ^ 31) :
    index + .ofNat k = Int32.minValue ↔ index.toInt + k = -2 ^ 31 ∨ index.toInt + k = 2 ^ 31 := by
  have hle := index.le_toInt
  rw [← Int32.toInt_inj, Int32.toInt_minValue, toInt_later, Int.bmod_def]
  split <;> omega

theorem polls_eq {allInstance : List ι} (hne : allInstance ≠ []) (n : Nat) (this : DiscoveryUtil ι) :
    polls allInstance n this =
      (List.range n).map fun k => atIndex allInstance (this.index + .ofNat k) := by
  induction n generalizing this with
  | zero => rfl
  | succ n ih =>
    rw [polls, getPollingServie, if_neg hne, List.range_succ_eq_map, List.map_cons, List.map_map]
    have hzero : this.index + Int32.ofNat 0 = this.index := Int32.add_zero _
    show _ :: polls allInstance n _ = _
    rw [ih, hzero]
    congr 1
    refine List.map_congr_left fun k _ => ?_
    show atIndex allInstance (this.index + 1 + Int32.ofNat k) =
      atIndex allInstance (this.index + Int32.ofNat (k + 1))
    rw [Int32.ofNat_add, Int32.add_assoc, Int32.add_comm 1]
    rfl

/-! ## What later calls select -/

/-- The calls return the elements at these positions, as long as no index overflows, and one selects
nothing only if it is the least one. -/
theorem polls_natAbs {allInstance : List ι} (hne : allInstance ≠ []) {n : Nat}
    {this : DiscoveryUtil ι} (hle : this.index.toInt + n ≤ 2 ^ 31 + 1)
    (hfirst : this.index = Int32.minValue → allInstance.length ∣ 2 ^ 31)
    (hlast : this.index.toInt + n = 2 ^ 31 + 1 → allInstance.length ∣ 2 ^ 31) :
    polls allInstance n this = (List.range n).map fun k : Nat =>
      allInstance[(this.index.toInt + k).natAbs % allInstance.length]? := by
  rw [polls_eq hne]
  refine List.map_congr_left fun k hk => ?_
  have hk := List.mem_range.1 hk
  have hmin : this.index + .ofNat k = Int32.minValue → allInstance.length ∣ 2 ^ 31 := by
    rw [later_eq_minValue_iff (by omega)]
    rintro (h | h)
    · have hge := this.index.le_toInt
      exact hfirst (Int32.toInt_inj.1 (by rw [Int32.toInt_minValue]; omega))
    · exact hlast (by omega)
  rw [atIndex_natAbs hmin, natAbs_later (by omega)]

/-- As many elements in turn as the list has are the list, begun elsewhere. -/
theorem rotate_eq_range (l : List ι) (m : Nat) :
    (List.range l.length).map (fun k => l[(m + k) % l.length]?) = (l.rotate m).map some := by
  apply List.ext_getElem
  · simp
  · intro k hk hk'
    have hlt : (k + m) % l.length < l.length := by
      apply Nat.mod_lt
      simp only [List.length_map, List.length_range] at hk
      omega
    rw [List.getElem_map, List.getElem_map, List.getElem_range, List.getElem_rotate, Nat.add_comm,
      List.getElem?_eq_getElem hlt]

theorem reverse_range_map {α : Type} (n : Nat) (f : Nat → α) :
    ((List.range n).map f).reverse = (List.range n).map fun k => f (n - 1 - k) := by
  apply List.ext_getElem
  · simp
  · intro k hk hk'
    simp

/-! ## A round of calls -/

section
variable {allInstance : List ι} {this : DiscoveryUtil ι}

theorem polls_forwards (hne : allInstance ≠ []) (hnonneg : 0 ≤ this.index.toInt)
    (hle : this.index.toInt + allInstance.length ≤ 2 ^ 31 + 1)
    (hlast : this.index.toInt + allInstance.length = 2 ^ 31 + 1 → allInstance.length ∣ 2 ^ 31) :
    polls allInstance allInstance.length this =
      (allInstance.rotate this.index.toInt.toNat).map some := by
  have hfirst : this.index = Int32.minValue → allInstance.length ∣ 2 ^ 31 := by
    intro h
    rw [h, Int32.toInt_minValue] at hnonneg
    omega
  rw [polls_natAbs hne hle hfirst hlast, ← rotate_eq_range]
  refine List.map_congr_left fun k _ => ?_
  have heq : (this.index.toInt + k).natAbs = this.index.toInt.toNat + k := by omega
  rw [heq]

theorem polls_backwards (hne : allInstance ≠ []) (hle : this.index.toInt + allInstance.length ≤ 1)
    (hfirst : this.index = Int32.minValue → allInstance.length ∣ 2 ^ 31) :
    (polls allInstance allInstance.length this).reverse =
      (allInstance.rotate (1 - this.index.toInt - allInstance.length).toNat).map some := by
  rw [polls_natAbs hne (by omega) hfirst (by omega), reverse_range_map, ← rotate_eq_range]
  refine List.map_congr_left fun k hk => ?_
  have hk := List.mem_range.1 hk
  have heq : (this.index.toInt + (allInstance.length - 1 - k : Nat)).natAbs =
      (1 - this.index.toInt - allInstance.length).toNat + k := by omega
  rw [heq]

/-- **Calls whose indices stay in turn** go through all instances. -/
theorem polled_of_inTurn (hne : allInstance ≠ []) (h : InTurn allInstance.length this.index) :
    Polled allInstance this := by
  have hperm : (polls allInstance allInstance.length this).Perm (allInstance.map some) := by
    have hrotate (m : Nat) : ((allInstance.rotate m).map some).Perm (allInstance.map some) :=
      (List.rotate_perm allInstance m).map some
    have hpos : 0 < allInstance.length := List.length_pos_iff.2 hne
    have hlt := this.index.toInt_lt
    obtain ⟨hnonneg, hle⟩ | ⟨-, hle, hfirst⟩ | ⟨heq, hdvd⟩ := h
    · rw [polls_forwards hne hnonneg (by omega) (by omega)]
      exact hrotate _
    · apply (List.reverse_perm _).symm.trans
      rw [polls_backwards hne hle hfirst]
      exact hrotate _
    · by_cases hnonneg : 0 ≤ this.index.toInt
      · rw [polls_forwards hne hnonneg (by omega) fun _ => hdvd]
        exact hrotate _
      · have hle := Nat.le_of_dvd (by decide) hdvd
        omega
  refine ⟨?_, hperm⟩
  have hmem : (getPollingServie allInstance this).1 ∈ polls allInstance allInstance.length this := by
    obtain ⟨n, hn⟩ := Nat.exists_eq_succ_of_ne_zero (List.length_pos_iff.2 hne).ne'
    rw [hn]
    exact List.mem_cons_self
  obtain ⟨x, hx, heq⟩ := List.mem_map.1 (hperm.mem_iff.1 hmem)
  exact ⟨x, hx, heq.symm⟩

/-- Calls that select the same element return it twice. -/
theorem not_nodup_polls (hne : allInstance ≠ []) {n j k : Nat} (hlt : j < k) (hk : k < n)
    (h : atIndex allInstance (this.index + .ofNat j) = atIndex allInstance (this.index + .ofNat k)) :
    ¬ (polls allInstance n this).Nodup := by
  rw [polls_eq hne]
  intro hnodup
  have hinj := List.inj_on_of_nodup_map hnodup
  have heq := hinj (List.mem_range.2 (hlt.trans hk)) (List.mem_range.2 hk) h
  omega

/-- Indices with one absolute value select the same element. -/
theorem atIndex_neg {i j : Int32} (h : i.toInt = -j.toInt) :
    atIndex allInstance i = atIndex allInstance j := by
  have hi : i ≠ Int32.minValue := by
    intro hmin
    rw [hmin, Int32.toInt_minValue] at h
    have hlt := j.toInt_lt
    omega
  have hj : j ≠ Int32.minValue := by
    intro hmin
    rw [hmin, Int32.toInt_minValue] at h
    have hlt := i.toInt_lt
    omega
  rw [atIndex_natAbs fun hmin => absurd hmin hi, atIndex_natAbs fun hmin => absurd hmin hj, h,
    Int.natAbs_neg]

/-- Of two calls at opposite indices, the second returns what the first did. -/
theorem not_nodup_across (hne : allInstance ≠ []) {n j k : Nat} (hlt : j < k) (hk : k < n)
    (h : (this.index.toInt + j).bmod (2 ^ 32) = -(this.index.toInt + k).bmod (2 ^ 32)) :
    ¬ (polls allInstance n this).Nodup := by
  apply not_nodup_polls hne hlt hk
  apply atIndex_neg
  rw [toInt_later, toInt_later, h]

/-- Every call of a round selects something, the one at the least index, too. -/
theorem dvd_of_polled (hne : allInstance ≠ []) (h : Polled allInstance this) {k : Nat}
    (hk : k < allInstance.length) (hmin : this.index + .ofNat k = Int32.minValue) :
    allInstance.length ∣ 2 ^ 31 := by
  have hmem : atIndex allInstance (this.index + .ofNat k) ∈ allInstance.map some := by
    apply h.each.mem_iff.1
    rw [polls_eq hne]
    exact List.mem_map_of_mem (List.mem_range.2 hk)
  obtain ⟨x, -, hx⟩ := List.mem_map.1 hmem
  have hsome : (atIndex allInstance (this.index + .ofNat k)).isSome := by rw [← hx]; rfl
  rw [atIndex_isSome_iff hne, hmin] at hsome
  exact hsome.resolve_left fun hne => hne rfl

/-- A round that passes zero returns the instance next to it twice; one that passes the end of the
integers fails there, or returns the instance next to the least integer twice. -/
theorem inTurn_of_polled (hne : allInstance ≠ []) (hnodup : allInstance.Nodup)
    (h : Polled allInstance this) : InTurn allInstance.length this.index := by
  have hpolls : (polls allInstance allInstance.length this).Nodup :=
    h.each.nodup_iff.2 (hnodup.map (Option.some_injective _))
  have hpos : 0 < allInstance.length := List.length_pos_iff.2 hne
  have hge := this.index.le_toInt
  have hlt := this.index.toInt_lt
  by_contra hturn
  simp only [InTurn, not_or, not_and, Int.not_le] at hturn
  obtain ⟨hforwards, hbackwards, hend⟩ := hturn
  by_cases hnonneg : 0 ≤ this.index.toInt
  · have hover := hforwards hnonneg
    have hdvd : allInstance.length ∣ 2 ^ 31 := by
      apply dvd_of_polled hne h (k := (2 ^ 31 - this.index.toInt).toNat) (by omega)
      rw [later_eq_minValue_iff (by omega)]
      omega
    have hbeyond : this.index.toInt + allInstance.length ≠ 2 ^ 31 + 1 := fun heq => hend heq hdvd
    refine not_nodup_across hne (j := (2 ^ 31 - 1 - this.index.toInt).toNat)
      (k := (2 ^ 31 + 1 - this.index.toInt).toNat) (by omega) (by omega) ?_ hpolls
    rw [Int.bmod_def, Int.bmod_def]
    split <;> split <;> omega
  · by_cases hzero : this.index.toInt + allInstance.length ≤ 1
    · obtain ⟨hmin, hndvd⟩ := Classical.not_imp.1 (hbackwards (by omega) hzero)
      apply hndvd
      apply dvd_of_polled hne h hpos
      rw [hmin]
      rfl
    · refine not_nodup_across hne (j := (-1 - this.index.toInt).toNat)
        (k := (1 - this.index.toInt).toNat) (by omega) (by omega) ?_ hpolls
      rw [Int.bmod_def, Int.bmod_def]
      split <;> split <;> omega

end

/-- **Polling works** for different instances just at the indices from which a round of calls stays in
turn. -/
theorem polled_iff {allInstance : List ι} (hne : allInstance ≠ []) (hnodup : allInstance.Nodup)
    (this : DiscoveryUtil ι) : Polled allInstance this ↔ InTurn allInstance.length this.index :=
  ⟨inTurn_of_polled hne hnodup, polled_of_inTurn hne⟩

/-- Past the end of the integers, with four instances. -/
theorem polled_overflow : Polled [0, 1, 2, 3] ⟨none, 2 ^ 31 - 3⟩ ∧
    ¬ Polled [0, 1, 2, 3] ⟨none, 2 ^ 31 - 2⟩ :=
  ⟨(polled_iff (by decide) (by decide) _).2 (by decide),
    fun h => absurd ((polled_iff (by decide) (by decide) _).1 h) (by decide)⟩

/-- Three instances at the least index: the call throws an exception. -/
theorem not_polled_minValue : ¬ ∀ (allInstance : List Nat) (this : DiscoveryUtil Nat),
    allInstance ≠ [] → Polled allInstance this := by
  intro h
  obtain ⟨x, -, hx⟩ := (h [0, 1, 2] ⟨none, Int32.minValue⟩ (by decide)).selects
  have hthrows : (getPollingServie [0, 1, 2] ⟨none, Int32.minValue⟩).1 = none := by decide
  rw [hthrows] at hx
  cases hx

end BaseService.Schedule.DiscoveryUtil
