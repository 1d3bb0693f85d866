import Mathlib

/-!
# `DiscoveryUtil`

The selection of a service's instance. The state is static: it is that of all services together.

* `getService` : a call, on lists of instances that stay the same;
* `atIndex_natAbs` : what an index selects, by its absolute value;
* `getService_mem`, `getService_isSome_iff` : it is an instance of the service, and when there is one;
* `PerService` : what `POLLING` and `STICKY` return for a service depends on the calls for it alone;
* `earlier`, `drawn` : the numbers of `POLLING` calls before those of a service, and the draws that
  decide what `STICKY` returns for it;
* `perService_iff` : the sequences of calls with that property;
* `inStep_iff` : for lists without repetitions, the condition on `POLLING` as a congruence.
-/

namespace BaseService.Schedule

inductive Strategy
  | RANDOM
  | POLLING
  | STICKY
  deriving DecidableEq, Repr

/-- A call of `getService`; `draw` is what `random.nextInt` gives, if it is called. -/
structure Selection where
  serviceName : String
  strategy : Strategy
  draw : Nat

/-- The static fields that decide which instance is selected. -/
structure DiscoveryUtil (ι : Type) where
  ourInstance : Option ι
  index : Int32

namespace DiscoveryUtil
variable {ι : Type} [DecidableEq ι]

def start : DiscoveryUtil ι := ⟨none, 0⟩

/-- `allInstance.get(Math.abs(index) % allInstance.size())`, null for a negative index, at which an
exception is caught. -/
def atIndex (allInstance : List ι) (index : Int32) : Option ι :=
  let i := index.abs.toInt.tmod allInstance.length
  if i < 0 then none else allInstance[i.toNat]?

def getPollingServie (allInstance : List ι) (this : DiscoveryUtil ι) : Option ι × DiscoveryUtil ι :=
  if allInstance = [] then (none, this)
  else (atIndex allInstance this.index, { this with index := this.index + 1 })

def getRandomService (allInstance : List ι) (draw : Nat) : Option ι := allInstance[draw]?

def getStickyService (allInstance : List ι) (draw : Nat) (this : DiscoveryUtil ι) :
    Option ι × DiscoveryUtil ι :=
  match this.ourInstance.filter (· ∈ allInstance) with
  | some x => (some x, this)
  | none =>
    let x := getRandomService allInstance draw
    (x, { this with ourInstance := x })

/-- `instances` are the lists that `getAllService` returns. -/
def getService (instances : String → List ι) (c : Selection) (this : DiscoveryUtil ι) :
    Option ι × DiscoveryUtil ι :=
  let allInstance := instances c.serviceName
  match c.strategy with
  | .RANDOM => (getRandomService allInstance c.draw, this)
  | .POLLING => getPollingServie allInstance this
  | .STICKY => getStickyService allInstance c.draw this

/-- The calls with what they return. -/
def getServices (instances : String → List ι) :
    DiscoveryUtil ι → List Selection → List (Selection × Option ι)
  | _, [] => []
  | this, c :: calls =>
    let (x, this) := getService instances c this
    (c, x) :: getServices instances this calls

/-- What the calls for a service return with a strategy. -/
def answers (strategy : Strategy) (serviceName : String) (rs : List (Selection × Option ι)) :
    List (Option ι) :=
  (rs.filter fun r => r.1.serviceName = serviceName ∧ r.1.strategy = strategy).map Prod.snd

/-- `POLLING` returns what it would if there were only the calls for the service, and `STICKY` what it
returned before. -/
structure PerService (instances : String → List ι) (calls : List Selection) : Prop where
  polling (s : String) : answers .POLLING s (getServices instances start calls) =
    answers .POLLING s (getServices instances start (calls.filter (·.serviceName = s)))
  sticky (s : String) : (answers .STICKY s (getServices instances start calls)).IsChain (· = ·)

/-! ## What a call selects -/

omit [DecidableEq ι] in
/-- The element at the absolute value modulo the length. -/
theorem atIndex_natAbs {allInstance : List ι} {index : Int32}
    (h : index = Int32.minValue → allInstance.length ∣ 2 ^ 31) :
    atIndex allInstance index = allInstance[index.toInt.natAbs % allInstance.length]? := by
  unfold atIndex
  by_cases hmin : index = Int32.minValue
  · have habs : index.abs.toInt = -(2 ^ 31 : Nat) := by
      rw [hmin]
      rfl
    have hnatAbs : index.toInt.natAbs = 2 ^ 31 := by
      rw [hmin]
      rfl
    have hzero : (-((2 ^ 31 : Nat) : Int)).tmod allInstance.length = 0 := by
      apply Int.tmod_eq_zero_of_dvd
      exact (Int.natCast_dvd_natCast.2 (h hmin)).neg_right
    rw [habs, hzero, hnatAbs, Nat.mod_eq_zero_of_dvd (h hmin)]
    rfl
  · have hne : index.toBitVec ≠ BitVec.intMin 32 := fun heq => hmin (Int32.toBitVec_inj.1 heq)
    have habs : index.abs.toInt = index.toInt.natAbs := by
      show index.abs.toBitVec.toInt = _
      rw [Int32.toBitVec_abs, BitVec.toInt_abs_eq_natAbs_of_ne_intMin hne]
      rfl
    have hmod : (index.toInt.natAbs : Int).tmod allInstance.length =
        (index.toInt.natAbs % allInstance.length : Nat) := by
      rw [Int.tmod_eq_emod_of_nonneg (Int.natCast_nonneg _)]
      rfl
    rw [habs, hmod, if_neg (by omega), Int.toNat_natCast]

omit [DecidableEq ι] in
/-- The index selects nothing only when it is the least one, whose absolute value is negative. -/
theorem atIndex_isSome_iff {allInstance : List ι} (hne : allInstance ≠ []) (index : Int32) :
    (atIndex allInstance index).isSome ↔
      index ≠ Int32.minValue ∨ allInstance.length ∣ 2 ^ 31 := by
  have hpos : 0 < allInstance.length := List.length_pos_iff.2 hne
  by_cases h : index = Int32.minValue → allInstance.length ∣ 2 ^ 31
  · rw [atIndex_natAbs h, List.getElem?_eq_getElem (Nat.mod_lt _ hpos)]
    exact iff_of_true rfl (imp_iff_not_or.1 h)
  · refine iff_of_false ?_ fun hor => h (imp_iff_not_or.2 hor)
    obtain ⟨hmin, hdvd⟩ := Classical.not_imp.1 h
    have habs : index.abs.toInt = -(2 ^ 31 : Nat) := by
      rw [hmin]
      rfl
    have hmod : (-((2 ^ 31 : Nat) : Int)).tmod allInstance.length =
        -((2 ^ 31 % allInstance.length : Nat) : Int) := by
      rw [Int.neg_tmod, Int.tmod_eq_emod_of_nonneg (Int.natCast_nonneg _)]
      rfl
    have hlt : 0 < 2 ^ 31 % allInstance.length :=
      Nat.pos_of_ne_zero fun h => hdvd (Nat.dvd_of_mod_eq_zero h)
    unfold atIndex
    rw [habs, hmod, if_pos (by omega)]
    exact Bool.false_ne_true

section
variable {instances : String → List ι} {c : Selection} {this : DiscoveryUtil ι}

omit [DecidableEq ι] in
theorem atIndex_mem {allInstance : List ι} {index : Int32} {x : ι}
    (h : atIndex allInstance index = some x) : x ∈ allInstance := by
  simp only [atIndex] at h
  split at h
  · cases h
  · exact List.mem_of_getElem? h

theorem getStickyService_mem {allInstance : List ι} {draw : Nat} {x : ι}
    (h : (getStickyService allInstance draw this).1 = some x) : x ∈ allInstance := by
  unfold getStickyService at h
  split at h
  · next y hy =>
    obtain ⟨-, hmem⟩ := Option.filter_eq_some_iff.mp hy
    obtain rfl := Option.some.inj h
    simpa using hmem
  · exact List.mem_of_getElem? h

/-- What is selected is an instance of the service. -/
theorem getService_mem {x : ι} (h : (getService instances c this).1 = some x) :
    x ∈ instances c.serviceName := by
  unfold getService at h
  cases hs : c.strategy with
  | RANDOM =>
    rw [hs] at h
    exact List.mem_of_getElem? h
  | POLLING =>
    rw [hs] at h
    by_cases hnil : instances c.serviceName = []
    · simp [getPollingServie, hnil] at h
    · simp only [getPollingServie, if_neg hnil] at h
      exact atIndex_mem h
  | STICKY =>
    rw [hs] at h
    exact getStickyService_mem h

/-- With instances to select from, only `POLLING` may select none. -/
theorem getService_isSome_iff (hdraw : c.draw < (instances c.serviceName).length) :
    (getService instances c this).1.isSome ↔ (c.strategy = .POLLING →
      this.index ≠ Int32.minValue ∨ (instances c.serviceName).length ∣ 2 ^ 31) := by
  have hrandom : (getRandomService (instances c.serviceName) c.draw).isSome := by
    rw [getRandomService, List.getElem?_eq_getElem hdraw]
    rfl
  have hne : instances c.serviceName ≠ [] := fun h => by
    rw [h] at hdraw
    exact absurd hdraw (Nat.not_lt_zero _)
  unfold getService
  cases hs : c.strategy with
  | RANDOM => exact iff_of_true hrandom fun h => by cases h
  | POLLING =>
    rw [← atIndex_isSome_iff hne]
    simp [getPollingServie, hne]
  | STICKY =>
    refine iff_of_true ?_ fun h => by cases h
    show (getStickyService (instances c.serviceName) c.draw this).1.isSome
    unfold getStickyService
    split
    · rfl
    · exact hrandom

end

/-! ## `POLLING` -/

/-- How many `POLLING` calls come before each of those for the service, `m` of them before all calls. -/
def earlier (serviceName : String) : Nat → List Selection → List Nat
  | _, [] => []
  | m, c :: calls =>
    if c.strategy = .POLLING then
      if c.serviceName = serviceName then m :: earlier serviceName (m + 1) calls
      else earlier serviceName (m + 1) calls
    else earlier serviceName m calls

/-- The `POLLING` calls before one for the service lead to the same element as those for the service
alone. -/
def InStep (instances : String → List ι) (calls : List Selection) : Prop :=
  ∀ s i m, (earlier s 0 calls)[i]? = some m →
    atIndex (instances s) (.ofNat m) = atIndex (instances s) (.ofNat i)

omit [DecidableEq ι] in
/-- As long as the index has not overflowed, the element is that at the index modulo the length. -/
theorem atIndex_ofNat (allInstance : List ι) {m : Nat} (hm : m < 2 ^ 31) :
    atIndex allInstance (.ofNat m) = allInstance[m % allInstance.length]? := by
  have htoInt : (Int32.ofNat m).toInt = m := Int32.toInt_ofNat_of_lt hm
  have hne : Int32.ofNat m ≠ Int32.minValue := by
    rw [ne_eq, ← Int32.toInt_inj, htoInt, Int32.toInt_minValue]
    omega
  rw [atIndex_natAbs fun h => absurd h hne, htoInt, Int.natAbs_natCast]

theorem length_earlier_le (s : String) (m : Nat) (calls : List Selection) :
    (earlier s m calls).length ≤ calls.length := by
  induction calls generalizing m with
  | nil => exact Nat.le_refl 0
  | cons c calls ih =>
    have h := ih m
    have hsucc := ih (m + 1)
    rw [earlier]
    split_ifs <;> simp only [List.length_cons] <;> omega

theorem earlier_lt {s : String} {m k : Nat} {calls : List Selection} (h : k ∈ earlier s m calls) :
    k < m + calls.length := by
  induction calls generalizing m with
  | nil => exact absurd h List.not_mem_nil
  | cons c calls ih =>
    rw [earlier] at h
    rw [List.length_cons]
    split_ifs at h
    · rcases List.mem_cons.1 h with rfl | h
      · omega
      · have hlt := ih h
        omega
    · have hlt := ih h
      omega
    · have hlt := ih h
      omega

omit [DecidableEq ι] in
/-- Of a list without repetitions, the element is the right one just if the number of the calls for
other services before is a multiple of its length. -/
theorem inStep_iff {instances : String → List ι} {calls : List Selection}
    (hnodup : ∀ s, (instances s).Nodup) (hne : ∀ s, instances s ≠ [])
    (hlen : calls.length < 2 ^ 31) :
    InStep instances calls ↔
      ∀ s i m, (earlier s 0 calls)[i]? = some m → m ≡ i [MOD (instances s).length] := by
  refine forall_congr' fun s => forall_congr' fun i => forall_congr' fun m => ?_
  refine imp_congr_right fun hm => ?_
  have hpos : 0 < (instances s).length := List.length_pos_iff.2 (hne s)
  have hmlt := earlier_lt (List.mem_of_getElem? hm)
  have hilt := (List.getElem?_eq_some_iff.1 hm).1
  have hle := length_earlier_le s 0 calls
  rw [atIndex_ofNat _ (by omega), atIndex_ofNat _ (by omega),
    List.getElem?_eq_getElem (Nat.mod_lt _ hpos), List.getElem?_eq_getElem (Nat.mod_lt _ hpos),
    Option.some_inj, (hnodup s).getElem_inj_iff]
  rfl

section
variable {instances : String → List ι} {calls : List Selection}

theorem getService_index {c : Selection} (h : c.strategy ≠ .POLLING) {this : DiscoveryUtil ι} :
    (getService instances c this).2.index = this.index := by
  unfold getService
  split
  · rfl
  · contradiction
  · show (getStickyService (instances c.serviceName) c.draw this).2.index = this.index
    unfold getStickyService
    split <;> rfl

omit [DecidableEq ι] in
theorem answers_cons (strategy : Strategy) (s : String) (c : Selection) (x : Option ι)
    (rs : List (Selection × Option ι)) :
    answers strategy s ((c, x) :: rs) =
      if c.serviceName = s ∧ c.strategy = strategy then x :: answers strategy s rs
      else answers strategy s rs := by
  unfold answers
  rw [List.filter_cons]
  split_ifs <;> simp_all

/-- The index counts the `POLLING` calls for all services. -/
theorem answers_polling (hne : ∀ c ∈ calls, instances c.serviceName ≠ []) (s : String) {m : Nat}
    {this : DiscoveryUtil ι} (hm : this.index = .ofNat m) :
    answers .POLLING s (getServices instances this calls) =
      (earlier s m calls).map fun n => atIndex (instances s) (.ofNat n) := by
  induction calls generalizing this m with
  | nil => rfl
  | cons c calls ih =>
    have hrest {n : Nat} {next : DiscoveryUtil ι} (hn : next.index = .ofNat n) :=
      ih (fun d hd => hne d (List.mem_cons_of_mem _ hd)) hn
    rw [getServices, answers_cons, earlier]
    by_cases hpoll : c.strategy = .POLLING
    · have hcall : getService instances c this =
          (atIndex (instances c.serviceName) this.index, { this with index := this.index + 1 }) := by
        unfold getService getPollingServie
        rw [hpoll]
        exact if_neg (hne c List.mem_cons_self)
      have hsucc : this.index + 1 = .ofNat (m + 1) := by
        rw [hm]
        simp
      rw [hcall, hrest hsucc, if_pos hpoll]
      by_cases hs : c.serviceName = s
      · rw [if_pos ⟨hs, hpoll⟩, if_pos hs, List.map_cons, hs, hm]
      · rw [if_neg fun h => hs h.1, if_neg hs]
    · rw [if_neg fun h => hpoll h.2, if_neg hpoll]
      exact hrest ((getService_index hpoll).trans hm)

/-- With the calls for one service alone, the index counts those. -/
theorem earlier_alone (s : String) (m k : Nat) (calls : List Selection) :
    earlier s m (calls.filter (·.serviceName = s)) = List.range' m (earlier s k calls).length := by
  induction calls generalizing m k with
  | nil => rfl
  | cons c calls ih =>
    by_cases hs : c.serviceName = s
    · rw [List.filter_cons_of_pos (by simpa using hs), earlier, earlier]
      split
      · rw [List.length_cons, List.range'_succ, ih (m + 1) (k + 1)]
      · exact ih m k
    · rw [List.filter_cons_of_neg (by simpa using hs), earlier]
      split
      · exact ih m (k + 1)
      · exact ih m k

theorem polling_iff (hne : ∀ c ∈ calls, instances c.serviceName ≠ []) :
    (∀ s, answers .POLLING s (getServices instances start calls) =
      answers .POLLING s (getServices instances start (calls.filter (·.serviceName = s)))) ↔
      InStep instances calls := by
  refine forall_congr' fun s => ?_
  rw [answers_polling hne s (m := 0) rfl,
    answers_polling (fun c hc => hne c (List.mem_of_mem_filter hc)) s (m := 0) rfl,
    earlier_alone s 0 0 calls, List.ext_getElem?_iff]
  refine forall_congr' fun i => ?_
  rw [List.getElem?_map, List.getElem?_map]
  cases hm : (earlier s 0 calls)[i]? with
  | none =>
    have hlen := List.getElem?_eq_none_iff.1 hm
    have hnone : (List.range' 0 (earlier s 0 calls).length)[i]? = none := by
      rw [List.getElem?_eq_none_iff, List.length_range']
      exact hlen
    simp [hnone]
  | some m =>
    obtain ⟨hlen, -⟩ := List.getElem?_eq_some_iff.1 hm
    rw [List.getElem?_range' hlen]
    simp

/-! ## `STICKY` -/

/-- The draws of the `STICKY` calls for the service that do not come directly after another one of
them, `last` being the service of the last `STICKY` call. -/
def drawn (serviceName : String) : Option String → List Selection → List Nat
  | _, [] => []
  | last, c :: calls =>
    if c.strategy = .STICKY then
      if c.serviceName = serviceName ∧ last ≠ some serviceName then
        c.draw :: drawn serviceName (some c.serviceName) calls
      else drawn serviceName (some c.serviceName) calls
    else drawn serviceName last calls

/-- They all draw the same instance. -/
def Unmoved (instances : String → List ι) (calls : List Selection) : Prop :=
  ∀ s, ∀ d ∈ drawn s none calls, ∀ d' ∈ drawn s none calls, (instances s)[d]? = (instances s)[d']?

/-- The instance kept is one of the service of the last `STICKY` call. -/
def Owned (instances : String → List ι) (last : Option String) (this : DiscoveryUtil ι) : Prop :=
  match last with
  | none => this.ourInstance = none
  | some s => ∃ x ∈ instances s, this.ourInstance = some x

theorem getService_ourInstance {c : Selection} (h : c.strategy ≠ .STICKY) {this : DiscoveryUtil ι} :
    (getService instances c this).2.ourInstance = this.ourInstance := by
  unfold getService
  split
  · rfl
  · show (getPollingServie (instances c.serviceName) this).2.ourInstance = this.ourInstance
    unfold getPollingServie
    split <;> rfl
  · contradiction

/-- A `STICKY` call after one for the same service. -/
theorem getService_again {c : Selection} (h : c.strategy = .STICKY) {this : DiscoveryUtil ι} {x : ι}
    (hx : x ∈ instances c.serviceName) (hour : this.ourInstance = some x) :
    getService instances c this = (some x, this) := by
  unfold getService
  rw [h]
  show getStickyService (instances c.serviceName) c.draw this = (some x, this)
  rw [getStickyService, hour, Option.filter_some_pos (by simpa using hx)]

/-- A `STICKY` call after one for another service. -/
theorem getService_drawn (hdisjoint : ∀ s s', s ≠ s' → List.Disjoint (instances s) (instances s'))
    {c : Selection} (h : c.strategy = .STICKY) {this : DiscoveryUtil ι} {last : Option String}
    (howned : Owned instances last this) (hlast : last ≠ some c.serviceName) :
    getService instances c this = ((instances c.serviceName)[c.draw]?,
      { this with ourInstance := (instances c.serviceName)[c.draw]? }) := by
  have hnone : this.ourInstance.filter (· ∈ instances c.serviceName) = none := by
    cases last with
    | none =>
      rw [show this.ourInstance = none from howned]
      rfl
    | some s =>
      obtain ⟨x, hx, hour⟩ := howned
      have hne : s ≠ c.serviceName := fun hs => hlast (congrArg some hs)
      rw [hour, Option.filter_some_neg (by simpa using hdisjoint s _ hne hx)]
  unfold getService
  rw [h]
  show getStickyService (instances c.serviceName) c.draw this = _
  rw [getStickyService, hnone]
  rfl

/-- The calls return an instance just if the draws that decide about it give that instance. -/
theorem answers_sticky (hdisjoint : ∀ s s', s ≠ s' → List.Disjoint (instances s) (instances s'))
    (hdraw : ∀ c ∈ calls, c.draw < (instances c.serviceName).length) {s : String} {y : Option ι}
    {last : Option String} {this : DiscoveryUtil ι} (howned : Owned instances last this)
    (hlast : last = some s → this.ourInstance = y) :
    (∀ r ∈ answers .STICKY s (getServices instances this calls), r = y) ↔
      ∀ d ∈ drawn s last calls, (instances s)[d]? = y := by
  induction calls generalizing this last with
  | nil => simp [answers, getServices, drawn]
  | cons c calls ih =>
    have hrest {last' : Option String} {next : DiscoveryUtil ι} (h : Owned instances last' next)
        (h' : last' = some s → next.ourInstance = y) :=
      ih (fun d hd => hdraw d (List.mem_cons_of_mem _ hd)) h h'
    rw [getServices, answers_cons, drawn]
    by_cases hsticky : c.strategy = .STICKY
    · rw [if_pos hsticky]
      by_cases hagain : last = some c.serviceName
      · subst hagain
        have hiff := hrest howned hlast
        obtain ⟨x, hx, hour⟩ := howned
        rw [getService_again hsticky hx hour]
        by_cases hs : c.serviceName = s
        · have hxy := hour.symm.trans (hlast (congrArg some hs))
          rw [if_pos ⟨hs, hsticky⟩, if_neg fun h => h.2 (congrArg some hs), List.forall_mem_cons,
            and_iff_right hxy]
          exact hiff
        · rw [if_neg fun h => hs h.1, if_neg fun h => hs h.1]
          exact hiff
      · have hlt := hdraw c List.mem_cons_self
        rw [getService_drawn hdisjoint hsticky howned hagain]
        have howned' : Owned instances (some c.serviceName)
            { this with ourInstance := (instances c.serviceName)[c.draw]? } :=
          ⟨_, List.getElem_mem hlt, List.getElem?_eq_getElem hlt⟩
        by_cases hs : c.serviceName = s
        · rw [if_pos ⟨hs, hsticky⟩, if_pos ⟨hs, hs ▸ hagain⟩, List.forall_mem_cons,
            List.forall_mem_cons]
          subst hs
          exact and_congr_right fun hy => hrest howned' fun _ => hy
        · rw [if_neg fun h => hs h.1, if_neg fun h => hs h.1]
          exact hrest howned' fun h => absurd (Option.some.inj h) hs
    · have hour : (getService instances c this).2.ourInstance = this.ourInstance :=
        getService_ourInstance hsticky
      rw [if_neg fun h => hsticky h.2, if_neg hsticky]
      refine hrest ?_ fun h => hour.trans (hlast h)
      unfold Owned at howned ⊢
      rw [hour]
      exact howned

theorem sticky_iff (hdisjoint : ∀ s s', s ≠ s' → List.Disjoint (instances s) (instances s'))
    (hdraw : ∀ c ∈ calls, c.draw < (instances c.serviceName).length) :
    (∀ s, (answers .STICKY s (getServices instances start calls)).IsChain (· = ·)) ↔
      Unmoved instances calls := by
  refine forall_congr' fun s => ?_
  have hiff (y : Option ι) : (∀ r ∈ answers .STICKY s (getServices instances start calls), r = y) ↔
      ∀ d ∈ drawn s none calls, (instances s)[d]? = y :=
    answers_sticky hdisjoint hdraw (rfl : Owned instances none start) fun h => by cases h
  rw [List.isChain_iff_pairwise]
  constructor
  · intro h d hd d' hd'
    have hall (y : Option ι)
        (hy : ∀ r ∈ answers .STICKY s (getServices instances start calls), r = y) :
        (instances s)[d]? = (instances s)[d']? := by
      rw [(hiff y).1 hy d hd, (hiff y).1 hy d' hd']
    cases hanswers : answers .STICKY s (getServices instances start calls) with
    | nil => exact hall none (by rw [hanswers]; simp)
    | cons y rest =>
      refine hall y fun r hr => ?_
      rw [hanswers] at h hr
      rcases List.mem_cons.1 hr with rfl | hr
      · rfl
      · exact ((List.pairwise_cons.1 h).1 r hr).symm
  · intro h
    refine List.pairwise_of_forall_mem_list fun r hr r' hr' => ?_
    have hall (y : Option ι) (hy : ∀ d ∈ drawn s none calls, (instances s)[d]? = y) : r = r' := by
      rw [(hiff y).2 hy r hr, (hiff y).2 hy r' hr']
    cases hdrawn : drawn s none calls with
    | nil => exact hall none (by rw [hdrawn]; simp)
    | cons d rest => exact hall _ fun d' hd' => h d' hd' d (hdrawn ▸ List.mem_cons_self)

end

/-- **Which sequences of calls select per service.** -/
theorem perService_iff {instances : String → List ι} {calls : List Selection}
    (hdisjoint : ∀ s s', s ≠ s' → List.Disjoint (instances s) (instances s'))
    (hdraw : ∀ c ∈ calls, c.draw < (instances c.serviceName).length) :
    PerService instances calls ↔ InStep instances calls ∧ Unmoved instances calls := by
  have hne : ∀ c ∈ calls, instances c.serviceName ≠ [] := fun c hc hnil => by
    have hlt := hdraw c hc
    rw [hnil] at hlt
    exact absurd hlt (Nat.not_lt_zero _)
  rw [← polling_iff hne, ← sticky_iff hdisjoint hdraw]
  exact ⟨fun h => ⟨h.polling, h.sticky⟩, fun h => ⟨h.1, h.2⟩⟩

theorem perService_turns : PerService (fun s => [(s, 0), (s, 1)])
    [⟨"a", .POLLING, 0⟩, ⟨"a", .POLLING, 0⟩, ⟨"b", .POLLING, 0⟩, ⟨"b", .POLLING, 0⟩,
      ⟨"a", .POLLING, 0⟩, ⟨"a", .STICKY, 1⟩, ⟨"b", .STICKY, 0⟩, ⟨"a", .STICKY, 1⟩] := by
  refine (perService_iff ?_ ?_).2 ⟨?_, ?_⟩
  · intro s s' hne x hx hx'
    simp at hx hx'
    have hs : x.1 = s := by rcases hx with rfl | rfl <;> rfl
    have hs' : x.1 = s' := by rcases hx' with rfl | rfl <;> rfl
    exact hne (hs.symm.trans hs')
  · decide
  · intro s i m hm
    have hearlier : m = i ∨ m = i + 2 := by
      by_cases ha : s = "a"
      · subst ha
        match i, hm with
        | 0, hm => exact .inl (Option.some.inj hm).symm
        | 1, hm => exact .inl (Option.some.inj hm).symm
        | 2, hm => exact .inr (Option.some.inj hm).symm
      · by_cases hb : s = "b"
        · subst hb
          match i, hm with
          | 0, hm => exact .inr (Option.some.inj hm).symm
          | 1, hm => exact .inr (Option.some.inj hm).symm
        · simp [earlier, Ne.symm ha, Ne.symm hb] at hm
    have hle : m < 2 ^ 31 := by
      have h := earlier_lt (List.mem_of_getElem? hm)
      simp at h
      omega
    rw [atIndex_ofNat _ hle, atIndex_ofNat _ (by omega)]
    rcases hearlier with rfl | rfl <;> simp
  · intro s d hd d' hd'
    have heq : d = d' := by
      by_cases ha : s = "a"
      · subst ha
        simp [drawn] at hd hd'
        omega
      · by_cases hb : s = "b" <;> simp_all [drawn, Ne.symm ha]
    rw [heq]

/-- A call for another service moves the index on. -/
theorem not_perService_between : ¬ PerService (fun s => [(s, 0), (s, 1)])
    [⟨"a", .POLLING, 0⟩, ⟨"b", .POLLING, 0⟩, ⟨"a", .POLLING, 0⟩] := fun h =>
  absurd (h.polling "a") (by decide)

end DiscoveryUtil

end BaseService.Schedule
