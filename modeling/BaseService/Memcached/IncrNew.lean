import BaseService.Data.Runs

/-!
# Concurrent calls of `incrNew`

A call increments the number of the key on a server, and sets it if the key is absent there.

* `Server` : the entry of the key, the calls whose `incr` has been answered, and those whose `set` is still
  to be executed;
* `Server.incrNew`, `Server.set` : the two commands of a call;
* `Step` : the commands of all calls, in any order;
* `Summed` : the number of the key is the sum of all amounts;
* `Undisturbed` : no `incr` is executed while a `set` is to come;
* `summed_iff` : the runs that end with the sum.
-/

namespace BaseService.Memcached
open Function (update)

/-- The arguments of a call. -/
structure Call where
  timeout : Int
  v : Nat

/-- The number that is stored under the key, and its expiration. -/
structure Entry where
  number : Nat
  exptime : Int

/-- `client.incr(key, n)`, on a number of 64 bits; -1 if the key is absent. -/
def incr (n : Nat) : Option Entry → Option Entry × Int
  | none => (none, -1)
  | some e =>
    let number := (e.number + n) % 2 ^ 64
    (some { e with number := number }, number)

/-- The arguments of `client.set` in a call. -/
def Call.entry (call : Call) : Entry :=
  ⟨call.v, if call.timeout = -1 then 0 else call.timeout⟩

/-- A server, for the calls `ι`. -/
structure Server (ι : Type) where
  entry : Option Entry
  /-- The calls whose `incr` has been answered. -/
  answered : Finset ι
  /-- The calls whose `set` has been sent, but not been executed. -/
  setting : Finset ι

namespace Server
variable {ι : Type} [DecidableEq ι]

def empty : Server ι := ⟨none, ∅, ∅⟩

/-- `incrNew(client, key, timeout, v)`; nothing waits for its `set`. -/
def incrNew (s : Server ι) (i : ι) (call : Call) : Server ι :=
  let (entry, ret) := incr call.v s.entry
  { entry := entry
    answered := insert i s.answered
    setting := if ret = -1 then insert i s.setting else s.setting }

def set (s : Server ι) (i : ι) (call : Call) : Server ι :=
  { s with entry := some call.entry, setting := s.setting.erase i }

/-- An absent key counts 0. -/
def number (s : Server ι) : Nat := (s.entry.map Entry.number).getD 0

end Server

/-- The fields `clientMaster` and `clientSlaver`. -/
inductive Client
  | clientMaster
  | clientSlaver
  deriving DecidableEq, Repr

structure SpyMemcachedFactory where
  failover : Bool
  /-- `clientSlaver != null`. -/
  clientSlaver : Bool

/-- The clients that a call uses. -/
def SpyMemcachedFactory.Uses (this : SpyMemcachedFactory) : Client → Prop
  | .clientMaster => True
  | .clientSlaver => this.failover = true ∧ this.clientSlaver = true

abbrev Servers (ι : Type) := Client → Server ι

namespace SpyMemcachedFactory

inductive Label (ι : Type)
  | incr (c : Client) (i : ι)
  | set (c : Client) (i : ι)

variable {ι : Type} [DecidableEq ι]

/-- The slave comes after the master. -/
def Reached (s : Servers ι) (i : ι) : Client → Prop
  | .clientMaster => True
  | .clientSlaver => i ∈ (s .clientMaster).answered

instance (s : Servers ι) (i : ι) : DecidablePred (Reached s i)
  | .clientMaster => .isTrue trivial
  | .clientSlaver => inferInstanceAs (Decidable (i ∈ (s .clientMaster).answered))

inductive Step (this : SpyMemcachedFactory) (calls : ι → Call) :
    Servers ι → Label ι → Servers ι → Prop
  | incr {s : Servers ι} {c : Client} {i : ι} :
    this.Uses c → Reached s i c → i ∉ (s c).answered →
      Step this calls s (.incr c i) (update s c ((s c).incrNew i (calls i)))
  | set {s : Servers ι} {c : Client} {i : ι} :
    i ∈ (s c).setting → Step this calls s (.set c i) (update s c ((s c).set i (calls i)))

def start : Servers ι := fun _ => .empty

/-- All calls have returned, and their commands have been executed. -/
def AtRest (this : SpyMemcachedFactory) (s : Servers ι) : Prop :=
  ∀ c, this.Uses c → (∀ i, i ∈ (s c).answered) ∧ (s c).setting = ∅

/-- The number of the key is the sum of all amounts, on each server that is used. -/
def Summed [Fintype ι] (this : SpyMemcachedFactory) (calls : ι → Call) (s : Servers ι) : Prop :=
  ∀ c, this.Uses c → (s c).number = ∑ i, (calls i).v

/-- No `incr` comes between an `incr` that has found the key absent and the `set` of its call. -/
def Undisturbed (s : Servers ι) : Label ι → Prop
  | .incr c _ => (s c).setting = ∅
  | .set _ _ => True

/-- The steps that are undisturbed. -/
def QuietStep (this : SpyMemcachedFactory) (calls : ι → Call) (s : Servers ι) (l : Label ι)
    (s' : Servers ι) : Prop :=
  Step this calls s l s' ∧ Undisturbed s l

end SpyMemcachedFactory

/-! ## One server -/

namespace Server
variable {ι : Type} [DecidableEq ι] {calls : ι → Call} {s : Server ι} {i : ι}

theorem incrNew_absent (h : s.entry = none) (call : Call) :
    s.incrNew i call = ⟨none, insert i s.answered, insert i s.setting⟩ := by
  rw [incrNew, h]
  rfl

theorem incrNew_present {e : Entry} (h : s.entry = some e) (call : Call) :
    s.incrNew i call =
      ⟨some { e with number := (e.number + call.v) % 2 ^ 64 }, insert i s.answered, s.setting⟩ := by
  have hret : (incr call.v (some e)).2 ≠ -1 := by
    show (((e.number + call.v) % 2 ^ 64 : Nat) : Int) ≠ -1
    omega
  rw [incrNew, h]
  show Server.mk _ _ (if (incr call.v (some e)).2 = -1 then _ else _) = _
  rw [if_neg hret]

/-- The number is the sum of the amounts so far, unless the first of them is still to be set. -/
inductive Counted (calls : ι → Call) (s : Server ι) : Prop
  | summed : s.setting = ∅ → s.number = ∑ i ∈ s.answered, (calls i).v →
      (s.entry = none → s.answered = ∅) → Counted calls s
  | setting (i : ι) : s.entry = none → s.setting = {i} → s.answered = {i} → Counted calls s

theorem Counted.incrNew (h : Counted calls s) (hi : i ∉ s.answered)
    (hlt : ∑ j ∈ insert i s.answered, (calls j).v < 2 ^ 64) (hquiet : s.setting = ∅) :
    Counted calls (s.incrNew i (calls i)) := by
  cases h with
  | summed _ hnumber habsent =>
    cases hentry : s.entry with
    | none =>
      rw [incrNew_absent hentry, habsent hentry, hquiet]
      exact .setting i rfl rfl rfl
    | some e =>
      have he : e.number = ∑ j ∈ s.answered, (calls j).v := by
        rw [← hnumber, number, hentry]
        rfl
      rw [incrNew_present hentry]
      refine .summed hquiet ?_ nofun
      rw [Finset.sum_insert hi] at hlt ⊢
      show (e.number + (calls i).v) % 2 ^ 64 = _
      rw [he, add_comm, Nat.mod_eq_of_lt hlt]
  | setting j _ hsetting _ =>
    rw [hsetting] at hquiet
    exact absurd hquiet (Finset.singleton_ne_empty j)

theorem Counted.set (h : Counted calls s) (hi : i ∈ s.setting) : Counted calls (s.set i (calls i)) := by
  cases h with
  | summed hsetting =>
    rw [hsetting] at hi
    exact absurd hi (Finset.notMem_empty i)
  | setting j _ hsetting hanswered =>
    rw [hsetting, Finset.mem_singleton] at hi
    subst hi
    refine .summed ?_ ?_ nofun
    · show s.setting.erase i = ∅
      rw [hsetting, Finset.erase_singleton]
    · show (calls i).v = ∑ j ∈ s.answered, (calls j).v
      rw [hanswered, Finset.sum_singleton]

/-- An amount is lost, or will be: at least two calls have found the key absent. -/
structure Lossy (calls : ι → Call) (s : Server ι) : Prop where
  subset : s.setting ⊆ s.answered
  absent : s.entry = none → s.setting = s.answered ∧ s.setting.Nontrivial
  present {e : Entry} : s.entry = some e → (s.answered \ s.setting).Nonempty ∧
    e.number ≤ ∑ i ∈ s.answered \ s.setting, (calls i).v ∧
    (s.setting = ∅ → e.number < ∑ i ∈ s.answered, (calls i).v)

/-- A second call finds the key absent. -/
theorem Counted.lossy (h : Counted calls s) (hi : i ∉ s.answered) (hdisturbed : s.setting ≠ ∅) :
    Lossy calls (s.incrNew i (calls i)) := by
  cases h with
  | summed hsetting => exact absurd hsetting hdisturbed
  | setting j hentry hsetting hanswered =>
    have hne : i ≠ j := by
      rintro rfl
      exact hi (hanswered ▸ Finset.mem_singleton_self i)
    rw [incrNew_absent hentry, hsetting, hanswered]
    refine ⟨Finset.Subset.refl _, fun _ => ⟨rfl, ?_⟩, nofun⟩
    exact ⟨i, Finset.mem_insert_self .., j, Finset.mem_insert_of_mem (Finset.mem_singleton_self j), hne⟩

theorem Lossy.incrNew (h : Lossy calls s) (hi : i ∉ s.answered) :
    Lossy calls (s.incrNew i (calls i)) := by
  cases hentry : s.entry with
  | none =>
    obtain ⟨heq, hnontrivial⟩ := h.absent hentry
    rw [incrNew_absent hentry]
    refine ⟨Finset.insert_subset_insert i h.subset, fun _ => ⟨congrArg (insert i) heq, ?_⟩, nofun⟩
    exact hnontrivial.mono (Finset.coe_subset.2 (Finset.subset_insert i s.setting))
  | some e =>
    obtain ⟨hnonempty, hle, hlt⟩ := h.present hentry
    have hsetting : i ∉ s.setting := fun hmem => hi (h.subset hmem)
    have hmod : (e.number + (calls i).v) % 2 ^ 64 ≤ (calls i).v + e.number :=
      (Nat.mod_le _ _).trans_eq (add_comm _ _)
    rw [incrNew_present hentry]
    refine ⟨h.subset.trans (Finset.subset_insert i s.answered), nofun, fun he => ?_⟩
    cases he
    show (insert i s.answered \ s.setting).Nonempty ∧
      _ ≤ ∑ j ∈ insert i s.answered \ s.setting, (calls j).v ∧
      (s.setting = ∅ → _ < ∑ j ∈ insert i s.answered, (calls j).v)
    rw [Finset.insert_sdiff_of_notMem _ hsetting,
      Finset.sum_insert fun hmem => hi (Finset.mem_sdiff.1 hmem).1, Finset.sum_insert hi]
    exact ⟨Finset.insert_nonempty i _, hmod.trans (Nat.add_le_add_left hle _),
      fun hempty => hmod.trans_lt (Nat.add_lt_add_left (hlt hempty) _)⟩

theorem Lossy.set (h : Lossy calls s) (hpos : ∀ i, 0 < (calls i).v) (hi : i ∈ s.setting) :
    Lossy calls (s.set i (calls i)) := by
  have hsum : ∑ j ∈ s.answered \ s.setting.erase i, (calls j).v =
      (calls i).v + ∑ j ∈ s.answered \ s.setting, (calls j).v := by
    rw [Finset.sdiff_erase (h.subset hi), Finset.sum_insert fun hmem => (Finset.mem_sdiff.1 hmem).2 hi]
  refine ⟨(Finset.erase_subset i s.setting).trans h.subset, nofun, fun he => ?_⟩
  cases he
  refine ⟨⟨i, Finset.mem_sdiff.2 ⟨h.subset hi, Finset.notMem_erase i s.setting⟩⟩, ?_, fun hempty => ?_⟩
  · exact (Nat.le_add_right _ _).trans_eq hsum.symm
  · have hempty : s.setting.erase i = ∅ := hempty
    rw [hempty, Finset.sdiff_empty] at hsum
    show (calls i).v < ∑ j ∈ s.answered, (calls j).v
    cases hentry : s.entry with
    | none =>
      rcases (Finset.erase_eq_empty_iff _ _).1 hempty with heq | heq
      · exact absurd (heq ▸ hi) (Finset.notMem_empty i)
      · exact absurd (h.absent hentry).2 (heq ▸ Finset.not_nontrivial_singleton)
    | some e =>
      have hlost : 0 < ∑ j ∈ s.answered \ s.setting, (calls j).v :=
        Finset.sum_pos (fun j _ => hpos j) (h.present hentry).1
      omega

/-- The numbers have 64 bits. -/
def Fits (s : Server ι) : Prop := s.number < 2 ^ 64

theorem fits_incrNew (s : Server ι) (i : ι) (call : Call) : (s.incrNew i call).Fits := by
  cases hentry : s.entry with
  | none =>
    rw [incrNew_absent hentry]
    exact Nat.two_pow_pos 64
  | some e =>
    rw [incrNew_present hentry]
    exact Nat.mod_lt _ (Nat.two_pow_pos 64)

theorem fits_set {call : Call} (h : call.v < 2 ^ 64) (s : Server ι) (i : ι) : (s.set i call).Fits := h

end Server

/-! ## Runs -/

namespace SpyMemcachedFactory
variable {ι : Type} [DecidableEq ι] {this : SpyMemcachedFactory} {calls : ι → Call}
  {s s' : Servers ι} {ls : List (Label ι)} {l : Label ι}

/-- What the two commands keep on a server, the steps do. -/
theorem Step.server {P : Server ι → Prop} (hs : Step this calls s l s') {c : Client} (h : P (s c))
    (hincr : ∀ i, l = .incr c i → i ∉ (s c).answered → P ((s c).incrNew i (calls i)))
    (hset : ∀ i, i ∈ (s c).setting → P ((s c).set i (calls i))) : P (s' c) := by
  cases hs with
  | @incr c' i _ _ hi =>
    rw [Function.update_apply]
    split
    · next heq =>
      subst heq
      exact hincr i rfl hi
    · exact h
  | @set c' i hi =>
    rw [Function.update_apply]
    split
    · next heq =>
      subst heq
      exact hset i hi
    · exact h

theorem fits_of_run (hcalls : ∀ i, (calls i).v < 2 ^ 64) (h : Run (Step this calls) start ls s) :
    ∀ c, (s c).Fits := by
  refine h.invariant (I := fun s => ∀ c, (s c).Fits) (fun c => Nat.two_pow_pos 64) fun s l s' hi hs => ?_
  exact fun c => hs.server (hi c) (fun i _ _ => Server.fits_incrNew (s c) i (calls i))
    fun i _ => Server.fits_set (hcalls i) (s c) i

section
variable [Fintype ι]

omit [DecidableEq ι] in
theorem sum_lt (hlt : ∑ i, (calls i).v < 2 ^ 64) (t : Finset ι) : ∑ i ∈ t, (calls i).v < 2 ^ 64 :=
  (Finset.sum_le_sum_of_subset (Finset.subset_univ t)).trans_lt hlt

theorem QuietStep.counted (hlt : ∑ i, (calls i).v < 2 ^ 64) (h : ∀ c, (s c).Counted calls)
    (hs : QuietStep this calls s l s') (c : Client) : (s' c).Counted calls := by
  refine hs.1.server (h c) (fun i hl hi => ?_) fun i hi => (h c).set hi
  have hquiet : Undisturbed s (.incr c i) := hl ▸ hs.2
  exact (h c).incrNew hi (sum_lt hlt _) hquiet

theorem counted_of_run (hlt : ∑ i, (calls i).v < 2 ^ 64)
    (h : Run (QuietStep this calls) start ls s) : ∀ c, (s c).Counted calls :=
  h.invariant (fun _ => .summed rfl rfl fun _ => rfl) fun _ _ _ hi hs => hs.counted hlt hi

/-- A run is quiet until an amount is lost on a server that is used. -/
theorem quiet_or_lossy (hpos : ∀ i, 0 < (calls i).v) (hlt : ∑ i, (calls i).v < 2 ^ 64)
    (h : Run (Step this calls) start ls s) :
    Run (QuietStep this calls) start ls s ∨ ∃ c, this.Uses c ∧ (s c).Lossy calls := by
  refine h.history (I := fun ls s => Run (QuietStep this calls) start ls s ∨
    ∃ c, this.Uses c ∧ (s c).Lossy calls) (.inl .nil) fun ls s l s' hi hs => ?_
  rcases hi with hrun | ⟨c, huses, hlossy⟩
  · by_cases hquiet : Undisturbed s l
    · exact .inl (hrun.snoc ⟨hs, hquiet⟩)
    · right
      cases hs with
      | @incr c i huses _ hi =>
        refine ⟨c, huses, ?_⟩
        rw [Function.update_self]
        exact (counted_of_run hlt hrun c).lossy hi hquiet
      | set => exact absurd trivial hquiet
  · right
    exact ⟨c, huses, hs.server hlossy (fun i _ hi => hlossy.incrNew hi) fun i hi => hlossy.set hpos hi⟩

/-- **The runs that end with the sum**: those in which no call finds the key absent, or another number,
while a `set` is to come, if the sum has 64 bits. -/
theorem summed_iff (hcalls : ∀ i, 0 < (calls i).v ∧ (calls i).v < 2 ^ 31)
    (h : Run (Step this calls) start ls s) (hrest : this.AtRest s) :
    this.Summed calls s ↔
      ∑ i, (calls i).v < 2 ^ 64 ∧ Run (QuietStep this calls) start ls s := by
  have hanswered {c : Client} (huses : this.Uses c) : (s c).answered = Finset.univ :=
    Finset.eq_univ_of_forall (hrest c huses).1
  constructor
  · intro hsummed
    have hlt : ∑ i, (calls i).v < 2 ^ 64 := by
      rw [← hsummed .clientMaster trivial]
      exact fits_of_run (fun i => (hcalls i).2.trans (by decide)) h .clientMaster
    refine ⟨hlt, (quiet_or_lossy (fun i => (hcalls i).1) hlt h).resolve_right ?_⟩
    rintro ⟨c, huses, hlossy⟩
    have hsetting := (hrest c huses).2
    have hnumber := hsummed c huses
    cases hentry : (s c).entry with
    | none =>
      have hnontrivial := (hlossy.absent hentry).2
      rw [hsetting] at hnontrivial
      exact Finset.not_nontrivial_empty hnontrivial
    | some e =>
      have hlost := (hlossy.present hentry).2.2 hsetting
      rw [Server.number, hentry] at hnumber
      rw [hanswered huses] at hlost
      exact hlost.ne hnumber
  · rintro ⟨hlt, hrun⟩ c huses
    cases counted_of_run hlt hrun c with
    | summed _ hnumber => rw [hnumber, hanswered huses]
    | setting i _ hsetting _ =>
      rw [(hrest c huses).2] at hsetting
      exact absurd hsetting.symm (Finset.singleton_ne_empty i)

end

theorem step_of_quiet (h : Run (QuietStep this calls) start ls s) : Run (Step this calls) start ls s :=
  (h.simulate (I := fun _ => True) (f := id) _ trivial fun _ _ _ _ hs => ⟨trivial, hs.1⟩).2

/-- The second call comes when the first has set the number on both servers. -/
theorem summed_in_turn :
    ∃ s, Run (Step ⟨true, true⟩ fun i : Bool => ⟨-1, if i then 3 else 5⟩) start
        [.incr .clientMaster true, .set .clientMaster true, .incr .clientSlaver true,
          .set .clientSlaver true, .incr .clientMaster false, .incr .clientSlaver false] s ∧
      Summed ⟨true, true⟩ (fun i : Bool => ⟨-1, if i then 3 else 5⟩) s := by
  have h₁ : Run (QuietStep ⟨true, true⟩ fun i : Bool => ⟨-1, if i then 3 else 5⟩) start _ _ :=
    .single ⟨.incr (c := .clientMaster) (i := true) trivial trivial (by decide), rfl⟩
  have h₂ := h₁.snoc ⟨.set (c := .clientMaster) (i := true) (by decide), trivial⟩
  have h₃ := h₂.snoc ⟨.incr (c := .clientSlaver) (i := true) ⟨rfl, rfl⟩ (by decide) (by decide), rfl⟩
  have h₄ := h₃.snoc ⟨.set (c := .clientSlaver) (i := true) (by decide), trivial⟩
  have h₅ := h₄.snoc ⟨.incr (c := .clientMaster) (i := false) trivial trivial (by decide), rfl⟩
  have h₆ := h₅.snoc ⟨.incr (c := .clientSlaver) (i := false) ⟨rfl, rfl⟩ (by decide) (by decide), rfl⟩
  refine ⟨_, step_of_quiet h₆, (summed_iff (by decide) (step_of_quiet h₆) ?_).2 ⟨by decide, h₆⟩⟩
  intro c _
  cases c <;> decide

/-- Both calls find the key absent. -/
theorem not_summed_concurrent :
    ¬ ∀ (ls : List (Label Bool)) (s : Servers Bool),
      Run (Step ⟨false, false⟩ fun _ => ⟨-1, 1⟩) start ls s → AtRest ⟨false, false⟩ s →
        Summed ⟨false, false⟩ (fun _ => ⟨-1, 1⟩) s := by
  intro h
  have h₁ : Run (Step ⟨false, false⟩ fun _ : Bool => ⟨-1, 1⟩) start _ _ :=
    .single (.incr (c := .clientMaster) (i := true) trivial trivial (by decide))
  have h₂ := h₁.snoc (.incr (c := .clientMaster) (i := false) trivial trivial (by decide))
  have h₃ := h₂.snoc (.set (c := .clientMaster) (i := true) (by decide))
  have h₄ := h₃.snoc (.set (c := .clientMaster) (i := false) (by decide))
  refine absurd (h _ _ h₄ (fun c hc => ?_) .clientMaster trivial) (by decide)
  cases c with
  | clientMaster => decide
  | clientSlaver => cases hc.1

end SpyMemcachedFactory

end BaseService.Memcached
