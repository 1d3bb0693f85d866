import BaseService.LocalCache.Values

/-!
# Threads that share a `TimedCache`

Each call of `LruCache` is one step of a thread; between two of them the other threads run.

* `Pc` : where a thread is inside a method; `Move` : its next step;
* `get_moves` : the steps of a `get` that nobody interrupts are the method;
* `Threads.Step` : a step of one thread, or of the clock;
* `Threads.Undisturbed` : the last value put is neither replaced, removed nor evicted, its deadline
  is not over and its group is current;
* `fresh_kept` : **the last value put is answered if every `get` that removes the key removes the
  entry that it has read.**
-/

namespace BaseService.LocalCache
open Function (update)

/-- Where a thread is. -/
inductive Pc (K : Type)
  | idle
  /-- `get` has the entry that `_cache.get` has answered. -/
  | found (k : K) (r : Ref)
  /-- `getGroup` in `get`: `_groupCache.get` has answered null. -/
  | missing (k : K) (r : Ref) (name : String)
  /-- `get` has the current group. -/
  | grouped (k : K) (r : Ref) (group : CacheGroup)
  /-- `get` is about to call `_cache.remove(key)`. -/
  | removing (k : K) (r : Ref)
  /-- `expireInterval` has the entry. -/
  | touching (r : Ref) (expireInterval : Int64)
  /-- `getGroup`: `_groupCache.get` has answered null. -/
  | grouping (name : String)

inductive Act (K V : Type)
  | put (k : K) (v : Option V) (g : Option CacheGroup) (created : Int64)
  | looked (k : K)
  | groupLooked (name : String)
  | groupPut (g : CacheGroup)
  | judged (k : K) (r : Ref)
  | dropped (k : K) (r : Ref)
  | touched (r : Ref)
  | removed (k : K)
  | removedAll
  | ticked (clock : Int64)

/-- The entry that a thread has in its hands. -/
def Pc.ref {K : Type} : Pc K → Option Ref
  | .found _ r | .missing _ r _ | .grouped _ r _ | .removing _ r | .touching r _ => some r
  | .idle | .grouping _ => none

section
variable {K V : Type} [DecidableEq K] [HashCode K]

/-- The next step of a thread when the clock shows `clock`. Objects are created before they are
put, so that their time may be an earlier one. -/
inductive Move (clock : Int64) :
    TimedCache K V × Pc K → Act K V → TimedCache K V × Pc K → Prop
  | put {t t' : TimedCache K V} {k : K} {v old : Option V} {g : Option CacheGroup}
    {created : Int64} :
    created ≤ clock → t.put k v g created = some (t', old) →
      Move clock (t, .idle) (.put k v g created) (t', .idle)
  | miss {t : TimedCache K V} {k : K} {c : LruCache K Ref} :
    t.cache.get k = some (c, none) →
      Move clock (t, .idle) (.looked k) ({ t with cache := c }, .idle)
  | found {t : TimedCache K V} {k : K} {c : LruCache K Ref} {r : Ref} :
    t.cache.get k = some (c, some r) →
      Move clock (t, .idle) (.looked k) ({ t with cache := c }, .found k r)
  | foundToTouch {t : TimedCache K V} {k : K} {c : LruCache K Ref} {r : Ref} {d : Int64} :
    t.cache.get k = some (c, some r) →
      Move clock (t, .idle) (.looked k) ({ t with cache := c }, .touching r d)
  | touch {t : TimedCache K V} {r : Ref} {d : Int64} :
    Move clock (t, .touching r d) (.touched r) (t.setExpireInterval r d clock, .idle)
  -- `_groupCache` is null
  | thrown {t : TimedCache K V} {k : K} {r : Ref} {g : CacheGroup} :
    (t.entry r).group = some g → t.groupCache = none →
      Move clock (t, .found k r) (.groupLooked g.group) (t, .idle)
  | current {t : TimedCache K V} {k : K} {r : Ref} {g group : CacheGroup}
    {c c' : LruCache String CacheGroup} :
    (t.entry r).group = some g → t.groupCache = some c → c.get g.group = some (c', some group) →
      Move clock (t, .found k r) (.groupLooked g.group)
        ({ t with groupCache := some c' }, .grouped k r group)
  | noGroup {t : TimedCache K V} {k : K} {r : Ref} {g : CacheGroup}
    {c c' : LruCache String CacheGroup} :
    (t.entry r).group = some g → t.groupCache = some c → c.get g.group = some (c', none) →
      Move clock (t, .found k r) (.groupLooked g.group)
        ({ t with groupCache := some c' }, .missing k r g.group)
  | makeGroup {t : TimedCache K V} {k : K} {r : Ref} {name : String} {created : Int64}
    {c c' : LruCache String CacheGroup} {old : Option CacheGroup} :
    created ≤ clock → t.groupCache = some c → c.put name ⟨name, created⟩ = some (c', old) →
      Move clock (t, .missing k r name) (.groupPut ⟨name, created⟩)
        ({ t with groupCache := some c' }, .grouped k r ⟨name, created⟩)
  | validPlain {t : TimedCache K V} {k : K} {r : Ref} :
    (t.entry r).group = none → (t.entry r).isValid clock →
      Move clock (t, .found k r) (.judged k r) (t, .idle)
  | invalidPlain {t : TimedCache K V} {k : K} {r : Ref} :
    (t.entry r).group = none → ¬ (t.entry r).isValid clock →
      Move clock (t, .found k r) (.judged k r) (t, .removing k r)
  | valid {t : TimedCache K V} {k : K} {r : Ref} {group : CacheGroup} :
    (t.entry r).isValid clock ∧ (t.entry r).isValidGroup group clock →
      Move clock (t, .grouped k r group) (.judged k r) (t, .idle)
  | invalid {t : TimedCache K V} {k : K} {r : Ref} {group : CacheGroup} :
    ¬ ((t.entry r).isValid clock ∧ (t.entry r).isValidGroup group clock) →
      Move clock (t, .grouped k r group) (.judged k r) (t, .removing k r)
  | drop {t t' : TimedCache K V} {k : K} {r : Ref} {o : Outcome (Option V)} :
    t.drop k = some (t', o) → Move clock (t, .removing k r) (.dropped k r) (t', .idle)
  | remove {t t' : TimedCache K V} {k : K} {v : Option V} :
    t.remove k = some (t', v) → Move clock (t, .idle) (.removed k) (t', .idle)
  | removeAll {t t' : TimedCache K V} :
    t.removeAll = some t' → Move clock (t, .idle) .removedAll (t', .idle)
  | refrush {t t' : TimedCache K V} {name : String} {created : Int64} {o : Outcome Unit} :
    created ≤ clock → t.refrushGroup name created = some (t', o) →
      Move clock (t, .idle) (.groupPut ⟨name, created⟩) (t', .idle)
  | groupThrown {t : TimedCache K V} {name : String} :
    t.groupCache = none → Move clock (t, .idle) (.groupLooked name) (t, .idle)
  | groupFound {t : TimedCache K V} {name : String} {group : CacheGroup}
    {c c' : LruCache String CacheGroup} :
    t.groupCache = some c → c.get name = some (c', some group) →
      Move clock (t, .idle) (.groupLooked name) ({ t with groupCache := some c' }, .idle)
  | groupMissing {t : TimedCache K V} {name : String} {c c' : LruCache String CacheGroup} :
    t.groupCache = some c → c.get name = some (c', none) →
      Move clock (t, .idle) (.groupLooked name) ({ t with groupCache := some c' }, .grouping name)
  | groupMake {t : TimedCache K V} {name : String} {created : Int64}
    {c c' : LruCache String CacheGroup} {old : Option CacheGroup} :
    created ≤ clock → t.groupCache = some c → c.put name ⟨name, created⟩ = some (c', old) →
      Move clock (t, .grouping name) (.groupPut ⟨name, created⟩)
        ({ t with groupCache := some c' }, .idle)

namespace TimedCache
variable {t t' : TimedCache K V} {k : K} {clock groupNow : Int64}

/-- The verdict of a `get`, and the removal that follows it. -/
theorem verdict_moves (u : TimedCache K V) (pc : Pc K) (r : Ref) {v : Option V} {p : Prop}
    [Decidable p] {o : Outcome (Option V)}
    (hvalid : p → Move clock (u, pc) (.judged k r) (u, .idle))
    (hinvalid : ¬ p → Move clock (u, pc) (.judged k r) (u, .removing k r))
    (h : (if p then some (u, .ok v) else u.drop k) = some (t', o)) :
    ∃ es, Run (Move clock) (u, pc) es (t', .idle) := by
  split at h
  · next hp =>
    cases h
    exact ⟨_, .single (hvalid hp)⟩
  · next hp => exact ⟨_, (Run.single (hinvalid hp)).snoc (.drop h)⟩

/-- A `get` that nobody interrupts. -/
theorem get_moves {o : Outcome (Option V)} (hclock : groupNow ≤ clock)
    (h : t.get k groupNow clock = some (t', o)) :
    ∃ es, Run (Move clock) (t, .idle) es (t', .idle) := by
  unfold get at h
  obtain ⟨⟨c, entry⟩, hget, h⟩ := Option.bind_eq_some_iff.mp h
  cases entry with
  | none =>
    cases h
    exact ⟨_, .single (.miss hget)⟩
  | some r =>
    let u : TimedCache K V := { t with cache := c }
    have hfound : Run (Move clock) (t, .idle) [.looked k] (u, .found k r) :=
      .single (.found hget)
    dsimp only at h
    cases hgroup : (t.entry r).group with
    | none =>
      simp only [hgroup] at h
      obtain ⟨es, hrun⟩ := verdict_moves u (.found k r) r
        (.validPlain hgroup) (.invalidPlain hgroup) h
      exact ⟨_, hfound.append hrun⟩
    | some g =>
      simp only [hgroup] at h
      obtain ⟨⟨u₁, group⟩, hg, h⟩ := Option.bind_eq_some_iff.mp h
      cases hc : t.groupCache with
      | none =>
        have hthrown : u.getGroup g.group groupNow = some (u, .error .nullPointer) := by
          simp [getGroup, u, hc]
        cases hthrown.symm.trans hg
        cases h
        exact ⟨_, hfound.snoc (.thrown hgroup hc)⟩
      | some gc =>
        unfold getGroup at hg
        simp only [hc] at hg
        obtain ⟨⟨gc₁, group₁⟩, hlook, hg⟩ := Option.bind_eq_some_iff.mp hg
        cases group₁ with
        | some group₁ =>
          cases hg
          obtain ⟨es, hrun⟩ := verdict_moves { u with groupCache := some gc₁ }
            (.grouped k r group₁) r .valid .invalid h
          exact ⟨_, (hfound.snoc (.current hgroup hc hlook)).append hrun⟩
        | none =>
          obtain ⟨⟨gc₂, old⟩, hput, hg⟩ := Option.bind_eq_some_iff.mp hg
          cases hg
          obtain ⟨es, hrun⟩ := verdict_moves { u with groupCache := some gc₂ }
            (.grouped k r ⟨g.group, groupNow⟩) r .valid .invalid h
          exact ⟨_, ((hfound.snoc (.noGroup hgroup hc hlook)).snoc
            (.makeGroup hclock rfl hput)).append hrun⟩

end TimedCache

namespace LruCache
variable {A : Type} {s s' : LruCache K A} {k : K} {o : Option A}

theorem get_inv (h : s.Inv) (hs : s.get k = some (s', o)) :
    o = s.lookup k ∧ s'.Inv ∧ ∀ k', s'.lookup k' = s.lookup k' := by
  obtain ⟨s₁, hget, hi, hl⟩ := get_spec h k
  cases hget.symm.trans hs
  exact ⟨rfl, hi, hl⟩

end LruCache

/-! ## What a move keeps -/

theorem TimedCache.Inv.remove {t : TimedCache K V} {k : K} {c : LruCache K Ref} {o : Option Ref}
    (h : t.Inv) (hs : t.cache.remove k = some (c, o)) :
    TimedCache.Inv { t with cache := c } ∧ ∀ k', k' ≠ k → c.lookup k' = t.cache.lookup k' := by
  obtain ⟨c₁, hr, hc, hl⟩ := LruCache.remove_spec h.cache k
  cases hr.symm.trans hs
  refine ⟨h.shrink hc (fun k' r hr => ?_), fun k' hk => by rw [hl, if_neg hk]⟩
  rw [hl] at hr
  split at hr
  · cases hr
  · exact hr

/-- A `put` creates one entry and leaves the others. -/
theorem TimedCache.put_inv {t t' : TimedCache K V} {k : K} {v o : Option V} {g : Option CacheGroup}
    {now : Int64} (h : t.put k v g now = some (t', o)) :
    t'.allocated = t.allocated + 1 ∧ ∀ r < t.allocated, t'.entry r = t.entry r := by
  unfold TimedCache.put at h
  obtain ⟨⟨c, o⟩, -, h⟩ := Option.bind_eq_some_iff.mp h
  cases h
  exact ⟨rfl, fun r hr => Function.update_of_ne (Nat.ne_of_lt hr) ..⟩

omit [DecidableEq K] [HashCode K] in
/-- `refrushGroup` changes the groups alone. -/
theorem TimedCache.refrushGroup_inv {t t' : TimedCache K V} {name : String} {now : Int64}
    {o : Outcome Unit} (h : t.refrushGroup name now = some (t', o)) :
    t'.allocated = t.allocated ∧ t'.cache = t.cache ∧ t'.entry = t.entry := by
  unfold TimedCache.refrushGroup at h
  split at h
  · cases h
    exact ⟨rfl, rfl, rfl⟩
  · obtain ⟨⟨c, o⟩, -, h⟩ := Option.bind_eq_some_iff.mp h
    cases h
    exact ⟨rfl, rfl, rfl⟩

/-- The removal of a key, whatever is returned for it. -/
theorem TimedCache.drop_inv {t t' : TimedCache K V} {k : K} {o : Outcome (Option V)} (hi : t.Inv)
    (h : t.drop k = some (t', o)) : t'.Inv ∧ t'.allocated = t.allocated ∧ t'.entry = t.entry ∧
      ∀ k', k' ≠ k → t'.cache.lookup k' = t.cache.lookup k' := by
  obtain ⟨⟨c, o⟩, hremove, h⟩ := Option.bind_eq_some_iff.mp h
  cases h
  obtain ⟨hi', hl⟩ := hi.remove hremove
  exact ⟨hi', rfl, rfl, hl⟩

theorem TimedCache.remove_inv {t t' : TimedCache K V} {k : K} {v : Option V} (hi : t.Inv)
    (h : t.remove k = some (t', v)) : t'.Inv ∧ t'.allocated = t.allocated ∧ t'.entry = t.entry ∧
      ∀ k', k' ≠ k → t'.cache.lookup k' = t.cache.lookup k' := by
  obtain ⟨⟨c, o⟩, hremove, h⟩ := Option.bind_eq_some_iff.mp h
  cases h
  obtain ⟨hi', hl⟩ := hi.remove hremove
  exact ⟨hi', rfl, rfl, hl⟩

omit [DecidableEq K] [HashCode K] in
theorem TimedCache.touched_group (t : TimedCache K V) (r r' : Ref) (d now : Int64) :
    ((t.setExpireInterval r' d now).entry r).group = (t.entry r).group := by
  unfold TimedCache.setExpireInterval
  by_cases h : r = r'
  · subst h
    simp [Entry.setExpireInterval]
  · simp [h]

omit [DecidableEq K] [HashCode K] in
theorem TimedCache.touched_value (t : TimedCache K V) (r r' : Ref) (d now : Int64) :
    ((t.setExpireInterval r' d now).entry r).value = (t.entry r).value := by
  unfold TimedCache.setExpireInterval
  by_cases h : r = r'
  · subst h
    simp [Entry.setExpireInterval]
  · simp [h]

/-- The group of an entry, if it has one, is the current one of its name. -/
def TimedCache.Current (t : TimedCache K V) (e : Entry V) : Prop :=
  ∀ g, e.group = some g → ∃ c, t.groupCache = some c ∧ c.lookup g.group = some g

/-- A thread is not on its way to remove the key of the entry behind `r`. -/
def Pc.Harmless (t : TimedCache K V) (r : Ref) : Pc K → Prop
  | .missing _ r' _ | .removing _ r' => r' ≠ r
  | .grouped _ r' group => r' = r → (t.entry r).group = some group
  | _ => True

/-- The references that a thread and the cache know are those of created entries. -/
structure Move.Sound (t : TimedCache K V) (pc : Pc K) : Prop where
  inv : t.Inv
  ref : ∀ r, pc.ref = some r → r < t.allocated

namespace Move
variable {clock : Int64} {t t' : TimedCache K V} {pc pc' : Pc K} {e : Act K V} {k : K} {r : Ref}

theorem sound (h : Move clock (t, pc) e (t', pc')) (hs : Sound t pc) :
    Sound t' pc' ∧ t.allocated ≤ t'.allocated := by
  obtain ⟨hi, href⟩ := hs
  have hidle : ∀ {t' : TimedCache K V}, t'.Inv → t.allocated ≤ t'.allocated →
      Sound t' (.idle : Pc K) ∧ t.allocated ≤ t'.allocated :=
    fun hi ha => ⟨⟨hi, fun _ h => by cases h⟩, ha⟩
  cases h with
  | put _ hrun =>
    refine hidle (TimedCache.put_refines hi hrun).1 ?_
    rw [(TimedCache.put_inv hrun).1]
    exact Nat.le_succ _
  | miss hrun =>
    obtain ⟨-, hc, hl⟩ := LruCache.get_inv hi.cache hrun
    exact hidle (hi.same hc hl) le_rfl
  | found hrun =>
    obtain ⟨ho, hc, hl⟩ := LruCache.get_inv hi.cache hrun
    refine ⟨⟨hi.same hc hl, fun r hr => ?_⟩, le_rfl⟩
    cases hr
    exact hi.fresh _ _ ho.symm
  | foundToTouch hrun =>
    obtain ⟨ho, hc, hl⟩ := LruCache.get_inv hi.cache hrun
    refine ⟨⟨hi.same hc hl, fun r hr => ?_⟩, le_rfl⟩
    cases hr
    exact hi.fresh _ _ ho.symm
  | touch => exact hidle (hi.setExpireInterval _ _ _) le_rfl
  | thrown _ hg => exact hidle hi le_rfl
  | current _ hg hrun =>
    obtain ⟨-, hc, -⟩ := LruCache.get_inv (hi.groupCache _ hg) hrun
    exact ⟨⟨hi.setGroupCache hc, href⟩, le_rfl⟩
  | noGroup _ hg hrun =>
    obtain ⟨-, hc, -⟩ := LruCache.get_inv (hi.groupCache _ hg) hrun
    exact ⟨⟨hi.setGroupCache hc, href⟩, le_rfl⟩
  | makeGroup _ hg hrun =>
    have hc := (LruCache.put_spec (hi.groupCache _ hg) hrun).1
    exact ⟨⟨hi.setGroupCache hc, href⟩, le_rfl⟩
  | validPlain => exact hidle hi le_rfl
  | invalidPlain => exact ⟨⟨hi, href⟩, le_rfl⟩
  | valid => exact hidle hi le_rfl
  | invalid => exact ⟨⟨hi, href⟩, le_rfl⟩
  | drop hrun =>
    obtain ⟨hi', hallocated, -⟩ := TimedCache.drop_inv hi hrun
    exact hidle hi' hallocated.ge
  | remove hrun =>
    obtain ⟨hi', hallocated, -⟩ := TimedCache.remove_inv hi hrun
    exact hidle hi' hallocated.ge
  | removeAll hrun =>
    obtain ⟨t₁, hr, hinv, -⟩ := TimedCache.removeAll_spec hi
    cases hr.symm.trans hrun
    refine hidle hinv ?_
    obtain ⟨c, -, hrun⟩ := Option.bind_eq_some_iff.mp hrun
    cases hrun
    exact le_rfl
  | refrush _ hrun =>
    refine hidle (TimedCache.refrushGroup_refines hi hrun).1 ?_
    exact (TimedCache.refrushGroup_inv hrun).1.ge
  | groupThrown => exact hidle hi le_rfl
  | groupFound hg hrun =>
    obtain ⟨-, hc, -⟩ := LruCache.get_inv (hi.groupCache _ hg) hrun
    exact hidle (hi.setGroupCache hc) le_rfl
  | groupMissing hg hrun =>
    obtain ⟨-, hc, -⟩ := LruCache.get_inv (hi.groupCache _ hg) hrun
    exact ⟨⟨hi.setGroupCache hc, fun _ h => by cases h⟩, le_rfl⟩
  | groupMake _ hg hrun =>
    have hc := (LruCache.put_spec (hi.groupCache _ hg) hrun).1
    exact hidle (hi.setGroupCache hc) le_rfl

/-- **An entry that is live stays** unless its key is put, removed or evicted, or a `get` removes
it that has read another entry. -/
theorem keeps (h : Move clock (t, pc) e (t', pc')) (hs : Sound t pc)
    (hk : t.cache.lookup k = some r) (hpc : pc.Harmless t r)
    (hvalid : (t.entry r).isValid clock = true) (hcurrent : t.Current (t.entry r))
    (hput : ∀ v g created, e ≠ .put k v g created) (hremoved : e ≠ .removed k)
    (hremovedAll : e ≠ .removedAll)
    (hevicted : ∀ k' v g created, e = .put k' v g created →
      t'.cache.lookup k = t.cache.lookup k)
    (hown : ∀ r', e = .dropped k r' → t.cache.lookup k = some r' ∨ t.cache.lookup k = none) :
    t'.cache.lookup k = some r ∧ (t'.entry r).group = (t.entry r).group ∧
      (t'.entry r).value = (t.entry r).value ∧ pc'.Harmless t' r := by
  obtain ⟨hi, href⟩ := hs
  have hr := hi.fresh k r hk
  cases h with
  | @put _ _ k' v o g created _ hrun =>
    have hl := hevicted _ _ _ _ rfl
    have he := (TimedCache.put_inv hrun).2 r hr
    exact ⟨hl.trans hk, congrArg Entry.group he, congrArg Entry.value he, trivial⟩
  | miss hrun =>
    obtain ⟨-, -, hl⟩ := LruCache.get_inv hi.cache hrun
    exact ⟨(hl k).trans hk, rfl, rfl, trivial⟩
  | found hrun =>
    obtain ⟨-, -, hl⟩ := LruCache.get_inv hi.cache hrun
    exact ⟨(hl k).trans hk, rfl, rfl, trivial⟩
  | foundToTouch hrun =>
    obtain ⟨-, -, hl⟩ := LruCache.get_inv hi.cache hrun
    exact ⟨(hl k).trans hk, rfl, rfl, trivial⟩
  | touch => exact ⟨hk, TimedCache.touched_group .., TimedCache.touched_value .., trivial⟩
  | thrown => exact ⟨hk, rfl, rfl, trivial⟩
  | @current _ _ r' g group c c' hgroup hg hrun =>
    obtain ⟨ho, -, -⟩ := LruCache.get_inv (hi.groupCache _ hg) hrun
    refine ⟨hk, rfl, rfl, fun he => ?_⟩
    subst he
    obtain ⟨c₁, hc₁, hlook⟩ := hcurrent g hgroup
    cases hc₁.symm.trans hg
    rw [hlook] at ho
    rw [hgroup, ho]
  | @noGroup _ _ r' g c c' hgroup hg hrun =>
    obtain ⟨ho, -, -⟩ := LruCache.get_inv (hi.groupCache _ hg) hrun
    refine ⟨hk, rfl, rfl, fun he => ?_⟩
    subst he
    obtain ⟨c₁, hc₁, hlook⟩ := hcurrent g hgroup
    cases hc₁.symm.trans hg
    cases ho.trans hlook
  | makeGroup => exact ⟨hk, rfl, rfl, fun he => absurd he hpc⟩
  | validPlain => exact ⟨hk, rfl, rfl, trivial⟩
  | invalidPlain _ hinvalid =>
    refine ⟨hk, rfl, rfl, fun he => ?_⟩
    rw [he] at hinvalid
    exact hinvalid hvalid
  | valid => exact ⟨hk, rfl, rfl, trivial⟩
  | @invalid _ _ r' group hinvalid =>
    refine ⟨hk, rfl, rfl, fun he => ?_⟩
    subst he
    have hgroup := hpc rfl
    refine hinvalid ⟨hvalid, ?_⟩
    simp [Entry.isValidGroup, hgroup, CacheGroup.equals]
  | @drop _ _ k' r' o hrun =>
    have hne : k ≠ k' := by
      rintro rfl
      rcases hown r' rfl with ho | ho
      · rw [hk] at ho
        exact hpc (Option.some.inj ho).symm
      · rw [hk] at ho
        cases ho
    obtain ⟨-, -, he, hl⟩ := TimedCache.drop_inv hi hrun
    rw [he]
    exact ⟨(hl k hne).trans hk, rfl, rfl, trivial⟩
  | @remove _ _ k' o hrun =>
    have hne : k ≠ k' := fun he => hremoved (he ▸ rfl)
    obtain ⟨-, -, he, hl⟩ := TimedCache.remove_inv hi hrun
    rw [he]
    exact ⟨(hl k hne).trans hk, rfl, rfl, trivial⟩
  | removeAll => exact absurd rfl hremovedAll
  | refrush _ hrun =>
    obtain ⟨-, hcache, he⟩ := TimedCache.refrushGroup_inv hrun
    rw [hcache, he]
    exact ⟨hk, rfl, rfl, trivial⟩
  | groupThrown => exact ⟨hk, rfl, rfl, trivial⟩
  | groupFound => exact ⟨hk, rfl, rfl, trivial⟩
  | groupMissing => exact ⟨hk, rfl, rfl, trivial⟩
  | groupMake => exact ⟨hk, rfl, rfl, trivial⟩

end Move

omit [DecidableEq K] [HashCode K] in
theorem Pc.Harmless.congr {t t' : TimedCache K V} {r : Ref} {pc : Pc K} (h : pc.Harmless t r)
    (hg : (t'.entry r).group = (t.entry r).group) : pc.Harmless t' r := by
  cases pc with
  | grouped k r' group => exact fun he => hg.trans (h he)
  | idle => trivial
  | found k r' => trivial
  | missing k r' name => exact h
  | removing k r' => exact h
  | touching r' d => trivial
  | grouping name => trivial

omit [DecidableEq K] [HashCode K] in
/-- A thread that does not know of an entry yet. -/
theorem Pc.harmless_of_ref {t : TimedCache K V} {r : Ref} {pc : Pc K} (h : pc.ref ≠ some r) :
    pc.Harmless t r := by
  cases pc with
  | missing k r' name => exact fun he => h (he ▸ rfl)
  | removing k r' => exact fun he => h (he ▸ rfl)
  | grouped k r' group => exact fun he => absurd (he ▸ rfl) h
  | idle => trivial
  | found k r' => trivial
  | touching r' d => trivial
  | grouping name => trivial

/-- An entry that is live is answered. -/
theorem TimedCache.get_live {t : TimedCache K V} (hi : t.Inv) {k : K} {r : Ref}
    (hk : t.cache.lookup k = some r) {now : Int64} (hvalid : (t.entry r).isValid now = true)
    (hcurrent : t.Current (t.entry r)) (groupNow : Int64) :
    ∃ t', t.get k groupNow now = some (t', .ok (t.entry r).value) := by
  obtain ⟨c, hget, -, -⟩ := LruCache.get_spec hi.cache k
  rw [hk] at hget
  unfold get
  simp only [hget, Option.bind_eq_bind, Option.bind_some]
  cases hgroup : (t.entry r).group with
  | none => exact ⟨_, if_pos hvalid⟩
  | some g =>
    obtain ⟨gc, hgc, hlook⟩ := hcurrent g hgroup
    obtain ⟨gc', hgget, -, -⟩ := LruCache.get_spec (hi.groupCache _ hgc) g.group
    rw [hlook] at hgget
    simp only [getGroup, hgc, hgget, Option.bind_eq_bind, Option.bind_some]
    refine ⟨_, if_pos ⟨hvalid, ?_⟩⟩
    simp [Entry.isValidGroup, hgroup, CacheGroup.equals]

end

/-! ## Threads -/

structure Threads (P K V : Type) where
  cache : TimedCache K V
  pc : P → Pc K
  clock : Int64

namespace Threads
variable {P K V : Type} [DecidableEq P] [DecidableEq K] [HashCode K]

def init (cache : TimedCache K V) (clock : Int64) : Threads P K V := ⟨cache, fun _ => .idle, clock⟩

/-- A thread makes its next move, or the clock advances. -/
inductive Step : Threads P K V → Act K V → Threads P K V → Prop
  | moved {s : Threads P K V} {p : P} {e : Act K V} {t : TimedCache K V} {pc : Pc K} :
    Move s.clock (s.cache, s.pc p) e (t, pc) →
      Step s e { s with cache := t, pc := update s.pc p pc }
  | ticked {s : Threads P K V} {clock : Int64} :
    s.clock ≤ clock → Step s (.ticked clock) { s with clock }

/-- The entry behind `r` has not expired, and its group is current. -/
def Fresh (r : Ref) (s : Threads P K V) : Prop :=
  (s.cache.entry r).isValid s.clock = true ∧ s.cache.Current (s.cache.entry r)

/-- A step that neither replaces, removes or evicts the value of `k`, whose entry `r` is fresh
afterwards. -/
structure Undisturbed (k : K) (r : Ref) (s : Threads P K V) (e : Act K V)
    (s' : Threads P K V) : Prop where
  put : ∀ v g created, e ≠ .put k v g created
  removed : e ≠ .removed k
  removedAll : e ≠ .removedAll
  evicted : ∀ k' v g created, e = .put k' v g created →
    s'.cache.cache.lookup k = s.cache.cache.lookup k
  fresh : Fresh r s'

/-- A `get` that removes `k` removes the entry that it has read, if there still is one. -/
def RemovesOwn (k : K) (s : Threads P K V) (e : Act K V) : Prop :=
  ∀ r, e = .dropped k r → s.cache.cache.lookup k = some r ∨ s.cache.cache.lookup k = none

structure Sound (s : Threads P K V) : Prop where
  inv : s.cache.Inv
  ref : ∀ p r, (s.pc p).ref = some r → r < s.cache.allocated

section
variable {s s' : Threads P K V} {e : Act K V} {k : K} {r : Ref}

theorem Sound.step (h : Sound s) (hs : Step s e s') : Sound s' := by
  cases hs with
  | ticked _ => exact ⟨h.inv, h.ref⟩
  | @moved p _ t pc hm =>
    obtain ⟨⟨hi, href⟩, ha⟩ := hm.sound ⟨h.inv, h.ref p⟩
    refine ⟨hi, fun q r hq => ?_⟩
    have hq : (update s.pc p pc q).ref = some r := hq
    by_cases hqp : q = p
    · rw [hqp, Function.update_self] at hq
      exact href r hq
    · rw [Function.update_of_ne hqp] at hq
      exact lt_of_lt_of_le (h.ref q r hq) ha

/-- The last value of `k` is there, and nobody is about to remove it. -/
structure Kept (k : K) (v : Option V) (r : Ref) (s : Threads P K V) : Prop where
  sound : Sound s
  lookup : s.cache.cache.lookup k = some r
  value : (s.cache.entry r).value = v
  harmless : ∀ p, (s.pc p).Harmless s.cache r
  fresh : Fresh r s

theorem Kept.step {v : Option V} (h : Kept k v r s) (hs : Step s e s')
    (hu : Undisturbed k r s e s') (ho : RemovesOwn k s e) : Kept k v r s' := by
  have hsound := h.sound.step hs
  cases hs with
  | ticked _ => exact ⟨hsound, h.lookup, h.value, h.harmless, hu.fresh⟩
  | @moved p _ t pc hm =>
    obtain ⟨hl, hg, hv, hpc⟩ := hm.keeps ⟨h.sound.inv, h.sound.ref p⟩ h.lookup (h.harmless p)
      h.fresh.1 h.fresh.2 hu.put hu.removed hu.removedAll hu.evicted ho
    refine ⟨hsound, hl, hv.trans h.value, fun q => ?_, hu.fresh⟩
    show (update s.pc p pc q).Harmless t r
    by_cases hqp : q = p
    · rw [hqp, Function.update_self]
      exact hpc
    · rw [Function.update_of_ne hqp]
      exact (h.harmless q).congr hg

/-- Right after a `put`. -/
theorem Kept.of_put {v : Option V} {g : Option CacheGroup} {created : Int64} (h : Sound s)
    (hs : Step s (.put k v g created) s') (hf : Fresh s.cache.allocated s') :
    Kept k v s.cache.allocated s' := by
  have hsound := h.step hs
  cases hs with
  | @moved p _ t pc hm =>
    cases hpc : s.pc p with
    | idle =>
      rw [hpc] at hm
      cases hm with
      | put _ hrun =>
        unfold TimedCache.put at hrun
        obtain ⟨⟨c, o⟩, hput, hrun⟩ := Option.bind_eq_some_iff.mp hrun
        cases hrun
        refine ⟨hsound, (LruCache.put_spec h.inv.cache hput).2.1, ?_, fun q => ?_, hf⟩
        · show (update s.cache.entry s.cache.allocated _ s.cache.allocated).value = v
          rw [Function.update_self]
        · refine Pc.harmless_of_ref (fun hq => ?_)
          have hq : (update s.pc p .idle q).ref = some s.cache.allocated := hq
          by_cases hqp : q = p
          · rw [hqp, Function.update_self] at hq
            cases hq
          · rw [Function.update_of_ne hqp] at hq
            exact Nat.lt_irrefl _ (h.ref q _ hq)
    | _ =>
      rw [hpc] at hm
      cases hm

end

/-- **The last value put is answered**: in every run in which a `get` that removes the key removes
the entry that it has read. -/
theorem fresh_kept {capacity : Int} {expireInterval : Int64} {isGroup : Bool}
    {t₀ : TimedCache K V} {clock₀ groupNow now created : Int64} {before after : List (Act K V)}
    {s₁ s₂ s₃ : Threads P K V} {k : K} {v : Option V} {g : Option CacheGroup}
    (hcap : capacity < 2 ^ 31) (hnew : TimedCache.new capacity expireInterval isGroup = some t₀)
    (hbefore : Run Step (init t₀ clock₀) before s₁) (hput : Step s₁ (.put k v g created) s₂)
    (hfresh : Fresh s₁.cache.allocated s₂)
    (hafter : Run (fun s e s' => Step s e s' ∧ Undisturbed k s₁.cache.allocated s e s' ∧
      RemovesOwn k s e) s₂ after s₃)
    (hnow : (s₃.cache.entry s₁.cache.allocated).isValid now = true) :
    ∃ t', s₃.cache.get k groupNow now = some (t', .ok v) := by
  have hinit : Sound (init t₀ clock₀ : Threads P K V) :=
    ⟨(TimedCache.new_spec hcap hnew).1, fun p r hr => by cases hr⟩
  have hsound : Sound s₁ := hbefore.invariant hinit fun _ _ _ hi hs => hi.step hs
  have hkept : Kept k v s₁.cache.allocated s₃ :=
    hafter.invariant (Kept.of_put hsound hput hfresh)
      fun _ _ _ hi hs => hi.step hs.1 hs.2.1 hs.2.2
  rw [← hkept.value]
  exact TimedCache.get_live hkept.sound.inv hkept.lookup hnow hkept.fresh.2 groupNow

/-- A thread puts `k` and looks it up after its deadline; then the other one puts it again. -/
theorem two_threads : ∃ (t₀ t₁ t₂ t₃ t₄ : TimedCache String Nat) (c : LruCache String Ref),
    TimedCache.new 4 10 false = some t₀ ∧ t₀.put "k" (some 7) none 0 = some (t₁, none) ∧
    t₁.cache.get "k" = some (c, some 0) ∧
    TimedCache.put { t₁ with cache := c } "k" (some 8) none 10 = some (t₂, some 7) ∧
    t₂.drop "k" = some (t₃, .ok none) ∧ t₃.get "k" 10 10 = some (t₄, .ok none) ∧
    t₀.allocated = 0 ∧ t₁.allocated = 1 ∧ (t₁.entry 0).isValid 0 = true ∧
    (t₁.entry 0).group = none ∧ (t₁.entry 0).isValid 10 = false ∧
    (t₂.entry 1).group = none ∧ (t₂.entry 1).isValid 10 = true ∧
    (t₃.entry 1).group = none ∧ (t₃.entry 1).isValid 10 = true := by
  have hscript : (do
      let t₀ : TimedCache String Nat ← TimedCache.new 4 10 false
      let first ← t₀.put "k" (some 7) none 0
      let looked ← first.1.cache.get "k"
      let second ← TimedCache.put { first.1 with cache := looked.1 } "k" (some 8) none 10
      let dropped ← second.1.drop "k"
      let last ← dropped.1.get "k" 10 10
      some (decide ((first.2 = none ∧ looked.2 = some 0 ∧ second.2 = some 7 ∧
        dropped.2 = .ok none ∧ last.2 = .ok none) ∧ t₀.allocated = 0 ∧
        first.1.allocated = 1 ∧ (first.1.entry 0).isValid 0 = true ∧
        (first.1.entry 0).group = none ∧ (first.1.entry 0).isValid 10 = false ∧
        (second.1.entry 1).group = none ∧ (second.1.entry 1).isValid 10 = true ∧
        (dropped.1.entry 1).group = none ∧ (dropped.1.entry 1).isValid 10 = true))) =
        some true := by
    decide
  obtain ⟨t₀, h₀, hscript⟩ := Option.bind_eq_some_iff.mp hscript
  obtain ⟨⟨t₁, o₁⟩, h₁, hscript⟩ := Option.bind_eq_some_iff.mp hscript
  obtain ⟨⟨c, r⟩, hc, hscript⟩ := Option.bind_eq_some_iff.mp hscript
  obtain ⟨⟨t₂, o₂⟩, h₂, hscript⟩ := Option.bind_eq_some_iff.mp hscript
  obtain ⟨⟨t₃, o₃⟩, h₃, hscript⟩ := Option.bind_eq_some_iff.mp hscript
  obtain ⟨⟨t₄, o₄⟩, h₄, hscript⟩ := Option.bind_eq_some_iff.mp hscript
  obtain ⟨⟨rfl, rfl, rfl, rfl, rfl⟩, hfields⟩ := of_decide_eq_true (Option.some.inj hscript)
  exact ⟨t₀, t₁, t₂, t₃, t₄, c, h₀, h₁, hc, h₂, h₃, h₄, hfields⟩

/-- The second thread looks the value up while it is live. -/
theorem fresh_kept_looked : ∃ (t₀ : TimedCache String Nat) (s₁ s₂ : Threads Bool String Nat),
    TimedCache.new 4 10 false = some t₀ ∧ Step (init t₀ 0) (.put "k" (some 7) none 0) s₁ ∧
    Step s₁ (.looked "k") s₂ ∧ ∃ t', s₂.cache.get "k" 0 0 = some (t', .ok (some 7)) := by
  obtain ⟨t₀, t₁, -, -, -, c, h₀, hput₁, hlook, -, -, -, h₀a, -, hv, hg, -⟩ := two_threads
  let idle : Bool → Pc String := fun _ => .idle
  let s₁ : Threads Bool String Nat := ⟨t₁, update idle true .idle, 0⟩
  let s₂ : Threads Bool String Nat :=
    ⟨{ t₁ with cache := c }, update (update idle true .idle) false (.found "k" 0), 0⟩
  have hput : Step (init t₀ 0) (.put "k" (some 7) none 0) s₁ :=
    .moved (.put (Int64.le_refl _) hput₁)
  have hlooked : Step s₁ (.looked "k") s₂ := .moved (p := false) (.found hlook)
  have hcurrent : ∀ {t : TimedCache String Nat}, t.Current (t₁.entry 0) := by
    intro t g hgroup
    rw [hg] at hgroup
    cases hgroup
  have hallocated : (init t₀ 0 : Threads Bool String Nat).cache.allocated = 0 := h₀a
  have hundisturbed : Undisturbed "k" 0 s₁ (.looked "k") s₂ :=
    ⟨fun _ _ _ h => (by cases h), fun h => (by cases h), fun h => (by cases h),
      fun _ _ _ _ h => (by cases h), hv, hcurrent⟩
  exact ⟨t₀, s₁, s₂, h₀, hput, hlooked, fresh_kept (by decide) h₀ .nil hput
    (by rw [hallocated]; exact ⟨hv, hcurrent⟩)
    (.single ⟨hlooked, by rw [hallocated]; exact hundisturbed, fun _ h => by cases h⟩)
    (by rw [hallocated]; exact hv)⟩

/-- **A lookup deletes the fresh value**: the first thread removes what the second one has put
after it had found the old entry expired. -/
theorem fresh_dropped : ∃ (t₀ : TimedCache String Nat) (before after : List (Act String Nat))
    (s₁ s₂ s₃ : Threads Bool String Nat),
    TimedCache.new 4 10 false = some t₀ ∧ Run Step (init t₀ 0) before s₁ ∧
    Step s₁ (.put "k" (some 8) none 10) s₂ ∧ Fresh s₁.cache.allocated s₂ ∧
    Run (fun s e s' => Step s e s' ∧ Undisturbed "k" s₁.cache.allocated s e s') s₂ after s₃ ∧
    (∀ p, s₃.pc p = .idle) ∧ (s₃.cache.entry s₁.cache.allocated).isValid 10 = true ∧
    ∃ t', s₃.cache.get "k" 10 10 = some (t', .ok none) := by
  obtain ⟨t₀, t₁, t₂, t₃, t₄, c, h₀, hput₁, hlook, hput₂, hdrop, hget, -, ha, -, hg₀, hv₀, hg₂, hv₂,
    hg₃, hv₃⟩ := two_threads
  let idle : Bool → Pc String := fun _ => .idle
  let found : Bool → Pc String := update idle true (.found "k" 0)
  let removing : Bool → Pc String := update found true (.removing "k" 0)
  let u : TimedCache String Nat := { t₁ with cache := c }
  have hrun : Run Step (init t₀ 0) [.put "k" (some 7) none 0, .ticked 10, .looked "k", .judged "k" 0]
      (⟨u, removing, 10⟩ : Threads Bool String Nat) := by
    have h₁ : Step (init t₀ 0) (.put "k" (some 7) none 0) (⟨t₁, update idle true .idle, 0⟩ :
        Threads Bool String Nat) := .moved (.put (Int64.le_refl _) hput₁)
    have hidle : update idle true .idle = idle := Function.update_eq_self _ _
    rw [hidle] at h₁
    have h₂ : Step ⟨t₁, idle, 0⟩ (.ticked 10) ⟨t₁, idle, 10⟩ :=
      .ticked (show (0 : Int64) ≤ 10 by decide)
    have h₃ : Step ⟨t₁, idle, 10⟩ (.looked "k") ⟨u, found, 10⟩ :=
      .moved (p := true) (.found hlook)
    have h₄ : Step ⟨u, found, 10⟩ (.judged "k" 0) ⟨u, removing, 10⟩ := by
      refine .moved (p := true) (.invalidPlain hg₀ ?_)
      rw [hv₀]
      decide
    exact (((Run.single h₁).snoc h₂).snoc h₃).snoc h₄
  have hput : Step ⟨u, removing, 10⟩ (.put "k" (some 8) none 10)
      (⟨t₂, update removing false .idle, 10⟩ : Threads Bool String Nat) :=
    .moved (p := false) (.put (Int64.le_refl _) hput₂)
  let s₃ : Threads Bool String Nat := ⟨t₃, update (update removing false .idle) true .idle, 10⟩
  have hdropped : Step ⟨t₂, update removing false .idle, 10⟩ (.dropped "k" 0) s₃ :=
    .moved (p := true) (.drop hdrop)
  have hfresh₃ : Fresh 1 s₃ := by
    refine ⟨hv₃, fun g hg => ?_⟩
    rw [hg₃] at hg
    cases hg
  have hallocated : u.allocated = 1 := ha
  refine ⟨t₀, _, _, _, _, s₃, h₀, hrun, hput, ?_, .single ⟨hdropped, ?_⟩, fun p => ?_, ?_, t₄, hget⟩
  · rw [hallocated]
    refine ⟨hv₂, fun g hg => ?_⟩
    rw [hg₂] at hg
    cases hg
  · rw [hallocated]
    exact ⟨fun _ _ _ h => (by cases h), fun h => (by cases h), fun h => (by cases h),
      fun _ _ _ _ h => (by cases h), hfresh₃⟩
  · cases p <;> rfl
  · rw [hallocated]
    exact hv₃

end Threads

end BaseService.LocalCache
