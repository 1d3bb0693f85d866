import BaseService.LocalCache.LruSpec
import BaseService.LocalCache.Store

/-!
# `TimedCache` refines the store

* `TimedCache.view` : the maps a `TimedCache` stands for;
* `TimedCache.Inv` : its two `LruCache`s keep theirs, and no two keys share an entry;
* `call_refines` : a call that completes is a step of the store;
* `Reaches` : the client calls made on a new cache; `Reaches.view` : they are a run of the store.
-/

namespace BaseService.LocalCache
open Function (update)

namespace TimedCache
variable {K V : Type} [DecidableEq K] [HashCode K]

/-- The entry of a key. -/
def stored (t : TimedCache K V) (k : K) : Option (Entry V) := (t.cache.lookup k).map t.entry

omit [DecidableEq K] [HashCode K] in
/-- The groups, if the cache has any. -/
def groups (t : TimedCache K V) : Option (String → Option CacheGroup) :=
  t.groupCache.map fun c => c.lookup

def view (t : TimedCache K V) : Store K V := ⟨t.stored, t.groups, t.expireInterval⟩

structure Inv (t : TimedCache K V) : Prop where
  cache : t.cache.Inv
  groupCache : ∀ c, t.groupCache = some c → c.Inv
  fresh : ∀ k r, t.cache.lookup k = some r → r < t.allocated
  distinct : ∀ k k' r, t.cache.lookup k = some r → t.cache.lookup k' = some r → k = k'

section
variable {t t' : TimedCache K V} {k : K} {now : Int64}

/-! ## A changed `LruCache` -/

/-- The cache loses some keys. -/
theorem Inv.shrink (h : t.Inv) {c : LruCache K Ref} (hc : c.Inv)
    (hl : ∀ k r, c.lookup k = some r → t.cache.lookup k = some r) : Inv { t with cache := c } :=
  ⟨hc, h.groupCache, fun k r hr => h.fresh k r (hl k r hr),
    fun k k' r hr hr' => h.distinct k k' r (hl k r hr) (hl k' r hr')⟩

theorem Inv.setGroupCache (h : t.Inv) {c : LruCache String CacheGroup} (hc : c.Inv) :
    Inv { t with groupCache := some c } :=
  ⟨h.cache, fun _ hc' => Option.some.inj hc' ▸ hc, h.fresh, h.distinct⟩

theorem Inv.same (h : t.Inv) {c : LruCache K Ref} (hc : c.Inv)
    (hl : ∀ k, c.lookup k = t.cache.lookup k) : Inv { t with cache := c } :=
  h.shrink hc (fun k _ hr => (hl k).symm.trans hr)

theorem view_same {c : LruCache K Ref} (hl : ∀ k, c.lookup k = t.cache.lookup k) :
    view { t with cache := c } = t.view := by
  have : stored { t with cache := c } = t.stored := funext fun k => congrArg (Option.map t.entry) (hl k)
  rw [view, this]
  rfl

theorem view_erase {c : LruCache K Ref}
    (hl : ∀ k', c.lookup k' = if k' = k then none else t.cache.lookup k') :
    view { t with cache := c } = t.view.erase k := by
  have : stored { t with cache := c } = update t.stored k none := by
    funext k'
    rw [stored, hl]
    by_cases he : k' = k
    · rw [if_pos he, he, Function.update_self]
      rfl
    · rw [if_neg he, Function.update_of_ne he]
      rfl
  rw [view, this]
  rfl

/-! ## `put` -/

theorem put_refines {v old : Option V} {g : Option CacheGroup} (h : t.Inv)
    (hs : t.put k v g now = some (t', old)) :
    t'.Inv ∧ Store.Step t.view (.put k v g now) (.value old) t'.view := by
  unfold put at hs
  obtain ⟨⟨c, o⟩, hp, hs⟩ := Option.bind_eq_some_iff.mp hs
  simp only [Option.some.injEq, Prod.mk.injEq] at hs
  obtain ⟨rfl, rfl⟩ := hs
  obtain ⟨hc, hself, hother⟩ := LruCache.put_spec h.cache hp
  have hold : ∀ k' r, k' ≠ k → c.lookup k' = some r → t.cache.lookup k' = some r := by
    intro k' r hne hr
    rcases hother k' hne with he | he
    · rw [← he, hr]
    · rw [he] at hr
      cases hr
  have hlt : ∀ k' r, k' ≠ k → c.lookup k' = some r → r < t.allocated := fun k' r hne hr =>
    h.fresh k' r (hold k' r hne hr)
  have hnew : ∀ r, c.lookup k = some r → r = t.allocated := fun r hr =>
    Option.some.inj (hr.symm.trans hself)
  refine ⟨⟨hc, h.groupCache, fun k' r hr => ?_, fun k₁ k₂ r h₁ h₂ => ?_⟩, .put ⟨?_, fun k' hne => ?_⟩⟩
  · show r < t.allocated + 1
    by_cases hk : k' = k
    · rw [hnew r (hk ▸ hr)]
      exact Nat.lt_succ_self _
    · exact Nat.lt_succ_of_lt (hlt k' r hk hr)
  · by_cases hk₁ : k₁ = k <;> by_cases hk₂ : k₂ = k
    · rw [hk₁, hk₂]
    · exact absurd (hnew r (hk₁ ▸ h₁)) (Nat.ne_of_lt (hlt k₂ r hk₂ h₂))
    · exact absurd (hnew r (hk₂ ▸ h₂)) (Nat.ne_of_lt (hlt k₁ r hk₁ h₁))
    · exact h.distinct k₁ k₂ r (hold k₁ r hk₁ h₁) (hold k₂ r hk₂ h₂)
  · show (c.lookup k).map (update t.entry t.allocated _) = _
    rw [hself, Option.map_some, Function.update_self]
    rfl
  · show (c.lookup k').map (update t.entry t.allocated _) = (t.cache.lookup k').map t.entry ∨
      (c.lookup k').map (update t.entry t.allocated _) = none
    cases hr : c.lookup k' with
    | none => exact Or.inr rfl
    | some r =>
      rw [hold k' r hne hr, Option.map_some, Option.map_some,
        Function.update_of_ne (Nat.ne_of_lt (hlt k' r hne hr))]
      exact Or.inl rfl

/-! ## Groups -/

theorem getGroup_refines {name : String} {o : Outcome CacheGroup} (h : t.Inv)
    (hs : t.getGroup name now = some (t', o)) :
    t'.Inv ∧ t.view.GetGroup name now o t'.view ∧ t'.cache = t.cache ∧ t'.entry = t.entry := by
  unfold getGroup at hs
  cases hg : t.groupCache with
  | none =>
    simp only [hg, Option.some.injEq, Prod.mk.injEq] at hs
    obtain ⟨rfl, rfl⟩ := hs
    exact ⟨h, .thrown (by simp [view, groups, hg]), rfl, rfl⟩
  | some c =>
    have hgroups : t.view.groups = some c.lookup := by simp [view, groups, hg]
    obtain ⟨c', hget, hc', hl⟩ := LruCache.get_spec (h.groupCache c hg) name
    have hl : c'.lookup = c.lookup := funext hl
    cases hn : c.lookup name with
    | some g =>
      simp only [hg, hget, hn, Option.bind_eq_bind, Option.bind_some, Option.some.injEq,
        Prod.mk.injEq] at hs
      obtain ⟨rfl, rfl⟩ := hs
      refine ⟨h.setGroupCache hc', ?_, rfl, rfl⟩
      have hv : view { t with groupCache := some c' } = t.view := by
        have : groups { t with groupCache := some c' } = t.groups := by simp [groups, hg, hl]
        rw [view, this]
        rfl
      rw [hv]
      exact .found hgroups hn
    | none =>
      simp only [hg, hget, hn, Option.bind_eq_bind, Option.bind_some] at hs
      obtain ⟨⟨c'', o'⟩, hp, hs⟩ := Option.bind_eq_some_iff.mp hs
      simp only [Option.some.injEq, Prod.mk.injEq] at hs
      obtain ⟨rfl, rfl⟩ := hs
      obtain ⟨hc'', hself, hother⟩ := LruCache.put_spec hc' hp
      rw [hl] at hother
      exact ⟨h.setGroupCache hc'', .created hgroups hn ⟨hself, hother⟩, rfl, rfl⟩

theorem refrushGroup_refines {name : String} {o : Outcome Unit} (h : t.Inv)
    (hs : t.refrushGroup name now = some (t', o)) :
    t'.Inv ∧ Store.Step t.view (.refrushGroup name now) (.of (fun _ => .void) o) t'.view := by
  unfold refrushGroup at hs
  cases hg : t.groupCache with
  | none =>
    simp only [hg, Option.some.injEq, Prod.mk.injEq] at hs
    obtain ⟨rfl, rfl⟩ := hs
    exact ⟨h, .refrushThrown (by simp [view, groups, hg])⟩
  | some c =>
    simp only [hg] at hs
    obtain ⟨⟨c', o'⟩, hp, hs⟩ := Option.bind_eq_some_iff.mp hs
    simp only [Option.some.injEq, Prod.mk.injEq] at hs
    obtain ⟨rfl, rfl⟩ := hs
    obtain ⟨hc', hself, hother⟩ := LruCache.put_spec (h.groupCache c hg) hp
    exact ⟨h.setGroupCache hc', .refrush (by simp [view, groups, hg]) ⟨hself, hother⟩⟩

/-! ## `get` -/

theorem drop_spec (h : t.Inv) (k : K) :
    ∃ t', t.drop k = some (t', .ok none) ∧ t'.Inv ∧ t'.view = t.view.erase k := by
  obtain ⟨c, hr, hc, hl⟩ := LruCache.remove_spec h.cache k
  refine ⟨{ t with cache := c }, ?_, h.shrink hc (fun k' r hk' => ?_), view_erase hl⟩
  · rw [drop, hr]
    rfl
  · rw [hl] at hk'
    split at hk'
    · cases hk'
    · exact hk'

/-- The end of `get`, once the entry is judged. -/
theorem verdict_refines {e : Entry V} {groupNow : Int64} {b : Bool} {s : Store K V}
    {o : Outcome (Option V)} (h : t.Inv) (he : s.entries k = some e)
    (hj : s.Judge e groupNow now (.ok b) t.view)
    (hs : (if b = true then some (t, .ok e.value) else t.drop k) = some (t', o)) :
    t'.Inv ∧ Store.Step s (.get k groupNow now) (.of .value o) t'.view := by
  cases b with
  | true =>
    simp only [if_true, Option.some.injEq, Prod.mk.injEq] at hs
    obtain ⟨rfl, rfl⟩ := hs
    exact ⟨h, .live he hj⟩
  | false =>
    obtain ⟨t'', hd, hi, hv⟩ := drop_spec h k
    simp only [Bool.false_eq_true, if_false, hd, Option.some.injEq, Prod.mk.injEq] at hs
    obtain ⟨rfl, rfl⟩ := hs
    rw [hv]
    exact ⟨hi, .dead he hj⟩

theorem get_refines {groupNow : Int64} {o : Outcome (Option V)} (h : t.Inv)
    (hs : t.get k groupNow now = some (t', o)) :
    t'.Inv ∧ Store.Step t.view (.get k groupNow now) (.of .value o) t'.view := by
  unfold get at hs
  obtain ⟨c, hget, hc, hl⟩ := LruCache.get_spec h.cache k
  simp only [hget, Option.bind_eq_bind, Option.bind_some] at hs
  have hi := h.same hc hl
  have hv : view { t with cache := c } = t.view := view_same hl
  cases hk : t.cache.lookup k with
  | none =>
    simp only [hk, Option.some.injEq, Prod.mk.injEq] at hs
    obtain ⟨rfl, rfl⟩ := hs
    rw [hv]
    exact ⟨hi, .miss (by simp [view, stored, hk])⟩
  | some r =>
    have he : t.view.entries k = some (t.entry r) := by simp [view, stored, hk]
    cases hg : (t.entry r).group with
    | none =>
      simp only [hk, hg] at hs
      refine verdict_refines hi he ?_ hs
      rw [hv]
      exact .plain hg
    | some g =>
      simp only [hk, hg] at hs
      obtain ⟨⟨t₁, og⟩, hgg, hs⟩ := Option.bind_eq_some_iff.mp hs
      obtain ⟨hi₁, hstep, -, -⟩ := getGroup_refines hi hgg
      rw [hv] at hstep
      cases og with
      | error x =>
        simp only [Option.some.injEq, Prod.mk.injEq] at hs
        obtain ⟨rfl, rfl⟩ := hs
        exact ⟨hi₁, .getThrown he (.thrown hg hstep)⟩
      | ok c =>
        refine verdict_refines hi₁ he (.grouped hg hstep) ?_
        rw [← hs]
        simp only [Bool.and_eq_true]

/-! ## The deadline of an entry -/

theorem Inv.setExpireInterval (h : t.Inv) (r : Ref) (d now : Int64) :
    (t.setExpireInterval r d now).Inv :=
  ⟨h.cache, h.groupCache, h.fresh, h.distinct⟩

theorem view_setExpireInterval (h : t.Inv) {r : Ref} (hk : t.cache.lookup k = some r)
    (d now : Int64) : (t.setExpireInterval r d now).view = t.view.touch k d now := by
  have : (t.setExpireInterval r d now).stored = update t.stored k
      ((t.stored k).map fun e => e.setExpireInterval d now) := by
    funext k'
    show (t.cache.lookup k').map (update t.entry r _) = _
    by_cases he : k' = k
    · rw [he, Function.update_self, stored, hk, Option.map_some, Option.map_some, Option.map_some,
        Function.update_self]
    · rw [Function.update_of_ne he, stored]
      cases hr : t.cache.lookup k' with
      | none => rfl
      | some r' =>
        have hne : r' ≠ r := fun e => he (h.distinct k' k r (e ▸ hr) hk)
        rw [Option.map_some, Option.map_some, Function.update_of_ne hne]
  rw [view, this]
  rfl

theorem view_touch_of_none (hk : t.cache.lookup k = none) (d now : Int64) :
    t.view.touch k d now = t.view := by
  have : update t.stored k ((t.stored k).map fun e => e.setExpireInterval d now) = t.stored := by
    rw [show (t.stored k).map (fun e => e.setExpireInterval d now) = t.stored k by simp [stored, hk],
      Function.update_eq_self]
  rw [Store.touch, view, this]

theorem expireIntervalOf_spec (h : t.Inv) (k : K) (d now : Int64) :
    ∃ t', t.expireIntervalOf k d now = some t' ∧ t'.Inv ∧ t'.view = t.view.touch k d now := by
  obtain ⟨c, hget, hc, hl⟩ := LruCache.get_spec h.cache k
  have hi := h.same hc hl
  have hv : view { t with cache := c } = t.view := view_same hl
  unfold expireIntervalOf
  simp only [hget, Option.bind_eq_bind, Option.bind_some]
  cases hk : t.cache.lookup k with
  | none => exact ⟨_, rfl, hi, by rw [hv, view_touch_of_none hk]⟩
  | some r =>
    refine ⟨_, rfl, hi.setExpireInterval r d now, ?_⟩
    rw [view_setExpireInterval hi ((hl k).trans hk), hv]

/-- `get(key, expireInterval)` answers what is stored and sets the deadline. -/
theorem getRemains_spec (h : t.Inv) (k : K) (d now : Int64) :
    ∃ t', t.getRemains k d now = some (t', t.view.value k) ∧ t'.Inv ∧
      t'.view = t.view.touch k d now := by
  obtain ⟨c, hget, hc, hl⟩ := LruCache.get_spec h.cache k
  have hi := h.same hc hl
  have hv : view { t with cache := c } = t.view := view_same hl
  unfold getRemains
  simp only [hget, Option.bind_eq_bind, Option.bind_some]
  cases hk : t.cache.lookup k with
  | none =>
    refine ⟨_, ?_, hi, by rw [hv, view_touch_of_none hk]⟩
    simp [Store.value, view, stored, hk]
  | some r =>
    refine ⟨_, ?_, hi.setExpireInterval r d now, ?_⟩
    · simp [Store.value, view, stored, hk, TimedCache.setExpireInterval, Entry.setExpireInterval]
    · rw [view_setExpireInterval hi ((hl k).trans hk), hv]

/-! ## Removal -/

theorem remove_spec (h : t.Inv) (k : K) :
    ∃ t', t.remove k = some (t', t.view.value k) ∧ t'.Inv ∧ t'.view = t.view.erase k := by
  obtain ⟨c, hr, hc, hl⟩ := LruCache.remove_spec h.cache k
  refine ⟨{ t with cache := c }, ?_, h.shrink hc (fun k' r hk' => ?_), view_erase hl⟩
  · simp only [remove, hr, Option.bind_eq_bind, Option.bind_some, Store.value, view, stored]
    cases t.cache.lookup k <;> rfl
  · rw [hl] at hk'
    split at hk'
    · cases hk'
    · exact hk'

theorem removeAll_spec (h : t.Inv) :
    ∃ t', t.removeAll = some t' ∧ t'.Inv ∧ t'.view = { t.view with entries := fun _ => none } := by
  obtain ⟨c, hr, hc, hl⟩ := LruCache.clear_spec h.cache
  refine ⟨{ t with cache := c }, ?_, h.shrink hc (fun k r hk => ?_), ?_⟩
  · rw [removeAll, hr]
    rfl
  · rw [hl] at hk
    cases hk
  · have : stored { t with cache := c } = fun _ => none := funext fun k => by simp [stored, hl]
    rw [view, this]
    rfl

/-! ## Every call -/

/-- **A call that completes is a step of the store.** -/
theorem call_refines {c : Call K V} {a : Answer V} (h : t.Inv) (hs : t.call c = some (t', a)) :
    t'.Inv ∧ Store.Step t.view c a t'.view := by
  cases c with
  | put k v g now =>
    obtain ⟨⟨t₁, o⟩, hp, he⟩ := Option.map_eq_some_iff.mp hs
    cases he
    exact put_refines h hp
  | getGroup name now =>
    obtain ⟨⟨t₁, o⟩, hp, he⟩ := Option.map_eq_some_iff.mp hs
    cases he
    obtain ⟨hi, hg, -, -⟩ := getGroup_refines h hp
    exact ⟨hi, .getGroup hg⟩
  | refrushGroup name now =>
    obtain ⟨⟨t₁, o⟩, hp, he⟩ := Option.map_eq_some_iff.mp hs
    cases he
    exact refrushGroup_refines h hp
  | get k groupNow now =>
    obtain ⟨⟨t₁, o⟩, hp, he⟩ := Option.map_eq_some_iff.mp hs
    cases he
    exact get_refines h hp
  | expireInterval k d now =>
    obtain ⟨t₁, hp, hi, hv⟩ := expireIntervalOf_spec h k d now
    rw [call, hp] at hs
    cases hs
    rw [hv]
    exact ⟨hi, .expireInterval⟩
  | getRemains k d now =>
    obtain ⟨t₁, hp, hi, hv⟩ := getRemains_spec h k d now
    rw [call, hp] at hs
    cases hs
    rw [hv]
    exact ⟨hi, .getRemains⟩
  | remove k =>
    obtain ⟨t₁, hp, hi, hv⟩ := remove_spec h k
    rw [call, hp] at hs
    cases hs
    rw [hv]
    exact ⟨hi, .remove⟩
  | removeAll =>
    obtain ⟨t₁, hp, hi, hv⟩ := removeAll_spec h
    rw [call, hp] at hs
    cases hs
    rw [hv]
    exact ⟨hi, .removeAll⟩

/-! ## Calls that complete -/

theorem getGroup_found {name : String} {groups : String → Option CacheGroup} {g : CacheGroup}
    (h : t.Inv) (hg : t.view.groups = some groups) (hn : groups name = some g) (now : Int64) :
    ∃ t', t.getGroup name now = some (t', .ok g) := by
  obtain ⟨c, hc, rfl⟩ := Option.map_eq_some_iff.mp hg
  obtain ⟨c', hget, -, -⟩ := LruCache.get_spec (h.groupCache c hc) name
  refine ⟨{ t with groupCache := some c' }, ?_⟩
  rw [getGroup, hc]
  simp only [hget, hn, Option.bind_eq_bind, Option.bind_some]

/-- `get` completes if no group has to be created. -/
theorem get_completes (h : t.Inv) (k : K) (groupNow now : Int64)
    (hg : ∀ e g, t.view.entries k = some e → e.group = some g →
      ∃ groups c, t.view.groups = some groups ∧ groups g.group = some c) :
    ∃ t' o, t.get k groupNow now = some (t', o) := by
  obtain ⟨c, hget, hc, hl⟩ := LruCache.get_spec h.cache k
  have hi := h.same hc hl
  have hend : ∀ {t₁ : TimedCache K V}, t₁.Inv → ∀ (e : Entry V) (p : Prop) [Decidable p],
      ∃ t' o, (if p then some (t₁, .ok e.value) else t₁.drop k) = some (t', o) := by
    intro t₁ h₁ e p _
    obtain ⟨t₂, hd, -, -⟩ := drop_spec h₁ k
    split
    · exact ⟨_, _, rfl⟩
    · exact ⟨_, _, hd⟩
  unfold get
  simp only [hget, Option.bind_eq_bind, Option.bind_some]
  cases hk : t.cache.lookup k with
  | none => exact ⟨_, _, rfl⟩
  | some r =>
    have he : t.view.entries k = some (t.entry r) := by simp [view, stored, hk]
    cases hgr : (t.entry r).group with
    | none =>
      simp only [hgr]
      exact hend hi (t.entry r) ((t.entry r).isValid now = true)
    | some g =>
      obtain ⟨groups, c', hgs, hc'⟩ := hg _ g he hgr
      obtain ⟨t₁, hgg⟩ := getGroup_found hi (t := { t with cache := c }) hgs hc' groupNow
      obtain ⟨hi₁, -, -, -⟩ := getGroup_refines hi hgg
      simp only [hgr, hgg, Option.bind_some]
      exact hend hi₁ (t.entry r)
        ((t.entry r).isValid now = true ∧ (t.entry r).isValidGroup c' now = true)

end

/-! ## Runs -/

omit [DecidableEq K] [HashCode K] in
theorem new_isSome {capacity : Int} (h₀ : 0 ≤ capacity) (h : capacity ≤ 2 ^ 29)
    (expireInterval : Int64) (isGroup : Bool) :
    (new capacity expireInterval isGroup : Option (TimedCache K V)).isSome := by
  obtain ⟨c, hc⟩ := Option.isSome_iff_exists.mp
    (LruCache.new_isSome h₀ h false : (LruCache.new capacity false : Option (LruCache K Ref)).isSome)
  obtain ⟨g, hg⟩ := Option.isSome_iff_exists.mp
    (LruCache.new_isSome h₀ h false :
      (LruCache.new capacity false : Option (LruCache String CacheGroup)).isSome)
  cases isGroup <;> simp [new, newGroupCache, hc, hg]

/-- A new cache is empty. -/
theorem new_spec {capacity : Int} (h : capacity < 2 ^ 31) {expireInterval : Int64} {isGroup : Bool}
    {t : TimedCache K V} (hs : new capacity expireInterval isGroup = some t) :
    t.Inv ∧ t.view.entries = (fun _ => none) ∧
      (∀ groups, t.view.groups = some groups → groups = fun _ => none) ∧
      t.view.expireInterval = expireInterval := by
  obtain ⟨c, hc, hs⟩ := Option.bind_eq_some_iff.mp hs
  obtain ⟨g, hg, hs⟩ := Option.bind_eq_some_iff.mp hs
  cases hs
  obtain ⟨hi, hl⟩ := LruCache.new_spec h hc
  have hgroup : ∀ c', g = some c' → c'.Inv ∧ ∀ name, c'.lookup name = none := by
    rintro c' rfl
    cases isGroup with
    | false => cases hg
    | true =>
      obtain ⟨c'', hc'', he⟩ := Option.map_eq_some_iff.mp hg
      cases he
      exact LruCache.new_spec h hc''
  refine ⟨⟨hi, fun c' hc' => (hgroup c' hc').1, fun k r hr => ?_, fun k k' r hr => ?_⟩, ?_,
    fun groups hgs => ?_, rfl⟩
  · rw [hl] at hr
    cases hr
  · rw [hl] at hr
    cases hr
  · exact funext fun k => by simp [view, stored, hl]
  · obtain ⟨c', hc', rfl⟩ := Option.map_eq_some_iff.mp hgs
    exact funext (hgroup c' hc').2

/-- A call on a `TimedCache`, as a relation. -/
def Calls (t : TimedCache K V) (c : Call K V) (a : Answer V) (t' : TimedCache K V) : Prop :=
  t.call c = some (t', a)

/-- A client has made the calls `calls` on a new cache, with these answers. The clock shows
milliseconds since 1970. -/
structure Reaches (capacity : Int) (expireInterval : Int64) (isGroup : Bool)
    (calls : List (Call K V × Answer V)) (t : TimedCache K V) (clock : Int64) : Prop where
  int : capacity < 2 ^ 31
  run : ∃ t₀ clock₀, new capacity expireInterval isGroup = some t₀ ∧ 0 ≤ clock₀ ∧
    Run (Timed Calls) (t₀, clock₀) calls (t, clock)

/-- The calls `cs` made one after the other: the end, and the calls with their answers. -/
def play (p : TimedCache K V × Int64) :
    List (Call K V) → Option ((TimedCache K V × Int64) × List (Call K V × Answer V))
  | [] => some (p, [])
  | c :: cs => do
    let (t, a) ← p.1.call c
    let clock ← c.tick p.2
    let (p', calls) ← play (t, clock) cs
    some (p', (c, a) :: calls)

/-- The calls `cs` made on a new cache with their answers, and `f` of the end. -/
def observe {α : Type} (capacity : Int) (expireInterval : Int64) (isGroup : Bool) (clock : Int64)
    (cs : List (Call K V)) (f : TimedCache K V × Int64 → α) :
    Option (List (Call K V × Answer V) × α) :=
  (new capacity expireInterval isGroup).bind fun t =>
    (play (t, clock) cs).map fun r => (r.2, f r.1)

theorem run_of_play {cs : List (Call K V)} {p p' : TimedCache K V × Int64}
    {calls : List (Call K V × Answer V)} (h : play p cs = some (p', calls)) :
    Run (Timed Calls) p calls p' := by
  induction cs generalizing p calls with
  | nil =>
    cases h
    exact .nil
  | cons c cs ih =>
    obtain ⟨⟨t, a⟩, hc, h⟩ := Option.bind_eq_some_iff.mp h
    obtain ⟨clock, ht, h⟩ := Option.bind_eq_some_iff.mp h
    obtain ⟨⟨p'', calls'⟩, hp, h⟩ := Option.bind_eq_some_iff.mp h
    cases h
    exact (Run.single (⟨hc, ht⟩ : Timed Calls p (c, a) (t, clock))).append (ih hp)

section
variable {capacity : Int} {expireInterval : Int64} {isGroup : Bool}
  {calls : List (Call K V × Answer V)} {t t' : TimedCache K V} {clock clock' : Int64}

/-- **The calls of a client are a run of the store**, from the empty one. -/
theorem Reaches.view (h : Reaches capacity expireInterval isGroup calls t clock) :
    t.Inv ∧ ∃ groups clock₀, (∀ G, groups = some G → G = fun _ => none) ∧ 0 ≤ clock₀ ∧
      Run (Timed Store.Step) (⟨fun _ => none, groups, expireInterval⟩, clock₀) calls
        (t.view, clock) := by
  obtain ⟨t₀, clock₀, hnew, hc, hrun⟩ := h.run
  obtain ⟨hi, he, hg, hd⟩ := new_spec h.int hnew
  have hsim := Run.simulate (I := fun p => p.1.Inv) (f := fun p => (p.1.view, p.2))
    (Timed Store.Step) hrun hi (fun p l p' hp hs => by
      obtain ⟨hi', hs'⟩ := call_refines hp hs.1
      exact ⟨hi', hs', hs.2⟩)
  refine ⟨hsim.1, t₀.view.groups, clock₀, hg, hc, ?_⟩
  have hv : t₀.view = ⟨fun _ => none, t₀.view.groups, expireInterval⟩ := by
    rw [← he, ← hd]
  rw [← hv]
  exact hsim.2

theorem Reaches.snoc {l : Call K V × Answer V}
    (h : Reaches capacity expireInterval isGroup calls t clock)
    (hs : Timed Calls (t, clock) l (t', clock')) :
    Reaches capacity expireInterval isGroup (calls ++ [l]) t' clock' := by
  obtain ⟨t₀, clock₀, hnew, hc, hrun⟩ := h.run
  exact ⟨h.int, t₀, clock₀, hnew, hc, hrun.snoc hs⟩

theorem Reaches.snoc_inv (calls : List (Call K V × Answer V)) {l : Call K V × Answer V}
    (h : Reaches capacity expireInterval isGroup (calls ++ [l]) t' clock') :
    ∃ t clock, Reaches capacity expireInterval isGroup calls t clock ∧
      Timed Calls (t, clock) l (t', clock') := by
  obtain ⟨t₀, clock₀, hnew, hc, hrun⟩ := h.run
  obtain ⟨⟨t, clock⟩, hrun, hs⟩ := hrun.snoc_inv
  exact ⟨t, clock, ⟨h.int, t₀, clock₀, hnew, hc, hrun⟩, hs⟩

theorem Reaches.append {more : List (Call K V × Answer V)}
    (h : Reaches capacity expireInterval isGroup calls t clock)
    (hs : Run (Timed Calls) (t, clock) more (t', clock')) :
    Reaches capacity expireInterval isGroup (calls ++ more) t' clock' := by
  obtain ⟨t₀, clock₀, hnew, hc, hrun⟩ := h.run
  exact ⟨h.int, t₀, clock₀, hnew, hc, hrun.append hs⟩

/-- Where the calls of a client lead, by evaluation. -/
theorem Reaches.of_observe {α : Type} {clock₀ : Int64} {cs : List (Call K V)}
    {f : TimedCache K V × Int64 → α} {x : α} (hint : capacity < 2 ^ 31) (hc : 0 ≤ clock₀)
    (h : observe capacity expireInterval isGroup clock₀ cs f = some (calls, x)) :
    ∃ t clock, Reaches capacity expireInterval isGroup calls t clock ∧ f (t, clock) = x := by
  obtain ⟨t₀, hnew, h⟩ := Option.bind_eq_some_iff.mp h
  obtain ⟨⟨⟨t, clock⟩, ls⟩, hp, h⟩ := Option.map_eq_some_iff.mp h
  cases h
  exact ⟨t, clock, ⟨hint, t₀, clock₀, hnew, hc, run_of_play hp⟩, rfl⟩

end

end TimedCache

end BaseService.LocalCache
