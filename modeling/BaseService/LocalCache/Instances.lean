import BaseService.LocalCache.Factory
import BaseService.LocalCache.Keys

/-!
# The instances of a process

One registry, keyed by the name of the module, serves the five methods that ask for an instance.

* `Broadcasts`, `Reloads`, `Supports` : what an instance does, whatever its cache holds by then;
* `Serves` : it does what a request has asked for;
* `Run.instances` : the registry after some calls holds what the first call for each name made;
* `serves_iff` : **an instance does what a call has asked for exactly if the first call for its
  module has asked for it.**
-/

namespace BaseService.LocalCache
open Function (update)
open Notify (Host Message MessageType)

namespace TimedCache
variable {K V : Type} [DecidableEq K] [HashCode K] {t t' : TimedCache K V}

omit [DecidableEq K] [HashCode K] in
theorem getGroup_groupCache {name : String} {now : Int64} {o : Outcome CacheGroup}
    (h : t.getGroup name now = some (t', o)) :
    t'.groupCache.isSome = t.groupCache.isSome ∧ o.isOk = t.groupCache.isSome := by
  unfold getGroup at h
  cases hg : t.groupCache with
  | none =>
    rw [hg] at h
    cases h
    rw [hg]
    exact ⟨rfl, rfl⟩
  | some c =>
    rw [hg] at h
    obtain ⟨⟨c₁, group⟩, -, h⟩ := Option.bind_eq_some_iff.mp h
    cases group with
    | some group =>
      cases h
      exact ⟨rfl, rfl⟩
    | none =>
      obtain ⟨⟨c₂, old⟩, -, h⟩ := Option.bind_eq_some_iff.mp h
      cases h
      exact ⟨rfl, rfl⟩

omit [DecidableEq K] [HashCode K] in
theorem refrushGroup_groupCache {name : String} {now : Int64} {o : Outcome Unit}
    (h : t.refrushGroup name now = some (t', o)) :
    t'.groupCache.isSome = t.groupCache.isSome ∧ o.isOk = t.groupCache.isSome := by
  unfold refrushGroup at h
  cases hg : t.groupCache with
  | none =>
    rw [hg] at h
    cases h
    rw [hg]
    exact ⟨rfl, rfl⟩
  | some c =>
    rw [hg] at h
    obtain ⟨⟨c₁, old⟩, -, h⟩ := Option.bind_eq_some_iff.mp h
    cases h
    exact ⟨rfl, rfl⟩

theorem get_groupCache {k : K} {groupNow now : Int64} {o : Outcome (Option V)}
    (h : t.get k groupNow now = some (t', o)) :
    t'.groupCache.isSome = t.groupCache.isSome := by
  have hend : ∀ {t₁ : TimedCache K V} {v : Option V} {p : Prop} [Decidable p],
      (if p then some (t₁, .ok v) else t₁.drop k) = some (t', o) →
      t'.groupCache = t₁.groupCache := by
    intro t₁ v p _ h
    split at h
    · cases h
      rfl
    · obtain ⟨⟨c, old⟩, -, h⟩ := Option.bind_eq_some_iff.mp h
      cases h
      rfl
  unfold get at h
  obtain ⟨⟨c, entry⟩, -, h⟩ := Option.bind_eq_some_iff.mp h
  cases entry with
  | none =>
    cases h
    rfl
  | some r =>
    dsimp only at h
    cases hgroup : (t.entry r).group with
    | none =>
      rw [hgroup] at h
      rw [hend h]
    | some g =>
      rw [hgroup] at h
      obtain ⟨⟨t₁, o₁⟩, hg, h⟩ := Option.bind_eq_some_iff.mp h
      have h₁ := (getGroup_groupCache hg).1
      cases o₁ with
      | error e =>
        cases h
        exact h₁
      | ok c' =>
        rw [hend h]
        exact h₁

/-- No call adds groups to a cache, or takes them away. -/
theorem call_groupCache {c : Call K V} {a : Answer V} (h : t.call c = some (t', a)) :
    t'.groupCache.isSome = t.groupCache.isSome := by
  cases c with
  | getGroup name now =>
    obtain ⟨⟨t₁, o⟩, hrun, h⟩ := Option.map_eq_some_iff.mp h
    cases h
    exact (getGroup_groupCache hrun).1
  | refrushGroup name now =>
    obtain ⟨⟨t₁, o⟩, hrun, h⟩ := Option.map_eq_some_iff.mp h
    cases h
    exact (refrushGroup_groupCache hrun).1
  | get k groupNow now =>
    obtain ⟨⟨t₁, o⟩, hrun, h⟩ := Option.map_eq_some_iff.mp h
    cases h
    exact get_groupCache hrun
  | put k v g now =>
    obtain ⟨⟨t₁, o⟩, hrun, h⟩ := Option.map_eq_some_iff.mp h
    cases h
    obtain ⟨⟨c, old⟩, -, hrun⟩ := Option.bind_eq_some_iff.mp hrun
    cases hrun
    rfl
  | expireInterval k d now =>
    obtain ⟨t₁, hrun, h⟩ := Option.map_eq_some_iff.mp h
    cases h
    obtain ⟨⟨c, entry⟩, -, hrun⟩ := Option.bind_eq_some_iff.mp hrun
    cases entry with
    | none =>
      cases hrun
      rfl
    | some r =>
      cases hrun
      rfl
  | getRemains k d now =>
    obtain ⟨⟨t₁, o⟩, hrun, h⟩ := Option.map_eq_some_iff.mp h
    cases h
    obtain ⟨⟨c, entry⟩, -, hrun⟩ := Option.bind_eq_some_iff.mp hrun
    cases entry with
    | none =>
      cases hrun
      rfl
    | some r =>
      cases hrun
      rfl
  | remove k =>
    obtain ⟨⟨t₁, o⟩, hrun, h⟩ := Option.map_eq_some_iff.mp h
    cases h
    obtain ⟨⟨c, old⟩, -, hrun⟩ := Option.bind_eq_some_iff.mp hrun
    cases hrun
    rfl
  | removeAll =>
    obtain ⟨t₁, hrun, h⟩ := Option.map_eq_some_iff.mp h
    cases h
    obtain ⟨c, -, hrun⟩ := Option.bind_eq_some_iff.mp hrun
    cases hrun
    rfl

theorem run_groupCache {calls : List (Call K V × Answer V)} (h : Run Does t calls t') :
    t'.groupCache.isSome = t.groupCache.isSome :=
  h.invariant (I := fun u : TimedCache K V => u.groupCache.isSome = t.groupCache.isSome) rfl
    fun _ _ _ hi hs => (call_groupCache hs).trans hi

/-- A cache that holds a value answers it when it is removed, and takes another one. -/
theorem removes_value (k : K) (v : V) :
    ∃ t : TimedCache K V, ∃ c, t.remove k = some (c, some v) ∧
      ∀ v' now, ∃ p, c.put k v' none now = some p := by
  have hsome : (new 1 0 false : Option (TimedCache K V)).isSome :=
    new_isSome (by decide) (by decide) 0 false
  obtain ⟨t₀, ht₀⟩ := Option.isSome_iff_exists.mp hsome
  have h₀ := new_counts (by decide) ht₀
  obtain ⟨t₁, o, hput, h₁⟩ := put_counts h₀ (by decide) k (some v) none 0
  obtain ⟨hi, hstep⟩ := put_refines (new_spec (by decide) ht₀).1 hput
  obtain ⟨c, hrun, -, -⟩ := remove_spec hi k
  rw [hstep.put_value] at hrun
  obtain ⟨c', a, hcall, hc'⟩ := call_counts h₁ (by decide) (.remove k)
  rw [call, hrun] at hcall
  cases hcall
  refine ⟨t₁, c, hrun, fun v' now => ?_⟩
  obtain ⟨t₂, o', hput', -⟩ := put_counts hc' (by decide) k v' none now
  exact ⟨(t₂, o'), hput'⟩

end TimedCache

/-! ## What an instance does -/

namespace TimedCacheFactory
variable {O V C : Type} [DecidableEq O] [HashCode O] [ToString O]

/-- `remove` produces its message on `topic`, or none. -/
def Broadcasts (inst : TimedCacheFactory O V C) (topic : Option String) : Prop :=
  ∀ (timedCache : TimedCache (Key O) V) (identification : Host) (env : Env O V C) (key : Key O)
    inst' produced calls outcome,
    { inst with timedCache := timedCache }.remove identification env key =
        some (inst', produced, calls, outcome) →
      produced.map (fun message => (inst.topic, message)) =
        topic.toList.map fun topic => (some topic, deleteMessage identification inst.module key)

/-- What comes after the removal of a value: the callback's new one is put. -/
def reload (callBack : Option C) (env : Env O V C) (key : Key O) (oldValue : Option V) :
    List (Call (Key O) V) :=
  match callBack, oldValue with
  | some callBack, some _ =>
    match env.getItem callBack key with
    | .ok newValue => [.put key newValue none env.putNow]
    | .error _ => []
  | _, _ => []

/-- `remove` reloads through `callBack`, or not at all. -/
def Reloads (inst : TimedCacheFactory O V C) (callBack : Option C) : Prop :=
  ∀ (timedCache : TimedCache (Key O) V) (identification : Host) (env : Env O V C) (key : Key O)
    inst' produced calls outcome,
    { inst with timedCache := timedCache }.remove identification env key =
        some (inst', produced, calls, outcome) →
      ∃ c oldValue, timedCache.remove key = some (c, oldValue) ∧
        calls.map Prod.fst = .remove key :: reload callBack env key oldValue

omit [ToString O] in
/-- At any later time `getGroup` and `refrushGroup` do not throw. -/
def Supports (inst : TimedCacheFactory O V C) : Prop :=
  ∀ (calls : List (Call (Key O) V × Answer V)) (t : TimedCache (Key O) V) (name : String)
    (now : Int64), Run TimedCache.Does inst.timedCache calls t →
    (∀ t' o, t.getGroup name now = some (t', o) → o.isOk) ∧
      ∀ t' o, t.refrushGroup name now = some (t', o) → o.isOk

/-- An instance does what a request has asked for. -/
structure Serves (inst : TimedCacheFactory O V C) (r : Request C) : Prop where
  broadcasts : inst.Broadcasts (r.sync.map Process.topicOf)
  reloads : inst.Reloads r.callBack
  supports : r.isGroup = true → inst.Supports

section
variable {inst : TimedCacheFactory O V C}

/-- The branches of `remove`. -/
theorem remove_spec {inst' : TimedCacheFactory O V C} {identification : Host} {env : Env O V C}
    {key : Key O} {produced : List Message} {calls : List (Call (Key O) V × Answer V)}
    {outcome : Outcome (Option V)}
    (h : inst.remove identification env key = some (inst', produced, calls, outcome)) :
    produced = (if inst.needSync then [deleteMessage identification inst.module key] else []) ∧
      ∃ c oldValue, inst.timedCache.remove key = some (c, oldValue) ∧
        calls.map Prod.fst = .remove key :: reload inst.removeCallBack env key oldValue := by
  unfold remove at h
  obtain ⟨⟨cache, oldValue⟩, hr, h⟩ := Option.bind_eq_some_iff.mp h
  cases hcallBack : inst.removeCallBack with
  | none =>
    simp only [hcallBack, Option.some.injEq, Prod.mk.injEq] at h
    obtain ⟨-, rfl, rfl, -⟩ := h
    exact ⟨rfl, cache, oldValue, hr, rfl⟩
  | some callBack =>
    cases oldValue with
    | none =>
      simp only [hcallBack, Option.some.injEq, Prod.mk.injEq] at h
      obtain ⟨-, rfl, rfl, -⟩ := h
      exact ⟨rfl, cache, none, hr, rfl⟩
    | some v =>
      cases hitem : env.getItem callBack key with
      | error e =>
        simp only [hcallBack, hitem, Option.some.injEq, Prod.mk.injEq] at h
        obtain ⟨-, rfl, rfl, -⟩ := h
        exact ⟨rfl, cache, some v, hr, by simp [reload, hitem]⟩
      | ok newValue =>
        simp only [hcallBack, hitem] at h
        obtain ⟨⟨cache', old⟩, hp, h⟩ := Option.bind_eq_some_iff.mp h
        simp only [Option.some.injEq, Prod.mk.injEq] at h
        obtain ⟨-, rfl, rfl, -⟩ := h
        exact ⟨rfl, cache, some v, hr, by simp [reload, hitem]⟩

theorem remove_completes {timedCache c : TimedCache (Key O) V} {key : Key O} {oldValue : Option V}
    (hr : timedCache.remove key = some (c, oldValue))
    (hput : oldValue.isSome → ∀ v now, ∃ p, c.put key v none now = some p)
    (inst : TimedCacheFactory O V C) (identification : Host) (env : Env O V C) :
    ∃ inst' produced calls outcome,
      { inst with timedCache := timedCache }.remove identification env key =
        some (inst', produced, calls, outcome) := by
  unfold remove
  simp only [hr, Option.bind_eq_bind, Option.bind_some]
  cases inst.removeCallBack with
  | none => exact ⟨_, _, _, _, rfl⟩
  | some callBack =>
    cases oldValue with
    | none => exact ⟨_, _, _, _, rfl⟩
    | some v =>
      cases hitem : env.getItem callBack key with
      | error e => exact ⟨_, _, _, _, by simp only [hitem]; rfl⟩
      | ok newValue =>
        obtain ⟨p, hp⟩ := hput rfl newValue env.putNow
        exact ⟨_, _, _, _, by simp only [hitem, hp, Option.bind_some]; rfl⟩

theorem broadcasts_iff {topic : Option String} :
    inst.Broadcasts topic ↔
      (if inst.needSync then [inst.topic] else []) = topic.toList.map some := by
  constructor
  · intro h
    -- an empty cache will do
    have hsome : (TimedCache.new 1 0 false : Option (TimedCache (Key O) V)).isSome :=
      TimedCache.new_isSome (by decide) (by decide) 0 false
    obtain ⟨t, ht⟩ := Option.isSome_iff_exists.mp hsome
    obtain ⟨hi, hempty, -, -⟩ := TimedCache.new_spec (by decide) ht
    obtain ⟨c, hr, -, -⟩ := TimedCache.remove_spec hi (.string "")
    rw [Store.value, hempty] at hr
    let env : Env O V C := ⟨fun _ _ => .error .nullPointer, 0, 0, 0⟩
    obtain ⟨inst', produced, calls, outcome, hrun⟩ :=
      remove_completes hr (fun h => by cases h) inst ⟨none, 0⟩ env
    have hspec := h _ _ _ _ _ _ _ _ hrun
    rw [(remove_spec hrun).1] at hspec
    have htopics := congrArg (List.map Prod.fst) hspec
    rw [List.map_map, List.map_map] at htopics
    have hright : topic.toList.map some = topic.toList.map
        (Prod.fst ∘ fun topic => (some topic, deleteMessage ⟨none, 0⟩ inst.module
          (.string "" : Key O))) := rfl
    rw [hright, ← htopics]
    show (if inst.needSync then [inst.topic] else []) = List.map _ (if inst.needSync then _ else _)
    split <;> rfl
  · intro h timedCache identification env key inst' produced calls outcome hrun
    rw [(remove_spec hrun).1]
    show List.map _ (if inst.needSync then _ else _) = _
    have hmap : ∀ l : List (Option String), (if inst.needSync then [inst.topic] else []) = l →
        List.map (fun message => (inst.topic, message))
          (if inst.needSync then [deleteMessage identification inst.module key] else []) =
        l.map fun topic => (topic, deleteMessage identification inst.module key) := by
      rintro l rfl
      split <;> rfl
    rw [hmap _ h, List.map_map]
    rfl

omit [DecidableEq O] [HashCode O] [ToString O] in
/-- A callback is told from the others, and from none, by the items that it alone returns. -/
theorem reload_inj {callBack callBack' : Option C} {key : Key O} {v : V}
    (h : ∀ env : Env O V C, reload callBack env key (some v) = reload callBack' env key (some v)) :
    callBack = callBack' := by
  classical
  let only (c : C) : Env O V C :=
    ⟨fun c' _ => if c' = c then .ok none else .error .nullPointer, 0, 0, 0⟩
  cases callBack with
  | none =>
    cases callBack' with
    | none => rfl
    | some c' =>
      have hc := h (only c')
      simp [reload, only] at hc
  | some c =>
    have hc := h (only c)
    cases callBack' with
    | none => simp [reload, only] at hc
    | some c' =>
      by_cases he : c' = c
      · rw [he]
      · simp [reload, only, he] at hc

theorem reloads_iff [Nonempty V] {callBack : Option C} :
    inst.Reloads callBack ↔ inst.removeCallBack = callBack := by
  constructor
  · intro h
    obtain ⟨v⟩ := ‹Nonempty V›
    obtain ⟨t, c, hr, hput⟩ := TimedCache.removes_value (Key.string "" : Key O) v
    have hsame : ∀ env : Env O V C, reload inst.removeCallBack env (.string "") (some v) =
        reload callBack env (.string "") (some v) := by
      intro env
      obtain ⟨inst', produced, calls, outcome, hrun⟩ :=
        remove_completes hr (fun _ => hput) inst ⟨none, 0⟩ env
      obtain ⟨c₁, old₁, hr₁, hcalls₁⟩ := (remove_spec hrun).2
      obtain ⟨c₂, old₂, hr₂, hcalls₂⟩ := h _ _ _ _ _ _ _ _ hrun
      cases hr₁.symm.trans hr
      cases hr₂.symm.trans hr
      exact (List.cons.inj (hcalls₁.symm.trans hcalls₂)).2
    exact reload_inj hsame
  · rintro rfl timedCache identification env key inst' produced calls outcome hrun
    exact (remove_spec hrun).2

omit [ToString O] in
theorem supports_iff : inst.Supports ↔ inst.timedCache.groupCache.isSome = true := by
  constructor
  · intro h
    cases hg : inst.timedCache.groupCache with
    | some c => rfl
    | none =>
      have hrun : inst.timedCache.getGroup "" 0 = some (inst.timedCache, .error .nullPointer) := by
        simp [TimedCache.getGroup, hg]
      have hok := (h [] inst.timedCache "" 0 .nil).1 _ _ hrun
      cases hok
  · intro hg calls t name now hrun
    have ht := (TimedCache.run_groupCache hrun).trans hg
    refine ⟨fun t' o h => ?_, fun t' o h => ?_⟩
    · exact (TimedCache.getGroup_groupCache h).2.trans ht
    · exact (TimedCache.refrushGroup_groupCache h).2.trans ht

end

end TimedCacheFactory

/-! ## The registry -/

namespace Process
variable {O V C : Type} [DecidableEq C]

/-- A call of one of the five methods. -/
def Requested (this : Process O V C) (r : Request C) (this' : Process O V C) : Prop :=
  this.instanceOf r = some this'

/-- The instance of a module is the one that its first request has made. -/
structure MadeBy (r : Request C) (inst : TimedCacheFactory O V C) : Prop where
  timedCache : TimedCache.new r.capacity r.expireInterval r.isGroup = some inst.timedCache
  needSync : inst.needSync = r.sync.isSome
  topic : inst.topic = r.sync.map topicOf
  removeCallBack : inst.removeCallBack = r.callBack

/-- The first request for the module `name`. -/
def first (rs : List (Request C)) (name : String) : Option (Request C) :=
  rs.find? fun r => r.moduleName = name

omit [DecidableEq C] in
theorem first_append (rs : List (Request C)) (r : Request C) (name : String) :
    first (rs ++ [r]) name = (first rs name).or (if r.moduleName = name then some r else none) := by
  rw [first, List.find?_append, List.find?_singleton]
  simp [first]

/-- What the registry has under a name whose first request, if there was any, is `r`. -/
def Registered (this : Process O V C) (name : String) : Option (Request C) → Prop
  | none => this.INSTANCE_LIST name = none
  | some r => ∃ inst, this.INSTANCE_LIST name = some inst ∧ MadeBy r inst

theorem Registered.step {this this' : Process O V C} {name : String} {o : Option (Request C)}
    {r : Request C} (h : this.Registered name o) (hs : this.Requested r this') :
    this'.Registered name (o.or (if r.moduleName = name then some r else none)) := by
  cases hold : this.INSTANCE_LIST r.moduleName with
  | some inst =>
    have hsame : this = this' := by simpa [Requested, instanceOf, hold] using hs
    subst hsame
    cases o with
    | some r₀ => exact h
    | none =>
      have hne : r.moduleName ≠ name := by
        rintro rfl
        cases hold.symm.trans h
      rw [if_neg hne]
      exact h
  | none =>
    obtain ⟨timedCache, ht, -, hlist, -⟩ := instanceOf_new hold hs
    by_cases hname : r.moduleName = name
    · subst hname
      cases o with
      | some r₀ =>
        obtain ⟨inst, hinst, -⟩ := h
        cases hinst.symm.trans hold
      | none =>
        rw [if_pos rfl]
        refine ⟨⟨r.moduleName, timedCache, r.sync.isSome, r.sync.map topicOf, r.callBack⟩, ?_,
          ht, rfl, rfl, rfl⟩
        rw [hlist, Function.update_self]
    · have hkeep : this'.INSTANCE_LIST name = this.INSTANCE_LIST name := by
        rw [hlist, Function.update_of_ne (Ne.symm hname)]
      rw [if_neg hname, Option.or_none]
      cases o with
      | none => exact hkeep.trans h
      | some r₀ =>
        obtain ⟨inst, hinst, hmade⟩ := h
        exact ⟨inst, hkeep.trans hinst, hmade⟩

theorem registered {identification : Host} {rs : List (Request C)} {this : Process O V C}
    (h : Run Requested (init identification) rs this) (name : String) :
    this.Registered name (first rs name) := by
  induction h with
  | nil => rfl
  | snoc _ hs ih =>
    rw [first_append]
    exact ih.step hs

omit [DecidableEq C] in
theorem MadeBy.groups {r : Request C} {inst : TimedCacheFactory O V C} (h : MadeBy r inst) :
    inst.timedCache.groupCache.isSome = r.isGroup := by
  obtain ⟨c, -, hs⟩ := Option.bind_eq_some_iff.mp h.timedCache
  obtain ⟨g, hg, hs⟩ := Option.bind_eq_some_iff.mp hs
  rw [← Option.some.inj hs]
  show g.isSome = r.isGroup
  cases hgroup : r.isGroup with
  | false =>
    rw [hgroup] at hg
    cases hg
    rfl
  | true =>
    rw [hgroup] at hg
    obtain ⟨c', -, rfl⟩ := Option.map_eq_some_iff.mp hg
    rfl

section
variable [DecidableEq O] [HashCode O] [ToString O]

omit [DecidableEq C] in
/-- An instance serves the requests that agree with the one that has made it. -/
theorem MadeBy.correct_iff [Nonempty V] {r r' : Request C} {inst : TimedCacheFactory O V C}
    (h : MadeBy r inst) :
    inst.Serves r' ↔ r.sync.map topicOf = r'.sync.map topicOf ∧ r.callBack = r'.callBack ∧
      (r'.isGroup = true → r.isGroup = true) := by
  have hbroadcasts : inst.Broadcasts (r'.sync.map topicOf) ↔
      r.sync.map topicOf = r'.sync.map topicOf := by
    rw [TimedCacheFactory.broadcasts_iff, h.needSync, h.topic]
    cases r.sync <;> cases r'.sync <;> simp
  have hreloads : inst.Reloads r'.callBack ↔ r.callBack = r'.callBack := by
    rw [TimedCacheFactory.reloads_iff, h.removeCallBack]
  have hsupports : inst.Supports ↔ r.isGroup = true := by
    rw [TimedCacheFactory.supports_iff, h.groups]
  rw [← hbroadcasts, ← hreloads, ← hsupports]
  exact ⟨fun hs => ⟨hs.broadcasts, hs.reloads, hs.supports⟩, fun hs => ⟨hs.1, hs.2.1, hs.2.2⟩⟩

/-- **What an instance does for a call**: what the first call for the module has asked for. -/
theorem serves_iff [Nonempty V] {identification : Host} {before : List (Request C)}
    {r : Request C} {this this' : Process O V C}
    (hrun : Run Requested (init identification) before this) (hs : this.Requested r this') :
    ∃ inst r₀, this'.INSTANCE_LIST r.moduleName = some inst ∧
      first (before ++ [r]) r.moduleName = some r₀ ∧
      (inst.Serves r ↔ r₀.sync.map topicOf = r.sync.map topicOf ∧ r₀.callBack = r.callBack ∧
        (r.isGroup = true → r₀.isGroup = true)) := by
  have hreg := registered (hrun.snoc hs) r.moduleName
  obtain ⟨r₀, hr₀⟩ : ∃ r₀, first (before ++ [r]) r.moduleName = some r₀ := by
    rw [first_append, if_pos rfl]
    cases first before r.moduleName with
    | none => exact ⟨r, rfl⟩
    | some r₀ => exact ⟨r₀, rfl⟩
  rw [hr₀] at hreg
  obtain ⟨inst, hinst, hmade⟩ := hreg
  exact ⟨inst, r₀, hinst, hr₀, hmade.correct_iff⟩

/-- A module that is asked for once. -/
theorem serves_iff_once : ∃ this : Process String Nat Nat,
    (init ⟨some "10.0.0.1", 7080⟩).Requested (.getGroupInstanceSync "u" 4 100 (some "t")) this ∧
    ∃ inst, ∃ r₀ : Request Nat, this.INSTANCE_LIST "u" = some inst ∧
      first ([] ++ [.getGroupInstanceSync "u" 4 100 (some "t")]) "u" = some r₀ ∧
      (inst.Serves (.getGroupInstanceSync "u" 4 100 (some "t")) ↔
        r₀.sync.map topicOf = some "t" ∧ r₀.callBack = none ∧ (true = true → r₀.isGroup = true)) := by
  obtain ⟨this, h⟩ := Option.isSome_iff_exists.mp (instanceOf_isSome
    (init ⟨some "10.0.0.1", 7080⟩ : Process String Nat Nat)
    (r := .getGroupInstanceSync "u" 4 100 (some "t")) (by decide) (by decide))
  exact ⟨this, h, serves_iff .nil h⟩

/-- The two modules of the test: the second one asks for a callback under the same name. -/
theorem serves_not_second : ∃ this this' : Process String Nat Nat, ∃ inst,
    Run Requested (init ⟨some "10.0.0.1", 7080⟩)
      [.getInstanceSync "test_local_cache" 10 60000 (some "test_topic")] this ∧
    this.Requested
      (.getInstanceCallBack "test_local_cache" 10 300000 (some "test_topic") (some 1)) this' ∧
    this'.INSTANCE_LIST "test_local_cache" = some inst ∧
    ¬ inst.Serves
      (.getInstanceCallBack "test_local_cache" 10 300000 (some "test_topic") (some 1)) := by
  obtain ⟨this, h⟩ := Option.isSome_iff_exists.mp (instanceOf_isSome
    (init ⟨some "10.0.0.1", 7080⟩ : Process String Nat Nat)
    (r := .getInstanceSync "test_local_cache" 10 60000 (some "test_topic")) (by decide) (by decide))
  obtain ⟨this', h'⟩ := Option.isSome_iff_exists.mp (instanceOf_isSome this
    (r := .getInstanceCallBack "test_local_cache" 10 300000 (some "test_topic") (some 1))
    (by decide) (by decide))
  have hrun : Run Requested (init ⟨some "10.0.0.1", 7080⟩)
      [.getInstanceSync "test_local_cache" 10 60000 (some "test_topic")] this := .single h
  obtain ⟨inst, hinst, hmade⟩ := registered (hrun.snoc h') "test_local_cache"
  refine ⟨this, this', inst, hrun, h', hinst, fun hserves => ?_⟩
  have hcallBack := (hmade.correct_iff.mp hserves).2.1
  cases hcallBack

end

end Process

end BaseService.LocalCache
