import BaseService.LocalCache.Values
import BaseService.Notify.Consumers

/-!
# `TimedCacheFactory`

The named caches of a process and the messages that keep them synchronised.

* `getInstance` and its siblings : a module is created once, with a listener if it is synchronised;
* `remove`, `refrushGroup` : the local call and the message for the other processes;
* `target` : which module and which key a listener finds in a message;
* `excute` : what a listener does; `Acts` : the ways through it.

The callbacks are not part of the repository: an `Env` has their answers and the readings of the
clock. A message arrives as the object that was sent.
-/

namespace BaseService.LocalCache
open Function (update)
open Notify (Host Message MessageType)

/-- The keys of a cache. What a message names is a string, which equals no other object. -/
inductive Key (O : Type)
  | string (s : String)
  | object (o : O)
  deriving DecidableEq, Repr

namespace Key
variable {O : Type}

/-- `String.valueOf(key)`. -/
def toString [ToString O] : Key O → String
  | string s => s
  | object o => ToString.toString o

instance [HashCode O] : HashCode (Key O) where
  hashCode
    | string s => hashCode s
    | object o => hashCode o

end Key

structure TimedCacheFactory (O V C : Type) where
  module : String
  timedCache : TimedCache (Key O) V
  needSync : Bool
  topic : Option String
  removeCallBack : Option C

/-- The listener that `startConsumer` makes. No two of them are equal. -/
structure Listener (C : Type) where
  ref : Nat
  callBack : Option C
  deriving DecidableEq

/-- The static fields of a process. -/
structure Process (O V C : Type) where
  identification : Host
  INSTANCE_LIST : String → Option (TimedCacheFactory O V C)
  consumers : Notify.Consumers.Registry (Listener C)
  /-- The listeners made so far. -/
  listeners : Nat

/-- What a method meets: the answers of the callbacks, and its readings of the clock. -/
structure Env (O V C : Type) where
  getItem : C → Key O → Outcome (Option V)
  groupNow : Int64
  now : Int64
  putNow : Int64

/-- A call on the cache of a module. -/
structure Issued (O V : Type) where
  module : String
  call : Call (Key O) V
  answer : Answer V

/-- The arguments of the methods that find or create a module. `sync` is the topic, which may be
null, of a synchronised one. -/
structure Request (C : Type) where
  moduleName : String
  capacity : Int
  expireInterval : Int64
  isGroup : Bool
  sync : Option (Option String)
  callBack : Option C

namespace Process
variable {O V C : Type}

/-- `Notify.identification` is set; there are no modules yet. -/
def init (identification : Host) : Process O V C :=
  ⟨identification, fun _ => none, ⟨[], fun _ => none, []⟩, 0⟩

def startConsumer [DecidableEq C] (this : Process O V C) (topic : String) (callBack : Option C) :
    Process O V C :=
  { this with
    consumers := Notify.Consumers.register this.consumers topic this.identification.toString
      ⟨this.listeners, callBack⟩ 5
    listeners := this.listeners + 1 }

def topicOf (topic : Option String) : String :=
  match topic with
  | some topic => if StringUtils.isBlank topic then "cache_clear" else topic
  | none => "cache_clear"

/-- `INSTANCE_LIST.get(moduleName)`, or a new instance. -/
def instanceOf [DecidableEq C] (this : Process O V C) (r : Request C) :
    Option (Process O V C) :=
  match this.INSTANCE_LIST r.moduleName with
  | some _ => some this
  | none => do
    let timedCache ← TimedCache.new r.capacity r.expireInterval r.isGroup
    let topic := r.sync.map topicOf
    let this :=
      match topic with
      | some topic => this.startConsumer topic r.callBack
      | none => this
    let inst : TimedCacheFactory O V C :=
      { module := r.moduleName, timedCache, needSync := r.sync.isSome, topic,
        removeCallBack := r.callBack }
    some { this with INSTANCE_LIST := update this.INSTANCE_LIST r.moduleName (some inst) }

/-- A module that is new. -/
theorem instanceOf_new [DecidableEq C] {this this' : Process O V C} {r : Request C}
    (hnew : this.INSTANCE_LIST r.moduleName = none) (h : this.instanceOf r = some this') :
    ∃ timedCache, TimedCache.new r.capacity r.expireInterval r.isGroup = some timedCache ∧
      this'.identification = this.identification ∧
      this'.INSTANCE_LIST = update this.INSTANCE_LIST r.moduleName (some ⟨r.moduleName, timedCache,
        r.sync.isSome, r.sync.map topicOf, r.callBack⟩) ∧
      ∀ topic l, l ∈ (this'.consumers.listenerList topic).getD [] →
        l ∈ (this.consumers.listenerList topic).getD [] ∨
          r.sync.map topicOf = some topic ∧ l.callBack = r.callBack := by
  unfold instanceOf at h
  simp only [hnew] at h
  obtain ⟨timedCache, ht, h⟩ := Option.bind_eq_some_iff.mp h
  cases h
  refine ⟨timedCache, ht, ?_⟩
  cases r.sync with
  | none => exact ⟨rfl, rfl, fun topic l hl => Or.inl hl⟩
  | some topic =>
    refine ⟨rfl, rfl, fun topic' l hl => ?_⟩
    rcases (Notify.Consumers.mem_register ..).mp hl with hl | ⟨ht, rfl⟩
    · exact Or.inl hl
    · exact Or.inr ⟨congrArg some ht, rfl⟩

theorem instanceOf_isSome [DecidableEq C] (this : Process O V C) {r : Request C}
    (h₀ : 0 ≤ r.capacity) (h : r.capacity ≤ 2 ^ 29) : (this.instanceOf r).isSome := by
  unfold instanceOf
  cases this.INSTANCE_LIST r.moduleName with
  | some _ => rfl
  | none =>
    obtain ⟨t, ht⟩ := Option.isSome_iff_exists.mp
      (TimedCache.new_isSome h₀ h r.expireInterval r.isGroup :
        (TimedCache.new _ _ _ : Option (TimedCache (Key O) V)).isSome)
    simp only [ht]
    rfl

end Process

namespace Request
variable {C : Type}

def getInstance (moduleName : String) (capacity : Int) (expireInterval : Int64) : Request C :=
  ⟨moduleName, capacity, expireInterval, false, none, none⟩

def getInstanceSync (moduleName : String) (capacity : Int) (expireInterval : Int64)
    (topic : Option String) : Request C :=
  ⟨moduleName, capacity, expireInterval, false, some topic, none⟩

def getInstanceCallBack (moduleName : String) (capacity : Int) (expireInterval : Int64)
    (topic : Option String) (callBack : Option C) : Request C :=
  ⟨moduleName, capacity, expireInterval, false, some topic, callBack⟩

def getGroupInstance (moduleName : String) (capacity : Int) (expireInterval : Int64) : Request C :=
  ⟨moduleName, capacity, expireInterval, true, none, none⟩

def getGroupInstanceSync (moduleName : String) (capacity : Int) (expireInterval : Int64)
    (topic : Option String) : Request C :=
  ⟨moduleName, capacity, expireInterval, true, some topic, none⟩

end Request

/-! ## The sender -/

/-- `module + "@" + key`. -/
def address (module key : String) : String := module ++ "@" ++ key

namespace TimedCacheFactory
variable {O V C : Type} [DecidableEq O] [HashCode O] [ToString O]

omit [DecidableEq O] [HashCode O] in
def deleteMessage (identification : Host) (module : String) (key : Key O) : Message :=
  .new .LOCAL_CAHCE_DELETE identification (address module key.toString)

def refrushMessage (identification : Host) (module key : String) : Message :=
  .new .LOCAL_CACHE_REFRUSH_GROUP identification (address module key)

/-- `remove(key)`: the message it produces, its calls on the cache and its outcome. An exception
of the callback is one of `remove`. -/
def remove (this : TimedCacheFactory O V C) (identification : Host) (env : Env O V C)
    (key : Key O) :
    Option (TimedCacheFactory O V C × List Message × List (Call (Key O) V × Answer V) ×
      Outcome (Option V)) := do
  let produced := if this.needSync then [deleteMessage identification this.module key] else []
  let (timedCache, oldValue) ← this.timedCache.remove key
  let this := { this with timedCache }
  let removed : Call (Key O) V × Answer V := (.remove key, .value oldValue)
  match this.removeCallBack, oldValue with
  | some callBack, some _ =>
    match env.getItem callBack key with
    | .error e => some (this, produced, [removed], .error e)
    | .ok newValue => do
      let (timedCache, old) ← this.timedCache.put key newValue none env.putNow
      some ({ this with timedCache }, produced,
        [removed, (.put key newValue none env.putNow, .value old)], .ok oldValue)
  | _, _ => some (this, produced, [removed], .ok oldValue)

/-- The calls of `remove` on the cache. -/
theorem remove_run {this this' : TimedCacheFactory O V C} {identification : Host}
    {env : Env O V C} {key : Key O} {produced : List Message}
    {calls : List (Call (Key O) V × Answer V)} {outcome : Outcome (Option V)}
    (h : this.remove identification env key = some (this', produced, calls, outcome)) :
    Run TimedCache.Does this.timedCache calls this'.timedCache := by
  unfold remove at h
  obtain ⟨⟨cache, oldValue⟩, hr, h⟩ := Option.bind_eq_some_iff.mp h
  have hremoved : TimedCache.Does this.timedCache (.remove key, .value oldValue) cache := by
    simp [TimedCache.Does, TimedCache.Calls, TimedCache.call, hr]
  cases hcallBack : this.removeCallBack with
  | none =>
    simp only [hcallBack, Option.some.injEq, Prod.mk.injEq] at h
    obtain ⟨rfl, -, rfl, -⟩ := h
    exact .single hremoved
  | some callBack =>
    cases oldValue with
    | none =>
      simp only [hcallBack, Option.some.injEq, Prod.mk.injEq] at h
      obtain ⟨rfl, -, rfl, -⟩ := h
      exact .single hremoved
    | some v =>
      cases hitem : env.getItem callBack key with
      | error e =>
        simp only [hcallBack, hitem, Option.some.injEq, Prod.mk.injEq] at h
        obtain ⟨rfl, -, rfl, -⟩ := h
        exact .single hremoved
      | ok newValue =>
        simp only [hcallBack, hitem] at h
        obtain ⟨⟨cache', old⟩, hp, h⟩ := Option.bind_eq_some_iff.mp h
        simp only [Option.some.injEq, Prod.mk.injEq] at h
        obtain ⟨rfl, -, rfl, -⟩ := h
        refine (Run.single hremoved).snoc ?_
        simp [TimedCache.Does, TimedCache.Calls, TimedCache.call, hp]

/-- `refrushGroup(key)`. -/
def refrushGroup (this : TimedCacheFactory O V C) (identification : Host) (env : Env O V C)
    (key : String) :
    Option (TimedCacheFactory O V C × List Message × Outcome Unit) := do
  let (timedCache, result) ← this.timedCache.refrushGroup key env.now
  let this := { this with timedCache }
  match result with
  | .error e => some (this, [], .error e)
  | .ok () =>
    some (this, if this.needSync then [refrushMessage identification this.module key] else [],
      .ok ())

end TimedCacheFactory

/-! ## The listener -/

/-- What the `switch` of `excute` is about. -/
structure Target where
  messageType : MessageType
  moduleName : String
  key : String

/-- The beginning of `excute`; `none` if the message is ignored. -/
def target (identification : Host) (message : Option Message) : Outcome (Option Target) :=
  match message with
  | none => .error .nullPointer
  | some message =>
    let host : Host := ⟨message.h, message.p⟩
    match MessageType.getMessageTypeByCode message.t with
    | none => .ok none
    | some messageType =>
      match message.m with
      | none => .error .nullPointer
      | some m =>
        match StringUtils.split m '@' with
        | moduleName :: key :: _ =>
          if host.toString = identification.toString then .ok none
          else .ok (some ⟨messageType, moduleName, key⟩)
        | _ => .ok none

namespace Process
variable {O V C : Type} [DecidableEq O] [HashCode O]

/-- The `switch` of `excute`: the calls it makes on the cache, and its result. -/
def act (env : Env O V C) (callBack : Option C) (cache : TimedCache (Key O) V)
    (messageType : MessageType) (key : String) :
    Option (TimedCache (Key O) V × List (Call (Key O) V × Answer V) × Bool) :=
  match messageType with
  | .LOCAL_CAHCE_DELETE =>
    match callBack with
    | some callBack => do
      let (cache, old) ← cache.get (.string key) env.groupNow env.now
      let found : Call (Key O) V × Answer V :=
        (.get (.string key) env.groupNow env.now, .of .value old)
      match old with
      | .error _ => some (cache, [found], false)
      | .ok none => some (cache, [found], true)
      | .ok (some _) =>
        match env.getItem callBack (.string key) with
        | .error _ => some (cache, [found], false)
        | .ok none => some (cache, [found], true)
        | .ok (some item) => do
          let (cache, old) ← cache.put (.string key) (some item) none env.putNow
          some (cache, [found, (.put (.string key) (some item) none env.putNow, .value old)], true)
    | none => do
      let (cache, old) ← cache.remove (.string key)
      some (cache, [(.remove (.string key), .value old)], true)
  | .LOCAL_CACHE_REFRUSH_GROUP => do
    let (cache, result) ← cache.refrushGroup key env.now
    let refrushed : Call (Key O) V × Answer V :=
      (.refrushGroup key env.now, .of (fun _ => .void) result)
    some (cache, [refrushed], result.isOk)
  | .SCHEDULE_SINGLE_EXECUTE | .SCHEDULE_ALL_EXECUTE => some (cache, [], true)

/-- The cache of a module has changed. -/
def setCache (this : Process O V C) (moduleName : String) (inst : TimedCacheFactory O V C)
    (timedCache : TimedCache (Key O) V) : Process O V C :=
  { this with
    INSTANCE_LIST := update this.INSTANCE_LIST moduleName (some { inst with timedCache }) }

omit [DecidableEq O] [HashCode O] in
theorem setCache_self (this : Process O V C) (moduleName : String)
    (inst : TimedCacheFactory O V C) (timedCache : TimedCache (Key O) V) :
    (this.setCache moduleName inst timedCache).INSTANCE_LIST moduleName =
      some { inst with timedCache } :=
  Function.update_self ..

omit [DecidableEq O] [HashCode O] in
theorem setCache_of_ne (this : Process O V C) {moduleName name : String} (h : name ≠ moduleName)
    (inst : TimedCacheFactory O V C) (timedCache : TimedCache (Key O) V) :
    (this.setCache moduleName inst timedCache).INSTANCE_LIST name = this.INSTANCE_LIST name :=
  Function.update_of_ne h ..

/-- The listener's `excute(message)`; exceptions are caught. -/
def excute (this : Process O V C) (env : Env O V C) (callBack : Option C)
    (message : Option Message) : Option (Process O V C × List (Issued O V) × Bool) :=
  match target this.identification message with
  | .error _ => some (this, [], false)
  | .ok none => some (this, [], true)
  | .ok (some t) =>
    match this.INSTANCE_LIST t.moduleName with
    | none => some (this, [], true)
    | some inst => do
      let (cache, calls, accepted) ← act env callBack inst.timedCache t.messageType t.key
      some (this.setCache t.moduleName inst cache,
        calls.map fun c => ⟨t.moduleName, c.1, c.2⟩, accepted)

/-! ## What a listener does -/

section
variable {env : Env O V C} {callBack : Option C} {cache cache' : TimedCache (Key O) V}
  {messageType : MessageType} {key : String} {calls : List (Call (Key O) V × Answer V)}
  {accepted : Bool}

/-- The ways through the `switch`. -/
inductive Acts (env : Env O V C) (cache : TimedCache (Key O) V) (key : String) :
    Option C → MessageType → TimedCache (Key O) V → List (Call (Key O) V × Answer V) → Bool → Prop
  | removed {old : Option V} {cache' : TimedCache (Key O) V} :
    TimedCache.Calls cache (.remove (.string key)) (.value old) cache' →
      Acts env cache key none .LOCAL_CAHCE_DELETE cache'
        [(.remove (.string key), .value old)] true
  | absent {c : C} {cache' : TimedCache (Key O) V} :
    TimedCache.Calls cache (.get (.string key) env.groupNow env.now) (.value none) cache' →
      Acts env cache key (some c) .LOCAL_CAHCE_DELETE cache'
        [(.get (.string key) env.groupNow env.now, .value none)] true
  | thrown {c : C} {e : Thrown} {cache' : TimedCache (Key O) V} :
    TimedCache.Calls cache (.get (.string key) env.groupNow env.now) (.thrown e) cache' →
      Acts env cache key (some c) .LOCAL_CAHCE_DELETE cache'
        [(.get (.string key) env.groupNow env.now, .thrown e)] false
  | failed {c : C} {v : V} {e : Thrown} {cache' : TimedCache (Key O) V} :
    TimedCache.Calls cache (.get (.string key) env.groupNow env.now) (.value (some v)) cache' →
      env.getItem c (.string key) = .error e →
      Acts env cache key (some c) .LOCAL_CAHCE_DELETE cache'
        [(.get (.string key) env.groupNow env.now, .value (some v))] false
  | kept {c : C} {v : V} {cache' : TimedCache (Key O) V} :
    TimedCache.Calls cache (.get (.string key) env.groupNow env.now) (.value (some v)) cache' →
      env.getItem c (.string key) = .ok none →
      Acts env cache key (some c) .LOCAL_CAHCE_DELETE cache'
        [(.get (.string key) env.groupNow env.now, .value (some v))] true
  | reloaded {c : C} {v item : V} {old : Option V} {cache₁ cache' : TimedCache (Key O) V} :
    TimedCache.Calls cache (.get (.string key) env.groupNow env.now) (.value (some v)) cache₁ →
      env.getItem c (.string key) = .ok (some item) →
      TimedCache.Calls cache₁ (.put (.string key) (some item) none env.putNow) (.value old) cache' →
      Acts env cache key (some c) .LOCAL_CAHCE_DELETE cache'
        [(.get (.string key) env.groupNow env.now, .value (some v)),
          (.put (.string key) (some item) none env.putNow, .value old)] true
  | refrushed {callBack : Option C} {a : Answer V} {accepted : Bool}
    {cache' : TimedCache (Key O) V} :
    TimedCache.Calls cache (.refrushGroup key env.now) a cache' →
      Acts env cache key callBack .LOCAL_CACHE_REFRUSH_GROUP cache'
        [(.refrushGroup key env.now, a)] accepted
  | ignored {callBack : Option C} {messageType : MessageType} :
    messageType = .SCHEDULE_SINGLE_EXECUTE ∨ messageType = .SCHEDULE_ALL_EXECUTE →
      Acts env cache key callBack messageType cache [] true

theorem act_acts (h : act env callBack cache messageType key = some (cache', calls, accepted)) :
    Acts env cache key callBack messageType cache' calls accepted := by
  unfold act at h
  cases messageType with
  | SCHEDULE_SINGLE_EXECUTE =>
    cases h
    exact .ignored (Or.inl rfl)
  | SCHEDULE_ALL_EXECUTE =>
    cases h
    exact .ignored (Or.inr rfl)
  | LOCAL_CACHE_REFRUSH_GROUP =>
    obtain ⟨⟨t, o⟩, hr, h⟩ := Option.bind_eq_some_iff.mp h
    cases h
    exact .refrushed (by simp [TimedCache.Calls, TimedCache.call, hr])
  | LOCAL_CAHCE_DELETE =>
    cases callBack with
    | none =>
      obtain ⟨⟨t, old⟩, hr, h⟩ := Option.bind_eq_some_iff.mp h
      cases h
      exact .removed (by simp [TimedCache.Calls, TimedCache.call, hr])
    | some c =>
      obtain ⟨⟨t, o⟩, hg, h⟩ := Option.bind_eq_some_iff.mp h
      have hget : TimedCache.Calls cache (.get (.string key) env.groupNow env.now) (.of .value o) t := by
        simp [TimedCache.Calls, TimedCache.call, hg]
      cases o with
      | error e =>
        cases h
        exact .thrown hget
      | ok old =>
        cases old with
        | none =>
          cases h
          exact .absent hget
        | some v =>
          simp only at h
          split at h
          · next e hitem =>
            cases h
            exact .failed hget hitem
          · next hitem =>
            cases h
            exact .kept hget hitem
          · next item hitem =>
            obtain ⟨⟨t', old'⟩, hp, h⟩ := Option.bind_eq_some_iff.mp h
            cases h
            exact .reloaded hget hitem (by simp [TimedCache.Calls, TimedCache.call, hp])

theorem Acts.run (h : Acts env cache key callBack messageType cache' calls accepted) :
    Run TimedCache.Does cache calls cache' := by
  cases h with
  | ignored => exact .nil
  | reloaded hget _ hput => exact (Run.single hget).snoc hput
  | removed hc | absent hc | thrown hc | failed hc | kept hc | refrushed hc => exact .single hc

/-- A value is only put if the callback of this listener has returned it for a key that the cache
answers. -/
theorem Acts.put (h : Acts env cache key callBack messageType cache' calls accepted)
    {k : Key O} {v : Option V} {g : Option CacheGroup} {now : Int64} {a : Answer V}
    (hc : (.put k v g now, a) ∈ calls) :
    messageType = .LOCAL_CAHCE_DELETE ∧ (∃ c, callBack = some c ∧ env.getItem c k = .ok v) ∧
      ∃ w t, TimedCache.Calls cache (.get (.string key) env.groupNow env.now) (.value (some w)) t := by
  cases h with
  | @reloaded c w item old t cache' hget hitem hput =>
    simp only [List.mem_cons, List.not_mem_nil, or_false, Prod.mk.injEq, reduceCtorEq, false_and,
      false_or, Call.put.injEq] at hc
    obtain ⟨⟨rfl, rfl, -, -⟩, -⟩ := hc
    exact ⟨rfl, ⟨c, rfl, hitem⟩, w, t, hget⟩
  | _ => simp at hc

/-- An entry is only removed by a listener without a callback. -/
theorem Acts.remove (h : Acts env cache key callBack messageType cache' calls accepted)
    {k : Key O} {a : Answer V} (hc : (.remove k, a) ∈ calls) :
    messageType = .LOCAL_CAHCE_DELETE ∧ callBack = none ∧ k = .string key := by
  cases h with
  | removed =>
    simp only [List.mem_singleton, Prod.mk.injEq, Call.remove.injEq] at hc
    exact ⟨rfl, rfl, hc.1⟩
  | _ => simp at hc

/-- What `excute` does: it gets past the message without a call, or it acts on the target. -/
theorem excute_cases {this this' : Process O V C} {message : Option Message}
    {issued : List (Issued O V)}
    (h : this.excute env callBack message = some (this', issued, accepted)) :
    (this' = this ∧ issued = [] ∧ ∀ t, target this.identification message = .ok (some t) →
      this.INSTANCE_LIST t.moduleName = none) ∨
    ∃ t inst cache' calls, target this.identification message = .ok (some t) ∧
      this.INSTANCE_LIST t.moduleName = some inst ∧
      Acts env inst.timedCache t.key callBack t.messageType cache' calls accepted ∧
      this' = this.setCache t.moduleName inst cache' ∧
      issued = calls.map fun c => ⟨t.moduleName, c.1, c.2⟩ := by
  unfold excute at h
  split at h
  · next e ht =>
    cases h
    exact Or.inl ⟨rfl, rfl, fun t ht' => by rw [ht] at ht'; cases ht'⟩
  · next ht =>
    cases h
    exact Or.inl ⟨rfl, rfl, fun t ht' => by rw [ht] at ht'; cases ht'⟩
  · next t ht =>
    split at h
    · next hinst =>
      cases h
      refine Or.inl ⟨rfl, rfl, fun t' ht' => ?_⟩
      rw [ht] at ht'
      cases ht'
      exact hinst
    · next inst hinst =>
      obtain ⟨⟨cache', calls, accepted'⟩, ha, h⟩ := Option.bind_eq_some_iff.mp h
      cases h
      exact Or.inr ⟨t, inst, cache', calls, ht, hinst, act_acts ha, rfl, rfl⟩

theorem excute_spec {this this' : Process O V C} {message : Option Message}
    {issued : List (Issued O V)} {t : Target} {inst : TimedCacheFactory O V C}
    (ht : target this.identification message = .ok (some t))
    (hinst : this.INSTANCE_LIST t.moduleName = some inst)
    (h : this.excute env callBack message = some (this', issued, accepted)) :
    ∃ cache' calls, Acts env inst.timedCache t.key callBack t.messageType cache' calls accepted ∧
      this' = this.setCache t.moduleName inst cache' ∧
      issued = calls.map fun c => ⟨t.moduleName, c.1, c.2⟩ := by
  rcases excute_cases h with ⟨-, -, hnone⟩ | ⟨t', inst', cache', calls, ht', hinst', hacts, h⟩
  · rw [hnone t ht] at hinst
    cases hinst
  · rw [ht] at ht'
    cases ht'
    rw [hinst] at hinst'
    cases hinst'
    exact ⟨cache', calls, hacts, h⟩

end

end Process

end BaseService.LocalCache
