import BaseService.Java
import BaseService.StringUtils

/-!
# `LivelyService`

The lively items of a process, and what the batches of the two topics make of them.

* `LivelyItemEnum`, `KafkaEnum` : the lists and the topics;
* `entry`, `getStringSetMap` : the item of a message, and those of a batch by list;
* `LivelyService`, `execute` : `LIVELY_CACHE` with the tables of the process, and the executors;
* `Accepts`, `execute_returns` : an executor throws at a number that is none and at a list that was
  not initialised;
* `items`, `execute_cache` : else it adds the items of each list, or removes them.
-/

namespace BaseService.Lively
open Function (update)

/-! ## Lists and topics -/

inductive LivelyItemEnum
  | pid1Day
  | pid3Day
  | cid1Day
  | cid3Day
  | cidTest
  deriving DecidableEq, Repr

namespace LivelyItemEnum

def name : LivelyItemEnum → String
  | pid1Day => "pid_1_day"
  | pid3Day => "pid_3_day"
  | cid1Day => "cid_1_day"
  | cid3Day => "cid_3_day"
  | cidTest => "cid_test"

/-- The days that items are kept. -/
def days : LivelyItemEnum → Int
  | pid1Day => 1
  | pid3Day => 3
  | cid1Day => 1
  | cid3Day => 3
  | cidTest => 1

def values : List LivelyItemEnum := [pid1Day, pid3Day, cid1Day, cid3Day, cidTest]

def getLivelyItemByName (name : String) : Option LivelyItemEnum :=
  values.find? fun each => each.name = name

theorem getLivelyItemByName_iff {key : String} {e : LivelyItemEnum} :
    getLivelyItemByName key = some e ↔ e.name = key := by
  constructor
  · intro h
    simpa using List.find?_some h
  · rintro rfl
    cases e <;> decide

theorem name_injective : Function.Injective name := by
  intro e e' h
  have he := getLivelyItemByName_iff.2 h
  rw [getLivelyItemByName_iff.2 rfl] at he
  exact (Option.some.inj he).symm

theorem name_spec (e : LivelyItemEnum) : e.name ≠ "" ∧ '@' ∉ e.name.toList := by
  cases e <;> decide

theorem toList_name (e : LivelyItemEnum) (item : String) :
    (e.name ++ "@" ++ item).toList = e.name.toList ++ '@' :: item.toList := by
  rw [String.toList_append, String.toList_append, List.append_assoc]
  rfl

end LivelyItemEnum

inductive KafkaEnum
  | livelyAddTopic
  | livelyDelTopic
  deriving DecidableEq, Repr

def KafkaEnum.name : KafkaEnum → String
  | livelyAddTopic => "lively_add"
  | livelyDelTopic => "lively_del"

/-! ## Messages -/

/-- The list's name and the item of a message. `some none` : it has no `@` and is skipped; `none` :
`Long.valueOf` throws. -/
def entry (each : String) : Option (Option (String × Int64)) :=
  match StringUtils.split each '@' with
  | name :: item :: _ => (Long.valueOf item).map fun item => some (name, item)
  | _ => some none

/-- The message of an item. -/
def message (e : LivelyItemEnum) (item : Int64) : String := e.name ++ "@" ++ toString item

/-- A map from names to sets of items, as its pairs. -/
abbrev StringSetMap := Finset (String × Int64)

def StringSetMap.get (msgs : StringSetMap) (key : String) : Finset Int64 :=
  (msgs.filter fun e => e.1 = key).image Prod.snd

def getStringSetMap (message : Finset String) : Option StringSetMap :=
  if ∃ each ∈ message, entry each = none then none
  else some (message.biUnion fun each => ((entry each).join.map ({·})).getD ∅)

/-- The items of the list in the messages. -/
def items (e : LivelyItemEnum) (message : Finset String) : Finset Int64 :=
  message.biUnion fun each =>
    match (entry each).join with
    | some (name, item) => if name = e.name then {item} else ∅
    | none => ∅

theorem mem_items {e : LivelyItemEnum} {message : Finset String} {item : Int64} :
    item ∈ items e message ↔ ∃ each ∈ message, entry each = some (some (e.name, item)) := by
  simp only [items, Finset.mem_biUnion]
  refine exists_congr fun each => and_congr_right fun _ => ?_
  rcases hentry : entry each with _ | _ | ⟨name, item'⟩
  · simp
  · simp
  · by_cases hname : name = e.name <;> simp [hname, eq_comm]

theorem items_union (e : LivelyItemEnum) (m m' : Finset String) :
    items e (m ∪ m') = items e m ∪ items e m' := Finset.union_biUnion

theorem mem_getStringSetMap {message : Finset String} {msgs : StringSetMap}
    (h : getStringSetMap message = some msgs) {name : String} {item : Int64} :
    (name, item) ∈ msgs ↔ ∃ each ∈ message, entry each = some (some (name, item)) := by
  rw [getStringSetMap] at h
  split at h
  · cases h
  · obtain rfl := Option.some.inj h
    simp only [Finset.mem_biUnion]
    refine exists_congr fun each => and_congr_right fun _ => ?_
    rcases hentry : entry each with _ | _ | ⟨name', item'⟩
    · simp
    · simp
    · simp [eq_comm]

theorem get_getStringSetMap {message : Finset String} {msgs : StringSetMap}
    (h : getStringSetMap message = some msgs) (e : LivelyItemEnum) :
    msgs.get e.name = items e message := by
  ext item
  simp only [StringSetMap.get, Finset.mem_image, Finset.mem_filter, mem_items, Prod.exists]
  constructor
  · rintro ⟨name, item', ⟨hmem, rfl⟩, rfl⟩
    exact (mem_getStringSetMap h).1 hmem
  · intro hmem
    exact ⟨e.name, item, ⟨(mem_getStringSetMap h).2 hmem, rfl⟩, rfl⟩

/-- A message that a producer sends is read as its item. -/
theorem entry_message (e : LivelyItemEnum) (item : Int64) :
    entry (message e item) = some (some (e.name, item)) := by
  have hitem : toString item ≠ "" ∧ '@' ∉ (toString item).toList := by
    obtain ⟨hne, hchars⟩ := Long.toString_spec item
    refine ⟨hne, fun h => ?_⟩
    rcases hchars '@' h with h | h <;> exact absurd h (by decide)
  rw [entry, message, StringUtils.split_pair (e.toList_name _) e.name_spec hitem]
  simp only [Long.valueOf_toString, Option.map_some]

theorem items_message (e : LivelyItemEnum) (item : Int64) : items e {message e item} = {item} := by
  ext item'
  simp only [mem_items, Finset.mem_singleton, exists_eq_left, entry_message, Option.some.injEq,
    Prod.mk.injEq, true_and, eq_comm]

/-- A message names the list it is made for. -/
theorem entry_name {e : LivelyItemEnum} {member name : String} {item : Int64}
    (h : entry (e.name ++ "@" ++ member) = some (some (name, item))) : name = e.name := by
  rw [entry, StringUtils.split_cons (e.toList_name member) e.name_spec] at h
  cases htokens : StringUtils.split member '@' with
  | nil => simp [htokens] at h
  | cons token tokens =>
    simp only [htokens, Option.map_eq_some_iff, Option.some.injEq, Prod.mk.injEq] at h
    obtain ⟨-, -, hname, -⟩ := h
    exact hname.symm

/-! ## The executors -/

/-- `LIVELY_CACHE`, and the tables of the lists in the process's database. -/
structure LivelyService where
  cache : LivelyItemEnum → Option (Finset Int64)
  table : LivelyItemEnum → Option (Finset Int64)

/-- `DataStore.batchInsert`; without `ok` it has caught an exception, and the transaction is gone. -/
def batchInsert (ok : Bool) (items : Finset Int64) (table : Option (Finset Int64)) :
    Option (Finset Int64) :=
  if ok then table.map (· ∪ items) else table

def batchDelete (ok : Bool) (items : Finset Int64) (table : Option (Finset Int64)) :
    Option (Finset Int64) :=
  if ok then table.map (· \ items) else table

/-- An order for the iteration over the keys of a `HashMap`. -/
structure KeyOrder where
  keys : Finset String → List String
  nodup : ∀ s, (keys s).Nodup
  mem : ∀ s key, key ∈ keys s ↔ key ∈ s

def KeyOrder.sorted : KeyOrder where
  keys s := s.sort (· ≤ ·)
  nodup s := s.sort_nodup _
  mem s _ := s.mem_sort _

namespace LivelyService

/-- `init` of a list, with what Redis has of it, until it starts the consumers; `none` : the process
exits. -/
def init (this : LivelyService) (e : LivelyItemEnum) (livelyFromRedis : Finset Int64) (ok : Bool) :
    Option LivelyService :=
  match this.table e with
  | some livelyFromBD => some { this with cache := update this.cache e (some livelyFromBD) }
  | none =>
    if ok then some {
      cache := update this.cache e (some livelyFromRedis)
      table := update this.table e (batchInsert ok livelyFromRedis (some ∅)) }
    else none

/-- One list of the batch in `addConsumer`, and whether this returns normally. -/
def addEach (ok : LivelyItemEnum → Bool) (e : LivelyItemEnum) (values : Finset Int64)
    (this : LivelyService) : Bool × LivelyService :=
  match this.cache e with
  | none => (false, this)
  | some cacheItem =>
    let values := values \ cacheItem
    (true, {
      cache := update this.cache e (some (cacheItem ∪ values))
      table := update this.table e (batchInsert (ok e) values (this.table e)) })

/-- One list of the batch in `delConsumer`. -/
def delEach (ok : LivelyItemEnum → Bool) (e : LivelyItemEnum) (values : Finset Int64)
    (this : LivelyService) : Bool × LivelyService :=
  let table := update this.table e (batchDelete (ok e) values (this.table e))
  match this.cache e with
  | none => (false, { this with table := table })
  | some cacheItem => (true, ⟨update this.cache e (some (cacheItem \ values)), table⟩)

/-- The lists of the batch one after the other, until one throws; unknown names are skipped. -/
def forEach (body : LivelyItemEnum → Finset Int64 → LivelyService → Bool × LivelyService)
    (msgs : StringSetMap) : List String → LivelyService → Bool × LivelyService
  | [], this => (true, this)
  | key :: keys, this =>
    match LivelyItemEnum.getLivelyItemByName key with
    | none => forEach body msgs keys this
    | some e =>
      match body e (msgs.get key) this with
      | (true, this) => forEach body msgs keys this
      | (false, this) => (false, this)

/-- What a topic's executor does with a list of the batch. -/
def each : KafkaEnum → (LivelyItemEnum → Bool) →
    LivelyItemEnum → Finset Int64 → LivelyService → Bool × LivelyService
  | .livelyAddTopic => addEach
  | .livelyDelTopic => delEach

/-- The executor of a topic; `ok` are the calls of the database that succeed. -/
def execute (topic : KafkaEnum) (ok : LivelyItemEnum → Bool) (order : KeyOrder)
    (message : Finset String) (this : LivelyService) : Bool × LivelyService :=
  match getStringSetMap message with
  | none => (false, this)
  | some msgs => forEach (each topic ok) msgs (order.keys (msgs.image Prod.fst)) this

end LivelyService

/-! ## What the executors do -/

/-- What a topic makes of the items of a list. -/
def KafkaEnum.effect : KafkaEnum → Finset Int64 → Finset Int64 → Finset Int64
  | livelyAddTopic, cacheItem, values => cacheItem ∪ values
  | livelyDelTopic, cacheItem, values => cacheItem \ values

@[simp]
theorem KafkaEnum.effect_empty (topic : KafkaEnum) (cacheItem : Finset Int64) :
    topic.effect cacheItem ∅ = cacheItem := by
  cases topic <;> simp [effect]

theorem KafkaEnum.effect_union (topic : KafkaEnum) (cacheItem values values' : Finset Int64) :
    topic.effect cacheItem (values ∪ values') = topic.effect (topic.effect cacheItem values) values' := by
  cases topic with
  | livelyAddTopic => exact (Finset.union_assoc ..).symm
  | livelyDelTopic => exact (sdiff_sdiff_left ..).symm

namespace LivelyService
variable {topic : KafkaEnum} {ok : LivelyItemEnum → Bool}

/-- The list was initialised in this process. -/
def Has (this : LivelyService) (e : LivelyItemEnum) : Prop := this.cache e ≠ none

/-- The executors do not throw at the message. -/
def Accepts (this : LivelyService) (each : String) : Prop :=
  entry each ≠ none ∧ ∀ e item, entry each = some (some (e.name, item)) → this.Has e

theorem init_has {e : LivelyItemEnum} {livelyFromRedis : Finset Int64} {ok : Bool}
    {this this' : LivelyService} (h : this.init e livelyFromRedis ok = some this') : this'.Has e := by
  rw [init] at h
  split at h
  · obtain rfl := Option.some.inj h
    simp [Has]
  · split at h
    · obtain rfl := Option.some.inj h
      simp [Has]
    · cases h

theorem each_none {e : LivelyItemEnum} {values : Finset Int64} {this : LivelyService}
    (h : this.cache e = none) : (each topic ok e values this).1 = false := by
  cases topic <;> simp only [each, addEach, delEach, h]

theorem each_some {e : LivelyItemEnum} {values cacheItem : Finset Int64} {this : LivelyService}
    (h : this.cache e = some cacheItem) :
    (each topic ok e values this).1 = true ∧
      (each topic ok e values this).2.cache =
        update this.cache e (some (topic.effect cacheItem values)) := by
  cases topic with
  | livelyAddTopic => simp [each, addEach, h, KafkaEnum.effect]
  | livelyDelTopic => simp [each, delEach, h, KafkaEnum.effect]

theorem Has.each {e e' : LivelyItemEnum} {values : Finset Int64} {this : LivelyService}
    (he : this.Has e) : (each topic ok e values this).2.Has e' ↔ this.Has e' := by
  obtain ⟨cacheItem, h⟩ := Option.ne_none_iff_exists'.1 he
  rw [Has, Has, (each_some h).2]
  by_cases heq : e' = e
  · subst heq
    simp [h]
  · rw [Function.update_of_ne heq]

theorem forEach_unknown {msgs : StringSetMap} {key : String} {keys : List String}
    {this : LivelyService} (h : ∀ e : LivelyItemEnum, e.name ≠ key) :
    forEach (each topic ok) msgs (key :: keys) this = forEach (each topic ok) msgs keys this := by
  have hkey : LivelyItemEnum.getLivelyItemByName key = none := by
    rw [Option.eq_none_iff_forall_ne_some]
    exact fun e he => h e (LivelyItemEnum.getLivelyItemByName_iff.1 he)
  rw [forEach, hkey]

theorem forEach_none {msgs : StringSetMap} {e : LivelyItemEnum} {keys : List String}
    {this : LivelyService} (h : this.cache e = none) :
    (forEach (each topic ok) msgs (e.name :: keys) this).1 = false := by
  rw [forEach, LivelyItemEnum.getLivelyItemByName_iff.2 rfl]
  have hfalse : (each topic ok e (msgs.get e.name) this).1 = false := each_none h
  cases heach : each topic ok e (msgs.get e.name) this with
  | mk b this' =>
    rw [heach] at hfalse
    obtain rfl : b = false := hfalse
    simp only [heach]

theorem forEach_some {msgs : StringSetMap} {e : LivelyItemEnum} {keys : List String}
    {this : LivelyService} (h : this.Has e) :
    forEach (each topic ok) msgs (e.name :: keys) this =
      forEach (each topic ok) msgs keys (each topic ok e (msgs.get e.name) this).2 := by
  obtain ⟨cacheItem, h⟩ := Option.ne_none_iff_exists'.1 h
  rw [forEach, LivelyItemEnum.getLivelyItemByName_iff.2 rfl]
  have htrue : (each topic ok e (msgs.get e.name) this).1 = true := (each_some h).1
  cases heach : each topic ok e (msgs.get e.name) this with
  | mk b this' =>
    rw [heach] at htrue
    obtain rfl : b = true := htrue
    simp only [heach]

theorem forEach_returns {msgs : StringSetMap} {keys : List String} {this : LivelyService} :
    (forEach (each topic ok) msgs keys this).1 = true ↔
      ∀ e : LivelyItemEnum, e.name ∈ keys → this.Has e := by
  induction keys generalizing this with
  | nil => simp [forEach]
  | cons key keys ih =>
    by_cases hkey : ∃ e : LivelyItemEnum, e.name = key
    · obtain ⟨e, rfl⟩ := hkey
      simp only [List.mem_cons, LivelyItemEnum.name_injective.eq_iff, forall_eq_or_imp]
      by_cases he : this.Has e
      · rw [forEach_some he, ih]
        simp only [he.each, he, true_and]
      · rw [forEach_none (not_not.1 he)]
        simp [he]
    · simp only [not_exists] at hkey
      rw [forEach_unknown hkey, ih]
      refine forall_congr' fun e => ?_
      rw [List.mem_cons, or_iff_right (hkey e)]

theorem forEach_cache {msgs : StringSetMap} {keys : List String} {this : LivelyService}
    (hnodup : keys.Nodup) (h : (forEach (each topic ok) msgs keys this).1 = true)
    (e : LivelyItemEnum) :
    (forEach (each topic ok) msgs keys this).2.cache e =
      if e.name ∈ keys then (this.cache e).map (topic.effect · (msgs.get e.name))
      else this.cache e := by
  induction keys generalizing this with
  | nil => simp [forEach]
  | cons key keys ih =>
    rw [List.nodup_cons] at hnodup
    by_cases hkey : ∃ e : LivelyItemEnum, e.name = key
    · obtain ⟨e', rfl⟩ := hkey
      have he' := forEach_returns.1 h e' List.mem_cons_self
      obtain ⟨cacheItem, hcache⟩ := Option.ne_none_iff_exists'.1 he'
      rw [forEach_some he'] at h ⊢
      rw [ih hnodup.2 h, (each_some hcache).2]
      by_cases heq : e = e'
      · subst heq
        simp [hnodup.1, hcache]
      · simp [heq, LivelyItemEnum.name_injective.eq_iff]
    · simp only [not_exists] at hkey
      rw [forEach_unknown hkey] at h ⊢
      rw [ih hnodup.2 h]
      simp [hkey e]

variable {order : KeyOrder} {message : Finset String} {this : LivelyService}

theorem execute_returns : (execute topic ok order message this).1 = true ↔
    ∀ each ∈ message, this.Accepts each := by
  rw [execute]
  cases hmsgs : getStringSetMap message with
  | none =>
    rw [getStringSetMap] at hmsgs
    split at hmsgs
    · next hnone =>
      obtain ⟨each, heach, hnone⟩ := hnone
      simp only [Bool.false_eq_true, false_iff]
      exact fun h => (h each heach).1 hnone
    · cases hmsgs
  | some msgs =>
    rw [forEach_returns]
    have hnone : ∀ each ∈ message, entry each ≠ none := by
      intro each heach hnone
      rw [getStringSetMap, if_pos ⟨each, heach, hnone⟩] at hmsgs
      cases hmsgs
    have hkeys (e : LivelyItemEnum) : e.name ∈ order.keys (msgs.image Prod.fst) ↔
        ∃ each ∈ message, ∃ item, entry each = some (some (e.name, item)) := by
      simp only [order.mem, Finset.mem_image, Prod.exists, exists_and_right, exists_eq_right,
        mem_getStringSetMap hmsgs]
      exact ⟨fun ⟨item, each, h, he⟩ => ⟨each, h, item, he⟩,
        fun ⟨each, h, item, he⟩ => ⟨item, each, h, he⟩⟩
    simp only [hkeys]
    exact ⟨fun h each heach => ⟨hnone each heach, fun e item he => h e ⟨each, heach, item, he⟩⟩,
      fun h e ⟨each, heach, item, he⟩ => (h each heach).2 e item he⟩

/-- An executor that returns has added the items of every list, or removed them. -/
theorem execute_cache (h : (execute topic ok order message this).1 = true) (e : LivelyItemEnum) :
    (execute topic ok order message this).2.cache e =
      (this.cache e).map (topic.effect · (items e message)) := by
  rw [execute] at h ⊢
  cases hmsgs : getStringSetMap message with
  | none => simp [hmsgs] at h
  | some msgs =>
    rw [hmsgs] at h
    rw [forEach_cache (order.nodup _) h, get_getStringSetMap hmsgs]
    split
    · rfl
    · next hkey =>
      have hempty : items e message = ∅ := by
        rw [Finset.eq_empty_iff_forall_notMem]
        intro item hitem
        refine hkey ((order.mem _ _).2 (Finset.mem_image.2 ⟨(e.name, item), ?_, rfl⟩))
        exact (mem_getStringSetMap hmsgs).2 (mem_items.1 hitem)
      simp [hempty]

theorem exists_execute (topic : KafkaEnum) (ok : LivelyItemEnum → Bool) (order : KeyOrder)
    (h : ∀ each ∈ message, this.Accepts each) :
    ∃ this', this.execute topic ok order message = (true, this') ∧
      ∀ e, this'.cache e = (this.cache e).map (topic.effect · (items e message)) :=
  ⟨_, Prod.ext (execute_returns.2 h) rfl, execute_cache (execute_returns.2 h)⟩

theorem execute_has (h : (execute topic ok order message this).1 = true) (e : LivelyItemEnum) :
    (execute topic ok order message this).2.Has e ↔ this.Has e := by
  rw [Has, Has, execute_cache h]
  simp

end LivelyService

end BaseService.Lively
