import BaseService.Lively.LivelyService

/-!
# Calls of the executors

What one call does with good and bad messages, and what a sequence of calls leaves in memory and in
the database of the process.

* `WellFormed` : `name@number` of a list; `execute_complete_iff` : **a call returns and every list
  has exactly the items of its messages added or removed iff no message has a number that is none
  or names a list that was not initialised**;
* `ExecutorCall`, `callAll` : a batch with the database calls that succeed, and several of them;
* `Saved` : memory and table of a list are equal; `Saves` : the database call succeeds, or the batch
  changes nothing;
* `call_saved` : **as long as the calls save, memory and table stay equal, so that a restart restores
  the memory**; `call_saved_iff` : a call that returns and does not save ends this.
-/

namespace BaseService.Lively
open Function (update)

/-! ## Good and bad messages -/

/-- The message is the list's name, `@` and a text that denotes the item. -/
def WellFormed (each : String) (e : LivelyItemEnum) (item : Int64) : Prop :=
  ∃ number, '@' ∉ number.toList ∧ Long.valueOf number = some item ∧ each = e.name ++ "@" ++ number

theorem WellFormed.entry {each : String} {e : LivelyItemEnum} {item : Int64}
    (h : WellFormed each e item) : entry each = some (some (e.name, item)) := by
  obtain ⟨number, hnumber, hvalue, rfl⟩ := h
  have hne : number ≠ "" := by
    rintro rfl
    have hnone : Long.valueOf "" = none := by decide
    rw [hnone] at hvalue
    cases hvalue
  rw [Lively.entry, StringUtils.split_pair (e.toList_name _) e.name_spec ⟨hne, hnumber⟩]
  simp only [hvalue, Option.map_some]

theorem WellFormed.message (e : LivelyItemEnum) (item : Int64) :
    WellFormed (message e item) e item := by
  refine ⟨toString item, fun h => ?_, Long.valueOf_toString item, rfl⟩
  rcases (Long.toString_spec item).2 '@' h with h | h <;> exact absurd h (by decide)

namespace LivelyService
variable {topic : KafkaEnum} {ok : LivelyItemEnum → Bool} {order : KeyOrder}
  {message : Finset String} {this : LivelyService}

/-- Every list has the items of its own messages added, or removed: those of the well-formed ones
are there, or gone. -/
def Complete (topic : KafkaEnum) (message : Finset String) (this this' : LivelyService) : Prop :=
  ∀ e cacheItem, this.cache e = some cacheItem → ∃ cacheItem', this'.cache e = some cacheItem' ∧
    cacheItem' = topic.effect cacheItem (items e message) ∧
    ∀ each ∈ message, ∀ item, WellFormed each e item →
      (item ∈ cacheItem' ↔ topic = .livelyAddTopic)

/-- **No bad message, no list left out.** -/
theorem execute_complete_iff :
    ((this.execute topic ok order message).1 = true ∧
        Complete topic message this (this.execute topic ok order message).2) ↔
      ∀ each ∈ message, this.Accepts each := by
  rw [execute_returns]
  apply and_iff_left_of_imp
  intro haccepts e cacheItem hcache
  refine ⟨_, ?_, rfl, ?_⟩
  · rw [execute_cache (execute_returns.2 haccepts), hcache, Option.map_some]
  · intro each heach item hformed
    have hitem : item ∈ items e message := mem_items.2 ⟨each, heach, hformed.entry⟩
    cases topic <;> simp [KafkaEnum.effect, hitem]

/-- A process that has initialised one list, which is empty. -/
def onePid : LivelyService where
  cache e := if e = .pid1Day then some ∅ else none
  table e := if e = .pid1Day then some ∅ else none

/-- An item that is no number keeps the well-formed message beside it from taking effect; so a list
that was not initialised makes the executor throw. -/
theorem bad_message_blocks :
    WellFormed "pid_1_day@5" .pid1Day 5 ∧
      onePid.execute .livelyAddTopic (fun _ => true) .sorted {"pid_1_day@x", "pid_1_day@5"} =
        (false, onePid) ∧
      ¬ Complete .livelyAddTopic {"pid_1_day@x", "pid_1_day@5"} onePid onePid ∧
      (onePid.execute .livelyAddTopic (fun _ => true) .sorted {"cid_test@7", "pid_1_day@5"}).1 =
        false := by
  have hformed : WellFormed "pid_1_day@5" .pid1Day 5 := ⟨"5", by decide, by decide, by decide⟩
  refine ⟨hformed, ?_, ?_, ?_⟩
  · have hnone : getStringSetMap {"pid_1_day@x", "pid_1_day@5"} = none :=
      if_pos ⟨"pid_1_day@x", by simp, by decide⟩
    rw [execute, hnone]
  · intro h
    obtain ⟨cacheItem, hcache, -, hitems⟩ := h .pid1Day ∅ rfl
    have hempty : cacheItem = ∅ := (Option.some.inj hcache).symm
    have hmem := (hitems "pid_1_day@5" (by simp) 5 hformed).2 rfl
    rw [hempty] at hmem
    exact Finset.notMem_empty _ hmem
  · rw [Bool.eq_false_iff, ne_eq, execute_returns]
    intro haccepts
    have htest : entry "cid_test@7" = some (some (LivelyItemEnum.cidTest.name, 7)) := by decide
    exact (haccepts "cid_test@7" (by simp)).2 .cidTest 7 htest rfl

end LivelyService

/-! ## Memory and database -/

/-- A batch, and the lists whose call of the database does not fail. -/
structure ExecutorCall where
  topic : KafkaEnum
  message : Finset String
  ok : LivelyItemEnum → Bool
  order : KeyOrder

namespace LivelyService
variable {topic : KafkaEnum} {ok : LivelyItemEnum → Bool} {e : LivelyItemEnum}
  {this : LivelyService}

/-- What a call leaves, also if it throws. -/
def call (this : LivelyService) (x : ExecutorCall) : LivelyService :=
  (this.execute x.topic x.ok x.order x.message).2

def callAll (this : LivelyService) (xs : List ExecutorCall) : LivelyService := xs.foldl call this

/-- The process after a restart, until it initialises its lists. -/
def restart (this : LivelyService) : LivelyService := { this with cache := fun _ => none }

/-- The list's `LIVELY_CACHE` and its table have the same items. -/
def Saved (this : LivelyService) (e : LivelyItemEnum) : Prop :=
  ∃ cacheItem, this.cache e = some cacheItem ∧ this.table e = some cacheItem

/-- A restart restores `LIVELY_CACHE`, whatever Redis has. -/
theorem Saved.restart (h : this.Saved e) (livelyFromRedis : Finset Int64) (ok : Bool) :
    ∃ this', this.restart.init e livelyFromRedis ok = some this' ∧ this'.cache e = this.cache e := by
  obtain ⟨cacheItem, hcache, htable⟩ := h
  refine ⟨{ this.restart with cache := update this.restart.cache e (some cacheItem) }, ?_, ?_⟩
  · have htable' : this.restart.table e = some cacheItem := htable
    rw [init, htable']
  · rw [hcache]
    exact Function.update_self ..

/-- The call of the database for the list does not fail, or the list has all items that are added,
or none of those that are deleted. -/
def Saves (this : LivelyService) (e : LivelyItemEnum) (x : ExecutorCall) : Prop :=
  x.ok e = true ∨ ∀ cacheItem, this.cache e = some cacheItem →
    x.topic.effect cacheItem (items e x.message) = cacheItem

theorem each_of_ne {e' : LivelyItemEnum} {values : Finset Int64} (h : e ≠ e') :
    (each topic ok e' values this).2.cache e = this.cache e ∧
      (each topic ok e' values this).2.table e = this.table e := by
  cases topic with
  | livelyAddTopic =>
    simp only [each, addEach]
    split <;> simp [h]
  | livelyDelTopic =>
    simp only [each, delEach]
    split <;> simp [h]

/-- What a failed call of the database leaves out is what the memory has more. -/
theorem each_self {cacheItem values : Finset Int64} (hcache : this.cache e = some cacheItem)
    (htable : this.table e = some cacheItem) :
    (each topic ok e values this).2.table e =
      some (if ok e then topic.effect cacheItem values else cacheItem) := by
  cases topic with
  | livelyAddTopic =>
    simp only [each, addEach, hcache, htable, Function.update_self, batchInsert, KafkaEnum.effect]
    split <;> simp
  | livelyDelTopic =>
    simp only [each, delEach, hcache, htable, Function.update_self, batchDelete, KafkaEnum.effect]
    split <;> simp

theorem forEach_frame {msgs : StringSetMap} {keys : List String} (h : e.name ∉ keys) :
    (forEach (each topic ok) msgs keys this).2.cache e = this.cache e ∧
      (forEach (each topic ok) msgs keys this).2.table e = this.table e := by
  induction keys generalizing this with
  | nil => exact ⟨rfl, rfl⟩
  | cons key keys ih =>
    rw [List.mem_cons, not_or] at h
    rw [forEach]
    split
    · exact ih h.2
    · next e' hkey =>
      have hne : e ≠ e' := by
        rintro rfl
        exact h.1 (LivelyItemEnum.getLivelyItemByName_iff.1 hkey)
      have heach : (each topic ok e' (msgs.get key) this).2.cache e = this.cache e ∧
          (each topic ok e' (msgs.get key) this).2.table e = this.table e := each_of_ne hne
      split
      · next this' hthis =>
        rw [hthis] at heach
        rw [(ih h.2).1, (ih h.2).2]
        exact heach
      · next this' hthis =>
        rw [hthis] at heach
        exact heach

/-- Whether the call throws or not, it leaves the list alone or executes all of its items. -/
theorem forEach_list {msgs : StringSetMap} {keys : List String} (hnodup : keys.Nodup)
    {cacheItem : Finset Int64} (hcache : this.cache e = some cacheItem)
    (htable : this.table e = some cacheItem) :
    let this' := (forEach (each topic ok) msgs keys this).2
    let cacheItem' := topic.effect cacheItem (msgs.get e.name)
    this'.cache e = some cacheItem ∧ this'.table e = some cacheItem ∨
      this'.cache e = some cacheItem' ∧
        this'.table e = some (if ok e then cacheItem' else cacheItem) := by
  intro this' cacheItem'
  induction keys generalizing this with
  | nil => exact .inl ⟨hcache, htable⟩
  | cons key keys ih =>
    rw [List.nodup_cons] at hnodup
    by_cases hkey : e.name = key
    · subst hkey
      have hhas : this.Has e := by
        rw [Has, hcache]
        exact Option.some_ne_none _
      right
      simp only [this', forEach_some hhas]
      rw [(forEach_frame hnodup.1).1, (forEach_frame hnodup.1).2, (each_some hcache).2,
        each_self hcache htable, Function.update_self]
      exact ⟨rfl, rfl⟩
    · simp only [this']
      rw [forEach]
      split
      · exact ih hnodup.2 hcache htable
      · next e' he' =>
        have hne : e ≠ e' := by
          rintro rfl
          exact hkey (LivelyItemEnum.getLivelyItemByName_iff.1 he')
        have heach : (each topic ok e' (msgs.get key) this).2.cache e = this.cache e ∧
            (each topic ok e' (msgs.get key) this).2.table e = this.table e := each_of_ne hne
        rw [hcache, htable] at heach
        split
        · next this' hthis =>
          rw [hthis] at heach
          exact ih hnodup.2 heach.1 heach.2
        · next this' hthis =>
          rw [hthis] at heach
          exact .inl heach

theorem call_list {x : ExecutorCall} {cacheItem : Finset Int64}
    (hcache : this.cache e = some cacheItem) (htable : this.table e = some cacheItem) :
    let cacheItem' := x.topic.effect cacheItem (items e x.message)
    (this.call x).cache e = some cacheItem ∧ (this.call x).table e = some cacheItem ∨
      (this.call x).cache e = some cacheItem' ∧
        (this.call x).table e = some (if x.ok e then cacheItem' else cacheItem) := by
  rw [call, execute]
  cases hmsgs : getStringSetMap x.message with
  | none => exact .inl ⟨hcache, htable⟩
  | some msgs =>
    rw [← get_getStringSetMap hmsgs]
    exact forEach_list (x.order.nodup _) hcache htable

/-- A call leaves a list alone that no message names. -/
theorem call_frame {x : ExecutorCall}
    (hx : ∀ each ∈ x.message, ∀ item, entry each ≠ some (some (e.name, item))) :
    (this.call x).cache e = this.cache e := by
  rw [call, execute]
  cases hmsgs : getStringSetMap x.message with
  | none => rfl
  | some msgs =>
    refine (forEach_frame fun hkey => ?_).1
    obtain ⟨⟨name, item⟩, hmem, rfl⟩ := Finset.mem_image.1 ((x.order.mem _ _).1 hkey)
    obtain ⟨each, heach, hentry⟩ := (mem_getStringSetMap hmsgs).1 hmem
    exact hx each heach item hentry

/-- A call with messages of one list that the process has. -/
theorem call_effect {x : ExecutorCall} {cacheItem : Finset Int64} (hcache : this.cache e = some cacheItem)
    (hx : ∀ each ∈ x.message, ∃ item, entry each = some (some (e.name, item))) :
    (this.call x).cache e = some (x.topic.effect cacheItem (items e x.message)) := by
  have haccepts : ∀ each ∈ x.message, this.Accepts each := by
    intro each heach
    obtain ⟨item, hentry⟩ := hx each heach
    rw [Accepts, hentry]
    refine ⟨Option.some_ne_none _, fun e' item' heq => ?_⟩
    simp only [Option.some.injEq, Prod.mk.injEq, LivelyItemEnum.name_injective.eq_iff] at heq
    rw [Has, ← heq.1, hcache]
    exact Option.some_ne_none _
  rw [call, execute_cache (execute_returns.2 haccepts), hcache, Option.map_some]

theorem Saved.call (h : this.Saved e) {x : ExecutorCall} (hx : this.Saves e x) :
    (this.call x).Saved e := by
  obtain ⟨cacheItem, hcache, htable⟩ := h
  obtain hleft | ⟨hcache', htable'⟩ := call_list (x := x) hcache htable
  · exact ⟨cacheItem, hleft⟩
  · obtain hok | hsame := hx
    · rw [if_pos hok] at htable'
      exact ⟨_, hcache', htable'⟩
    · rw [hsame cacheItem hcache] at hcache' htable'
      rw [ite_self] at htable'
      exact ⟨cacheItem, hcache', htable'⟩

/-- A call that returns keeps memory and table equal only if it saves. -/
theorem call_saved_iff {x : ExecutorCall} (h : this.Saved e)
    (hx : ∀ each ∈ x.message, this.Accepts each) : (this.call x).Saved e ↔ this.Saves e x := by
  constructor
  · rintro ⟨cacheItem', hcache', htable'⟩
    obtain ⟨cacheItem, hcache, htable⟩ := h
    have heffect : cacheItem' = x.topic.effect cacheItem (items e x.message) := by
      have hreturned : (this.call x).cache e = _ := execute_cache (execute_returns.2 hx) e
      rw [hcache, Option.map_some] at hreturned
      exact Option.some.inj (hcache'.symm.trans hreturned)
    by_cases hok : x.ok e = true
    · exact .inl hok
    · right
      intro cacheItem'' hcache''
      obtain rfl := Option.some.inj (hcache.symm.trans hcache'')
      obtain ⟨-, hleft⟩ | ⟨-, hleft⟩ := call_list (x := x) hcache htable
      · rw [← heffect]
        exact Option.some.inj (htable'.symm.trans hleft)
      · rw [if_neg hok] at hleft
        rw [← heffect]
        exact Option.some.inj (htable'.symm.trans hleft)
  · exact h.call

/-- **Memory and database agree as long as the calls save**, and a restart restores the memory. -/
theorem call_saved {xs : List ExecutorCall} (h : this.Saved e)
    (hxs : ∀ before x after, xs = before ++ x :: after → (this.callAll before).Saves e x)
    (before after : List ExecutorCall) (hsplit : xs = before ++ after) :
    (this.callAll before).Saved e ∧ ∀ livelyFromRedis ok, ∃ this',
      (this.callAll before).restart.init e livelyFromRedis ok = some this' ∧
        this'.cache e = (this.callAll before).cache e := by
  have hsaved : (this.callAll before).Saved e := by
    induction before using List.reverseRecOn generalizing after with
    | nil => exact h
    | append_singleton before x ih =>
      rw [List.append_assoc] at hsplit
      rw [callAll, List.foldl_append]
      exact (ih _ hsplit).call (hxs before x after hsplit)
  exact ⟨hsaved, fun livelyFromRedis ok => hsaved.restart livelyFromRedis ok⟩

/-- A batch of one item of the list. -/
def oneItem (topic : KafkaEnum) (item : Int64) (ok : Bool) : ExecutorCall :=
  ⟨topic, {Lively.message .pid1Day item}, fun _ => ok, .sorted⟩

/-- A delete that fails for an item that is not there, and an insert that succeeds. -/
theorem call_saved_insert :
    (onePid.callAll [oneItem .livelyDelTopic 5 false, oneItem .livelyAddTopic 5 true]).Saved .pid1Day ∧
    ∀ livelyFromRedis ok, ∃ this',
      (onePid.callAll [oneItem .livelyDelTopic 5 false, oneItem .livelyAddTopic 5 true]).restart.init
        .pid1Day livelyFromRedis ok = some this' ∧
      this'.cache .pid1Day = (onePid.callAll
        [oneItem .livelyDelTopic 5 false, oneItem .livelyAddTopic 5 true]).cache .pid1Day := by
  have hxs : ∀ before x after,
      [oneItem .livelyDelTopic 5 false, oneItem .livelyAddTopic 5 true] = before ++ x :: after →
      (onePid.callAll before).Saves .pid1Day x := by
    intro before x after hsplit
    rcases before with _ | ⟨y, _ | ⟨z, before⟩⟩
    · obtain ⟨rfl, -⟩ := List.cons.inj hsplit
      right
      intro cacheItem hcache
      obtain rfl := Option.some.inj hcache
      exact Finset.empty_sdiff _
    · obtain ⟨-, hsplit⟩ := List.cons.inj hsplit
      obtain ⟨rfl, -⟩ := List.cons.inj hsplit
      exact .inl rfl
    · simp at hsplit
  exact call_saved ⟨∅, rfl, rfl⟩ hxs _ [] rfl

/-- The insert fails: the item is in the memory only, and a restart forgets it. -/
theorem failed_insert_forgotten : onePid.Saved .pid1Day ∧
    (onePid.call (oneItem .livelyAddTopic 5 false)).cache .pid1Day = some {5} ∧
    (onePid.call (oneItem .livelyAddTopic 5 false)).table .pid1Day = some ∅ ∧
    ¬ (onePid.call (oneItem .livelyAddTopic 5 false)).Saved .pid1Day := by
  have hcache : (onePid.call (oneItem .livelyAddTopic 5 false)).cache .pid1Day = some {5} := by
    rw [call_effect (e := .pid1Day) rfl, oneItem, items_message]
    · rfl
    · intro each heach
      rw [Finset.mem_singleton.1 heach]
      exact ⟨5, entry_message _ _⟩
  have htable : (onePid.call (oneItem .livelyAddTopic 5 false)).table .pid1Day = some ∅ := by
    have hempty : onePid.cache .pid1Day = some ∅ ∧ onePid.table .pid1Day = some ∅ := ⟨rfl, rfl⟩
    exact (call_list hempty.1 hempty.2).elim And.right And.right
  refine ⟨⟨∅, rfl, rfl⟩, hcache, htable, ?_⟩
  rintro ⟨cacheItem, hcache', htable'⟩
  rw [hcache] at hcache'
  rw [htable] at htable'
  have heq : (∅ : Finset Int64) = {5} := (Option.some.inj htable').trans (Option.some.inj hcache').symm
  exact absurd heq (by decide)

end LivelyService

end BaseService.Lively
