import BaseService.Data.Runs
import BaseService.Lively.ExecutorCalls
import BaseService.Lively.LivelyCollect

/-!
# A process that starts later

Calls of `collect` and `deleteTask`, each at once with its messages, which every process executes at
once; a new process takes the list from Redis.

* `HourCalendar`, `getMinScore`, `getMaxScore`, `getAllLively` : what a process reads when it starts;
* `Fleet`, `Step`, `Init` : Redis with the processes, the calls, and the start of a process;
* `Mirrors` : a process has the items of the sorted set; `Mirrors.step` : it keeps them;
* `bootstrap_iff` : **the new process always has the items of an old one iff every score is in the range
  that it reads.**
-/

namespace BaseService.Lively
open Function (update)
open Redis (Command Server)

/-! ## Reading the list -/

structure HourCalendar (Date : Type) extends Calendar Date where
  /-- `DateUtils.addHours(date, amount)`. -/
  addHours : Date → Int → Date

namespace LivelyItemEnum
variable {Date : Type}

/-- The pattern of the scores. -/
def pattern : LivelyItemEnum → String
  | cidTest => "yyyyMMddHHmm"
  | _ => "yyyyMMddHH"

def getMinScore (e : LivelyItemEnum) (cal : HourCalendar Date) (now : Date) : Int64 :=
  cal.format e.pattern (cal.addDays now (e.days * -1))

def getMaxScore (e : LivelyItemEnum) (cal : HourCalendar Date) (now : Date) : Int64 :=
  cal.format e.pattern (cal.addHours now 1)

/-- The items that `getAllLively` takes from Redis; `none` : `Long.valueOf` throws. -/
def getAllLively (e : LivelyItemEnum) (cal : HourCalendar Date) (now : Date) (redis : Server) :
    Option (Finset Int64) :=
  let livelyFromRedis :=
    (redis.zset (key e)).zrangeByScore (score (e.getMinScore cal now)) (score (e.getMaxScore cal now))
  if ∃ each ∈ livelyFromRedis, Long.valueOf each = none then none
  else some (livelyFromRedis.filterMap Long.valueOf).toFinset

end LivelyItemEnum

/-! ## Processes -/

/-- `livelyCache` belongs to the processes `η` that collect, `service` to those that have lists. -/
structure Fleet (η ρ Date : Type) where
  now : Date
  redis : Server
  livelyCache : η → Finset String
  service : ρ → LivelyService

namespace Fleet
variable {η ρ Date : Type}

inductive Call (η : Type)
  | tick
  | expire
  | collect (c : η) (e : LivelyItemEnum) (item : Int64)
  | deleteTask (e : LivelyItemEnum)

/-- Every process executes the messages. -/
def broadcast (s : Fleet η ρ Date) (topic : KafkaEnum) (messages : Finset String)
    (order : ρ → KeyOrder) : Fleet η ρ Date :=
  { s with service := fun p => (s.service p).call ⟨topic, messages, fun _ => true, order p⟩ }

/-- Nothing fails. -/
inductive Step [DecidableEq η] [Preorder Date] (cal : HourCalendar Date) :
    Fleet η ρ Date → Call η → Fleet η ρ Date → Prop
  | tick {s : Fleet η ρ Date} {now : Date} : s.now ≤ now → Step cal s .tick { s with now := now }
  | expire {s : Fleet η ρ Date} {c : η} {keys : Finset String} : keys ⊆ s.livelyCache c →
    Step cal s .expire { s with livelyCache := update s.livelyCache c keys }
  | suppressed {s : Fleet η ρ Date} {c : η} {e : LivelyItemEnum} {item : Int64} :
    cacheKey e item ∈ s.livelyCache c → Step cal s (.collect c e item) s
  | collect {s s' : Fleet η ρ Date} {c : η} {e : LivelyItemEnum} {item : Int64} {ret : Int}
      {redis : Server} (order : ρ → KeyOrder) :
    cacheKey e item ∉ s.livelyCache c →
    Command.exec ⟨key e, .zadd (score (e.getScore cal.toCalendar s.now)) (toString item)⟩ s.redis =
      some (redis, .integer ret) →
    s' = (if ret = 1 then s.broadcast .livelyAddTopic {message e item} order else s) →
    Step cal s (.collect c e item)
      { s' with
        redis := redis
        livelyCache := update s.livelyCache c (insert (cacheKey e item) (s.livelyCache c)) }
  | nothing {s : Fleet η ρ Date} {e : LivelyItemEnum} :
    (s.redis.zset (key e)).zrangeByScore 0 (score (e.getOverdueScore cal.toCalendar s.now)) = [] →
    Step cal s (.deleteTask e) s
  | deleteTask {s : Fleet η ρ Date} {e : LivelyItemEnum} {overdue : List String} {redis : Server}
      {reply : Redis.Reply} (order : ρ → KeyOrder) :
    overdue = (s.redis.zset (key e)).zrangeByScore 0 (score (e.getOverdueScore cal.toCalendar s.now)) →
    overdue ≠ [] →
    Command.exec ⟨key e, .zremrangeByScore 0 (score (e.getOverdueScore cal.toCalendar s.now))⟩ s.redis =
      some (redis, reply) →
    Step cal s (.deleteTask e)
      { s.broadcast .livelyDelTopic (World.overdueMessage e overdue) order with redis := redis }

/-- The process initialises the list; it has no table of it. -/
def Init [DecidableEq ρ] (cal : HourCalendar Date) (e : LivelyItemEnum) (p : ρ)
    (s s' : Fleet η ρ Date) : Prop :=
  ∃ livelyFromRedis this, (s.service p).table e = none ∧
    e.getAllLively cal s.now s.redis = some livelyFromRedis ∧
    (s.service p).init e livelyFromRedis true = some this ∧
    s' = { s with service := update s.service p this }

/-- The process has the items of the sorted set. -/
def Mirrors (s : Fleet η ρ Date) (e : LivelyItemEnum) (p : ρ) : Prop :=
  ∃ cacheItem, (s.service p).cache e = some cacheItem ∧
    ∀ member, member ∈ (s.redis.zset (key e)).members ↔ ∃ item ∈ cacheItem, member = toString item

/-- The list when the history begins, and a process that has it. -/
structure Start (s : Fleet η ρ Date) (e : LivelyItemEnum) (p : ρ) : Prop where
  oneScore : (s.redis.zset (key e)).OneScore
  mirrors : s.Mirrors e p

/-! ## Following the messages -/

theorem Mirrors.unique {s : Fleet η ρ Date} {e : LivelyItemEnum} {p p' : ρ} (h : s.Mirrors e p)
    (h' : s.Mirrors e p') : (s.service p).cache e = (s.service p').cache e := by
  obtain ⟨cacheItem, hcache, hmem⟩ := h
  obtain ⟨cacheItem', hcache', hmem'⟩ := h'
  rw [hcache, hcache', Option.some.injEq]
  ext item
  constructor
  · intro hitem
    obtain ⟨item', hitem', heq⟩ := (hmem' _).1 ((hmem _).2 ⟨item, hitem, rfl⟩)
    rwa [Long.toString_injective heq]
  · intro hitem
    obtain ⟨item', hitem', heq⟩ := (hmem _).1 ((hmem' _).2 ⟨item, hitem, rfl⟩)
    rwa [Long.toString_injective heq]

/-- The message of a sweep names its list. -/
theorem entry_overdueMessage {e e' : LivelyItemEnum} {overdue : List String} {each : String}
    {item : Int64} (heach : each ∈ World.overdueMessage e overdue)
    (hentry : entry each = some (some (e'.name, item))) : e' = e := by
  obtain ⟨member, -, rfl⟩ := List.mem_map.1 (List.mem_toFinset.1 heach)
  exact LivelyItemEnum.name_injective (entry_name hentry)

/-- The messages for members that are items. -/
theorem mem_items_overdueMessage {e : LivelyItemEnum} {overdue : List String}
    (hoverdue : ∀ member ∈ overdue, ∃ item : Int64, member = toString item) (item : Int64) :
    item ∈ items e (World.overdueMessage e overdue) ↔ toString item ∈ overdue := by
  rw [mem_items]
  constructor
  · rintro ⟨each, heach, hentry⟩
    obtain ⟨member, hmember, rfl⟩ := List.mem_map.1 (List.mem_toFinset.1 heach)
    obtain ⟨item', rfl⟩ := hoverdue member hmember
    have hmessage : entry (message e item') = some (some (e.name, item)) := hentry
    rw [entry_message] at hmessage
    simp only [Option.some.injEq, Prod.mk.injEq, true_and] at hmessage
    rwa [← hmessage]
  · intro hmem
    exact ⟨message e item, List.mem_toFinset.2 (List.mem_map.2 ⟨_, hmem, rfl⟩), entry_message e item⟩

section
variable [DecidableEq η] [Preorder Date] {cal : HourCalendar Date} {s s' : Fleet η ρ Date}
  {e : LivelyItemEnum} {a : Call η} {p : ρ}

theorem Step.oneScore (h : Step cal s a s') (hs : (s.redis.zset (key e)).OneScore) :
    (s'.redis.zset (key e)).OneScore := by
  cases h with
  | @collect _ _ e' item ret redis order _ hexec _ =>
    by_cases he : e = e'
    · subst he
      rw [(Redis.zset_zadd hexec).1]
      exact hs.zadd ..
    · rwa [Redis.zset_of_ne hexec (key_injective.ne he)]
  | @deleteTask e' overdue redis reply order _ _ hexec =>
    by_cases he : e = e'
    · subst he
      rw [Redis.zset_zremrangeByScore hexec]
      exact hs.zremrangeByScore ..
    · rwa [Redis.zset_of_ne hexec (key_injective.ne he)]
  | _ => exact hs

section
variable {topic : KafkaEnum} {messages : Finset String} {order : ρ → KeyOrder} {redis : Server}

omit [DecidableEq η] [Preorder Date] in
/-- A broadcast about other lists. -/
theorem broadcast_frame (h : ∀ each ∈ messages, ∀ item, entry each ≠ some (some (e.name, item))) :
    ((s.broadcast topic messages order).service p).cache e = (s.service p).cache e :=
  LivelyService.call_frame fun each heach item hentry => h each heach item hentry

omit [DecidableEq η] [Preorder Date] in
/-- A broadcast of items of the list. -/
theorem broadcast_effect {cacheItem : Finset Int64} (hcache : (s.service p).cache e = some cacheItem)
    (h : ∀ each ∈ messages, ∃ item, entry each = some (some (e.name, item))) :
    ((s.broadcast topic messages order).service p).cache e =
      some (topic.effect cacheItem (items e messages)) :=
  LivelyService.call_effect hcache h

omit [DecidableEq η] [Preorder Date] in
/-- An insertion, announced if the item was not there. -/
theorem Mirrors.collect (h : s.Mirrors e p) {n : ℚ} {item : Int64} {ret : Int}
    (hexec : Command.exec ⟨key e, .zadd n (toString item)⟩ s.redis = some (redis, .integer ret)) :
    ∃ cacheItem, ((if ret = 1 then s.broadcast .livelyAddTopic {message e item} order
        else s).service p).cache e = some cacheItem ∧
      ∀ member, member ∈ (redis.zset (key e)).members ↔
        ∃ item ∈ cacheItem, member = toString item := by
  obtain ⟨cacheItem, hcache, hmem⟩ := h
  obtain ⟨hzset, hret⟩ := Redis.zset_zadd hexec
  by_cases hold : toString item ∈ (s.redis.zset (key e)).members
  · rw [if_pos hold] at hret
    cases hret
    refine ⟨cacheItem, hcache, fun member => ?_⟩
    rw [hzset, Redis.mem_zadd, ← hmem, or_iff_right_of_imp]
    rintro rfl
    exact hold
  · rw [if_neg hold] at hret
    cases hret
    refine ⟨cacheItem ∪ {item}, ?_, fun member => ?_⟩
    · have heffect : ((s.broadcast .livelyAddTopic {message e item} order).service p).cache e = _ :=
        broadcast_effect hcache fun each heach => by
          rw [Finset.mem_singleton.1 heach]
          exact ⟨item, entry_message e item⟩
      rw [items_message] at heffect
      exact heffect
    · rw [hzset, Redis.mem_zadd, hmem]
      simp only [Finset.mem_union, Finset.mem_singleton, or_and_right, exists_or,
        exists_eq_left, or_comm]

omit [DecidableEq η] [Preorder Date] in
/-- A sweep, announced for the members that it takes. -/
theorem Mirrors.deleteTask (h : s.Mirrors e p) (hone : (s.redis.zset (key e)).OneScore)
    {n : ℚ} {overdue : List String} {reply : Redis.Reply}
    (hoverdue : overdue = (s.redis.zset (key e)).zrangeByScore 0 n)
    (hexec : Command.exec ⟨key e, .zremrangeByScore 0 n⟩ s.redis = some (redis, reply)) :
    ∃ cacheItem, ((s.broadcast .livelyDelTopic (World.overdueMessage e overdue) order).service
        p).cache e = some cacheItem ∧
      ∀ member, member ∈ (redis.zset (key e)).members ↔
        ∃ item ∈ cacheItem, member = toString item := by
  obtain ⟨cacheItem, hcache, hmem⟩ := h
  have hitems : ∀ member ∈ overdue, ∃ item : Int64, member = toString item := by
    intro member hmember
    rw [hoverdue] at hmember
    obtain ⟨item, -, hitem⟩ := (hmem member).1 (Redis.zrangeByScore_subset hmember)
    exact ⟨item, hitem⟩
  refine ⟨cacheItem \ items e (World.overdueMessage e overdue), ?_, fun member => ?_⟩
  · refine broadcast_effect hcache fun each heach => ?_
    obtain ⟨member, hmember, rfl⟩ := List.mem_map.1 (List.mem_toFinset.1 heach)
    obtain ⟨item, rfl⟩ := hitems member hmember
    exact ⟨item, entry_message e item⟩
  · rw [Redis.zset_zremrangeByScore hexec, Redis.mem_members_zremrangeByScore hone, ← hoverdue, hmem]
    simp only [Finset.mem_sdiff, mem_items_overdueMessage hitems]
    constructor
    · rintro ⟨⟨item, hitem, rfl⟩, hleft⟩
      exact ⟨item, ⟨hitem, hleft⟩, rfl⟩
    · rintro ⟨item, ⟨hitem, hleft⟩, rfl⟩
      exact ⟨⟨item, hitem, rfl⟩, hleft⟩

end

/-- **A process that has the items of the sorted set keeps them.** -/
theorem Mirrors.step (h : s.Mirrors e p) (hone : (s.redis.zset (key e)).OneScore)
    (hs : Step cal s a s') : s'.Mirrors e p := by
  cases hs with
  | @collect s₁ _ e' item ret redis order _ hexec hs₁ =>
    subst hs₁
    by_cases he : e = e'
    · subst he
      exact h.collect hexec
    · obtain ⟨cacheItem, hcache, hmem⟩ := h
      refine ⟨cacheItem, ?_, ?_⟩
      · rw [← hcache]
        show ((if ret = 1 then _ else _ : Fleet η ρ Date).service p).cache e = _
        split
        · refine broadcast_frame fun each heach item' hentry => he ?_
          rw [Finset.mem_singleton.1 heach, entry_message] at hentry
          simp only [Option.some.injEq, Prod.mk.injEq, LivelyItemEnum.name_injective.eq_iff] at hentry
          exact hentry.1.symm
        · rfl
      · rwa [Redis.zset_of_ne hexec (key_injective.ne he)]
  | @deleteTask e' overdue redis reply order hoverdue _ hexec =>
    by_cases he : e = e'
    · subst he
      exact h.deleteTask hone hoverdue hexec
    · obtain ⟨cacheItem, hcache, hmem⟩ := h
      refine ⟨cacheItem, ?_, ?_⟩
      · rw [← hcache]
        exact broadcast_frame fun each heach item hentry => he (entry_overdueMessage heach hentry)
      · rwa [Redis.zset_of_ne hexec (key_injective.ne he)]
  | _ => exact h

omit [DecidableEq η] [Preorder Date] in
theorem Mirrors.congr {p' : ρ} (h : s.Mirrors e p)
    (hcache : (s.service p').cache e = (s.service p).cache e) : s.Mirrors e p' := by
  obtain ⟨cacheItem, hcache', hmem⟩ := h
  exact ⟨cacheItem, hcache.trans hcache', hmem⟩

theorem run_start {calls : List (Call η)} (h : Run (Step cal) s calls s') (hs : s.Start e p) :
    s'.Start e p :=
  h.invariant (I := fun s : Fleet η ρ Date => s.Start e p) hs fun _ _ _ hs hstep =>
    ⟨hstep.oneScore hs.oneScore, hs.mirrors.step hs.oneScore hstep⟩

omit [DecidableEq η] [Preorder Date] in
/-- The start of a process changes nothing for another. -/
theorem Init.frame [DecidableEq ρ] {p' : ρ} (h : Init cal e p s s') (hne : p' ≠ p) :
    s'.redis = s.redis ∧ s'.livelyCache = s.livelyCache ∧ s'.service p' = s.service p' := by
  obtain ⟨-, this, -, -, -, rfl⟩ := h
  exact ⟨rfl, rfl, Function.update_of_ne hne ..⟩

omit [DecidableEq η] [Preorder Date] in
theorem Init.start [DecidableEq ρ] {p' : ρ} (h : Init cal e p s s') (hne : p' ≠ p)
    (hs : s.Start e p') : s'.Start e p' := by
  obtain ⟨hredis, -, hservice⟩ := h.frame hne
  constructor
  · rw [hredis]
    exact hs.oneScore
  · rw [Mirrors, hredis, hservice]
    exact hs.mirrors

omit [DecidableEq η] [Preorder Date] in
/-- The items of a process that starts. -/
theorem Init.cache [DecidableEq ρ] (h : Init cal e p s s')
    (hs : ∀ member ∈ (s.redis.zset (key e)).members, ∃ item : Int64, member = toString item) :
    ∃ livelyFromRedis, (s'.service p).cache e = some livelyFromRedis ∧
      ∀ item : Int64, item ∈ livelyFromRedis ↔ ∃ n, (toString item, n) ∈ s.redis.zset (key e) ∧
        score (e.getMinScore cal s.now) ≤ n ∧ n ≤ score (e.getMaxScore cal s.now) := by
  obtain ⟨livelyFromRedis, this, htable, hread, hinit, rfl⟩ := h
  refine ⟨livelyFromRedis, ?_, fun item => ?_⟩
  · rw [LivelyService.init, htable] at hinit
    obtain rfl := Option.some.inj hinit
    simp
  · rw [LivelyItemEnum.getAllLively] at hread
    split at hread
    · cases hread
    · obtain rfl := Option.some.inj hread
      rw [List.mem_toFinset, List.mem_filterMap, ← Redis.mem_zrangeByScore]
      constructor
      · rintro ⟨member, hmember, hvalue⟩
        obtain ⟨item', rfl⟩ := hs member (Redis.zrangeByScore_subset hmember)
        rw [Long.valueOf_toString] at hvalue
        obtain rfl := Option.some.inj hvalue
        exact hmember
      · intro hmember
        exact ⟨_, hmember, Long.valueOf_toString item⟩

omit [DecidableEq η] [Preorder Date] in
theorem Init.agrees_iff [DecidableEq ρ] {old : ρ} (h : Init cal e p s s') (hne : old ≠ p)
    (hs : s.Start e old) : (s'.service p).cache e = (s'.service old).cache e ↔
      ∀ member n, (member, n) ∈ s.redis.zset (key e) →
        score (e.getMinScore cal s.now) ≤ n ∧ n ≤ score (e.getMaxScore cal s.now) := by
  obtain ⟨hone, cacheItem, hcache, hmem⟩ := hs
  obtain ⟨livelyFromRedis, hread, hitems⟩ := h.cache fun member hmember => by
    obtain ⟨item, -, hitem⟩ := (hmem member).1 hmember
    exact ⟨item, hitem⟩
  have hold : (s'.service old).cache e = some cacheItem := by
    rw [(h.frame hne).2.2, hcache]
  have hmember (item : Int64) : item ∈ cacheItem ↔ ∃ n, (toString item, n) ∈ s.redis.zset (key e) := by
    have hiff := hmem (toString item)
    simp only [Redis.ZSet.members, List.mem_map, Prod.exists, exists_and_right,
      exists_eq_right] at hiff
    rw [hiff]
    constructor
    · intro hitem
      exact ⟨item, hitem, rfl⟩
    · rintro ⟨item', hitem', heq⟩
      rwa [Long.toString_injective heq]
  rw [hread, hold, Option.some.injEq, Finset.ext_iff]
  constructor
  · intro h member n hscore
    obtain ⟨item, hitem, rfl⟩ := (hmem member).1 (List.mem_map.2 ⟨_, hscore, rfl⟩)
    obtain ⟨n', hscore', hrange⟩ := (hitems item).1 ((h item).2 hitem)
    rwa [hone hscore hscore']
  · intro h item
    rw [hitems, hmember]
    exact exists_congr fun n => and_iff_left_of_imp fun hscore => h _ n hscore

omit [DecidableEq η] [Preorder Date] in
/-- A process can start if all members are items. -/
theorem exists_init [DecidableEq ρ] (htable : (s.service p).table e = none)
    (hs : ∀ member ∈ (s.redis.zset (key e)).members, ∃ item : Int64, member = toString item) :
    ∃ s', Init cal e p s s' := by
  have hread : ∃ livelyFromRedis, e.getAllLively cal s.now s.redis = some livelyFromRedis := by
    rw [LivelyItemEnum.getAllLively]
    split
    · next hnone =>
      obtain ⟨member, hmember, hvalue⟩ := hnone
      obtain ⟨item, rfl⟩ := hs member (Redis.zrangeByScore_subset hmember)
      rw [Long.valueOf_toString] at hvalue
      cases hvalue
    · exact ⟨_, rfl⟩
  obtain ⟨livelyFromRedis, hread⟩ := hread
  have hinit : ∃ this, (s.service p).init e livelyFromRedis true = some this := by
    rw [LivelyService.init, htable]
    exact ⟨_, if_pos rfl⟩
  obtain ⟨this, hinit⟩ := hinit
  exact ⟨_, livelyFromRedis, this, htable, hread, hinit, rfl⟩

/-- **The new process has the items of the old one at every later moment if and only if it reads all of
them when it starts.** -/
theorem bootstrap_iff [DecidableEq ρ] {s₀ s₁ s₂ : Fleet η ρ Date} {history : List (Call η)}
    {old new : ρ} (hne : old ≠ new) (h₀ : s₀.Start e old) (hhistory : Run (Step cal) s₀ history s₁)
    (hinit : Init cal e new s₁ s₂) :
    (∀ later s₃, Run (Step cal) s₂ later s₃ →
        (s₃.service new).cache e = (s₃.service old).cache e) ↔
      ∀ member n, (member, n) ∈ s₁.redis.zset (key e) →
        score (e.getMinScore cal s₁.now) ≤ n ∧ n ≤ score (e.getMaxScore cal s₁.now) := by
  obtain ⟨hone, hold⟩ := run_start hhistory h₀
  have hold' : s₂.Start e old := hinit.start hne ⟨hone, hold⟩
  rw [← hinit.agrees_iff hne ⟨hone, hold⟩]
  constructor
  · intro h
    exact h [] s₂ .nil
  · intro hagree later s₃ hlater
    have hnew : s₂.Start e new := ⟨hold'.oneScore, hold'.mirrors.congr hagree⟩
    exact (run_start hlater hnew).mirrors.unique (run_start hlater hold').mirrors

end

/-! ## Examples

The item 5 was collected on the 10th of January at 0 o'clock. -/

def january : HourCalendar Int where
  toCalendar := hoursOfJanuary
  addHours hour amount := hour + amount

/-- One process has the list, the other one does not. -/
def atHour (now : Int) (n : ℚ) : Fleet Unit Bool Int where
  now := now
  redis := update (fun _ => none) (key .pid1Day) (some (.zset [("5", n)]))
  livelyCache _ := ∅
  service p := if p then ⟨fun _ => none, fun _ => none⟩ else ⟨fun _ => some {5}, fun _ => some {5}⟩

theorem zset_atHour (now : Int) (n : ℚ) : (atHour now n).redis.zset (key .pid1Day) = [("5", n)] := by
  simp [Redis.Server.zset, atHour]

theorem start_atHour (now : Int) (n : ℚ) : (atHour now n).Start .pid1Day false := by
  constructor
  · rw [zset_atHour]
    intro member n₁ n₂ h₁ h₂
    rw [List.mem_singleton] at h₁ h₂
    exact congrArg Prod.snd (h₁.trans h₂.symm)
  · refine ⟨{5}, rfl, fun member => ?_⟩
    rw [zset_atHour]
    simp only [Finset.mem_singleton, exists_eq_left]
    exact List.mem_singleton

theorem init_atHour (now : Int) (n : ℚ) : ∃ s, Init january .pid1Day true (atHour now n) s := by
  refine exists_init rfl fun member hmember => ⟨5, ?_⟩
  rw [zset_atHour] at hmember
  exact List.mem_singleton.1 hmember

/-- The other process starts in the same hour. -/
theorem bootstrap_same_hour : ∃ s : Fleet Unit Bool Int,
    Init january .pid1Day true (atHour 216 (score 2014011000)) s ∧
    ((∀ later s', Run (Step january) s later s' →
        (s'.service true).cache .pid1Day = (s'.service false).cache .pid1Day) ↔
      ∀ member n, (member, n) ∈ (atHour 216 (score 2014011000)).redis.zset (key .pid1Day) →
        score (LivelyItemEnum.pid1Day.getMinScore january 216) ≤ n ∧
          n ≤ score (LivelyItemEnum.pid1Day.getMaxScore january 216)) := by
  obtain ⟨s, hinit⟩ := init_atHour 216 (score 2014011000)
  exact ⟨s, hinit, bootstrap_iff Bool.false_ne_true (start_atHour _ _) .nil hinit⟩

/-- The other process starts 30 hours later, when the item is older than a day, but not overdue: it
misses the item, and still does so when this is collected again. -/
theorem returning_item_missed : ∃ s₀ s₁ s₂ s₃ : Fleet Unit Bool Int, s₀.Start .pid1Day false ∧
    Run (Step january) s₀ [.tick] s₁ ∧ Init january .pid1Day true s₁ s₂ ∧
    Run (Step january) s₂ [.collect () .pid1Day 5] s₃ ∧
    (s₃.service false).cache .pid1Day = some {5} ∧ (s₃.service true).cache .pid1Day = some ∅ := by
  obtain ⟨s, hinit⟩ := init_atHour 246 2014011000
  have htick : Step january (atHour 216 2014011000) (.tick : Call Unit) (atHour 246 2014011000) :=
    .tick (by decide)
  obtain ⟨livelyFromRedis, hnew, hitems⟩ := hinit.cache fun member hmember => ⟨5, by
    rw [zset_atHour] at hmember
    exact List.mem_singleton.1 hmember⟩
  have hempty : livelyFromRedis = ∅ := by
    rw [Finset.eq_empty_iff_forall_notMem]
    intro item hitem
    obtain ⟨n, hscore, hmin, -⟩ := (hitems item).1 hitem
    rw [zset_atHour, List.mem_singleton, Prod.mk.injEq] at hscore
    have hlong : (LivelyItemEnum.pid1Day.getMinScore january 246).toInt = 2014011006 := by decide
    have hnow : (atHour 246 2014011000).now = 246 := rfl
    rw [hscore.2, hnow, score, hlong] at hmin
    norm_num at hmin
  obtain ⟨hredis, hlivelyCache, hold⟩ := hinit.frame Bool.false_ne_true
  have hexec : ∃ redis, Command.exec ⟨key .pid1Day,
      .zadd (score (LivelyItemEnum.pid1Day.getScore january.toCalendar s.now)) (toString (5 : Int64))⟩
      s.redis = some (redis, .integer 0) := by
    rw [hredis]
    exact ⟨_, rfl⟩
  obtain ⟨redis, hexec⟩ := hexec
  have hkey : cacheKey .pid1Day 5 ∉ s.livelyCache () := by
    rw [hlivelyCache]
    exact Finset.notMem_empty _
  have hcollect : Step january s (.collect () .pid1Day 5) _ :=
    .collect (fun _ => .sorted) hkey hexec (if_neg (by decide)).symm
  refine ⟨_, _, s, _, start_atHour _ _, .single htick, hinit, .single hcollect, ?_, ?_⟩
  · rw [hold]
    rfl
  · rw [hnew, hempty]

end Fleet

end BaseService.Lively
