import BaseService.Data.Mirror
import BaseService.Lively.LivelyCollect

/-!
# `LIVELY_CACHE` as a mirror of Redis

* `Outstanding` : an item with a message that is still to be sent, or to be executed;
* `World.view` : a list's members in Redis and its items in `LIVELY_CACHE`, a set and its mirror;
* `World.change` : what a step does to them; `step_view` : the world refines the mirror;
* `converges` : runs whose steps keep the mirror settled.
-/

namespace BaseService.Lively
open Function (update)
open Redis (Command Server ZSet)

/-! ## Messages on their way -/

/-- What the thread is still to send to a topic. -/
def Stage.sending : Stage → KafkaEnum → Finset String
  | sendAdd e item, .livelyAddTopic => {message e item}
  | sendDel overdueMessage, .livelyDelTopic => overdueMessage
  | _, _ => ∅

/-- What a sweep of the list has found, until it is removed. -/
def Stage.listed : Stage → LivelyItemEnum → List String
  | overdue e members, l | zremrange e members _, l => if e = l then members else []
  | _, _ => []

namespace World
variable {τ η Date : Type}

/-- A message of the topic that is not yet executed. -/
def Pending (s : World τ η Date) (topic : KafkaEnum) (m : String) : Prop :=
  m ∈ s.queue topic ∨ ∃ t, m ∈ (s.phase t).sending topic

/-- The items of the list in the messages that satisfy `p`. -/
def itemsOf (e : LivelyItemEnum) (p : String → Prop) : Set Int64 :=
  {item | ∃ m, p m ∧ entry m = some (some (e.name, item))}

/-- The members of the list's sorted set. -/
def members (s : World τ η Date) (e : LivelyItemEnum) : List String := (s.redis.zset (key e)).members

def view (s : World τ η Date) (e : LivelyItemEnum) : Mirror Int64 where
  stored := {item | toString item ∈ s.members e}
  mirrored := {item | ∃ c ∈ s.service.cache e, item ∈ c}
  adding := itemsOf e (s.Pending .livelyAddTopic)
  deleting := itemsOf e (s.Pending .livelyDelTopic)

/-- The members left by the `zremrangeByScore` of a sweep. -/
def left (s : World τ η Date) (e : LivelyItemEnum) (n : Int64) : List String :=
  ((s.redis.zset (key e)).zremrangeByScore 0 (score n)).members

/-- What the step changes, for the list `e`. -/
def change (s : World τ η Date) (e : LivelyItemEnum) : Action τ → Mirror.Label Int64
  | .zadd t =>
    match s.phase t with
    | .zadd e' _ item => if e' = e ∧ toString item ∉ s.members e then .insert item else .other
    | _ => .other
  | .zremrangeByScore t =>
    match s.phase t with
    | .zremrange e' overdue n =>
      if e' = e then
        .remove {item | toString item ∈ s.members e ∧ toString item ∉ s.left e n}
          {item | toString item ∈ overdue}
      else .other
    | _ => .other
  | .execute topic n =>
    let applied := itemsOf e (· ∈ (s.queue topic).take n)
    let rest := itemsOf e fun m => m ∈ (s.queue topic).drop n ∨ ∃ t, m ∈ (s.phase t).sending topic
    match topic with
    | .livelyAddTopic => .add applied rest
    | .livelyDelTopic => .del applied rest
  | _ => .other

/-- The list is initialised, and its members are decimal texts. -/
structure Sound (s : World τ η Date) (e : LivelyItemEnum) : Prop where
  has : s.service.Has e
  member : ∀ m ∈ s.members e, ∃ item : Int64, m = toString item
  listed : ∀ t, ∀ m ∈ (s.phase t).listed e, ∃ item : Int64, m = toString item

theorem itemsOf_or (e : LivelyItemEnum) (p q : String → Prop) :
    itemsOf e (fun m => p m ∨ q m) = itemsOf e p ∪ itemsOf e q := by
  ext item
  simp only [itemsOf, Set.mem_ofPred_eq, Set.mem_union, or_and_right, exists_or]

theorem itemsOf_message (e e' : LivelyItemEnum) (item : Int64) :
    itemsOf e (· = message e' item) = if e' = e then {item} else ∅ := by
  ext item'
  simp only [itemsOf, Set.mem_ofPred_eq, exists_eq_left, entry_message, Option.some.injEq,
    Prod.mk.injEq, LivelyItemEnum.name_injective.eq_iff]
  split
  · next h => simp [h, eq_comm]
  · next h => simp [h]

/-- The announcements of a sweep are those of what it has found. -/
theorem itemsOf_overdueMessage {e e' : LivelyItemEnum} {overdue : List String}
    (h : ∀ m ∈ overdue, e' = e → ∃ item : Int64, m = toString item) :
    itemsOf e (· ∈ overdueMessage e' overdue) =
      if e' = e then {item | toString item ∈ overdue} else ∅ := by
  ext item
  simp only [itemsOf, overdueMessage, List.mem_toFinset, List.mem_map, Set.mem_ofPred_eq]
  split
  · next he =>
    subst he
    simp only [Set.mem_ofPred_eq]
    constructor
    · rintro ⟨-, ⟨m, hm, rfl⟩, hentry⟩
      obtain ⟨item', rfl⟩ := h m hm rfl
      have hitem := (entry_message e' item').symm.trans hentry
      simp only [Option.some.injEq, Prod.mk.injEq, true_and] at hitem
      rwa [← hitem]
    · intro hm
      exact ⟨_, ⟨_, hm, rfl⟩, entry_message e' item⟩
  · next he =>
    simp only [Set.mem_empty_iff_false, iff_false]
    rintro ⟨-, ⟨m, hm, rfl⟩, hentry⟩
    exact he (LivelyItemEnum.name_injective (entry_name hentry)).symm

/-- No call is running and no message is left; `LIVELY_CACHE` has the members of the sorted set. -/
structure Start (s : World τ η Date) (e : LivelyItemEnum) : Prop where
  idle : ∀ t, s.phase t = .idle
  queue : ∀ topic, s.queue topic = []
  cache : ∃ c ∈ s.service.cache e, ∀ m, m ∈ s.members e ↔ ∃ item ∈ c, m = toString item

theorem Start.settled {s : World τ η Date} {e : LivelyItemEnum} (h : s.Start e) :
    s.Sound e ∧ (s.view e).Settled := by
  obtain ⟨c, hc, hmembers⟩ := h.cache
  have hpending (topic : KafkaEnum) : itemsOf e (s.Pending topic) = ∅ := by
    ext item
    simp only [itemsOf, Pending, h.queue, h.idle]
    cases topic <;> simp [Stage.sending]
  refine ⟨⟨?_, fun m hm => ?_, fun t => ?_⟩, Mirror.settled_of_eq ?_ (hpending _) (hpending _)⟩
  · rw [LivelyService.Has, hc]
    exact Option.some_ne_none c
  · obtain ⟨item, -, rfl⟩ := (hmembers m).1 hm
    exact ⟨item, rfl⟩
  · simp [h.idle, Stage.listed]
  · ext item
    have hmem := hmembers (toString item)
    simp only [Long.toString_injective.eq_iff, exists_eq_right'] at hmem
    rw [Option.mem_def] at hc
    simp [view, hc, hmem]

/-! ## The messages after a step -/

/-- The messages of the topic on their way, but those that the thread is to send. -/
def Others (s : World τ η Date) (t : τ) (topic : KafkaEnum) (m : String) : Prop :=
  m ∈ s.queue topic ∨ ∃ t', t' ≠ t ∧ m ∈ (s.phase t').sending topic

theorem items_pending (s : World τ η Date) (e : LivelyItemEnum) (t : τ) (topic : KafkaEnum) :
    itemsOf e (s.Pending topic) =
      itemsOf e (s.Others t topic) ∪ itemsOf e (· ∈ (s.phase t).sending topic) := by
  rw [← itemsOf_or]
  congr 1
  funext m
  simp only [Pending, Others, or_assoc, eq_iff_iff]
  refine or_congr_right ⟨fun ⟨t', h⟩ => ?_, fun h => ?_⟩
  · by_cases ht : t' = t
    · exact .inr (ht ▸ h)
    · exact .inl ⟨t', ht, h⟩
  · rcases h with ⟨t', -, h⟩ | h
    · exact ⟨t', h⟩
    · exact ⟨t, h⟩

/-- A Redis command on the key of a list changes no other list. -/
theorem members_of_ne {s : World τ η Date} {e e' : LivelyItemEnum} (he : e' ≠ e) {cmd : Redis.Cmd}
    {redis : Server} {reply : Redis.Reply}
    (h : Command.exec ⟨key e', cmd⟩ s.redis = some (redis, reply)) :
    redis.zset (key e) = s.redis.zset (key e) :=
  Redis.zset_of_ne h (key_injective.ne he.symm)

variable [DecidableEq τ]

theorem items_goto (s : World τ η Date) (e : LivelyItemEnum) (t : τ) (phase : Stage)
    (topic : KafkaEnum) : itemsOf e ((s.goto t phase).Pending topic) =
      itemsOf e (s.Others t topic) ∪ itemsOf e (· ∈ phase.sending topic) := by
  have hothers : (s.goto t phase).Others t topic = s.Others t topic := by
    funext m
    simp only [Others, goto, eq_iff_iff]
    refine or_congr_right (exists_congr fun t' => and_congr_right fun ht => ?_)
    rw [Function.update_of_ne ht]
  rw [items_pending _ e t, hothers]
  simp only [goto, Function.update_self]

/-- What a thread with nothing to send, now or before, has on its way. -/
theorem items_none {s : World τ η Date} {t : τ} {phase : Stage} {topic : KafkaEnum}
    (h : (s.phase t).sending topic = ∅) (e : LivelyItemEnum) :
    itemsOf e ((s.goto t phase).Pending topic) =
      itemsOf e (s.Pending topic) ∪ itemsOf e (· ∈ phase.sending topic) := by
  have hnone : itemsOf e (· ∈ (∅ : Finset String)) = ∅ := by simp [itemsOf]
  rw [items_goto, items_pending s e t, h, hnone, Set.union_empty]

theorem items_send (s : World τ η Date) (e : LivelyItemEnum) (topic topic' : KafkaEnum) (m : String)
    (t : τ) (phase : Stage) : itemsOf e ((s.send topic m t phase).Pending topic') =
      itemsOf e ((s.goto t phase).Pending topic') ∪
        if topic' = topic then itemsOf e (· = m) else ∅ := by
  split
  · next htopic =>
    subst htopic
    rw [← itemsOf_or]
    congr 1
    funext m'
    simp only [Pending, send, Function.update_self, List.mem_append, List.mem_singleton, eq_iff_iff]
    exact or_right_comm
  · next htopic =>
    rw [Set.union_empty]
    congr 1
    funext m'
    simp only [Pending, send, Function.update_of_ne htopic, goto]

/-- A thread that goes on and has the same messages to send. -/
theorem view_goto {s : World τ η Date} {t : τ} {phase : Stage}
    (h : ∀ topic, phase.sending topic = (s.phase t).sending topic) (e : LivelyItemEnum) :
    (s.goto t phase).view e = s.view e := by
  ext1
  · rfl
  · rfl
  · change itemsOf e ((s.goto t phase).Pending _) = itemsOf e (s.Pending _)
    rw [items_goto, items_pending s e t, h]
  · change itemsOf e ((s.goto t phase).Pending _) = itemsOf e (s.Pending _)
    rw [items_goto, items_pending s e t, h]

/-- A message goes from the thread to the topic. -/
theorem view_send {s : World τ η Date} {t : τ} {phase : Stage} {topic : KafkaEnum} {m : String}
    (h : ∀ topic' m', m' ∈ (s.phase t).sending topic' ↔
      m' ∈ phase.sending topic' ∨ topic' = topic ∧ m' = m) (e : LivelyItemEnum) :
    (s.send topic m t phase).view e = s.view e := by
  have hitems (topic' : KafkaEnum) : itemsOf e ((s.send topic m t phase).Pending topic') =
      itemsOf e (s.Pending topic') := by
    rw [items_send, items_goto, items_pending s e t, Set.union_assoc]
    congr 1
    split
    · next htopic =>
      rw [← itemsOf_or]
      congr 1
      funext m'
      simp [h, htopic]
    · next htopic =>
      rw [Set.union_empty]
      congr 1
      funext m'
      simp [h, htopic]
  ext1
  · rfl
  · rfl
  · exact hitems _
  · exact hitems _

/-! ## The world refines the mirror -/

theorem step_zadd {s : World τ η Date} {t : τ} {e e' : LivelyItemEnum} {n item : Int64}
    {redis : Server} {ret : Int} (hphase : s.phase t = .zadd e' n item)
    (hexec : Command.exec ⟨key e', .zadd (score n) (toString item)⟩ s.redis =
      some (redis, .integer ret)) :
    (s.view e).Step (s.change e (.zadd t))
      (view { s.goto t (if ret = 1 then .sendAdd e' item else .put e' item) with redis := redis } e) := by
  obtain ⟨hzset, hret⟩ := Redis.zset_zadd hexec
  have hret : ret = 1 ↔ toString item ∉ s.members e' := by
    rw [Redis.Reply.integer.inj hret, members]
    split <;> simp_all
  have hstored (item' : Int64) : toString item' ∈ (redis.zset (key e)).members ↔
      e' = e ∧ item' = item ∨ toString item' ∈ s.members e := by
    by_cases he : e' = e
    · subst he
      rw [hzset, Redis.mem_zadd, Long.toString_injective.eq_iff]
      simp [members]
    · rw [members_of_ne he hexec]
      simp [he, members]
  have hquiet (topic : KafkaEnum) : (s.phase t).sending topic = ∅ := by
    rw [hphase]
    cases topic <;> rfl
  have hdeleting (phase : Stage) (h : phase.sending .livelyDelTopic = ∅) :
      itemsOf e ((s.goto t phase).Pending .livelyDelTopic) = (s.view e).deleting := by
    rw [items_none (hquiet _), h]
    simp [itemsOf, view]
  by_cases hnew : toString item ∈ s.members e'
  · -- nothing is added, also if the list is another one
    rw [if_neg (mt hret.1 (not_not.2 hnew))]
    have hchange : s.change e (.zadd t) = .other := by
      simp only [change, hphase]
      exact if_neg fun h => h.2 (h.1 ▸ hnew)
    have hview : view { s.goto t (.put e' item) with redis := redis } e = s.view e := by
      ext item'
      · refine (hstored item').trans ⟨?_, .inr⟩
        rintro (⟨rfl, rfl⟩ | h)
        · exact hnew
        · exact h
      · exact Iff.rfl
      · change item' ∈ itemsOf e ((s.goto t _).Pending _) ↔ _
        rw [items_none (hquiet _)]
        simp [Stage.sending, itemsOf, view]
      · change item' ∈ itemsOf e ((s.goto t _).Pending _) ↔ _
        rw [hdeleting _ rfl]
    rw [hchange, hview]
    exact .other
  · rw [if_pos (hret.2 hnew)]
    have hadding : itemsOf e ((s.goto t (.sendAdd e' item)).Pending .livelyAddTopic) =
        (s.view e).adding ∪ if e' = e then {item} else ∅ := by
      rw [items_none (hquiet _)]
      simp only [Stage.sending, Finset.mem_singleton, itemsOf_message, view]
    by_cases he : e' = e
    · subst he
      have hchange : s.change e' (.zadd t) = .insert item := by
        simp only [change, hphase]
        exact if_pos ⟨trivial, hnew⟩
      have hview : view { s.goto t (.sendAdd e' item) with redis := redis } e' =
          ⟨insert item (s.view e').stored, (s.view e').mirrored, insert item (s.view e').adding,
            (s.view e').deleting⟩ := by
        ext item'
        · refine (hstored item').trans ?_
          simp [view]
        · exact Iff.rfl
        · change item' ∈ itemsOf e' ((s.goto t _).Pending _) ↔ _
          rw [hadding, if_pos rfl, Set.union_comm]
          rfl
        · change item' ∈ itemsOf e' ((s.goto t _).Pending _) ↔ _
          rw [hdeleting _ rfl]
      rw [hchange, hview]
      exact .insert item
    · have hchange : s.change e (.zadd t) = .other := by
        simp only [change, hphase]
        exact if_neg fun h => he h.1
      have hview : view { s.goto t (.sendAdd e' item) with redis := redis } e = s.view e := by
        ext item'
        · refine (hstored item').trans ?_
          simp [he, view]
        · exact Iff.rfl
        · change item' ∈ itemsOf e ((s.goto t _).Pending _) ↔ _
          rw [hadding, if_neg he, Set.union_empty]
        · change item' ∈ itemsOf e ((s.goto t _).Pending _) ↔ _
          rw [hdeleting _ rfl]
      rw [hchange, hview]
      exact .other

theorem step_zremrange {s : World τ η Date} {t : τ} {e e' : LivelyItemEnum} {overdue : List String}
    {n : Int64} {redis : Server} {reply : Redis.Reply} (hs : s.Sound e)
    (hphase : s.phase t = .zremrange e' overdue n)
    (hexec : Command.exec ⟨key e', .zremrangeByScore 0 (score n)⟩ s.redis = some (redis, reply)) :
    (s.view e).Step (s.change e (.zremrangeByScore t))
      (view { s.goto t (.sendDel (overdueMessage e' overdue)) with redis := redis } e) := by
  have hquiet (topic : KafkaEnum) : (s.phase t).sending topic = ∅ := by
    rw [hphase]
    cases topic <;> rfl
  have hadding : itemsOf e ((s.goto t (.sendDel (overdueMessage e' overdue))).Pending
      .livelyAddTopic) = (s.view e).adding := by
    rw [items_none (hquiet _)]
    simp [Stage.sending, itemsOf, view]
  have hdeleting : itemsOf e ((s.goto t (.sendDel (overdueMessage e' overdue))).Pending
      .livelyDelTopic) = (s.view e).deleting ∪
        if e' = e then {item | toString item ∈ overdue} else ∅ := by
    rw [items_none (hquiet _)]
    refine congrArg (_ ∪ ·) (itemsOf_overdueMessage fun m hm he => hs.listed t m ?_)
    rw [hphase, Stage.listed, if_pos he]
    exact hm
  by_cases he : e' = e
  · subst he
    have hchange : s.change e' (.zremrangeByScore t) =
        .remove {item | toString item ∈ s.members e' ∧ toString item ∉ s.left e' n}
          {item | toString item ∈ overdue} := by
      simp only [change, hphase]
      exact if_pos trivial
    have hview : view { s.goto t (.sendDel (overdueMessage e' overdue)) with redis := redis } e' =
        ⟨(s.view e').stored \ {item | toString item ∈ s.members e' ∧ toString item ∉ s.left e' n},
          (s.view e').mirrored, (s.view e').adding,
          (s.view e').deleting ∪ {item | toString item ∈ overdue}⟩ := by
      ext item
      · change toString item ∈ (redis.zset (key e')).members ↔ _
        rw [Redis.zset_zremrangeByScore hexec]
        simp only [view, left, Set.mem_sdiff, Set.mem_ofPred_eq, not_and, not_not]
        exact ⟨fun h => ⟨Redis.zremrangeByScore_subset h, fun _ => h⟩, fun h => h.2 h.1⟩
      · exact Iff.rfl
      · change item ∈ itemsOf e' ((s.goto t _).Pending _) ↔ _
        rw [hadding]
      · change item ∈ itemsOf e' ((s.goto t _).Pending _) ↔ _
        rw [hdeleting, if_pos rfl]
    rw [hchange, hview]
    exact .remove fun item h => h.1
  · have hchange : s.change e (.zremrangeByScore t) = .other := by
      simp only [change, hphase]
      exact if_neg he
    have hview : view { s.goto t (.sendDel (overdueMessage e' overdue)) with redis := redis } e =
        s.view e := by
      ext item
      · change toString item ∈ (redis.zset (key e)).members ↔ _
        rw [members_of_ne he hexec]
        exact Iff.rfl
      · exact Iff.rfl
      · change item ∈ itemsOf e ((s.goto t _).Pending _) ↔ _
        rw [hadding]
      · change item ∈ itemsOf e ((s.goto t _).Pending _) ↔ _
        rw [hdeleting, if_neg he, Set.union_empty]
    rw [hchange, hview]
    exact .other

omit [DecidableEq τ] in
theorem step_execute {s : World τ η Date} {topic : KafkaEnum} {n : Nat} {ok : LivelyItemEnum → Bool}
    {order : KeyOrder} {service : LivelyService} {e : LivelyItemEnum}
    (hs : s.Sound e)
    (hexec : s.service.execute topic ok order ((s.queue topic).take n).toFinset = (true, service)) :
    (s.view e).Step (s.change e (.execute topic n))
      (view { s with
        queue := update s.queue topic ((s.queue topic).drop n)
        service := service } e) := by
  obtain ⟨c, hc⟩ := Option.ne_none_iff_exists'.1 hs.has
  set s' : World τ η Date := { s with
    queue := update s.queue topic ((s.queue topic).drop n)
    service := service }
  have hcache : service.cache e = (s.service.cache e).map
      (topic.effect · (items e ((s.queue topic).take n).toFinset)) := by
    have hcache := LivelyService.execute_cache (by rw [hexec]) e
    rwa [hexec] at hcache
  have hrest : itemsOf e (s'.Pending topic) =
      itemsOf e fun m => m ∈ (s.queue topic).drop n ∨ ∃ t, m ∈ (s.phase t).sending topic := by
    refine congrArg _ (funext fun m => ?_)
    simp only [Pending, s', Function.update_self]
  have hother (topic' : KafkaEnum) (h : topic' ≠ topic) :
      itemsOf e (s'.Pending topic') = itemsOf e (s.Pending topic') := by
    refine congrArg _ (funext fun m => ?_)
    simp only [Pending, s', Function.update_of_ne h]
  have hsplit : itemsOf e (s.Pending topic) = itemsOf e (· ∈ (s.queue topic).take n) ∪
      itemsOf e fun m => m ∈ (s.queue topic).drop n ∨ ∃ t, m ∈ (s.phase t).sending topic := by
    rw [← itemsOf_or]
    refine congrArg _ (funext fun m => ?_)
    rw [← or_assoc, ← List.mem_append, List.take_append_drop]
    rfl
  cases topic with
  | livelyAddTopic =>
    have hview : s'.view e = ⟨(s.view e).stored,
        (s.view e).mirrored ∪ itemsOf e (· ∈ (s.queue .livelyAddTopic).take n),
        itemsOf e fun m => m ∈ (s.queue .livelyAddTopic).drop n ∨
          ∃ t, m ∈ (s.phase t).sending .livelyAddTopic, (s.view e).deleting⟩ := by
      ext item
      · exact Iff.rfl
      · change (∃ c ∈ service.cache e, item ∈ c) ↔ _
        simp [hcache, view, hc, KafkaEnum.effect, itemsOf, mem_items]
      · exact Set.ext_iff.1 hrest item
      · exact Set.ext_iff.1 (hother .livelyDelTopic (by decide)) item
    rw [hview]
    exact .add hsplit
  | livelyDelTopic =>
    have hview : s'.view e = ⟨(s.view e).stored,
        (s.view e).mirrored \ itemsOf e (· ∈ (s.queue .livelyDelTopic).take n), (s.view e).adding,
        itemsOf e fun m => m ∈ (s.queue .livelyDelTopic).drop n ∨
          ∃ t, m ∈ (s.phase t).sending .livelyDelTopic⟩ := by
      ext item
      · exact Iff.rfl
      · change (∃ c ∈ service.cache e, item ∈ c) ↔ _
        simp [hcache, view, hc, KafkaEnum.effect, itemsOf, mem_items]
      · exact Set.ext_iff.1 (hother .livelyAddTopic (by decide)) item
      · exact Set.ext_iff.1 hrest item
    rw [hview]
    exact .del hsplit

/-- The step keeps the mirror settled. A sweep removes no item that it has not found, unless a
deletion of it is outstanding, and leaves none that it has found, unless an addition is. A batch that
executes the message of the last change of an item leaves no message of the other topic for it. -/
def Keeps (s : World τ η Date) (e : LivelyItemEnum) (l : Action τ) : Prop :=
  (s.view e).Keeps (s.change e l)

omit [DecidableEq τ] in
theorem keeps_zadd (s : World τ η Date) (e : LivelyItemEnum) (t : τ) : s.Keeps e (.zadd t) := by
  rw [Keeps, change]
  split
  · split <;> trivial
  · trivial

variable [DecidableEq η] [Preorder Date] {cal : Calendar Date} {host : τ → η}

theorem Sound.step {s s' : World τ η Date} {l : Action τ} {e : LivelyItemEnum} (hs : s.Sound e)
    (h : Step cal host s l s') : s'.Sound e := by
  have hgoto {t : τ} {phase : Stage}
      (hlisted : ∀ m ∈ phase.listed e, ∃ item : Int64, m = toString item) :
      ∀ t', ∀ m ∈ ((s.goto t phase).phase t').listed e, ∃ item : Int64, m = toString item := by
    intro t'
    by_cases ht : t' = t
    · subst ht
      simpa only [goto, Function.update_self] using hlisted
    · simpa only [goto, Function.update_of_ne ht] using hs.listed t'
  have hnil : ∀ m ∈ ([] : List String), ∃ item : Int64, m = toString item := by simp
  cases h with
  | tick | expire | suppressed => exact ⟨hs.has, hs.member, hs.listed⟩
  | collect | getScore | sendAdd | put | deleteTask | sendDel | sent =>
    exact ⟨hs.has, hs.member, hgoto hnil⟩
  | @zadd t e' n item redis ret hphase hexec =>
    refine ⟨hs.has, fun m hm => ?_, hgoto ?_⟩
    · by_cases he : e' = e
      · subst he
        rw [members, (Redis.zset_zadd hexec).1, Redis.mem_zadd] at hm
        exact hm.elim (fun h => ⟨item, h⟩) (hs.member m)
      · rw [members, members_of_ne he hexec] at hm
        exact hs.member m hm
    · split <;> exact hnil
  | @zrangeByScore t e' n overdue hphase hoverdue =>
    refine ⟨hs.has, hs.member, hgoto ?_⟩
    split
    · exact hnil
    · simp only [Stage.listed]
      split
      · next he =>
        subst he
        rw [hoverdue]
        exact fun m hm => hs.member m (Redis.zrangeByScore_subset hm)
      · exact hnil
  | @getOverdueScore t e' overdue hphase =>
    refine ⟨hs.has, hs.member, hgoto ?_⟩
    have hlisted := hs.listed t
    rw [hphase] at hlisted
    exact hlisted
  | @zremrangeByScore t e' overdue n redis reply hphase hexec =>
    refine ⟨hs.has, fun m hm => ?_, hgoto hnil⟩
    by_cases he : e' = e
    · subst he
      rw [members, Redis.zset_zremrangeByScore hexec] at hm
      exact hs.member m (Redis.zremrangeByScore_subset hm)
    · rw [members, members_of_ne he hexec] at hm
      exact hs.member m hm
  | @execute topic n ok order service hn hlen hexec =>
    refine ⟨?_, hs.member, hs.listed⟩
    have hhas := LivelyService.execute_has (by rw [hexec]) e
    rw [hexec] at hhas
    exact hhas.2 hs.has

theorem step_view {s s' : World τ η Date} {l : Action τ} {e : LivelyItemEnum} (hs : s.Sound e)
    (h : Step cal host s l s') : (s.view e).Step (s.change e l) (s'.view e) := by
  have hsame (hview : s'.view e = s.view e) (hchange : s.change e l = .other) :
      (s.view e).Step (s.change e l) (s'.view e) := by
    rw [hview, hchange]
    exact .other
  have hgoto {t : τ} {phase : Stage} (hphase : ∀ topic, (s.phase t).sending topic = ∅)
      (hphase' : ∀ topic, phase.sending topic = ∅) : (s.goto t phase).view e = s.view e :=
    view_goto (fun topic => by rw [hphase, hphase']) e
  cases h with
  | tick | expire | suppressed => exact hsame rfl rfl
  | collect hphase | getScore hphase | put hphase | deleteTask hphase | getOverdueScore hphase
    | sent hphase =>
    exact hsame (hgoto (fun topic => by rw [hphase]; cases topic <;> rfl)
      fun topic => by cases topic <;> rfl) rfl
  | zrangeByScore hphase =>
    refine hsame (hgoto (fun topic => by rw [hphase]; cases topic <;> rfl) fun topic => ?_) rfl
    split <;> cases topic <;> rfl
  | sendAdd hphase =>
    refine hsame (view_send (fun topic m => ?_) e) rfl
    rw [hphase]
    cases topic <;> simp [Stage.sending]
  | @sendDel t messages m' hphase hm =>
    refine hsame (view_send (fun topic m => ?_) e) rfl
    rw [hphase]
    cases topic with
    | livelyAddTopic => simp [Stage.sending]
    | livelyDelTopic =>
      simp only [Stage.sending, Finset.mem_erase, true_and]
      constructor
      · intro hmem
        by_cases hne : m = m'
        · exact .inr hne
        · exact .inl ⟨hne, hmem⟩
      · rintro (⟨-, hmem⟩ | rfl)
        · exact hmem
        · exact hm
  | zadd hphase hexec => exact step_zadd hphase hexec
  | zremrangeByScore hphase hexec => exact step_zremrange hs hphase hexec
  | execute hn hlen hexec => exact step_execute hs hexec

/-! ## Convergence -/

/-- No message of the list is left: `LIVELY_CACHE` has the members of the sorted set. -/
theorem converges {s s' : World τ η Date} {e : LivelyItemEnum} {ls : List (Action τ)} (hs : s.Start e)
    (h : Run (fun s l s' => Step cal host s l s' ∧ s.Keeps e l) s ls s')
    (hdone : ∀ topic item, ∀ m, s'.Pending topic m → entry m ≠ some (some (e.name, item))) :
    ∃ c ∈ s'.service.cache e, ∀ m, m ∈ s'.members e ↔ ∃ item ∈ c, m = toString item := by
  obtain ⟨hsound, hsettled⟩ : s'.Sound e ∧ (s'.view e).Settled :=
    h.invariant (I := fun s => s.Sound e ∧ (s.view e).Settled) hs.settled fun s l s' hi hstep =>
      ⟨hi.1.step hstep.1, (Mirror.settled_iff hi.2 (step_view hi.1 hstep.1)).2 hstep.2⟩
  have hpending (topic : KafkaEnum) : itemsOf e (s'.Pending topic) = ∅ := by
    ext item
    simp only [itemsOf, Set.mem_ofPred_eq, Set.mem_empty_iff_false, iff_false]
    rintro ⟨m, hm, hentry⟩
    exact hdone topic item m hm hentry
  have hview := hsettled.eq (hpending _) (hpending _)
  obtain ⟨c, hc⟩ := Option.ne_none_iff_exists'.1 hsound.has
  have hmem (item : Int64) : item ∈ c ↔ toString item ∈ s'.members e := by
    have hitem := Set.ext_iff.1 hview item
    simpa [view, hc] using hitem
  refine ⟨c, hc, fun m => ⟨fun hm => ?_, ?_⟩⟩
  · obtain ⟨item, rfl⟩ := hsound.member m hm
    exact ⟨item, (hmem item).2 hm, rfl⟩
  · rintro ⟨item, hitem, rfl⟩
    exact (hmem item).1 hitem

/-- A call of `collect` that adds a new item and announces it. -/
theorem run_collect {s : World τ η Date} {t : τ} {e : LivelyItemEnum} {item : Int64} {redis : Server}
    (hidle : s.phase t = .idle) (hkey : cacheKey e item ∉ s.livelyCache (host t))
    (hexec : Command.exec ⟨key e, .zadd (score (e.getScore cal s.now)) (toString item)⟩ s.redis =
      some (redis, .integer 1)) (e' : LivelyItemEnum) :
    Run (fun s l s' => Step cal host s l s' ∧ s.Keeps e' l) s
      [.collect t e item, .getScore t, .zadd t, .sendAdd t]
      { s with
        redis := redis
        phase := update s.phase t (.put e item)
        queue := update s.queue .livelyAddTopic (s.queue .livelyAddTopic ++ [message e item]) } := by
  have hgoto (s : World τ η Date) (phase : Stage) : (s.goto t phase).phase t = phase :=
    Function.update_self ..
  have h₁ : Run (fun s l s' => Step cal host s l s' ∧ s.Keeps e' l) s [.collect t e item]
      (s.goto t (.add e item)) := Run.nil.snoc ⟨.collect hidle hkey, trivial⟩
  have h₂ := h₁.snoc ⟨.getScore (hgoto _ _), trivial⟩
  have h₃ := h₂.snoc ⟨.zadd (hgoto _ _) hexec, keeps_zadd _ _ _⟩
  have h₄ := h₃.snoc ⟨.sendAdd (hgoto _ _), trivial⟩
  simpa [goto, send] using h₄

/-- The days of January 2014, at noon. -/
def january : Calendar Int where
  format pattern day :=
    if pattern = "yyyyMMddHH" then Int64.ofInt (2014010012 + 100 * day)
    else Int64.ofInt (201401001200 + 10000 * day)
  addDays day amount := day + amount

/-- A day's noon, with idle threads and empty topics. -/
def quiet (day : Int) (redis : Server) (lively : Finset Int64) : World Bool Unit Int :=
  ⟨day, redis, fun _ => ∅, fun _ => .idle, fun _ => [],
    ⟨fun _ => some lively, fun _ => some lively⟩⟩

/-- A batch of one message of a list that every process has. -/
theorem exists_execute {this : LivelyService} {e : LivelyItemEnum} {c : Finset Int64}
    (h : this.cache e = some c) (topic : KafkaEnum) (item : Int64) :
    ∃ this', this.execute topic (fun _ => true) .sorted [message e item].toFinset = (true, this') ∧
      this'.cache e = some (topic.effect c {item}) := by
  have haccepts : ∀ each ∈ [message e item].toFinset, this.Accepts each := by
    intro each heach
    obtain rfl : each = message e item := by simpa using heach
    refine ⟨by simp [entry_message], fun e' item' hentry => ?_⟩
    simp only [entry_message, Option.some.injEq, Prod.mk.injEq,
      LivelyItemEnum.name_injective.eq_iff] at hentry
    simp [LivelyService.Has, ← hentry.1, h]
  obtain ⟨this', hexec, hcache⟩ := this.exists_execute topic (fun _ => true) .sorted haccepts
  refine ⟨this', hexec, ?_⟩
  rw [hcache, h, List.toFinset_cons, List.toFinset_nil, insert_empty_eq, items_message,
    Option.map_some]

/-- An item that is collected, and its message executed. -/
theorem converges_collected : ∃ (ls : List (Action Bool)) (s : World Bool Unit Int),
    Run (fun s l s' => Step january (fun _ => ()) s l s' ∧ s.Keeps .cid1Day l)
      (quiet 1 (fun _ => none) ∅) ls s ∧ "7" ∈ s.members .cid1Day ∧
      ∃ c ∈ s.service.cache .cid1Day, ∀ m, m ∈ s.members .cid1Day ↔ ∃ item ∈ c, m = toString item := by
  let start := quiet 1 (fun _ => none) ∅
  let redis : Server := update start.redis (key .cid1Day)
    (some (.zset [("7", score (LivelyItemEnum.cid1Day.getScore january 1))]))
  let s : World Bool Unit Int := { start with
    redis := redis
    phase := update start.phase false (.put .cid1Day 7)
    queue := update start.queue .livelyAddTopic [message .cid1Day 7] }
  have hcollect : Run (fun s l s' => Step january (fun _ => ()) s l s' ∧ s.Keeps .cid1Day l) start
      [.collect false .cid1Day 7, .getScore false, .zadd false, .sendAdd false] s := by
    have hexec : Command.exec ⟨key .cid1Day,
        .zadd (score (LivelyItemEnum.cid1Day.getScore january 1)) "7"⟩ start.redis =
        some (redis, .integer 1) := rfl
    apply run_collect
    · rfl
    · exact Finset.notMem_empty _
    · exact hexec
  have hsending (t : Bool) (topic : KafkaEnum) : (s.phase t).sending topic = ∅ := by
    cases t <;> cases topic <;> rfl
  have hstart : start.service.cache .cid1Day = some ∅ := rfl
  obtain ⟨service, hexec, -⟩ := exists_execute hstart .livelyAddTopic 7
  have hkeeps : s.Keeps .cid1Day (.execute .livelyAddTopic 1) := by
    refine fun x _ _ => .inr fun hx => ?_
    obtain ⟨m, hm | ⟨t, hm⟩, -⟩ := hx
    · cases hm
    · rw [hsending] at hm
      cases hm
  have hrun := hcollect.snoc ⟨.execute (by decide) (by decide) hexec, hkeeps⟩
  refine ⟨_, _, hrun, List.mem_singleton_self _,
    converges ⟨fun _ => rfl, fun _ => rfl, ∅, rfl, fun m => ?_⟩ hrun ?_⟩
  · simp [start, quiet, members, Server.zset, ZSet.members]
  · rintro topic item m (hm | ⟨t, hm⟩)
    · cases topic <;> cases hm
    · rw [hsending] at hm
      cases hm

/-- An overdue item is swept and collected again; then both messages are executed, the addition
first. -/
theorem added_then_deleted : ¬ ∀ (ls : List (Action Bool)) (s s' : World Bool Unit Int),
    s.Start .cid1Day → Run (Step january fun _ => ()) s ls s' →
    (∀ topic item, ∀ m, s'.Pending topic m → entry m ≠ some (some ("cid_1_day", item))) →
    ∃ c ∈ s'.service.cache .cid1Day, ∀ m, m ∈ s'.members .cid1Day ↔ ∃ item ∈ c, m = toString item := by
  intro h
  let redis (score : ℚ) : Server :=
    update (fun _ => none) (key .cid1Day) (some (.zset [("7", score)]))
  let start := quiet 10 (redis 2014010112) {7}
  let n : Int64 := LivelyItemEnum.cid1Day.getOverdueScore january 10
  have hn : score n = 2014010812 := by
    have hlong : n.toInt = 2014010812 := by decide
    rw [score, hlong]
    norm_num
  have hrange : (start.redis.zset (key .cid1Day)).zrangeByScore 0 (score n) = ["7"] := by
    rw [hn]
    norm_num [start, quiet, redis, Server.zset, ZSet.zrangeByScore, ZSet.members]
  have hremove : Command.exec ⟨key .cid1Day, .zremrangeByScore 0 (score n)⟩ start.redis =
      some (fun _ => none, .integer 1) := by
    rw [hn]
    norm_num [start, quiet, redis, Command.exec, Redis.Cmd.exec, Redis.Cmd.execZSet,
      ZSet.zremrangeByScore, Redis.Value.stored]
  let removed : World Bool Unit Int := { start with
    redis := fun _ => none
    phase := update start.phase true .idle
    queue := update start.queue .livelyDelTopic [message .cid1Day 7] }
  have hsweep : Run (Step january fun _ => ()) start
      [.deleteTask true .cid1Day, .zrangeByScore true, .getOverdueScore true, .zremrangeByScore true,
        .sendDel true (message .cid1Day 7), .sent true] removed := by
    have h₁ : Run (Step january fun _ => ()) start [.deleteTask true .cid1Day]
        (start.goto true (.zrange .cid1Day n)) := Run.nil.snoc (.deleteTask rfl)
    have h₂ := h₁.snoc (.zrangeByScore (t := true) rfl hrange.symm)
    have h₃ := h₂.snoc (.getOverdueScore (t := true) rfl)
    have h₄ := h₃.snoc (.zremrangeByScore (t := true) rfl hremove)
    have h₅ := h₄.snoc (.sendDel (t := true) (m := message .cid1Day 7) rfl (by decide))
    have h₆ := h₅.snoc (.sent (t := true) rfl)
    simpa [goto, send, start, quiet, removed] using h₆
  let collected : World Bool Unit Int := { removed with
    redis := redis (score (LivelyItemEnum.cid1Day.getScore january 10))
    phase := update removed.phase false (.put .cid1Day 7)
    queue := update removed.queue .livelyAddTopic [message .cid1Day 7] }
  have hcollect : Run (fun s l s' => Step january (fun _ => ()) s l s' ∧ s.Keeps .cid1Day l) removed
      [.collect false .cid1Day 7, .getScore false, .zadd false, .sendAdd false] collected := by
    have hexec : Command.exec ⟨key .cid1Day,
        .zadd (score (LivelyItemEnum.cid1Day.getScore january 10)) "7"⟩ removed.redis =
        some (collected.redis, .integer 1) := rfl
    apply run_collect
    · rfl
    · exact Finset.notMem_empty _
    · exact hexec
  obtain ⟨-, hcollect⟩ := hcollect.simulate (I := fun _ => True) (f := id) (Step january fun _ => ())
    trivial fun _ _ _ _ hs => ⟨trivial, hs.1⟩
  have hstart : start.service.cache .cid1Day = some {7} := rfl
  obtain ⟨added, hadd, hcache⟩ := exists_execute hstart .livelyAddTopic 7
  obtain ⟨deleted, hdel, hcache'⟩ := exists_execute hcache .livelyDelTopic 7
  have hrun := ((hsweep.append hcollect).snoc
    (.execute (n := 1) Nat.one_pos (by exact Nat.le_refl 1) hadd)).snoc
      (.execute (n := 1) Nat.one_pos (by exact Nat.le_refl 1) hdel)
  have hmembers (m : String) : m ∈ start.members .cid1Day ↔ ∃ item ∈ ({7} : Finset Int64),
      m = toString item := by
    simp only [Finset.mem_singleton, exists_eq_left]
    exact List.mem_singleton
  obtain ⟨c, hc, hfinal⟩ := h _ _ _ ⟨fun _ => rfl, fun _ => rfl, {7}, rfl, hmembers⟩ hrun (by
    rintro topic item m (hm | ⟨t, hm⟩)
    · cases topic <;> cases hm
    · cases t <;> cases topic <;> cases hm)
  obtain rfl : c = ∅ := by
    have hcache' : deleted.cache .cid1Day = some ∅ := by rw [hcache']; rfl
    exact Option.some.inj (hc.symm.trans hcache')
  obtain ⟨item, hitem, -⟩ := (hfinal "7").1 (List.mem_singleton_self _)
  exact absurd hitem (Finset.notMem_empty _)

end World

end BaseService.Lively
