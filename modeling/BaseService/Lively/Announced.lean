import BaseService.Data.Runs
import BaseService.Data.Since
import BaseService.Lively.LivelyCollect

/-!
# Announcements when calls fail

The threads of `collect` and `deleteTask` once more, now with Redis calls that return their failure
value or throw, and with sends that throw. A log has what happened to the sorted sets and the topics.

* `Record`, `Announcer`, `Step` : the log, the state, and the steps with their failures;
* `Announces` : what the end of a call promises about the log;
* `Safe` : nothing fails between a change of Redis and its send, and no call ends while another thread
  is there;
* `announced` : **in a run of safe steps every change has been announced when a call ends.**
-/

namespace BaseService.Lively
open Function (update)
open Redis (Command Server)

inductive Record
  | inserted (e : LivelyItemEnum) (member : String)
  | removed (e : LivelyItemEnum) (member : String)
  | sent (topic : KafkaEnum) (message : String)
  deriving DecidableEq

structure Announcer (τ η Date : Type) where
  now : Date
  redis : Server
  livelyCache : η → Finset String
  phase : τ → Stage
  log : List Record

/-- `executed` : a command that fails may have been executed; a send that throws may have sent some of
its messages. -/
inductive Attempt (τ : Type)
  | tick
  | expire
  | collect (t : τ) (e : LivelyItemEnum) (item : Int64)
  | getScore (t : τ)
  | zadd (t : τ)
  | zaddFailed (t : τ) (executed thrown : Bool)
  | sendAdd (t : τ)
  | sendAddThrown (t : τ) (sent : Bool)
  | put (t : τ)
  | deleteTask (t : τ) (e : LivelyItemEnum)
  | zrangeByScore (t : τ) (e : LivelyItemEnum)
  | zrangeByScoreThrown (t : τ)
  | getOverdueScore (t : τ)
  | zremrangeByScore (t : τ) (executed : Bool)
  | zremrangeByScoreThrown (t : τ) (executed : Bool)
  | sendDel (t : τ) (e : LivelyItemEnum)
  | sendDelThrown (t : τ) (sent : List String)

/-- What happened to the sorted set of the list. -/
def records (e : LivelyItemEnum) (before after : Server) : List Record :=
  ((after.zset (key e)).members.filter (· ∉ (before.zset (key e)).members)).map (.inserted e) ++
    ((before.zset (key e)).members.filter (· ∉ (after.zset (key e)).members)).map (.removed e)

theorem inserted_mem_records {e e' : LivelyItemEnum} {before after : Server} {m : String} :
    .inserted e' m ∈ records e before after ↔
      e' = e ∧ m ∈ (after.zset (key e)).members ∧ m ∉ (before.zset (key e)).members := by
  simp only [records, List.mem_append, List.mem_map, List.mem_filter, decide_eq_true_eq,
    Record.inserted.injEq, reduceCtorEq, and_false, exists_false, or_false]
  constructor
  · rintro ⟨m', hm, rfl, rfl⟩
    exact ⟨rfl, hm⟩
  · rintro ⟨rfl, hm⟩
    exact ⟨m, hm, rfl, rfl⟩

theorem removed_mem_records {e e' : LivelyItemEnum} {before after : Server} {m : String} :
    .removed e' m ∈ records e before after ↔
      e' = e ∧ m ∈ (before.zset (key e)).members ∧ m ∉ (after.zset (key e)).members := by
  simp only [records, List.mem_append, List.mem_map, List.mem_filter, decide_eq_true_eq,
    Record.removed.injEq, reduceCtorEq, and_false, exists_false, false_or]
  constructor
  · rintro ⟨m', hm, rfl, rfl⟩
    exact ⟨rfl, hm⟩
  · rintro ⟨rfl, hm⟩
    exact ⟨m, hm, rfl, rfl⟩

/-- A command that fails. -/
def attempted (executed : Bool) (c : Command) (s : Server) : Option Server :=
  if executed then c.apply s else some s

theorem attempted_spec {executed : Bool} {c : Command} {s s' : Server}
    (h : attempted executed c s = some s') :
    executed = false ∧ s' = s ∨ executed = true ∧ ∃ reply, c.exec s = some (s', reply) := by
  cases executed with
  | false => exact .inl ⟨rfl, (Option.some.inj h).symm⟩
  | true =>
    obtain ⟨⟨s'', reply⟩, hexec, rfl⟩ := Option.map_eq_some_iff.1 h
    exact .inr ⟨rfl, reply, hexec⟩

/-- The messages of a sweep, in any order. -/
def OverdueMessages (e : LivelyItemEnum) (overdue ms : List String) : Prop :=
  ms.toFinset = World.overdueMessage e overdue

namespace Announcer
variable {τ η Date : Type}

/-- The sorted sets are those of `redis` now; the messages have been sent on the topic. -/
def change (s : Announcer τ η Date) (e : LivelyItemEnum) (redis : Server) : Announcer τ η Date :=
  { s with redis := redis, log := s.log ++ records e s.redis redis }

def send (s : Announcer τ η Date) (topic : KafkaEnum) (ms : List String) : Announcer τ η Date :=
  { s with log := s.log ++ ms.map (.sent topic) }

def goto [DecidableEq τ] (s : Announcer τ η Date) (t : τ) (phase : Stage) : Announcer τ η Date :=
  { s with phase := update s.phase t phase }

/-- `host t` is the process of the thread. An exception ends the call. -/
inductive Step [DecidableEq τ] [DecidableEq η] [Preorder Date] (cal : Calendar Date) (host : τ → η) :
    Announcer τ η Date → Attempt τ → Announcer τ η Date → Prop
  | tick {s : Announcer τ η Date} {now : Date} : s.now ≤ now → Step cal host s .tick { s with now := now }
  | expire {s : Announcer τ η Date} {p : η} {keys : Finset String} : keys ⊆ s.livelyCache p →
    Step cal host s .expire { s with livelyCache := update s.livelyCache p keys }
  | suppressed {s : Announcer τ η Date} {t : τ} {e : LivelyItemEnum} {item : Int64} :
    s.phase t = .idle → cacheKey e item ∈ s.livelyCache (host t) →
    Step cal host s (.collect t e item) s
  | collect {s : Announcer τ η Date} {t : τ} {e : LivelyItemEnum} {item : Int64} :
    s.phase t = .idle → cacheKey e item ∉ s.livelyCache (host t) →
    Step cal host s (.collect t e item) (s.goto t (.add e item))
  | getScore {s : Announcer τ η Date} {t : τ} {e : LivelyItemEnum} {item : Int64} :
    s.phase t = .add e item →
    Step cal host s (.getScore t) (s.goto t (.zadd e (e.getScore cal s.now) item))
  | zadd {s : Announcer τ η Date} {t : τ} {e : LivelyItemEnum} {n item : Int64} {redis : Server}
      {ret : Int} :
    s.phase t = .zadd e n item →
    Command.exec ⟨key e, .zadd (score n) (toString item)⟩ s.redis = some (redis, .integer ret) →
    Step cal host s (.zadd t)
      ((s.change e redis).goto t (if ret = 1 then .sendAdd e item else .put e item))
  | zaddFailed {s : Announcer τ η Date} {t : τ} {e : LivelyItemEnum} {n item : Int64} {redis : Server}
      {executed thrown : Bool} :
    s.phase t = .zadd e n item →
    attempted executed ⟨key e, .zadd (score n) (toString item)⟩ s.redis = some redis →
    -- the failure value is -1
    Step cal host s (.zaddFailed t executed thrown)
      ((s.change e redis).goto t (if thrown then .idle else .put e item))
  | sendAdd {s : Announcer τ η Date} {t : τ} {e : LivelyItemEnum} {item : Int64} :
    s.phase t = .sendAdd e item →
    Step cal host s (.sendAdd t) ((s.send .livelyAddTopic [message e item]).goto t (.put e item))
  | sendAddThrown {s : Announcer τ η Date} {t : τ} {e : LivelyItemEnum} {item : Int64} {sent : Bool} :
    s.phase t = .sendAdd e item →
    Step cal host s (.sendAddThrown t sent)
      ((s.send .livelyAddTopic (if sent then [message e item] else [])).goto t .idle)
  | put {s : Announcer τ η Date} {t : τ} {e : LivelyItemEnum} {item : Int64} :
    s.phase t = .put e item →
    Step cal host s (.put t)
      { s.goto t .idle with
        livelyCache := update s.livelyCache (host t)
          (insert (cacheKey e item) (s.livelyCache (host t))) }
  | deleteTask {s : Announcer τ η Date} {t : τ} {e : LivelyItemEnum} :
    s.phase t = .idle →
    Step cal host s (.deleteTask t e) (s.goto t (.zrange e (e.getOverdueScore cal s.now)))
  | zrangeByScore {s : Announcer τ η Date} {t : τ} {e : LivelyItemEnum} {n : Int64}
      {overdue : List String} :
    s.phase t = .zrange e n → overdue = (s.redis.zset (key e)).zrangeByScore 0 (score n) →
    Step cal host s (.zrangeByScore t e)
      (s.goto t (if overdue = [] then .idle else .overdue e overdue))
  | zrangeByScoreThrown {s : Announcer τ η Date} {t : τ} {e : LivelyItemEnum} {n : Int64} :
    s.phase t = .zrange e n → Step cal host s (.zrangeByScoreThrown t) (s.goto t .idle)
  | getOverdueScore {s : Announcer τ η Date} {t : τ} {e : LivelyItemEnum} {overdue : List String} :
    s.phase t = .overdue e overdue →
    Step cal host s (.getOverdueScore t)
      (s.goto t (.zremrange e overdue (e.getOverdueScore cal s.now)))
  | zremrangeByScore {s : Announcer τ η Date} {t : τ} {e : LivelyItemEnum} {overdue : List String}
      {n : Int64} {redis : Server} {executed : Bool} :
    s.phase t = .zremrange e overdue n →
    attempted executed ⟨key e, .zremrangeByScore 0 (score n)⟩ s.redis = some redis →
    -- a failure value is only logged
    Step cal host s (.zremrangeByScore t executed)
      ((s.change e redis).goto t (.sendDel (World.overdueMessage e overdue)))
  | zremrangeByScoreThrown {s : Announcer τ η Date} {t : τ} {e : LivelyItemEnum}
      {overdue : List String} {n : Int64} {redis : Server} {executed : Bool} :
    s.phase t = .zremrange e overdue n →
    attempted executed ⟨key e, .zremrangeByScore 0 (score n)⟩ s.redis = some redis →
    Step cal host s (.zremrangeByScoreThrown t executed) ((s.change e redis).goto t .idle)
  | sendDel {s : Announcer τ η Date} {t : τ} {e : LivelyItemEnum} {overdue ms : List String} :
    s.phase t = .sendDel (World.overdueMessage e overdue) → OverdueMessages e overdue ms →
    Step cal host s (.sendDel t e) ((s.send .livelyDelTopic ms).goto t .idle)
  | sendDelThrown {s : Announcer τ η Date} {t : τ} {messages : Finset String} {sent : List String} :
    s.phase t = .sendDel messages → sent.toFinset ⊆ messages →
    Step cal host s (.sendDelThrown t sent) ((s.send .livelyDelTopic sent).goto t .idle)

/-! ## The property and its condition -/

def members (s : Announcer τ η Date) (e : LivelyItemEnum) : List String :=
  (s.redis.zset (key e)).members

/-- The message of a member that was removed. -/
def delMessage (e : LivelyItemEnum) (member : String) : String := e.name ++ "@" ++ member

/-- An ADD message has been sent since the item was last inserted. -/
def AddSent (s : Announcer τ η Date) (e : LivelyItemEnum) (item : Int64) : Prop :=
  Since (.sent .livelyAddTopic (message e item)) (.inserted e (toString item)) s.log

/-- The member has been removed, and no DEL message sent since. -/
def DelUnsent (s : Announcer τ η Date) (e : LivelyItemEnum) (member : String) : Prop :=
  Since (.removed e member) (.sent .livelyDelTopic (delMessage e member)) s.log

/-- No other thread is about to announce items that were removed from the list. -/
def Alone (s : Announcer τ η Date) (t : τ) (e : LivelyItemEnum) : Prop :=
  ∀ t', t' ≠ t → ∀ messages, s.phase t' = .sendDel messages → ∀ member, delMessage e member ∉ messages

/-- Nothing fails between a change of the sorted set and its announcement, the removal takes nothing
that was not read, and no other thread is between the two when a call ends. -/
def Safe (s : Announcer τ η Date) : Attempt τ → Prop
  | .zaddFailed t executed _ => executed = true →
    ∀ e n item, s.phase t = .zadd e n item → toString item ∈ s.members e
  | .sendAddThrown _ sent => sent = true
  | .put t => ∀ e item, s.phase t = .put e item → toString item ∈ s.members e →
    ∀ t', s.phase t' ≠ .sendAdd e item
  | .zrangeByScore t e => ∀ n, s.phase t = .zrange e n →
    (s.redis.zset (key e)).zrangeByScore 0 (score n) = [] → s.Alone t e
  | .zremrangeByScore t executed => executed = true → ∀ e overdue n, s.phase t = .zremrange e overdue n →
    (s.redis.zset (key e)).zrangeByScore 0 (score n) ⊆ overdue
  | .zremrangeByScoreThrown t executed => executed = true →
    ∀ e overdue n, s.phase t = .zremrange e overdue n →
      (s.redis.zset (key e)).zrangeByScore 0 (score n) = []
  | .sendDel t e => s.Alone t e
  | .sendDelThrown t sent => ∀ messages, s.phase t = .sendDel messages → messages ⊆ sent.toFinset
  | _ => True

/-- The lists are empty, and no call is under way. -/
structure Start (s : Announcer τ η Date) : Prop where
  members : ∀ e, s.members e = []
  phase : ∀ t, s.phase t = .idle
  log : s.log = []

/-! ## What is announced, or about to be -/

/-- A member has been announced or is about to be; so is what was removed. -/
structure Sound (s : Announcer τ η Date) : Prop where
  added : ∀ e item, toString item ∈ s.members e → s.AddSent e item ∨ ∃ t, s.phase t = .sendAdd e item
  removed : ∀ e member, s.DelUnsent e member →
    ∃ t messages, s.phase t = .sendDel messages ∧ delMessage e member ∈ messages

theorem Start.sound {s : Announcer τ η Date} (h : s.Start) : s.Sound := by
  constructor
  · intro e item hitem
    rw [h.members] at hitem
    cases hitem
  · intro e member hunsent
    rw [DelUnsent, h.log] at hunsent
    exact absurd hunsent (not_since_nil _ _)

/-- What a step has to show that adds `rs` to the log. -/
theorem Sound.extend {s s' : Announcer τ η Date} (h : s.Sound) {rs : List Record}
    (hlog : s'.log = s.log ++ rs)
    (hmembers : ∀ e item, toString item ∈ s'.members e →
      toString item ∈ s.members e ∧ .inserted e (toString item) ∉ rs ∨ ∃ t, s'.phase t = .sendAdd e item)
    (hadd : ∀ t e item, s.phase t = .sendAdd e item →
      s'.phase t = .sendAdd e item ∨ .sent .livelyAddTopic (message e item) ∈ rs)
    (hremoved : ∀ e member, .removed e member ∈ rs →
      ∃ t messages, s'.phase t = .sendDel messages ∧ delMessage e member ∈ messages)
    (hdel : ∀ t messages, s.phase t = .sendDel messages →
      s'.phase t = .sendDel messages ∨ ∀ m ∈ messages, .sent .livelyDelTopic m ∈ rs) : s'.Sound := by
  constructor
  · intro e item hitem
    rw [AddSent, hlog]
    obtain ⟨hold, hnot⟩ | hsending := hmembers e item hitem
    · obtain hsent | ⟨t, ht⟩ := h.added e item hold
      · exact .inl (hsent.kept hnot)
      · obtain ht' | hsent := hadd t e item ht
        · exact .inr ⟨t, ht'⟩
        · exact .inl (.last hsent hnot)
    · exact .inr hsending
  · intro e member hunsent
    rw [DelUnsent, hlog] at hunsent
    obtain hnew | ⟨hold, hnot⟩ := hunsent.of_append
    · exact hremoved e member hnew
    · obtain ⟨t, messages, ht, hmem⟩ := h.removed e member hold
      obtain ht' | hsent := hdel t messages ht
      · exact ⟨t, messages, ht', hmem⟩
      · exact absurd (hsent _ hmem) hnot

/-- Nothing is announced from the stage. -/
def Quiet : Stage → Prop
  | .sendAdd _ _ | .sendDel _ => False
  | _ => True

theorem Quiet.ne_sendAdd {phase : Stage} (h : Quiet phase) (e : LivelyItemEnum) (item : Int64) :
    phase ≠ .sendAdd e item := by
  rintro rfl
  exact h

theorem Quiet.ne_sendDel {phase : Stage} (h : Quiet phase) (messages : Finset String) :
    phase ≠ .sendDel messages := by
  rintro rfl
  exact h

section
variable [DecidableEq τ] {s s' : Announcer τ η Date} {t : τ} {e : LivelyItemEnum} {phase phase' : Stage}

theorem goto_self : (s.goto t phase).phase t = phase := Function.update_self ..

/-- The other threads stay where they are, and so does none that is elsewhere. -/
theorem goto_other {t' : τ} {phase'' : Stage} (ht : s.phase t = phase) (ht' : s.phase t' = phase'')
    (hne : phase ≠ phase'') : (s.goto t phase').phase t' = phase'' := by
  have hthread : t' ≠ t := by
    rintro rfl
    exact hne (ht.symm.trans ht')
  exact (Function.update_of_ne hthread ..).trans ht'

/-- A step that changes no sorted set and sends nothing. -/
theorem Sound.goto (h : s.Sound) (ht : s.phase t = phase) (hquiet : Quiet phase)
    (hredis : s'.redis = s.redis) (hphase : s'.phase = (s.goto t phase').phase) (hlog : s'.log = s.log) :
    s'.Sound := by
  have hlog' : s'.log = s.log ++ [] := by rw [hlog, List.append_nil]
  refine h.extend hlog' ?_ ?_ ?_ ?_
  · intro e item hitem
    rw [members, hredis] at hitem
    exact .inl ⟨hitem, List.not_mem_nil⟩
  · intro t' e item ht'
    rw [hphase]
    exact .inl (goto_other ht ht' (hquiet.ne_sendAdd e item))
  · intro e member hmem
    cases hmem
  · intro t' messages ht'
    rw [hphase]
    exact .inl (goto_other ht ht' (hquiet.ne_sendDel messages))

/-- A command on the list: the thread goes on to announce what it has changed. -/
theorem Sound.change (h : s.Sound) (ht : s.phase t = phase) (hquiet : Quiet phase) {redis : Server}
    (hinserted : ∀ e' item, toString item ∈ (redis.zset (key e')).members →
      toString item ∈ s.members e' ∨ phase' = .sendAdd e' item)
    (hremoved : ∀ member ∈ s.members e, member ∉ (redis.zset (key e)).members →
      ∃ messages, phase' = .sendDel messages ∧ delMessage e member ∈ messages) :
    ((s.change e redis).goto t phase').Sound := by
  refine h.extend rfl ?_ ?_ ?_ ?_
  · intro e' item hitem
    obtain hold | rfl := hinserted e' item hitem
    · left
      refine ⟨hold, fun hmem => ?_⟩
      obtain ⟨rfl, -, hnew⟩ := inserted_mem_records.1 hmem
      exact hnew hold
    · exact .inr ⟨t, goto_self⟩
  · intro t' e' item ht'
    have ht'' : (s.change e redis).phase t' = .sendAdd e' item := ht'
    exact .inl (goto_other ht ht'' (hquiet.ne_sendAdd e' item))
  · intro e' member hmem
    obtain ⟨rfl, hold, hgone⟩ := removed_mem_records.1 hmem
    obtain ⟨messages, rfl, hmessage⟩ := hremoved member hold hgone
    exact ⟨t, messages, goto_self, hmessage⟩
  · intro t' messages ht'
    have ht'' : (s.change e redis).phase t' = .sendDel messages := ht'
    exact .inl (goto_other ht ht'' (hquiet.ne_sendDel messages))

/-- A send of all messages that the thread has. -/
theorem Sound.send (h : s.Sound) {topic : KafkaEnum} {ms : List String}
    (hadd : ∀ e item, s.phase t = .sendAdd e item → topic = .livelyAddTopic ∧ message e item ∈ ms)
    (hdel : ∀ messages, s.phase t = .sendDel messages →
      topic = .livelyDelTopic ∧ ∀ m ∈ messages, m ∈ ms) :
    ((s.send topic ms).goto t phase').Sound := by
  have hthread {t' : τ} (hne : t' ≠ t) : ((s.send topic ms).goto t phase').phase t' = s.phase t' :=
    Function.update_of_ne hne ..
  refine h.extend rfl ?_ ?_ ?_ ?_
  · intro e item hitem
    refine .inl ⟨hitem, fun hmem => ?_⟩
    obtain ⟨m, -, hm⟩ := List.mem_map.1 hmem
    cases hm
  · intro t' e item ht'
    by_cases hne : t' = t
    · subst hne
      obtain ⟨rfl, hmem⟩ := hadd e item ht'
      exact .inr (List.mem_map_of_mem hmem)
    · exact .inl ((hthread hne).trans ht')
  · intro e member hmem
    obtain ⟨m, -, hm⟩ := List.mem_map.1 hmem
    cases hm
  · intro t' messages ht'
    by_cases hne : t' = t
    · subst hne
      obtain ⟨rfl, hmem⟩ := hdel messages ht'
      exact .inr fun m hm => List.mem_map_of_mem (hmem m hm)
    · exact .inl ((hthread hne).trans ht')

omit [DecidableEq τ] in
/-- What `zadd` leaves in the sorted sets. -/
theorem mem_zadd {n item : Int64} {redis : Server} {reply : Redis.Reply}
    (h : Command.exec ⟨key e, .zadd (score n) (toString item)⟩ s.redis = some (redis, reply))
    (e' : LivelyItemEnum) (member : String) : member ∈ (redis.zset (key e')).members ↔
      e' = e ∧ member = toString item ∨ member ∈ s.members e' := by
  by_cases he : e' = e
  · subst he
    rw [(Redis.zset_zadd h).1, Redis.mem_zadd]
    simp [members]
  · rw [Redis.zset_of_ne h (key_injective.ne he)]
    simp [members, he]

omit [DecidableEq τ] in
/-- What `zremrangeByScore` leaves in the sorted sets, and what it takes away. -/
theorem mem_zremrangeByScore {n : Int64} {redis : Server} {reply : Redis.Reply}
    (h : Command.exec ⟨key e, .zremrangeByScore 0 (score n)⟩ s.redis = some (redis, reply)) :
    (∀ e' member, member ∈ (redis.zset (key e')).members → member ∈ s.members e') ∧
      ∀ member ∈ s.members e, member ∉ (redis.zset (key e)).members →
        member ∈ (s.redis.zset (key e)).zrangeByScore 0 (score n) := by
  constructor
  · intro e' member hmem
    by_cases he : e' = e
    · subst he
      rw [Redis.zset_zremrangeByScore h] at hmem
      exact Redis.zremrangeByScore_subset hmem
    · rwa [Redis.zset_of_ne h (key_injective.ne he)] at hmem
  · intro member hold hgone
    obtain ⟨⟨member', score'⟩, hmem, rfl⟩ := List.mem_map.1 hold
    rw [Redis.mem_zrangeByScore]
    refine ⟨score', hmem, ?_⟩
    by_contra hleft
    apply hgone
    rw [Redis.zset_zremrangeByScore h]
    exact List.mem_map.2 ⟨_, Redis.mem_zremrangeByScore.2 ⟨hmem, hleft⟩, rfl⟩

variable [DecidableEq η] [Preorder Date] {cal : Calendar Date} {host : τ → η} {a : Attempt τ}

/-- **A safe step leaves nothing unannounced that nobody is about to announce.** -/
theorem Sound.step (h : s.Sound) (hs : Step cal host s a s') (hsafe : s.Safe a) : s'.Sound := by
  cases hs with
  | tick => exact ⟨h.added, h.removed⟩
  | expire => exact ⟨h.added, h.removed⟩
  | suppressed => exact h
  | collect ht => exact h.goto ht trivial rfl rfl rfl
  | getScore ht => exact h.goto ht trivial rfl rfl rfl
  | put ht => exact h.goto ht trivial rfl rfl rfl
  | deleteTask ht => exact h.goto ht trivial rfl rfl rfl
  | zrangeByScore ht => exact h.goto ht trivial rfl rfl rfl
  | zrangeByScoreThrown ht => exact h.goto ht trivial rfl rfl rfl
  | getOverdueScore ht => exact h.goto ht trivial rfl rfl rfl
  | @zadd t e n item redis ret ht hexec =>
    refine h.change ht trivial ?_ ?_
    · intro e' item' hmem
      obtain ⟨rfl, hitem⟩ | hold := (mem_zadd hexec _ _).1 hmem
      · obtain rfl := Long.toString_injective hitem
        by_cases hnew : toString item' ∈ (s.redis.zset (key e')).members
        · exact .inl hnew
        · have hret := (Redis.zset_zadd hexec).2
          rw [if_neg hnew] at hret
          cases hret
          exact .inr (if_pos rfl)
      · exact .inl hold
    · intro member hold hgone
      exact absurd ((mem_zadd hexec _ _).2 (.inr hold)) hgone
  | @zaddFailed t e n item redis executed thrown ht hattempted =>
    refine h.change ht trivial ?_ ?_
    · intro e' item' hmem
      obtain ⟨-, rfl⟩ | ⟨hexecuted, reply, hexec⟩ := attempted_spec hattempted
      · exact .inl hmem
      · left
        obtain ⟨rfl, hitem⟩ | hold := (mem_zadd hexec _ _).1 hmem
        · rw [hitem]
          exact hsafe hexecuted _ _ _ ht
        · exact hold
    · intro member hold hgone
      obtain ⟨-, rfl⟩ | ⟨-, reply, hexec⟩ := attempted_spec hattempted
      · exact absurd hold hgone
      · exact absurd ((mem_zadd hexec _ _).2 (.inr hold)) hgone
  | sendAdd ht =>
    refine h.send (fun e' item' ht' => ?_) fun messages ht' => ?_
    · cases ht.symm.trans ht'
      exact ⟨rfl, List.mem_singleton_self _⟩
    · cases ht.symm.trans ht'
  | sendAddThrown ht =>
    obtain rfl : _ = true := hsafe
    refine h.send (fun e' item' ht' => ?_) fun messages ht' => ?_
    · cases ht.symm.trans ht'
      exact ⟨rfl, List.mem_singleton_self _⟩
    · cases ht.symm.trans ht'
  | @zremrangeByScore t e overdue n redis executed ht hattempted =>
    obtain ⟨-, rfl⟩ | ⟨hexecuted, reply, hexec⟩ := attempted_spec hattempted
    · exact h.change ht trivial (fun _ _ hmem => .inl hmem) fun _ hold hgone => absurd hold hgone
    · obtain ⟨hsub, hrange⟩ := mem_zremrangeByScore hexec
      refine h.change ht trivial (fun e' item hmem => .inl (hsub e' _ hmem)) ?_
      intro member hold hgone
      refine ⟨_, rfl, ?_⟩
      have hread : member ∈ overdue := hsafe hexecuted _ _ _ ht (hrange member hold hgone)
      exact List.mem_toFinset.2 (List.mem_map.2 ⟨member, hread, rfl⟩)
  | @zremrangeByScoreThrown t e overdue n redis executed ht hattempted =>
    obtain ⟨-, rfl⟩ | ⟨hexecuted, reply, hexec⟩ := attempted_spec hattempted
    · exact h.change ht trivial (fun _ _ hmem => .inl hmem) fun _ hold hgone => absurd hold hgone
    · obtain ⟨hsub, hrange⟩ := mem_zremrangeByScore hexec
      refine h.change ht trivial (fun e' item hmem => .inl (hsub e' _ hmem)) ?_
      intro member hold hgone
      have hread := hrange member hold hgone
      rw [hsafe hexecuted _ _ _ ht] at hread
      cases hread
  | sendDel ht hms =>
    refine h.send (fun e' item' ht' => ?_) fun messages ht' => ?_
    · cases ht.symm.trans ht'
    · cases ht.symm.trans ht'
      refine ⟨rfl, fun m hm => ?_⟩
      rw [← hms] at hm
      exact List.mem_toFinset.1 hm
  | sendDelThrown ht =>
    refine h.send (fun e' item' ht' => ?_) fun messages ht' => ?_
    · cases ht.symm.trans ht'
    · exact ⟨rfl, fun m hm => List.mem_toFinset.1 (hsafe _ ht' hm)⟩

end

/-! ## Examples -/

/-- Nothing has been collected. -/
def empty : Announcer Unit Unit Int := ⟨0, fun _ => none, fun _ => ∅, fun _ => .idle, []⟩

/-- The score of the first hour, in which the item 5 is collected. -/
def firstHour : Int64 := LivelyItemEnum.pid1Day.getScore hoursOfJanuary 0

def collected : Server := update empty.redis (key .pid1Day) (some (.zset [("5", score firstHour)]))

end Announcer

end BaseService.Lively
