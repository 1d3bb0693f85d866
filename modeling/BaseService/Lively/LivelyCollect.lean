import BaseService.Data.Runs
import BaseService.Lively.LivelyService
import BaseService.Redis.Server

/-!
# `LivelyCollect` and `deleteTask`

Threads of any number of processes collect items and sweep overdue ones; they change the sorted sets
in Redis and announce this on the two topics. One `LivelyService` executes the announcements.

* `Calendar`, `getScore`, `getOverdueScore` : the scores of a list at a time; `hoursOfJanuary` : one
  for examples;
* `Stage` : what a thread is about to do;
* `World`, `Step` : Redis, threads, topics and the service, and the steps of their code.
-/

namespace BaseService.Lively
open Function (update)
open Redis (Command Server ZSet)

/-! ## Scores -/

structure Calendar (Date : Type) where
  /-- `Long.valueOf(new SimpleDateFormat(pattern).format(date))`. -/
  format : String → Date → Int64
  /-- `DateUtils.addDays(date, amount)`. -/
  addDays : Date → Int → Date

/-- The hours of January 2014, counted from its beginning. -/
def hoursOfJanuary : Calendar Int where
  format pattern hour :=
    if pattern = "yyyyMMddHH" then Int64.ofInt (2014010100 + 100 * (hour / 24) + hour % 24)
    else Int64.ofInt (201401010000 + 10000 * (hour / 24) + 100 * (hour % 24))
  addDays hour amount := hour + 24 * amount

namespace LivelyItemEnum
variable {Date : Type}

def getScore (e : LivelyItemEnum) (cal : Calendar Date) (now : Date) : Int64 :=
  match e with
  | cidTest => cal.format "yyyyMMddHHmm" now
  | _ => cal.format "yyyyMMddHH" now

def getOverdueScore (e : LivelyItemEnum) (cal : Calendar Date) (now : Date) : Int64 :=
  cal.format "yyyyMMddHH" (cal.addDays now ((e.days + 1) * -1))

end LivelyItemEnum

/-- A `long` as the `double` that Redis gets. -/
def score (n : Int64) : ℚ := n.toInt

/-- `String.format(LivelyRedis.KEY, name)`. -/
def key (e : LivelyItemEnum) : String := "lively_" ++ e.name

theorem key_injective : Function.Injective key := by
  intro e e' h
  cases e <;> cases e' <;> first | rfl | exact absurd h (by decide)

/-- The key of `lively_cache`. -/
def cacheKey (e : LivelyItemEnum) (item : Int64) : String := e.name ++ "_" ++ toString item

/-! ## Threads -/

/-- What a thread of `collect` or `deleteTask` does next. -/
inductive Stage
  | idle
  /-- `collect`: `getScore`, `zadd`, `send` if the item is new, and `lively_cache.put`. -/
  | add (e : LivelyItemEnum) (item : Int64)
  | zadd (e : LivelyItemEnum) (score item : Int64)
  | sendAdd (e : LivelyItemEnum) (item : Int64)
  | put (e : LivelyItemEnum) (item : Int64)
  /-- `deleteTask`: `zrangeByScore`, `getOverdueScore` again, `zremrangeByScore`, and `send`. -/
  | zrange (e : LivelyItemEnum) (score : Int64)
  | overdue (e : LivelyItemEnum) (overdue : List String)
  | zremrange (e : LivelyItemEnum) (overdue : List String) (score : Int64)
  | sendDel (overdueMessage : Finset String)

/-- Kafka keeps the messages of a topic in the order in which they are sent. `lively_cache` belongs to
a process `η`. -/
structure World (τ η Date : Type) where
  now : Date
  redis : Server
  livelyCache : η → Finset String
  phase : τ → Stage
  queue : KafkaEnum → List String
  service : LivelyService

inductive Action (τ : Type)
  | tick
  | expire
  | collect (t : τ) (e : LivelyItemEnum) (item : Int64)
  | getScore (t : τ)
  | zadd (t : τ)
  | sendAdd (t : τ)
  | put (t : τ)
  | deleteTask (t : τ) (e : LivelyItemEnum)
  | zrangeByScore (t : τ)
  | getOverdueScore (t : τ)
  | zremrangeByScore (t : τ)
  | sendDel (t : τ) (message : String)
  | sent (t : τ)
  | execute (topic : KafkaEnum) (n : Nat)

namespace World
variable {τ η Date : Type} [DecidableEq τ] [DecidableEq η]

/-- The messages of a sweep. -/
def overdueMessage (e : LivelyItemEnum) (overdue : List String) : Finset String :=
  (overdue.map fun eachItem => e.name ++ "@" ++ eachItem).toFinset

/-- The thread goes on. -/
def goto (s : World τ η Date) (t : τ) (phase : Stage) : World τ η Date :=
  { s with phase := update s.phase t phase }

/-- The thread sends a message and goes on. -/
def send (s : World τ η Date) (topic : KafkaEnum) (message : String) (t : τ) (phase : Stage) :
    World τ η Date :=
  { s.goto t phase with queue := update s.queue topic (s.queue topic ++ [message]) }

/-- No call fails; `host t` is the process of the thread, whose `lively_cache` may drop entries at any
time. A batch has messages from the front of a topic. -/
inductive Step [Preorder Date] (cal : Calendar Date) (host : τ → η) :
    World τ η Date → Action τ → World τ η Date → Prop
  | tick {s : World τ η Date} {now : Date} : s.now ≤ now → Step cal host s .tick { s with now := now }
  | expire {s : World τ η Date} {p : η} {keys : Finset String} : keys ⊆ s.livelyCache p →
    Step cal host s .expire { s with livelyCache := update s.livelyCache p keys }
  | suppressed {s : World τ η Date} {t : τ} {e : LivelyItemEnum} {item : Int64} :
    s.phase t = .idle → cacheKey e item ∈ s.livelyCache (host t) →
    Step cal host s (.collect t e item) s
  | collect {s : World τ η Date} {t : τ} {e : LivelyItemEnum} {item : Int64} :
    s.phase t = .idle → cacheKey e item ∉ s.livelyCache (host t) →
    Step cal host s (.collect t e item) (s.goto t (.add e item))
  | getScore {s : World τ η Date} {t : τ} {e : LivelyItemEnum} {item : Int64} :
    s.phase t = .add e item →
    Step cal host s (.getScore t) (s.goto t (.zadd e (e.getScore cal s.now) item))
  | zadd {s : World τ η Date} {t : τ} {e : LivelyItemEnum} {n item : Int64} {redis : Server}
      {ret : Int} :
    s.phase t = .zadd e n item →
    Command.exec ⟨key e, .zadd (score n) (toString item)⟩ s.redis = some (redis, .integer ret) →
    Step cal host s (.zadd t)
      { s.goto t (if ret = 1 then .sendAdd e item else .put e item) with redis := redis }
  | sendAdd {s : World τ η Date} {t : τ} {e : LivelyItemEnum} {item : Int64} :
    s.phase t = .sendAdd e item →
    Step cal host s (.sendAdd t) (s.send .livelyAddTopic (message e item) t (.put e item))
  | put {s : World τ η Date} {t : τ} {e : LivelyItemEnum} {item : Int64} :
    s.phase t = .put e item →
    Step cal host s (.put t)
      { s.goto t .idle with
        livelyCache := update s.livelyCache (host t)
          (insert (cacheKey e item) (s.livelyCache (host t))) }
  | deleteTask {s : World τ η Date} {t : τ} {e : LivelyItemEnum} :
    s.phase t = .idle →
    Step cal host s (.deleteTask t e) (s.goto t (.zrange e (e.getOverdueScore cal s.now)))
  | zrangeByScore {s : World τ η Date} {t : τ} {e : LivelyItemEnum} {n : Int64}
      {overdue : List String} :
    s.phase t = .zrange e n → overdue = (s.redis.zset (key e)).zrangeByScore 0 (score n) →
    Step cal host s (.zrangeByScore t) (s.goto t (if overdue = [] then .idle else .overdue e overdue))
  | getOverdueScore {s : World τ η Date} {t : τ} {e : LivelyItemEnum} {overdue : List String} :
    s.phase t = .overdue e overdue →
    Step cal host s (.getOverdueScore t)
      (s.goto t (.zremrange e overdue (e.getOverdueScore cal s.now)))
  | zremrangeByScore {s : World τ η Date} {t : τ} {e : LivelyItemEnum} {overdue : List String}
      {n : Int64} {redis : Server} {reply : Redis.Reply} :
    s.phase t = .zremrange e overdue n →
    Command.exec ⟨key e, .zremrangeByScore 0 (score n)⟩ s.redis = some (redis, reply) →
    Step cal host s (.zremrangeByScore t)
      { s.goto t (.sendDel (overdueMessage e overdue)) with redis := redis }
  | sendDel {s : World τ η Date} {t : τ} {messages : Finset String} {m : String} :
    s.phase t = .sendDel messages → m ∈ messages →
    Step cal host s (.sendDel t m) (s.send .livelyDelTopic m t (.sendDel (messages.erase m)))
  | sent {s : World τ η Date} {t : τ} :
    s.phase t = .sendDel ∅ → Step cal host s (.sent t) (s.goto t .idle)
  | execute {s : World τ η Date} {topic : KafkaEnum} {n : Nat} {ok : LivelyItemEnum → Bool}
      {order : KeyOrder} {service : LivelyService} :
    0 < n → n ≤ (s.queue topic).length →
    s.service.execute topic ok order ((s.queue topic).take n).toFinset = (true, service) →
    Step cal host s (.execute topic n)
      { s with
        queue := update s.queue topic ((s.queue topic).drop n)
        service := service }

end World

end BaseService.Lively
