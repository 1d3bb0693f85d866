import BaseService.Schedule.DiscoveryUtil
import BaseService.Schedule.ListSchedule
import BaseService.Schedule.SmcSchedule

/-!
# The job of a schedule

Type and strategy of a schedule are stored in the description of its job, with `@` between them.

* `getScheduleTypeByName`, `getStrategyByName` : types and strategies by their names;
* `Environment`, `execute` : what a schedule does when it fires;
* `splitDescription_iff` : which descriptions are read as they were written;
* `Survives`, `survives_iff` : what is stored is what is listed and executed.
-/

namespace BaseService.Schedule
open Notify

/-! ## Types and strategies -/

inductive ScheduleType
  | SINGLE
  | ALL
  deriving DecidableEq, Repr

def ScheduleType.name : ScheduleType → String
  | SINGLE => "single"
  | ALL => "all"

def Strategy.name : Strategy → String
  | RANDOM => "random"
  | POLLING => "polling"
  | STICKY => "sticky"

/-- The constant of an enumeration with a name, null if there is none. -/
def getByName {α : Type} (values : List α) (nameOf : α → String) (name : Option String) : Option α :=
  match name with
  | none => none
  | some name => if StringUtils.isBlank name then none else values.find? fun each => nameOf each = name

def getScheduleTypeByName : Option String → Option ScheduleType :=
  getByName [.SINGLE, .ALL] ScheduleType.name

def getStrategyByName : Option String → Option Strategy :=
  getByName [.RANDOM, .POLLING, .STICKY] Strategy.name

/-! ## `ScheduleJob` -/

/-- What `execute` finds. `allService` and `instances` are the lists of the two calls of
`getAllService`, `draw` is what `random.nextInt` gives. -/
structure Environment where
  allService : String → Option (List ServiceInstance)
  instances : String → List ServiceInstance
  draw : Nat
  discoveryUtil : DiscoveryUtil ServiceInstance
  identification : Host

/-- Type and strategy as `execute` reads them. -/
def decode (desc : String) : Option ScheduleType × Option Strategy :=
  match StringUtils.split desc '@' with
  | [schduleType, strategy] =>
    (getScheduleTypeByName (some schduleType), getStrategyByName (some strategy))
  | _ => (none, none)

/-- `execute`, with the topic and the message that it produces. `jobDetail` is that of the context. -/
def execute (this : Environment) (jobDetail : Option (JobKey × JobDetail)) :
    Environment × Option (String × Message) :=
  match jobDetail with
  | none => (this, none)
  | some (key, job) =>
    let scheduleName := key.name
    let serverName := key.group
    match (decode job.description).1 with
    | none => (this, none)
    | some schduleType =>
      let strategy := (decode job.description).2
      if (this.allService serverName).all List.isEmpty then (this, none)
      else
        match schduleType with
        | .SINGLE =>
          let (server, discoveryUtil) := DiscoveryUtil.getService this.instances
            ⟨serverName, strategy.getD .POLLING, this.draw⟩ this.discoveryUtil
          ({ this with discoveryUtil := discoveryUtil }, server.map fun server =>
            (topic scheduleName,
              ⟨some MessageType.SCHEDULE_SINGLE_EXECUTE.code, server.address, server.port, none⟩))
        | .ALL =>
          (this, some (topic scheduleName, ⟨some MessageType.SCHEDULE_ALL_EXECUTE.code,
            this.identification.host, this.identification.port, none⟩))

/-! ## What is stored -/

/-- Servers are registered under the name. -/
structure Environment.Registered (this : Environment) (serverName : String) : Prop where
  found : ∃ servers, this.allService serverName = some servers ∧ servers ≠ []
  draw : this.draw < (this.instances serverName).length

/-- The message of a schedule: to one of its servers, or to all of them. -/
def Addressed (this : Environment) (serverName : String) (message : Message) : ScheduleType → Prop
  | .SINGLE => ∃ server ∈ this.instances serverName,
    message = ⟨some MessageType.SCHEDULE_SINGLE_EXECUTE.code, server.address, server.port, none⟩
  | .ALL => message = ⟨some MessageType.SCHEDULE_ALL_EXECUTE.code, this.identification.host,
    this.identification.port, none⟩

/-- What `addSchedule` has stored for `k` is what `getSchedule` returns and what `execute` does. -/
structure Survives (a : Arguments) (s : Scheduler) (k : JobKey) (this : Environment) : Prop where
  listed : ∃ schedule, getSchedule (fun _ => ⟨s, none⟩) k = .ok (some schedule) ∧
    schedule.scheduleType = a.scheduleType ∧ schedule.strategy = a.strategy
  decoded : ∀ job, s.jobs k = some job →
    decode job.description = (getScheduleTypeByName a.scheduleType, getStrategyByName a.strategy)
  fires : ∀ type, getScheduleTypeByName a.scheduleType = some type → this.Registered k.group →
    ∃ message, (execute this ((s.jobs k).map fun job => (k, job))).2 =
      some (topic k.name, message) ∧ Addressed this k.group message type

/-- Type and strategy can be told apart in the description. -/
structure Separable (a : Arguments) : Prop where
  scheduleType : ∃ type, a.scheduleType = some type ∧ type ≠ "" ∧ '@' ∉ type.toList
  strategy : ∃ strategy, a.strategy = some strategy ∧ strategy ≠ "" ∧ '@' ∉ strategy.toList

/-- The schedule fires by `POLLING`, at the one index at which it may select no server. -/
structure Overflown (a : Arguments) (serverName : String) (this : Environment) : Prop where
  single : a.scheduleType = some "single"
  polling : a.strategy ≠ some "random" ∧ a.strategy ≠ some "sticky"
  index : this.discoveryUtil.index = Int32.minValue
  indivisible : ¬ (this.instances serverName).length ∣ 2 ^ 31

/-! ## Descriptions -/

section
variable {a : Arguments} {desc : String}

theorem decode_eq (desc : String) :
    decode desc = (getScheduleTypeByName (splitDescription desc).1,
      getStrategyByName (splitDescription desc).2) := by
  unfold decode splitDescription
  generalize StringUtils.split desc '@' = split
  match split with
  | [] | [_] | [_, _] | _ :: _ :: _ :: _ => rfl

/-- A type that is read comes with a strategy, and they are the two tokens. -/
theorem splitDescription_some {type : String} {strategy : Option String}
    (h : splitDescription desc = (some type, strategy)) :
    ∃ s, strategy = some s ∧ StringUtils.split desc '@' = [type, s] := by
  unfold splitDescription at h
  split at h
  · next type' s hsplit =>
    obtain ⟨htype, hs⟩ := Prod.mk.inj h
    obtain rfl := Option.some.inj htype
    exact ⟨s, hs.symm, hsplit⟩
  · cases h

/-- **Which descriptions are read as they were written.** -/
theorem splitDescription_iff (h : descriptionOf a.scheduleType a.strategy = some desc) :
    splitDescription desc = (a.scheduleType, a.strategy) ↔ Separable a := by
  obtain ⟨type, htype, rfl⟩ := Option.map_eq_some_iff.mp h
  rw [htype]
  constructor
  · intro hread
    obtain ⟨s, hstrategy, hsplit⟩ := splitDescription_some hread
    have htoken : ∀ t ∈ [type, s], t ≠ "" ∧ '@' ∉ t.toList := by
      rw [← hsplit]
      exact fun t ht => StringUtils.split_mem ht
    exact ⟨⟨type, htype, htoken type (by simp)⟩, ⟨s, hstrategy, htoken s (by simp)⟩⟩
  · rintro ⟨⟨type', htype', ht⟩, ⟨s, hstrategy, hs⟩⟩
    obtain rfl : type = type' := Option.some.inj (htype.symm.trans htype')
    have hstr : (type ++ "@" ++ a.strategy.getD "null").toList = type.toList ++ '@' :: s.toList := by
      simp [hstrategy]
    rw [splitDescription, StringUtils.split_pair hstr ht hs, hstrategy]

/-! ## The stored schedule -/

variable {quartz : Quartz} {faults : Faults} {s s' : Scheduler} {k : JobKey} {this : Environment}

/-- The job and the trigger of a schedule that `addSchedule` has stored. -/
theorem addSchedule_stored (h : addSchedule quartz faults a s = (.ok true, s'))
    (hk : keyOf a.scheduleName a.serverName = some k) :
    ∃ desc t, descriptionOf a.scheduleType a.strategy = some desc ∧ s'.jobs k = some ⟨desc⟩ ∧
      s'.triggers k = some t := by
  obtain ⟨k', desc, cron, hs, rfl⟩ := addSchedule_ok h
  obtain rfl : k' = k := Option.some.inj (hs.key.symm.trans hk)
  exact ⟨desc, ⟨k', some cron, quartz.paused .NORMAL⟩, hs.desc,
    by simp [Scheduler.mapState, Scheduler.added], by simp [Scheduler.mapState, Scheduler.added]⟩

/-- `getSchedule` of a stored schedule. -/
theorem getSchedule_stored {t : Trigger} (hjob : s.jobs k = some ⟨desc⟩)
    (htrigger : s.triggers k = some t) :
    getSchedule (fun _ => ⟨s, none⟩) k = .ok (some ⟨k.name, k.group, t.cronExpression,
      (splitDescription desc).2, (splitDescription desc).1, statusOf (s.getTriggerState k), none⟩) := by
  unfold getSchedule
  simp only [Moment.ask_none]
  rw [hjob, htrigger]
  rfl

/-! ## Firing -/

theorem getByName_iff {α : Type} {values : List α} {nameOf : α → String} {x : α}
    (hmem : x ∈ values) (hinj : ∀ y ∈ values, nameOf y = nameOf x → y = x)
    (hblank : StringUtils.isBlank (nameOf x) = false) (name : Option String) :
    getByName values nameOf name = some x ↔ name = some (nameOf x) := by
  cases name with
  | none => exact iff_of_false (fun h => by cases h) (fun h => by cases h)
  | some n =>
    rw [Option.some_inj]
    constructor
    · intro h
      have hfind : values.find? (fun each => nameOf each = n) = some x := by
        rw [getByName] at h
        exact (Option.ite_none_left_eq_some.mp h).2
      have hname : nameOf x = n := by simpa using List.find?_some hfind
      exact hname.symm
    · rintro rfl
      simp only [getByName, hblank]
      cases hfind : values.find? fun each => nameOf each = nameOf x with
      | none => exact absurd (List.find?_eq_none.mp hfind x hmem) (by simp)
      | some y =>
        have hname : nameOf y = nameOf x := by simpa using List.find?_some hfind
        rw [hinj y (List.mem_of_find?_eq_some hfind) hname]
        rfl

theorem single_iff (name : Option String) :
    getScheduleTypeByName name = some .SINGLE ↔ name = some "single" :=
  getByName_iff (by decide) (by decide) (by decide) name

/-- Any other strategy than these two is executed as `POLLING`. -/
theorem polling_getD_iff (name : Option String) : (getStrategyByName name).getD .POLLING = .POLLING ↔
    name ≠ some "random" ∧ name ≠ some "sticky" := by
  have hrandom : getStrategyByName name = some .RANDOM ↔ name = some "random" :=
    getByName_iff (by decide) (by decide) (by decide) name
  have hsticky : getStrategyByName name = some .STICKY ↔ name = some "sticky" :=
    getByName_iff (by decide) (by decide) (by decide) name
  rw [Ne, Ne, ← hrandom, ← hsticky]
  cases getStrategyByName name with
  | none => simp
  | some strategy => cases strategy <;> simp

/-- The selection of the server of a `SINGLE` schedule. -/
def Environment.select (this : Environment) (serverName : String) (strategy : Option Strategy) :
    Option ServiceInstance :=
  (DiscoveryUtil.getService this.instances ⟨serverName, strategy.getD .POLLING, this.draw⟩
    this.discoveryUtil).1

variable {type : ScheduleType} {strategy : Option Strategy}

theorem execute_registered (hdecode : decode desc = (some type, strategy))
    (h : this.Registered k.group) :
    (execute this (some (k, ⟨desc⟩))).2 = match type with
      | .SINGLE => (this.select k.group strategy).map fun server => (topic k.name,
          ⟨some MessageType.SCHEDULE_SINGLE_EXECUTE.code, server.address, server.port, none⟩)
      | .ALL => some (topic k.name, ⟨some MessageType.SCHEDULE_ALL_EXECUTE.code,
          this.identification.host, this.identification.port, none⟩) := by
  obtain ⟨servers, hservers, hne⟩ := h.found
  unfold execute
  simp only [hdecode, hservers]
  rw [if_neg (by simpa using hne)]
  cases type with
  | SINGLE => rfl
  | ALL => rfl

/-- `POLLING` may have come to an index at which it selects no server. -/
theorem select_isSome_iff (h : this.Registered k.group) :
    (this.select k.group (getStrategyByName a.strategy)).isSome ↔
      (a.strategy ≠ some "random" ∧ a.strategy ≠ some "sticky" →
        this.discoveryUtil.index ≠ Int32.minValue ∨ (this.instances k.group).length ∣ 2 ^ 31) := by
  rw [Environment.select, DiscoveryUtil.getService_isSome_iff h.draw, polling_getD_iff]

theorem fires_iff (hdecode : decode desc =
      (getScheduleTypeByName a.scheduleType, getStrategyByName a.strategy)) :
    (∀ type, getScheduleTypeByName a.scheduleType = some type → this.Registered k.group →
      ∃ message, (execute this (some (k, ⟨desc⟩))).2 = some (topic k.name, message) ∧
        Addressed this k.group message type) ↔
      (this.Registered k.group → ¬ Overflown a k.group this) := by
  constructor
  · rintro hfires h ⟨hsingle, hpolling, hindex, hdvd⟩
    have htype := (single_iff _).mpr hsingle
    obtain ⟨message, hmessage, -⟩ := hfires .SINGLE htype h
    rw [htype] at hdecode
    rw [execute_registered hdecode h] at hmessage
    obtain ⟨server, hserver, -⟩ := Option.map_eq_some_iff.mp hmessage
    rcases (select_isSome_iff h).mp (by rw [hserver]; rfl) hpolling with hne | hdvd'
    · exact hne hindex
    · exact hdvd hdvd'
  · intro hnot type htype h
    rw [htype] at hdecode
    rw [execute_registered hdecode h]
    cases type with
    | ALL => exact ⟨_, rfl, rfl⟩
    | SINGLE =>
      have hselect : (this.select k.group (getStrategyByName a.strategy)).isSome := by
        rw [select_isSome_iff h]
        intro hpolling
        by_contra hindex
        obtain ⟨hmin, hdvd⟩ := not_or.mp hindex
        exact hnot h ⟨(single_iff _).mp htype, hpolling, not_not.mp hmin, hdvd⟩
      obtain ⟨server, hserver⟩ := Option.isSome_iff_exists.mp hselect
      exact ⟨_, by rw [hserver]; rfl, server, DiscoveryUtil.getService_mem hserver, rfl⟩

/-- **Which schedules survive their storage**: those whose type and strategy are not empty and
without `@`, unless `POLLING` has come to the index at which it selects no server. -/
theorem survives_iff (h : addSchedule quartz faults a s = (.ok true, s'))
    (hk : keyOf a.scheduleName a.serverName = some k) (this : Environment) :
    Survives a s' k this ↔
      Separable a ∧ (this.Registered k.group → ¬ Overflown a k.group this) := by
  obtain ⟨desc, t, hdesc, hjob, htrigger⟩ := addSchedule_stored h hk
  have hget := getSchedule_stored hjob htrigger
  constructor
  · rintro ⟨⟨schedule, hlisted, htype, hstrategy⟩, hdecoded, hfires⟩
    have hread : splitDescription desc = (a.scheduleType, a.strategy) := by
      obtain rfl : schedule = _ := Option.some.inj (Except.ok.inj (hlisted.symm.trans hget))
      exact Prod.ext htype hstrategy
    rw [hjob] at hfires
    exact ⟨(splitDescription_iff hdesc).mp hread, (fires_iff (hdecoded _ hjob)).mp hfires⟩
  · rintro ⟨hseparable, hnot⟩
    have hread := (splitDescription_iff hdesc).mpr hseparable
    have hdecode : decode desc =
        (getScheduleTypeByName a.scheduleType, getStrategyByName a.strategy) := by
      rw [decode_eq, hread]
    refine ⟨⟨_, hget, ?_, ?_⟩, ?_, ?_⟩
    · rw [hread]
    · rw [hread]
    · intro job hjob'
      obtain rfl : ⟨desc⟩ = job := Option.some.inj (hjob.symm.trans hjob')
      exact hdecode
    · rw [hjob]
      exact (fires_iff hdecode).mpr hnot

end

/-! ### An empty strategy -/

/-- One server under the name `g`. -/
def oneServer : Environment where
  allService _ := some [⟨"g", some "10.0.0.1", 80⟩]
  instances _ := [⟨"g", some "10.0.0.1", 80⟩]
  draw := 0
  discoveryUtil := .start
  identification := ⟨some "10.0.0.2", 0⟩

theorem oneServer_registered : oneServer.Registered "g" :=
  ⟨⟨_, rfl, List.cons_ne_nil _ _⟩, Nat.zero_lt_one⟩

theorem survives_once : Survives
    ⟨some "s", some "g", some "0 0 0 1 1 ? 2030", some "all", some "polling"⟩ addedOnce oneKey
      oneServer := by
  have hadd : addSchedule jdbcQuartz (fun _ => none)
      ⟨some "s", some "g", some "0 0 0 1 1 ? 2030", some "all", some "polling"⟩ .empty =
        (.ok true, addedOnce) := rfl
  refine (survives_iff hadd rfl oneServer).mpr ⟨⟨⟨_, rfl, ?_, ?_⟩, ⟨_, rfl, ?_, ?_⟩⟩, fun _ h => ?_⟩
  · decide
  · decide
  · decide
  · decide
  · cases h.index

/-- `all` needs no strategy, but with an empty one the description has a single token. -/
theorem not_survives_empty :
    (addSchedule jdbcQuartz (fun _ => none)
        ⟨some "s", some "g", some "0 0 0 1 1 ? 2030", some "all", some ""⟩ .empty).1 = .ok true ∧
      oneServer.Registered "g" ∧
      let s := (addSchedule jdbcQuartz (fun _ => none)
        ⟨some "s", some "g", some "0 0 0 1 1 ? 2030", some "all", some ""⟩ .empty).2
      getSchedule (fun _ => ⟨s, none⟩) oneKey =
        .ok (some ⟨"s", "g", some "0 0 0 1 1 ? 2030", none, none, 2, none⟩) ∧
      (execute oneServer ((s.jobs oneKey).map fun job => (oneKey, job))).2 = none := by
  refine ⟨rfl, oneServer_registered, ?_, ?_⟩
  · decide
  · decide

end BaseService.Schedule
