import BaseService.Data.Failing

/-!
# The administration of schedules

* `Scheduler`, `Quartz`, `Faults` : the jobs and triggers, what Quartz decides, and the calls that fail;
* `addSchedule`, `modifySchedule`, `removeSchedule`, `startSchedule`, `pauseSchedule`;
* `Schedulable`, `addSchedule_schedulable`, `addSchedule_unchanged` and their siblings : how far an
  operation comes, and what it does.
-/

namespace BaseService.Schedule
open Function (update)
open Failing

/-- `JobKey`, and the `TriggerKey` of the same name and group. -/
structure JobKey where
  name : String
  group : String
  deriving DecidableEq, Repr

structure JobDetail where
  description : String
  deriving DecidableEq, Repr

inductive TriggerState
  | NONE | NORMAL | PAUSED | COMPLETE | ERROR | BLOCKED
  deriving DecidableEq, Repr

/-- A trigger, with its cron expression if it is a `CronTrigger`. -/
structure Trigger where
  jobKey : JobKey
  cronExpression : Option String
  state : TriggerState
  deriving DecidableEq, Repr

structure Scheduler where
  jobs : JobKey → Option JobDetail
  triggers : JobKey → Option Trigger
  started : Bool

/-- What Quartz and its job store decide. -/
structure Quartz where
  /-- `new CronExpression(s)`, and the text it keeps; `none` is a `ParseException`. -/
  parse : String → Option String
  /-- Whether a cron expression has a next time to fire. -/
  fires : String → Bool
  paused : TriggerState → TriggerState
  resumed : TriggerState → TriggerState

inductive QuartzCall
  | getJobDetail | scheduleJob | pauseJob | deleteJob | getTrigger | isStarted | start | checkExists
  | resumeJob | resumeTrigger | pauseTrigger
  deriving DecidableEq, Repr

/-- The calls of an operation that throw a `SchedulerException`, with its message. -/
abbrev Faults := QuartzCall → Option String

inductive Throwable
  | schedulerException (message : String)
  | smcSchedulerException (message : String)
  | runtimeException (message : String)
  deriving DecidableEq, Repr

abbrev Service := Failing Throwable Scheduler

/-! ## Quartz -/

/-- A call either throws before it has changed anything, or does what it is for. -/
def call (faults : Faults) (c : QuartzCall) : Service Unit :=
  match faults c with
  | none => pure ()
  | some message => throw (.schedulerException message)

/-- The key of a name, which must not be null, and a group. -/
def keyOf (name group : Option String) : Option JobKey :=
  name.map fun name => ⟨name, group.getD "DEFAULT"⟩

def newJobKey (name group : Option String) : Service JobKey :=
  match keyOf name group with
  | none => throw (.runtimeException "Name cannot be null.")
  | some key => pure key

def getJobDetail (faults : Faults) (key : JobKey) : Service (Option JobDetail) := do
  call faults .getJobDetail
  return (← get).jobs key

def getTrigger (faults : Faults) (key : JobKey) : Service (Option Trigger) := do
  call faults .getTrigger
  return (← get).triggers key

/-- `scheduleJob(job, trigger)` of a job and a trigger with the same key. -/
def scheduleJob (quartz : Quartz) (faults : Faults) (key : JobKey) (job : JobDetail)
    (trigger : Trigger) : Service Unit := do
  call faults .scheduleJob
  if trigger.jobKey ≠ key then
    throw (.schedulerException "Trigger does not reference given job!")
  if trigger.cronExpression.all quartz.fires = false then
    throw (.schedulerException ("Based on configured schedule, the given trigger '" ++ key.group ++
      "." ++ key.name ++ "' will never fire."))
  let s ← get
  if (s.jobs key).isSome ∨ (s.triggers key).isSome then
    throw (.schedulerException "one already exists with this identification")
  set { s with
    jobs := update s.jobs key (some job)
    triggers := update s.triggers key (some { trigger with state := .NORMAL }) }

/-- What pausing or resuming a job does to its triggers. -/
def Scheduler.mapState (s : Scheduler) (key : JobKey) (f : TriggerState → TriggerState) : Scheduler :=
  { s with
    triggers := fun k => (s.triggers k).map fun t =>
      if t.jobKey = key then { t with state := f t.state } else t }

/-- What pausing or resuming a trigger does. -/
def Scheduler.mapTrigger (s : Scheduler) (key : JobKey) (f : TriggerState → TriggerState) :
    Scheduler :=
  { s with
    triggers := update s.triggers key ((s.triggers key).map fun t => { t with state := f t.state }) }

def pauseJob (quartz : Quartz) (faults : Faults) (key : JobKey) : Service Unit := do
  call faults .pauseJob
  modify fun s => s.mapState key quartz.paused

def resumeJob (quartz : Quartz) (faults : Faults) (key : JobKey) : Service Unit := do
  call faults .resumeJob
  modify fun s => s.mapState key quartz.resumed

def pauseTrigger (quartz : Quartz) (faults : Faults) (key : JobKey) : Service Unit := do
  call faults .pauseTrigger
  modify fun s => s.mapTrigger key quartz.paused

def resumeTrigger (quartz : Quartz) (faults : Faults) (key : JobKey) : Service Unit := do
  call faults .resumeTrigger
  modify fun s => s.mapTrigger key quartz.resumed

def Scheduler.deleted (s : Scheduler) (key : JobKey) : Scheduler :=
  { s with
    jobs := update s.jobs key none
    triggers := fun k => (s.triggers k).filter fun t => t.jobKey ≠ key }

/-- `deleteJob`, with all triggers of the job; it tells whether there was one. -/
def deleteJob (faults : Faults) (key : JobKey) : Service Bool := do
  call faults .deleteJob
  let s ← get
  set (s.deleted key)
  return (s.jobs key).isSome

def isStarted (faults : Faults) : Service Bool := do
  call faults .isStarted
  return (← get).started

def start (faults : Faults) : Service Unit := do
  call faults .start
  modify fun s => { s with started := true }

def checkExists (faults : Faults) (key : JobKey) : Service Bool := do
  call faults .checkExists
  return ((← get).jobs key).isSome

/-! ## The operations -/

/-- `catch (SchedulerException e)`. -/
def catchSchedulerException {α : Type} (text : String) (x : Service α) : Service α := fun s =>
  match x s with
  | (.error (.schedulerException message), s) =>
    (.error (.smcSchedulerException (text ++ message)), s)
  | result => result

/-- `new CronExpression(scheduleCron)` and its `catch (ParseException e)`. -/
def newCronExpression (quartz : Quartz) (scheduleCron : Option String) : Service String :=
  match scheduleCron with
  | none => throw (.runtimeException "cronExpression cannot be null")
  | some cron =>
    match quartz.parse cron with
    | none => throw (.smcSchedulerException "计划表达式不正确，请核实后再提交！")
    | some cron => pure cron

def descriptionOf (scheduleType strategy : Option String) : Option String :=
  scheduleType.map fun scheduleType => scheduleType ++ "@" ++ strategy.getD "null"

/-- `new StringBuilder(scheduleType).append("@").append(strategy).toString()`. -/
def description (scheduleType strategy : Option String) : Service String :=
  match descriptionOf scheduleType strategy with
  | none => throw (.runtimeException "")
  | some desc => pure desc

/-- The arguments of `addSchedule` and `modifySchedule`. -/
structure Arguments where
  scheduleName : Option String
  serverName : Option String
  scheduleCron : Option String
  scheduleType : Option String
  strategy : Option String

def addSchedule (quartz : Quartz) (faults : Faults) (a : Arguments) : Service Bool :=
  catchSchedulerException "创建过程发生错误！错误信息：" do
    let jobKey ← newJobKey a.scheduleName a.serverName
    let job ← getJobDetail faults jobKey
    if job.isSome then
      throw (.smcSchedulerException "该计划已经存在，请核实后再提交！")
    let cronExpression ← newCronExpression quartz a.scheduleCron
    let desc ← description a.scheduleType a.strategy
    scheduleJob quartz faults jobKey ⟨desc⟩ ⟨jobKey, some cronExpression, .NONE⟩
    pauseJob quartz faults jobKey
    return true

def removeSchedule (faults : Faults) (scheduleName serverName : Option String) : Service Bool := do
  catchSchedulerException "删除该计划出错！错误信息：" do
    let jobKey ← newJobKey scheduleName serverName
    let job ← getJobDetail faults jobKey
    if job.isNone then
      throw (.smcSchedulerException "该计划不存在，请核实后再执行该操作！")
    let isSucc ← deleteJob faults jobKey
    if !isSucc then
      throw (.smcSchedulerException "删除该计划出错！请稍后再试！")
  return true

/-- The calls of `removeSchedule` and `addSchedule` have faults of their own. -/
def modifySchedule (quartz : Quartz) (faults removeFaults addFaults : Faults) (a : Arguments) :
    Service Bool :=
  catchSchedulerException "过程发生错误！错误信息：" do
    let jobKey ← newJobKey a.scheduleName a.serverName
    let job ← getJobDetail faults jobKey
    if job.isNone then
      throw (.smcSchedulerException "该计划不存在，请核实后再提交！")
    let _ ← newCronExpression quartz a.scheduleCron
    let isSucc ← removeSchedule removeFaults a.scheduleName a.serverName
    if isSucc then
      addSchedule quartz addFaults a
    else
      return false

def startSchedule (quartz : Quartz) (faults : Faults) (scheduleName serverName : Option String) :
    Service Bool := do
  catchSchedulerException "开始计划出错，错误信息：" do
    let jobKey ← newJobKey scheduleName serverName
    let job ← getJobDetail faults jobKey
    match job with
    | none => throw (.smcSchedulerException "该计划不存在，请核实后再执行该操作！")
    | some job =>
      let trigger ← getTrigger faults jobKey
      match trigger with
      | none => throw (.smcSchedulerException "该计划不存在执行计划，请先添加执行计划！")
      | some trigger =>
        let isStarted ← isStarted faults
        if !isStarted then
          start faults
        if ← checkExists faults jobKey then
          resumeJob quartz faults jobKey
          resumeTrigger quartz faults jobKey
        else
          scheduleJob quartz faults jobKey job trigger
  return true

def pauseSchedule (quartz : Quartz) (faults : Faults) (scheduleName serverName : Option String) :
    Service Bool := do
  catchSchedulerException "停止计划出错，错误信息：" do
    let jobKey ← newJobKey scheduleName serverName
    let job ← getJobDetail faults jobKey
    if job.isNone then
      throw (.smcSchedulerException "该计划不存在，请核实后再执行该操作！")
    pauseJob quartz faults jobKey
    pauseTrigger quartz faults jobKey
  return true

/-! ## How far an operation comes -/

/-- The state after `scheduleJob` in `addSchedule`. -/
def Scheduler.added (s : Scheduler) (key : JobKey) (desc cron : String) : Scheduler :=
  { s with
    jobs := update s.jobs key (some ⟨desc⟩)
    triggers := update s.triggers key (some ⟨key, some cron, .NORMAL⟩) }

section
variable {quartz : Quartz} {faults : Faults} {a : Arguments} {s : Scheduler} {k : JobKey}
  {desc cron : String}

/-- `addSchedule` comes to `pauseJob`. -/
structure Schedulable (quartz : Quartz) (faults : Faults) (a : Arguments) (s : Scheduler)
    (k : JobKey) (desc cron : String) : Prop where
  key : keyOf a.scheduleName a.serverName = some k
  getJobDetail : faults .getJobDetail = none
  absent : s.jobs k = none
  parse : ∃ c, a.scheduleCron = some c ∧ quartz.parse c = some cron
  desc : descriptionOf a.scheduleType a.strategy = some desc
  scheduleJob : faults .scheduleJob = none
  fires : quartz.fires cron = true
  free : s.triggers k = none

theorem addSchedule_schedulable (h : Schedulable quartz faults a s k desc cron) :
    addSchedule quartz faults a s = match faults .pauseJob with
      | none => (.ok true, (s.added k desc cron).mapState k quartz.paused)
      | some message => (.error (.smcSchedulerException ("创建过程发生错误！错误信息：" ++ message)),
          s.added k desc cron) := by
  obtain ⟨c, hcron, hc⟩ := h.parse
  cases hp : faults .pauseJob <;>
    simp [addSchedule, catchSchedulerException, newJobKey, h.key, getJobDetail, call,
      h.getJobDetail, h.absent, newCronExpression, hcron, hc, description, h.desc, scheduleJob,
      h.scheduleJob, h.fires, h.free, pauseJob, hp, Scheduler.added]

/-- Before `scheduleJob` succeeds nothing has changed, and nothing is returned. -/
theorem addSchedule_thrown (h : ¬ ∃ k desc cron, Schedulable quartz faults a s k desc cron) :
    (addSchedule quartz faults a s).2 = s ∧ ∀ r, (addSchedule quartz faults a s).1 ≠ .ok r := by
  unfold addSchedule catchSchedulerException newJobKey getJobDetail call newCronExpression
    description
  cases hk : keyOf a.scheduleName a.serverName with
  | none => simp
  | some k =>
    cases hget : faults .getJobDetail with
    | some message => simp
    | none =>
      cases habsent : s.jobs k with
      | some job => simp [habsent]
      | none =>
        cases hcron : a.scheduleCron with
        | none => simp [habsent]
        | some c =>
          cases hc : quartz.parse c with
          | none => simp [habsent, hc]
          | some cron =>
            cases hdesc : descriptionOf a.scheduleType a.strategy with
            | none => simp [habsent, hc]
            | some desc =>
              cases hs : faults .scheduleJob with
              | some message => simp [habsent, hc, scheduleJob, call, hs]
              | none =>
                cases hfires : quartz.fires cron with
                | false => simp [habsent, hc, scheduleJob, call, hs, hfires]
                | true =>
                  cases hfree : s.triggers k with
                  | some t => simp [habsent, hc, scheduleJob, call, hs, hfires, hfree]
                  | none =>
                    exact absurd ⟨k, desc, cron, hk, hget, habsent, ⟨c, hcron, hc⟩, hdesc, hs, hfires,
                      hfree⟩ h

theorem addSchedule_unchanged (h : ¬ ∃ k desc cron, Schedulable quartz faults a s k desc cron) :
    (addSchedule quartz faults a s).2 = s :=
  (addSchedule_thrown h).1

/-- What a successful `addSchedule` has done. -/
theorem addSchedule_ok {r : Bool} {s' : Scheduler} (h : addSchedule quartz faults a s = (.ok r, s')) :
    ∃ k desc cron, Schedulable quartz faults a s k desc cron ∧
      s' = (s.added k desc cron).mapState k quartz.paused := by
  by_cases hs : ∃ k desc cron, Schedulable quartz faults a s k desc cron
  · obtain ⟨k, desc, cron, hs⟩ := hs
    rw [addSchedule_schedulable hs] at h
    cases hp : faults .pauseJob with
    | none =>
      rw [hp, Prod.mk.injEq] at h
      exact ⟨k, desc, cron, hs, h.2.symm⟩
    | some message =>
      rw [hp] at h
      cases h
  · exact absurd (congrArg Prod.fst h) ((addSchedule_thrown hs).2 r)

/-- `removeSchedule` deletes the job. -/
structure Removable (faults : Faults) (scheduleName serverName : Option String) (s : Scheduler)
    (k : JobKey) : Prop where
  key : keyOf scheduleName serverName = some k
  getJobDetail : faults .getJobDetail = none
  present : (s.jobs k).isSome
  deleteJob : faults .deleteJob = none

variable {scheduleName serverName : Option String}

theorem removeSchedule_removable (h : Removable faults scheduleName serverName s k) :
    removeSchedule faults scheduleName serverName s = (.ok true, s.deleted k) := by
  obtain ⟨job, hjob⟩ := Option.isSome_iff_exists.mp h.present
  simp [removeSchedule, catchSchedulerException, newJobKey, h.key, getJobDetail, call,
    h.getJobDetail, hjob, deleteJob, h.deleteJob]

theorem removeSchedule_unchanged (h : ¬ ∃ k, Removable faults scheduleName serverName s k) :
    (removeSchedule faults scheduleName serverName s).2 = s ∧
      ∀ r, (removeSchedule faults scheduleName serverName s).1 ≠ .ok r := by
  unfold removeSchedule catchSchedulerException newJobKey getJobDetail call deleteJob call
  cases hk : keyOf scheduleName serverName with
  | none => simp
  | some k =>
    cases hget : faults .getJobDetail with
    | some message => simp
    | none =>
      cases hjob : s.jobs k with
      | none => simp [hjob]
      | some job =>
        cases hdelete : faults .deleteJob with
        | some message => simp [hjob]
        | none => exact absurd ⟨k, hk, hget, by rw [hjob]; rfl, hdelete⟩ h

/-- `modifySchedule` has removed the job and adds it. -/
structure Modifiable (quartz : Quartz) (faults removeFaults : Faults) (a : Arguments) (s : Scheduler)
    (k : JobKey) : Prop where
  getJobDetail : faults .getJobDetail = none
  parse : ∃ c cron, a.scheduleCron = some c ∧ quartz.parse c = some cron
  removable : Removable removeFaults a.scheduleName a.serverName s k

variable {removeFaults addFaults : Faults}

theorem modifySchedule_modifiable (h : Modifiable quartz faults removeFaults a s k) :
    modifySchedule quartz faults removeFaults addFaults a s =
      catchSchedulerException "过程发生错误！错误信息：" (addSchedule quartz addFaults a)
        (s.deleted k) := by
  obtain ⟨c, cron, hcron, hc⟩ := h.parse
  obtain ⟨job, hjob⟩ := Option.isSome_iff_exists.mp h.removable.present
  simp [modifySchedule, catchSchedulerException, newJobKey, h.removable.key, getJobDetail, call,
    h.getJobDetail, hjob, newCronExpression, hcron, hc, removeSchedule_removable h.removable]

/-- Before the job is removed nothing has changed. -/
theorem modifySchedule_unchanged (h : ¬ ∃ k, Modifiable quartz faults removeFaults a s k) :
    (modifySchedule quartz faults removeFaults addFaults a s).2 = s := by
  unfold modifySchedule catchSchedulerException newJobKey getJobDetail call newCronExpression
  cases hk : keyOf a.scheduleName a.serverName with
  | none => simp
  | some k =>
    cases hget : faults .getJobDetail with
    | some message => simp
    | none =>
      cases hjob : s.jobs k with
      | none => simp [hjob]
      | some job =>
        cases hcron : a.scheduleCron with
        | none => simp [hjob]
        | some c =>
          cases hc : quartz.parse c with
          | none => simp [hjob, hc]
          | some cron =>
            by_cases hr : ∃ k, Removable removeFaults a.scheduleName a.serverName s k
            · obtain ⟨k, hr⟩ := hr
              exact absurd ⟨k, hget, ⟨c, cron, hcron, hc⟩, hr⟩ h
            · obtain ⟨hs, hok⟩ := removeSchedule_unchanged hr
              rcases hremove : removeSchedule removeFaults a.scheduleName a.serverName s with ⟨e | r, s'⟩
              · rw [hremove] at hs
                obtain rfl : s' = s := hs
                cases e <;> simp [hjob, hc, hremove]
              · exact absurd (congrArg Prod.fst hremove) (hok r)

/-- `startSchedule` has resumed the job. -/
structure Startable (faults : Faults) (scheduleName serverName : Option String) (s : Scheduler)
    (k : JobKey) : Prop where
  key : keyOf scheduleName serverName = some k
  getJobDetail : faults .getJobDetail = none
  present : (s.jobs k).isSome
  getTrigger : faults .getTrigger = none
  trigger : (s.triggers k).isSome
  isStarted : faults .isStarted = none
  start : s.started = true ∨ faults .start = none
  checkExists : faults .checkExists = none
  resumeJob : faults .resumeJob = none

theorem startSchedule_startable (h : Startable faults scheduleName serverName s k) :
    startSchedule quartz faults scheduleName serverName s =
      match faults .resumeTrigger with
      | none => (.ok true, ({ s with started := true }.mapState k quartz.resumed).mapTrigger k
          quartz.resumed)
      | some message => (.error (.smcSchedulerException ("开始计划出错，错误信息：" ++ message)),
          { s with started := true }.mapState k quartz.resumed) := by
  obtain ⟨job, hjob⟩ := Option.isSome_iff_exists.mp h.present
  obtain ⟨trigger, htrigger⟩ := Option.isSome_iff_exists.mp h.trigger
  cases hstarted : s.started with
  | true =>
    have hself : { s with started := true } = s := by rw [← hstarted]
    rw [hself]
    cases hresume : faults .resumeTrigger <;>
      simp [startSchedule, catchSchedulerException, newJobKey, h.key, getJobDetail, call,
        h.getJobDetail, hjob, getTrigger, h.getTrigger, htrigger, isStarted, h.isStarted, hstarted,
        checkExists, h.checkExists, resumeJob, h.resumeJob, resumeTrigger, hresume]
  | false =>
    have hstart : faults .start = none := h.start.resolve_left (by rw [hstarted]; decide)
    cases hresume : faults .resumeTrigger <;>
      simp [startSchedule, catchSchedulerException, newJobKey, h.key, getJobDetail, call,
        h.getJobDetail, hjob, getTrigger, h.getTrigger, htrigger, isStarted, h.isStarted, hstarted,
        start, hstart, checkExists, h.checkExists, resumeJob, h.resumeJob, resumeTrigger, hresume]

/-- Before the job is resumed the scheduler has been started at most. -/
theorem startSchedule_unchanged (h : ¬ ∃ k, Startable faults scheduleName serverName s k) :
    (startSchedule quartz faults scheduleName serverName s).2.jobs = s.jobs ∧
      (startSchedule quartz faults scheduleName serverName s).2.triggers = s.triggers := by
  unfold startSchedule catchSchedulerException newJobKey getJobDetail getTrigger isStarted call
  cases hk : keyOf scheduleName serverName with
  | none => simp
  | some k =>
    cases hget : faults .getJobDetail with
    | some message => simp
    | none =>
      cases hjob : s.jobs k with
      | none => simp [hjob]
      | some job =>
        cases hgetTrigger : faults .getTrigger with
        | some message => simp [hjob]
        | none =>
          cases htrigger : s.triggers k with
          | none => simp [hjob, htrigger]
          | some trigger =>
            cases his : faults .isStarted with
            | some message => simp [hjob, htrigger]
            | none =>
              have hnot : ¬ ((s.started = true ∨ faults .start = none) ∧
                  faults .checkExists = none ∧ faults .resumeJob = none) := fun hlater =>
                h ⟨k, hk, hget, by rw [hjob]; rfl, hgetTrigger, by rw [htrigger]; rfl, his,
                  hlater.1, hlater.2.1, hlater.2.2⟩
              cases hstarted : s.started with
              | true =>
                cases hcheck : faults .checkExists with
                | some message => simp [hjob, htrigger, checkExists, call, hstarted, hcheck]
                | none =>
                  cases hresume : faults .resumeJob with
                  | some message =>
                    simp [hjob, htrigger, checkExists, resumeJob, call, hstarted, hcheck, hresume]
                  | none => exact absurd ⟨.inl hstarted, hcheck, hresume⟩ hnot
              | false =>
                cases hstart : faults .start with
                | some message => simp [hjob, htrigger, start, call, hstarted, hstart]
                | none =>
                  cases hcheck : faults .checkExists with
                  | some message =>
                    simp [hjob, htrigger, start, checkExists, call, hstarted, hstart, hcheck]
                  | none =>
                    cases hresume : faults .resumeJob with
                    | some message =>
                      simp [hjob, htrigger, start, checkExists, resumeJob, call, hstarted, hstart,
                        hcheck, hresume]
                    | none => exact absurd ⟨.inr hstart, hcheck, hresume⟩ hnot

/-- `pauseSchedule` has paused the job. -/
structure Pausable (faults : Faults) (scheduleName serverName : Option String) (s : Scheduler)
    (k : JobKey) : Prop where
  key : keyOf scheduleName serverName = some k
  getJobDetail : faults .getJobDetail = none
  present : (s.jobs k).isSome
  pauseJob : faults .pauseJob = none

theorem pauseSchedule_pausable (h : Pausable faults scheduleName serverName s k) :
    pauseSchedule quartz faults scheduleName serverName s =
      match faults .pauseTrigger with
      | none => (.ok true, (s.mapState k quartz.paused).mapTrigger k quartz.paused)
      | some message => (.error (.smcSchedulerException ("停止计划出错，错误信息：" ++ message)),
          s.mapState k quartz.paused) := by
  obtain ⟨job, hjob⟩ := Option.isSome_iff_exists.mp h.present
  cases hpause : faults .pauseTrigger <;>
    simp [pauseSchedule, catchSchedulerException, newJobKey, h.key, getJobDetail, call,
      h.getJobDetail, hjob, pauseJob, h.pauseJob, pauseTrigger, hpause]

theorem pauseSchedule_unchanged (h : ¬ ∃ k, Pausable faults scheduleName serverName s k) :
    (pauseSchedule quartz faults scheduleName serverName s).2 = s := by
  unfold pauseSchedule catchSchedulerException newJobKey getJobDetail pauseJob call
  cases hk : keyOf scheduleName serverName with
  | none => simp
  | some k =>
    cases hget : faults .getJobDetail with
    | some message => simp
    | none =>
      cases hjob : s.jobs k with
      | none => simp [hjob]
      | some job =>
        cases hpause : faults .pauseJob with
        | some message => simp [hjob]
        | none => exact absurd ⟨k, hk, hget, by rw [hjob]; rfl, hpause⟩ h

/-- `addSchedule` of a null type is a `NullPointerException`. -/
theorem addSchedule_null (hk : keyOf a.scheduleName a.serverName = some k)
    (hget : faults .getJobDetail = none) (habsent : s.jobs k = none) {c : String}
    (hcron : a.scheduleCron = some c) (hc : quartz.parse c = some cron)
    (hdesc : descriptionOf a.scheduleType a.strategy = none) :
    (addSchedule quartz faults a s).1 = .error (.runtimeException "") := by
  simp [addSchedule, catchSchedulerException, newJobKey, hk, getJobDetail, call, hget, habsent,
    newCronExpression, hcron, hc, description, hdesc]

theorem addSchedule_error (hk : keyOf a.scheduleName a.serverName = some k)
    (habsent : s.jobs k = none) {c : String} (hcron : a.scheduleCron = some c)
    (hc : quartz.parse c = some cron)
    (hdesc : faults .getJobDetail = none → descriptionOf a.scheduleType a.strategy ≠ none)
    (h : ¬ ∃ desc, Schedulable quartz faults a s k desc cron) :
    ∃ message, (addSchedule quartz faults a s).1 = .error (.smcSchedulerException message) := by
  unfold addSchedule catchSchedulerException newJobKey getJobDetail call newCronExpression
    description
  cases hget : faults .getJobDetail with
  | some message => simp [hk]
  | none =>
    obtain ⟨desc, hdesc⟩ := Option.ne_none_iff_exists'.mp (hdesc hget)
    cases hs : faults .scheduleJob with
    | some message => simp [hk, habsent, hcron, hc, hdesc, scheduleJob, call, hs]
    | none =>
      cases hfires : quartz.fires cron with
      | false => simp [hk, habsent, hcron, hc, hdesc, scheduleJob, call, hs, hfires]
      | true =>
        cases hfree : s.triggers k with
        | some t => simp [hk, habsent, hcron, hc, hdesc, scheduleJob, call, hs, hfires, hfree]
        | none =>
          exact absurd ⟨desc, hk, hget, habsent, ⟨c, hcron, hc⟩, hdesc, hs, hfires, hfree⟩ h

end

end BaseService.Schedule
