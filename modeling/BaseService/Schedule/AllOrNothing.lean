import BaseService.Schedule.SchedulerService

/-!
# What a failed operation leaves

* `schedules` : the schedules of a scheduler, with expression, type, strategy and state;
* `Operation.Breaks` : a call of the operation throws after an earlier one has changed them;
* `allOrNothing_iff` : only then does an operation that throws leave other schedules than it found.
-/

namespace BaseService.Schedule
/-! ## The schedules -/

/-- What a listing shows of a schedule: type and strategy, expression and state. -/
structure Listed where
  description : String
  trigger : Option (Option String × TriggerState)

/-- The schedules of a scheduler, by the key of the job and its trigger. -/
def schedules (s : Scheduler) (k : JobKey) : Option Listed :=
  (s.jobs k).map fun job =>
    ⟨job.description, (s.triggers k).map fun t => (t.cronExpression, t.state)⟩

/-- The job `k` has the trigger of the schedule `k'`, which is that of `k` in all schedules that
`addSchedule` has made. -/
structure Shown (s : Scheduler) (k k' : JobKey) (t : Trigger) : Prop where
  present : (s.jobs k').isSome
  trigger : s.triggers k' = some t
  jobKey : t.jobKey = k

section
variable {s : Scheduler} {k : JobKey}

theorem schedules_mapState_iff (f : TriggerState → TriggerState) :
    schedules (s.mapState k f) = schedules s ↔ ∀ k' t, Shown s k k' t → f t.state = t.state := by
  constructor
  · rintro h k' t ⟨hpresent, htrigger, rfl⟩
    obtain ⟨job, hjob⟩ := Option.isSome_iff_exists.mp hpresent
    have hk := congrFun h k'
    simpa [schedules, Scheduler.mapState, hjob, htrigger] using hk
  · intro h
    funext k'
    cases hjob : s.jobs k' with
    | none => simp [schedules, Scheduler.mapState, hjob]
    | some job =>
      cases htrigger : s.triggers k' with
      | none => simp [schedules, Scheduler.mapState, hjob, htrigger]
      | some t =>
        by_cases hkey : t.jobKey = k
        · have hf := h k' t ⟨by rw [hjob]; rfl, htrigger, hkey⟩
          simp [schedules, Scheduler.mapState, hjob, htrigger, hkey, hf]
        · simp [schedules, Scheduler.mapState, hjob, htrigger, hkey]

theorem schedules_deleted_ne (h : (s.jobs k).isSome) : schedules (s.deleted k) ≠ schedules s := by
  intro heq
  obtain ⟨job, hjob⟩ := Option.isSome_iff_exists.mp h
  have hk := congrFun heq k
  simp [schedules, Scheduler.deleted, hjob] at hk

theorem schedules_added_ne {desc cron : String} (h : s.jobs k = none) :
    schedules (s.added k desc cron) ≠ schedules s := by
  intro heq
  have hk := congrFun heq k
  simp [schedules, Scheduler.added, h] at hk

/-- The schedule `k` is what `addSchedule` makes of it before it is paused, and the job has no other
schedule's trigger. -/
structure Same (s : Scheduler) (k : JobKey) (desc cron : String) : Prop where
  job : s.jobs k = some ⟨desc⟩
  trigger : (s.triggers k).map (fun t => (t.cronExpression, t.state)) = some (some cron, .NORMAL)
  own : ∀ k' t, Shown s k k' t → k' = k

theorem schedules_readded_iff {desc cron : String} :
    schedules ((s.deleted k).added k desc cron) = schedules s ↔ Same s k desc cron := by
  constructor
  · intro h
    have hk := congrFun h k
    simp only [schedules, Scheduler.added, Scheduler.deleted, Function.update_self,
      Option.map_some] at hk
    cases hjob : s.jobs k with
    | none => simp [hjob] at hk
    | some job =>
      rw [hjob, Option.map_some, Option.some.injEq, Listed.mk.injEq] at hk
      refine ⟨by rw [hjob, hk.1], hk.2.symm, fun k' t ht => ?_⟩
      by_contra hne
      obtain ⟨job', hjob'⟩ := Option.isSome_iff_exists.mp ht.present
      have hk' := congrFun h k'
      simp [schedules, Scheduler.added, Scheduler.deleted, Function.update_of_ne hne, hjob',
        ht.trigger, ht.jobKey] at hk'
  · intro h
    funext k'
    by_cases hkey : k' = k
    · subst hkey
      simp [schedules, Scheduler.added, h.job, h.trigger]
    · cases hjob : s.jobs k' with
      | none => simp [schedules, Scheduler.added, Scheduler.deleted, Function.update_of_ne hkey, hjob]
      | some job =>
        cases htrigger : s.triggers k' with
        | none =>
          simp [schedules, Scheduler.added, Scheduler.deleted, Function.update_of_ne hkey, hjob,
            htrigger]
        | some t =>
          have hne : t.jobKey ≠ k := fun e => hkey (h.own k' t ⟨by rw [hjob]; rfl, htrigger, e⟩)
          simp [schedules, Scheduler.added, Scheduler.deleted, Function.update_of_ne hkey, hjob,
            htrigger, hne]

end

/-! ## Operations -/

inductive Operation
  | addSchedule (faults : Faults) (a : Arguments)
  | modifySchedule (faults removeFaults addFaults : Faults) (a : Arguments)
  | removeSchedule (faults : Faults) (scheduleName serverName : Option String)
  | startSchedule (faults : Faults) (scheduleName serverName : Option String)
  | pauseSchedule (faults : Faults) (scheduleName serverName : Option String)

def Operation.run (quartz : Quartz) : Operation → Service Bool
  | addSchedule faults a => Schedule.addSchedule quartz faults a
  | modifySchedule faults removeFaults addFaults a =>
    Schedule.modifySchedule quartz faults removeFaults addFaults a
  | removeSchedule faults scheduleName serverName =>
    Schedule.removeSchedule faults scheduleName serverName
  | startSchedule faults scheduleName serverName =>
    Schedule.startSchedule quartz faults scheduleName serverName
  | pauseSchedule faults scheduleName serverName =>
    Schedule.pauseSchedule quartz faults scheduleName serverName

/-- A call of the operation throws after an earlier one has changed the schedules. -/
def Operation.Breaks (quartz : Quartz) (s : Scheduler) : Operation → Prop
  | addSchedule faults a =>
    (∃ k desc cron, Schedulable quartz faults a s k desc cron) ∧ faults .pauseJob ≠ none
  | modifySchedule faults removeFaults addFaults a =>
    ∃ k, Modifiable quartz faults removeFaults a s k ∧
      ((∃ desc cron, Schedulable quartz addFaults a (s.deleted k) k desc cron ∧
          addFaults .pauseJob ≠ none ∧ ¬ Same s k desc cron) ∨
        (¬ ∃ desc cron, Schedulable quartz addFaults a (s.deleted k) k desc cron) ∧
          (addFaults .getJobDetail = none → a.scheduleType ≠ none))
  | removeSchedule _ _ _ => False
  | startSchedule faults scheduleName serverName =>
    ∃ k, Startable faults scheduleName serverName s k ∧ faults .resumeTrigger ≠ none ∧
      ∃ k' t, Shown s k k' t ∧ quartz.resumed t.state ≠ t.state
  | pauseSchedule faults scheduleName serverName =>
    ∃ k, Pausable faults scheduleName serverName s k ∧ faults .pauseTrigger ≠ none ∧
      ∃ k' t, Shown s k k' t ∧ quartz.paused t.state ≠ t.state

/-- An operation that throws a `SmcSchedulerException` has not changed the schedules. -/
def AllOrNothing (s : Scheduler) (result : Except Throwable Bool × Scheduler) : Prop :=
  ∀ message, result.1 = .error (.smcSchedulerException message) → schedules result.2 = schedules s

section
variable (quartz : Quartz) (s : Scheduler)

theorem addSchedule_iff (faults : Faults) (a : Arguments) :
    AllOrNothing s (addSchedule quartz faults a s) ↔
      ¬ (Operation.addSchedule faults a).Breaks quartz s := by
  by_cases h : ∃ k desc cron, Schedulable quartz faults a s k desc cron
  · have hbreaks : (Operation.addSchedule faults a).Breaks quartz s ↔ faults .pauseJob ≠ none :=
      and_iff_right h
    obtain ⟨k, desc, cron, h⟩ := h
    rw [hbreaks, AllOrNothing, addSchedule_schedulable h]
    cases hp : faults .pauseJob with
    | none => exact iff_of_true (fun message he => by cases he) (fun hne => hne rfl)
    | some message =>
      refine iff_of_false (fun hall => ?_) (fun hne => hne (Option.some_ne_none _))
      exact schedules_added_ne h.absent (hall _ rfl)
  · refine iff_of_true (fun message _ => ?_) (fun hbreaks => h hbreaks.1)
    rw [addSchedule_unchanged h]

/-- After the removal it is all or nothing if the schedule is there again as it was, or what
`addSchedule` throws is no `SmcSchedulerException`. -/
theorem modifySchedule_iff (faults removeFaults addFaults : Faults) (a : Arguments) :
    AllOrNothing s (modifySchedule quartz faults removeFaults addFaults a s) ↔
      ¬ (Operation.modifySchedule faults removeFaults addFaults a).Breaks quartz s := by
  by_cases h : ∃ k, Modifiable quartz faults removeFaults a s k
  · obtain ⟨k, h⟩ := h
    obtain ⟨c, cron, hcron, hc⟩ := h.parse
    have habsent : (s.deleted k).jobs k = none := Function.update_self ..
    have hkey : ∀ k', keyOf a.scheduleName a.serverName = some k' → k' = k := fun k' hk' =>
      Option.some.inj (hk'.symm.trans h.removable.key)
    have hunique : ∀ cron', (∃ c, a.scheduleCron = some c ∧ quartz.parse c = some cron') →
        cron' = cron := by
      rintro cron' ⟨c', hcron', hc'⟩
      rw [hcron, Option.some.injEq] at hcron'
      rw [← hcron', hc, Option.some.injEq] at hc'
      exact hc'.symm
    rw [AllOrNothing, modifySchedule_modifiable h, catchSchedulerException]
    by_cases hs : ∃ desc, Schedulable quartz addFaults a (s.deleted k) k desc cron
    · obtain ⟨desc, hs⟩ := hs
      rw [addSchedule_schedulable hs]
      cases hp : addFaults .pauseJob with
      | none =>
        refine iff_of_true (fun message he => by cases he) ?_
        rintro ⟨k', h', ⟨desc', cron', -, hne, -⟩ | ⟨hnot, -⟩⟩
        · exact hne hp
        · obtain rfl := hkey k' h'.removable.key
          exact hnot ⟨desc, cron, hs⟩
      | some message =>
        have hleft : (∀ message', (Except.error (.smcSchedulerException
              ("创建过程发生错误！错误信息：" ++ message)) : Except Throwable Bool) =
              .error (.smcSchedulerException message') →
            schedules ((s.deleted k).added k desc cron) = schedules s) ↔ Same s k desc cron := by
          rw [← schedules_readded_iff]
          exact ⟨fun hall => hall _ rfl, fun heq _ _ => heq⟩
        refine hleft.trans ⟨?_, fun hnot => ?_⟩
        · rintro hsame ⟨k', h', ⟨desc', cron', hs', -, hne⟩ | ⟨hnot, -⟩⟩
          · obtain rfl := hkey k' h'.removable.key
            obtain rfl := hunique cron' hs'.parse
            obtain rfl : desc' = desc := Option.some.inj (hs'.desc.symm.trans hs.desc)
            exact hne hsame
          · obtain rfl := hkey k' h'.removable.key
            exact hnot ⟨desc, cron, hs⟩
        · by_contra hne
          exact hnot ⟨k, h, Or.inl ⟨desc, cron, hs, by rw [hp]; exact Option.some_ne_none _, hne⟩⟩
    · have hnot : ¬ ∃ k' desc cron', Schedulable quartz addFaults a (s.deleted k) k' desc cron' := by
        rintro ⟨k', desc, cron', hs'⟩
        obtain rfl := hkey k' hs'.key
        obtain rfl := hunique cron' hs'.parse
        exact hs ⟨desc, hs'⟩
      have hstate := addSchedule_unchanged hnot
      by_cases htype : addFaults .getJobDetail = none → a.scheduleType ≠ none
      · obtain ⟨message, herror⟩ := addSchedule_error h.removable.key habsent hcron hc
          (fun hget hd => htype hget (Option.map_eq_none_iff.mp hd)) hs
        have hrun : addSchedule quartz addFaults a (s.deleted k) =
          (.error (.smcSchedulerException message), s.deleted k) := Prod.ext herror hstate
        rw [hrun]
        refine iff_of_false (fun hall => schedules_deleted_ne h.removable.present (hall _ rfl)) ?_
        rw [not_not]
        refine ⟨k, h, Or.inr ⟨?_, htype⟩⟩
        rintro ⟨desc, cron', hs'⟩
        exact hnot ⟨k, desc, cron', hs'⟩
      · obtain ⟨hget, hnull⟩ := Classical.not_imp.mp htype
        rw [not_not] at hnull
        have herror := addSchedule_null h.removable.key hget habsent hcron hc
          (Option.map_eq_none_iff.mpr hnull)
        have hrun : addSchedule quartz addFaults a (s.deleted k) =
          (.error (.runtimeException ""), s.deleted k) := Prod.ext herror hstate
        rw [hrun]
        refine iff_of_true (fun message he => by cases he) ?_
        rintro ⟨k', h', ⟨desc, cron', hs', -⟩ | ⟨-, htype'⟩⟩
        · obtain rfl := hkey k' h'.removable.key
          exact hnot ⟨k', desc, cron', hs'⟩
        · exact htype' hget hnull
  · refine iff_of_true (fun message _ => ?_) ?_
    · rw [modifySchedule_unchanged h]
    · rintro ⟨k, h', -⟩
      exact h ⟨k, h'⟩

theorem removeSchedule_allOrNothing (faults : Faults) (scheduleName serverName : Option String) :
    AllOrNothing s (removeSchedule faults scheduleName serverName s) := by
  intro message he
  by_cases h : ∃ k, Removable faults scheduleName serverName s k
  · obtain ⟨k, h⟩ := h
    rw [removeSchedule_removable h] at he
    cases he
  · rw [(removeSchedule_unchanged h).1]

variable {s} in
/-- An operation that throws when it has paused or resumed the job. -/
theorem thrown_iff {k : JobKey} {f : TriggerState → TriggerState} {message : String} {s' : Scheduler}
    (hs : schedules s' = schedules (s.mapState k f)) :
    AllOrNothing s (.error (.smcSchedulerException message), s') ↔
      ¬ ∃ k' t, Shown s k k' t ∧ f t.state ≠ t.state := by
  have hmap : AllOrNothing s (.error (.smcSchedulerException message), s') ↔
      schedules (s.mapState k f) = schedules s := by
    rw [← hs]
    exact ⟨fun hall => hall _ rfl, fun heq _ _ => heq⟩
  rw [hmap, schedules_mapState_iff]
  push Not
  rfl

theorem startSchedule_iff (faults : Faults) (scheduleName serverName : Option String) :
    AllOrNothing s (startSchedule quartz faults scheduleName serverName s) ↔
      ¬ (Operation.startSchedule faults scheduleName serverName).Breaks quartz s := by
  by_cases h : ∃ k, Startable faults scheduleName serverName s k
  · obtain ⟨k, h⟩ := h
    rw [startSchedule_startable h]
    cases hp : faults .resumeTrigger with
    | none =>
      refine iff_of_true (fun message he => by cases he) ?_
      rintro ⟨-, -, hne, -⟩
      exact hne hp
    | some message =>
      have hs : schedules ({ s with started := true }.mapState k quartz.resumed) =
        schedules (s.mapState k quartz.resumed) := rfl
      rw [thrown_iff hs]
      refine not_congr ⟨fun hshown => ⟨k, h, by rw [hp]; exact Option.some_ne_none _, hshown⟩, ?_⟩
      rintro ⟨k', h', -, hshown⟩
      obtain rfl : k' = k := Option.some.inj (h'.key.symm.trans h.key)
      exact hshown
  · obtain ⟨hjobs, htriggers⟩ :
        (startSchedule quartz faults scheduleName serverName s).2.jobs = s.jobs ∧
          (startSchedule quartz faults scheduleName serverName s).2.triggers = s.triggers :=
      startSchedule_unchanged h
    refine iff_of_true (fun message _ => ?_) ?_
    · unfold schedules
      rw [hjobs, htriggers]
    · rintro ⟨k, h', -⟩
      exact h ⟨k, h'⟩

theorem pauseSchedule_iff (faults : Faults) (scheduleName serverName : Option String) :
    AllOrNothing s (pauseSchedule quartz faults scheduleName serverName s) ↔
      ¬ (Operation.pauseSchedule faults scheduleName serverName).Breaks quartz s := by
  by_cases h : ∃ k, Pausable faults scheduleName serverName s k
  · obtain ⟨k, h⟩ := h
    rw [pauseSchedule_pausable h]
    cases hp : faults .pauseTrigger with
    | none =>
      refine iff_of_true (fun message he => by cases he) ?_
      rintro ⟨-, -, hne, -⟩
      exact hne hp
    | some message =>
      rw [thrown_iff rfl]
      refine not_congr ⟨fun hshown => ⟨k, h, by rw [hp]; exact Option.some_ne_none _, hshown⟩, ?_⟩
      rintro ⟨k', h', -, hshown⟩
      obtain rfl : k' = k := Option.some.inj (h'.key.symm.trans h.key)
      exact hshown
  · refine iff_of_true (fun message _ => ?_) ?_
    · rw [pauseSchedule_unchanged h]
    · rintro ⟨k, h', -⟩
      exact h ⟨k, h'⟩

/-- **When an operation is all or nothing**: exactly if no call of it throws after an earlier one has
changed the schedules. -/
theorem allOrNothing_iff (op : Operation) :
    AllOrNothing s (op.run quartz s) ↔ ¬ op.Breaks quartz s := by
  cases op with
  | addSchedule faults a => exact addSchedule_iff quartz s faults a
  | modifySchedule faults removeFaults addFaults a =>
    exact modifySchedule_iff quartz s faults removeFaults addFaults a
  | removeSchedule faults scheduleName serverName =>
    exact iff_of_true (removeSchedule_allOrNothing s faults scheduleName serverName) not_false
  | startSchedule faults scheduleName serverName =>
    exact startSchedule_iff quartz s faults scheduleName serverName
  | pauseSchedule faults scheduleName serverName =>
    exact pauseSchedule_iff quartz s faults scheduleName serverName

end

/-! ### An expression that never fires -/

/-- The expression of the first second of the year 2000 is well formed and never fires again. -/
def jdbcQuartz : Quartz where
  parse c := if c = "" then none else some c
  fires c := c ≠ "0 0 0 1 1 ? 2000"
  paused state := if state = .NORMAL then .PAUSED else state
  resumed state := if state = .PAUSED then .NORMAL else state

/-- One schedule, which fires every minute. -/
def everyMinute : Scheduler where
  jobs k := if k = ⟨"s", "g"⟩ then some ⟨"all@polling"⟩ else none
  triggers k := if k = ⟨"s", "g"⟩ then some ⟨k, some "0 * * * * ?", .NORMAL⟩ else none
  started := true

/-- The modified schedule is lost. -/
theorem modifySchedule_loses :
    ∃ message, (modifySchedule jdbcQuartz (fun _ => none) (fun _ => none) (fun _ => none)
        ⟨some "s", some "g", some "0 0 0 1 1 ? 2000", some "all", some "polling"⟩ everyMinute).1 =
          .error (.smcSchedulerException message) ∧
      schedules everyMinute ⟨"s", "g"⟩ = some ⟨"all@polling", some (some "0 * * * * ?", .NORMAL)⟩ ∧
      schedules (modifySchedule jdbcQuartz (fun _ => none) (fun _ => none) (fun _ => none)
        ⟨some "s", some "g", some "0 0 0 1 1 ? 2000", some "all", some "polling"⟩ everyMinute).2
          ⟨"s", "g"⟩ = none :=
  ⟨_, rfl, rfl, rfl⟩

end BaseService.Schedule
