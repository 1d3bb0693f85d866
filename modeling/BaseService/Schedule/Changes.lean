import BaseService.Data.Runs
import BaseService.Schedule.AllOrNothing

/-!
# What a scheduler goes through

* `Event`, `Step` : operations, and triggers that fire;
* `Change`, `Operation.changes` : every operation, however far it comes, deletes a job at most and
  then changes the scheduler by calls that keep all jobs;
* `Paired`, `paired_run` : without a trigger that completes, every job has its trigger;
* `quiet_run` : while nothing is removed and no trigger completes, jobs and triggers stay;
* `finite_run` : there are finitely many jobs.
-/

namespace BaseService.Schedule
open Function (update)
open Relation (ReflTransGen)

/-! ## Events -/

def Scheduler.empty : Scheduler := ⟨fun _ => none, fun _ => none, false⟩

/-- The trigger has no further fire time and is deleted. The job is durable and stays. -/
def Scheduler.completed (s : Scheduler) (k : JobKey) : Scheduler :=
  { s with triggers := update s.triggers k none }

inductive Event
  | operation (op : Operation)
  | fired (k : JobKey) (state : TriggerState)
  | completed (k : JobKey)

inductive Step (quartz : Quartz) : Scheduler → Event → Scheduler → Prop
  | operation {s : Scheduler} (op : Operation) : Step quartz s (.operation op) (op.run quartz s).2
  | fired {s : Scheduler} {k : JobKey} (state : TriggerState) : s.started = true →
    Step quartz s (.fired k state) (s.mapTrigger k fun _ => state)
  | completed {s : Scheduler} {k : JobKey} {t : Trigger} : s.started = true →
    s.triggers k = some t → t.state = .NORMAL → Step quartz s (.completed k) (s.completed k)

/-! ## Calls that change the scheduler -/

/-- A call that keeps all jobs. -/
inductive Change : Scheduler → Scheduler → Prop
  | added {s : Scheduler} {k : JobKey} (desc cron : String) : Change s (s.added k desc cron)
  | mapState {s : Scheduler} (k : JobKey) (f : TriggerState → TriggerState) :
    Change s (s.mapState k f)
  | mapTrigger {s : Scheduler} (k : JobKey) (f : TriggerState → TriggerState) :
    Change s (s.mapTrigger k f)
  | started {s : Scheduler} (started : Bool) : Change s { s with started := started }

/-- The operations that delete a job. -/
def Operation.Removes : Operation → Prop
  | addSchedule _ _ | startSchedule _ _ _ | pauseSchedule _ _ _ => False
  | removeSchedule _ _ _ | modifySchedule _ _ _ _ => True

section
variable {quartz : Quartz} {s s' : Scheduler}

theorem catchSchedulerException_snd {α : Type} (text : String) (x : Service α) (s : Scheduler) :
    (catchSchedulerException text x s).2 = (x s).2 := by
  unfold catchSchedulerException
  split
  · next h => rw [h]
  · rfl

theorem addSchedule_changes (faults : Faults) (a : Arguments) (s : Scheduler) :
    ReflTransGen Change s (addSchedule quartz faults a s).2 := by
  by_cases h : ∃ k desc cron, Schedulable quartz faults a s k desc cron
  · obtain ⟨k, desc, cron, h⟩ := h
    have hadded : ReflTransGen Change s (s.added k desc cron) := .single (.added desc cron)
    rw [addSchedule_schedulable h]
    cases faults .pauseJob with
    | none => exact hadded.tail (.mapState k quartz.paused)
    | some message => exact hadded
  · rw [addSchedule_unchanged h]

theorem startSchedule_changes (faults : Faults) (scheduleName serverName : Option String)
    (s : Scheduler) :
    ReflTransGen Change s (startSchedule quartz faults scheduleName serverName s).2 := by
  by_cases h : ∃ k, Startable faults scheduleName serverName s k
  · obtain ⟨k, h⟩ := h
    have hresumed : ReflTransGen Change s ({ s with started := true }.mapState k quartz.resumed) :=
      (ReflTransGen.single (.started true)).tail (.mapState k quartz.resumed)
    rw [startSchedule_startable h]
    cases faults .resumeTrigger with
    | none => exact hresumed.tail (.mapTrigger k quartz.resumed)
    | some message => exact hresumed
  · have hstarted {s' : Scheduler} (h : s'.jobs = s.jobs ∧ s'.triggers = s.triggers) :
        ReflTransGen Change s s' := by
      obtain ⟨jobs, triggers, started⟩ := s'
      obtain ⟨rfl, rfl⟩ := h
      exact .single (.started started)
    exact hstarted (startSchedule_unchanged h)

theorem pauseSchedule_changes (faults : Faults) (scheduleName serverName : Option String)
    (s : Scheduler) :
    ReflTransGen Change s (pauseSchedule quartz faults scheduleName serverName s).2 := by
  by_cases h : ∃ k, Pausable faults scheduleName serverName s k
  · obtain ⟨k, h⟩ := h
    have hpaused : ReflTransGen Change s (s.mapState k quartz.paused) :=
      .single (.mapState k quartz.paused)
    rw [pauseSchedule_pausable h]
    cases faults .pauseTrigger with
    | none => exact hpaused.tail (.mapTrigger k quartz.paused)
    | some message => exact hpaused
  · rw [pauseSchedule_unchanged h]

variable (quartz s) in
/-- What an operation does, whatever comes of it. -/
theorem Operation.changes (op : Operation) :
    ∃ s₁, (s₁ = s ∨ op.Removes ∧ ∃ k, s₁ = s.deleted k) ∧
      ReflTransGen Change s₁ (op.run quartz s).2 := by
  cases op with
  | addSchedule faults a => exact ⟨s, .inl rfl, addSchedule_changes faults a s⟩
  | startSchedule faults scheduleName serverName =>
    exact ⟨s, .inl rfl, startSchedule_changes faults scheduleName serverName s⟩
  | pauseSchedule faults scheduleName serverName =>
    exact ⟨s, .inl rfl, pauseSchedule_changes faults scheduleName serverName s⟩
  | removeSchedule faults scheduleName serverName =>
    rw [Operation.run]
    by_cases h : ∃ k, Removable faults scheduleName serverName s k
    · obtain ⟨k, h⟩ := h
      rw [removeSchedule_removable h]
      exact ⟨s.deleted k, .inr ⟨trivial, k, rfl⟩, .refl⟩
    · rw [(removeSchedule_unchanged h).1]
      exact ⟨s, .inl rfl, .refl⟩
  | modifySchedule faults removeFaults addFaults a =>
    rw [Operation.run]
    by_cases h : ∃ k, Modifiable quartz faults removeFaults a s k
    · obtain ⟨k, h⟩ := h
      rw [modifySchedule_modifiable h, catchSchedulerException_snd]
      exact ⟨s.deleted k, .inr ⟨trivial, k, rfl⟩, addSchedule_changes addFaults a _⟩
    · rw [modifySchedule_unchanged h]
      exact ⟨s, .inl rfl, .refl⟩

theorem changes_keep {P : Scheduler → Prop} (hchange : ∀ s s', Change s s' → P s → P s')
    (h : ReflTransGen Change s s') (hs : P s) : P s' := by
  induction h with
  | refl => exact hs
  | tail _ hc ih => exact hchange _ _ hc ih

/-- A property that deletions and the other calls keep is kept by every operation. -/
theorem Operation.keeps {P : Scheduler → Prop} (op : Operation)
    (hdeleted : ∀ s k, P s → P (s.deleted k)) (hchange : ∀ s s', Change s s' → P s → P s')
    (hs : P s) : P (op.run quartz s).2 := by
  obtain ⟨s₁, hs₁, hchanges⟩ := op.changes quartz s
  have h₁ : P s₁ := by
    rcases hs₁ with rfl | ⟨-, k, rfl⟩
    · exact hs
    · exact hdeleted s k hs
  exact changes_keep hchange hchanges h₁

/-! ## Invariants -/

/-- Every job has its trigger, and every trigger its job. -/
structure Paired (s : Scheduler) : Prop where
  paired (k : JobKey) : (s.jobs k).isSome ↔ (s.triggers k).isSome
  own (k : JobKey) (t : Trigger) : s.triggers k = some t → t.jobKey = k

theorem Paired.empty : Paired .empty := ⟨fun _ => Iff.rfl, fun _ _ h => by cases h⟩

theorem Paired.mapTrigger (h : Paired s) (k : JobKey) (f : TriggerState → TriggerState) :
    Paired (s.mapTrigger k f) := by
  constructor
  · intro k'
    refine (h.paired k').trans ?_
    by_cases hk : k' = k
    · subst hk
      simp [Scheduler.mapTrigger]
    · simp [Scheduler.mapTrigger, Function.update_of_ne hk]
  · intro k' t ht
    by_cases hk : k' = k
    · subst hk
      simp only [Scheduler.mapTrigger, Function.update_self, Option.map_eq_some_iff] at ht
      obtain ⟨t', ht', rfl⟩ := ht
      exact h.own k' t' ht'
    · simp only [Scheduler.mapTrigger, Function.update_of_ne hk] at ht
      exact h.own k' t ht

theorem Paired.mapState (h : Paired s) (k : JobKey) (f : TriggerState → TriggerState) :
    Paired (s.mapState k f) := by
  constructor
  · intro k'
    simp [Scheduler.mapState, h.paired]
  · intro k' t ht
    simp only [Scheduler.mapState, Option.map_eq_some_iff] at ht
    obtain ⟨t', ht', rfl⟩ := ht
    have hown := h.own k' t' ht'
    split_ifs <;> exact hown

theorem Paired.added (h : Paired s) (k : JobKey) (desc cron : String) :
    Paired (s.added k desc cron) := by
  constructor
  · intro k'
    by_cases hk : k' = k
    · simp [Scheduler.added, hk]
    · simp [Scheduler.added, Function.update_of_ne hk, h.paired]
  · intro k' t ht
    by_cases hk : k' = k
    · simp only [Scheduler.added, hk, Function.update_self, Option.some_inj] at ht
      rw [← ht, hk]
    · simp only [Scheduler.added, Function.update_of_ne hk] at ht
      exact h.own k' t ht

/-- A deletion takes exactly the trigger of the job. -/
theorem Paired.deleted_triggers (h : Paired s) (k : JobKey) :
    (s.deleted k).triggers = update s.triggers k none := by
  funext k'
  show (s.triggers k').filter (fun t => t.jobKey ≠ k) = _
  by_cases hk : k' = k
  · subst hk
    rw [Function.update_self]
    exact Option.filter_eq_none_iff.mpr fun t ht => by simpa using h.own k' t ht
  · rw [Function.update_of_ne hk]
    cases ht : s.triggers k' with
    | none => rfl
    | some t => simp [h.own k' t ht, hk]

theorem Paired.deleted (h : Paired s) (k : JobKey) : Paired (s.deleted k) := by
  constructor
  · intro k'
    rw [h.deleted_triggers]
    by_cases hk : k' = k
    · simp [Scheduler.deleted, hk]
    · simp [Scheduler.deleted, Function.update_of_ne hk, h.paired]
  · intro k' t ht
    rw [h.deleted_triggers] at ht
    by_cases hk : k' = k
    · simp [hk] at ht
    · rw [Function.update_of_ne hk] at ht
      exact h.own k' t ht

theorem Change.paired (hc : Change s s') (h : Paired s) : Paired s' := by
  cases hc with
  | added desc cron => exact h.added _ desc cron
  | mapState k f => exact h.mapState k f
  | mapTrigger k f => exact h.mapTrigger k f
  | started started => exact ⟨h.paired, h.own⟩

theorem Step.paired {e : Event} (h : Step quartz s e s') (hnot : ∀ k, e ≠ .completed k)
    (hs : Paired s) : Paired s' := by
  cases h with
  | operation op => exact op.keeps (fun s k h => h.deleted k) (fun s s' hc => hc.paired) hs
  | fired state => exact hs.mapTrigger _ _
  | completed => exact absurd rfl (hnot _)

/-- Without a trigger that completes, every job has its trigger. -/
theorem paired_run {es : List Event}
    (h : Run (fun s e s' => Step quartz s e s' ∧ ∀ k, e ≠ .completed k) s es s') (hs : Paired s) :
    Paired s' :=
  h.invariant hs fun _ _ _ hs hstep => hstep.1.paired hstep.2 hs

/-- The keys of the jobs. -/
def Scheduler.jobKeys (s : Scheduler) : Set JobKey := { k | (s.jobs k).isSome }

theorem jobKeys_update (s : Scheduler) (k : JobKey) (job : Option JobDetail)
    (triggers : JobKey → Option Trigger) :
    Scheduler.jobKeys { s with jobs := update s.jobs k job, triggers := triggers } ⊆
      insert k s.jobKeys := by
  intro k' hk'
  by_cases hk : k' = k
  · exact Or.inl hk
  · right
    simpa [Scheduler.jobKeys, Function.update_of_ne hk] using hk'

theorem Change.finite (hc : Change s s') (h : s.jobKeys.Finite) : s'.jobKeys.Finite := by
  cases hc with
  | added desc cron => exact (h.insert _).subset (jobKeys_update s _ _ _)
  | mapState k f => exact h
  | mapTrigger k f => exact h
  | started started => exact h

/-- There are finitely many jobs. -/
theorem finite_run {es : List Event} (h : Run (Step quartz) .empty es s) : s.jobKeys.Finite := by
  have hempty : Scheduler.empty.jobKeys.Finite := by
    have hnone : Scheduler.empty.jobKeys = ∅ := by
      ext k
      simp [Scheduler.jobKeys, Scheduler.empty]
    rw [hnone]
    exact Set.finite_empty
  refine h.invariant (I := fun s => s.jobKeys.Finite) hempty ?_
  intro s e s' hs hstep
  cases hstep with
  | operation op =>
    refine op.keeps (P := fun s => s.jobKeys.Finite) ?_ (fun s s' hc => hc.finite) hs
    exact fun s k h => (h.insert k).subset (jobKeys_update s k _ _)
  | fired state => exact hs
  | completed => exact hs

theorem Change.present (hc : Change s s') {k : JobKey} (h : (s.jobs k).isSome) :
    (s'.jobs k).isSome := by
  cases hc with
  | @added k' desc cron =>
    by_cases hk : k = k'
    · simp [Scheduler.added, hk]
    · simpa [Scheduler.added, Function.update_of_ne hk] using h
  | mapState k f => exact h
  | mapTrigger k f => exact h
  | started started => exact h

/-- An event that removes no job and no trigger. -/
def Event.Quiet : Event → Prop
  | operation op => ¬ op.Removes
  | fired _ _ => True
  | completed _ => False

theorem Step.present {e : Event} {k : JobKey} (h : Step quartz s e s') (hquiet : e.Quiet)
    (hs : (s.jobs k).isSome) : (s'.jobs k).isSome := by
  cases h with
  | operation op =>
    obtain ⟨s₁, hs₁, hchanges⟩ := op.changes quartz s
    obtain rfl : s₁ = s := hs₁.resolve_right fun hr => hquiet hr.1
    exact changes_keep (fun s s' hc => hc.present) hchanges hs
  | fired state => exact hs
  | completed => exact absurd hquiet not_false

/-- While nothing is removed and no trigger completes, jobs and triggers stay. -/
theorem quiet_run {es : List Event}
    (h : Run (fun s e s' => Step quartz s e s' ∧ e.Quiet) s es s') (hs : Paired s) :
    Paired s' ∧ ∀ k, (s.jobs k).isSome → (s'.jobs k).isSome := by
  refine h.invariant (I := fun s' => Paired s' ∧ ∀ k, (s.jobs k).isSome → (s'.jobs k).isSome)
    ⟨hs, fun _ hk => hk⟩ ?_
  rintro s₁ e s₂ ⟨hpaired, hpresent⟩ ⟨hstep, hquiet⟩
  have hnot : ∀ k, e ≠ .completed k := by
    rintro k rfl
    exact hquiet
  exact ⟨hstep.paired hnot hpaired, fun k hk => hstep.present hquiet (hpresent k hk)⟩

end

end BaseService.Schedule
