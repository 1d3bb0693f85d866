import BaseService.Schedule.Changes
import BaseService.StringUtils

/-!
# The listing of the schedules

The scheduler goes on between two calls of Quartz, so that each call meets a `Moment` of its own.

* `getSchedule`, `listSchedule` : the listing, from the moments of its calls on;
* `Complete` : it returns, with one schedule for every job that exists throughout;
* `Misses`, `Undisturbed` : `getSchedule` finds no job or no trigger; when that does not happen;
* `listSchedule_iff` : which listings are complete;
* `complete_quiet` : those during which nothing is removed and no trigger completes.
-/

namespace BaseService.Schedule
set_option linter.dupNamespace false

structure Schedule where
  scheduleName : String
  serverName : String
  scheduleCron : Option String
  strategy : Option String
  scheduleType : Option String
  status : Int
  message : Option String
  deriving DecidableEq, Repr

/-- What a call of Quartz meets: the scheduler, and the message of a `SchedulerException` that it
throws instead of an answer. -/
structure Moment where
  scheduler : Scheduler
  fault : Option String

def Moment.ask {α : Type} (m : Moment) (f : Scheduler → α) : Except Throwable α :=
  match m.fault with
  | none => .ok (f m.scheduler)
  | some message => .error (.schedulerException message)

/-- The moments from the `n`th on. -/
def later (moments : Nat → Moment) (n : Nat) : Nat → Moment := fun i => moments (n + i)

def Scheduler.getTriggerState (s : Scheduler) (k : JobKey) : TriggerState :=
  ((s.triggers k).map fun t => t.state).getD .NONE

/-- Type and strategy of a description, null if it has not two tokens. -/
def splitDescription (desc : String) : Option String × Option String :=
  match StringUtils.split desc '@' with
  | [schduleType, strategy] => (some schduleType, some strategy)
  | _ => (none, none)

def statusOf : TriggerState → Int
  | .NONE => 0
  | .NORMAL => 1
  | .PAUSED => 2
  | .COMPLETE => 3
  | .ERROR => 4
  | .BLOCKED => -1

/-- `getSchedule`, which is null after a `SchedulerException`. -/
def getSchedule (moments : Nat → Moment) (each : JobKey) : Except Throwable (Option Schedule) :=
  let schedule : Except Throwable Schedule := do
    let job ← (moments 0).ask fun s => s.jobs each
    match job with
    | none => throw (.runtimeException "")  -- job.getDescription()
    | some job =>
      let split := splitDescription job.description
      let trigger ← (moments 1).ask fun s => s.triggers each
      match trigger with
      | none => throw (.runtimeException "")  -- trigger.getKey()
      | some trigger =>
        let state ← (moments 2).ask fun s => s.getTriggerState each
        return ⟨each.name, each.group, trigger.cronExpression, split.2, split.1, statusOf state, none⟩
  match schedule with
  | .ok schedule => .ok (some schedule)
  | .error (.schedulerException _) => .ok none
  | .error e => .error e

/-- The loop. Each pass takes three moments, also when it does not make all its calls. -/
def getSchedules (moments : Nat → Moment) : List JobKey → Except Throwable (List (Option Schedule))
  | [] => .ok []
  | each :: jobKeySet => do
    let schedule ← getSchedule moments each
    let schedules ← getSchedules (later moments 3) jobKeySet
    return schedule :: schedules

/-- `listSchedule`; `jobKeySet` is what `getJobKeys` returns, in the order of the loop. -/
def listSchedule (moments : Nat → Moment) (jobKeySet : List JobKey) :
    Except Throwable (List (Option Schedule)) :=
  match (moments 0).fault with
  | none => getSchedules (later moments 1) jobKeySet
  | some _ => .ok []

/-! ## What a listing is for -/

/-- The set of the keys of all jobs. -/
structure JobKeys (s : Scheduler) (jobKeySet : List JobKey) : Prop where
  nodup : jobKeySet.Nodup
  mem (k : JobKey) : k ∈ jobKeySet ↔ (s.jobs k).isSome

/-- The job exists throughout the call. -/
def Lasts (moments : Nat → Moment) (jobKeySet : List JobKey) (k : JobKey) : Prop :=
  ∀ i ≤ 3 * jobKeySet.length, ((moments i).scheduler.jobs k).isSome

def Schedule.key (s : Schedule) : JobKey := ⟨s.scheduleName, s.serverName⟩

/-- Names and servers of the schedules. -/
def shown (schedules : List (Option Schedule)) : List JobKey :=
  schedules.filterMap fun schedule => schedule.map Schedule.key

/-- The listing returns, with one schedule for every job that exists throughout. -/
def Complete (moments : Nat → Moment) (jobKeySet : List JobKey) : Prop :=
  ∃ schedules, listSchedule moments jobKeySet = .ok schedules ∧
    ∀ k, Lasts moments jobKeySet k → (shown schedules).count k = 1

/-- `getSchedule` finds no job, or no trigger of it. -/
def Misses (moments : Nat → Moment) (k : JobKey) : Prop :=
  (moments 0).fault = none ∧ ((moments 0).scheduler.jobs k = none ∨
    (moments 1).fault = none ∧ (moments 1).scheduler.triggers k = none)

/-- None of its calls throws. -/
def Answered (moments : Nat → Moment) : Prop := ∀ i < 3, (moments i).fault = none

/-- `getSchedule` finds what it reads, and calls that throw are not about a job that lasts. -/
structure Undisturbed (moments : Nat → Moment) (jobKeySet : List JobKey) : Prop where
  found : (moments 0).fault = none → ∀ j k, jobKeySet[j]? = some k →
    ¬ Misses (later moments (1 + 3 * j)) k
  listed : ∀ k, Lasts moments jobKeySet k → (moments 0).fault = none
  answered : ∀ k, Lasts moments jobKeySet k → ∀ j, jobKeySet[j]? = some k →
    Answered (later moments (1 + 3 * j))

/-! ## One schedule -/

section
variable {moments : Nat → Moment} {jobKeySet : List JobKey} {schedules : List (Option Schedule)}
  {k : JobKey}

theorem later_zero (moments : Nat → Moment) : later moments 0 = moments := by
  funext i
  exact congrArg moments (Nat.zero_add i)

theorem later_later (moments : Nat → Moment) (m n : Nat) :
    later (later moments m) n = later moments (m + n) := by
  funext i
  exact congrArg moments (Nat.add_assoc m n i).symm

theorem Moment.ask_none {α : Type} {m : Moment} (h : m.fault = none) (f : Scheduler → α) :
    m.ask f = .ok (f m.scheduler) := by
  rw [Moment.ask, h]

theorem getSchedule_misses (h : Misses moments k) :
    getSchedule moments k = .error (.runtimeException "") := by
  obtain ⟨h₀, hnone⟩ := h
  unfold getSchedule
  cases hjob : (moments 0).scheduler.jobs k with
  | none => simp [Moment.ask_none h₀, hjob, bind, Except.bind, throw, throwThe, MonadExceptOf.throw]
  | some job =>
    obtain ⟨h₁, htrigger⟩ := hnone.resolve_left (by rw [hjob]; exact Option.some_ne_none job)
    simp [Moment.ask_none h₀, hjob, Moment.ask_none h₁, htrigger, bind, Except.bind, throw, throwThe,
      MonadExceptOf.throw]

/-- Unless a call throws, `getSchedule` returns the schedule of the job. -/
theorem getSchedule_found (h : ¬ Misses moments k) :
    ∃ schedule, getSchedule moments k = .ok schedule ∧
      (Answered moments ∧ schedule.map Schedule.key = some k ∨
        ¬ Answered moments ∧ schedule = none) := by
  have hfault {i : Nat} {message : String} (hi : i < 3) (h : (moments i).fault = some message) :
      ¬ Answered moments := by
    intro hall
    rw [hall i hi] at h
    cases h
  unfold getSchedule
  cases h₀ : (moments 0).fault with
  | some message =>
    exact ⟨none, by simp [Moment.ask, h₀, bind, Except.bind], .inr ⟨hfault (by omega) h₀, rfl⟩⟩
  | none =>
    cases hjob : (moments 0).scheduler.jobs k with
    | none => exact absurd ⟨h₀, .inl hjob⟩ h
    | some job =>
      cases h₁ : (moments 1).fault with
      | some message =>
        exact ⟨none, by simp [Moment.ask, h₀, hjob, h₁, bind, Except.bind],
          .inr ⟨hfault (by omega) h₁, rfl⟩⟩
      | none =>
        cases htrigger : (moments 1).scheduler.triggers k with
        | none => exact absurd ⟨h₀, .inr ⟨h₁, htrigger⟩⟩ h
        | some trigger =>
          cases h₂ : (moments 2).fault with
          | some message =>
            exact ⟨none, by simp [Moment.ask, h₀, hjob, h₁, htrigger, h₂, bind, Except.bind],
              .inr ⟨hfault (by omega) h₂, rfl⟩⟩
          | none =>
            refine ⟨_, by simp [Moment.ask, h₀, hjob, h₁, htrigger, h₂, bind, Except.bind]; rfl,
              .inl ⟨?_, rfl⟩⟩
            intro i hi
            match i, hi with
            | 0, _ => exact h₀
            | 1, _ => exact h₁
            | 2, _ => exact h₂

/-! ## The loop -/

theorem getSchedules_cons {each : JobKey} {schedule : Option Schedule}
    (h : getSchedule moments each = .ok schedule) :
    getSchedules moments (each :: jobKeySet) =
      (getSchedules (later moments 3) jobKeySet).map fun schedules => schedule :: schedules := by
  rw [getSchedules, h]
  rfl

/-- The keys of a loop are those of its first pass and of the rest. -/
theorem forall_cons {each : JobKey} {P : JobKey → (Nat → Moment) → Prop} :
    (∀ j k, (each :: jobKeySet)[j]? = some k → P k (later moments (3 * j))) ↔
      P each moments ∧ ∀ j k, jobKeySet[j]? = some k → P k (later (later moments 3) (3 * j)) := by
  rw [← Nat.and_forall_add_one]
  refine and_congr ?_ (forall_congr' fun j => ?_)
  · simp [later_zero]
  · rw [later_later, List.getElem?_cons_succ, show 3 * (j + 1) = 3 + 3 * j by omega]

/-- The loop ends if every `getSchedule` finds what it reads. -/
theorem getSchedules_ok_iff : (∃ schedules, getSchedules moments jobKeySet = .ok schedules) ↔
    ∀ j k, jobKeySet[j]? = some k → ¬ Misses (later moments (3 * j)) k := by
  induction jobKeySet generalizing moments with
  | nil => simp [getSchedules]
  | cons each jobKeySet ih =>
    rw [forall_cons (P := fun k moments => ¬ Misses moments k)]
    by_cases h : Misses moments each
    · refine iff_of_false ?_ fun hall => hall.1 h
      rw [getSchedules, getSchedule_misses h]
      rintro ⟨schedules, hs⟩
      cases hs
    · obtain ⟨schedule, hs, -⟩ := getSchedule_found h
      rw [getSchedules_cons hs, and_iff_right h, ← ih]
      cases getSchedules (later moments 3) jobKeySet with
      | error e => simp [Except.map]
      | ok schedules => simp [Except.map]

/-- The first pass of a loop that ends. -/
theorem getSchedules_inv {each : JobKey}
    (h : getSchedules moments (each :: jobKeySet) = .ok schedules) :
    ∃ schedule rest, schedules = schedule :: rest ∧
      getSchedules (later moments 3) jobKeySet = .ok rest ∧
      (Answered moments ∧ schedule.map Schedule.key = some each ∨
        ¬ Answered moments ∧ schedule = none) := by
  have hfound : ¬ Misses moments each := by
    simpa [later_zero] using getSchedules_ok_iff.mp ⟨schedules, h⟩ 0 each rfl
  obtain ⟨schedule, hs, hkey⟩ := getSchedule_found hfound
  rw [getSchedules_cons hs] at h
  cases hrest : getSchedules (later moments 3) jobKeySet with
  | error e =>
    rw [hrest] at h
    cases h
  | ok rest =>
    rw [hrest] at h
    exact ⟨schedule, rest, (Except.ok.inj h).symm, rfl, hkey⟩

/-- What the loop shows are keys of the set, in its order. -/
theorem shown_sublist (h : getSchedules moments jobKeySet = .ok schedules) :
    (shown schedules).Sublist jobKeySet := by
  induction jobKeySet generalizing moments schedules with
  | nil =>
    cases h
    exact List.nil_sublist []
  | cons each jobKeySet ih =>
    obtain ⟨schedule, rest, rfl, hrest, ⟨-, hkey⟩ | ⟨-, rfl⟩⟩ := getSchedules_inv h
    · rw [shown, List.filterMap_cons_some hkey]
      exact (ih hrest).cons_cons each
    · exact (ih hrest).cons each

/-- It shows those for which no call throws. -/
theorem mem_shown_iff (h : getSchedules moments jobKeySet = .ok schedules) :
    k ∈ shown schedules ↔ ∃ j, jobKeySet[j]? = some k ∧ Answered (later moments (3 * j)) := by
  induction jobKeySet generalizing moments schedules with
  | nil =>
    cases h
    simp [shown]
  | cons each jobKeySet ih =>
    obtain ⟨schedule, rest, rfl, hrest, hfirst⟩ := getSchedules_inv h
    have hlater : (∃ j, (each :: jobKeySet)[j + 1]? = some k ∧
        Answered (later moments (3 * (j + 1)))) ↔ k ∈ shown rest := by
      rw [ih hrest]
      refine exists_congr fun j => ?_
      rw [later_later, List.getElem?_cons_succ, show 3 * (j + 1) = 3 + 3 * j by omega]
    rw [← Nat.or_exists_add_one, hlater, Nat.mul_zero, later_zero, List.getElem?_cons_zero,
      Option.some_inj]
    obtain ⟨hall, hkey⟩ | ⟨hnot, rfl⟩ := hfirst
    · rw [shown, List.filterMap_cons_some hkey, List.mem_cons, and_iff_left hall, eq_comm]
      rfl
    · rw [or_iff_right fun h => hnot h.2]
      rfl

/-! ## The listing -/

theorem listSchedule_none (h : (moments 0).fault = none) :
    listSchedule moments jobKeySet = getSchedules (later moments 1) jobKeySet := by
  rw [listSchedule, h]

theorem listSchedule_some (h : (moments 0).fault ≠ none) :
    listSchedule moments jobKeySet = .ok [] := by
  obtain ⟨message, hmessage⟩ := Option.ne_none_iff_exists'.mp h
  rw [listSchedule, hmessage]

theorem complete_of_undisturbed (hkeys : JobKeys (moments 0).scheduler jobKeySet)
    (h : Undisturbed moments jobKeySet) : Complete moments jobKeySet := by
  by_cases h₀ : (moments 0).fault = none
  · have hfound : ∀ j k, jobKeySet[j]? = some k → ¬ Misses (later (later moments 1) (3 * j)) k := by
      intro j k hk
      rw [later_later]
      exact h.found h₀ j k hk
    obtain ⟨schedules, hs⟩ := getSchedules_ok_iff.mpr hfound
    refine ⟨schedules, (listSchedule_none h₀).trans hs, fun k hk => ?_⟩
    have hmem : k ∈ jobKeySet := (hkeys.mem k).mpr (hk 0 (Nat.zero_le _))
    obtain ⟨j, hj⟩ := List.mem_iff_getElem?.mp hmem
    have hanswered : Answered (later (later moments 1) (3 * j)) := by
      rw [later_later]
      exact h.answered k hk j hj
    have hshown : k ∈ shown schedules := (mem_shown_iff hs).mpr ⟨j, hj, hanswered⟩
    exact List.count_eq_one_of_mem ((shown_sublist hs).nodup hkeys.nodup) hshown
  · exact ⟨[], listSchedule_some h₀, fun k hk => absurd (h.listed k hk) h₀⟩

theorem undisturbed_of_complete (hkeys : JobKeys (moments 0).scheduler jobKeySet)
    (h : Complete moments jobKeySet) : Undisturbed moments jobKeySet := by
  obtain ⟨schedules, hs, hcount⟩ := h
  have hshown : ∀ k, Lasts moments jobKeySet k → k ∈ shown schedules := by
    intro k hk
    refine List.count_pos_iff.mp ?_
    have hone := hcount k hk
    omega
  have hlisted : ∀ k, Lasts moments jobKeySet k → (moments 0).fault = none := by
    intro k hk
    by_contra h₀
    rw [listSchedule_some h₀] at hs
    cases hs
    exact List.not_mem_nil (hshown k hk)
  refine ⟨fun h₀ j k hk => ?_, hlisted, fun k hk j hj => ?_⟩
  · rw [listSchedule_none h₀] at hs
    have hfound := getSchedules_ok_iff.mp ⟨schedules, hs⟩ j k hk
    rwa [later_later] at hfound
  · rw [listSchedule_none (hlisted k hk)] at hs
    obtain ⟨i, hi, hanswered⟩ := (mem_shown_iff hs).mp (hshown k hk)
    obtain rfl : i = j := by
      obtain ⟨hlt, -⟩ := List.getElem?_eq_some_iff.mp hi
      exact (List.getElem?_inj hlt hkeys.nodup).mp (hi.trans hj.symm)
    rwa [later_later] at hanswered

/-- **Which listings are complete**: exactly those that find every job and every trigger they read,
if no call that concerns a lasting job throws. -/
theorem listSchedule_iff (hkeys : JobKeys (moments 0).scheduler jobKeySet) :
    Complete moments jobKeySet ↔ Undisturbed moments jobKeySet :=
  ⟨undisturbed_of_complete hkeys, complete_of_undisturbed hkeys⟩

/-! ## Histories -/

/-- The scheduler is one that operations and firings lead to, and goes on between the calls. -/
structure History (quartz : Quartz) (moments : Nat → Moment) : Prop where
  reached : ∃ es, Run (Step quartz) .empty es (moments 0).scheduler
  next (i : Nat) : ∃ es, Run (Step quartz) (moments i).scheduler es (moments (i + 1)).scheduler

variable {quartz : Quartz}

/-- `getJobKeys` has a set to return. -/
theorem History.exists_jobKeys (h : History quartz moments) :
    ∃ jobKeySet, JobKeys (moments 0).scheduler jobKeySet := by
  obtain ⟨es, hrun⟩ := h.reached
  have hfinite := finite_run hrun
  refine ⟨hfinite.toFinset.toList, Finset.nodup_toList _, fun k => ?_⟩
  rw [Finset.mem_toList, Set.Finite.mem_toFinset]
  rfl

/-- A listing during which nothing is removed and no trigger completes, of a scheduler whose
triggers are all there. -/
theorem complete_quiet (hkeys : JobKeys (moments 0).scheduler jobKeySet)
    (hpaired : Paired (moments 0).scheduler) (hfault : ∀ i, (moments i).fault = none)
    (hquiet : ∀ i, ∃ es, Run (fun s e s' => Step quartz s e s' ∧ e.Quiet) (moments i).scheduler es
      (moments (i + 1)).scheduler) : Complete moments jobKeySet := by
  have hkept (i : Nat) : Paired (moments i).scheduler ∧ ∀ k, ((moments 0).scheduler.jobs k).isSome →
      ((moments i).scheduler.jobs k).isSome := by
    induction i with
    | zero => exact ⟨hpaired, fun _ hk => hk⟩
    | succ i ih =>
      obtain ⟨es, hrun⟩ := hquiet i
      obtain ⟨hpaired', hpresent⟩ := quiet_run hrun ih.1
      exact ⟨hpaired', fun k hk => hpresent k (ih.2 k hk)⟩
  refine complete_of_undisturbed hkeys ⟨fun _ j k hj => ?_, fun _ _ => hfault 0,
    fun _ _ j _ i _ => hfault _⟩
  have hk : ((moments 0).scheduler.jobs k).isSome :=
    (hkeys.mem k).mp (List.mem_of_getElem? hj)
  rintro ⟨-, hjob | ⟨-, htrigger⟩⟩
  · have hpresent := (hkept (1 + 3 * j + 0)).2 k hk
    rw [show (moments (1 + 3 * j + 0)).scheduler.jobs k = none from hjob] at hpresent
    cases hpresent
  · obtain ⟨hpair, hpresent⟩ := hkept (1 + 3 * j + 1)
    have htrigger' := (hpair.paired k).mp (hpresent k hk)
    rw [show (moments (1 + 3 * j + 1)).scheduler.triggers k = none from htrigger] at htrigger'
    cases htrigger'

/-! ### A schedule that fires once -/

def oneKey : JobKey := ⟨"s", "g"⟩

def addedOnce : Scheduler :=
  ((Operation.addSchedule (fun _ => none)
    ⟨some "s", some "g", some "0 0 0 1 1 ? 2030", some "all", some "polling"⟩).run jdbcQuartz
      .empty).2

def startedOnce : Scheduler :=
  ((Operation.startSchedule (fun _ => none) (some "s") (some "g")).run jdbcQuartz addedOnce).2

theorem startedOnce_run : ∃ es, Run (Step jdbcQuartz) .empty es startedOnce :=
  ⟨_, (Run.nil.snoc (.operation _)).snoc (.operation _)⟩

theorem jobKeys_once {s : Scheduler}
    (h : s.jobs = Function.update (fun _ => none) oneKey (some ⟨"all@polling"⟩)) :
    JobKeys s [oneKey] := by
  refine ⟨List.nodup_singleton _, fun k => ?_⟩
  rw [h, List.mem_singleton]
  by_cases hk : k = oneKey
  · simp [hk]
  · simp [hk]

theorem complete_once : Complete (fun _ => ⟨startedOnce, none⟩) [oneKey] := by
  refine (listSchedule_iff (jobKeys_once rfl)).mpr ⟨fun _ j k hk => ?_, fun _ _ => rfl,
    fun _ _ _ _ _ _ => rfl⟩
  obtain rfl : k = oneKey := List.mem_singleton.mp (List.mem_of_getElem? hk)
  rintro ⟨-, hjob | ⟨-, htrigger⟩⟩
  · cases hjob
  · cases htrigger

/-- After its last fire, or when it is removed between the two steps, the whole listing fails. -/
theorem listSchedule_throws :
    (∃ moments, History jdbcQuartz moments ∧ (∀ i, moments i = moments 0) ∧
      (moments 0).fault = none ∧ JobKeys (moments 0).scheduler [oneKey] ∧
      listSchedule moments [oneKey] = .error (.runtimeException "")) ∧
    ∃ moments, History jdbcQuartz moments ∧ (∀ i, (moments i).fault = none) ∧
      JobKeys (moments 0).scheduler [oneKey] ∧ Paired (moments 0).scheduler ∧
      listSchedule moments [oneKey] = .error (.runtimeException "") := by
  obtain ⟨es, hrun⟩ := startedOnce_run
  constructor
  · refine ⟨fun _ => ⟨startedOnce.completed oneKey, none⟩, ⟨?_, fun _ => ⟨[], .nil⟩⟩, fun _ => rfl,
      rfl, jobKeys_once rfl, rfl⟩
    exact ⟨_, hrun.snoc (.completed rfl rfl rfl)⟩
  · let removed : Scheduler :=
      ((Operation.removeSchedule (fun _ => none) (some "s") (some "g")).run jdbcQuartz startedOnce).2
    refine ⟨fun i => ⟨if i = 0 then startedOnce else removed, none⟩, ⟨⟨es, hrun⟩, fun i => ?_⟩,
      fun _ => rfl, jobKeys_once rfl, ?_, rfl⟩
    · cases i with
      | zero => exact ⟨_, .single (.operation _)⟩
      | succ i => exact ⟨[], .nil⟩
    · have hnot (op : Operation) : ∀ k, Event.operation op ≠ .completed k := fun k h => by cases h
      exact (Step.operation _).paired (hnot _) ((Step.operation _).paired (hnot _) .empty)

end

end BaseService.Schedule
