import BaseService.Data.Runs

/-!
# `HystrixMetricSchedule`

`start` makes a new schedule object each time and asks the flag of that one whether it runs. The object
before it is no longer in the static field, but its executor goes on; the threads keep it from being
finalized.

* `HystrixMetricSchedule` : an object, with `pause` and `shutdown`; `Polls` : its `MetricTask` is
  scheduled;
* `Schedules`, `Step` : all objects with the static field, and the calls;
* `Proper` : what should hold after a call;
* `one_poller_iff` : the sequences of calls after each of which it does.
-/

namespace BaseService.Hystrix
open Function (update)

structure HystrixMetricSchedule where
  running : Bool
  /-- Null, or whether the future is cancelled. -/
  scheduledTask : Option Bool
  /-- `executor.isShutdown()`. -/
  isShutdown : Bool
  deriving DecidableEq, Repr

namespace HystrixMetricSchedule

def new : HystrixMetricSchedule := ⟨false, none, false⟩

/-- What `start` does with the object that it has made. -/
def begin (this : HystrixMetricSchedule) : HystrixMetricSchedule :=
  if this.running then this else { this with running := true, scheduledTask := some false }

def pause (this : HystrixMetricSchedule) : HystrixMetricSchedule :=
  if this.running then { this with running := false, scheduledTask := some true } else this

def shutdown (this : HystrixMetricSchedule) : HystrixMetricSchedule :=
  { this.pause with isShutdown := true }

/-- The task is scheduled; an executor that is shut down drops its periodic tasks. -/
def Polls (this : HystrixMetricSchedule) : Prop :=
  this.scheduledTask = some false ∧ this.isShutdown = false

/-- The flag says whether the task is scheduled. -/
def Flagged (this : HystrixMetricSchedule) : Prop := this.running = true ↔ this.Polls

theorem flagged_new : new.Flagged := by simp [Flagged, Polls, new]

theorem polls_begin : (begin new).Polls := by simp [Polls, begin, new]

theorem flagged_begin : (begin new).Flagged := by simp [Flagged, Polls, begin, new]

variable {this : HystrixMetricSchedule}

theorem Flagged.not_polls_pause (h : this.Flagged) : ¬ this.pause.Polls := by
  unfold pause
  split
  · simp [Polls]
  · next hrunning => exact fun hpolls => hrunning (h.2 hpolls)

theorem Flagged.pause (h : this.Flagged) : this.pause.Flagged := by
  refine iff_of_false ?_ h.not_polls_pause
  unfold HystrixMetricSchedule.pause
  split
  · simp
  · assumption

theorem not_polls_shutdown : ¬ this.shutdown.Polls := by simp [Polls, shutdown]

theorem Flagged.shutdown (h : this.Flagged) : this.shutdown.Flagged :=
  iff_of_false (fun hrunning => h.not_polls_pause (h.pause.1 hrunning)) not_polls_shutdown

end HystrixMetricSchedule

open HystrixMetricSchedule (begin)

/-- The objects made so far, and the static field. -/
structure Schedules where
  object : Nat → HystrixMetricSchedule
  created : Nat
  schedule : Option Nat

namespace Schedules

def init : Schedules := ⟨fun _ => .new, 0, none⟩

def start (s : Schedules) : Schedules where
  object := update s.object s.created (begin .new)
  created := s.created + 1
  schedule := some s.created

def on (s : Schedules) (i : Nat) (f : HystrixMetricSchedule → HystrixMetricSchedule) : Schedules :=
  { s with object := update s.object i (f (s.object i)) }

theorem start_object (s : Schedules) (j : Nat) :
    s.start.object j = if j = s.created then begin .new else s.object j := Function.update_apply ..

theorem on_object (s : Schedules) (i : Nat) (f : HystrixMetricSchedule → HystrixMetricSchedule)
    (j : Nat) : (s.on i f).object j = if j = i then f (s.object i) else s.object j :=
  Function.update_apply ..

inductive Label
  | start
  | pause
  | shutdown
  deriving DecidableEq, Repr

/-- The calls; those of `pause` and `shutdown` are on the object in the static field. -/
inductive Step : Schedules → Label → Schedules → Prop
  | start {s : Schedules} : Step s .start s.start
  | pause {s : Schedules} {i : Nat} : s.schedule = some i → Step s .pause (s.on i .pause)
  | shutdown {s : Schedules} {i : Nat} : s.schedule = some i → Step s .shutdown (s.on i .shutdown)

/-- After a call. -/
structure Proper (l : Label) (s : Schedules) : Prop where
  once : ∀ i j, (s.object i).Polls → (s.object j).Polls → i = j
  scheduled : l = .start → ∃ i, s.schedule = some i ∧ (s.object i).Polls
  ended : l = .shutdown → ∀ i, ¬ (s.object i).Polls

/-- A call of `start` comes when the object in the static field does not run. -/
def Guarded (s : Schedules) (l : Label) : Prop :=
  l = .start → ∀ i, s.schedule = some i → (s.object i).running = false

structure Invariant (s : Schedules) : Prop where
  flagged : ∀ i, (s.object i).Flagged
  current : ∀ i, (s.object i).Polls → s.schedule = some i
  lt : ∀ i, s.schedule = some i → i < s.created

variable {s s' : Schedules} {l : Label} {i : Nat}

theorem invariant_init : Invariant init := by
  refine ⟨fun _ => HystrixMetricSchedule.flagged_new, ?_, ?_⟩
  · simp [init, HystrixMetricSchedule.Polls, HystrixMetricSchedule.new]
  · simp [init]

/-- A step on the current object that leaves its task unscheduled. -/
theorem Invariant.not_polls_on (h : Invariant s) (hi : s.schedule = some i)
    {f : HystrixMetricSchedule → HystrixMetricSchedule} (hf : ¬ (f (s.object i)).Polls) (j : Nat) :
    ¬ ((s.on i f).object j).Polls := by
  rw [on_object]
  split
  · exact hf
  · next hj =>
    intro hpolls
    rw [h.current j hpolls] at hi
    exact hj (Option.some.inj hi)

theorem Invariant.on (h : Invariant s) (hi : s.schedule = some i)
    {f : HystrixMetricSchedule → HystrixMetricSchedule} (hf : ¬ (f (s.object i)).Polls)
    (hflagged : (f (s.object i)).Flagged) : Invariant (s.on i f) := by
  refine ⟨fun j => ?_, fun j hpolls => absurd hpolls (h.not_polls_on hi hf j), h.lt⟩
  rw [on_object]
  split
  · exact hflagged
  · exact h.flagged j

/-- Who polls after a start. -/
theorem polls_start (s : Schedules) (j : Nat) :
    (s.start.object j).Polls ↔ j = s.created ∨ j ≠ s.created ∧ (s.object j).Polls := by
  rw [start_object]
  split
  · next hj => simp [hj, HystrixMetricSchedule.polls_begin]
  · next hj => simp [hj]

/-- **When a start leaves one poller**: when the current object does not run. -/
theorem Invariant.start_once_iff (h : Invariant s) :
    (∀ i j, (s.start.object i).Polls → (s.start.object j).Polls → i = j) ↔
      ∀ i, s.schedule = some i → (s.object i).running = false := by
  constructor
  · intro honce i hi
    by_contra hrunning
    have hpolls : (s.object i).Polls := (h.flagged i).1 (by simpa using hrunning)
    have hlt := h.lt i hi
    have heq := honce i s.created ((polls_start s i).2 (.inr ⟨by omega, hpolls⟩))
      ((polls_start s s.created).2 (.inl rfl))
    omega
  · intro hguarded i j hi hj
    have hnew (k : Nat) (hk : (s.start.object k).Polls) : k = s.created := by
      rcases (polls_start s k).1 hk with heq | ⟨-, hpolls⟩
      · exact heq
      · have hrunning := (h.flagged k).2 hpolls
        rw [hguarded k (h.current k hpolls)] at hrunning
        cases hrunning
    rw [hnew i hi, hnew j hj]

theorem Invariant.start (h : Invariant s)
    (honce : ∀ i j, (s.start.object i).Polls → (s.start.object j).Polls → i = j) :
    Invariant s.start := by
  have hself : (s.start.object s.created).Polls := (polls_start s s.created).2 (.inl rfl)
  refine ⟨fun j => ?_, fun j hj => ?_, fun j hj => ?_⟩
  · rw [start_object]
    split
    · exact HystrixMetricSchedule.flagged_begin
    · exact h.flagged j
  · rw [honce j s.created hj hself]
    rfl
  · have hj : s.created = j := Option.some.inj hj
    show j < s.created + 1
    omega

theorem Invariant.proper_iff_guarded (h : Invariant s) (hs : Step s l s') : Proper l s' ↔ Guarded s l := by
  cases hs with
  | start =>
    unfold Guarded
    constructor
    · intro hproper _
      exact h.start_once_iff.1 hproper.once
    · intro hguarded
      refine ⟨h.start_once_iff.2 (hguarded rfl), fun _ => ⟨s.created, rfl, ?_⟩, by simp⟩
      exact (polls_start s s.created).2 (.inl rfl)
  | @pause i hi =>
    refine iff_of_true ?_ (by simp [Guarded])
    have hnone := h.not_polls_on hi (h.flagged i).not_polls_pause
    exact ⟨fun j _ hj => absurd hj (hnone j), by simp, by simp⟩
  | @shutdown i hi =>
    refine iff_of_true ?_ (by simp [Guarded])
    have hnone := h.not_polls_on (f := .shutdown) hi HystrixMetricSchedule.not_polls_shutdown
    exact ⟨fun j _ hj => absurd hj (hnone j), by simp, fun _ => hnone⟩

theorem Invariant.step (h : Invariant s) (hs : Step s l s') (hproper : Proper l s') :
    Invariant s' := by
  cases hs with
  | start => exact h.start hproper.once
  | @pause i hi => exact h.on hi (h.flagged i).not_polls_pause (h.flagged i).pause
  | @shutdown i hi =>
    exact h.on hi HystrixMetricSchedule.not_polls_shutdown (h.flagged i).shutdown

/-- **The sequences of calls with at most one poller**: `start` is not called while the current object
runs. -/
theorem one_poller_iff {ls : List Label} :
    Run (fun s l s' => Step s l s' ∧ Proper l s') init ls s ↔
      Run (fun s l s' => Step s l s' ∧ Guarded s l) init ls s := by
  refine Run.congr (I := Invariant) invariant_init (fun s l s' h => ?_) fun s l s' h hs => ?_
  · exact and_congr_right h.proper_iff_guarded
  · exact h.step hs.1 hs.2

/-- The static initialisers of the two command classes. -/
theorem two_pollers : ¬ ∀ ls s, Run Step init ls s →
    Run (fun s l s' => Step s l s' ∧ Proper l s') init ls s := by
  intro h
  have hrun : Run Step init ([.start] ++ [.start]) init.start.start := (Run.single .start).snoc .start
  obtain ⟨s, -, -, hproper⟩ := (h _ _ hrun).snoc_inv
  have honce := hproper.once 0 1 (by simp [start, init, HystrixMetricSchedule.polls_begin])
    (by simp [start, init, HystrixMetricSchedule.polls_begin])
  omega

end Schedules

end BaseService.Hystrix
