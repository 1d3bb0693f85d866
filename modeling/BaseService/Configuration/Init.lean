import BaseService.StringUtils
import BaseService.Data.Runs

/-!
# `SmcConfiguration.init`

`isInited` is set before the work begins. A call that finds it set returns at once.

* `next` : what a thread does next in `init`, on the static fields;
* `Threads`, `Threads.Step` : threads that call `init`, each access to a field a step;
* `Complete` : what a call should leave; `Proper` : each that has returned does;
* `returned_complete_iff` : the runs in which it holds throughout.
-/

namespace BaseService.Configuration
open Function (update)

inductive ServerEnvEnum
  | online
  | dev
  | test
  | pre
  deriving DecidableEq, Repr

namespace ServerEnvEnum

def values : List ServerEnvEnum := [online, dev, test, pre]

def code : ServerEnvEnum → String
  | online => "online"
  | dev => "dev"
  | test => "test"
  | pre => "pre"

/-- Never null, so `init` does not exit. -/
def getEnvByCode (code : String) : ServerEnvEnum :=
  (values.find? fun each => each.code = code).getD online

theorem getEnvByCode_code (env : ServerEnvEnum) : getEnvByCode env.code = env := by
  cases env <;> decide

end ServerEnvEnum

/-- What `init` finds outside; no call to `ZooKeeper` fails. -/
structure Deployment where
  /-- `DebugUtils.PROPERTY_DONT_LOG_CONNECTION_ISSUES`. -/
  dontLogProperty : String
  /-- `getDeploymentEnvironment()`. -/
  deploymentEnvironment : Option String
  /-- `smc.configuration.zk.server`, after the cascaded properties are loaded. -/
  zkServers : List String
  /-- `zkConfigSource.getCurrentData()`. -/
  currentData : Option (List (String × String))

namespace Deployment

def env (d : Deployment) : String :=
  match d.deploymentEnvironment with
  | none => "dev"
  | some env => if StringUtils.isBlank env then "dev" else env

def zkServer (d : Deployment) : String :=
  match d.zkServers with
  | [] => ""
  | [zkServer] => zkServer
  | zkServers =>
    let sb := zkServers.foldl (fun sb each => sb ++ each.toList ++ [',']) []
    String.ofList (sb.take (sb.length - 1))

end Deployment

structure CuratorFramework where
  zkServer : String
  started : Bool
  deriving DecidableEq, Repr

structure ZooKeeperConfigurationSource where
  client : CuratorFramework
  configRootPath : String
  started : Bool
  deriving DecidableEq, Repr

/-- The static fields, and what `init` changes elsewhere. -/
structure Fields where
  isInited : Bool
  environment : Option ServerEnvEnum
  configRootPath : String
  client : Option CuratorFramework
  zkConfigSource : Option ZooKeeperConfigurationSource
  /-- How many clients have been made. -/
  created : Nat
  /-- The composite configuration that is installed: its names and their sources. -/
  installed : Option (List (String × ZooKeeperConfigurationSource))
  systemProperties : String → Option String

namespace Fields

/-- When the class has been loaded. -/
def loaded : Fields := ⟨false, none, "/smc/config/%s", none, none, 0, none, fun _ => none⟩

def setProperty (c : Fields) (key value : String) : Fields :=
  { c with systemProperties := update c.systemProperties key (some value) }

end Fields

/-- Where a thread is. -/
inductive InitPhase
  | idle
  /-- It has called `init`. -/
  | called
  /-- `compareAndSet` has failed. -/
  | lost
  | dontLog
  | applicationId
  | environment
  | configRootPath
  | newClient
  | startClient
  | newSource
  | startSource
  | install
  | applyPlaceHolder
  /-- `applyPlaceHolder` has still to set these. -/
  | placing (rest : List (String × String))
  | returned
  deriving DecidableEq, Repr

namespace InitPhase

/-- It has won and not returned. -/
def Running : InitPhase → Prop
  | .idle | .called | .lost | .returned => False
  | _ => True

/-- It has won and not yet installed the configuration. -/
def Behind : InitPhase → Prop
  | .applyPlaceHolder | .placing _ => False
  | phase => phase.Running

end InitPhase

open InitPhase (Running Behind)

/-- The next step of a thread; `none` if it throws. -/
def next (d : Deployment) (c : Fields) : InitPhase → Option (Fields × InitPhase)
  | .idle | .returned => some (c, .called)
  | .called => some (if c.isInited then (c, .lost) else ({ c with isInited := true }, .dontLog))
  | .lost => some (c, .returned)
  | .dontLog => some (c.setProperty d.dontLogProperty "true", .applicationId)
  | .applicationId =>
    some (c.setProperty "archaius.deployment.applicationId" "smc-configuration", .environment)
  | .environment =>
    some ({ c with environment := some (ServerEnvEnum.getEnvByCode d.env) }, .configRootPath)
  | .configRootPath =>
    some ({ c with configRootPath := c.configRootPath.replace "%s" d.env }, .newClient)
  | .newClient =>
    some ({ c with client := some ⟨d.zkServer, false⟩, created := c.created + 1 }, .startClient)
  | .startClient => c.client.map fun client =>
    ({ c with client := some { client with started := true } }, .newSource)
  | .newSource => c.client.map fun client =>
    ({ c with zkConfigSource := some ⟨client, c.configRootPath, false⟩ }, .startSource)
  | .startSource => c.zkConfigSource.map fun source =>
    ({ c with zkConfigSource := some { source with started := true } }, .install)
  | .install =>
    -- a second configuration cannot be installed
    match c.zkConfigSource, c.installed with
    | some source, none =>
      some ({ c with installed := some [("zk dynamic override configuration", source)] },
        .applyPlaceHolder)
    | _, _ => none
  | .applyPlaceHolder => some (c, .placing (d.currentData.getD []))
  | .placing ((key, value) :: rest) => some (c.setProperty key value, .placing rest)
  | .placing [] => some (c, .returned)

/-! ## The fields at each step -/

/-- `init` has done its work, once. -/
structure Complete (c : Fields) : Prop where
  source : ∃ source, c.zkConfigSource = some source ∧ source.started = true
  installed : c.installed ≠ none
  created : c.created = 1

/-- What a thread that has won finds. -/
def Stage (c : Fields) : InitPhase → Prop
  | .dontLog | .applicationId | .environment | .configRootPath | .newClient =>
    c.installed = none ∧ c.created = 0
  | .startClient | .newSource => c.installed = none ∧ c.created = 1 ∧ c.client ≠ none
  | .startSource => c.installed = none ∧ c.created = 1 ∧ c.zkConfigSource ≠ none
  | .install => c.installed = none ∧ c.created = 1 ∧
      ∃ source, c.zkConfigSource = some source ∧ source.started = true
  | .applyPlaceHolder | .placing _ => Complete c
  | .idle | .called | .lost | .returned => True

variable {d : Deployment} {c c' : Fields} {phase phase' : InitPhase}

theorem Complete.setProperty (h : Complete c) (key value : String) :
    Complete (c.setProperty key value) := ⟨h.source, h.installed, h.created⟩

theorem stage_of_not_running (c : Fields) (h : ¬ phase.Running) : Stage c phase := by
  cases phase <;> simp_all [Running, Stage]

theorem Stage.installed (h : Stage c phase) (hphase : phase.Behind) : c.installed = none := by
  cases phase <;> simp_all [Behind, Running, Stage]

theorem Stage.complete (h : Stage c phase) (hrunning : phase.Running) (hphase : ¬ phase.Behind) :
    Complete c := by
  cases phase <;> simp_all [Behind, Running, Stage]

theorem Stage.not_complete (h : Stage c phase) (hphase : phase.Behind) : ¬ Complete c :=
  fun hc => hc.installed (h.installed hphase)

/-- What it does, and where it is afterwards. -/
theorem Stage.next (h : Stage c phase) (hrunning : phase.Running)
    (hn : next d c phase = some (c', phase')) :
    Stage c' phase' ∧ c'.isInited = c.isInited ∧
      (phase'.Running ∨ phase' = .returned ∧ Complete c') := by
  unfold Configuration.next at hn
  cases phase with
  | idle | called | lost | returned => exact absurd hrunning (by simp [Running])
  | dontLog | applicationId | environment | configRootPath | newClient =>
    simp only [Option.some.injEq, Prod.mk.injEq] at hn
    obtain ⟨rfl, rfl⟩ := hn
    simp_all [Stage, Running, Fields.setProperty]
  | startClient | newSource | startSource =>
    simp only [Option.map_eq_some_iff, Prod.mk.injEq] at hn
    obtain ⟨_, _, rfl, rfl⟩ := hn
    simp_all [Stage, Running]
  | install =>
    obtain ⟨hinstalled, hcreated, source, hsource, hstarted⟩ := h
    simp only [hsource, hinstalled, Option.some.injEq, Prod.mk.injEq] at hn
    obtain ⟨rfl, rfl⟩ := hn
    exact ⟨⟨⟨source, rfl, hstarted⟩, by simp, hcreated⟩, rfl, .inl trivial⟩
  | applyPlaceHolder =>
    simp only [Option.some.injEq, Prod.mk.injEq] at hn
    obtain ⟨rfl, rfl⟩ := hn
    exact ⟨h, rfl, .inl trivial⟩
  | placing rest =>
    cases rest with
    | nil =>
      simp only [Option.some.injEq, Prod.mk.injEq] at hn
      obtain ⟨rfl, rfl⟩ := hn
      exact ⟨trivial, rfl, .inr ⟨rfl, h⟩⟩
    | cons entry rest =>
      simp only [Option.some.injEq, Prod.mk.injEq] at hn
      obtain ⟨rfl, rfl⟩ := hn
      exact ⟨Complete.setProperty h entry.1 entry.2, rfl, .inl trivial⟩

/-- After `install`, only system properties change. -/
theorem Complete.next (h : Complete c) (hphase : ¬ phase.Behind)
    (hn : Configuration.next d c phase = some (c', phase')) : Complete c' := by
  unfold Configuration.next at hn
  cases phase with
  | idle | lost | returned | applyPlaceHolder =>
    simp only [Option.some.injEq, Prod.mk.injEq] at hn
    rwa [← hn.1]
  | called =>
    rw [Option.some.injEq] at hn
    split at hn <;> rw [Prod.mk.injEq] at hn
    · rwa [← hn.1]
    · rw [← hn.1]
      exact ⟨h.source, h.installed, h.created⟩
  | placing rest =>
    cases rest with
    | nil =>
      simp only [Option.some.injEq, Prod.mk.injEq] at hn
      rwa [← hn.1]
    | cons entry rest =>
      simp only [Option.some.injEq, Prod.mk.injEq] at hn
      rw [← hn.1]
      exact h.setProperty entry.1 entry.2
  | _ => exact absurd trivial hphase

/-- No thread throws. -/
theorem Stage.exists_next (h : Stage c phase) :
    ∃ c' phase', Configuration.next d c phase = some (c', phase') := by
  unfold Configuration.next
  cases phase with
  | called => exact ⟨_, _, rfl⟩
  | startClient | newSource =>
    obtain ⟨client, hclient⟩ := Option.ne_none_iff_exists'.mp h.2.2
    simp [hclient]
  | startSource =>
    obtain ⟨source, hsource⟩ := Option.ne_none_iff_exists'.mp h.2.2
    simp [hsource]
  | install =>
    obtain ⟨hinstalled, -, source, hsource, -⟩ := h
    simp [hinstalled, hsource]
  | placing rest => cases rest <;> simp
  | _ => simp

/-- A thread that has not won. -/
theorem next_of_not_running (hrunning : ¬ phase.Running)
    (hn : next d c phase = some (c', phase')) :
    c' = c ∧ (phase = .idle ∨ phase = .returned) ∧ phase' = .called ∨
      c' = c ∧ phase = .called ∧ c.isInited = true ∧ phase' = .lost ∨
      c' = c ∧ phase = .lost ∧ phase' = .returned ∨
      phase = .called ∧ c.isInited = false ∧ c' = { c with isInited := true } ∧
        phase' = .dontLog := by
  unfold next at hn
  cases phase with
  | idle | lost | returned => simp_all
  | called =>
    rw [Option.some.injEq] at hn
    split at hn <;> simp_all
  | _ => exact absurd trivial hrunning

/-! ## Threads -/

structure Threads (κ : Type) where
  fields : Fields
  phase : κ → InitPhase

namespace Threads
variable {κ : Type}

def start : Threads κ := ⟨.loaded, fun _ => .idle⟩

def Step [DecidableEq κ] (d : Deployment) (s : Threads κ) (i : κ) (s' : Threads κ) : Prop :=
  ∃ c phase, next d s.fields (s.phase i) = some (c, phase) ∧ s' = ⟨c, update s.phase i phase⟩

/-- Every call that has returned finds the work done. -/
def Proper (s : Threads κ) : Prop := ∀ i, s.phase i = .returned → Complete s.fields

/-- A call whose `compareAndSet` failed does not return while another has still to install the
configuration. -/
def Guarded (s : Threads κ) (i : κ) : Prop := s.phase i = .lost → ∀ j, ¬ (s.phase j).Behind

structure Invariant (s : Threads κ) : Prop where
  fresh : s.fields.isInited = false → (∀ i, s.phase i = .idle ∨ s.phase i = .called) ∧
    s.fields.installed = none ∧ s.fields.created = 0
  one : ∀ i j, (s.phase i).Running → (s.phase j).Running → i = j
  stage : ∀ i, Stage s.fields (s.phase i)
  finished : s.fields.isInited = true → (∃ i, (s.phase i).Running) ∨ Complete s.fields

variable {s s' : Threads κ} {i : κ}

theorem invariant_start : Invariant (start : Threads κ) := by
  refine ⟨fun _ => ⟨fun _ => .inl rfl, rfl, rfl⟩, ?_, fun _ => trivial, ?_⟩
  · simp [start, Running]
  · simp [start, Fields.loaded]

theorem Invariant.isInited (h : Invariant s) (hi : (s.phase i).Running ∨ s.phase i = .lost) :
    s.fields.isInited = true := by
  by_contra hinited
  rcases (h.fresh (by simpa using hinited)).1 i with hphase | hphase <;>
    simp [hphase, Running] at hi

/-- **When a call that lost may return**: when no call has still to install the configuration. -/
theorem Invariant.complete_iff (h : Invariant s) (hi : s.phase i = .lost) :
    Complete s.fields ↔ ∀ j, ¬ (s.phase j).Behind := by
  constructor
  · exact fun hc j hbehind => (h.stage j).not_complete hbehind hc
  · intro hbehind
    rcases h.finished (h.isInited (.inr hi)) with ⟨j, hj⟩ | hc
    · exact (h.stage j).complete hj (hbehind j)
    · exact hc

/-- A call that has just returned. -/
theorem Invariant.returned (h : Invariant s) {c : Fields} {phase : InitPhase}
    (hn : next d s.fields (s.phase i) = some (c, phase)) (hphase : phase = .returned) :
    s.phase i = .lost ∧ c = s.fields ∨ Complete c := by
  by_cases hrunning : (s.phase i).Running
  · obtain ⟨-, -, hphase' | ⟨-, hc⟩⟩ := (h.stage i).next hrunning hn
    · simp [hphase, Running] at hphase'
    · exact .inr hc
  · have hcases := next_of_not_running hrunning hn
    simp_all

variable [DecidableEq κ]

/-- A step of a thread that has not won, and does not. -/
theorem Invariant.quiet (h : Invariant s) {phase : InitPhase} (hi : ¬ (s.phase i).Running)
    (hphase : ¬ phase.Running) (hfresh : s.fields.isInited = false → phase = .called) :
    Invariant ⟨s.fields, update s.phase i phase⟩ := by
  have hrunning (j : κ) (hj : (update s.phase i phase j).Running) :
      j ≠ i ∧ (s.phase j).Running := by
    rw [Function.update_apply] at hj
    split at hj
    · exact absurd hj hphase
    · next hne => exact ⟨hne, hj⟩
  constructor
  · intro hinited
    refine ⟨fun j => ?_, (h.fresh hinited).2⟩
    dsimp only
    rw [Function.update_apply]
    split
    · exact .inr (hfresh hinited)
    · exact (h.fresh hinited).1 j
  · exact fun j k hj hk => h.one j k (hrunning j hj).2 (hrunning k hk).2
  · intro j
    dsimp only
    rw [Function.update_apply]
    split
    · exact stage_of_not_running _ hphase
    · exact h.stage j
  · intro hinited
    rcases h.finished hinited with ⟨j, hj⟩ | hc
    · have hne : j ≠ i := by
        rintro rfl
        exact hi hj
      refine .inl ⟨j, ?_⟩
      dsimp only
      rwa [Function.update_of_ne hne]
    · exact .inr hc

/-- The others have not won: a thread may go on, with the fields as it needs them. -/
theorem Invariant.alone (hothers : ∀ j, j ≠ i → ¬ (s.phase j).Running) {c : Fields}
    {phase : InitPhase} (hinited : c.isInited = true) (hstage : Stage c phase)
    (hphase : phase.Running ∨ phase = .returned ∧ Complete c) :
    Invariant ⟨c, update s.phase i phase⟩ := by
  have hrunning (j : κ) (hj : (update s.phase i phase j).Running) : j = i := by
    by_contra hne
    rw [Function.update_of_ne hne] at hj
    exact hothers j hne hj
  constructor
  · intro hfalse
    simp [hinited] at hfalse
  · intro j k hj hk
    rw [hrunning j hj, hrunning k hk]
  · intro j
    dsimp only
    rw [Function.update_apply]
    split
    · exact hstage
    · next hne => exact stage_of_not_running _ (hothers j hne)
  · intro _
    rcases hphase with hphase | ⟨-, hc⟩
    · refine .inl ⟨i, ?_⟩
      dsimp only
      rwa [Function.update_self]
    · exact .inr hc

theorem Invariant.step (h : Invariant s) (hs : Step d s i s') : Invariant s' := by
  obtain ⟨c, phase, hn, rfl⟩ := hs
  by_cases hrunning : (s.phase i).Running
  · obtain ⟨hstage, hinited, hphase⟩ := (h.stage i).next hrunning hn
    refine Invariant.alone (fun j hne hj => hne (h.one j i hj hrunning)) ?_ hstage hphase
    rw [hinited]
    exact h.isInited (.inl hrunning)
  · rcases next_of_not_running hrunning hn with ⟨rfl, -, rfl⟩ | ⟨rfl, -, hinited, rfl⟩ |
      ⟨rfl, hlost, rfl⟩ | ⟨-, hinited, rfl, rfl⟩
    · exact h.quiet hrunning (by simp [Running]) fun _ => rfl
    · exact h.quiet hrunning (by simp [Running]) fun hfalse => by simp [hinited] at hfalse
    · refine h.quiet hrunning (by simp [Running]) fun hfalse => ?_
      simp [h.isInited (.inr hlost)] at hfalse
    · obtain ⟨hidle, hinstalled, hcreated⟩ := h.fresh hinited
      refine Invariant.alone (fun j _ hj => ?_) rfl ⟨hinstalled, hcreated⟩ (.inl trivial)
      rcases hidle j with hphase | hphase <;> simp [hphase, Running] at hj

/-- No call gets stuck: a thread can always go on. -/
theorem Invariant.exists_step (h : Invariant s) (d : Deployment) (i : κ) : ∃ s', Step d s i s' := by
  obtain ⟨c, phase, hn⟩ := (h.stage i).exists_next (d := d)
  exact ⟨_, c, phase, hn, rfl⟩

/-- Work that is done stays done. -/
theorem Invariant.complete_step (h : Invariant s) (hs : Step d s i s') (hc : Complete s.fields) :
    Complete s'.fields := by
  obtain ⟨c, phase, hn, rfl⟩ := hs
  exact hc.next (fun hbehind => (h.stage i).not_complete hbehind hc) hn

theorem Invariant.proper_iff_guarded (h : Invariant s) (hproper : Proper s) (hs : Step d s i s') :
    Proper s' ↔ Guarded s i := by
  have hcomplete := h.complete_step hs
  obtain ⟨c, phase, hn, rfl⟩ := hs
  constructor
  · intro hproper' hlost
    rw [← h.complete_iff hlost]
    rw [hlost] at hn
    obtain ⟨rfl, rfl⟩ := Prod.mk.inj (Option.some.inj hn)
    exact hproper' i (Function.update_self ..)
  · intro hguarded j hj
    dsimp only at hj ⊢
    rw [Function.update_apply] at hj
    split at hj
    · rcases h.returned hn hj with ⟨hlost, rfl⟩ | hc
      · exact (h.complete_iff hlost).2 (hguarded hlost)
      · exact hc
    · exact hcomplete (hproper j hj)

/-- **The runs in which `init` has done its work for every call that has returned**: no call whose
`compareAndSet` failed returns before the configuration is installed. -/
theorem returned_complete_iff {ls : List κ} :
    Run (fun s i s' => Step d s i s' ∧ Proper s') start ls s ↔
      Run (fun s i s' => Step d s i s' ∧ Guarded s i) start ls s := by
  refine Run.congr (I := fun s => Invariant s ∧ Proper s) ⟨invariant_start, ?_⟩
    (fun s i s' h => ?_) fun s i s' h hs => ⟨h.1.step hs.1, hs.2⟩
  · intro i hi
    cases hi
  · exact and_congr_right (h.1.proper_iff_guarded h.2)

/-- One thread has won and not begun; the call of the other returns. -/
theorem returned_incomplete : ¬ ∀ (ls : List Bool) (s : Threads Bool),
    Run (Step ⟨"curator-dont-log-connection-problems", none, ["localhost:2181"], none⟩) start ls s →
    Proper s := by
  intro h
  let d : Deployment := ⟨"curator-dont-log-connection-problems", none, ["localhost:2181"], none⟩
  have hnil : Run (Step d) (start : Threads Bool) [] start := .nil
  have hwon := (hnil.snoc (l := false) ⟨_, _, rfl, rfl⟩).snoc (l := false) ⟨_, _, rfl, rfl⟩
  have hlost := (hwon.snoc (l := true) ⟨_, _, rfl, rfl⟩).snoc (l := true) ⟨_, _, rfl, rfl⟩
  have hrun := hlost.snoc (l := true) ⟨_, _, rfl, rfl⟩
  obtain ⟨source, hsource, -⟩ := (h _ _ hrun true rfl).source
  cases hsource

end Threads

end BaseService.Configuration
