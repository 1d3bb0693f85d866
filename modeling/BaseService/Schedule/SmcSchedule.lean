import BaseService.Notify.Consumers

/-!
# Schedules in the processes that execute them

`SmcDiscovery.register` and `SmcSchedule.execute`, and the messages that fire a schedule.

* `Process`, `Call`, `Process.run` : the static state of a process and the calls that change it;
* `excute` : the listener of a schedule;
* `Copies` : what NSQ does with a message, one copy a channel; `executions` : the tasks it runs;
* `Reaches` : every message reaches its addressees;
* `After.run`, `executes_iff` : the channels of a process are those its calls of `execute` have found.
-/

namespace BaseService.Schedule
open Notify

/-- A `ConsumerListener` of `SmcSchedule.execute`, an object of its own for every call. -/
structure Listener (T : Type) where
  ref : Nat
  scheduleListener : T
  deriving DecidableEq, Repr

/-- `ServiceInstance<String>`. -/
structure ServiceInstance where
  name : String
  address : Option String
  port : Int
  deriving DecidableEq, Repr

/-- The topic of a schedule. -/
def topic (scheduleName : String) : String := "SCHEDULE_" ++ scheduleName

structure DiscoveryException where
  message : String
  deriving DecidableEq, Repr

/-- The static fields of `Notify`, `SmcDiscovery` and `Consumers` in one process. `localIP` is what
`Notify.getLocalIP()` finds there. -/
structure Process (T : Type) where
  localIP : String
  identification : Host
  serviceInstance : Option ServiceInstance
  registry : Consumers.Registry (Listener T)
  /-- How many listeners have been created. -/
  created : Nat

namespace Process
variable {T : Type}

def start (localIP : String) : Process T :=
  ⟨localIP, ⟨some localIP, 0⟩, none, Consumers.Registry.init, 0⟩

/-- `Notify.init`. -/
def init (this : Process T) (port : Int) : Process T :=
  { this with identification := { this.identification with port := port } }

/-- `DiscoveryUtil.register`, which returns null only if the instance could not be built. -/
def discoveryRegister (groupName : String) (address : Option String) (port : Int) (built : Bool) :
    Option ServiceInstance :=
  if built then some ⟨groupName, address, port⟩ else none

/-- The overload with an address. The literal `"address"` is what it compares. -/
def registerAddress (this : Process T) (groupName : String) (address : Option String) (port : Int)
    (built : Bool) : Process T × Except DiscoveryException Unit :=
  if "address" = "127.0.0.1" ∨ "address" = "localhost" then
    (this, .error ⟨"The ip address " ++ address.getD "null" ++ " unusable."⟩)
  else
    match discoveryRegister groupName address port built with
    | none => (this, .error ⟨"[register]:Regist server instance to zookeeper error."⟩)
    | some serviceInstance => ({ this with serviceInstance := some serviceInstance }, .ok ())

def register (this : Process T) (groupName : String) (port : Int) (built : Bool) :
    Process T × Except DiscoveryException Unit :=
  if "address" = "127.0.0.1" ∨ "address" = "localhost" then
    (this, .error ⟨"This machine hasn't set ip address.Please set ip address first or invoke " ++
      "SmcDiscovery.register(groupName, address, port) method to complete register."⟩)
  else
    let this := this.init port
    match discoveryRegister groupName (some this.localIP) port built with
    | none => (this, .error ⟨"[register]:Regist server instance to zookeeper error."⟩)
    | some serviceInstance => ({ this with serviceInstance := some serviceInstance }, .ok ())

variable [DecidableEq T]

/-- `SmcSchedule.execute`; without the argument `retry` it is 3. -/
def execute (this : Process T) (scheduleName : String) (scheduleListener : T) (retry : Int) :
    Process T :=
  let listener : Listener T := ⟨this.created, scheduleListener⟩
  let call := Consumers.Registration.registerTopic (topic scheduleName) listener retry
  { this with
    registry := Consumers.register this.registry call.topic
      (call.group this.identification.toString) call.listener call.retry
    created := this.created + 1 }

end Process

inductive Call (T : Type)
  | init (port : Int)
  | register (groupName : String) (port : Int) (built : Bool)
  | registerAddress (groupName : String) (address : Option String) (port : Int) (built : Bool)
  | execute (scheduleName : String) (scheduleListener : T) (retry : Int)

def Call.apply {T : Type} [DecidableEq T] (this : Process T) : Call T → Process T
  | init port => this.init port
  | register groupName port built => (this.register groupName port built).1
  | registerAddress groupName address port built =>
    (this.registerAddress groupName address port built).1
  | execute scheduleName scheduleListener retry => this.execute scheduleName scheduleListener retry

/-- The process after `calls`. -/
def Process.run {T : Type} [DecidableEq T] (localIP : String) (calls : List (Call T)) : Process T :=
  calls.foldl Call.apply (start localIP)

/-! ## The listener of a schedule -/

/-- How `ScheduleListener.executeTask` ends. -/
inductive TaskResult
  | returned (accepted : Bool)
  | threw
  deriving DecidableEq, Repr

/-- What a call of `excute` did: the keys it gave to `executeTask`, and its result. -/
structure Excuted where
  keys : List (Option String)
  accepted : Bool

def runTask (executeTask : Option String → TaskResult) (key : Option String) : Excuted :=
  ⟨[key], match executeTask key with
    | .returned accepted => accepted
    | .threw => false⟩

def excute (serviceInstance : Option ServiceInstance) (executeTask : Option String → TaskResult)
    (message : Message) : Excuted :=
  match MessageType.getMessageTypeByCode message.t with
  | none => ⟨[], true⟩
  | some .SCHEDULE_SINGLE_EXECUTE =>
    match serviceInstance with
    | none => ⟨[], true⟩
    | some serviceInstance =>
      if serviceInstance.address = message.h ∧ message.p = serviceInstance.port then
        runTask executeTask message.m
      else ⟨[], true⟩
  | some .SCHEDULE_ALL_EXECUTE => runTask executeTask message.m
  | some _ => ⟨[], true⟩

/-! ## What NSQ does with a message -/

/-- A consumer of `process`, registered with `retry`, gets a message. `order` is the order in which
its callback goes through the listeners, and `executeTask` what their tasks do. -/
structure Delivery (ι T : Type) where
  process : ι
  message : NSQMessage
  retry : Int
  order : List (Listener T)
  executeTask : Listener T → Option String → TaskResult

section
variable {ι T : Type}

/-- What the listener `l` does with the message. -/
def Delivery.excute (d : Delivery ι T) (procs : ι → Process T) (message : Message)
    (l : Listener T) : Excuted :=
  Schedule.excute (procs d.process).serviceInstance (d.executeTask l) message

def Delivery.handled (d : Delivery ι T) (procs : ι → Process T) (message : Message) :
    Consumers.Handled (Listener T) :=
  Consumers.excuteAll (fun l _ => (d.excute procs message l).accepted) (some message) d.retry
    d.message d.order

/-- The tasks that the delivery runs, with their keys. -/
def Delivery.tasks (d : Delivery ι T) (procs : ι → Process T) (message : Message) :
    List (Listener T × Option String) :=
  (d.handled procs message).invoked.flatMap fun l =>
    (d.excute procs message l).keys.map fun key => (l, key)

/-- The channels of the process for the schedule. -/
def Process.channels (this : Process T) (scheduleName : String) : List String :=
  Consumers.channels this.registry (topic scheduleName)

/-- The listeners of the process for the schedule. -/
def Process.listeners (this : Process T) (scheduleName : String) : List (Listener T) :=
  (this.registry.listenerList (topic scheduleName)).getD []

/-- A consumer of the channel `c` gets the message. -/
def Delivers (procs : ι → Process T) (scheduleName c : String) (d : Delivery ι T) : Prop :=
  (∃ consumer ∈ (procs d.process).registry.started, consumer.topic = topic scheduleName ∧
    consumer.group = c ∧ consumer.retry = d.retry) ∧
  d.order.Perm ((procs d.process).listeners scheduleName)

/-- Each channel has one copy of the message, delivered again when it has been requeued. -/
structure Copies (procs : ι → Process T) (scheduleName : String) (message : Message)
    (deliveries : String → List (Delivery ι T)) : Prop where
  copied : ∀ p, ∀ c ∈ (procs p).channels scheduleName, deliveries c ≠ []
  delivers : ∀ c, ∀ d ∈ deliveries c, Delivers procs scheduleName c d
  requeued : ∀ c, ∀ d ∈ (deliveries c).dropLast,
    (d.handled procs message).commands = [.REQ d.message.id 0]

/-- The tasks that run in the process `p`. -/
def executions [DecidableEq ι] (procs : ι → Process T) (scheduleName : String) (message : Message)
    (deliveries : String → List (Delivery ι T)) (p : ι) : List (Listener T × Option String) :=
  ((procs p).channels scheduleName).flatMap fun c =>
    ((deliveries c).filter fun d => d.process = p).flatMap fun d => d.tasks procs message

/-- Every message reaches its addressees. -/
structure Reaches [DecidableEq ι] [DecidableEq T] (procs : ι → Process T) (scheduleName : String) :
    Prop where
  single : ∀ (message : Message) p serviceInstance,
    message.t = some MessageType.SCHEDULE_SINGLE_EXECUTE.code →
    (procs p).serviceInstance = some serviceInstance → message.h = serviceInstance.address →
    message.p = serviceInstance.port →
    ∀ deliveries, Copies procs scheduleName message deliveries →
      executions procs scheduleName message deliveries p ≠ [] ∧
        ∀ q, q ≠ p → executions procs scheduleName message deliveries q = []
  all : ∀ message : Message, message.t = some MessageType.SCHEDULE_ALL_EXECUTE.code →
    ∀ deliveries, Copies procs scheduleName message deliveries →
      ∀ p, executions procs scheduleName message deliveries p ≠ [] ∧
        ((∀ c, ∀ d ∈ deliveries c, ∀ l key, d.executeTask l key = .returned true) →
          ∀ l ∈ (procs p).listeners scheduleName,
            (executions procs scheduleName message deliveries p).count (l, message.m) = 1)

end

/-! ## The channel of a call -/

section
variable {T : Type}

/-- The port of `Notify.identification` after `calls`. -/
def portAfter (calls : List (Call T)) : Int :=
  calls.foldl (fun port call => match call with
    | .init p | .register _ p _ => p
    | _ => port) 0

/-- A call of `execute` for the schedule finds `Notify.identification` with the text `c`. -/
def Executes (localIP : String) (calls : List (Call T)) (scheduleName c : String) : Prop :=
  ∃ before scheduleListener retry,
    before ++ [.execute scheduleName scheduleListener retry] <+: calls ∧
      c = (Host.mk (some localIP) (portAfter before)).toString

theorem executes_snoc (localIP : String) (calls : List (Call T)) (call : Call T)
    (scheduleName c : String) :
    Executes localIP (calls ++ [call]) scheduleName c ↔ Executes localIP calls scheduleName c ∨
      (∃ scheduleListener retry, call = .execute scheduleName scheduleListener retry) ∧
        c = (Host.mk (some localIP) (portAfter calls)).toString := by
  constructor
  · rintro ⟨before, l, retry, hstart, hc⟩
    rcases List.prefix_concat_iff.mp hstart with heq | hstart
    · obtain ⟨rfl, hcall⟩ := List.append_inj' heq rfl
      exact Or.inr ⟨⟨l, retry, (List.singleton_inj.mp hcall).symm⟩, hc⟩
    · exact Or.inl ⟨before, l, retry, hstart, hc⟩
  · rintro (⟨before, l, retry, hstart, hc⟩ | ⟨⟨l, retry, rfl⟩, hc⟩)
    · exact ⟨before, l, retry, hstart.trans (List.prefix_append _ _), hc⟩
    · exact ⟨calls, l, retry, List.prefix_rfl, hc⟩

variable [DecidableEq T]

/-- What the calls of a process have left in its static fields. -/
structure After (ip : String) (calls : List (Call T)) (this : Process T)
    (events : List (Consumers.Event (Listener T))) : Prop where
  localIP : this.localIP = ip
  identification : this.identification = ⟨some ip, portAfter calls⟩
  tables : Consumers.Tables "" events this.registry
  executes : ∀ scheduleName c, (∃ l, Consumers.Registered "" events (topic scheduleName) c l) ↔
    Executes ip calls scheduleName c

/-- A call other than `execute` changes the port at most. -/
theorem After.other {ip : String} {calls : List (Call T)} {this : Process T}
    {events : List (Consumers.Event (Listener T))} (h : After ip calls this events) {call : Call T}
    (hcall : ∀ scheduleName scheduleListener retry,
      call ≠ .execute scheduleName scheduleListener retry)
    (hip : (call.apply this).localIP = this.localIP)
    (hid : (call.apply this).identification = ⟨some ip, portAfter (calls ++ [call])⟩)
    (hregistry : (call.apply this).registry = this.registry) :
    After ip (calls ++ [call]) (call.apply this) events := by
  refine ⟨hip.trans h.localIP, hid, ?_, fun scheduleName c => ?_⟩
  · rw [hregistry]
    exact h.tables
  · rw [h.executes, executes_snoc]
    refine (or_iff_left ?_).symm
    rintro ⟨⟨l, retry, hc⟩, -⟩
    exact hcall _ _ _ hc

omit [DecidableEq T] in
theorem portAfter_snoc (calls : List (Call T)) (call : Call T) :
    portAfter (calls ++ [call]) = match call with
      | .init p | .register _ p _ => p
      | _ => portAfter calls := by
  rw [portAfter, List.foldl_append]
  cases call <;> rfl

omit [DecidableEq T] in
theorem register_kept (this : Process T) (groupName : String) (port : Int) (built : Bool) :
    (this.register groupName port built).1.localIP = this.localIP ∧
      (this.register groupName port built).1.identification =
        { this.identification with port := port } ∧
      (this.register groupName port built).1.registry = this.registry := by
  unfold Process.register
  rw [if_neg (by decide)]
  cases built <;> exact ⟨rfl, rfl, rfl⟩

omit [DecidableEq T] in
theorem registerAddress_kept (this : Process T) (groupName : String) (address : Option String)
    (port : Int) (built : Bool) :
    (this.registerAddress groupName address port built).1.localIP = this.localIP ∧
      (this.registerAddress groupName address port built).1.identification = this.identification ∧
      (this.registerAddress groupName address port built).1.registry = this.registry := by
  unfold Process.registerAddress
  rw [if_neg (by decide)]
  cases built <;> exact ⟨rfl, rfl, rfl⟩

theorem After.run (ip : String) (calls : List (Call T)) :
    ∃ events, After ip calls (Process.run ip calls) events := by
  induction calls using List.reverseRecOn with
  | nil =>
    have hnil : Run (Consumers.Step "" Consumers.plainText fun _ _ => true)
      (Consumers.Registry.init : Consumers.Registry (Listener T)) [] Consumers.Registry.init := .nil
    refine ⟨[], rfl, rfl, Consumers.Tables.run hnil, fun scheduleName c => iff_of_false ?_ ?_⟩
    · rintro ⟨l, r, hr, -⟩
      cases hr
    · rintro ⟨before, l, retry, hstart, -⟩
      simp at hstart
  | append_singleton calls call ih =>
    obtain ⟨events, h⟩ := ih
    have hrun : Process.run ip (calls ++ [call]) = call.apply (Process.run ip calls) := by
      rw [Process.run, List.foldl_append]
      rfl
    rw [hrun]
    generalize Process.run ip calls = this at h
    cases call with
    | init port =>
      refine ⟨events, h.other (fun _ _ _ hc => by cases hc) rfl ?_ rfl⟩
      rw [portAfter_snoc, Call.apply, Process.init, h.identification]
    | register groupName port built =>
      obtain ⟨hip, hid, hregistry⟩ := register_kept this groupName port built
      refine ⟨events, h.other (fun _ _ _ hc => by cases hc) hip ?_ hregistry⟩
      rw [portAfter_snoc, Call.apply, hid, h.identification]
    | registerAddress groupName address port built =>
      obtain ⟨hip, hid, hregistry⟩ := registerAddress_kept this groupName address port built
      refine ⟨events, h.other (fun _ _ _ hc => by cases hc) hip ?_ hregistry⟩
      rw [portAfter_snoc, Call.apply, hid, h.identification]
    | execute scheduleName scheduleListener retry =>
      -- the call is registered with the group it has found
      let r : Consumers.Registration (Listener T) := .register (topic scheduleName)
        this.identification.toString ⟨this.created, scheduleListener⟩ retry
      refine ⟨events ++ [.registered r], h.localIP, ?_, h.tables.register r, fun name c => ?_⟩
      · rw [portAfter_snoc]
        exact h.identification
      · simp only [Consumers.registered_snoc, exists_or]
        rw [h.executes, executes_snoc]
        refine or_congr_right ⟨?_, ?_⟩
        · rintro ⟨l, ht, hc, -⟩
          obtain rfl : scheduleName = name := (String.append_right_inj _).mp ht
          exact ⟨⟨_, _, rfl⟩, by rw [← h.identification]; exact hc.symm⟩
        · rintro ⟨⟨l, retry', hcall⟩, hc⟩
          cases hcall
          exact ⟨_, rfl, by rw [hc, ← h.identification]; rfl, rfl⟩

/-- The channels are those of the calls of `execute`. -/
theorem executes_iff (ip : String) (calls : List (Call T)) (scheduleName c : String) :
    c ∈ (Process.run ip calls).channels scheduleName ↔ Executes ip calls scheduleName c := by
  obtain ⟨events, h⟩ := After.run ip calls
  rw [← h.executes]
  exact Consumers.mem_channels h.tables _ _

/-- A process with a channel has a listener. -/
theorem listeners_ne_nil {ip : String} {calls : List (Call T)} {scheduleName c : String}
    (hc : c ∈ (Process.run ip calls).channels scheduleName) :
    (Process.run ip calls).listeners scheduleName ≠ [] := by
  obtain ⟨events, h⟩ := After.run ip calls
  obtain ⟨l, hl⟩ := (Consumers.mem_channels h.tables _ _).mp hc
  exact List.ne_nil_of_mem ((h.tables.listeners _ l).mpr ⟨c, hl⟩)

theorem listeners_nodup (ip : String) (calls : List (Call T)) (scheduleName : String) :
    ((Process.run ip calls).listeners scheduleName).Nodup := by
  obtain ⟨events, h⟩ := After.run ip calls
  exact h.tables.nodup _

end

end BaseService.Schedule
