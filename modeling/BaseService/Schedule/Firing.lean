import BaseService.Schedule.SmcSchedule

/-!
# When a firing reaches its addressees

* `excute_all`, `excute_single`, `tasks_run`, `tasks_accepted` : what a delivery runs;
* `exists_copies` : deliveries to chosen owners of the channels;
* `reaches_iff` : every message reaches its addressees exactly if the processes have channels of
  their own, one each.
-/

namespace BaseService.Schedule
open Notify

section
variable {ι T : Type}

/-! ## A delivery -/

theorem excute_all (serviceInstance : Option ServiceInstance)
    (executeTask : Option String → TaskResult) {message : Message}
    (h : message.t = some MessageType.SCHEDULE_ALL_EXECUTE.code) :
    excute serviceInstance executeTask message = runTask executeTask message.m := by
  unfold excute
  rw [h, MessageType.getMessageTypeByCode_code]

theorem excute_single (serviceInstance : Option ServiceInstance)
    (executeTask : Option String → TaskResult) {message : Message}
    (h : message.t = some MessageType.SCHEDULE_SINGLE_EXECUTE.code) :
    excute serviceInstance executeTask message =
      if ∃ i, serviceInstance = some i ∧ i.address = message.h ∧ message.p = i.port then
        runTask executeTask message.m
      else ⟨[], true⟩ := by
  unfold excute
  rw [h, MessageType.getMessageTypeByCode_code]
  cases serviceInstance with
  | none => simp
  | some i => simp

variable {procs : ι → Process T} {message : Message} {d : Delivery ι T}

/-- The first listener runs its task, whatever comes of it. -/
theorem tasks_run (horder : d.order ≠ [])
    (hrun : ∀ l, d.excute procs message l = runTask (d.executeTask l) message.m) :
    d.tasks procs message ≠ [] := by
  obtain ⟨l, ls, hl⟩ := List.exists_cons_of_ne_nil horder
  have hmem : l ∈ (d.handled procs message).invoked := by
    rw [Delivery.handled, hl, Consumers.excuteAll]
    exact List.mem_cons_self
  have htask : (l, message.m) ∈ d.tasks procs message := by
    rw [Delivery.tasks, List.mem_flatMap]
    refine ⟨l, hmem, ?_⟩
    rw [hrun]
    exact List.mem_singleton.mpr rfl
  exact List.ne_nil_of_mem htask

theorem tasks_ignored (h : ∀ l, d.excute procs message l = ⟨[], true⟩) :
    d.tasks procs message = [] := by
  rw [Delivery.tasks, List.flatMap_eq_nil_iff]
  intro l _
  rw [h]
  rfl

theorem handled_accepted (h : ∀ l, (d.excute procs message l).accepted = true) :
    d.handled procs message = ⟨d.order, [.FIN d.message.id], .ok ()⟩ :=
  Consumers.excuteAll_accepted fun l _ => h l

/-- Tasks that succeed: each listener has run its task once. -/
theorem tasks_accepted
    (hrun : ∀ l, d.excute procs message l = runTask (d.executeTask l) message.m)
    (haccepted : ∀ l key, d.executeTask l key = .returned true) :
    d.tasks procs message = d.order.map fun l => (l, message.m) := by
  have h : ∀ l, (d.excute procs message l).accepted = true := fun l => by
    rw [hrun, runTask, haccepted]
  rw [Delivery.tasks, handled_accepted h, List.map_eq_flatMap]
  refine List.flatMap_congr fun l _ => ?_
  rw [hrun, runTask]
  rfl

/-! ## The executions of a process -/

variable [DecidableEq ι] {scheduleName c : String} {deliveries : String → List (Delivery ι T)} {p : ι}

theorem executions_ne_nil (hc : c ∈ (procs p).channels scheduleName) (hd : d ∈ deliveries c)
    (hp : d.process = p) (ht : d.tasks procs message ≠ []) :
    executions procs scheduleName message deliveries p ≠ [] := by
  obtain ⟨task, htask⟩ := List.exists_mem_of_ne_nil _ ht
  have hmem : task ∈ executions procs scheduleName message deliveries p := by
    simp only [executions, List.mem_flatMap]
    exact ⟨c, hc, d, List.mem_filter.mpr ⟨hd, by simpa using hp⟩, htask⟩
  exact List.ne_nil_of_mem hmem

theorem executions_eq_nil
    (h : ∀ c, ∀ d ∈ deliveries c, d.process = p → d.tasks procs message = []) :
    executions procs scheduleName message deliveries p = [] := by
  simp only [executions, List.flatMap_eq_nil_iff, List.mem_filter, decide_eq_true_eq, and_imp]
  exact fun c _ d hd hp => h c d hd hp

omit [DecidableEq ι] in
/-- A delivery goes to a process with the channel. -/
theorem Delivers.channel (h : Delivers procs scheduleName c d) :
    c ∈ (procs d.process).channels scheduleName := by
  obtain ⟨⟨consumer, hmem, ht, hc, -⟩, -⟩ := h
  rw [Process.channels, Consumers.channels, List.mem_dedup, List.mem_map]
  exact ⟨consumer, List.mem_filter.mpr ⟨hmem, by simpa using ht⟩, hc⟩

omit [DecidableEq ι] in
theorem exists_consumer (hc : c ∈ (procs p).channels scheduleName) :
    ∃ consumer ∈ (procs p).registry.started, consumer.topic = topic scheduleName ∧
      consumer.group = c := by
  rw [Process.channels, Consumers.channels, List.mem_dedup, List.mem_map] at hc
  obtain ⟨consumer, hmem, hc⟩ := hc
  obtain ⟨hmem, ht⟩ := List.mem_filter.mp hmem
  exact ⟨consumer, hmem, by simpa using ht, hc⟩

omit [DecidableEq ι] in
/-- NSQ may hand the copies to any owners of their channels, once if the tasks succeed. -/
theorem exists_copies (procs : ι → Process T) (scheduleName : String) (message : Message)
    {owner : String → ι} (howner : ∀ p, ∀ c ∈ (procs p).channels scheduleName,
      c ∈ (procs (owner c)).channels scheduleName) :
    ∃ deliveries, Copies procs scheduleName message deliveries ∧
      (∀ c, ∀ d ∈ deliveries c, ∀ l key, d.executeTask l key = .returned true) ∧
      ∀ c, ∀ d ∈ deliveries c, d.process = owner c := by
  have hone : ∀ c, ∃ ds : List (Delivery ι T),
      (∀ p, c ∈ (procs p).channels scheduleName → ds ≠ []) ∧
      (∀ d ∈ ds, Delivers procs scheduleName c d) ∧ ds.dropLast = [] ∧
      (∀ d ∈ ds, ∀ l key, d.executeTask l key = .returned true) ∧
      ∀ d ∈ ds, d.process = owner c := by
    intro c
    by_cases h : ∃ p, c ∈ (procs p).channels scheduleName
    · obtain ⟨p, hp⟩ := h
      obtain ⟨consumer, hmem, ht, hc⟩ := exists_consumer (howner p c hp)
      let d : Delivery ι T := ⟨owner c, ⟨[], 1, 0, none⟩, consumer.retry,
        (procs (owner c)).listeners scheduleName, fun _ _ => .returned true⟩
      refine ⟨[d], fun _ _ => List.cons_ne_nil _ _, ?_, rfl, ?_, ?_⟩ <;>
        rw [List.forall_mem_singleton]
      · exact ⟨⟨consumer, hmem, ht, hc, rfl⟩, List.Perm.refl _⟩
      · exact fun _ _ => rfl
    · have hnil : ∀ d : Delivery ι T, d ∉ [] := fun _ => List.not_mem_nil
      exact ⟨[], fun p hp => absurd ⟨p, hp⟩ h, fun d hd => absurd hd (hnil d), rfl,
        fun d hd => absurd hd (hnil d), fun d hd => absurd hd (hnil d)⟩
  choose deliveries hcopied hdelivers hlast haccepted hprocess using hone
  refine ⟨deliveries, ⟨fun p c => hcopied c p, hdelivers, fun c d hd => ?_⟩, haccepted, hprocess⟩
  rw [hlast c] at hd
  cases hd

omit [DecidableEq ι] in
/-- A channel whose tasks succeed has one delivery. -/
theorem Copies.single (h : Copies procs scheduleName message deliveries)
    (hc : c ∈ (procs p).channels scheduleName)
    (haccepted : ∀ d ∈ deliveries c, ∀ l, (d.excute procs message l).accepted = true) :
    ∃ d, deliveries c = [d] := by
  have hne := h.copied p c hc
  have hlast : (deliveries c).dropLast = [] := by
    refine List.eq_nil_iff_forall_not_mem.mpr fun d hd => ?_
    have hreq := h.requeued c d hd
    rw [handled_accepted (haccepted d (List.dropLast_subset _ hd))] at hreq
    cases hreq
  have hsplit := List.dropLast_append_getLast hne
  rw [hlast] at hsplit
  exact ⟨(deliveries c).getLast hne, hsplit.symm⟩

end

/-! ## The processes of a schedule -/

section
variable {ι T : Type} [DecidableEq ι] [DecidableEq T]

/-- The processes after their calls. -/
def system (localIP : ι → String) (calls : ι → List (Call T)) (p : ι) : Process T :=
  Process.run (localIP p) (calls p)

variable {localIP : ι → String} {calls : ι → List (Call T)} {scheduleName : String}

/-- Every process has a channel of its own, and one only. -/
def OwnChannels (localIP : ι → String) (calls : ι → List (Call T)) (scheduleName : String) : Prop :=
  ∀ p q c c', Executes (localIP p) (calls p) scheduleName c →
    Executes (localIP q) (calls q) scheduleName c' → (c = c' ↔ p = q)

omit [DecidableEq ι] in
/-- A delivery on the channel of a process goes to it. -/
theorem OwnChannels.process (h : OwnChannels localIP calls scheduleName) {c : String} {p : ι}
    (hc : Executes (localIP p) (calls p) scheduleName c) {d : Delivery ι T}
    (hd : Delivers (system localIP calls) scheduleName c d) : d.process = p :=
  (h _ _ c c ((executes_iff _ _ _ _).mp hd.channel) hc).mp rfl

omit [DecidableEq ι] in
theorem order_ne_nil {c : String} {d : Delivery ι T}
    (hd : Delivers (system localIP calls) scheduleName c d) : d.order ≠ [] := by
  intro horder
  have hperm := hd.2
  rw [horder] at hperm
  exact listeners_ne_nil hd.channel hperm.nil_eq.symm

variable {message : Message} {deliveries : String → List (Delivery ι T)}

/-- An addressee that runs its task for every delivery. -/
theorem OwnChannels.executed (h : OwnChannels localIP calls scheduleName) {p : ι}
    (hexecutes : ∃ c, Executes (localIP p) (calls p) scheduleName c)
    (hcopies : Copies (system localIP calls) scheduleName message deliveries)
    (hrun : ∀ d : Delivery ι T, d.process = p →
      ∀ l, d.excute (system localIP calls) message l = runTask (d.executeTask l) message.m) :
    executions (system localIP calls) scheduleName message deliveries p ≠ [] := by
  obtain ⟨c, hc⟩ := hexecutes
  have hchannel : c ∈ (system localIP calls p).channels scheduleName := (executes_iff _ _ _ _).mpr hc
  obtain ⟨d, hd⟩ := List.exists_mem_of_ne_nil _ (hcopies.copied p c hchannel)
  have hdelivers := hcopies.delivers c d hd
  have hp := h.process hc hdelivers
  exact executions_ne_nil hchannel hd hp (tasks_run (order_ne_nil hdelivers) (hrun d hp))

omit [DecidableEq ι] in
/-- The channels of a process with one channel. -/
theorem OwnChannels.channels (h : OwnChannels localIP calls scheduleName) {c : String} {p : ι}
    (hc : Executes (localIP p) (calls p) scheduleName c) :
    (system localIP calls p).channels scheduleName = [c] := by
  have hmem : c ∈ (system localIP calls p).channels scheduleName := (executes_iff _ _ _ _).mpr hc
  have hnodup : ((system localIP calls p).channels scheduleName).Nodup := List.nodup_dedup _
  have hall : ∀ c' ∈ (system localIP calls p).channels scheduleName, c' = c := fun c' hc' =>
    (h p p c' c ((executes_iff _ _ _ _).mp hc') hc).mpr rfl
  rw [List.eq_replicate_of_mem hall] at hnodup hmem ⊢
  rw [List.nodup_replicate] at hnodup
  have hpos := List.length_pos_of_mem hmem
  rw [List.length_replicate] at hpos
  rw [show ((system localIP calls p).channels scheduleName).length = 1 by omega]
  rfl

/-- On a channel whose copies go to `p`, tasks that succeed run once. -/
theorem count_channel (hcopies : Copies (system localIP calls) scheduleName message deliveries)
    (hrun : ∀ (d : Delivery ι T) l,
      d.excute (system localIP calls) message l = runTask (d.executeTask l) message.m)
    {p : ι} {c : String} (hc : c ∈ (system localIP calls p).channels scheduleName)
    (hprocess : ∀ d ∈ deliveries c, d.process = p)
    (haccepted : ∀ d ∈ deliveries c, ∀ l key, d.executeTask l key = .returned true)
    {l : Listener T} (hl : l ∈ (system localIP calls p).listeners scheduleName) :
    (((deliveries c).filter fun d => d.process = p).flatMap fun d =>
      d.tasks (system localIP calls) message).count (l, message.m) = 1 := by
  obtain ⟨d, hd⟩ : ∃ d, deliveries c = [d] := by
    refine hcopies.single hc fun d hd l => ?_
    rw [hrun, runTask, haccepted d hd]
  have hmem : d ∈ deliveries c := by rw [hd]; exact List.mem_singleton.mpr rfl
  have hp := hprocess d hmem
  rw [hd, List.filter_cons_of_pos (by simpa using hp), List.filter_nil, List.flatMap_singleton,
    tasks_accepted (hrun d) (haccepted d hmem),
    List.count_map_of_injective _ _ (Prod.mk_left_injective message.m),
    (hcopies.delivers c d hmem).2.count_eq, hp]
  exact List.count_eq_one_of_mem (listeners_nodup _ _ _) hl

theorem reaches_of_own (h : OwnChannels localIP calls scheduleName)
    (hexecutes : ∀ p, ∃ c, Executes (localIP p) (calls p) scheduleName c)
    (hdistinct : ∀ p q i j, (system localIP calls p).serviceInstance = some i →
      (system localIP calls q).serviceInstance = some j → i.address = j.address →
      i.port = j.port → p = q) :
    Reaches (system localIP calls) scheduleName := by
  constructor
  · intro message p i ht hi haddress hport deliveries hcopies
    refine ⟨h.executed (hexecutes p) hcopies fun d hp l => ?_, fun q hq => ?_⟩
    · rw [Delivery.excute, excute_single _ _ ht, hp, if_pos ⟨i, hi, haddress.symm, hport⟩]
    · refine executions_eq_nil fun c d _ hd => tasks_ignored fun l => ?_
      rw [Delivery.excute, excute_single _ _ ht, hd, if_neg]
      rintro ⟨j, hj, hj', hport'⟩
      exact hq (hdistinct p q i j hi hj (haddress.symm.trans hj'.symm) (hport.symm.trans hport')).symm
  · intro message ht deliveries hcopies p
    have hrun : ∀ (d : Delivery ι T) l,
        d.excute (system localIP calls) message l = runTask (d.executeTask l) message.m := fun d l => by
      rw [Delivery.excute, excute_all _ _ ht]
    refine ⟨h.executed (hexecutes p) hcopies fun d _ => hrun d, fun haccepted l hl => ?_⟩
    obtain ⟨c, hc⟩ := hexecutes p
    have hchannel : c ∈ (system localIP calls p).channels scheduleName :=
      (executes_iff _ _ _ _).mpr hc
    rw [executions, h.channels hc, List.flatMap_singleton]
    exact count_channel hcopies hrun hchannel
      (fun d hd => h.process hc (hcopies.delivers c d hd)) (haccepted c) hl

omit [DecidableEq ι] in
/-- NSQ can hand every copy for a channel of `q` to `q`. -/
theorem exists_owner (localIP : ι → String) (calls : ι → List (Call T)) (scheduleName : String)
    (q : ι) : ∃ owner : String → ι, (∀ p, ∀ c ∈ (system localIP calls p).channels scheduleName,
        c ∈ (system localIP calls (owner c)).channels scheduleName) ∧
      ∀ c ∈ (system localIP calls q).channels scheduleName, owner c = q := by
  have hone : ∀ c, ∃ p', (∀ p, c ∈ (system localIP calls p).channels scheduleName →
      c ∈ (system localIP calls p').channels scheduleName) ∧
      (c ∈ (system localIP calls q).channels scheduleName → p' = q) := by
    intro c
    by_cases hq : c ∈ (system localIP calls q).channels scheduleName
    · exact ⟨q, fun _ _ => hq, fun _ => rfl⟩
    · by_cases h : ∃ p, c ∈ (system localIP calls p).channels scheduleName
      · obtain ⟨p, hp⟩ := h
        exact ⟨p, fun _ _ => hp, fun hc => absurd hc hq⟩
      · exact ⟨q, fun p hp => absurd ⟨p, hp⟩ h, fun _ => rfl⟩
  choose owner howner hq using hone
  exact ⟨owner, fun p c => howner c p, hq⟩

theorem own_of_reaches (h : Reaches (system localIP calls) scheduleName) :
    OwnChannels localIP calls scheduleName := by
  let message : Message := ⟨some MessageType.SCHEDULE_ALL_EXECUTE.code, none, 0, none⟩
  -- a process with several channels runs its tasks once for each
  have hsame : ∀ p c c', Executes (localIP p) (calls p) scheduleName c →
      Executes (localIP p) (calls p) scheduleName c' → c = c' := by
    intro p c c' hc hc'
    have hmem := (executes_iff _ _ _ _).mpr hc
    have hmem' := (executes_iff _ _ _ _).mpr hc'
    obtain ⟨owner, howner, hp⟩ := exists_owner localIP calls scheduleName p
    obtain ⟨deliveries, hcopies, haccepted, hprocess⟩ := exists_copies _ _ message howner
    obtain ⟨l, hl⟩ := List.exists_mem_of_ne_nil _ (listeners_ne_nil hmem)
    have hcount := (h.all message rfl deliveries hcopies p).2 haccepted l hl
    have hone : ∀ a ∈ (system localIP calls p).channels scheduleName,
        (List.count (l, message.m) ∘ fun c =>
          ((deliveries c).filter fun d => d.process = p).flatMap fun d =>
            d.tasks (system localIP calls) message) a = 1 := fun a ha =>
      count_channel hcopies (fun d l => by rw [Delivery.excute, excute_all _ _ rfl]) ha
        (fun d hd => (hprocess a d hd).trans (hp a ha)) (haccepted a) hl
    rw [executions, List.count_flatMap, List.map_congr_left hone, List.map_const',
      List.sum_replicate, smul_eq_mul, mul_one, List.length_eq_one_iff] at hcount
    obtain ⟨a, ha⟩ := hcount
    rw [system] at ha
    rw [ha, List.mem_singleton] at hmem hmem'
    rw [hmem, hmem']
  intro p q c c' hc hc'
  constructor
  · rintro rfl
    -- a process whose channel is another's may get nothing
    obtain ⟨owner, howner, hq⟩ := exists_owner localIP calls scheduleName q
    obtain ⟨deliveries, hcopies, -, hprocess⟩ := exists_copies _ _ message howner
    by_contra hne
    refine (h.all message rfl deliveries hcopies p).1 (executions_eq_nil fun a d hd hp => ?_)
    have ha : a ∈ (system localIP calls p).channels scheduleName := by
      rw [← hp]
      exact (hcopies.delivers a d hd).channel
    obtain rfl : a = c := hsame p a c ((executes_iff _ _ _ _).mp ha) hc
    have howned : owner a = q := hq a ((executes_iff _ _ _ _).mpr hc')
    exact absurd (hp.symm.trans ((hprocess a d hd).trans howned)) hne
  · rintro rfl
    exact hsame p c c' hc hc'

/-- **When every message reaches its addressees**: exactly if two calls of `execute` for the schedule
find the same identification when they are calls of one process. -/
theorem reaches_iff (localIP : ι → String) (calls : ι → List (Call T)) (scheduleName : String)
    (hexecutes : ∀ p, ∃ c, Executes (localIP p) (calls p) scheduleName c)
    (hdistinct : ∀ p q i j, (system localIP calls p).serviceInstance = some i →
      (system localIP calls q).serviceInstance = some j → i.address = j.address →
      i.port = j.port → p = q) :
    Reaches (system localIP calls) scheduleName ↔ OwnChannels localIP calls scheduleName :=
  ⟨own_of_reaches, fun h => reaches_of_own h hexecutes hdistinct⟩

end

/-! ### Two processes on one host -/

/-- Both processes register with their ports, then execute. -/
def ownPorts : Bool → List (Call Unit)
  | false => [.register "g" 1 true, .execute "s" () 3]
  | true => [.register "g" 2 true, .execute "s" () 3]

/-- The first process registers with an address, the second after `execute`. -/
def oneHost : Bool → List (Call Unit)
  | false => [.registerAddress "g" (some "10.0.0.1") 1 true, .execute "s" () 3]
  | true => [.execute "s" () 3, .register "g" 2 true]

theorem ownPorts_executes (p : Bool) (c : String) :
    Executes "10.0.0.1" (ownPorts p) "s" c ↔ c = if p then "10_0_0_1-2" else "10_0_0_1-1" := by
  rw [← executes_iff, show (Process.run "10.0.0.1" (ownPorts p)).channels "s" =
    [if p then "10_0_0_1-2" else "10_0_0_1-1"] by cases p <;> decide, List.mem_singleton]

theorem reaches_ownPorts : Reaches (system (fun _ => "10.0.0.1") ownPorts) "s" := by
  refine (reaches_iff (fun _ => "10.0.0.1") ownPorts "s"
    (fun p => ⟨_, (ownPorts_executes p _).mpr rfl⟩) ?_).mpr ?_
  · intro p q i j hi hj _ hport
    have hinstance : ∀ p, (system (fun _ => "10.0.0.1") ownPorts p).serviceInstance =
        some ⟨"g", some "10.0.0.1", if p then 2 else 1⟩ := by decide
    rw [hinstance] at hi hj
    cases hi
    cases hj
    revert hport
    cases p <;> cases q <;> decide
  · intro p q c c' hc hc'
    rw [(ownPorts_executes p c).mp hc, (ownPorts_executes q c').mp hc']
    cases p <;> cases q <;> decide

/-- What the first process is sent, the second gets, and ignores. -/
theorem firing_lost :
    (∀ p, ∃ c, Executes "10.0.0.1" (oneHost p) "s" c) ∧
      (∀ p, (system (fun _ => "10.0.0.1") oneHost p).serviceInstance =
        some ⟨"g", some "10.0.0.1", if p then 2 else 1⟩) ∧
      ¬ Reaches (system (fun _ => "10.0.0.1") oneHost) "s" := by
  have hchannels : ∀ p, (system (fun _ => "10.0.0.1") oneHost p).channels "s" = ["10_0_0_1-0"] := by
    decide
  refine ⟨fun p => ⟨"10_0_0_1-0", (executes_iff _ _ _ _).mp ?_⟩, by decide, fun h => ?_⟩
  · rw [show (Process.run "10.0.0.1" (oneHost p)).channels "s" = _ from hchannels p]
    exact List.mem_singleton.mpr rfl
  · let message : Message :=
      ⟨some MessageType.SCHEDULE_SINGLE_EXECUTE.code, some "10.0.0.1", 1, none⟩
    let d : Delivery Bool Unit :=
      ⟨true, ⟨[7], 1, 0, none⟩, 3, [⟨0, ()⟩], fun _ _ => .returned true⟩
    have hdelivers : Delivers (system (fun _ => "10.0.0.1") oneHost) "s" "10_0_0_1-0" d :=
      ⟨⟨⟨"SCHEDULE_s", "10_0_0_1-0", 3⟩, by decide, rfl, rfl, rfl⟩, by decide⟩
    have hcopies : Copies (system (fun _ => "10.0.0.1") oneHost) "s" message
        (fun c => if c = "10_0_0_1-0" then [d] else []) := by
      constructor
      · intro p c hc
        rw [hchannels, List.mem_singleton] at hc
        rw [if_pos hc]
        exact List.cons_ne_nil _ _
      · intro c d' hd'
        by_cases hc : c = "10_0_0_1-0"
        · rw [if_pos hc, List.mem_singleton] at hd'
          rw [hc, hd']
          exact hdelivers
        · rw [if_neg hc] at hd'
          cases hd'
      · intro c d' hd'
        by_cases hc : c = "10_0_0_1-0"
        · rw [if_pos hc] at hd'
          cases hd'
        · rw [if_neg hc] at hd'
          cases hd'
    refine (h.single message false ⟨"g", some "10.0.0.1", 1⟩ rfl (by decide) rfl rfl _ hcopies).1 ?_
    refine executions_eq_nil fun c d' hd' hfalse => ?_
    by_cases hc : c = "10_0_0_1-0"
    · rw [if_pos hc, List.mem_singleton] at hd'
      rw [hd'] at hfalse
      cases hfalse
    · rw [if_neg hc] at hd'
      cases hd'

end BaseService.Schedule
