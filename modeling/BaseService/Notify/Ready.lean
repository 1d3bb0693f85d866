import BaseService.Data.Runs
import BaseService.Notify.Incoming

/-!
# When nsqd may send

nsqd counts down the messages that it may send to a consumer; `RDY` sets the count again.

* `Flow`, `Step` : a connection of a consumer with nsqd, and what is under way between them;
* `sinceRDY` : how many messages have come since the last one for which `RDY` was sent;
* `Kept`, `step_kept` : the messages that may come, without a `RDY` under way;
* `flow_kept` : the consumer never runs dry.
-/

namespace BaseService.Notify.Netty

structure Flow (L : Type) where
  receiver : Receiver L
  /-- The messages that the consumer has got. -/
  received : Nat
  /-- What nsqd has not read. -/
  commands : List Written
  /-- What the consumer has not got. -/
  frames : List ServerFrame
  /-- The messages that nsqd may send. -/
  ready : Nat

namespace Flow
variable {L : Type}

/-- `createConnection`; `SUB` is not listed. -/
def start (receiver : Receiver L) : Flow L where
  receiver := receiver
  received := 0
  commands := [.command (.RDY Connection.messagesPerBatch.toInt)]
  frames := []
  ready := 0

def isMessage : ServerFrame → Bool
  | .message .. => true
  | _ => false

/-- What nsqd does with a command. -/
def read (c : Written) (ready : Nat) : Nat :=
  match c with
  | .command (.RDY count) => count.toNat
  | _ => ready

/-- A frame is given to `incoming`. -/
def receive (s : Flow L) (f : ServerFrame) (frames : List ServerFrame) : Flow L :=
  let receiver := (s.receiver.incoming f.decoded).1
  { s with
    receiver
    received := s.received + if isMessage f then 1 else 0
    commands := s.commands ++ receiver.written.drop s.receiver.written.length
    frames }

inductive Label
  | message
  | other
  | receive
  | read

inductive Step : Flow L → Label → Flow L → Prop
  | message {s : Flow L} {ready : Nat} (timestamp attempts : Nat) (id body : List Byte) :
    s.ready = ready + 1 →
      Step s .message { s with frames := s.frames ++ [.message timestamp attempts id body], ready }
  /-- Heartbeats and answers do not count. -/
  | other {s : Flow L} (f : ServerFrame) :
    isMessage f = false → Step s .other { s with frames := s.frames ++ [f] }
  | receive {s : Flow L} {f : ServerFrame} {frames : List ServerFrame} :
    s.frames = f :: frames → Step s .receive (s.receive f frames)
  | read {s : Flow L} {c : Written} {commands : List Written} :
    s.commands = c :: commands → Step s .read { s with commands, ready := read c s.ready }

/-! ## What may come -/

/-- How many messages have come since `RDY` was sent for one. -/
def sinceRDY (received : Nat) : Nat := if received % 200 > 100 then 0 else received % 200 + 1

theorem sinceRDY_le (received : Nat) : sinceRDY received ≤ 101 := by
  unfold sinceRDY
  split_ifs <;> omega

/-- A message for which no `RDY` is sent counts. -/
theorem sinceRDY_succ {received : Nat} (h : ¬ (received + 1) % 200 > 100) :
    sinceRDY received + 1 ≤ sinceRDY (received + 1) := by
  unfold sinceRDY
  split_ifs <;> omega

theorem requestMore_ofNat {n : Nat} (h : n < 2 ^ 63) :
    Connection.requestMore (Int64.ofNat n) = if n % 200 > 100 then [.RDY 200] else [] := by
  have htoInt : (Int64.ofNat n).toInt = n := Int64.toInt_ofNat_of_lt h
  have hmod : (Int64.ofNat n % Connection.messagesPerBatch).toInt = (n % 200 : Nat) := by
    rw [Int64.toInt_mod, htoInt]
    exact Int.ofNat_tmod n 200
  have hhalf : (Connection.messagesPerBatch / 2).toInt = 100 := by decide
  have hiff : Int64.ofNat n % Connection.messagesPerBatch > Connection.messagesPerBatch / 2 ↔
      n % 200 > 100 := by
    rw [gt_iff_lt, Int64.lt_iff_toInt_lt, hmod, hhalf]
    omega
  unfold Connection.requestMore
  simp only [hiff]
  rfl

section
variable (platform : Platform) (excute : L → Option Message → Bool) (listeners : List L) (retry : Int)

/-- The `RDY`s under way. -/
def requests (commands : List Written) : List Written := commands.filter fun c => !c.isAnswer

/-- The messages under way. -/
def messages (frames : List ServerFrame) : Nat := frames.countP isMessage

/-- Without a `RDY` under way, a batch is to come or has come since the last one. -/
structure Kept (s : Flow L) : Prop where
  callback : Registered platform excute listeners retry s.receiver
  total : s.receiver.connection.totalMessages = Int64.ofNat s.received
  batch : ∀ c ∈ requests s.commands, c = .command (.RDY 200)
  covered : s.received < 2 ^ 63 → requests s.commands = [] →
    200 ≤ s.ready + messages s.frames + sinceRDY s.received

variable {platform excute listeners retry} {s s' : Flow L}

theorem requests_answers {commands : List Command} (h : ∀ c ∈ commands, (Written.command c).isAnswer) :
    requests (commands.map .command) = [] := by
  rw [requests, List.filter_eq_nil_iff]
  rintro _ hmem
  obtain ⟨c, hc, rfl⟩ := List.mem_map.1 hmem
  simp [h c hc]

/-- The callback asks for nothing. -/
theorem isAnswer_excuteAll (excute : L → Option Message → Bool) (listeners : List L) (retry : Int)
    (msg : Option Message) (m : NSQMessage) :
    ∀ c ∈ (Consumers.excuteAll excute msg retry m listeners).commands, (Written.command c).isAnswer := by
  induction listeners with
  | nil => simp [Consumers.excuteAll, Written.isAnswer]
  | cons l ls ih =>
    unfold Consumers.excuteAll
    dsimp only
    split
    · exact ih
    · unfold Consumers.reject
      split
      · simp [Written.isAnswer]
      · split <;> simp [Written.isAnswer]

/-- What a message asks for. -/
theorem receive_message (h : Kept platform excute listeners retry s) (timestamp attempts : Nat)
    (id body : List Byte) (frames : List ServerFrame) :
    requests (s.receive (.message timestamp attempts id body) frames).commands =
      requests s.commands ++
        requests ((Connection.requestMore (Int64.ofNat (s.received + 1))).map .command) := by
  have htotal : s.receiver.connection.totalMessages + 1 = Int64.ofNat (s.received + 1) := by
    rw [h.total]
    exact (Int64.ofNat_add _ _).symm
  have hcommands := Connection.incoming_commands s.receiver.connection h.callback
    ⟨Bytes.signed 8 timestamp, Bytes.signed 2 attempts, id, body⟩
  have hwritten : (s.receiver.incoming (ServerFrame.message timestamp attempts id body).decoded).1.written =
      s.receiver.written ++ (s.receiver.connection.incoming
        ⟨Bytes.signed 8 timestamp, Bytes.signed 2 attempts, id, body⟩).2.commands.map .command := rfl
  have hcallback := requests_answers (isAnswer_excuteAll excute listeners retry
    (Message.convert platform (platform.newString body))
    ⟨id, Bytes.signed 2 attempts, Bytes.signed 8 timestamp, some body⟩)
  unfold receive
  dsimp only
  rw [hwritten, List.drop_left, hcommands, htotal, List.map_append]
  unfold requests at hcallback ⊢
  rw [List.filter_append, List.filter_append]
  exact congrArg _ ((congrArg _ hcallback).trans (List.append_nil _))

theorem receive_other {f : ServerFrame} (hf : isMessage f = false) (frames : List ServerFrame) :
    requests (s.receive f frames).commands = requests s.commands ∧
      (s.receive f frames).receiver.connection = s.receiver.connection := by
  cases f with
  | message => cases hf
  | response data =>
    have hincoming : (s.receiver.incoming (ServerFrame.response data).decoded).1 =
        if Receiver.isHeartbeat (ServerFrame.response data).decoded then s.receiver.heartbeat
        else s.receiver := rfl
    simp only [receive, hincoming, requests]
    split <;> simp [Receiver.heartbeat, Written.isAnswer]
  | error data =>
    simp only [receive, Receiver.incoming, ServerFrame.decoded, ServerFrame.type, requests]
    split <;> simp

theorem kept_start (platform : Platform) (excute : L → Option Message → Bool) (listeners : List L)
    (retry : Int) :
    Kept platform excute listeners retry (start (Receiver.new platform excute listeners retry)) where
  callback := rfl
  total := rfl
  batch c hc := by
    simp only [requests, start, List.filter_singleton] at hc
    exact List.mem_singleton.1 hc
  covered _ hnone := nomatch hnone

theorem messages_append (frames : List ServerFrame) (f : ServerFrame) :
    messages (frames ++ [f]) = messages frames + if isMessage f then 1 else 0 := by
  rw [messages, List.countP_append, List.countP_singleton]
  rfl

theorem kept_receive (h : Kept platform excute listeners retry s) {f : ServerFrame}
    {frames : List ServerFrame} (hframes : s.frames = f :: frames) :
    Kept platform excute listeners retry (s.receive f frames) := by
  have hmessages : messages s.frames = messages frames + if isMessage f then 1 else 0 := by
    rw [hframes, messages, List.countP_cons]
    rfl
  have hcovered := h.covered
  rw [hmessages] at hcovered
  cases hf : isMessage f with
  | false =>
    obtain ⟨hrequests, hconnection⟩ := receive_other (s := s) hf frames
    have hreceived : (s.receive f frames).received = s.received := by
      simp [receive, hf]
    rw [hf] at hcovered
    refine ⟨?_, ?_, ?_, ?_⟩
    · rw [Registered, hconnection]
      exact h.callback
    · rw [hconnection, hreceived]
      exact h.total
    · rw [hrequests]
      exact h.batch
    · rw [hrequests, hreceived]
      exact hcovered
  | true =>
    obtain ⟨timestamp, attempts, id, body, rfl⟩ :
        ∃ timestamp attempts id body, f = .message timestamp attempts id body := by
      cases f with
      | message timestamp attempts id body => exact ⟨timestamp, attempts, id, body, rfl⟩
      | response | error => cases hf
    have hrequests := receive_message h timestamp attempts id body frames
    refine ⟨h.callback, ?_, ?_, ?_⟩
    · show s.receiver.connection.totalMessages + 1 = Int64.ofNat (s.received + 1)
      rw [h.total]
      exact (Int64.ofNat_add _ _).symm
    · intro c hc
      rw [hrequests, List.mem_append] at hc
      rcases hc with hc | hc
      · exact h.batch c hc
      · obtain ⟨c, hc, rfl⟩ := List.mem_map.1 (List.mem_of_mem_filter hc)
        unfold Connection.requestMore at hc
        split at hc
        · rw [List.mem_singleton.1 hc]
          rfl
        · cases hc
    · intro hreceived hnone
      change s.received + 1 < 2 ^ 63 at hreceived
      rw [hrequests, List.append_eq_nil_iff, requestMore_ofNat hreceived] at hnone
      obtain ⟨hnone, hmore⟩ := hnone
      have hfew : ¬ (s.received + 1) % 200 > 100 := by
        intro hmany
        rw [if_pos hmany] at hmore
        cases hmore
      have hsince := sinceRDY_succ hfew
      have hbefore := hcovered (by omega) hnone
      rw [if_pos hf] at hbefore
      show 200 ≤ s.ready + messages frames + sinceRDY (s.received + 1)
      omega

/-- **One step.** -/
theorem step_kept (h : Kept platform excute listeners retry s) {l : Label} (hs : Step s l s') :
    Kept platform excute listeners retry s' := by
  cases hs with
  | message timestamp attempts id body hready =>
    refine ⟨h.callback, h.total, h.batch, fun hreceived hnone => ?_⟩
    have hbefore := h.covered hreceived hnone
    have hmessage : isMessage (.message timestamp attempts id body) = true := rfl
    rw [messages_append, if_pos hmessage]
    dsimp only
    omega
  | other f hf =>
    refine ⟨h.callback, h.total, h.batch, fun hreceived hnone => ?_⟩
    have hbefore := h.covered hreceived hnone
    rw [messages_append, hf]
    exact hbefore
  | receive hframes => exact kept_receive h hframes
  | @read c commands hcommands =>
    have hrequests : requests s.commands = requests [c] ++ requests commands := by
      rw [hcommands, ← List.singleton_append, requests, List.filter_append]
      rfl
    have hbatch := h.batch
    have hcovered := h.covered
    rw [hrequests] at hbatch hcovered
    refine ⟨h.callback, h.total, fun c' hc' => hbatch c' (List.mem_append_right _ hc'),
      fun hreceived hnone => ?_⟩
    cases hc : c.isAnswer with
    | true =>
      have hread : read c s.ready = s.ready := by
        cases c with
        | NOP => rfl
        | command c => cases c <;> first | rfl | cases hc
      rw [hread]
      exact hcovered hreceived (by rw [hnone, requests, List.filter_singleton, hc]; rfl)
    | false =>
      -- nsqd counts down from the beginning again
      have hsome : c ∈ requests [c] := by simp [requests, hc]
      rw [hbatch c (List.mem_append_left _ hsome)]
      show 200 ≤ 200 + messages s.frames + sinceRDY s.received
      omega

/-- **The consumer never runs dry**: in whatever order nsqd and the consumer act, there is a `RDY` for 200
under way, or at least 99 messages are, or nsqd may send what is missing to these. -/
theorem flow_kept (platform : Platform) (excute : L → Option Message → Bool) (listeners : List L)
    (retry : Int) {ls : List Label}
    (h : Run Step (start (Receiver.new platform excute listeners retry)) ls s)
    (hreceived : s.received < 2 ^ 63) :
    Written.command (.RDY 200) ∈ s.commands ∨ 99 ≤ s.ready + messages s.frames := by
  have hkept := h.invariant (kept_start platform excute listeners retry)
    fun _ _ _ hkept hs => step_kept hkept hs
  cases hrequests : requests s.commands with
  | nil =>
    have hcovered := hkept.covered hreceived hrequests
    have hsince := sinceRDY_le s.received
    exact .inr (by omega)
  | cons c commands =>
    have hmem : c ∈ requests s.commands := hrequests ▸ List.mem_cons_self ..
    rw [hkept.batch c hmem] at hmem
    exact .inl (List.mem_of_mem_filter hmem)

theorem flow_kept_first :
    let s : Flow Bool := start (Receiver.new Consumers.plainText (fun l _ => l) [] 3)
    let s' : Flow Bool := { s with commands := [], ready := Connection.messagesPerBatch.toInt.toNat }
    Written.command (.RDY 200) ∈ s'.commands ∨ 99 ≤ s'.ready + messages s'.frames := by
  intro s s'
  have hstep : Step s .read s' := Step.read (s := s) rfl
  exact flow_kept Consumers.plainText (fun l _ => l) [] 3 (Run.single hstep) (by decide)

end

end Flow

end BaseService.Notify.Netty
