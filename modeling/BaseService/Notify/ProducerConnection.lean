import BaseService.Data.Pipeline
import BaseService.Data.Runs

/-!
# A connection of a producer

* `NSQFrame`, `produced` : the frames from nsqd, and what `produce` makes of an answer;
* `ProducerConnection` : the connection, with the threads that call `commandAndWait` and that of the
  executor, which calls `incoming`;
* `Step` : what they do, and nsqd and the network.
-/

namespace BaseService.Notify
open Function (update)

inductive NSQFrame
  | response (message : String)
  | error (errorMessage : String)
  deriving DecidableEq, Repr

def NSQFrame.isHeartbeat : NSQFrame → Bool
  | .response message => message = "_heartbeat_"
  | .error _ => false

/-- A frame that answers a command. -/
abbrev Answer := {frame : NSQFrame // frame.isHeartbeat = false}

/-- How `produce` and `produceMulti` end. -/
inductive Produced
  | success
  | badTopicException (err : String)
  | badMessageException (err : String)
  | disconnectedException
  deriving DecidableEq, Repr

def produced : NSQFrame → Produced
  | .response _ => .success
  | .error err =>
    if err.startsWith "E_BAD_TOPIC" then .badTopicException err
    else if err.startsWith "E_BAD_MESSAGE" then .badMessageException err
    else .disconnectedException

theorem produced_error (err : String) : produced (.error err) ≠ .success := by
  simp only [produced]
  split_ifs <;> simp

namespace ProducerConnection

/-- Where a thread is in `commandAndWait`. -/
inductive Phase (C : Type)
  | idle
  | offer (command : C)
  | clear (command : C)
  /-- When the queue was cleared, `stale` answers were still to come to it. -/
  | command (command : C) (stale : Nat)
  /-- The command `id` has been written; its delivery is awaited, then a frame. -/
  | poll (id stale : Nat)
  | release

/-- Between the `offer` and the `poll` of `requests`. -/
def Phase.inside {C : Type} : Phase C → Bool
  | .idle | .offer _ => false
  | .clear _ | .command _ _ | .poll _ _ | .release => true

/-- The command `command` has got the answer to the command `answered`. -/
structure Returned where
  command : Nat
  answered : Nat
  frame : NSQFrame

end ProducerConnection

open ProducerConnection in
/-- The connection with the threads `κ` that publish. The commands are numbered. -/
structure ProducerConnection (κ C : Type) where
  /-- The commands that nsqd has not answered, and the answers up to the executor. -/
  channel : Pipeline C Answer
  connected : Bool
  heartbeats : Nat
  requests : Option C
  responses : Option (Nat × Answer)
  /-- The frame for which the executor's thread is in `responses.offer`. -/
  offering : Option (Nat × Answer)
  sent : Nat
  phase : κ → Phase C
  /-- What nsqd has answered. -/
  served : List (Nat × Answer)
  /-- What `commandAndWait` has returned. -/
  returned : List Returned

namespace ProducerConnection
variable {κ C : Type} [DecidableEq κ]

/-- `IDENTIFY` is not sent if the name of the host is unknown. -/
def createConnection (ident : Option C) : ProducerConnection κ C where
  channel := (ident.map (Pipeline.empty.send 0)).getD .empty
  connected := true
  heartbeats := 0
  requests := none
  responses := none
  offering := none
  sent := 1
  phase _ := .idle
  served := []
  returned := []

def heartbeat (this : ProducerConnection κ C) : ProducerConnection κ C :=
  { this with heartbeats := this.heartbeats + 1 }

/-- The thread of the executor goes on with `responses.offer`, unless there is no request. With a full
queue, `responses.add` throws. -/
def incoming (id : Nat) (frame : Answer) (this : ProducerConnection κ C) : ProducerConnection κ C :=
  match frame.1 with
  | .response _ =>
    if frame.1.isHeartbeat then this.heartbeat
    else if this.requests.isSome then { this with offering := some (id, frame) }
    else this
  | .error _ => { this with responses := this.responses.or (some (id, frame)) }

def goto (this : ProducerConnection κ C) (k : κ) (phase : Phase C) : ProducerConnection κ C :=
  { this with phase := update this.phase k phase }

/-- The numbers of the answers that have not come to the queue. -/
def wire (this : ProducerConnection κ C) : List Nat :=
  this.offering.toList.map Prod.fst ++ this.channel.outstanding

inductive Label (κ C : Type)
  | call (k : κ) (command : C)
  | offer (k : κ)
  | clear (k : κ)
  | command (k : κ)
  | poll (k : κ)
  | release (k : κ)
  | timeout (k : κ)
  | answer (frame : Answer)
  | heartbeat
  | incoming
  | offered
  | lost
  | disconnect (received : Nat)

inductive Step : ProducerConnection κ C → Label κ C → ProducerConnection κ C → Prop
  | call {s : ProducerConnection κ C} {k : κ} {c : C} :
    s.phase k = .idle → Step s (.call k c) (s.goto k (.offer c))
  | offer {s : ProducerConnection κ C} {k : κ} {c : C} :
    s.phase k = .offer c → s.requests = none →
      Step s (.offer k) ({ s with requests := some c }.goto k (.clear c))
  | full {s : ProducerConnection κ C} {k : κ} {c : C} :
    s.phase k = .offer c → Step s (.timeout k) (s.goto k .idle)
  | clear {s : ProducerConnection κ C} {k : κ} {c : C} :
    s.phase k = .clear c →
      Step s (.clear k) ({ s with responses := none }.goto k (.command c s.wire.length))
  | command {s : ProducerConnection κ C} {k : κ} {c : C} {stale : Nat} :
    s.phase k = .command c stale →
      Step s (.command k) ({ s with
        channel := if s.connected then s.channel.send s.sent c else s.channel
        sent := s.sent + 1 }.goto k (.poll s.sent stale))
  | poll {s : ProducerConnection κ C} {k : κ} {id id' stale : Nat} {frame : Answer} :
    s.phase k = .poll id stale → s.responses = some (id', frame) →
      Step s (.poll k) ({ s with
        responses := none
        returned := s.returned ++ [Returned.mk id id' frame.1] }.goto k .release)
  | release {s : ProducerConnection κ C} {k : κ} :
    s.phase k = .release → Step s (.release k) ({ s with requests := none }.goto k .idle)
  /-- The request is left in its queue. -/
  | timeout {s : ProducerConnection κ C} {k : κ} {id stale : Nat} :
    s.phase k = .poll id stale → Step s (.timeout k) (s.goto k .idle)
  | answer {s : ProducerConnection κ C} {id : Nat} {c : C} {requests : List (Nat × C)}
    {frame : Answer} :
    s.channel.requests = (id, c) :: requests →
      Step s (.answer frame) { s with
        channel := ⟨requests, s.channel.replies ++ [(id, frame)]⟩
        served := s.served ++ [(id, frame)] }
  /-- `NOP`, the command sent then, has no answer. -/
  | heartbeat {s : ProducerConnection κ C} : s.offering = none → Step s .heartbeat s.heartbeat
  | incoming {s : ProducerConnection κ C} {id : Nat} {frame : Answer} {p : Pipeline C Answer} :
    s.offering = none → s.channel.Reads id frame p →
      Step s .incoming ({ s with channel := p }.incoming id frame)
  | offered {s : ProducerConnection κ C} {x : Nat × Answer} :
    s.offering = some x → s.responses = none →
      Step s .offered { s with responses := some x, offering := none }
  /-- The queue has been full for 20 seconds. -/
  | lost {s : ProducerConnection κ C} {x : Nat × Answer} :
    s.offering = some x → s.responses ≠ none → Step s .lost { s with offering := none }
  /-- The executor has got the first answers already. -/
  | disconnect {s : ProducerConnection κ C} {received : Nat} :
    Step s (.disconnect received)
      { s with channel := ⟨[], s.channel.replies.take received⟩, connected := false }

end ProducerConnection

end BaseService.Notify
