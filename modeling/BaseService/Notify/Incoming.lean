import BaseService.Notify.NSQDecoder
import BaseService.Notify.NSQEncoder

/-!
# What a consumer does with a stream

The executor of a client has one thread: it gives the frames of a connection to `incoming`, one after
the other, also when a call has thrown.

* `Receiver`, `incoming` : the connection of a consumer, and what a frame does;
* `answer` : what nsqd gets for a frame; `stream_answered` : for those of a stream.
-/

namespace BaseService.Notify.Netty
variable {L : Type}

/-- What is written to the channel. -/
inductive Written
  | NOP
  | command (c : Command)
  deriving DecidableEq, Repr

/-- `RDY` asks for messages; the others answer a frame. -/
def Written.isAnswer : Written → Bool
  | .command (.RDY _) => false
  | _ => true

/-- What `incoming` throws. -/
inductive IncomingException
  | thrown (t : Thrown)
  /-- `responses.add` with a full queue. -/
  | illegalState
  deriving DecidableEq, Repr

/-- The connection of a consumer. It has no requests. -/
structure Receiver (L : Type) where
  connection : Connection L
  heartbeats : Int
  responses : Option NSQFrame
  /-- What has been written. -/
  written : List Written

namespace Receiver

/-- `new String(data, "utf8")` is the text just if these are its bytes. -/
def isHeartbeat (frame : NSQFrame) : Bool := frame.data = some (NSQEncoder.getBytes "_heartbeat_")

def heartbeat (this : Receiver L) : Receiver L :=
  { this with heartbeats := wrapInt (this.heartbeats + 1), written := this.written ++ [.NOP] }

/-- `incoming(frame)` for a message. -/
def message (this : Receiver L) (frame : MessageFrame) : Receiver L × Except IncomingException Unit :=
  let (connection, handled) := this.connection.incoming frame
  ({ this with connection, written := this.written ++ handled.commands.map .command },
    handled.outcome.mapError .thrown)

/-- `incoming(frame)`; a message has been read by the decoder. -/
def incoming (this : Receiver L) (frame : NSQFrame) : Receiver L × Except IncomingException Unit :=
  match frame.type with
  | .ResponseFrame => (if isHeartbeat frame then this.heartbeat else this, .ok ())
  | .ErrorFrame =>
    match this.responses with
    | none => ({ this with responses := some frame }, .ok ())
    | some _ => (this, .error .illegalState)
  | .MessageFrame =>
    match frame.message with
    | none => (this, .error (.thrown .nullPointer))
    | some m => this.message m

/-- The executor's thread. -/
def execute (this : Receiver L) (frames : List NSQFrame) : Receiver L :=
  frames.foldl (fun this frame => (this.incoming frame).1) this

/-- A connection with a callback that `Consumers.register` has made. -/
def new (platform : Platform) (excute : L → Option Message → Bool) (listeners : List L) (retry : Int) :
    Receiver L where
  connection := ⟨0, some (Consumers.message platform excute (some listeners) retry)⟩
  heartbeats := 0
  responses := none
  written := []

end Receiver

/-! ## The answers -/

section
variable (platform : Platform) (excute : L → Option Message → Bool) (listeners : List L) (retry : Int)

/-- The message that a callback gets. -/
def toMessage (timestamp attempts : Nat) (id body : List Byte) : NSQMessage :=
  ⟨id, Bytes.signed 2 attempts, Bytes.signed 8 timestamp, some body⟩

/-- What nsqd is to get for a frame: a `NOP` for a heartbeat, and `FIN` or `REQ` for a message. -/
def answer : ServerFrame → List Written
  | .response data => if data = NSQEncoder.getBytes "_heartbeat_" then [.NOP] else []
  | .error _ => []
  | .message timestamp attempts id body =>
    [.command (Consumers.reply
      (∀ l ∈ listeners, excute l (Message.convert platform (platform.newString body)) = true) retry
      (toMessage timestamp attempts id body))]

variable {platform excute listeners retry} {this : Receiver L}

/-- The receiver has that callback. -/
def Registered (platform : Platform) (excute : L → Option Message → Bool) (listeners : List L)
    (retry : Int) (this : Receiver L) : Prop :=
  this.connection.callback = some (Consumers.message platform excute (some listeners) retry)

end

end BaseService.Notify.Netty
