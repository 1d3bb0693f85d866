import BaseService.Notify.Callback

/-!
# Message frames and connections

What happens to the bytes of a message frame: `MessageFrame.setData` reads them and
`Connection.incoming` gives the message to the callback.

* `setData_spec` : the data of a message is read as it was written;
* `incoming_commands` : the callback's commands are sent, after a `RDY` or none.
-/

namespace BaseService.Notify

/-! ## Reading from a `ChannelBuffer` -/

namespace ChannelBuffer

/-- `readBytes(n)`: the next `n` bytes and the rest of the buffer. -/
def readBytes (buf : List Byte) (n : Nat) : Outcome (List Byte × List Byte) :=
  if n ≤ buf.length then .ok (buf.take n, buf.drop n) else .error .indexOutOfBounds

def readLong (buf : List Byte) : Outcome (Int × List Byte) :=
  (readBytes buf 8).map fun p => (Bytes.signed 8 (Bytes.decode p.1), p.2)

/-- A `short` is signed. -/
def readShort (buf : List Byte) : Outcome (Int × List Byte) :=
  (readBytes buf 2).map fun p => (Bytes.signed 2 (Bytes.decode p.1), p.2)

theorem readBytes_append {bytes rest : List Byte} {n : Nat} (h : bytes.length = n) :
    readBytes (bytes ++ rest) n = .ok (bytes, rest) := by
  rw [readBytes, if_pos (by rw [List.length_append]; omega), List.take_left' h, List.drop_left' h]

theorem readLong_encode (n : Nat) (rest : List Byte) :
    readLong (Bytes.encode 8 n ++ rest) = .ok (Bytes.signed 8 n, rest) := by
  rw [readLong, readBytes_append (Bytes.encode_length 8 n)]
  show Except.ok (Bytes.signed 8 (Bytes.decode (Bytes.encode 8 n)), rest) = _
  rw [Bytes.decode_encode, Bytes.signed_mod]

theorem readShort_encode (n : Nat) (rest : List Byte) :
    readShort (Bytes.encode 2 n ++ rest) = .ok (Bytes.signed 2 n, rest) := by
  rw [readShort, readBytes_append (Bytes.encode_length 2 n)]
  show Except.ok (Bytes.signed 2 (Bytes.decode (Bytes.encode 2 n)), rest) = _
  rw [Bytes.decode_encode, Bytes.signed_mod]

end ChannelBuffer

/-! ## `MessageFrame` -/

structure MessageFrame where
  timestamp : Int
  attempts : Int
  messageId : List Byte
  messageBody : List Byte

namespace MessageFrame
open ChannelBuffer

def setData (bytes : List Byte) : Outcome MessageFrame := do
  let (timestamp, buf) ← readLong bytes
  let (attempts, buf) ← readShort buf
  let (messageId, buf) ← readBytes buf 16
  let (messageBody, _) ← readBytes buf buf.length
  .ok { timestamp, attempts, messageId, messageBody }

/-- The data that the server sends for the delivery number `attempts` of a message. -/
def data (timestamp attempts : Nat) (id body : List Byte) : List Byte :=
  Bytes.encode 8 timestamp ++ (Bytes.encode 2 attempts ++ (id ++ body))

theorem setData_spec (timestamp attempts : Nat) {id : List Byte} (body : List Byte)
    (h : id.length = 16) :
    setData (data timestamp attempts id body) =
      .ok ⟨Bytes.signed 8 timestamp, Bytes.signed 2 attempts, id, body⟩ := by
  have hbody : readBytes body body.length = .ok (body, []) := by
    have happend : readBytes (body ++ []) body.length = .ok (body, []) := readBytes_append rfl
    rwa [List.append_nil] at happend
  unfold setData data
  simp only [readLong_encode, readShort_encode, readBytes_append h, hbody, bind, Except.bind]

end MessageFrame

/-! ## `Connection` -/

structure Connection (L : Type) where
  totalMessages : Int64
  /-- What the callback does with a message; it is null in the connection of a producer. -/
  callback : Option (NSQMessage → Consumers.Handled L)

namespace Connection
variable {L : Type}

/-- `setMessagesPerBatch` has no callers. -/
def messagesPerBatch : Int64 := 200

/-- `RDY` is sent again in the second half of a batch. -/
def requestMore (tot : Int64) : List Command :=
  if tot % messagesPerBatch > messagesPerBatch / 2 then [.RDY messagesPerBatch.toInt] else []

/-- `incoming(frame)` for a message frame. -/
def incoming (this : Connection L) (frame : MessageFrame) :
    Connection L × Consumers.Handled L :=
  let tot := this.totalMessages + 1
  let message : NSQMessage :=
    ⟨frame.messageId, frame.attempts, frame.timestamp, some frame.messageBody⟩
  let handled : Consumers.Handled L :=
    match this.callback with
    | none => ⟨[], [], .ok ()⟩
    | some callback => callback message
  ({ this with totalMessages := tot }, { handled with commands := requestMore tot ++ handled.commands })

theorem requestMore_mem {tot : Int64} {c : Command} (h : c ∈ requestMore tot) :
    ∃ count, c = .RDY count := by
  unfold requestMore at h
  split at h
  · exact ⟨_, List.mem_singleton.mp h⟩
  · cases h

theorem incoming_commands (this : Connection L) {callback : NSQMessage → Consumers.Handled L}
    (h : this.callback = some callback) (frame : MessageFrame) :
    (this.incoming frame).2.commands = requestMore (this.totalMessages + 1) ++
      (callback ⟨frame.messageId, frame.attempts, frame.timestamp,
        some frame.messageBody⟩).commands := by
  simp only [incoming, h]

end Connection

end BaseService.Notify
