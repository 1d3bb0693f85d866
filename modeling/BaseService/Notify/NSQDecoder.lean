import BaseService.Data.Replaying
import BaseService.Java
import BaseService.Notify.Connection

/-!
# `NSQDecoder`

netty calls `decode` as long as there is something to read, from the last checkpoint on; when a read finds
too few bytes, the call is repeated once more have arrived.

* `NSQFrame`, `NSQDecoder.decode` : the frames, and one call;
* `decoder` : the decoder in a channel;
* `ServerFrame` : a frame as nsqd writes it;
* `receive_bytes`, `receive_partial` : a frame that has arrived, and one that has not;
* `decoded_frames` : the frames of a stream, wherever it is cut.
-/

namespace BaseService.Notify.Netty

/-- The subclasses of `NSQFrame`. -/
inductive FrameType
  | ResponseFrame
  | ErrorFrame
  | MessageFrame
  deriving DecidableEq, Repr

/-- The `frameId` that the constructor sets. -/
def FrameType.frameId : FrameType → Nat
  | ResponseFrame => 0
  | ErrorFrame => 1
  | MessageFrame => 2

structure NSQFrame where
  type : FrameType
  size : Int
  /-- `none` is null. -/
  data : Option (List Byte)
  /-- What `setData` of a `MessageFrame` has read. -/
  message : Option MessageFrame

namespace NSQFrame

/-- `instance(type)`; `none` is null. -/
def new (type : Int) : Option NSQFrame :=
  if type = 0 then some ⟨.ResponseFrame, 0, none, none⟩
  else if type = 1 then some ⟨.ErrorFrame, 0, none, none⟩
  else if type = 2 then some ⟨.MessageFrame, 0, none, none⟩
  else none

def setData (this : NSQFrame) (data : List Byte) : Outcome NSQFrame :=
  match this.type with
  | .ResponseFrame | .ErrorFrame => .ok { this with data := some data }
  | .MessageFrame => do
    let message ← MessageFrame.setData data
    .ok { this with data := some data, message := some message }

theorem new_frameId (type : FrameType) : new type.frameId = some ⟨type, 0, none, none⟩ := by
  cases type <;> rfl

end NSQFrame

inductive MyDecoderState
  | READ_SIZE
  | READ_FRAME_ID
  | READ_DATA
  deriving DecidableEq, Repr

structure NSQDecoder where
  state : MyDecoderState
  size : Int
  /-- `none` is null. -/
  frame : Option NSQFrame

/-- What `decode` throws. -/
inductive DecoderException
  | exception (message : String)
  | illegalArgument
  | thrown (t : Thrown)
  deriving DecidableEq, Repr

namespace NSQDecoder

/-- `new NSQDecoder()`. -/
def new : NSQDecoder := ⟨.READ_SIZE, 0, none⟩

abbrev Call := Decoded NSQDecoder NSQFrame Byte DecoderException

/-- `readInt()`. -/
def readInt (bytes : List Byte) : Int := Bytes.signed 4 (Bytes.decode bytes)

/-- The size has been read. -/
def setSize (this : NSQDecoder) (size : Int) (rest : List Byte) : Call :=
  .checkpoint { this with size, state := .READ_FRAME_ID } rest

/-- The id has been read. -/
def setFrame (this : NSQDecoder) (id : Int) (rest : List Byte) : Call :=
  match NSQFrame.new id with
  | none => .failed (.exception s!"Bad frame id from server ({id}).  disconnect!")
  | some frame =>
    let frame := { frame with size := this.size }
    .checkpoint { this with frame := some frame, state := .READ_DATA } rest

/-- The data has been read. -/
def setData (this : NSQDecoder) (frame : NSQFrame) (bytes rest : List Byte) : Call :=
  match frame.setData bytes with
  | .error t => .failed (.thrown t)
  | .ok frame => .frame frame { this with frame := some frame, state := .READ_SIZE } rest

def decode (this : NSQDecoder) (buf : List Byte) : Call :=
  match this.state, this.frame with
  | .READ_SIZE, _ => .take 4 buf fun bytes => this.setSize (readInt bytes)
  | .READ_FRAME_ID, _ => .take 4 buf fun bytes => this.setFrame (readInt bytes)
  | .READ_DATA, none => .failed (.thrown .nullPointer)
  | .READ_DATA, some frame =>
    -- `readBytes` makes an array of this length
    if wrapInt (frame.size - 4) < 0 then .failed .illegalArgument
    else .take (wrapInt (frame.size - 4)).toNat buf (this.setData frame)

/-! ## Progress, and what arrives later -/

/-- A call that reads nothing leads to one that does. -/
def weight (this : NSQDecoder) (buf : List Byte) : Nat :=
  2 * buf.length + if this.state = .READ_DATA then 1 else 0

theorem after_setFrame {this this' : NSQDecoder} {id : Int} {rest rest' : List Byte}
    (h : (this.setFrame id rest).after = some (this', rest')) : rest' = rest := by
  unfold setFrame at h
  split at h
  · cases h
  · cases h
    rfl

theorem after_setData {this this' : NSQDecoder} {frame : NSQFrame} {bytes rest rest' : List Byte}
    (h : (this.setData frame bytes rest).after = some (this', rest')) :
    this'.state = .READ_SIZE ∧ rest' = rest := by
  unfold setData at h
  split at h
  · cases h
  · cases h
    exact ⟨rfl, rfl⟩

theorem weight_lt {this this' : NSQDecoder} {buf rest : List Byte}
    (h : (decode this buf).after = some (this', rest)) : weight this' rest < weight this buf := by
  have hone : (if this'.state = .READ_DATA then 1 else 0) ≤ 1 := by split <;> omega
  unfold decode at h
  unfold weight
  split at h
  · obtain ⟨hlen, h⟩ := Decoded.after_take h
    cases h
    rw [List.length_drop]
    omega
  · obtain ⟨hlen, h⟩ := Decoded.after_take h
    rw [after_setFrame h, List.length_drop]
    omega
  · cases h
  · next hstate _ =>
    split at h
    · cases h
    · obtain ⟨hlen, h⟩ := Decoded.after_take h
      obtain ⟨hstate', rfl⟩ := after_setData h
      rw [List.length_drop, hstate, hstate', if_pos rfl, if_neg (by decide)]
      omega

theorem setFrame_append (this : NSQDecoder) (id : Int) (rest more : List Byte) :
    this.setFrame id (rest ++ more) = (this.setFrame id rest).append more := by
  unfold setFrame
  split <;> rfl

theorem setData_append (this : NSQDecoder) (frame : NSQFrame) (bytes rest more : List Byte) :
    this.setData frame bytes (rest ++ more) = (this.setData frame bytes rest).append more := by
  unfold setData
  split <;> rfl

theorem decode_append {this : NSQDecoder} {buf : List Byte} (more : List Byte)
    (h : decode this buf ≠ .replay) : decode this (buf ++ more) = (decode this buf).append more := by
  unfold decode at h ⊢
  split at h
  · exact Decoded.take_append h fun _ _ => rfl
  · exact Decoded.take_append h fun _ _ => setFrame_append ..
  · rfl
  · split at h
    · next hlength =>
      rw [if_pos hlength, if_pos hlength]
      rfl
    · next hlength =>
      rw [if_neg hlength, if_neg hlength]
      exact Decoded.take_append h fun _ _ => setData_append ..

end NSQDecoder

/-- The decoder of a channel. -/
def NSQDecoder.decoder : Decoder NSQDecoder NSQFrame Byte DecoderException where
  decode := decode
  size := weight
  size_lt := weight_lt
  decode_append := decode_append

/-! ## What has been read -/

namespace NSQFrame

/-- The bytes of a frame. -/
def bytes (this : NSQFrame) : List Byte :=
  Bytes.encode 4 (this.size % 2 ^ 32).toNat ++
    (Bytes.encode 4 this.type.frameId ++ this.data.getD [])

/-- A frame with all its data. -/
def Complete (this : NSQFrame) : Prop :=
  ∃ data : List Byte, (data.length : Int) = wrapInt (this.size - 4) ∧
    setData ⟨this.type, this.size, none, none⟩ data = .ok this

end NSQFrame

namespace NSQDecoder

/-- What has been read of the frame that is to come. -/
def Begun (this : NSQDecoder) (part : List Byte) : Prop :=
  match this.state with
  | .READ_SIZE => part = []
  | .READ_FRAME_ID => part = Bytes.encode 4 (this.size % 2 ^ 32).toNat
  | .READ_DATA => ∃ type, this.frame = some ⟨type, this.size, none, none⟩ ∧
      part = Bytes.encode 4 (this.size % 2 ^ 32).toNat ++ Bytes.encode 4 type.frameId

/-- What has been read are the bytes of the frames, and of the one that is to come. -/
def Accounts (this : NSQDecoder) (frames : List NSQFrame) (read : List Byte) : Prop :=
  (∀ f ∈ frames, f.Complete) ∧ ∃ part, read = frames.flatMap NSQFrame.bytes ++ part ∧ this.Begun part

variable {this this' : NSQDecoder} {frames : List NSQFrame} {read buf rest : List Byte}

end NSQDecoder

/-! ## What nsqd writes -/

/-- A frame in the words of nsqd. -/
inductive ServerFrame
  | response (data : List Byte)
  | error (data : List Byte)
  | message (timestamp attempts : Nat) (id body : List Byte)

namespace ServerFrame

def type : ServerFrame → FrameType
  | response _ => .ResponseFrame
  | error _ => .ErrorFrame
  | message .. => .MessageFrame

def data : ServerFrame → List Byte
  | response data | error data => data
  | message timestamp attempts id body => MessageFrame.data timestamp attempts id body

/-- The size of the rest, the id and the data. -/
def bytes (f : ServerFrame) : List Byte :=
  Bytes.encode 4 (f.data.length + 4) ++ (Bytes.encode 4 f.type.frameId ++ f.data)

/-- nsqd sends no empty response, its ids have 16 bytes, and the size is an `int`. -/
structure WellFormed (f : ServerFrame) : Prop where
  data : f.data ≠ []
  size : f.data.length + 4 < 2 ^ 31
  id : ∀ timestamp attempts id body, f = message timestamp attempts id body → id.length = 16

/-- The frame in the client; its numbers are signed. -/
def decoded (f : ServerFrame) : NSQFrame where
  type := f.type
  size := (f.data.length + 4 : Nat)
  data := some f.data
  message :=
    match f with
    | response _ | error _ => none
    | message timestamp attempts id body =>
      some ⟨Bytes.signed 8 timestamp, Bytes.signed 2 attempts, id, body⟩

variable {f : ServerFrame} {this : NSQDecoder} {frames : List NSQFrame} {rest : List Byte}

theorem setData_data (hf : f.WellFormed) (size : Int) :
    NSQFrame.setData ⟨f.type, size, none, none⟩ f.data = .ok { f.decoded with size } := by
  cases f with
  | response data => rfl
  | error data => rfl
  | message timestamp attempts id body =>
    have hset := MessageFrame.setData_spec timestamp attempts body (hf.id _ _ _ _ rfl)
    simp only [NSQFrame.setData, type, data, hset, bind, Except.bind, decoded]

theorem readInt_encode {n : Nat} (h : n < 2 ^ 31) : NSQDecoder.readInt (Bytes.encode 4 n) = n := by
  rw [NSQDecoder.readInt, Bytes.decode_encode, Bytes.signed_mod, Bytes.signed_of_lt (by omega)]

end ServerFrame

namespace NSQDecoder
open ServerFrame
variable {f : ServerFrame} {this : NSQDecoder} {frames : List NSQFrame} {rest : List Byte}

/-- The first four bytes of a frame. -/
theorem decode_size (h : this.state = .READ_SIZE) {n : Nat} (hn : n < 2 ^ 31) (rest : List Byte) :
    decode this (Bytes.encode 4 n ++ rest) =
      .checkpoint { this with size := n, state := .READ_FRAME_ID } rest := by
  have htake := Decoded.take_left (k := fun bytes => this.setSize (readInt bytes)) rest
    (Bytes.encode_length 4 n)
  rw [readInt_encode hn] at htake
  unfold decode
  rw [h]
  exact htake

theorem decode_frameId (h : this.state = .READ_FRAME_ID) (type : FrameType) (rest : List Byte) :
    decode this (Bytes.encode 4 type.frameId ++ rest) =
      .checkpoint
        { this with frame := some ⟨type, this.size, none, none⟩, state := .READ_DATA } rest := by
  have htake := Decoded.take_left (k := fun bytes => this.setFrame (readInt bytes)) rest
    (Bytes.encode_length 4 type.frameId)
  have hid : type.frameId < 2 ^ 31 := by cases type <;> decide
  rw [readInt_encode hid, setFrame, NSQFrame.new_frameId] at htake
  unfold decode
  rw [h]
  exact htake

theorem decode_data (hf : f.WellFormed) (h : this.state = .READ_DATA)
    (hframe : this.frame = some ⟨f.type, (f.data.length + 4 : Nat), none, none⟩) (rest : List Byte) :
    decode this (f.data ++ rest) =
      .frame f.decoded { this with frame := some f.decoded, state := .READ_SIZE } rest := by
  have hsize := hf.size
  have hlength : wrapInt (((f.data.length + 4 : Nat) : Int) - 4) = f.data.length := by
    rw [wrapInt_of_range (by omega) (by omega)]
    omega
  have hset : this.setData ⟨f.type, (f.data.length + 4 : Nat), none, none⟩ f.data rest =
      .frame f.decoded { this with frame := some f.decoded, state := .READ_SIZE } rest := by
    rw [setData, setData_data hf]
    rfl
  unfold decode
  rw [h, hframe]
  dsimp only
  rw [hlength, if_neg (by omega), Int.toNat_natCast, Decoded.take_left rest rfl, hset]

/-- Too little for what the decoder waits for. -/
theorem decode_short (h : this.state ≠ .READ_DATA) {buf : List Byte} (hbuf : buf.length < 4) :
    decode this buf = .replay := by
  unfold decode
  split
  · exact Decoded.take_replay hbuf
  · exact Decoded.take_replay hbuf
  · next hstate _ => exact absurd hstate h
  · next hstate _ => exact absurd hstate h

theorem decode_data_short (hsize : f.data.length + 4 < 2 ^ 31) (h : this.state = .READ_DATA)
    (hframe : this.frame = some ⟨f.type, (f.data.length + 4 : Nat), none, none⟩) {buf : List Byte}
    (hbuf : buf.length < f.data.length) : decode this buf = .replay := by
  have hlength : wrapInt (((f.data.length + 4 : Nat) : Int) - 4) = f.data.length := by
    rw [wrapInt_of_range (by omega) (by omega)]
    omega
  unfold decode
  rw [h, hframe]
  dsimp only
  rw [hlength, if_neg (by omega), Int.toNat_natCast, Decoded.take_replay hbuf]

theorem encode_append_ne_nil (n : Nat) (rest : List Byte) : Bytes.encode 4 n ++ rest ≠ [] := by
  intro hnil
  have hlength := congrArg List.length hnil
  rw [List.length_append, Bytes.encode_length, List.length_nil] at hlength
  omega

/-! ## The frames of a stream -/

/-- The decoder waits for the data of a frame. -/
def Waits (this : NSQDecoder) (f : ServerFrame) : Prop :=
  this.state = .READ_DATA ∧ this.frame = some ⟨f.type, (f.data.length + 4 : Nat), none, none⟩

/-- The size of a frame has arrived. -/
theorem receive_size (frames : List NSQFrame) (h : this.state = .READ_SIZE) (hsize : f.data.length + 4 < 2 ^ 31) :
    ∃ this', this'.state = .READ_FRAME_ID ∧ this'.size = ((f.data.length + 4 : Nat) : Int) ∧
      ∀ rest, decoder.receive ⟨frames, .ok (this, [])⟩ (Bytes.encode 4 (f.data.length + 4) ++ rest) =
        decoder.receive ⟨frames, .ok (this', [])⟩ rest :=
  ⟨_, rfl, rfl, fun rest =>
    Decoder.receive_checkpoint (D := decoder) (decode_size h hsize rest) (encode_append_ne_nil _ rest)⟩

/-- Its id has arrived. -/
theorem receive_frameId (frames : List NSQFrame) (h : this.state = .READ_FRAME_ID)
    (hsize : this.size = ((f.data.length + 4 : Nat) : Int)) :
    ∃ this', Waits this' f ∧
      ∀ rest, decoder.receive ⟨frames, .ok (this, [])⟩ (Bytes.encode 4 f.type.frameId ++ rest) =
        decoder.receive ⟨frames, .ok (this', [])⟩ rest := by
  refine ⟨_, ⟨rfl, ?_⟩, fun rest =>
    Decoder.receive_checkpoint (D := decoder) (decode_frameId h f.type rest) (encode_append_ne_nil _ rest)⟩
  rw [hsize]

/-- **A frame that has arrived.** -/
theorem receive_bytes (frames : List NSQFrame) (hf : f.WellFormed) (h : this.state = .READ_SIZE) (rest : List Byte) :
    ∃ this', this'.state = .READ_SIZE ∧
      decoder.receive ⟨frames, .ok (this, [])⟩ (f.bytes ++ rest) =
        decoder.receive ⟨frames ++ [f.decoded], .ok (this', [])⟩ rest := by
  obtain ⟨this₁, hid, hsize, hfirst⟩ := receive_size frames h hf.size
  obtain ⟨this₂, ⟨hdata, hframe⟩, hsecond⟩ := receive_frameId frames hid hsize
  refine ⟨{ this₂ with frame := some f.decoded, state := .READ_SIZE }, rfl, ?_⟩
  rw [bytes, List.append_assoc, List.append_assoc, hfirst, hsecond,
    Decoder.receive_frame (D := decoder) (decode_data hf hdata hframe rest)
      (List.append_ne_nil_of_left_ne_nil hf.data rest)]

/-- **A frame of which something is missing.** -/
theorem receive_partial (frames : List NSQFrame) (hf : f.WellFormed) (h : this.state = .READ_SIZE) {part : List Byte}
    (hstart : part <+: f.bytes) (hlt : part.length < f.bytes.length) :
    ∃ s, decoder.receive ⟨frames, .ok (this, [])⟩ part = ⟨frames, .ok s⟩ := by
  obtain ⟨this₁, hid, hsize, hfirst⟩ := receive_size frames h hf.size
  obtain ⟨this₂, ⟨hdata, hframe⟩, hsecond⟩ := receive_frameId frames hid hsize
  rcases prefix_append_cases hstart with hshort | ⟨part₁, rfl, hstart₁⟩
  · rw [Bytes.encode_length] at hshort
    exact ⟨_, Decoder.receive_replay (D := decoder) (decode_short (by rw [h]; decide) hshort)⟩
  · rw [hfirst]
    rcases prefix_append_cases hstart₁ with hshort | ⟨part₂, rfl, hstart₂⟩
    · rw [Bytes.encode_length] at hshort
      exact ⟨_, Decoder.receive_replay (D := decoder) (decode_short (by rw [hid]; decide) hshort)⟩
    · rw [hsecond]
      rw [bytes] at hlt
      simp only [List.length_append] at hlt
      exact ⟨_, Decoder.receive_replay (D := decoder)
        (decode_data_short hf.size hdata hframe (by omega))⟩

/-- Frames that have arrived, and what follows them. -/
theorem receive_stream (frames : List NSQFrame) {fs : List ServerFrame} (hfs : ∀ f ∈ fs, f.WellFormed)
    (h : this.state = .READ_SIZE) (rest : List Byte) :
    ∃ this', this'.state = .READ_SIZE ∧
      decoder.receive ⟨frames, .ok (this, [])⟩ (fs.flatMap ServerFrame.bytes ++ rest) =
        decoder.receive ⟨frames ++ fs.map ServerFrame.decoded, .ok (this', [])⟩ rest := by
  induction fs generalizing this frames with
  | nil => exact ⟨this, h, by simp⟩
  | cons f fs ih =>
    obtain ⟨hf, hfs⟩ := List.forall_mem_cons.1 hfs
    obtain ⟨this₁, h₁, hfirst⟩ := receive_bytes frames hf h
      (fs.flatMap ServerFrame.bytes ++ rest)
    obtain ⟨this', h', hrest⟩ := ih (frames ++ [f.decoded]) hfs h₁
    refine ⟨this', h', ?_⟩
    rw [List.flatMap_cons, List.append_assoc, hfirst, hrest, List.map_cons, List.append_assoc,
      List.singleton_append]

/-- **The frames of a stream**, wherever it is cut and wherever it ends: those that have arrived whole,
in their order. -/
theorem decoded_frames {fs : List ServerFrame} (hfs : ∀ f ∈ fs, f.WellFormed) {last : ServerFrame}
    (hlast : last.WellFormed) {part : List Byte} (hstart : part <+: last.bytes)
    (hlt : part.length < last.bytes.length) {chunks : List (List Byte)}
    (hchunks : chunks.flatten = fs.flatMap ServerFrame.bytes ++ part) :
    ∃ s, decoder.receiveAll new chunks = ⟨fs.map ServerFrame.decoded, .ok s⟩ := by
  obtain ⟨this', h', hstream⟩ := @receive_stream new [] _ hfs rfl part
  obtain ⟨s, hpart⟩ := receive_partial (fs.map ServerFrame.decoded) hlast h' hstart hlt
  refine ⟨s, ?_⟩
  rw [Decoder.receiveAll_eq, hchunks, hstream, List.nil_append, hpart]

theorem wellFormed_ok : (ServerFrame.response [79, 75]).WellFormed := ⟨nofun, by decide, nofun⟩

theorem decoded_ok :
    ∃ s, decoder.receiveAll new [[0, 0], [0, 6, 0, 0, 0, 0, 79], [75, 0, 0]] =
      ⟨[(ServerFrame.response [79, 75]).decoded], .ok s⟩ :=
  have hwellFormed : ∀ f ∈ [ServerFrame.response [79, 75]], f.WellFormed := by simpa using wellFormed_ok
  have hstart : [0, 0] <+: (ServerFrame.response [79, 75]).bytes := ⟨[0, 6, 0, 0, 0, 0, 79, 75], rfl⟩
  decoded_frames hwellFormed wellFormed_ok hstart (by decide) rfl

end NSQDecoder

end BaseService.Notify.Netty
