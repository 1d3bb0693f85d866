import BaseService.Data.Prefixed
import BaseService.Notify.Batch
import BaseService.Java

/-!
# `NSQEncoder`

* `NSQEncoder.encode` : the bytes of a command; `produceMulti` : the command that is sent;
* `Mpub.parse` : the grammar of `nsqd` for what follows the line of an `MPUB`; `parse_eq_some_iff` : it
  accepts just the bodies;
* `Batch.Accounted` : the running total of a batch is the size of its messages;
* `encode_produceMulti` : the bytes, the grammar and the total agree.
-/

namespace BaseService.Notify

structure NSQCommand where
  line : String
  data : List (List Byte)
  deriving DecidableEq, Repr

namespace NSQCommand

def setLine (line : String) : String := if line.endsWith "\n" then line else line ++ "\n"

/-- `instance(line)`. -/
def new (line : String) : NSQCommand := ⟨setLine line, []⟩

def addBytes (this : NSQCommand) (bytes : List Byte) : NSQCommand :=
  { this with data := this.data ++ [bytes] }

def setData (this : NSQCommand) (data : List (List Byte)) : NSQCommand := { this with data }

end NSQCommand

namespace NSQEncoder

/-- `getBytes("utf8")`. -/
def getBytes (s : String) : List Byte := s.toUTF8.data.toList.map UInt8.toBitVec

/-- `writeInt`. -/
def writeInt (x : Int) : List Byte := Bytes.encode 4 (x % 2 ^ 32).toNat

/-- The loop that adds up the `int` size of the body. -/
def bodySize (data : List (List Byte)) : Int :=
  data.foldl (fun bodySize data => wrapInt (wrapInt (bodySize + 4) + data.length)) 4

def encode (com : NSQCommand) : List Byte :=
  let buf := getBytes com.line
  let buf := if com.data.length > 1 then
      buf ++ writeInt (bodySize com.data) ++ writeInt com.data.length
    else buf
  com.data.foldl (fun buf data => buf ++ writeInt data.length ++ data) buf

end NSQEncoder

/-- The command that `produceMulti` sends. -/
def NSQProducer.produceMulti (topic : String) : List (List Byte) → Option NSQCommand
  | [] => none
  | [message] => some ((NSQCommand.new ("PUB " ++ topic)).addBytes message)
  | messages => some ((NSQCommand.new ("MPUB " ++ topic)).setData messages)

/-! ## The grammar -/

namespace Mpub
open Prefixed

/-- What the body of an `MPUB` takes: the count and the messages with their sizes. -/
def size (messages : List (List Byte)) : Nat := 4 + (messages.map fun m => 4 + m.length).sum

/-- A size, a count and the messages. -/
def body (messages : List (List Byte)) : List Byte :=
  Bytes.encode 4 (size messages) ++ (Bytes.encode 4 messages.length ++ putAll 4 messages)

/-- The size is a positive `int` and covers what follows it; after the messages nothing is left. -/
def parse (bytes : List Byte) : Option (List (List Byte)) :=
  let rest := bytes.drop 4
  let messages := rest.drop 4
  if 8 ≤ bytes.length ∧ Bytes.decode (bytes.take 4) = rest.length ∧ rest.length < 2 ^ 31 then
    match getAll 4 (Bytes.decode (rest.take 4)) messages with
    | some (ms, []) => some ms
    | _ => none
  else none

variable {bytes : List Byte} {messages : List (List Byte)}

theorem size_eq (messages : List (List Byte)) :
    size messages = (Bytes.encode 4 messages.length ++ putAll 4 messages).length := by
  rw [List.length_append, Bytes.encode_length, putAll_length, size]

/-- The count and the sizes are smaller than the size. -/
theorem size_bounds (messages : List (List Byte)) :
    messages.length < size messages ∧ ∀ m ∈ messages, m.length < size messages := by
  unfold size
  induction messages with
  | nil => simp
  | cons m ms ih =>
    simp only [List.length_cons, List.map_cons, List.sum_cons, List.forall_mem_cons]
    refine ⟨by omega, by omega, fun m hm => ?_⟩
    have := ih.2 m hm
    omega

/-- **What the grammar accepts**: the body of the messages that it gives, if its size is an `int`. -/
theorem parse_eq_some_iff :
    parse bytes = some messages ↔ bytes = body messages ∧ size messages < 2 ^ 31 := by
  unfold parse
  dsimp only
  constructor
  · intro h
    split at h
    · next hsize =>
      obtain ⟨hlength, hdecode, hlt⟩ := hsize
      split at h
      · next ms hget =>
        cases h
        obtain ⟨hmessages, hcount, -⟩ := getAll_eq_some_iff.mp hget
        rw [List.append_nil] at hmessages
        have hrest : bytes.drop 4 = Bytes.encode 4 messages.length ++ putAll 4 messages := by
          rw [← hmessages, hcount, ← Bytes.take_eq_encode (by rw [List.length_drop]; omega),
            List.take_append_drop]
        rw [hrest, ← size_eq] at hlt hdecode
        refine ⟨?_, hlt⟩
        rw [body, ← hrest, ← hdecode, ← Bytes.take_eq_encode (by omega), List.take_append_drop]
      · cases h
    · cases h
  · rintro ⟨rfl, hlt⟩
    have htake (n : Nat) (rest : List Byte) : (Bytes.encode 4 n ++ rest).take 4 = Bytes.encode 4 n :=
      List.take_left' (Bytes.encode_length 4 n)
    have hdrop (n : Nat) (rest : List Byte) : (Bytes.encode 4 n ++ rest).drop 4 = rest :=
      List.drop_left' (Bytes.encode_length 4 n)
    have hbound := size_bounds messages
    rw [body, htake, hdrop, htake, hdrop, Bytes.decode_encode, Bytes.decode_encode, ← size_eq,
      Nat.mod_eq_of_lt (by omega), Nat.mod_eq_of_lt (by omega), if_pos]
    · rw [getAll_eq_some_iff.mpr ⟨(List.append_nil _).symm, rfl, fun m hm => ?_⟩]
      have := hbound.2 m hm
      omega
    · refine ⟨?_, rfl, hlt⟩
      rw [← List.append_assoc, List.length_append, List.length_append, Bytes.encode_length,
        Bytes.encode_length]
      omega

end Mpub

/-! ## The encoder -/

namespace NSQEncoder
open Prefixed

theorem writeInt_ofNat {n : Nat} (h : n < 2 ^ 31) : writeInt n = Bytes.encode 4 n := by
  unfold writeInt
  congr 1
  omega

/-- The sizes that are added to `n`. -/
theorem bodySize_from (data : List (List Byte)) {n : Nat}
    (h : n + (data.map fun m => 4 + m.length).sum < 2 ^ 31) :
    data.foldl (fun bodySize data => wrapInt (wrapInt (bodySize + 4) + data.length)) (n : Int) =
      (n + (data.map fun m => 4 + m.length).sum : Nat) := by
  induction data generalizing n with
  | nil => simp
  | cons m data ih =>
    rw [List.map_cons, List.sum_cons] at h ⊢
    have hstep : wrapInt (wrapInt ((n : Int) + 4) + m.length) = (n + (4 + m.length) : Nat) := by
      rw [wrapInt_of_range (x := (n : Int) + 4) (by omega) (by omega),
        wrapInt_of_range (by omega) (by omega)]
      omega
    rw [List.foldl_cons, hstep, ih (by omega), Nat.add_assoc]

theorem bodySize_eq {data : List (List Byte)} (h : Mpub.size data < 2 ^ 31) :
    bodySize data = Mpub.size data := by
  unfold Mpub.size at h
  exact bodySize_from data h

/-- The loop that writes the messages. -/
theorem foldl_write (buf : List Byte) {data : List (List Byte)}
    (h : ∀ m ∈ data, m.length < 2 ^ 31) :
    data.foldl (fun buf data => buf ++ writeInt data.length ++ data) buf = buf ++ putAll 4 data := by
  induction data generalizing buf with
  | nil => simp [putAll]
  | cons m data ih =>
    rw [List.forall_mem_cons] at h
    rw [List.foldl_cons, ih _ h.2, writeInt_ofNat h.1]
    simp [putAll, put]

/-- After the line comes a body. -/
theorem encode_eq {com : NSQCommand} (hdata : 2 ≤ com.data.length)
    (h : Mpub.size com.data < 2 ^ 31) : encode com = getBytes com.line ++ Mpub.body com.data := by
  have hbound := Mpub.size_bounds com.data
  unfold encode Mpub.body
  dsimp only
  have hlt (m : List Byte) (hm : m ∈ com.data) : m.length < 2 ^ 31 := (hbound.2 m hm).trans h
  rw [foldl_write _ hlt, if_pos (show com.data.length > 1 from hdata), bodySize_eq h,
    writeInt_ofNat h, writeInt_ofNat (hbound.1.trans h)]
  simp only [List.append_assoc]

end NSQEncoder

/-! ## The total of a batch -/

namespace Batch

/-- The calls on a batch; `getAndClearIfReady` with what it returns. -/
inductive Call
  | addMessage (now : Int64) (bytes : List Byte)
  | getAndClear
  | getAndClearIfReady (now : Int64) (messages : Option (List (List Byte)))
  | setMaxSeconds (maxSeconds : Int64)
  | setMaxBytes (maxBytes : Int64)
  | setMaxMessages (maxMessages : Int32)

inductive Step : Batch → Call → Batch → Prop
  | addMessage {this : Batch} {now : Int64} {bytes : List Byte} :
    Step this (.addMessage now bytes) (this.addMessage now bytes)
  | getAndClear {this : Batch} : Step this .getAndClear this.clear
  | ready {this : Batch} {now : Int64} :
    this.isReady now = true → Step this (.getAndClearIfReady now (some this.messages)) this.clear
  | notReady {this : Batch} {now : Int64} :
    this.isReady now = false → Step this (.getAndClearIfReady now none) this
  | setMaxSeconds {this : Batch} (maxSeconds : Int64) :
    Step this (.setMaxSeconds maxSeconds) { this with maxSeconds }
  | setMaxBytes {this : Batch} (maxBytes : Int64) :
    Step this (.setMaxBytes maxBytes) { this with maxBytes }
  | setMaxMessages {this : Batch} (maxMessages : Int32) :
    Step this (.setMaxMessages maxMessages) { this with maxMessages }

/-- What has been added since the batch was last cleared. -/
def added (calls : List Call) : List (List Byte) :=
  calls.foldl (fun messages call =>
    match call with
    | .addMessage _ bytes => messages ++ [bytes]
    | .getAndClear | .getAndClearIfReady _ (some _) => []
    | _ => messages) []

/-- Modulo `2 ^ 64`. -/
def Accounted (this : Batch) : Prop := this.totalBytes = .ofNat (Mpub.size this.messages)

theorem Accounted.addMessage {this : Batch} (h : this.Accounted) (now : Int64) (bytes : List Byte) :
    (this.addMessage now bytes).Accounted := by
  unfold Accounted at h ⊢
  have hsize : Mpub.size (this.messages ++ [bytes]) =
      Mpub.size this.messages + bytes.length + 4 := by
    simp only [Mpub.size, List.map_append, List.sum_append, List.map_cons, List.map_nil,
      List.sum_cons, List.sum_nil]
    omega
  unfold Batch.addMessage
  rw [h, hsize, Int64.ofNat_add, Int64.ofNat_add]
  rfl

/-- **The total of a batch**, after any calls. -/
theorem run_accounted {calls : List Call} {this : Batch} (h : Run Step .new calls this) :
    this.messages = added calls ∧ this.Accounted := by
  refine h.history (I := fun calls this => this.messages = added calls ∧ this.Accounted)
    ⟨rfl, rfl⟩ fun calls this call this' ih hs => ?_
  obtain ⟨hmessages, haccounted⟩ := ih
  unfold added at hmessages ⊢
  rw [List.foldl_append, ← hmessages]
  cases hs with
  | addMessage => exact ⟨rfl, haccounted.addMessage _ _⟩
  | getAndClear | ready => exact ⟨rfl, rfl⟩
  | _ => exact ⟨rfl, haccounted⟩

theorem Accounted.toInt {this : Batch} (h : this.Accounted) (hfits : Mpub.size this.messages < 2 ^ 31) :
    this.totalBytes.toInt = Mpub.size this.messages := by
  rw [h, Int64.toInt_ofNat_of_lt (by omega)]

end Batch

/-- The command for `messages`, and what the encoder writes after its line. -/
structure Mpub.Framed (topic : String) (messages : List (List Byte)) (command : NSQCommand)
    (body : List Byte) : Prop where
  sent : NSQProducer.produceMulti topic messages = some command
  encoded : NSQEncoder.encode command =
    NSQEncoder.getBytes (NSQCommand.setLine ("MPUB " ++ topic)) ++ body
  framed : body = NSQEncoder.writeInt (NSQEncoder.bodySize messages) ++
    (NSQEncoder.writeInt messages.length ++ Prefixed.putAll 4 messages)
  parsed : Mpub.parse body = some messages
  sized : NSQEncoder.bodySize messages = (body.drop 4).length
  /-- A batch to which these have been added since it was cleared. -/
  total : ∀ (calls : List Batch.Call) (batch : Batch), Run Batch.Step .new calls batch →
    Batch.added calls = messages → batch.totalBytes.toInt = NSQEncoder.bodySize messages

/-- **An `MPUB` is framed exactly**, and its size is the total of every batch with its messages. -/
theorem encode_produceMulti (topic : String) {messages : List (List Byte)}
    (hmessages : 2 ≤ messages.length) (hfits : Mpub.size messages < 2 ^ 31) :
    ∃ command body, Mpub.Framed topic messages command body := by
  have hbound := Mpub.size_bounds messages
  refine ⟨(NSQCommand.new ("MPUB " ++ topic)).setData messages, Mpub.body messages, ?_, ?_, ?_, ?_,
    ?_, fun calls batch hrun hadded => ?_⟩
  · match messages, hmessages with
    | _ :: _ :: _, _ => rfl
  · exact NSQEncoder.encode_eq hmessages hfits
  · rw [NSQEncoder.bodySize_eq hfits, NSQEncoder.writeInt_ofNat hfits,
      NSQEncoder.writeInt_ofNat (by omega)]
    rfl
  · exact Mpub.parse_eq_some_iff.mpr ⟨rfl, hfits⟩
  · rw [NSQEncoder.bodySize_eq hfits, Mpub.body, List.drop_left' (Bytes.encode_length 4 _),
      Mpub.size_eq]
  · obtain ⟨hbatch, haccounted⟩ := Batch.run_accounted hrun
    rw [hadded] at hbatch
    rw [haccounted.toInt (by rwa [hbatch]), hbatch, NSQEncoder.bodySize_eq hfits]

/-- A message and an empty one. -/
theorem encode_produceMulti_two : 2 ≤ [[120#8], []].length ∧ Mpub.size [[120#8], []] < 2 ^ 31 ∧
    ∃ command body, Mpub.Framed "t" [[120#8], []] command body :=
  ⟨by decide, by decide, encode_produceMulti "t" (by decide) (by decide)⟩

end BaseService.Notify
