import BaseService.Data.Bytes
import BaseService.Data.Runs

/-!
# Batches of messages

* `Batch` : the messages that wait, with the thresholds; its methods are synchronized;
* `NSQProducer` : the batches by topic, and the calls of `produceBatch`, `configureBatch`,
  `flushBatches` and `close`;
* `Step` : a method of a batch, or an operation of the map.
-/

namespace BaseService.Notify
open Function (update)

structure Batch where
  maxBytes : Int64
  maxMessages : Int32
  maxSeconds : Int64
  totalMessages : Int64
  totalBytes : Int64
  expire : Option Int64
  messages : List (List Byte)

namespace Batch

/-- A new batch. -/
def new : Batch where
  maxBytes := 1024768 - 50000
  maxMessages := 500
  maxSeconds := 30
  totalMessages := 0
  totalBytes := 4
  expire := none
  messages := []

/-- `configureBatch` sets the thresholds that are not null. -/
def configured (maxMessages : Option Int32) (maxBytes : Option Int64) (maxSeconds : Option Int32) :
    Batch where
  maxBytes := maxBytes.getD new.maxBytes
  maxMessages := maxMessages.getD new.maxMessages
  maxSeconds := (maxSeconds.map Int32.toInt64).getD new.maxSeconds
  totalMessages := 0
  totalBytes := 4
  expire := none
  messages := []

def addMessage (this : Batch) (now : Int64) (bytes : List Byte) : Batch :=
  { this with
    expire := some (this.expire.getD (now + 1000 * this.maxSeconds))
    totalMessages := this.totalMessages + 1
    totalBytes := this.totalBytes + .ofNat bytes.length + 4
    messages := this.messages ++ [bytes] }

/-- The batch after `getAndClear`. -/
def clear (this : Batch) : Batch :=
  { this with totalBytes := 4, totalMessages := 0, expire := none, messages := [] }

/-- When `getAndClearIfReady` does not return null. -/
def isReady (this : Batch) (now : Int64) : Bool :=
  this.totalBytes ≥ this.maxBytes ∨ this.totalMessages ≥ this.maxMessages.toInt64 ∨
    this.expire.any (· < now)

end Batch

namespace NSQProducer

inductive Call
  | produceBatch (topic : String) (message : List Byte)
  | configureBatch (topic : String) (maxMessages : Option Int32) (maxBytes : Option Int64)
    (maxSeconds : Option Int32)
  | flushBatches
  | close

/-- What a call does next. A flush goes on with the topics that its iterator has not come to. -/
inductive Phase
  | containsKey (topic : String) (message : List Byte)
  | putIfAbsent (topic : String) (message : List Byte)
  | get (topic : String) (message : List Byte)
  | addMessage (b : Nat) (message : List Byte)
  | getAndClearIfReady (b : Nat)
  | put (topic : String) (maxMessages : Option Int32) (maxBytes : Option Int64)
    (maxSeconds : Option Int32)
  | keySet (closing : Bool)
  | flush (todo : List String) (closing : Bool)
  | getAndClear (b : Nat) (flushing : Option (List String × Bool))
  | sendBatch (messages : List (List Byte)) (flushing : Option (List String × Bool))
  | superClose
  | returned
  | threw

def Call.start : Call → Phase
  | produceBatch topic message => .containsKey topic message
  | configureBatch topic maxMessages maxBytes maxSeconds =>
    .put topic maxMessages maxBytes maxSeconds
  | flushBatches => .keySet false
  | close => .keySet true

/-- The message that a call has been passed. -/
def Call.message : Call → List (List Byte)
  | produceBatch _ message => [message]
  | _ => []

end NSQProducer

open NSQProducer in
/-- The producer with its batches, which are numbered, and the calls. -/
structure NSQProducer where
  batches : String → Option Nat
  batch : Nat → Batch
  created : Nat
  phase : Nat → Phase
  calls : Nat
  /-- The messages passed to `produceBatch`. -/
  passed : List (List Byte)
  /-- The messages of calls that have thrown a `NullPointerException`. -/
  thrown : List (List Byte)
  /-- The batches handed to `sendBatch`. -/
  sent : List (List (List Byte))

namespace NSQProducer

def start : NSQProducer := ⟨fun _ => none, fun _ => .new, 0, fun _ => .returned, 0, [], [], []⟩

def goto (s : NSQProducer) (i : Nat) (phase : Phase) : NSQProducer :=
  { s with phase := update s.phase i phase }

def setBatch (s : NSQProducer) (b : Nat) (batch : Batch) : NSQProducer :=
  { s with batch := update s.batch b batch }

/-- The topic gets a new batch. -/
def newBatch (s : NSQProducer) (topic : String) (old : Option Nat) (batch : Batch) : NSQProducer :=
  { s with
    batches := update s.batches topic (some (old.getD s.created))
    batch := update s.batch s.created batch
    created := s.created + 1 }

def removeTopic (s : NSQProducer) (topic : String) : NSQProducer :=
  { s with batches := update s.batches topic none }

/-- After a batch has been detached, or there was none. -/
def detached (old : Option Nat) (flushing : Option (List String × Bool)) : Phase :=
  match old, flushing with
  | some b, _ => .getAndClear b flushing
  | none, some (todo, closing) => .flush todo closing
  | none, none => .returned

/-- A call is numbered; a step of a call has the time at which it happens. -/
inductive Label
  | call (c : Call)
  | step (i : Nat) (now : Int64)

inductive Step : NSQProducer → Label → NSQProducer → Prop
  | call {s : NSQProducer} (c : Call) :
    Step s (.call c) ({ s with
      calls := s.calls + 1
      passed := s.passed ++ c.message }.goto s.calls c.start)
  | containsKey {s : NSQProducer} {i : Nat} {now : Int64} {topic : String} {message : List Byte} :
    s.phase i = .containsKey topic message →
      Step s (.step i now) (s.goto i (if s.batches topic = none then .putIfAbsent topic message
        else .get topic message))
  | putIfAbsent {s : NSQProducer} {i : Nat} {now : Int64} {topic : String} {message : List Byte} :
    s.phase i = .putIfAbsent topic message →
      Step s (.step i now) ((s.newBatch topic (s.batches topic) .new).goto i (.get topic message))
  | get {s : NSQProducer} {i b : Nat} {now : Int64} {topic : String} {message : List Byte} :
    s.phase i = .get topic message → s.batches topic = some b →
      Step s (.step i now) (s.goto i (.addMessage b message))
  | getNull {s : NSQProducer} {i : Nat} {now : Int64} {topic : String} {message : List Byte} :
    s.phase i = .get topic message → s.batches topic = none →
      Step s (.step i now) ({ s with thrown := s.thrown ++ [message] }.goto i .threw)
  | addMessage {s : NSQProducer} {i b : Nat} {now : Int64} {message : List Byte} :
    s.phase i = .addMessage b message →
      Step s (.step i now)
        ((s.setBatch b ((s.batch b).addMessage now message)).goto i (.getAndClearIfReady b))
  | ready {s : NSQProducer} {i b : Nat} {now : Int64} :
    s.phase i = .getAndClearIfReady b → (s.batch b).isReady now = true →
      Step s (.step i now)
        ((s.setBatch b (s.batch b).clear).goto i (.sendBatch (s.batch b).messages none))
  | notReady {s : NSQProducer} {i b : Nat} {now : Int64} :
    s.phase i = .getAndClearIfReady b → (s.batch b).isReady now = false →
      Step s (.step i now) (s.goto i .returned)
  | put {s : NSQProducer} {i : Nat} {now : Int64} {topic : String} {maxMessages : Option Int32}
    {maxBytes : Option Int64} {maxSeconds : Option Int32} :
    s.phase i = .put topic maxMessages maxBytes maxSeconds →
      Step s (.step i now)
        ((s.newBatch topic none (.configured maxMessages maxBytes maxSeconds)).goto i
          (detached (s.batches topic) none))
  /-- The iterator comes at least to the topics that there are now. -/
  | keySet {s : NSQProducer} {i : Nat} {now : Int64} {closing : Bool} {todo : List String} :
    s.phase i = .keySet closing → (∀ topic, s.batches topic ≠ none → topic ∈ todo) →
      Step s (.step i now) (s.goto i (.flush todo closing))
  | remove {s : NSQProducer} {i : Nat} {now : Int64} {topic : String} {todo : List String}
    {closing : Bool} :
    s.phase i = .flush (topic :: todo) closing →
      Step s (.step i now)
        ((s.removeTopic topic).goto i (detached (s.batches topic) (some (todo, closing))))
  | flushed {s : NSQProducer} {i : Nat} {now : Int64} {closing : Bool} :
    s.phase i = .flush [] closing →
      Step s (.step i now) (s.goto i (if closing then .superClose else .returned))
  | getAndClear {s : NSQProducer} {i b : Nat} {now : Int64}
    {flushing : Option (List String × Bool)} :
    s.phase i = .getAndClear b flushing →
      Step s (.step i now)
        ((s.setBatch b (s.batch b).clear).goto i (.sendBatch (s.batch b).messages flushing))
  | sendBatch {s : NSQProducer} {i : Nat} {now : Int64} {messages : List (List Byte)}
    {flushing : Option (List String × Bool)} :
    s.phase i = .sendBatch messages flushing →
      Step s (.step i now)
        ({ s with sent := s.sent ++ [messages] }.goto i (detached none flushing))
  /-- The callback throws from `batchError`. -/
  | sendBatchThrows {s : NSQProducer} {i : Nat} {now : Int64} {messages : List (List Byte)}
    {flushing : Option (List String × Bool)} :
    s.phase i = .sendBatch messages flushing → messages ≠ [] →
      Step s (.step i now) ({ s with sent := s.sent ++ [messages] }.goto i .threw)
  | superClose {s : NSQProducer} {i : Nat} {now : Int64} :
    s.phase i = .superClose → Step s (.step i now) (s.goto i .returned)

end NSQProducer

end BaseService.Notify
