import BaseService.Notify.Message

/-!
# The message callback

The callback that `Consumers.register` and, with the same body, `SmcNSQConsumer.register` give to
their consumers.

* `message` : the listeners it runs, the commands it sends and its outcome;
* `excuteAll_accepted`, `excuteAll_rejected` : its loop;
* `message_settles_iff` : when it settles a message exactly once.
-/

namespace BaseService.Notify

/-- `NSQMessage`, without its connection. -/
structure NSQMessage where
  id : List Byte
  attempts : Int
  timestamp : Int
  message : Option (List Byte)

/-- The commands a consumer sends. -/
inductive Command
  | FIN (id : List Byte)
  | REQ (id : List Byte) (timeoutMillis : Int)
  | RDY (count : Int)
  deriving DecidableEq, Repr

namespace Consumers

/-- What a run of the callback did. -/
structure Handled (L : Type) where
  invoked : List L
  commands : List Command
  outcome : Outcome Unit

section
variable {L : Type}

/-- A listener has rejected the message. A requeued message gets `msg.toString()` as its body,
which is not sent anywhere; of a null `msg` that is an exception. -/
def reject (msg : Option Message) (retry : Int) (message : NSQMessage) : Handled L :=
  if message.attempts > retry ∧ retry > 0 then ⟨[], [.FIN message.id], .ok ()⟩
  else
    match msg with
    | none => ⟨[], [], .error .nullPointer⟩
    | some _ => ⟨[], [.REQ message.id 0], .ok ()⟩

/-- `for (ConsumerListener each : listeners)`. -/
def excuteAll (excute : L → Option Message → Bool) (msg : Option Message) (retry : Int)
    (message : NSQMessage) : List L → Handled L
  | [] => ⟨[], [.FIN message.id], .ok ()⟩
  | each :: listeners =>
    let handled := if excute each msg then excuteAll excute msg retry message listeners
      else reject msg retry message
    { handled with invoked := each :: handled.invoked }

/-- The callback of a consumer registered with `retry`. `listeners` is what `LISTENER_LIST` has for
the topic, in the order of its iteration. -/
def message (platform : Platform) (excute : L → Option Message → Bool)
    (listeners : Option (List L)) (retry : Int) (message : NSQMessage) : Handled L :=
  match message.message with
  | none => ⟨[], [.FIN message.id], .ok ()⟩
  | some body =>
    let msg := Message.convert platform (platform.newString body)
    excuteAll excute msg retry message (listeners.getD [])

/-- The reply that a delivery calls for: `FIN` if all listeners accept, else as `retry` says. -/
def reply (accepted : Prop) [Decidable accepted] (retry : Int) (message : NSQMessage) : Command :=
  if accepted ∨ message.attempts > retry ∧ retry > 0 then .FIN message.id else .REQ message.id 0

variable {excute : L → Option Message → Bool} {msg : Option Message} {retry : Int} {m : NSQMessage}
  {listeners : List L}

theorem excuteAll_accepted (h : ∀ l ∈ listeners, excute l msg = true) :
    excuteAll excute msg retry m listeners = ⟨listeners, [.FIN m.id], .ok ()⟩ := by
  induction listeners with
  | nil => rfl
  | cons l ls ih =>
    rw [excuteAll, if_pos (h l (by simp)), ih (fun l hl => h l (by simp [hl]))]

/-- The first rejection ends the loop. -/
theorem excuteAll_rejected (h : ∃ l ∈ listeners, excute l msg = false) :
    (excuteAll excute msg retry m listeners).commands = (reject msg retry m : Handled L).commands ∧
      (excuteAll excute msg retry m listeners).outcome =
        (reject msg retry m : Handled L).outcome := by
  induction listeners with
  | nil => simp at h
  | cons l ls ih =>
    rw [excuteAll]
    cases hl : excute l msg with
    | false => exact ⟨rfl, rfl⟩
    | true =>
      refine ih ?_
      obtain ⟨l', hl', hr⟩ := h
      rcases List.mem_cons.mp hl' with rfl | hl'
      · rw [hl] at hr
        cases hr
      · exact ⟨l', hl', hr⟩

/-- **When a delivery is settled**: exactly one reply is sent, the right one, and the callback
returns, unless a listener rejects a null message that is to be requeued. -/
theorem message_settles_iff (platform : Platform) (excute : L → Option Message → Bool)
    (listeners : List L) (retry : Int) (m : NSQMessage) (body : List Byte)
    (hm : m.message = some body) :
    let msg := Message.convert platform (platform.newString body)
    let handled := message platform excute (some listeners) retry m
    (handled.commands = [reply (∀ l ∈ listeners, excute l msg = true) retry m] ∧
        handled.outcome = .ok ()) ↔
      ¬ (msg = none ∧ (∃ l ∈ listeners, excute l none = false) ∧
        ¬ (m.attempts > retry ∧ retry > 0)) := by
  intro msg handled
  have hhandled : handled = excuteAll excute msg retry m listeners := by
    simp only [handled, message, hm, Option.getD_some]
    rfl
  rw [hhandled]
  by_cases hall : ∀ l ∈ listeners, excute l msg = true
  · rw [excuteAll_accepted hall, reply, if_pos (Or.inl hall)]
    refine iff_of_true ⟨rfl, rfl⟩ ?_
    rintro ⟨hmsg, ⟨l, hl, hr⟩, -⟩
    have := hall l hl
    rw [hmsg, hr] at this
    cases this
  · have hex : ∃ l ∈ listeners, excute l msg = false := by
      push Not at hall
      obtain ⟨l, hl, hr⟩ := hall
      exact ⟨l, hl, by simpa using hr⟩
    obtain ⟨hc, ho⟩ :
        (excuteAll excute msg retry m listeners).commands = (reject msg retry m : Handled L).commands ∧
          (excuteAll excute msg retry m listeners).outcome =
            (reject msg retry m : Handled L).outcome := excuteAll_rejected hex
    rw [hc, ho]
    unfold reject
    by_cases hretry : m.attempts > retry ∧ retry > 0
    · rw [if_pos hretry, reply, if_pos (Or.inr hretry)]
      exact iff_of_true ⟨rfl, rfl⟩ (fun h => h.2.2 hretry)
    · rw [if_neg hretry, reply, if_neg (not_or.mpr ⟨hall, hretry⟩)]
      clear hc ho
      cases hmsg : msg with
      | none =>
        rw [hmsg] at hex
        exact iff_of_false (fun h => by cases h.2) (fun h => h ⟨rfl, hex, hretry⟩)
      | some _ => exact iff_of_true ⟨rfl, rfl⟩ (fun h => by cases h.1)

/-- ISO-8859-1, and json-lib on texts without braces. -/
def plainText : Platform where
  newString bytes := String.ofList (bytes.map fun b => Char.ofNat b.toNat)
  toBean json := if json = "null" then .ok none else .error .jsonException

theorem message_settles_text :
    let handled := message plainText (fun l _ => l) (some [true, false]) 3
      ⟨[7], 4, 0, some [120#8]⟩
    handled.commands = [reply (∀ l ∈ [true, false], l = true) 3 ⟨[7], 4, 0, some [120#8]⟩] ∧
      handled.outcome = .ok () :=
  (message_settles_iff plainText (fun l _ => l) [true, false] 3 ⟨[7], 4, 0, some [120#8]⟩ [120#8]
    rfl).mpr (by decide)

/-- An empty body is a null message: rejected, it is neither finished nor requeued. -/
theorem message_unsettled :
    message plainText (fun l _ => l) (some [false]) (-1) ⟨[7], 1, 0, some []⟩ =
      ⟨[false], [], .error .nullPointer⟩ := by
  rfl

end

end Consumers

end BaseService.Notify
