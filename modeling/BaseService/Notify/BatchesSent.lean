import BaseService.Notify.Batch
import BaseService.Data.Tally

/-!
# Whether every batched message is sent

A producer looks up its batch and adds to it in two steps; a flush or `configureBatch` may detach the
batch and clear it between them.

* `conserved` : a message passed is sent, thrown away, in a batch, or in the hands of a call;
* `Kept` : who has messages is in the map, or in the hands of a call; `Lost` : some batch is neither;
* `Clean` : the steps that lose nothing; `history` : a run has only such steps, or has lost a message;
* `batchesSent_iff` : everything is sent just if all the steps were clean.
-/

namespace BaseService.Notify
open Function (update)

namespace NSQProducer

/-! ## What a call has in its hands -/

/-- The messages that are in no batch. -/
def Phase.hand : Phase → List (List Byte)
  | .containsKey _ message | .putIfAbsent _ message | .get _ message | .addMessage _ message =>
    [message]
  | .sendBatch messages _ => messages
  | _ => []

/-- The call goes on to look into the batch. -/
def Phase.Holds (b : Nat) : Phase → Prop
  | .addMessage b' _ | .getAndClearIfReady b' | .getAndClear b' _ => b' = b
  | _ => False

/-- A `produceBatch` before its last method of the batch. -/
def Phase.Producing : Phase → Prop
  | .containsKey _ _ | .putIfAbsent _ _ | .get _ _ | .addMessage _ _ | .getAndClearIfReady _ => True
  | _ => False

/-- The topics that a flush comes to yet. -/
def Phase.todo : Phase → List String
  | .flush todo _ => todo
  | .getAndClear _ flushing | .sendBatch _ flushing => flushing.elim [] Prod.fst
  | _ => []

@[simp] theorem hand_start (c : Call) : c.start.hand = c.message := by
  cases c <;> rfl

@[simp] theorem hand_detached (old : Option Nat) (flushing : Option (List String × Bool)) :
    (detached old flushing).hand = [] := by
  rcases old with _ | b <;> rcases flushing with _ | ⟨todo, closing⟩ <;> rfl

@[simp] theorem todo_detached (old : Option Nat) (flushing : Option (List String × Bool)) :
    (detached old flushing).todo = flushing.elim [] Prod.fst := by
  rcases old with _ | b <;> rcases flushing with _ | ⟨todo, closing⟩ <;> rfl

theorem not_producing_detached (old : Option Nat) (flushing : Option (List String × Bool)) :
    ¬ (detached old flushing).Producing := by
  rcases old with _ | b <;> rcases flushing with _ | ⟨todo, closing⟩ <;> exact id

@[simp] theorem holds_start (b : Nat) (c : Call) : ¬ c.start.Holds b := by
  cases c <;> exact id

@[simp] theorem holds_detached (b : Nat) (old : Option Nat) (flushing : Option (List String × Bool)) :
    (detached old flushing).Holds b ↔ old = some b := by
  rcases old with _ | b' <;> rcases flushing with _ | ⟨todo, closing⟩ <;>
    simp [detached, Phase.Holds]

/-! ## Conservation -/

/-- How often a message stands in a batch. -/
def waiting (s : NSQProducer) (m : List Byte) : Nat :=
  tally (fun batch : Batch => batch.messages.count m) s.batch s.created

/-- How often a message is in the hands of a call. -/
def handed (s : NSQProducer) (m : List Byte) : Nat :=
  tally (fun phase : Phase => phase.hand.count m) s.phase s.calls

structure Invariant (s : NSQProducer) : Prop where
  called : ∀ i, s.calls ≤ i → s.phase i = .returned
  fresh : ∀ b, s.created ≤ b → (s.batch b).messages = []
  mapped : ∀ topic b, s.batches topic = some b → b < s.created
  held : ∀ i b, (s.phase i).Holds b → b < s.created
  conserved : ∀ m, s.passed.count m =
    s.sent.flatten.count m + s.thrown.count m + waiting s m + handed s m

section
variable {s s' : NSQProducer} {i b : Nat} {l : Label}

theorem Invariant.lt_calls (h : Invariant s) (hp : s.phase i ≠ .returned) : i < s.calls := by
  by_contra hi
  exact hp (h.called i (by omega))

theorem handed_goto (hi : i < s.calls) (p : Phase) (m : List Byte) :
    handed (s.goto i p) m + (s.phase i).hand.count m = handed s m + p.hand.count m :=
  tally_update hi p

theorem waiting_setBatch (hb : b < s.created) (batch : Batch) (m : List Byte) :
    waiting (s.setBatch b batch) m + (s.batch b).messages.count m =
      waiting s m + batch.messages.count m :=
  tally_update hb batch

theorem waiting_newBatch (topic : String) (old : Option Nat) (batch : Batch) (m : List Byte) :
    waiting (s.newBatch topic old batch) m = waiting s m + batch.messages.count m :=
  tally_push batch

/-- A call goes on to `p` when the rest of the step has led to `s'`. -/
theorem Invariant.goto (h : Invariant s) {p : Phase} (hp : s.phase i ≠ .returned)
    (hphase : s'.phase = s.phase) (hcalls : s'.calls = s.calls) (hcreated : s.created ≤ s'.created)
    (hfresh : ∀ b, s'.created ≤ b → (s'.batch b).messages = [])
    (hmapped : ∀ topic b, s'.batches topic = some b → b < s'.created)
    (hheld : ∀ b, p.Holds b → b < s'.created) (hpassed : s'.passed = s.passed)
    (hmoved : ∀ m, s'.sent.flatten.count m + s'.thrown.count m + waiting s' m + p.hand.count m =
      s.sent.flatten.count m + s.thrown.count m + waiting s m + (s.phase i).hand.count m) :
    Invariant (s'.goto i p) := by
  have hi : i < s'.calls := hcalls ▸ h.lt_calls hp
  refine ⟨?_, hfresh, hmapped, ?_, ?_⟩
  · intro j hj
    have hne : j ≠ i := by
      rintro rfl
      exact absurd hi (Nat.not_lt.mpr hj)
    show update s'.phase i p j = .returned
    rw [Function.update_of_ne hne, hphase]
    exact h.called j (hcalls ▸ hj)
  · intro j b hb
    change (update s'.phase i p j).Holds b at hb
    by_cases hne : j = i
    · subst hne
      rw [Function.update_self] at hb
      exact hheld b hb
    · rw [Function.update_of_ne hne, hphase] at hb
      exact (h.held j b hb).trans_le hcreated
  · intro m
    have hhanded := handed_goto (s := s') hi p m
    have hsame : handed s' m = handed s m := by
      unfold handed
      rw [hphase, hcalls]
    have hsum := h.conserved m
    have hnow := hmoved m
    rw [hsame, hphase] at hhanded
    show s'.passed.count m =
      s'.sent.flatten.count m + s'.thrown.count m + waiting s' m + handed (s'.goto i p) m
    rw [hpassed]
    omega

theorem Invariant.call (h : Invariant s) (c : Call) : Invariant ({ s with
    calls := s.calls + 1
    passed := s.passed ++ c.message }.goto s.calls c.start) := by
  refine ⟨?_, h.fresh, h.mapped, ?_, ?_⟩
  · intro j hj
    change s.calls + 1 ≤ j at hj
    show update s.phase s.calls c.start j = .returned
    rw [Function.update_of_ne (by omega)]
    exact h.called j (by omega)
  · intro j b hb
    change (update s.phase s.calls c.start j).Holds b at hb
    by_cases hj : j = s.calls
    · subst hj
      rw [Function.update_self] at hb
      exact absurd hb (holds_start b c)
    · rw [Function.update_of_ne hj] at hb
      exact h.held j b hb
  · intro m
    have hhanded : tally (fun phase : Phase => phase.hand.count m) (update s.phase s.calls c.start)
        (s.calls + 1) = handed s m + c.start.hand.count m := tally_push c.start
    have hsum := h.conserved m
    rw [hand_start] at hhanded
    show (s.passed ++ c.message).count m = s.sent.flatten.count m + s.thrown.count m + waiting s m +
      tally (fun phase : Phase => phase.hand.count m) (update s.phase s.calls c.start) (s.calls + 1)
    rw [List.count_append]
    omega

theorem Invariant.start : Invariant start where
  called _ _ := rfl
  fresh _ _ := rfl
  mapped _ _ h := by cases h
  held _ _ h := h.elim
  conserved _ := rfl

theorem Invariant.mapped_getD (h : Invariant s) (topic : String) (old : Option Nat)
    (hold : ∀ b, old = some b → b < s.created) (batch : Batch) (t : String) (b : Nat) :
    (s.newBatch topic old batch).batches t = some b → b < s.created + 1 := by
  intro hb
  change update s.batches topic (some (old.getD s.created)) t = some b at hb
  by_cases ht : t = topic
  · subst ht
    rw [Function.update_self, Option.some.injEq] at hb
    cases old with
    | none => exact hb ▸ Nat.lt_succ_self _
    | some b' => exact hb ▸ (hold b' rfl).trans (Nat.lt_succ_self _)
  · rw [Function.update_of_ne ht] at hb
    exact (h.mapped t b hb).trans (Nat.lt_succ_self _)

theorem Invariant.fresh_newBatch (h : Invariant s) (topic : String) (old : Option Nat) (batch : Batch)
    (b : Nat) (hb : s.created + 1 ≤ b) : ((s.newBatch topic old batch).batch b).messages = [] := by
  show (update s.batch s.created batch b).messages = []
  rw [Function.update_of_ne (by omega)]
  exact h.fresh b (by omega)

theorem Invariant.fresh_setBatch (h : Invariant s) (hb : b < s.created) (batch : Batch) (b' : Nat)
    (hb' : s.created ≤ b') : ((s.setBatch b batch).batch b').messages = [] := by
  show (update s.batch b batch b').messages = []
  rw [Function.update_of_ne (by omega)]
  exact h.fresh b' hb'

theorem Invariant.step (h : Invariant s) (hs : Step s l s') : Invariant s' := by
  cases hs with
  | call c => exact h.call c
  | @containsKey i now topic message hp =>
    refine h.goto (by simp [hp]) rfl rfl le_rfl h.fresh h.mapped ?_ rfl ?_
    · intro b hb
      split at hb <;> exact hb.elim
    · intro m
      rw [hp]
      split <;> rfl
  | @putIfAbsent i now topic message hp =>
    refine h.goto (by simp [hp]) rfl rfl (Nat.le_succ _) (h.fresh_newBatch _ _ _)
      (h.mapped_getD _ _ (h.mapped topic) _) (fun b hb => hb.elim) rfl ?_
    intro m
    rw [hp, waiting_newBatch]
    rfl
  | @get i b now topic message hp hb =>
    refine h.goto (by simp [hp]) rfl rfl le_rfl h.fresh h.mapped ?_ rfl ?_
    · rintro _ rfl
      exact h.mapped topic _ hb
    · intro m
      rw [hp]
      rfl
  | @getNull i now topic message hp hb =>
    refine h.goto (by simp [hp]) rfl rfl le_rfl h.fresh h.mapped (fun b hb => hb.elim) rfl ?_
    intro m
    simp [hp, Phase.hand, waiting]
    omega
  | @addMessage i b now message hp =>
    have hb : b < s.created := h.held i b (by simp [hp, Phase.Holds])
    refine h.goto (by simp [hp]) rfl rfl le_rfl (h.fresh_setBatch hb _) h.mapped ?_ rfl ?_
    · rintro _ rfl
      exact hb
    · intro m
      have hsum := waiting_setBatch hb ((s.batch b).addMessage now message) m
      simp only [Batch.addMessage, List.count_append] at hsum
      simp only [hp, Phase.hand, Batch.addMessage, List.count_nil, setBatch] at hsum ⊢
      omega
  | @ready i b now hp hready =>
    have hb : b < s.created := h.held i b (by simp [hp, Phase.Holds])
    refine h.goto (by simp [hp]) rfl rfl le_rfl (h.fresh_setBatch hb _) h.mapped
      (fun b hb => hb.elim) rfl ?_
    intro m
    have hsum := waiting_setBatch hb (s.batch b).clear m
    simp only [hp, Phase.hand, Batch.clear, List.count_nil, setBatch] at hsum ⊢
    omega
  | @notReady i b now hp hready =>
    refine h.goto (by simp [hp]) rfl rfl le_rfl h.fresh h.mapped (fun b hb => hb.elim) rfl ?_
    intro m
    rw [hp]
    rfl
  | @put i now topic maxMessages maxBytes maxSeconds hp =>
    refine h.goto (by simp [hp]) rfl rfl (Nat.le_succ _) (h.fresh_newBatch _ _ _)
      (h.mapped_getD _ _ (by rintro _ ⟨⟩) _) ?_ rfl ?_
    · intro b hb
      rw [holds_detached] at hb
      exact (h.mapped topic b hb).trans (Nat.lt_succ_self _)
    · intro m
      rw [hp, waiting_newBatch, hand_detached]
      rfl
  | @keySet i now closing todo hp htodo =>
    refine h.goto (by simp [hp]) rfl rfl le_rfl h.fresh h.mapped (fun b hb => hb.elim) rfl ?_
    intro m
    rw [hp]
    rfl
  | @remove i now topic todo closing hp =>
    refine h.goto (by simp [hp]) rfl rfl le_rfl h.fresh ?_ ?_ rfl ?_
    · intro t b hb
      change update s.batches topic none t = some b at hb
      by_cases ht : t = topic
      · subst ht
        rw [Function.update_self] at hb
        cases hb
      · rw [Function.update_of_ne ht] at hb
        exact h.mapped t b hb
    · intro b hb
      rw [holds_detached] at hb
      exact h.mapped topic b hb
    · intro m
      rw [hp, hand_detached]
      rfl
  | @flushed i now closing hp =>
    refine h.goto (by simp [hp]) rfl rfl le_rfl h.fresh h.mapped ?_ rfl ?_
    · intro b hb
      split at hb <;> exact hb.elim
    · intro m
      rw [hp]
      split <;> rfl
  | @getAndClear i b now flushing hp =>
    have hb : b < s.created := h.held i b (by simp [hp, Phase.Holds])
    refine h.goto (by simp [hp]) rfl rfl le_rfl (h.fresh_setBatch hb _) h.mapped
      (fun b hb => hb.elim) rfl ?_
    intro m
    have hsum := waiting_setBatch hb (s.batch b).clear m
    simp only [hp, Phase.hand, Batch.clear, List.count_nil, setBatch] at hsum ⊢
    omega
  | @sendBatch i now messages flushing hp =>
    refine h.goto (by simp [hp]) rfl rfl le_rfl h.fresh h.mapped ?_ rfl ?_
    · intro b hb
      rw [holds_detached] at hb
      cases hb
    · intro m
      rw [hp, hand_detached]
      simp [Phase.hand, waiting]
      omega
  | @sendBatchThrows i now messages flushing hp hne =>
    refine h.goto (by simp [hp]) rfl rfl le_rfl h.fresh h.mapped (fun b hb => hb.elim) rfl ?_
    intro m
    simp [hp, Phase.hand, waiting]
    omega
  | @superClose i now hp =>
    refine h.goto (by simp [hp]) rfl rfl le_rfl h.fresh h.mapped (fun b hb => hb.elim) rfl ?_
    intro m
    rw [hp]
    rfl

end

/-! ## Who can still come to a batch -/

def Mapped (s : NSQProducer) (b : Nat) : Prop := ∃ topic, s.batches topic = some b

/-- Under another topic. -/
def MappedElse (s : NSQProducer) (topic : String) (b : Nat) : Prop :=
  ∃ t, t ≠ topic ∧ s.batches t = some b

/-- In the hands of another call. -/
def HeldElse (s : NSQProducer) (i b : Nat) : Prop := ∃ j, j ≠ i ∧ (s.phase j).Holds b

def Reached (s : NSQProducer) (b : Nat) : Prop := Mapped s b ∨ ∃ i, (s.phase i).Holds b

/-- No message has been thrown away, and a batch with messages is in the map or in the hands of a
call. -/
structure Kept (s : NSQProducer) : Prop where
  thrown : s.thrown = []
  reached : ∀ b, (s.batch b).messages ≠ [] → Reached s b

/-- A message has been thrown away, or is in a batch that nobody comes to. -/
def Lost (s : NSQProducer) : Prop :=
  s.thrown ≠ [] ∨ ∃ b < s.created, (s.batch b).messages ≠ [] ∧ ¬ Reached s b

/-- `get` finds a batch; and messages that are not ready are left in a batch that is in the map or in
the hands of another call. -/
def Clean (s : NSQProducer) : Label → Prop
  | .call _ => True
  | .step i now =>
    match s.phase i with
    | .get topic _ => s.batches topic ≠ none
    | .getAndClearIfReady b =>
      (s.batch b).isReady now = true ∨ (s.batch b).messages = [] ∨ Mapped s b ∨ HeldElse s i b
    | _ => True

section
variable {s s' : NSQProducer} {i b : Nat} {l : Label}

theorem mapped_iff (s : NSQProducer) (topic : String) (b : Nat) :
    Mapped s b ↔ s.batches topic = some b ∨ MappedElse s topic b := by
  constructor
  · rintro ⟨t, ht⟩
    by_cases htopic : t = topic
    · exact .inl (htopic ▸ ht)
    · exact .inr ⟨t, htopic, ht⟩
  · rintro (h | ⟨t, -, ht⟩)
    · exact ⟨topic, h⟩
    · exact ⟨t, ht⟩

theorem reached_iff (s : NSQProducer) (i b : Nat) :
    Reached s b ↔ Mapped s b ∨ (s.phase i).Holds b ∨ HeldElse s i b := by
  apply or_congr_right
  constructor
  · rintro ⟨j, hj⟩
    by_cases hi : j = i
    · exact .inl (hi ▸ hj)
    · exact .inr ⟨j, hi, hj⟩
  · rintro (h | ⟨j, -, hj⟩)
    · exact ⟨i, h⟩
    · exact ⟨j, hj⟩

theorem mappedElse_update {batches : String → Option Nat} {topic : String} {v : Option Nat}
    (h : s'.batches = update batches topic v) (hs : s.batches = batches) :
    MappedElse s' topic b ↔ MappedElse s topic b := by
  apply exists_congr
  intro t
  apply and_congr_right
  intro ht
  rw [h, hs, Function.update_of_ne ht]

theorem reached_goto (s : NSQProducer) (p : Phase) :
    Reached (s.goto i p) b ↔ Mapped s b ∨ p.Holds b ∨ HeldElse s i b := by
  have helse : HeldElse (s.goto i p) i b ↔ HeldElse s i b := by
    apply exists_congr
    intro j
    apply and_congr_right
    intro hj
    show (update s.phase i p j).Holds b ↔ _
    rw [Function.update_of_ne hj]
  rw [reached_iff _ i, helse]
  show Mapped s b ∨ (update s.phase i p i).Holds b ∨ _ ↔ _
  rw [Function.update_self]

/-- The call goes on, and the map is as it was. -/
theorem reached_of_goto {p : Phase} (hmap : s'.batches = s.batches) (hphase : s'.phase = s.phase)
    (hp : p.Holds b → (s.phase i).Holds b) (h : Reached (s'.goto i p) b) : Reached s b := by
  rw [reached_goto] at h
  unfold Mapped HeldElse at h
  rw [hmap, hphase] at h
  rw [reached_iff s i]
  exact h.imp_right (Or.imp_left hp)

theorem Reached.goto {p : Phase} (h : Reached s b) (hmap : s'.batches = s.batches)
    (hphase : s'.phase = s.phase) (hp : (s.phase i).Holds b → p.Holds b) :
    Reached (s'.goto i p) b := by
  rw [reached_iff s i] at h
  rw [reached_goto]
  unfold Mapped HeldElse
  rw [hmap, hphase]
  exact h.imp_right (Or.imp_left hp)

theorem mapped_newBatch (topic : String) (old : Option Nat) (batch : Batch) (hb : b < s.created) :
    Mapped (s.newBatch topic old batch) b ↔ old = some b ∨ MappedElse s topic b := by
  rw [mapped_iff _ topic, mappedElse_update rfl rfl]
  apply or_congr_left
  show update s.batches topic (some (old.getD s.created)) topic = some b ↔ old = some b
  rw [Function.update_self, Option.some.injEq]
  cases old with
  | none =>
    show s.created = b ↔ none = some b
    simp
    omega
  | some b' => simp

theorem mapped_removeTopic (topic : String) :
    Mapped (s.removeTopic topic) b ↔ MappedElse s topic b := by
  rw [mapped_iff _ topic, mappedElse_update rfl rfl]
  show update s.batches topic none topic = some b ∨ _ ↔ _
  simp

@[simp] theorem heldElse_newBatch (topic : String) (old : Option Nat) (batch : Batch) :
    HeldElse (s.newBatch topic old batch) i b ↔ HeldElse s i b := Iff.rfl

@[simp] theorem heldElse_removeTopic (topic : String) :
    HeldElse (s.removeTopic topic) i b ↔ HeldElse s i b := Iff.rfl

/-- Nobody comes to a batch again. -/
theorem reached_of_step (hs : Step s l s') (hb : b < s.created)
    (hr : Reached s' b) : Reached s b := by
  cases hs with
  | call c =>
    rw [reached_goto] at hr
    rw [reached_iff s s.calls]
    rcases hr with hm | hc | he
    · exact .inl hm
    · exact absurd hc (holds_start b c)
    · exact .inr (.inr he)
  | @putIfAbsent i now topic message hp =>
    rw [reached_goto, mapped_newBatch _ _ _ hb, ← mapped_iff, heldElse_newBatch] at hr
    rw [reached_iff s i]
    rcases hr with hm | hf | he
    · exact .inl hm
    · exact hf.elim
    · exact .inr (.inr he)
  | @get i b' now topic message hp hb' =>
    rw [reached_goto] at hr
    rw [reached_iff s i]
    rcases hr with hm | rfl | he
    · exact .inl hm
    · exact .inl ⟨topic, hb'⟩
    · exact .inr (.inr he)
  | @put i now topic maxMessages maxBytes maxSeconds hp =>
    rw [reached_goto, mapped_newBatch _ _ _ hb, holds_detached, heldElse_newBatch] at hr
    rw [reached_iff s i, mapped_iff s topic]
    tauto
  | @remove i now topic todo closing hp =>
    rw [reached_goto, mapped_removeTopic, holds_detached, heldElse_removeTopic] at hr
    rw [reached_iff s i, mapped_iff s topic]
    tauto
  | @containsKey i now topic message hp =>
    refine reached_of_goto rfl rfl (fun hh => ?_) hr
    split at hh <;> exact hh.elim
  | @flushed i now closing hp =>
    refine reached_of_goto rfl rfl (fun hh => ?_) hr
    split at hh <;> exact hh.elim
  | @addMessage i b' now message hp =>
    refine reached_of_goto rfl rfl (fun hh => ?_) hr
    rw [hp]
    exact hh
  | @sendBatch i now messages flushing hp =>
    refine reached_of_goto rfl rfl (fun hh => ?_) hr
    rw [holds_detached] at hh
    cases hh
  | _ => exact reached_of_goto rfl rfl False.elim hr

/-- Only who holds a batch writes it. -/
theorem batch_of_step (hs : Step s l s') (hb : b < s.created)
    (hheld : ∀ i, ¬ (s.phase i).Holds b) : s'.batch b = s.batch b := by
  cases hs with
  | @addMessage i b' now message hp =>
    refine Function.update_of_ne ?_ _ _
    rintro rfl
    exact hheld i (by simp [hp, Phase.Holds])
  | @ready i b' now hp hready =>
    refine Function.update_of_ne ?_ _ _
    rintro rfl
    exact hheld i (by simp [hp, Phase.Holds])
  | @getAndClear i b' now flushing hp =>
    refine Function.update_of_ne ?_ _ _
    rintro rfl
    exact hheld i (by simp [hp, Phase.Holds])
  | putIfAbsent | put => exact Function.update_of_ne hb.ne _ _
  | _ => rfl

theorem created_of_step (hs : Step s l s') : s.created ≤ s'.created := by
  cases hs with
  | putIfAbsent | put => exact Nat.le_succ _
  | _ => exact le_rfl

theorem calls_of_step (hs : Step s l s') : s.calls ≤ s'.calls := by
  cases hs with
  | call => exact Nat.le_succ _
  | _ => exact le_rfl

theorem thrown_of_step (hs : Step s l s') : s.thrown <+: s'.thrown := by
  cases hs with
  | getNull => exact List.prefix_append _ _
  | _ => exact List.prefix_rfl

/-- What is lost stays lost. -/
theorem Lost.step (hl : Lost s) (hs : Step s l s') : Lost s' := by
  rcases hl with hthrown | ⟨b, hb, hne, hr⟩
  · exact .inl (fun hnil => hthrown (List.prefix_nil.mp (hnil ▸ thrown_of_step hs)))
  · refine .inr ⟨b, hb.trans_le (created_of_step hs), ?_, fun hr' => hr (reached_of_step hs hb hr')⟩
    rw [batch_of_step hs hb (fun i hi => hr (.inr ⟨i, hi⟩))]
    exact hne

theorem Invariant.lt_created (h : Invariant s) (hr : Reached s b) : b < s.created := by
  rcases hr with ⟨topic, ht⟩ | ⟨i, hi⟩
  · exact h.mapped topic b ht
  · exact h.held i b hi

theorem clear_messages (s : NSQProducer) (b : Nat) :
    ((s.setBatch b (s.batch b).clear).batch b).messages = [] := by
  show (update s.batch b (s.batch b).clear b).messages = []
  rw [Function.update_self]
  rfl

/-- A clean step leaves no batch with messages alone. -/
theorem reached_step (h : Invariant s) (hs : Step s l s') (hc : Clean s l) (hr : Reached s b)
    (hne : (s'.batch b).messages ≠ []) : Reached s' b := by
  cases hs with
  | call c =>
    rw [reached_iff s s.calls, h.called s.calls le_rfl] at hr
    rw [reached_goto]
    rcases hr with hm | hf | he
    · exact .inl hm
    · exact hf.elim
    · exact .inr (.inr he)
  | @putIfAbsent i now topic message hp =>
    have hb := h.lt_created hr
    rw [reached_iff s i, hp] at hr
    rw [reached_goto, mapped_newBatch _ _ _ hb, ← mapped_iff, heldElse_newBatch]
    exact hr
  | @put i now topic maxMessages maxBytes maxSeconds hp =>
    have hb := h.lt_created hr
    rw [reached_iff s i, mapped_iff s topic, hp] at hr
    rw [reached_goto, mapped_newBatch _ _ _ hb, holds_detached, heldElse_newBatch]
    rcases hr with (hm | hm) | hf | he
    · exact .inr (.inl hm)
    · exact .inl (.inr hm)
    · exact hf.elim
    · exact .inr (.inr he)
  | @remove i now topic todo closing hp =>
    rw [reached_iff s i, mapped_iff s topic, hp] at hr
    rw [reached_goto, mapped_removeTopic, holds_detached, heldElse_removeTopic]
    rcases hr with (hm | hm) | hf | he
    · exact .inr (.inl hm)
    · exact .inl hm
    · exact hf.elim
    · exact .inr (.inr he)
  | @addMessage i b' now message hp =>
    refine hr.goto rfl rfl (fun hh => ?_)
    rw [hp] at hh
    exact hh
  | @ready i b' now hp hready =>
    refine hr.goto rfl rfl (fun hh => ?_)
    rw [hp] at hh
    cases hh
    exact absurd (clear_messages s b) hne
  | @notReady i b' now hp hready =>
    simp only [Clean, hp, hready, Bool.false_eq_true, false_or] at hc
    rw [reached_goto]
    by_cases hb : b = b'
    · subst hb
      exact (hc.resolve_left hne).imp_right .inr
    · rw [reached_iff s i, hp] at hr
      rcases hr with hm | hh | he
      · exact .inl hm
      · exact absurd hh.symm hb
      · exact .inr (.inr he)
  | @getAndClear i b' now flushing hp =>
    refine hr.goto rfl rfl (fun hh => ?_)
    rw [hp] at hh
    cases hh
    exact absurd (clear_messages s b) hne
  | _ hp =>
    refine hr.goto rfl rfl (fun hh => ?_)
    rw [hp] at hh
    exact hh.elim

theorem messages_update {batch : Nat → Batch} {b' : Nat} {v : Batch}
    (h : (update batch b' v b).messages ≠ []) :
    (b = b' ∧ v.messages ≠ []) ∨ (batch b).messages ≠ [] := by
  by_cases hb : b = b'
  · subst hb
    rw [Function.update_self] at h
    exact .inl ⟨rfl, h⟩
  · rw [Function.update_of_ne hb] at h
    exact .inr h

/-- Messages come only to a batch in the hands of the call that adds them. -/
theorem messages_of_step (hs : Step s l s') (hne : (s'.batch b).messages ≠ []) :
    (s.batch b).messages ≠ [] ∨ Reached s' b := by
  cases hs with
  | @addMessage i b' now message hp =>
    rcases messages_update hne with ⟨rfl, -⟩ | hne
    · exact .inr ((reached_goto _ _).mpr (.inr (.inl rfl)))
    · exact .inl hne
  | ready | getAndClear | putIfAbsent | put =>
    rcases messages_update hne with ⟨-, hnil⟩ | hne
    · exact absurd rfl hnil
    · exact .inl hne
  | _ => exact .inl hne

theorem Kept.step (h : Invariant s) (hk : Kept s) (hs : Step s l s') (hc : Clean s l) : Kept s' where
  thrown := by
    cases hs with
    | @getNull i now topic message hp hb =>
      simp only [Clean, hp] at hc
      exact absurd hb hc
    | _ => exact hk.thrown
  reached b hne := by
    rcases messages_of_step hs hne with hne' | hr
    · exact reached_step h hs hc (hk.reached b hne') hne
    · exact hr

/-- Another step than a clean one loses a message. -/
theorem lost_of_not_clean (h : Invariant s) (hs : Step s l s') (hc : ¬ Clean s l) : Lost s' := by
  cases hs with
  | call c => exact absurd trivial hc
  | @get i b now topic message hp hb =>
    refine absurd ?_ hc
    simp [Clean, hp, hb]
  | @getNull i now topic message hp hb =>
    exact .inl (List.append_ne_nil_of_right_ne_nil _ (List.cons_ne_nil _ _))
  | @ready i b now hp hready =>
    refine absurd ?_ hc
    simp [Clean, hp, hready]
  | @notReady i b now hp hready =>
    simp only [Clean, hp, hready, Bool.false_eq_true, false_or, not_or] at hc
    obtain ⟨hne, hm, he⟩ := hc
    refine .inr ⟨b, h.held i b (by simp [hp, Phase.Holds]), hne, ?_⟩
    rw [reached_goto]
    exact not_or.mpr ⟨hm, not_or.mpr ⟨id, he⟩⟩
  | _ hp =>
    unfold Clean at hc
    simp [hp] at hc

/-- A run has only clean steps, or it has lost a message. -/
theorem history {ls : List Label} (h : Run Step start ls s) : Invariant s ∧
    (Run (fun s l s' => Step s l s' ∧ Clean s l) start ls s ∧ Kept s ∨ Lost s) := by
  refine h.history (I := fun ls s => Invariant s ∧
    (Run (fun s l s' => Step s l s' ∧ Clean s l) start ls s ∧ Kept s ∨ Lost s))
    ⟨.start, .inl ⟨.nil, rfl, fun b hne => absurd rfl hne⟩⟩ ?_
  rintro ls s l s' ⟨hi, hk⟩ hs
  refine ⟨hi.step hs, ?_⟩
  rcases hk with ⟨hrun, hk⟩ | hl
  · by_cases hc : Clean s l
    · exact .inl ⟨hrun.snoc ⟨hs, hc⟩, hk.step hi hs hc⟩
    · exact .inr (lost_of_not_clean hi hs hc)
  · exact .inr (hl.step hs)

theorem kept_of_clean {ls : List Label}
    (h : Run (fun s l s' => Step s l s' ∧ Clean s l) start ls s) : Kept s := by
  refine (h.invariant (I := fun s => Invariant s ∧ Kept s)
    ⟨.start, rfl, fun b hne => absurd rfl hne⟩ ?_).2
  rintro s l s' ⟨hi, hk⟩ ⟨hs, hc⟩
  exact ⟨hi.step hs, hk.step hi hs hc⟩

theorem not_perm_of_lost (h : Invariant s) (hl : Lost s) : ¬ s.sent.flatten.Perm s.passed := by
  intro hperm
  have hle (m : List Byte) : s.thrown.count m + waiting s m = 0 := by
    have hsum := h.conserved m
    have hcount := hperm.count_eq m
    omega
  rcases hl with hthrown | ⟨b, hb, hne, -⟩
  · obtain ⟨m, hm⟩ := List.exists_mem_of_ne_nil _ hthrown
    have hpos := List.count_pos_iff.mpr hm
    have hzero := hle m
    omega
  · obtain ⟨m, hm⟩ := List.exists_mem_of_ne_nil _ hne
    have hpos := List.count_pos_iff.mpr hm
    have hwaiting : (s.batch b).messages.count m ≤ waiting s m :=
      le_tally (g := fun batch : Batch => batch.messages.count m) hb
    have hzero := hle m
    omega

/-! ## Closing -/

/-- No call adds messages. -/
def Quiet (s : NSQProducer) : Prop := ∀ i, ¬ (s.phase i).Producing

/-- The topics whose batches have messages are among `todo`. -/
def Covered (s : NSQProducer) (todo : List String) : Prop :=
  ∀ topic b, s.batches topic = some b → (s.batch b).messages ≠ [] → topic ∈ todo

/-- The call that closes has yet to look for the topics, or comes to all those with messages. -/
def Closing (s : NSQProducer) (c : Nat) : Prop :=
  s.phase c = .keySet true ∨ s.phase c = .threw ∨ Covered s (s.phase c).todo

theorem Quiet.phase {p : Phase} (hq : Quiet s) (hp : s.phase i = p) : ¬ p.Producing :=
  hp ▸ hq i

theorem Quiet.goto {p : Phase} (hq : Quiet s) (hphase : s'.phase = s.phase) (hp : ¬ p.Producing) :
    Quiet (s'.goto i p) := by
  intro j
  show ¬ (update s'.phase i p j).Producing
  by_cases hj : j = i
  · rwa [hj, Function.update_self]
  · rw [Function.update_of_ne hj, hphase]
    exact hq j

theorem Quiet.step (hq : Quiet s) (hs : Step s l s')
    (hl : ∀ topic message, l ≠ .call (.produceBatch topic message)) : Quiet s' := by
  cases hs with
  | call c =>
    refine hq.goto rfl ?_
    cases c with
    | produceBatch topic message => exact absurd rfl (hl topic message)
    | _ => exact id
  | containsKey hp | putIfAbsent hp | get hp | getNull hp | addMessage hp | ready hp | notReady hp =>
    exact absurd trivial (hq.phase hp)
  | put hp | remove hp | sendBatch hp => exact hq.goto rfl (not_producing_detached _ _)
  | flushed hp =>
    refine hq.goto rfl ?_
    split <;> exact id
  | _ => exact hq.goto rfl id

/-- While no call adds messages, no topic gets a batch with messages. -/
theorem mapped_of_step (hq : Quiet s) (hs : Step s l s') {topic : String}
    (hm : s'.batches topic = some b) (hne : (s'.batch b).messages ≠ []) :
    s.batches topic = some b ∧ (s.batch b).messages ≠ [] := by
  cases hs with
  | containsKey hp | putIfAbsent hp | get hp | getNull hp | addMessage hp | ready hp | notReady hp =>
    exact absurd trivial (hq.phase hp)
  | @put i now t maxMessages maxBytes maxSeconds hp =>
    rcases messages_update hne with ⟨-, hnil⟩ | hne'
    · exact absurd rfl hnil
    · refine ⟨?_, hne'⟩
      change update s.batches t (some s.created) topic = some b at hm
      change (update s.batch s.created (.configured _ _ _) b).messages ≠ [] at hne
      by_cases ht : topic = t
      · subst ht
        rw [Function.update_self, Option.some.injEq] at hm
        subst hm
        rw [Function.update_self] at hne
        exact absurd rfl hne
      · rwa [Function.update_of_ne ht] at hm
  | @remove i now t todo closing hp =>
    refine ⟨?_, hne⟩
    change update s.batches t none topic = some b at hm
    by_cases ht : topic = t
    · subst ht
      rw [Function.update_self] at hm
      cases hm
    · rwa [Function.update_of_ne ht] at hm
  | getAndClear hp =>
    rcases messages_update hne with ⟨-, hnil⟩ | hne
    · exact absurd rfl hnil
    · exact ⟨hm, hne⟩
  | _ => exact ⟨hm, hne⟩

theorem Covered.step {todo : List String} (hq : Quiet s) (hcov : Covered s todo) (hs : Step s l s') :
    Covered s' todo := by
  intro topic b hm hne
  obtain ⟨hm, hne⟩ := mapped_of_step hq hs hm hne
  exact hcov topic b hm hne

theorem Closing.covered {c : Nat} {p : Phase} (hcl : Closing s c) (hp : s.phase c = p)
    (hkeySet : p ≠ .keySet true) (hthrew : p ≠ .threw) : Covered s p.todo := by
  subst hp
  exact (hcl.resolve_left hkeySet).resolve_left hthrew

theorem Closing.goto {c : Nat} {p : Phase} (hcl : Closing s c) (hphase : s'.phase = s.phase)
    (hcov : ∀ {todo : List String}, Covered s todo → Covered s' todo)
    (hp : Closing s i → p = .threw ∨ Covered s' p.todo) : Closing (s'.goto i p) c := by
  by_cases hi : c = i
  · subst hi
    refine .inr ?_
    show update s'.phase c p c = .threw ∨ Covered s' (update s'.phase c p c).todo
    rw [Function.update_self]
    exact hp hcl
  · show update s'.phase i p c = .keySet true ∨ update s'.phase i p c = .threw ∨
      Covered s' (update s'.phase i p c).todo
    rw [Function.update_of_ne hi, hphase]
    exact hcl.imp_right (Or.imp_right hcov)

theorem Closing.step {c : Nat} (hq : Quiet s) (hc : c < s.calls) (hcl : Closing s c)
    (hs : Step s l s') : Closing s' c := by
  have hcov {todo : List String} (h : Covered s todo) : Covered s' todo := h.step hq hs
  cases hs with
  | call call =>
    have hsame : update s.phase s.calls call.start c = s.phase c := Function.update_of_ne hc.ne _ _
    show update s.phase s.calls call.start c = .keySet true ∨
      update s.phase s.calls call.start c = .threw ∨
      Covered s (update s.phase s.calls call.start c).todo
    rwa [hsame]
  | containsKey hp | putIfAbsent hp | get hp | getNull hp | addMessage hp | ready hp | notReady hp =>
    exact absurd trivial (hq.phase hp)
  | @put i now topic maxMessages maxBytes maxSeconds hp =>
    refine hcl.goto rfl hcov fun hi => .inr ?_
    rw [todo_detached]
    exact hcov (hi.covered hp (nomatch ·) (nomatch ·))
  | @keySet i now closing todo hp htodo =>
    refine hcl.goto rfl hcov fun _ => .inr fun topic b hm _ => htodo topic ?_
    rw [show s.batches topic = some b from hm]
    exact Option.some_ne_none b
  | @remove i now topic todo closing hp =>
    refine hcl.goto rfl hcov fun hi => .inr ?_
    rw [todo_detached]
    intro t b hm hne
    have hm' : update s.batches topic none t = some b := hm
    have ht : t ≠ topic := by
      rintro rfl
      rw [Function.update_self] at hm'
      cases hm'
    exact (List.mem_cons.mp (hcov (hi.covered hp (nomatch ·) (nomatch ·)) t b hm hne)).resolve_left ht
  | @flushed i now closing hp =>
    refine hcl.goto rfl hcov fun hi => .inr ?_
    have hnil : Covered s [] := hi.covered hp (nomatch ·) (nomatch ·)
    split <;> exact hnil
  | @getAndClear i b now flushing hp =>
    refine hcl.goto rfl hcov fun hi => .inr ?_
    have hhere := hi.covered hp (nomatch ·) (nomatch ·)
    exact hcov hhere
  | @sendBatch i now messages flushing hp =>
    refine hcl.goto rfl hcov fun hi => .inr ?_
    rw [todo_detached]
    exact hcov (hi.covered hp (nomatch ·) (nomatch ·))
  | sendBatchThrows => exact hcl.goto rfl hcov fun _ => .inl rfl
  | @superClose i now hp =>
    refine hcl.goto rfl hcov fun hi => .inr ?_
    have hhere := hi.covered hp (nomatch ·) (nomatch ·)
    exact hcov hhere

/-- A call that closes has come to all the batches with messages when it returns. -/
theorem covered_of_run {ls : List Label} {s₁ : NSQProducer} (hq : Quiet s₁)
    (h : Run Step s₁ (Label.call .close :: ls) s)
    (hc : ∀ topic message, Label.call (.produceBatch topic message) ∉ ls)
    (hclose : s.phase s₁.calls = .returned) : Covered s [] := by
  rw [← List.singleton_append] at h
  obtain ⟨s₂, hcall, h⟩ := h.split
  have hstart : Quiet s₂ ∧ s₁.calls < s₂.calls ∧ Closing s₂ s₁.calls := by
    have hs := hcall.single_inv
    refine ⟨hq.step hs (by rintro _ _ ⟨⟩), ?_⟩
    cases hs with
    | call => exact ⟨Nat.lt_succ_self _, .inl (Function.update_self _ _ _)⟩
  have hend := h.history (I := fun ls s =>
    (∀ topic message, Label.call (.produceBatch topic message) ∉ ls) →
      Quiet s ∧ s₁.calls < s.calls ∧ Closing s s₁.calls) (fun _ => hstart) ?_ hc
  · exact hend.2.2.covered hclose (nomatch ·) (nomatch ·)
  · intro ls s l s' ih hs hls
    obtain ⟨hq, hlt, hcl⟩ := ih fun topic message hm =>
      hls topic message (List.mem_append_left _ hm)
    refine ⟨hq.step hs ?_, hlt.trans_le (calls_of_step hs), hcl.step hq hlt hs⟩
    rintro topic message rfl
    exact hls topic message (List.mem_append_right _ (List.mem_singleton_self _))

theorem perm_of_kept (h : Invariant s) (hk : Kept s) (hcov : Covered s [])
    (hr : ∀ i, s.phase i = .returned ∨ s.phase i = .threw) : s.sent.flatten.Perm s.passed := by
  have hempty (b : Nat) : (s.batch b).messages = [] := by
    by_contra hne
    rcases hk.reached b hne with ⟨topic, ht⟩ | ⟨i, hi⟩
    · exact absurd (hcov topic b ht hne) List.not_mem_nil
    · rcases hr i with hp | hp <;> rw [hp] at hi <;> exact hi
  rw [List.perm_iff_count]
  intro m
  have hwaiting : waiting s m = 0 := by
    apply tally_eq_zero
    intro b _
    rw [hempty, List.count_nil]
  have hhanded : handed s m = 0 := by
    apply tally_eq_zero
    intro i _
    rcases hr i with hp | hp <;> rw [hp] <;> rfl
  have hsum := h.conserved m
  rw [hwaiting, hhanded, hk.thrown, List.count_nil] at hsum
  omega

theorem topics_single {topic : String} {v : Option Nat} (t : String)
    (h : update (fun _ => none) topic v t ≠ none) : t ∈ [topic] := by
  by_contra ht
  exact h (Function.update_of_ne (by simpa using ht) _ _)

/-- After the last `produceBatch` a call of `close` is made, and it returns: all that was passed has been
sent, each message once, just if every step was clean. -/
theorem batchesSent_iff {ls₁ ls₂ : List Label} {s₁ : NSQProducer} (h₁ : Run Step start ls₁ s₁)
    (hq : ∀ i, ¬ (s₁.phase i).Producing) (h₂ : Run Step s₁ (Label.call .close :: ls₂) s)
    (hc : ∀ topic message, Label.call (.produceBatch topic message) ∉ ls₂)
    (hr : ∀ i, s.phase i = .returned ∨ s.phase i = .threw) (hclose : s.phase s₁.calls = .returned) :
    s.sent.flatten.Perm s.passed ↔
      Run (fun s l s' => Step s l s' ∧ Clean s l) start (ls₁ ++ Label.call .close :: ls₂) s := by
  obtain ⟨hi, hk⟩ := history (h₁.append h₂)
  constructor
  · intro hperm
    exact (hk.resolve_right (not_perm_of_lost hi · hperm)).1
  · intro hclean
    exact perm_of_kept hi (kept_of_clean hclean) (covered_of_run hq h₂ hc hclose) hr

/-- One message, sent by the flush of `close`. -/
theorem batchesSent_one : ∃ (ls₁ ls₂ : List Label) (s : NSQProducer), s.passed = [[1]] ∧
    s.sent.flatten.Perm s.passed ∧ (s.sent.flatten.Perm s.passed ↔
      Run (fun s l s' => Step s l s' ∧ Clean s l) start (ls₁ ++ Label.call .close :: ls₂) s) := by
  have h₁ : Run Step start _ _ := Run.nil.snoc (.call (.produceBatch "t" [1]))
  have h₂ : Run _ _ (_ ++ [Label.step 0 0]) _ := h₁.snoc (.containsKey rfl)
  have h₃ : Run _ _ (_ ++ [Label.step 0 0]) _ := h₂.snoc (.putIfAbsent rfl)
  have h₄ : Run _ _ (_ ++ [Label.step 0 0]) _ := h₃.snoc (.get rfl rfl)
  have h₅ : Run _ _ (_ ++ [Label.step 0 0]) _ := h₄.snoc (.addMessage rfl)
  have h₆ : Run _ _ (_ ++ [Label.step 0 0]) _ := h₅.snoc (.notReady rfl (by decide))
  have k₁ := (fun s (_ : Run Step start _ s) => Run.nil.snoc (Step.call (s := s) .close)) _ h₆
  have k₂ : Run _ _ (_ ++ [Label.step 1 0]) _ := k₁.snoc (.keySet rfl topics_single)
  have k₃ : Run _ _ (_ ++ [Label.step 1 0]) _ := k₂.snoc (.remove rfl)
  have k₄ : Run _ _ (_ ++ [Label.step 1 0]) _ := k₃.snoc (.getAndClear rfl)
  have k₅ : Run _ _ (_ ++ [Label.step 1 0]) _ := k₄.snoc (.sendBatch rfl)
  have k₆ : Run _ _ (_ ++ [Label.step 1 0]) _ := k₅.snoc (.flushed rfl)
  have k₇ : Run _ _ (_ ++ [Label.step 1 0]) _ := k₆.snoc (.superClose rfl)
  refine ⟨_, _, _, ?_, ?_, batchesSent_iff h₆ ?_ k₇ ?_ ?_ rfl⟩
  · rfl
  · exact List.Perm.refl [[1]]
  · rintro (_ | i) h <;> exact h
  · intro topic message h
    simp at h
  · rintro (_ | _ | i) <;> exact .inl rfl

/-- A flush takes the batch between the producer's `get` and `addMessage`. -/
theorem not_batchesSent : ¬ ∀ (ls₁ ls₂ : List Label) (s₁ s : NSQProducer), Run Step start ls₁ s₁ →
    (∀ i, s₁.phase i = .returned) → Run Step s₁ (Label.call .close :: ls₂) s →
    (∀ topic message, Label.call (.produceBatch topic message) ∉ ls₂) →
    (∀ i, s.phase i = .returned) → s.sent.flatten.Perm s.passed := by
  intro hall
  have h₁ : Run Step start _ _ := Run.nil.snoc (.call (.produceBatch "t" [1]))
  have h₂ : Run _ _ (_ ++ [Label.step 0 0]) _ := h₁.snoc (.containsKey rfl)
  have h₃ : Run _ _ (_ ++ [Label.step 0 0]) _ := h₂.snoc (.putIfAbsent rfl)
  have h₄ : Run _ _ (_ ++ [Label.step 0 0]) _ := h₃.snoc (.get rfl rfl)
  have h₅ := h₄.snoc (.call .flushBatches)
  have h₆ : Run _ _ (_ ++ [Label.step 1 0]) _ := h₅.snoc (.keySet rfl topics_single)
  have h₇ : Run _ _ (_ ++ [Label.step 1 0]) _ := h₆.snoc (.remove rfl)
  have h₈ : Run _ _ (_ ++ [Label.step 1 0]) _ := h₇.snoc (.getAndClear rfl)
  have h₉ : Run _ _ (_ ++ [Label.step 1 0]) _ := h₈.snoc (.sendBatch rfl)
  have h₁₀ : Run _ _ (_ ++ [Label.step 1 0]) _ := h₉.snoc (.flushed rfl)
  have h₁₁ : Run _ _ (_ ++ [Label.step 0 0]) _ := h₁₀.snoc (.addMessage rfl)
  have h₁₂ : Run _ _ (_ ++ [Label.step 0 0]) _ := h₁₁.snoc (.notReady rfl (by decide))
  have k₁ := (fun s (_ : Run Step start _ s) => Run.nil.snoc (Step.call (s := s) .close)) _ h₁₂
  have hnone : ∀ topic, update (update (fun _ => none) "t" (some 0)) "t" none topic ≠ none →
      topic ∈ [] := by
    intro topic h
    simp [Function.update_apply] at h
  have k₂ : Run _ _ (_ ++ [Label.step 2 0]) _ := k₁.snoc (.keySet rfl hnone)
  have k₃ : Run _ _ (_ ++ [Label.step 2 0]) _ := k₂.snoc (.flushed rfl)
  have k₄ : Run _ _ (_ ++ [Label.step 2 0]) _ := k₃.snoc (.superClose rfl)
  have hperm := hall _ _ _ _ h₁₂ ?_ k₄ ?_ ?_
  · exact absurd hperm.length_eq (by decide)
  · rintro (_ | _ | i) <;> rfl
  · intro topic message h
    simp at h
  · rintro (_ | _ | _ | i) <;> rfl

end

end NSQProducer

end BaseService.Notify
