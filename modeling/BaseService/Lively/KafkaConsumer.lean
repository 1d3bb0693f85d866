import BaseService.Data.Runs

/-!
# `KafkaConsumer`

The runners of one consumer: each gathers the messages of its stream, executes them when they are
`batchSize` different ones, and then commits the offsets of the whole connector.

* `Batch` : messages, with the offsets they come from;
* `Step` : what a runner does, and a crash of the process;
* `Holds` : a runner holds a message that no call of `execute` has had;
* `Invariant`, `committed_executed` : committed messages have been executed, if runners commit only
  while no other holds any.
-/

namespace BaseService.Lively
open Function (update)

section
variable {ρ π : Type} [DecidableEq ρ] [DecidableEq π]

/-- The set a runner gathers, with the partitions and offsets of its messages in `log`. -/
structure Batch (log : π → Nat → String) where
  messages : Finset String
  items : List (π × Nat)
  texts : ∀ item ∈ items, log item.1 item.2 ∈ messages

variable {log : π → Nat → String}

def Batch.empty (log : π → Nat → String) : Batch log := ⟨∅, [], fun _ h => by cases h⟩

/-- `messages.add(new String(item.message()))`. -/
def Batch.add (this : Batch log) (p : π) (offset : Nat) : Batch log where
  messages := insert (log p offset) this.messages
  items := this.items ++ [(p, offset)]
  texts item h := by
    rcases List.mem_append.mp h with h | h
    · exact Finset.mem_insert_of_mem (this.texts item h)
    · rw [List.mem_singleton.mp h]
      exact Finset.mem_insert_self _ _

/-- What a runner is about to do. -/
inductive Phase
  | next
  | execute
  | clear
  | commit
  | dead
  deriving DecidableEq, Repr

structure MessageRunner (log : π → Nat → String) where
  phase : Phase
  messages : Batch log

/-- The runner of a stream that has just been opened. -/
def MessageRunner.start (log : π → Nat → String) : MessageRunner log := ⟨.next, Batch.empty log⟩

structure KafkaConsumer (ρ : Type) (log : π → Nat → String) where
  /-- The runner whose stream has the partition. -/
  stream : π → ρ
  runners : ρ → MessageRunner log
  /-- The offset after the last message that an iterator has returned. -/
  returned : π → Nat
  committed : π → Nat
  /-- The arguments of the calls of `execute` that have returned normally. -/
  executed : List (Batch log)

/-- A consumer that starts at the offsets `from'`. -/
def KafkaConsumer.start (stream : π → ρ) (log : π → Nat → String) (from' : π → Nat) :
    KafkaConsumer ρ log :=
  ⟨stream, fun _ => MessageRunner.start log, from', from', []⟩

/-- The runner `r` after `it.next()` of the partition `p`. -/
def KafkaConsumer.gathered (s : KafkaConsumer ρ log) (batchSize : Nat) (r : ρ) (p : π) :
    MessageRunner log :=
  let messages := (s.runners r).messages.add p (s.returned p)
  ⟨if messages.messages.card = batchSize then .execute else .next, messages⟩

inductive Label (ρ π : Type)
  | next (r : ρ) (p : π)
  | executed (r : ρ)
  | threw (r : ρ)
  | cleared (r : ρ)
  | committed (r : ρ)
  | crashed
  deriving DecidableEq, Repr

/-- The loop of `MessageRunner.run`. A new process gets any assignment of the partitions, and starts
at the committed offsets. -/
inductive Step (batchSize : Nat) : KafkaConsumer ρ log → Label ρ π → KafkaConsumer ρ log → Prop
  | next {s : KafkaConsumer ρ log} {r : ρ} {p : π} :
    (s.runners r).phase = .next → s.stream p = r →
    Step batchSize s (.next r p)
      { s with
        runners := update s.runners r (s.gathered batchSize r p)
        returned := update s.returned p (s.returned p + 1) }
  | executed {s : KafkaConsumer ρ log} {r : ρ} :
    (s.runners r).phase = .execute →
    Step batchSize s (.executed r)
      { s with
        runners := update s.runners r ⟨.clear, (s.runners r).messages⟩
        executed := s.executed ++ [(s.runners r).messages] }
  | threw {s : KafkaConsumer ρ log} {r : ρ} :
    (s.runners r).phase = .execute →
    Step batchSize s (.threw r)
      { s with runners := update s.runners r ⟨.dead, (s.runners r).messages⟩ }
  | cleared {s : KafkaConsumer ρ log} {r : ρ} :
    (s.runners r).phase = .clear →
    Step batchSize s (.cleared r)
      { s with runners := update s.runners r ⟨.commit, Batch.empty log⟩ }
  | committed {s : KafkaConsumer ρ log} {r : ρ} :
    (s.runners r).phase = .commit →
    Step batchSize s (.committed r)
      { s with
        runners := update s.runners r ⟨.next, (s.runners r).messages⟩
        committed := s.returned }
  | crashed {s : KafkaConsumer ρ log} (stream : π → ρ) :
    Step batchSize s .crashed
      { s with
        stream := stream
        runners := fun _ => MessageRunner.start log
        returned := s.committed }

/-! ## Committed messages -/

/-- The message at the offset has been passed to a call of `execute` that has returned normally. -/
def Executed (s : KafkaConsumer ρ log) (p : π) (offset : Nat) : Prop :=
  ∃ batch ∈ s.executed, (p, offset) ∈ batch.items

/-- The runner holds messages that it has not executed. -/
def Holds (s : KafkaConsumer ρ log) (r : ρ) : Prop :=
  (s.runners r).messages.items ≠ [] ∧ (s.runners r).phase ≠ .clear

/-- The runner that commits is the only one that may hold messages. -/
def CommitsAlone (s : KafkaConsumer ρ log) (l : Label ρ π) : Prop :=
  ∀ r, l = .committed r → ∀ r', r' ≠ r → ¬ Holds s r'

/-- Messages are executed, or held by a runner. -/
structure Invariant (from' : π → Nat) (s : KafkaConsumer ρ log) : Prop where
  committed : ∀ p offset, from' p ≤ offset → offset < s.committed p → Executed s p offset
  returned : ∀ p offset, from' p ≤ offset → offset < s.returned p →
    Executed s p offset ∨ ∃ r, (p, offset) ∈ (s.runners r).messages.items
  cleared : ∀ r, (s.runners r).phase = .clear → (s.runners r).messages ∈ s.executed
  empty : ∀ r, (s.runners r).phase = .commit → (s.runners r).messages.items = []

variable {from' : π → Nat} {s s' : KafkaConsumer ρ log} {l : Label ρ π} {batchSize : Nat}

omit [DecidableEq ρ] [DecidableEq π] in
theorem Invariant.start (stream : π → ρ) (log : π → Nat → String) (from' : π → Nat) :
    Invariant from' (KafkaConsumer.start stream log from') where
  committed p offset h h' := absurd h' (Nat.not_lt.mpr h)
  returned p offset h h' := absurd h' (Nat.not_lt.mpr h)
  cleared r h := by cases h
  empty r h := by cases h

omit [DecidableEq π] in
/-- A step of one runner. What it no longer holds has been executed, and it holds what its iterator
returns. -/
theorem Invariant.update (h : Invariant from' s) {r : ρ} {runner : MessageRunner log}
    {returned : π → Nat} {executed : List (Batch log)} (hexecuted : s.executed ⊆ executed)
    (hitems : ∀ item ∈ (s.runners r).messages.items,
      item ∈ runner.messages.items ∨ ∃ batch ∈ executed, item ∈ batch.items)
    (hreturned : ∀ p offset, offset < returned p →
      offset < s.returned p ∨ (p, offset) ∈ runner.messages.items)
    (hcleared : runner.phase = .clear → runner.messages ∈ executed)
    (hempty : runner.phase = .commit → runner.messages.items = []) :
    Invariant from' { s with
      runners := Function.update s.runners r runner, returned := returned, executed := executed } := by
  have hmono : ∀ p offset, Executed s p offset → ∃ batch ∈ executed, (p, offset) ∈ batch.items :=
    fun p offset ⟨batch, hb, hi⟩ => ⟨batch, hexecuted hb, hi⟩
  refine ⟨fun p offset h₁ h₂ => hmono _ _ (h.committed p offset h₁ h₂), ?_, ?_, ?_⟩
  · intro p offset h₁ h₂
    have hself : (p, offset) ∈ runner.messages.items →
        ∃ r', (p, offset) ∈ (Function.update s.runners r runner r').messages.items := fun hi =>
      ⟨r, by rw [Function.update_self]; exact hi⟩
    rcases hreturned p offset h₂ with h₂ | hi
    · rcases h.returned p offset h₁ h₂ with he | ⟨r', hr'⟩
      · exact Or.inl (hmono _ _ he)
      · by_cases hr : r' = r
        · subst hr
          exact (hitems _ hr').symm.imp id hself
        · exact Or.inr ⟨r', by dsimp only; rw [Function.update_of_ne hr]; exact hr'⟩
    · exact Or.inr (hself hi)
  · intro r' hr'
    dsimp only at hr' ⊢
    by_cases hr : r' = r
    · subst hr
      rw [Function.update_self] at hr' ⊢
      exact hcleared hr'
    · rw [Function.update_of_ne hr] at hr' ⊢
      exact hexecuted (h.cleared r' hr')
  · intro r' hr'
    dsimp only at hr' ⊢
    by_cases hr : r' = r
    · subst hr
      rw [Function.update_self] at hr' ⊢
      exact hempty hr'
    · rw [Function.update_of_ne hr] at hr' ⊢
      exact h.empty r' hr'

omit [DecidableEq ρ] [DecidableEq π] in
/-- While no runner holds messages, the commit covers executed ones. -/
theorem Invariant.commit (h : Invariant from' s) (hholds : ∀ r, ¬ Holds s r) :
    Invariant from' { s with committed := s.returned } where
  committed p offset h₁ h₂ := by
    rcases h.returned p offset h₁ h₂ with he | ⟨r, hr⟩
    · exact he
    · have hclear : (s.runners r).phase = .clear := by
        by_contra hne
        exact hholds r ⟨List.ne_nil_of_mem hr, hne⟩
      exact ⟨_, h.cleared r hclear, hr⟩
  returned := h.returned
  cleared := h.cleared
  empty := h.empty

theorem Invariant.step (h : Invariant from' s) (hs : Step batchSize s l s')
    (hl : CommitsAlone s l) : Invariant from' s' := by
  cases hs with
  | @next r p hphase hstream =>
    have hitems : (s.gathered batchSize r p).messages.items =
      (s.runners r).messages.items ++ [(p, s.returned p)] := rfl
    refine h.update (List.Subset.refl _) (fun item hi => ?_) (fun p' offset hlt => ?_)
      (fun hc => ?_) (fun hc => ?_)
    · rw [hitems]
      exact Or.inl (List.mem_append_left _ hi)
    · by_cases hp : p' = p
      · subst hp
        rw [Function.update_self] at hlt
        rcases Nat.lt_succ_iff_lt_or_eq.mp hlt with hlt | rfl
        · exact Or.inl hlt
        · rw [hitems]
          exact Or.inr (List.mem_append_right _ (List.mem_singleton.mpr rfl))
      · rw [Function.update_of_ne hp] at hlt
        exact Or.inl hlt
    · unfold KafkaConsumer.gathered at hc
      dsimp only at hc
      split at hc <;> cases hc
    · unfold KafkaConsumer.gathered at hc
      dsimp only at hc
      split at hc <;> cases hc
  | executed hphase =>
    refine h.update (List.subset_append_left _ _) (fun item hi => Or.inl hi)
      (fun p offset hlt => Or.inl hlt) (fun _ => ?_) (fun hc => by cases hc)
    exact List.mem_append_right _ (List.mem_singleton.mpr rfl)
  | threw hphase =>
    exact h.update (List.Subset.refl _) (fun item hi => Or.inl hi)
      (fun p offset hlt => Or.inl hlt) (fun hc => by cases hc) (fun hc => by cases hc)
  | cleared hphase =>
    exact h.update (List.Subset.refl _) (fun item hi => Or.inr ⟨_, h.cleared _ hphase, hi⟩)
      (fun p offset hlt => Or.inl hlt) (fun hc => by cases hc) (fun _ => rfl)
  | @committed r hphase =>
    have hempty := h.empty r hphase
    have hholds : ∀ r', ¬ Holds s r' := by
      intro r' hr'
      by_cases hr : r' = r
      · subst hr
        exact hr'.1 hempty
      · exact hl r rfl r' hr hr'
    exact (h.commit hholds).update (List.Subset.refl _) (fun item hi => Or.inl hi)
      (fun p offset hlt => Or.inl hlt) (fun hc => by cases hc) (fun hc => by cases hc)
  | crashed stream =>
    exact ⟨h.committed, fun p offset h₁ h₂ => Or.inl (h.committed p offset h₁ h₂),
      fun r hr => (by cases hr), fun r hr => (by cases hr)⟩

/-- **Committed messages have been executed**, in every run in which a runner commits only while no
other holds messages. -/
theorem committed_executed {stream : π → ρ} {ls : List (Label ρ π)}
    (h : Run (fun s l s' => Step batchSize s l s' ∧ CommitsAlone s l)
      (KafkaConsumer.start stream log from') ls s)
    {p : π} {offset : Nat} (h₁ : from' p ≤ offset) (h₂ : offset < s.committed p) :
    Executed s p offset := by
  have hinv : Invariant from' s := h.invariant (Invariant.start stream log from')
    fun _ _ _ hi hs => hi.step hs.1 hs.2
  exact hinv.committed p offset h₁ h₂

end

/-! ### Two runners -/

/-- Two partitions with a runner each. -/
def twoRunners : KafkaConsumer Bool fun (_ : Bool) (_ : Nat) => "m" :=
  KafkaConsumer.start id _ fun _ => 0

theorem committed_executed_alone : ∃ s,
    Run (fun s l s' => Step 1 s l s' ∧ CommitsAlone s l) twoRunners
      [.next false false, .executed false, .cleared false, .committed false] s ∧
    s.committed false = 1 ∧ Executed s false 0 := by
  have hother : ∀ {s : KafkaConsumer Bool fun (_ : Bool) (_ : Nat) => "m"} {l : Label Bool Bool},
    (∀ r, l ≠ .committed r) → CommitsAlone s l := fun hl r hr => absurd hr (hl r)
  have h₀ : Run (fun s l s' => Step 1 s l s' ∧ CommitsAlone s l) twoRunners [] twoRunners := .nil
  have h₁ := h₀.snoc ⟨.next (r := false) (p := false) rfl rfl, hother (by decide)⟩
  have h₂ := h₁.snoc ⟨.executed (r := false) rfl, hother (by decide)⟩
  have h₃ := h₂.snoc ⟨.cleared (r := false) rfl, hother (by decide)⟩
  have h := h₃.snoc ⟨.committed (r := false) rfl, fun r hr r' hne => ?_⟩
  · exact ⟨_, h, rfl, committed_executed h (Nat.le_refl 0) Nat.one_pos⟩
  · cases hr
    cases r' with
    | false => exact absurd rfl hne
    | true => exact fun hh => hh.1 rfl

/-- The second runner holds a message when the first commits. -/
theorem commits_held : ∃ s,
    Run (Step 1) twoRunners
      [.next true true, .next false false, .executed false, .cleared false, .committed false] s ∧
    s.committed true = 1 ∧ ¬ Executed s true 0 := by
  have h₀ : Run (Step 1) twoRunners [] twoRunners := .nil
  have h := ((((h₀.snoc (.next (r := true) (p := true) rfl rfl)).snoc
    (.next (r := false) (p := false) rfl rfl)).snoc (.executed (r := false) rfl)).snoc
    (.cleared (r := false) rfl)).snoc (.committed (r := false) rfl)
  refine ⟨_, h, rfl, ?_⟩
  rintro ⟨batch, hbatch, hitem⟩
  rw [List.mem_singleton.mp hbatch] at hitem
  exact absurd hitem (by decide)

end BaseService.Lively
