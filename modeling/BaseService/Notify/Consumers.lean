import BaseService.Data.Runs
import BaseService.Notify.Callback

/-!
# `Consumers`

The tables of listeners and consumers, and what a published message runs. `SmcNSQConsumer` has the
same tables and methods, in an object instead of static fields.

* `register` : `CONSUMER_LIST.contains(topic)` looks for a value, so that every call starts another
  consumer, while the listeners are kept per topic;
* `Step` : registrations and published messages, each delivered once per channel;
* `Tables` : what the tables hold after a run;
* `published_once_iff` : when a message reaches each listener once for each of its groups.
-/

namespace BaseService.Notify
open Function (update)

namespace Consumers

/-- A consumer that has been started for a channel of a topic. -/
structure NSQConsumer where
  topic : String
  group : String
  retry : Int
  deriving DecidableEq, Repr

/-- What a `Hashtable` holds or is asked for: strings, and references to consumers. -/
inductive Obj
  | string (s : String)
  | consumer (ref : Nat)
  deriving DecidableEq, Repr

structure Registry (L : Type) where
  /-- `CONSUMER_LIST`. -/
  consumerList : List (String × Obj)
  /-- `LISTENER_LIST`. -/
  listenerList : String → Option (List L)
  /-- The consumers started so far, by reference. -/
  started : List NSQConsumer

section
variable {L : Type} [DecidableEq L]

def Registry.init : Registry L := ⟨[], fun _ => none, []⟩

/-- `Hashtable.contains`, which looks for a value. -/
def contains (table : List (String × Obj)) (value : Obj) : Bool :=
  table.any fun entry => entry.2 = value

/-- `Hashtable.put`. -/
def put (table : List (String × Obj)) (key : String) (value : Obj) : List (String × Obj) :=
  (key, value) :: table.filter fun entry => entry.1 ≠ key

def register (s : Registry L) (topic group : String) (listener : L) (retry : Int) : Registry L :=
  let consumers := (s.listenerList topic).getD []
  let consumers := if listener ∈ consumers then consumers else consumers ++ [listener]
  let s := { s with listenerList := update s.listenerList topic (some consumers) }
  if !contains s.consumerList (.string topic) then
    { s with
      consumerList := put s.consumerList topic (.consumer s.started.length)
      started := s.started ++ [⟨topic, group, retry⟩] }
  else s

/-- The overloads of the methods that register. -/
inductive Registration (L : Type)
  | registerTopic (topic : String) (listener : L) (retry : Int)
  | registerQuene (topic : String) (listener : L) (retry : Int)
  | registerQueneGroup (topic group : String) (listener : L) (retry : Int)
  | register (topic group : String) (listener : L) (retry : Int)

namespace Registration

def topic : Registration L → String
  | registerTopic topic _ _ | registerQuene topic _ _ | registerQueneGroup topic _ _ _
  | register topic _ _ _ => topic

def listener : Registration L → L
  | registerTopic _ listener _ | registerQuene _ listener _ | registerQueneGroup _ _ listener _
  | register _ _ listener _ => listener

/-- Without the argument `retry` it is `-1`. -/
def retry : Registration L → Int
  | registerTopic _ _ retry | registerQuene _ _ retry | registerQueneGroup _ _ _ retry
  | register _ _ _ retry => retry

/-- The group given to `register`, which is the channel of the consumer. -/
def group (identification : String) : Registration L → String
  | registerTopic _ _ _ => identification
  | registerQuene topic _ _ => "channel_" ++ topic
  | registerQueneGroup topic group _ _ => "channel_" ++ group ++ topic
  | register _ group _ _ => group

end Registration

/-! ## Published messages -/

/-- The channels of a topic. -/
def channels (s : Registry L) (topic : String) : List String :=
  ((s.started.filter fun c => c.topic = topic).map NSQConsumer.group).dedup

/-- A consumer of the channel `c` gets its copy of `m` and runs `invoked`. -/
def Delivers (platform : Platform) (excute : L → Option Message → Bool) (m : NSQMessage)
    (s : Registry L) (topic c : String) (invoked : List L) : Prop :=
  ∃ consumer ∈ s.started, consumer.topic = topic ∧ consumer.group = c ∧
    ∃ order, order.Perm ((s.listenerList topic).getD []) ∧
      invoked = (message platform excute (some order) consumer.retry m).invoked

/-- `m` is published on `topic`: each channel delivers its copy once. `calls` are the invocations,
by channel and listener. -/
def Publishes (platform : Platform) (excute : L → Option Message → Bool) (m : NSQMessage)
    (s : Registry L) (topic : String) (calls : List (String × L)) : Prop :=
  ∃ invoked : String → List L,
    (∀ c ∈ channels s topic, Delivers platform excute m s topic c (invoked c)) ∧
      calls = (channels s topic).flatMap fun c => (invoked c).map fun l => (c, l)

/-- What happens in the process: registrations and published messages. -/
inductive Event (L : Type)
  | registered (r : Registration L)
  | published (topic : String) (m : NSQMessage) (calls : List (String × L))

inductive Step (identification : String) (platform : Platform)
    (excute : L → Option Message → Bool) : Registry L → Event L → Registry L → Prop
  | registered {s : Registry L} (r : Registration L) :
    Step identification platform excute s (.registered r)
      (register s r.topic (r.group identification) r.listener r.retry)
  | published {s : Registry L} {topic : String} {m : NSQMessage} {calls : List (String × L)} :
    Publishes platform excute m s topic calls →
      Step identification platform excute s (.published topic m calls) s

/-- `l` has been registered under the group `c` on `topic`. -/
def Registered (identification : String) (events : List (Event L)) (topic c : String) (l : L) :
    Prop :=
  ∃ r, .registered r ∈ events ∧ r.topic = topic ∧ r.group identification = c ∧ r.listener = l

end

/-! ## What the tables hold -/

section
variable {L : Type} [DecidableEq L] {identification : String} {platform : Platform}
  {excute : L → Option Message → Bool} {s s' : Registry L} {events : List (Event L)}

structure Tables (identification : String) (events : List (Event L)) (s : Registry L) : Prop where
  listeners : ∀ topic l, l ∈ (s.listenerList topic).getD [] ↔
    ∃ c, Registered identification events topic c l
  nodup : ∀ topic, ((s.listenerList topic).getD []).Nodup
  consumers : ∀ topic c, (∃ consumer ∈ s.started, consumer.topic = topic ∧ consumer.group = c) ↔
    ∃ l, Registered identification events topic c l
  values : ∀ entry ∈ s.consumerList, ∃ ref, entry.2 = .consumer ref

omit [DecidableEq L] in
/-- No consumer equals a string. -/
theorem contains_string {table : List (String × Obj)}
    (h : ∀ entry ∈ table, ∃ ref, entry.2 = .consumer ref) (topic : String) :
    contains table (.string topic) = false := by
  rw [contains, List.any_eq_false]
  intro entry he
  obtain ⟨ref, hr⟩ := h entry he
  simp [hr]

omit [DecidableEq L] in
theorem registered_snoc (r : Registration L) (topic c : String) (l : L) :
    Registered identification (events ++ [.registered r]) topic c l ↔
      Registered identification events topic c l ∨
        r.topic = topic ∧ r.group identification = c ∧ r.listener = l := by
  constructor
  · rintro ⟨r', hr', h⟩
    rcases List.mem_append.mp hr' with hr' | hr'
    · exact Or.inl ⟨r', hr', h⟩
    · cases List.mem_singleton.mp hr'
      exact Or.inr h
  · rintro (⟨r', hr', h⟩ | h)
    · exact ⟨r', List.mem_append_left _ hr', h⟩
    · exact ⟨r, by simp, h⟩

omit [DecidableEq L] in
theorem registered_published {topic' : String} {m : NSQMessage} {calls : List (String × L)}
    (topic c : String) (l : L) :
    Registered identification (events ++ [.published topic' m calls]) topic c l ↔
      Registered identification events topic c l := by
  simp [Registered]

/-- `register` adds the listener to those of its topic. -/
theorem mem_register (s : Registry L) (topic group : String) (listener : L) (retry : Int)
    (topic' : String) (l : L) :
    l ∈ ((register s topic group listener retry).listenerList topic').getD [] ↔
      l ∈ (s.listenerList topic').getD [] ∨ topic = topic' ∧ listener = l := by
  have hlisteners : (register s topic group listener retry).listenerList =
      update s.listenerList topic (some (if listener ∈ (s.listenerList topic).getD [] then
        (s.listenerList topic).getD [] else (s.listenerList topic).getD [] ++ [listener])) := by
    unfold register
    dsimp only
    split
    · rfl
    · rfl
  rw [hlisteners]
  by_cases ht : topic = topic'
  · subst ht
    rw [Function.update_self, Option.getD_some]
    split
    · next hmem =>
      refine ⟨Or.inl, fun hl => hl.elim id ?_⟩
      rintro ⟨-, rfl⟩
      exact hmem
    · rw [List.mem_append, List.mem_singleton]
      exact or_congr_right ⟨fun hl => ⟨rfl, hl.symm⟩, fun hl => hl.2.symm⟩
  · rw [Function.update_of_ne (Ne.symm ht)]
    exact ⟨Or.inl, fun hl => hl.elim id fun h => absurd h.1 ht⟩

theorem Tables.register (h : Tables identification events s) (r : Registration L) :
    Tables identification (events ++ [.registered r])
      (register s r.topic (r.group identification) r.listener r.retry) := by
  have hlisteners : ∀ topic l,
      l ∈ ((Consumers.register s r.topic (r.group identification) r.listener r.retry).listenerList
        topic).getD [] ↔ ∃ c, Registered identification (events ++ [.registered r]) topic c l := by
    intro topic l
    simp only [mem_register, registered_snoc, exists_or]
    rw [← h.listeners]
    exact or_congr_right ⟨fun hl => ⟨_, hl.1, rfl, hl.2⟩, fun ⟨_, ht, _, hl⟩ => ⟨ht, hl⟩⟩
  have hcontains := contains_string h.values r.topic
  refine ⟨hlisteners, ?_, ?_, ?_⟩ <;> unfold Consumers.register <;>
    simp only [hcontains, Bool.not_false, if_true]
  · intro topic
    show ((update s.listenerList r.topic _ topic).getD []).Nodup
    by_cases ht : topic = r.topic
    · subst ht
      rw [Function.update_self, Option.getD_some]
      split
      · exact h.nodup _
      · next hmem =>
        rw [List.nodup_append]
        refine ⟨h.nodup _, List.nodup_singleton _, fun a ha b hb => ?_⟩
        rw [List.mem_singleton.mp hb]
        exact fun e => hmem (e ▸ ha)
    · rw [Function.update_of_ne ht]
      exact h.nodup topic
  · intro topic c
    simp only [registered_snoc, exists_or]
    rw [← h.consumers]
    simp only [List.mem_append, List.mem_singleton, or_and_right, exists_or]
    refine or_congr_right ⟨?_, ?_⟩
    · rintro ⟨consumer, rfl, ht, hc⟩
      exact ⟨r.listener, ht, hc, rfl⟩
    · rintro ⟨l, ht, hc, -⟩
      exact ⟨_, rfl, ht, hc⟩
  · intro entry he
    rcases List.mem_cons.mp he with rfl | he
    · exact ⟨_, rfl⟩
    · exact h.values entry (List.mem_of_mem_filter he)

/-- **The tables after any run.** -/
theorem Tables.run (h : Run (Step identification platform excute) Registry.init events s) :
    Tables identification events s := by
  refine h.history (I := Tables identification) ?_ (fun events s l s' ih hs => ?_)
  · refine ⟨fun topic l => ?_, fun topic => List.nodup_nil, fun topic c => ?_, fun _ he => by cases he⟩
    · simp [Registry.init, Registered]
    · simp [Registry.init, Registered]
  · cases hs with
    | registered r => exact ih.register r
    | published =>
      refine ⟨fun topic l => ?_, ih.nodup, fun topic c => ?_, ih.values⟩
      · simp only [registered_published]
        exact ih.listeners topic l
      · simp only [registered_published]
        exact ih.consumers topic c

/-! ## Who is invoked -/

omit [DecidableEq L] in
theorem mem_channels (h : Tables identification events s) (topic c : String) :
    c ∈ channels s topic ↔ ∃ l, Registered identification events topic c l := by
  rw [← h.consumers, channels, List.mem_dedup, List.mem_map]
  simp only [List.mem_filter, decide_eq_true_eq, and_assoc]

theorem count_flatMap {cs : List String} (hcs : cs.Nodup) (f : String → List L) (c : String) (l : L) :
    (cs.flatMap fun c => (f c).map fun l => (c, l)).count (c, l) =
      if c ∈ cs then (f c).count l else 0 := by
  induction cs with
  | nil => rfl
  | cons a cs ih =>
    obtain ⟨ha, hcs⟩ := List.nodup_cons.mp hcs
    rw [List.flatMap_cons, List.count_append, ih hcs]
    by_cases hca : c = a
    · subst hca
      rw [if_neg ha, if_pos (by simp), List.count_map_of_injective _ _ (Prod.mk_right_injective c)]
      rfl
    · have hzero : ((f a).map fun l => (a, l)).count (c, l) = 0 := by
        rw [List.count_eq_zero]
        intro hm
        obtain ⟨l', -, he⟩ := List.mem_map.mp hm
        exact hca (congrArg Prod.fst he).symm
      rw [hzero, Nat.zero_add]
      simp [hca]

/-- What an accepted message runs: every listener of the topic, once for every channel. -/
theorem Publishes.count (h : Tables identification events s) {m : NSQMessage} {body : List Byte}
    (hm : m.message = some body)
    (haccept : ∀ l, excute l (Message.convert platform (platform.newString body)) = true)
    {topic : String} {calls : List (String × L)}
    (hp : Publishes platform excute m s topic calls) (c : String) (l : L) :
    calls.count (c, l) =
      if c ∈ channels s topic ∧ l ∈ (s.listenerList topic).getD [] then 1 else 0 := by
  obtain ⟨invoked, hd, rfl⟩ := hp
  have hnd : (channels s topic).Nodup := List.nodup_dedup _
  rw [count_flatMap hnd]
  by_cases hc : c ∈ channels s topic
  · obtain ⟨consumer, -, -, -, order, hperm, hi⟩ := hd c hc
    have horder : invoked c = order := by
      rw [hi, message, hm]
      exact congrArg Handled.invoked (excuteAll_accepted (fun l _ => haccept l))
    rw [if_pos hc, horder, hperm.count_eq]
    by_cases hl : l ∈ (s.listenerList topic).getD []
    · rw [if_pos ⟨hc, hl⟩, List.count_eq_one_of_mem (h.nodup topic) hl]
    · rw [if_neg (fun hh => hl hh.2), List.count_eq_zero.mpr hl]
  · rw [if_neg hc, if_neg (fun hh => hc hh.1)]

/-- **When each listener consumes a published message once per group**: exactly if every listener of
the topic is registered under every group of the topic. -/
theorem published_once_iff (h : Run (Step identification platform excute) Registry.init events s)
    {m : NSQMessage} {body : List Byte} (hm : m.message = some body)
    (haccept : ∀ l, excute l (Message.convert platform (platform.newString body)) = true)
    (topic : String) :
    (∀ calls, Publishes platform excute m s topic calls → ∀ c l,
        (Registered identification events topic c l → calls.count (c, l) = 1) ∧
        (¬ Registered identification events topic c l → calls.count (c, l) = 0)) ↔
      ∀ c l c' l', Registered identification events topic c l' →
        Registered identification events topic c' l → Registered identification events topic c l := by
  have ht := Tables.run h
  constructor
  · intro honce c l c' l' hc hl
    by_contra hn
    have hp : Publishes platform excute m s topic _ :=
      ⟨fun c => (message platform excute (some ((s.listenerList topic).getD [])) 0 m).invoked,
        fun c hc => ?_, rfl⟩
    · have hcount := ((honce _ hp) c l).2 hn
      rw [hp.count ht hm haccept, if_pos] at hcount
      · cases hcount
      · exact ⟨(mem_channels ht topic c).mpr ⟨l', hc⟩, (ht.listeners topic l).mpr ⟨c', hl⟩⟩
    · obtain ⟨consumer, hmem, htopic, hgroup⟩ := (ht.consumers topic c).mpr
        ((mem_channels ht topic c).mp hc)
      refine ⟨consumer, hmem, htopic, hgroup, _, List.Perm.refl _, ?_⟩
      simp only [message, hm, excuteAll_accepted (fun l _ => haccept l)]
  · intro hall calls hp c l
    rw [hp.count ht hm haccept]
    constructor
    · intro hr
      exact if_pos ⟨(mem_channels ht topic c).mpr ⟨l, hr⟩, (ht.listeners topic l).mpr ⟨c, hr⟩⟩
    · intro hn
      refine if_neg ?_
      rintro ⟨hc, hl⟩
      obtain ⟨l', hc⟩ := (mem_channels ht topic c).mp hc
      obtain ⟨c', hl⟩ := (ht.listeners topic l).mp hl
      exact hn (hall c l c' l' hc hl)

theorem published_once_single :
    (∀ calls, Publishes plainText (fun _ _ => true) ⟨[7], 1, 0, some [120#8]⟩
        (register Registry.init "t" "a" 1 (-1)) "t" calls → ∀ c l,
        (Registered "id" [.registered (.register "t" "a" 1 (-1))] "t" c l →
          calls.count (c, l) = 1) ∧
        (¬ Registered "id" [.registered (.register "t" "a" 1 (-1))] "t" c l →
          calls.count (c, l) = 0)) ↔
      ∀ c l c' l', Registered "id" [.registered (.register "t" "a" 1 (-1))] "t" c l' →
        Registered "id" [.registered (.register "t" "a" 1 (-1))] "t" c' l →
        Registered "id" [.registered (.register "t" "a" (1 : Nat) (-1))] "t" c l :=
  published_once_iff (.single (.registered (.register "t" "a" 1 (-1)))) rfl (fun _ => rfl) "t"

/-- Two listeners with groups of their own: each runs once for either group. -/
theorem published_to_other_group :
    ∃ s calls, Run (Step "id" plainText fun _ _ => true) (Registry.init : Registry Nat)
        [.registered (.register "t" "a" 1 (-1)), .registered (.register "t" "b" 2 (-1))] s ∧
      Publishes plainText (fun _ _ => true) ⟨[7], 1, 0, some [120#8]⟩ s "t" calls ∧
      calls = [("a", 1), ("a", 2), ("b", 1), ("b", 2)] ∧
      ¬ Registered "id" [.registered (.register "t" "a" 1 (-1)),
        .registered (.register "t" "b" 2 (-1))] "t" "b" 1 := by
  refine ⟨_, [("a", 1), ("a", 2), ("b", 1), ("b", 2)],
    (Run.nil.snoc (.registered (.register "t" "a" 1 (-1)))).snoc
      (.registered (.register "t" "b" 2 (-1))), ⟨fun _ => [1, 2], fun c hc => ?_, by decide⟩, rfl, ?_⟩
  · have hc : c ∈ ["a", "b"] := by
      convert hc using 1
      decide
    simp only [List.mem_cons, List.not_mem_nil, or_false] at hc
    rcases hc with rfl | rfl
    · exact ⟨⟨"t", "a", -1⟩, by decide, rfl, rfl, [1, 2], by decide, rfl⟩
    · exact ⟨⟨"t", "b", -1⟩, by decide, rfl, rfl, [1, 2], by decide, rfl⟩
  · rintro ⟨r, hr, ht, hc, hl⟩
    simp only [List.mem_cons, List.not_mem_nil, or_false, Event.registered.injEq] at hr
    rcases hr with rfl | rfl
    · revert hc
      decide
    · cases hl

end

end Consumers

end BaseService.Notify
