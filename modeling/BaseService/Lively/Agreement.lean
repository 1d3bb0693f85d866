import BaseService.Data.Overtaking
import BaseService.Lively.LivelyService

/-!
# The lively sets of several processes

Every process has its own `LIVELY_CACHE`, and the consumers of all processes are in one group.

* `Consumer`, `LivelyService.consumers` : what `init` starts;
* `Execution`, `Execution.on` : a batch that a consumer of a process executes; `on_cache` : its items
  reach the cache of this process only;
* `Delivered` : each message of a topic goes to one consumer of each group;
* `agree_iff` : when the processes agree on a list after every delivery.
-/

namespace BaseService.Lively
open Function (update)

/-- `KafkaConsumer`, as far as messages are assigned to it. -/
structure Consumer where
  topic : KafkaEnum
  groupId : String
  deriving DecidableEq

/-- `new KafkaConsumer(module, topic, partitionsNum, executor)`. -/
def Consumer.new (topic : KafkaEnum) : Consumer := ⟨topic, "lively-group"⟩

/-- The consumers that `init` starts, each with the executor of its topic. -/
def LivelyService.consumers : List Consumer := [.new .livelyAddTopic, .new .livelyDelTopic]

/-- A batch: what a consumer of the process has received and now executes. -/
structure Execution (ρ : Type) where
  process : ρ
  consumer : Consumer
  received : List String
  ok : LivelyItemEnum → Bool
  order : KeyOrder

variable {ρ : Type}

/-- The batches of the processes have each message of a topic once for every group that consumes the
topic. -/
structure Delivered (sent : KafkaEnum → List String) (xs : List (Execution ρ)) : Prop where
  consumer : ∀ x ∈ xs, x.consumer ∈ LivelyService.consumers
  batch : ∀ x ∈ xs, x.received ≠ []
  once : Nonempty ρ → ∀ c ∈ LivelyService.consumers,
    ((xs.filter fun x => x.consumer.topic = c.topic ∧ x.consumer.groupId = c.groupId).flatMap
      Execution.received).Perm (sent c.topic)

section
variable [DecidableEq ρ]

/-- The processes after the execution; `none` if it throws. -/
def Execution.on (x : Execution ρ) (s : ρ → LivelyService) : Option (ρ → LivelyService) :=
  match (s x.process).execute x.consumer.topic x.ok x.order x.received.toFinset with
  | (true, this) => some (update s x.process this)
  | (false, _) => none

/-! ## One execution -/

theorem Execution.on_eq {x : Execution ρ} {s s' : ρ → LivelyService} (h : x.on s = some s') :
    ((s x.process).execute x.consumer.topic x.ok x.order x.received.toFinset).1 = true ∧
      s' = update s x.process
        ((s x.process).execute x.consumer.topic x.ok x.order x.received.toFinset).2 := by
  rw [Execution.on] at h
  split at h
  · next this hexec =>
    rw [hexec]
    exact ⟨rfl, (Option.some.inj h).symm⟩
  · cases h

theorem Execution.on_isSome {x : Execution ρ} {s : ρ → LivelyService} :
    (x.on s).isSome ↔ ∀ each ∈ x.received, (s x.process).Accepts each := by
  have hreturns : ((s x.process).execute x.consumer.topic x.ok x.order x.received.toFinset).1 =
      true ↔ ∀ each ∈ x.received.toFinset, (s x.process).Accepts each :=
    LivelyService.execute_returns
  simp only [List.mem_toFinset] at hreturns
  rw [← hreturns, Execution.on]
  split
  · next hexec => simp [hexec]
  · next hexec => simp [hexec]

theorem Execution.on_cache {x : Execution ρ} {s s' : ρ → LivelyService} (h : x.on s = some s')
    (e : LivelyItemEnum) (p : ρ) :
    (s' p).cache e = if p = x.process
      then ((s p).cache e).map (x.consumer.topic.effect · (items e x.received.toFinset))
      else (s p).cache e := by
  obtain ⟨htrue, rfl⟩ := Execution.on_eq h
  by_cases hp : p = x.process
  · subst hp
    rw [Function.update_self, if_pos rfl, LivelyService.execute_cache htrue]
  · rw [Function.update_of_ne hp, if_neg hp]

theorem Execution.on_accepts {x : Execution ρ} {s s' : ρ → LivelyService} (h : x.on s = some s')
    (p : ρ) (each : String) : (s' p).Accepts each ↔ (s p).Accepts each := by
  refine and_congr_right fun _ => forall_congr' fun e => forall_congr' fun item =>
    imp_congr_right fun _ => ?_
  rw [LivelyService.Has, LivelyService.Has, Execution.on_cache h]
  split <;> simp

/-! ## Deliveries -/

variable {sent : KafkaEnum → List String} {xs : List (Execution ρ)}

theorem run_accepts {s s' : ρ → LivelyService} (h : execs Execution.on xs s = some s') :
    ∀ x ∈ xs, ∀ each ∈ x.received, (s x.process).Accepts each := by
  induction xs generalizing s with
  | nil => simp
  | cons x xs ih =>
    obtain ⟨s₁, hx, hxs⟩ := (execs_cons_some _).1 h
    intro y hy each heach
    rcases List.mem_cons.1 hy with rfl | hy
    · exact Execution.on_isSome.1 (by rw [hx]; rfl) each heach
    · exact (Execution.on_accepts hx _ _).1 (ih hxs y hy each heach)

theorem KafkaEnum.consumers (topic : KafkaEnum) : Consumer.new topic ∈ LivelyService.consumers := by
  cases topic <;> decide

omit [DecidableEq ρ] in
theorem Delivered.mem_sent (h : Delivered sent xs) {x : Execution ρ} (hx : x ∈ xs) {each : String}
    (heach : each ∈ x.received) : each ∈ sent x.consumer.topic := by
  refine (h.once ⟨x.process⟩ _ (h.consumer x hx)).subset (List.mem_flatMap.2 ⟨x, ?_, heach⟩)
  exact List.mem_filter.2 ⟨hx, by simp⟩

omit [DecidableEq ρ] in
theorem Delivered.mem_received (h : Delivered sent xs) (p : ρ) {topic : KafkaEnum} {each : String}
    (heach : each ∈ sent topic) : ∃ x ∈ xs, each ∈ x.received := by
  have hmem := (h.once ⟨p⟩ _ topic.consumers).symm.subset heach
  obtain ⟨x, hx, heach⟩ := List.mem_flatMap.1 hmem
  exact ⟨x, (List.mem_filter.1 hx).1, heach⟩

theorem items_mono (e : LivelyItemEnum) {m m' : Finset String} (h : m ⊆ m') :
    items e m ⊆ items e m' := Finset.biUnion_subset_biUnion_of_subset_left _ h

theorem KafkaEnum.effect_subset {topic : KafkaEnum} {c values values' : Finset Int64}
    (h : topic.effect c values = c) (hsub : values' ⊆ values) : topic.effect c values' = c := by
  cases topic with
  | livelyAddTopic => exact Finset.union_eq_left.2 (hsub.trans (Finset.union_eq_left.1 h))
  | livelyDelTopic =>
    exact Finset.sdiff_eq_self_iff_disjoint.2
      ((Finset.sdiff_eq_self_iff_disjoint.1 h).mono_right hsub)

variable {e : LivelyItemEnum} {c : Finset Int64}

/-- Messages that change nothing, wherever they go. -/
theorem run_unchanged (hsent : ∀ topic : KafkaEnum, topic.effect c (items e (sent topic).toFinset) = c)
    {xs : List (Execution ρ)} {s s' : ρ → LivelyService} (hs : ∀ p, (s p).cache e = some c)
    (hxs : ∀ x ∈ xs, ∀ each ∈ x.received, each ∈ sent x.consumer.topic)
    (h : execs Execution.on xs s = some s') (p : ρ) : (s' p).cache e = some c := by
  induction xs generalizing s with
  | nil =>
    obtain rfl := Option.some.inj h
    exact hs p
  | cons x xs ih =>
    obtain ⟨s₁, hx, hrest⟩ := (execs_cons_some _).1 h
    refine ih (fun r => ?_) (fun y hy => hxs y (List.mem_cons_of_mem _ hy)) hrest
    rw [Execution.on_cache hx, hs]
    have hsub : items e x.received.toFinset ⊆ items e (sent x.consumer.topic).toFinset :=
      items_mono e fun each heach => List.mem_toFinset.2
        (hxs x List.mem_cons_self each (List.mem_toFinset.1 heach))
    split
    · rw [Option.map_some, KafkaEnum.effect_subset (hsent _) hsub]
    · rfl

/-! ## Each message a batch of its own -/

/-- The message as a batch of the process `who` sends it to. -/
def single (topic : KafkaEnum) (who : String → ρ) (each : String) : Execution ρ :=
  ⟨who each, .new topic, [each], fun _ => true, .sorted⟩

/-- If all items of the list go to the process `t`, then only its cache changes. -/
theorem run_single {topic : KafkaEnum} {who : String → ρ} {t : ρ}
    (hwho : ∀ each item, entry each = some (some (e.name, item)) → who each = t) (ms : List String)
    {s : ρ → LivelyService} (hs : ∀ each ∈ ms, (s (who each)).Accepts each) :
    ∃ s', execs Execution.on (ms.map (single topic who)) s = some s' ∧
      (∀ p each, (s' p).Accepts each ↔ (s p).Accepts each) ∧
      ∀ p, (s' p).cache e = if p = t
        then ((s p).cache e).map (topic.effect · (items e ms.toFinset)) else (s p).cache e := by
  induction ms generalizing s with
  | nil => exact ⟨s, rfl, fun _ _ => Iff.rfl, fun p => by simp [items]⟩
  | cons each ms ih =>
    obtain ⟨s₁, hs₁⟩ := Option.isSome_iff_exists.1 (Execution.on_isSome (x := single topic who each)
      (s := s) |>.2 fun m hm => by
        obtain rfl := List.mem_singleton.1 hm
        exact hs m List.mem_cons_self)
    obtain ⟨s', hrun, haccepts, hcache⟩ := ih (s := s₁) fun m hm =>
      (Execution.on_accepts hs₁ _ _).2 (hs m (List.mem_cons_of_mem _ hm))
    refine ⟨s', ?_, fun p m => (haccepts p m).trans (Execution.on_accepts hs₁ p m), fun p => ?_⟩
    · rw [List.map_cons, execs_cons, hs₁]
      exact hrun
    · have hitems : items e (each :: ms).toFinset = items e {each} ∪ items e ms.toFinset := by
        rw [List.toFinset_cons, Finset.insert_eq, items_union]
      have hfirst : (s₁ p).cache e = if p = t
          then ((s p).cache e).map (topic.effect · (items e {each})) else (s p).cache e := by
        rw [Execution.on_cache hs₁]
        change (if p = who each then
          ((s p).cache e).map (topic.effect · (items e [each].toFinset)) else _) = _
        rw [show [each].toFinset = {each} from rfl]
        by_cases hitem : ∃ item, entry each = some (some (e.name, item))
        · obtain ⟨item, hitem⟩ := hitem
          rw [hwho each item hitem]
        · have hempty : items e {each} = ∅ := by
            rw [Finset.eq_empty_iff_forall_notMem]
            intro item hmem
            obtain ⟨m, hm, hentry⟩ := mem_items.1 hmem
            exact hitem ⟨item, Finset.mem_singleton.1 hm ▸ hentry⟩
          simp [hempty]
      rw [hcache, hfirst, hitems]
      split
      · simp only [Option.map_map, Function.comp_def, KafkaEnum.effect_union]
      · rfl

omit [DecidableEq ρ] in
theorem delivered_single (sent : KafkaEnum → List String) (who who' : String → ρ) :
    Delivered sent ((sent .livelyAddTopic).map (single .livelyAddTopic who) ++
      (sent .livelyDelTopic).map (single .livelyDelTopic who')) where
  consumer x hx := by
    rcases List.mem_append.1 hx with hx | hx <;> obtain ⟨each, -, rfl⟩ := List.mem_map.1 hx <;>
      exact KafkaEnum.consumers _
  batch x hx := by
    rcases List.mem_append.1 hx with hx | hx <;> obtain ⟨each, -, rfl⟩ := List.mem_map.1 hx <;>
      exact List.cons_ne_nil _ _
  once _ c hc := by
    have hreceived (topic : KafkaEnum) (who : String → ρ) (ms : List String) :
        (ms.map (single topic who)).flatMap Execution.received = ms := by
      rw [List.flatMap_map]
      exact List.flatMap_singleton' ms
    have hgroup : c.groupId = "lively-group" := by
      simp only [LivelyService.consumers, List.mem_cons, List.not_mem_nil, or_false] at hc
      rcases hc with rfl | rfl <;> rfl
    have hfilter (topic : KafkaEnum) (who : String → ρ) (ms : List String) :
        (ms.map (single topic who)).filter (fun x => x.consumer.topic = c.topic ∧
          x.consumer.groupId = c.groupId) =
            if topic = c.topic then ms.map (single topic who) else [] := by
      rw [List.filter_map]
      split
      · next htopic => simp [single, Consumer.new, hgroup, htopic, Function.comp_def]
      · next htopic => simp [single, Consumer.new, htopic, Function.comp_def]
    rw [List.filter_append, hfilter, hfilter, List.flatMap_append]
    cases htopic : c.topic <;> simp [hreceived]

/-! ## Agreement -/

/-- Without failures, and however the messages are delivered, the processes have the same items of
the list in the end. -/
def Agree (e : LivelyItemEnum) (sent : KafkaEnum → List String) (start : ρ → LivelyService) : Prop :=
  ∀ xs s, Delivered sent xs → execs Execution.on xs start = some s →
    ∀ p q, (s p).cache e = (s q).cache e

theorem agree_of_unchanged {start : ρ → LivelyService} (hstart : ∀ p, (start p).cache e = some c)
    (hadd : items e (sent .livelyAddTopic).toFinset ⊆ c)
    (hdel : Disjoint c (items e (sent .livelyDelTopic).toFinset)) : Agree e sent start := by
  intro xs s hdelivered hrun p q
  have hsent : ∀ topic : KafkaEnum, topic.effect c (items e (sent topic).toFinset) = c := by
    intro topic
    cases topic with
    | livelyAddTopic => exact Finset.union_eq_left.2 hadd
    | livelyDelTopic => exact Finset.sdiff_eq_self_iff_disjoint.2 hdel
  have hunchanged := run_unchanged hsent hstart (fun x hx each heach =>
    hdelivered.mem_sent hx heach) hrun
  rw [hunchanged, hunchanged]

/-- One process has all additions of the list, another one all deletions. -/
theorem unchanged_of_agree {start : ρ → LivelyService} (hstart : ∀ p, (start p).cache e = some c)
    (haccepts : ∀ topic, ∀ each ∈ sent topic, ∃ p, (start p).Accepts each) {p q : ρ} (hpq : p ≠ q)
    (h : Agree e sent start) : items e (sent .livelyAddTopic).toFinset ⊆ c ∧
      Disjoint c (items e (sent .livelyDelTopic).toFinset) := by
  classical
  let Names (each : String) : Prop := ∃ item, entry each = some (some (e.name, item))
  let who (t : ρ) (each : String) : ρ :=
    if Names each then t else if h : ∃ p, (start p).Accepts each then h.choose else t
  have hwho (t : ρ) (each : String) (item : Int64)
      (hentry : entry each = some (some (e.name, item))) : who t each = t := if_pos ⟨item, hentry⟩
  have hacc (t : ρ) (topic : KafkaEnum) : ∀ each ∈ sent topic, (start (who t each)).Accepts each := by
    intro each heach
    have hsome := haccepts topic each heach
    by_cases hnames : Names each
    · obtain ⟨item, hentry⟩ := hnames
      rw [hwho t each item hentry]
      refine ⟨by simp [hentry], fun e' item' hentry' => ?_⟩
      rw [hentry] at hentry'
      obtain rfl : e = e' := LivelyItemEnum.name_injective (by simp_all)
      simp [LivelyService.Has, hstart]
    · simp only [who, if_neg hnames, dif_pos hsome]
      exact hsome.choose_spec
  obtain ⟨s₁, hrun₁, haccepts₁, hcache₁⟩ :=
    @run_single _ _ _ .livelyAddTopic _ _ (hwho p) _ _ (hacc p .livelyAddTopic)
  obtain ⟨s₂, hrun₂, -, hcache₂⟩ := @run_single _ _ _ .livelyDelTopic _ _ (hwho q) _ _
    (fun each heach => (haccepts₁ _ _).2 (hacc q .livelyDelTopic each heach))
  have heq := h _ s₂ (delivered_single sent (who p) (who q)) (by
    rw [execs_append, hrun₁]
    exact hrun₂) p q
  simp only [hcache₂, hcache₁, hstart, if_pos, if_neg hpq, if_neg hpq.symm, Option.map_some,
    KafkaEnum.effect, Option.some.injEq] at heq
  have hmem (item : Int64) : item ∈ c ∪ items e (sent .livelyAddTopic).toFinset ↔
      item ∈ c \ items e (sent .livelyDelTopic).toFinset := by rw [heq]
  simp only [Finset.mem_union, Finset.mem_sdiff] at hmem
  refine ⟨fun item hitem => ((hmem item).1 (.inr hitem)).1, ?_⟩
  exact Finset.disjoint_left.2 fun item hc => ((hmem item).1 (.inl hc)).2

/-- Processes that have the same items of a list. -/
theorem agree_iff {start : ρ → LivelyService} (hstart : ∀ p, (start p).cache e = some c) :
    Agree e sent start ↔
      Subsingleton ρ ∨
      (∃ topic, ∃ each ∈ sent topic, ∀ p, ¬ (start p).Accepts each) ∨
      items e (sent .livelyAddTopic).toFinset ⊆ c ∧
        Disjoint c (items e (sent .livelyDelTopic).toFinset) := by
  constructor
  · intro h
    by_contra hnot
    simp only [not_or, not_exists, not_and, not_forall, not_not] at hnot
    obtain ⟨hsub, haccepts, hchange⟩ := hnot
    rw [not_subsingleton_iff_nontrivial] at hsub
    obtain ⟨p, q, hpq⟩ := hsub.exists_pair_ne
    obtain ⟨hadd, hdel⟩ := unchanged_of_agree hstart haccepts hpq h
    exact hchange hadd hdel
  · rintro (hsub | ⟨topic, each, heach, hnone⟩ | ⟨hadd, hdel⟩)
    · intro xs s _ _ p q
      rw [Subsingleton.elim p q]
    · intro xs s hdelivered hrun p q
      obtain ⟨x, hx, hmem⟩ := hdelivered.mem_received p heach
      exact absurd (run_accepts hrun x hx each hmem) (hnone _)
    · exact agree_of_unchanged hstart hadd hdel

end

/-- Two processes that both have the item already. -/
theorem agree_again : Agree .cidTest
    (fun | .livelyAddTopic => [message .cidTest 1] | .livelyDelTopic => [message .cidTest 2])
    (fun _ : Bool => ⟨fun _ => some {1}, fun _ => some {1}⟩) :=
  (agree_iff fun _ => rfl).2 (.inr (.inr (by
    constructor
    · intro item hitem
      obtain ⟨each, heach, hentry⟩ := mem_items.1 hitem
      simp_all [entry_message]
    · rw [Finset.disjoint_left]
      intro item hone hitem
      obtain ⟨each, heach, hentry⟩ := mem_items.1 hitem
      simp_all [entry_message])))

/-- Two processes with empty lists, and one item that is added. -/
theorem added_to_one : ¬ Agree .cidTest
    (fun | .livelyAddTopic => [message .cidTest 1] | .livelyDelTopic => [])
    (fun _ : Bool => ⟨fun _ => some ∅, fun _ => some ∅⟩) := by
  intro h
  have haccepts (each : String) (heach : each ∈ [message .cidTest 1]) :
      LivelyService.Accepts ⟨fun _ => some ∅, fun _ => some ∅⟩ each := by
    obtain rfl := List.mem_singleton.1 heach
    exact ⟨by simp [entry_message], fun _ _ _ => Option.some_ne_none _⟩
  obtain ⟨hadd, -⟩ := unchanged_of_agree (fun _ => rfl) (fun topic each heach => by
    cases topic with
    | livelyAddTopic => exact ⟨true, haccepts each heach⟩
    | livelyDelTopic => cases heach) Bool.false_ne_true h
  have hitem : (1 : Int64) ∈ items .cidTest [message .cidTest 1].toFinset :=
    mem_items.2 ⟨_, by simp, entry_message _ _⟩
  exact absurd (hadd hitem) (Finset.notMem_empty _)

end BaseService.Lively
