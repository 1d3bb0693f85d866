import BaseService.LocalCache.Deadlines

/-!
# Where an answered value comes from

* `Call.looksUp` : the two lookups of a key; `Step.looked` : they answer what is stored;
* `Step.value` : a stored value is older than a call, or the call puts it;
* `run_value` : over a run, `TimedCache.looked_up` : for the calls on a cache.
-/

namespace BaseService.LocalCache

/-- `get(k)` or `get(k, interval)`. -/
def Call.looksUp {K V : Type} (k : K) (c : Call K V) : Prop :=
  (∃ groupNow now, c = .get k groupNow now) ∨ ∃ interval now, c = .getRemains k interval now

namespace Store
variable {K V : Type} [DecidableEq K] {s s' : Store K V}

/-- A step whose label is a call with its answer. -/
def Steps (s : Store K V) (l : Call K V × Answer V) (s' : Store K V) : Prop := Step s l.1 l.2 s'

omit [DecidableEq K] in
theorem value_congr (h : s'.entries = s.entries) (k : K) : s'.value k = s.value k :=
  congrArg (fun e => (e k).bind Entry.value) h

theorem value_erase (k k' : K) :
    (s.erase k).value k' = s.value k' ∨ (s.erase k).value k' = none := by
  by_cases hk : k' = k
  · exact Or.inr (by simp [value, erase, hk])
  · exact Or.inl (by simp [value, erase, hk])

/-- A new deadline leaves the value. -/
theorem value_touch (k k' : K) (d now : Int64) : (s.touch k d now).value k' = s.value k' := by
  by_cases hk : k' = k
  · subst hk
    cases he : s.entries k' <;> simp [value, touch, he, Entry.setExpireInterval]
  · simp [value, touch, hk]

theorem Step.put_value {k : K} {v : Option V} {g : Option CacheGroup} {now : Int64} {a : Answer V}
    (h : Step s (.put k v g now) a s') : s'.value k = v := by
  cases h with
  | put ha => simp [Store.value, ha.self]

theorem Step.remove_value {k : K} {a : Answer V} (h : Step s (.remove k) a s') :
    s'.value k = none := by
  cases h
  simp [Store.value, erase]

/-- After a call the value of `k` is the one before, or it is gone, or the call has put it. -/
theorem Step.value {c : Call K V} {a : Answer V} (h : Step s c a s') (k : K) :
    s'.value k = s.value k ∨ s'.value k = none ∨ ∃ g now, c = .put k (s'.value k) g now := by
  cases h with
  | @put k' v g now entries' old ha =>
    by_cases hk : k = k'
    · subst hk
      have hput : Step s (.put k v g now) (.value old) { s with entries := entries' } := .put ha
      exact Or.inr (Or.inr ⟨g, now, by rw [hput.put_value]⟩)
    · rcases ha.other k hk with he | he
      · exact Or.inl (by simp [Store.value, he])
      · exact Or.inr (Or.inl (by simp [Store.value, he]))
  | getGroup hg => exact Or.inl (value_congr hg.entries.1 k)
  | live he hj => exact Or.inl (value_congr hj.entries.1 k)
  | getThrown he hj => exact Or.inl (value_congr hj.entries.1 k)
  | @dead s₁ k' e groupNow now he hj =>
    rcases value_erase (s := s₁) k' k with hv | hv
    · exact Or.inl (hv.trans (value_congr hj.entries.1 k))
    · exact Or.inr (Or.inl hv)
  | remove =>
    rcases value_erase (s := s) _ k with hv | hv
    · exact Or.inl hv
    · exact Or.inr (Or.inl hv)
  | removeAll => exact Or.inr (Or.inl rfl)
  | expireInterval => exact Or.inl (value_touch _ k _ _)
  | getRemains => exact Or.inl (value_touch _ k _ _)
  | refrush => exact Or.inl rfl
  | refrushThrown => exact Or.inl rfl
  | miss => exact Or.inl rfl

/-- What a lookup answers is stored. -/
theorem Step.looked {c : Call K V} {k : K} {v : V} (h : Step s c (.value (some v)) s')
    (hc : c.looksUp k) : s.value k = some v := by
  generalize ha : Answer.value (some v) = a at h
  rcases hc with ⟨groupNow, now, rfl⟩ | ⟨interval, now, rfl⟩
  · cases h with
    | live he hj => rw [Answer.value.inj ha, Store.value, he]; rfl
    | _ => cases ha
  · cases h
    exact (Answer.value.inj ha).symm

/-- After `get(k)` has answered null there is no value to answer. -/
theorem Step.get_none {k : K} {groupNow now : Int64}
    (h : Step s (.get k groupNow now) (.value none) s') : s'.value k = none := by
  generalize ha : Answer.value none = a at h
  cases h with
  | miss he => rw [Store.value, he]; rfl
  | live he hj =>
    rw [value_congr hj.entries.1, Store.value, he]
    exact (Answer.value.inj ha).symm
  | dead he hj => simp [Store.value, erase]
  | getThrown => cases ha

/-- A value at the end of a run was there at its start, or a call of the run has put it. -/
theorem run_value {ls : List (Call K V × Answer V)} (h : Run Steps s ls s') {k : K} {v : V}
    (hv : s'.value k = some v) :
    s.value k = some v ∨ ∃ l ∈ ls, ∃ g now, l.1 = .put k (some v) g now := by
  induction h generalizing v with
  | nil => exact Or.inl hv
  | @snoc ls s₁ s₂ l h hs ih =>
    rcases hs.value k with he | he | ⟨g, now, he⟩
    · rcases ih (he ▸ hv) with hv | ⟨l', hl', hput⟩
      · exact Or.inl hv
      · exact Or.inr ⟨l', List.mem_append_left _ hl', hput⟩
    · rw [he] at hv
      cases hv
    · rw [hv] at he
      exact Or.inr ⟨l, by simp, g, now, he⟩

end Store

namespace TimedCache
variable {K V : Type} [DecidableEq K] [HashCode K] {t t' t'' : TimedCache K V}

/-- `Calls`, with a call and its answer as the label. -/
def Does (t : TimedCache K V) (l : Call K V × Answer V) (t' : TimedCache K V) : Prop :=
  Calls t l.1 l.2 t'

theorem run_refines {ls : List (Call K V × Answer V)} (hi : t.Inv) (h : Run Does t ls t') :
    t'.Inv ∧ Run Store.Steps t.view ls t'.view :=
  Run.simulate (I := Inv) Store.Steps h hi fun _ _ _ hi hs => call_refines hi hs

/-- A value that is looked up after some calls was stored before them, or one of them has put
it. -/
theorem looked_up {ls : List (Call K V × Answer V)} (hi : t.Inv) (h : Run Does t ls t')
    {c : Call K V} {k : K} {v : V} (hc : c.looksUp k) (hs : Calls t' c (.value (some v)) t'') :
    t.view.value k = some v ∨ ∃ l ∈ ls, ∃ g now, l.1 = .put k (some v) g now := by
  obtain ⟨hi', hrun⟩ := run_refines hi h
  exact Store.run_value hrun ((call_refines hi' hs).2.looked hc)

end TimedCache

end BaseService.LocalCache
