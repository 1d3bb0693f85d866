import BaseService.LocalCache.TimedRefines

/-!
# A map with deadlines

* `deadlines d calls` : what a client's calls say each key holds, with exact deadlines and without
  any bound on the number of keys;
* `Store.Sound` : a store never answers against that map; `Sound.run` : in any run;
* `get_sound` : the value `get` answers is in the map and its deadline has not passed.
-/

namespace BaseService.LocalCache
open Function (update)

/-! ## The map -/

/-- An item of the map, live before `start + interval`. -/
structure Item (V : Type) where
  value : Option V
  group : Option CacheGroup
  start : Int
  interval : Int

abbrev Deadlines (K V : Type) := K → Option (Item V)

namespace Deadlines
variable {K V : Type} [DecidableEq K]

def touch (m : Deadlines K V) (k : K) (interval now : Int64) : Deadlines K V :=
  update m k ((m k).map fun i => { i with start := now.toInt, interval := interval.toInt })

/-- The map after a call; `d` is the interval of `put`. -/
def after (d : Int64) (m : Deadlines K V) : Call K V → Deadlines K V
  | .put k v g now => update m k (some ⟨v, g, now.toInt, d.toInt⟩)
  | .expireInterval k interval now | .getRemains k interval now => m.touch k interval now
  | .remove k => update m k none
  | .removeAll => fun _ => none
  | .get _ _ _ | .getGroup _ _ | .refrushGroup _ _ => m

end Deadlines

section
variable {K V : Type} [DecidableEq K]

/-- The map after the calls of a client. -/
def deadlines (d : Int64) (calls : List (Call K V × Answer V)) : Deadlines K V :=
  calls.foldl (fun m l => m.after d l.1) (fun _ => none)

theorem deadlines_snoc (d : Int64) (calls : List (Call K V × Answer V)) (l : Call K V × Answer V) :
    deadlines d (calls ++ [l]) = (deadlines d calls).after d l.1 := by
  rw [deadlines, List.foldl_append]
  rfl

/-- Where the item of `k` after a call comes from: this call put it, or it was there before with
the same value and group. -/
theorem Deadlines.after_eq_some {d : Int64} {m : Deadlines K V} {c : Call K V} {k : K} {i : Item V}
    (h : m.after d c k = some i) :
    (∃ v g now, c = .put k v g now ∧ i = ⟨v, g, now.toInt, d.toInt⟩) ∨
      ((∀ v g now, c ≠ .put k v g now) ∧ c ≠ .remove k ∧ c ≠ .removeAll ∧
        ∃ j, m k = some j ∧ i.value = j.value ∧ i.group = j.group) := by
  have htouch : ∀ {k' : K} {interval now : Int64}, m.touch k' interval now k = some i →
      ∃ j, m k = some j ∧ i.value = j.value ∧ i.group = j.group := by
    intro k' interval now hi
    by_cases hk : k = k'
    · subst hk
      rw [touch, Function.update_self] at hi
      obtain ⟨j, hj, rfl⟩ := Option.map_eq_some_iff.mp hi
      exact ⟨j, hj, rfl, rfl⟩
    · rw [touch, Function.update_of_ne hk] at hi
      exact ⟨i, hi, rfl, rfl⟩
  cases c with
  | put k' v g now =>
    rw [after] at h
    by_cases hk : k = k'
    · subst hk
      rw [Function.update_self] at h
      exact Or.inl ⟨v, g, now, rfl, (Option.some.inj h).symm⟩
    · rw [Function.update_of_ne hk] at h
      refine Or.inr ⟨fun v g now he => ?_, by simp, by simp, i, h, rfl, rfl⟩
      injection he with he
      exact hk he.symm
  | expireInterval k' interval now => exact Or.inr ⟨by simp, by simp, by simp, htouch h⟩
  | getRemains k' interval now => exact Or.inr ⟨by simp, by simp, by simp, htouch h⟩
  | remove k' =>
    rw [after] at h
    by_cases hk : k = k'
    · rw [hk, Function.update_self] at h
      cases h
    · rw [Function.update_of_ne hk] at h
      refine Or.inr ⟨by simp, fun he => ?_, by simp, i, h, rfl, rfl⟩
      injection he with he
      exact hk he.symm
  | removeAll => cases h
  | get k' groupNow now => exact Or.inr ⟨by simp, by simp, by simp, i, h, rfl, rfl⟩
  | getGroup name now => exact Or.inr ⟨by simp, by simp, by simp, i, h, rfl, rfl⟩
  | refrushGroup name now => exact Or.inr ⟨by simp, by simp, by simp, i, h, rfl, rfl⟩

/-- The latest `put` on `k` stored `v` with the group `g`, and `k` was not removed since. -/
def LatestPut (k : K) (v : Option V) (g : Option CacheGroup)
    (calls : List (Call K V × Answer V)) : Prop :=
  ∃ before now a after, calls = before ++ (.put k v g now, a) :: after ∧
    ∀ l ∈ after, (∀ v g now, l.1 ≠ .put k v g now) ∧ l.1 ≠ .remove k ∧ l.1 ≠ .removeAll

/-- An item stems from the latest `put` on its key. -/
theorem latestPut_of_deadlines {d : Int64} {k : K} {calls : List (Call K V × Answer V)} {i : Item V}
    (hi : deadlines d calls k = some i) : LatestPut k i.value i.group calls := by
  induction calls using List.reverseRecOn generalizing i with
  | nil => cases hi
  | append_singleton calls l ih =>
    rw [deadlines_snoc] at hi
    rcases Deadlines.after_eq_some hi with ⟨v, g, now, hc, rfl⟩ | ⟨hput, hrem, hall, j, hj, hv, hg⟩
    · exact ⟨calls, now, l.2, [], by rw [← hc], by simp⟩
    · obtain ⟨before, now, a, after, rfl, hafter⟩ := ih hj
      refine ⟨before, now, a, after ++ [l], by simp [hv, hg], fun l' hl' => ?_⟩
      rcases List.mem_append.mp hl' with hl' | hl'
      · exact hafter l' hl'
      · rw [List.mem_singleton.mp hl']
        exact ⟨hput, hrem, hall⟩

/-- Without a `put` on `k` its item keeps value and group. -/
theorem deadlines_keeps {d : Int64} {k : K} {before after : List (Call K V × Answer V)}
    (hput : ∀ l ∈ after, ∀ v g now, l.1 ≠ .put k v g now) {i : Item V}
    (hi : deadlines d (before ++ after) k = some i) :
    ∃ i₀, deadlines d before k = some i₀ ∧ i.value = i₀.value ∧ i.group = i₀.group := by
  induction after using List.reverseRecOn generalizing i with
  | nil =>
    rw [List.append_nil] at hi
    exact ⟨i, hi, rfl, rfl⟩
  | append_singleton after l ih =>
    rw [← List.append_assoc, deadlines_snoc] at hi
    rcases Deadlines.after_eq_some hi with ⟨v, g, now, hc, -⟩ | ⟨-, -, -, j, hj, hv, hg⟩
    · exact absurd hc (hput l (by simp) v g now)
    · obtain ⟨i₀, hi₀, hv₀, hg₀⟩ := ih (fun l hl => hput l (by simp [hl])) hj
      exact ⟨i₀, hi₀, hv.trans hv₀, hg.trans hg₀⟩

end

/-! ## The store answers from the map -/

def Entry.item {V : Type} (e : Entry V) : Item V :=
  ⟨e.value, e.group, e.checkTime.toInt, e.expireInterval.toInt⟩

namespace Store
variable {K V : Type}

/-- What `GetGroup` may change. -/
theorem GetGroup.entries {s s' : Store K V} {name : String} {now : Int64} {o : Outcome CacheGroup}
    (h : s.GetGroup name now o s') :
    s'.entries = s.entries ∧ s'.expireInterval = s.expireInterval := by
  cases h <;> exact ⟨rfl, rfl⟩

theorem Judge.entries {s s' : Store K V} {e : Entry V} {groupNow now : Int64} {o : Outcome Bool}
    (h : s.Judge e groupNow now o s') :
    s'.entries = s.entries ∧ s'.expireInterval = s.expireInterval := by
  cases h with
  | plain => exact ⟨rfl, rfl⟩
  | grouped _ h => exact h.entries
  | thrown _ h => exact h.entries

/-- A live entry has not reached its deadline. -/
theorem Judge.isValid {s s' : Store K V} {e : Entry V} {groupNow now : Int64}
    (h : s.Judge e groupNow now (.ok true) s') : e.isValid now = true := by
  generalize ho : (Except.ok true : Outcome Bool) = o at h
  cases h with
  | plain => exact (Except.ok.inj ho).symm
  | grouped => exact ((Bool.and_eq_true _ _).mp (Except.ok.inj ho).symm).1
  | thrown => cases ho

variable [DecidableEq K] {d : Int64} {calls : List (Call K V × Answer V)} {s s' : Store K V}
  {clock clock' : Int64} {l : Call K V × Answer V}

/-- Every entry is what the calls say. -/
structure Sound (d : Int64) (calls : List (Call K V × Answer V)) (s : Store K V)
    (clock : Int64) : Prop where
  clock_nonneg : 0 ≤ clock
  interval : s.expireInterval = d
  item : ∀ k e, s.entries k = some e → deadlines d calls k = some e.item
  checkTime_nonneg : ∀ k e, s.entries k = some e → 0 ≤ e.checkTime

/-- A call that only drops entries, or none. -/
theorem Sound.drop (h : Sound d calls s clock) (hc : 0 ≤ clock')
    (hi : s'.expireInterval = s.expireInterval)
    (he : ∀ k e, s'.entries k = some e → s.entries k = some e ∧
      deadlines d (calls ++ [l]) k = deadlines d calls k) :
    Sound d (calls ++ [l]) s' clock' :=
  ⟨hc, hi.trans h.interval, fun k e hk => (he k e hk).2.trans (h.item k e (he k e hk).1),
    fun k e hk => h.checkTime_nonneg k e (he k e hk).1⟩

theorem Sound.touch (h : Sound d calls s clock) {k : K} {interval now : Int64} (hn : 0 ≤ now)
    (hl : deadlines d (calls ++ [l]) = (deadlines d calls).touch k interval now) :
    Sound d (calls ++ [l]) (s.touch k interval now) now := by
  refine ⟨hn, h.interval, fun k' e he => ?_, fun k' e he => ?_⟩
  · rw [hl]
    rcases touch_entries he with ⟨rfl, e₀, he₀, rfl⟩ | ⟨hne, he⟩
    · rw [Deadlines.touch, Function.update_self, h.item _ _ he₀]
      rfl
    · rw [Deadlines.touch, Function.update_of_ne hne]
      exact h.item _ _ he
  · rcases touch_entries he with ⟨rfl, e₀, he₀, rfl⟩ | ⟨hne, he⟩
    · exact hn
    · exact h.checkTime_nonneg _ _ he

/-- **A step of the store keeps to the map.** -/
theorem Sound.step (h : Sound d calls s clock) (hs : Timed Step (s, clock) l (s', clock')) :
    Sound d (calls ++ [l]) s' clock' := by
  obtain ⟨hs, ht⟩ := hs
  have hc : 0 ≤ clock' := Int64.le_trans h.clock_nonneg (Call.tick_le ht)
  obtain ⟨c, a⟩ := l
  dsimp only at hs ht
  cases hs with
  | @put k v g now entries' old ha =>
    obtain ⟨-, rfl⟩ := tick_eq_some ht
    refine ⟨hc, h.interval, fun k' e he => ?_, fun k' e he => ?_⟩
    · rw [deadlines_snoc, Deadlines.after]
      by_cases hk : k' = k
      · subst hk
        have he := he.symm.trans ha.self
        cases he
        rw [Function.update_self, h.interval]
        rfl
      · rw [Function.update_of_ne hk]
        rcases ha.other k' hk with he' | he'
        · exact h.item k' e (he'.symm.trans he)
        · exact absurd (he'.symm.trans he) (by simp)
    · by_cases hk : k' = k
      · subst hk
        have he := he.symm.trans ha.self
        cases he
        exact hc
      · rcases ha.other k' hk with he' | he'
        · exact h.checkTime_nonneg k' e (he'.symm.trans he)
        · exact absurd (he'.symm.trans he) (by simp)
  | getGroup hg =>
    refine h.drop hc hg.entries.2 (fun k e he => ⟨?_, by rw [deadlines_snoc]; rfl⟩)
    rwa [hg.entries.1] at he
  | refrush => exact h.drop hc rfl (fun k e he => ⟨he, by rw [deadlines_snoc]; rfl⟩)
  | refrushThrown => exact h.drop hc rfl (fun k e he => ⟨he, by rw [deadlines_snoc]; rfl⟩)
  | miss => exact h.drop hc rfl (fun k e he => ⟨he, by rw [deadlines_snoc]; rfl⟩)
  | live _ hj =>
    refine h.drop hc hj.entries.2 (fun k e he => ⟨?_, by rw [deadlines_snoc]; rfl⟩)
    rwa [hj.entries.1] at he
  | dead _ hj =>
    refine h.drop hc hj.entries.2 (fun k e he => ⟨?_, by rw [deadlines_snoc]; rfl⟩)
    rw [← hj.entries.1]
    exact (erase_entries he).2
  | getThrown _ hj =>
    refine h.drop hc hj.entries.2 (fun k e he => ⟨?_, by rw [deadlines_snoc]; rfl⟩)
    rwa [hj.entries.1] at he
  | expireInterval =>
    obtain ⟨-, rfl⟩ := tick_eq_some ht
    exact h.touch hc (deadlines_snoc _ _ _)
  | getRemains =>
    obtain ⟨-, rfl⟩ := tick_eq_some ht
    exact h.touch hc (deadlines_snoc _ _ _)
  | @remove k =>
    refine h.drop hc rfl (fun k' e he => ⟨(erase_entries he).2, ?_⟩)
    rw [deadlines_snoc, Deadlines.after, Function.update_of_ne (erase_entries he).1]
  | removeAll => exact h.drop hc rfl (fun k e he => by cases he)

/-- The map bounds the store in every run from the empty store. -/
theorem Sound.run {groups : Option (String → Option CacheGroup)} {clock₀ : Int64}
    (hc : 0 ≤ clock₀)
    (h : Run (Timed Step) (⟨fun _ => none, groups, d⟩, clock₀) calls (s, clock)) :
    Sound d calls s clock :=
  h.history (I := fun calls p => Sound d calls p.1 p.2)
    ⟨hc, rfl, fun _ _ hk => (by cases hk), fun _ _ hk => (by cases hk)⟩
    (fun _ _ _ _ hi hs => hi.step hs)

theorem Sound.get (h : Sound d calls s clock) {k : K} {groupNow now : Int64} {v : V}
    (hn : 0 ≤ now) (hs : Step s (.get k groupNow now) (.value (some v)) s') :
    ∃ i, deadlines d calls k = some i ∧ i.value = some v ∧ now.toInt < i.start + i.interval := by
  generalize ha : (Answer.value (some v) : Answer V) = a at hs
  cases hs with
  | miss => cases ha
  | dead => cases ha
  | getThrown => cases ha
  | live he hj =>
    have hvalid := hj.isValid
    rw [Entry.isValid, decide_eq_true_eq] at hvalid
    exact ⟨_, h.item k _ he, (Answer.value.inj ha).symm,
      lt_of_lt_deadline hn (h.checkTime_nonneg k _ he) hvalid⟩

end Store

/-! ## `get` against the map -/

section
open TimedCache
variable {K V : Type} [DecidableEq K] [HashCode K]

theorem TimedCache.Reaches.sound {capacity : Int} {interval : Int64} {isGroup : Bool}
    {calls : List (Call K V × Answer V)} {t : TimedCache K V} {clock : Int64}
    (h : Reaches capacity interval isGroup calls t clock) :
    t.Inv ∧ Store.Sound interval calls t.view clock := by
  obtain ⟨hi, groups, clock₀, -, hc, hrun⟩ := h.view
  exact ⟨hi, Store.Sound.run hc hrun⟩

/-- **`get` is sound.** A cache of capacity `1` to `2 ^ 29` can be built, and whatever the calls
made on it, `get` answers a value only if the latest `put` on its key stored it, no removal came
after, and its exact deadline has not passed. -/
theorem get_sound {capacity : Int} (h₁ : 1 ≤ capacity) (h₂ : capacity ≤ 2 ^ 29)
    (interval : Int64) (isGroup : Bool) :
    (∃ t₀ : TimedCache K V, TimedCache.new capacity interval isGroup = some t₀) ∧
    ∀ {calls : List (Call K V × Answer V)} {t t' : TimedCache K V} {clock clock' : Int64} {k : K}
      {groupNow now : Int64} {v : V}, Reaches capacity interval isGroup calls t clock →
      Timed Calls (t, clock) (.get k groupNow now, .value (some v)) (t', clock') →
      ∃ i, deadlines interval calls k = some i ∧ i.value = some v ∧
        now.toInt < i.start + i.interval ∧ LatestPut k (some v) i.group calls := by
  refine ⟨Option.isSome_iff_exists.mp (TimedCache.new_isSome (by omega) h₂ interval isGroup), ?_⟩
  intro calls t t' clock clock' k groupNow now v h hget
  obtain ⟨hi, hsound⟩ := h.sound
  obtain ⟨-, hstep⟩ := call_refines hi hget.1
  obtain ⟨⟨hle₁, hle₂⟩, -⟩ := tick_eq_some hget.2
  have hnow : 0 ≤ now := Int64.le_trans hsound.clock_nonneg (Int64.le_trans hle₁ hle₂)
  obtain ⟨i, hk, hv, hlt⟩ := hsound.get hnow hstep
  exact ⟨i, hk, hv, hlt, hv ▸ latestPut_of_deadlines hk⟩

theorem get_sound_put : ∃ i, deadlines 100 [(.put "k" (some 7) none 5, .value none)] "k" = some i ∧
    i.value = some 7 ∧ (6 : Int64).toInt < i.start + i.interval ∧
      LatestPut "k" (some 7) i.group [(.put "k" (some 7) none 5, .value none)] := by
  have h : observe 4 100 false 0 [.put "k" (some 7) none 5, .get "k" 6 6] (fun _ => ()) =
      some ([(.put "k" (some 7) none 5, .value none), (.get "k" 6 6, .value (some 7))], ()) := by
    decide
  obtain ⟨t', clock', h, -⟩ := Reaches.of_observe (by decide) (by decide) h
  obtain ⟨t, clock, h, hget⟩ := h.snoc_inv [(.put "k" (some 7) none 5, .value none)]
  exact (get_sound (by decide) (by decide) 100 false).2 h hget

end

end BaseService.LocalCache
