import BaseService.LocalCache.GroupRefresh

/-!
# Which entries stay dead

* `Store.Own` : among the groups of this cache the current one is the latest;
* `Store.Dead`, `Store.DeadFrom` : dead now, and dead whatever the clock does;
* `DeadFrom.step` : only a `put` or a new deadline ends that;
* `dead_stays_dead` : so a dead entry is not answered again.
-/

namespace BaseService.LocalCache
open Function (update)

/-! ## Groups of this cache -/

/-- The groups that `getGroup` has answered. -/
def Obtained {K V : Type} (calls : List (Call K V × Answer V)) (g : CacheGroup) : Prop :=
  ∃ name now, (.getGroup name now, .group g) ∈ calls

/-- The two lookups of a key. -/
def Call.LooksUp {K V : Type} (k : K) (c : Call K V) : Prop :=
  (∃ groupNow now, c = .get k groupNow now) ∨ ∃ d now, c = .getRemains k d now

namespace Store
variable {K V : Type} {s s' : Store K V} {clock clock' : Int64} {l : Call K V × Answer V}
  {calls : List (Call K V × Answer V)}

/-- The current group of a name is the latest that was obtained. -/
structure Own (calls : List (Call K V × Answer V)) (s : Store K V) (clock : Int64) : Prop where
  obtained_le : ∀ g, Obtained calls g → g.timestamp ≤ clock
  holds_le : ∀ name c, s.Holds name c → c.group = name ∧ c.timestamp ≤ clock
  latest : ∀ g c, Obtained calls g → s.Holds g.group c → g.timestamp ≤ c.timestamp

variable [DecidableEq K]

theorem Own.step (h : Own calls s clock) (hs : Timed Step (s, clock) l (s', clock')) :
    Own (calls ++ [l]) s' clock' := by
  have hle := Call.tick_le hs.2
  have hholds : ∀ name c, s'.Holds name c → c.group = name ∧ c.timestamp ≤ clock' := by
    intro name c hc
    rcases Timed.holds hs hc with hc | ⟨now, rfl, -, hnow⟩
    · obtain ⟨hn, ht⟩ := h.holds_le name c hc
      exact ⟨hn, Int64.le_trans ht hle⟩
    · exact ⟨rfl, hnow⟩
  have hnew : ∀ g, Obtained (calls ++ [l]) g → Obtained calls g ∨ s'.Holds g.group g := by
    rintro g ⟨name, now, hg⟩
    rcases List.mem_append.mp hg with hg | hg
    · exact Or.inl ⟨name, now, hg⟩
    · obtain rfl := List.mem_singleton.mp hg
      have hh := hs.1.getGroup_holds
      rw [(hholds name g hh).1]
      exact Or.inr hh
  refine ⟨fun g hg => ?_, hholds, fun g c hg hc => ?_⟩
  · rcases hnew g hg with hg | hg
    · exact Int64.le_trans (h.obtained_le g hg) hle
    · exact (hholds _ _ hg).2
  · rcases hnew g hg with hg | hg
    · rcases Timed.holds hs hc with hc | ⟨now, rfl, hnow, -⟩
      · exact h.latest g c hg hc
      · exact Int64.le_trans (h.obtained_le g hg) hnow
    · rw [hg.unique hc]
      exact Int64.le_refl _

theorem Own.run {groups : Option (String → Option CacheGroup)} {clock₀ d : Int64}
    (hg : ∀ G, groups = some G → G = fun _ => none)
    (h : Run (Timed Step) (⟨fun _ => none, groups, d⟩, clock₀) calls (s, clock)) :
    Own calls s clock := by
  have hnone : ∀ name c, ¬ Holds (⟨fun _ => none, groups, d⟩ : Store K V) name c := by
    rintro name c ⟨G, hG, hc⟩
    rw [hg G hG] at hc
    cases hc
  refine h.history (I := fun calls p => Own calls p.1 p.2) ⟨?_, ?_, ?_⟩
    (fun _ _ _ _ hi hs => hi.step hs)
  · rintro g ⟨name, now, hm⟩
    cases hm
  · exact fun name c hc => absurd hc (hnone name c)
  · exact fun g c _ hc => absurd hc (hnone _ c)

/-! ## Dead entries -/

omit [DecidableEq K]

/-- `get` finds the entry of `k` expired, or its group refreshed. -/
def Dead (s : Store K V) (k : K) (groupNow now : Int64) : Prop :=
  ∃ e s', s.entries k = some e ∧ s.Judge e groupNow now (.ok false) s'

/-- The entry of `k`, if any, is dead from `clock` on. -/
def DeadFrom (s : Store K V) (k : K) (clock : Int64) : Prop :=
  ∀ e, s.entries k = some e → (∀ g, e.group = some g → s.groups ≠ none) ∧
    (e.isValid clock = false ∨ ∃ g, e.group = some g ∧ g.timestamp < clock ∧
      ∀ c, s.Holds g.group c → g.timestamp < c.timestamp)

theorem isValid_mono {e : Entry V} {now now' : Int64} (h : now ≤ now')
    (he : e.isValid now = false) : e.isValid now' = false := by
  rw [Entry.isValid, decide_eq_false_iff_not, Int64.not_lt] at he ⊢
  exact Int64.le_trans he h

/-- With the groups of this cache, dead is dead for good. -/
theorem Dead.deadFrom {k : K} {groupNow now : Int64} (h : s.Dead k groupNow now)
    (hown : Own calls s clock) (hle : clock ≤ groupNow) (hle' : groupNow ≤ now)
    (hg : ∀ e g, s.entries k = some e → e.group = some g → Obtained calls g) :
    s.DeadFrom k now := by
  obtain ⟨e, s', he, hj⟩ := h
  intro e' he'
  obtain rfl : e = e' := Option.some.inj (he.symm.trans he')
  generalize ho : (Except.ok false : Outcome Bool) = o at hj
  cases hj with
  | plain hn =>
    refine ⟨fun g hg => ?_, Or.inl (Except.ok.inj ho).symm⟩
    rw [hn] at hg
    cases hg
  | thrown => cases ho
  | @grouped g c _ heg hgg =>
    have hgo := hg e g he heg
    have hb := (Except.ok.inj ho).symm
    rw [Bool.and_eq_false_iff, Entry.isValidGroup, heg] at hb
    have hsome : ∀ g, e.group = some g → s.groups ≠ none := by
      generalize ho' : (Except.ok c : Outcome CacheGroup) = o' at hgg
      intro _ _ hn
      cases hgg with
      | thrown => cases ho'
      | found hG => exact absurd (hG.symm.trans hn) (by simp)
      | created hG => exact absurd (hG.symm.trans hn) (by simp)
    refine ⟨hsome, hb.imp_right (fun hne => ⟨g, heg, ?_⟩)⟩
    have hne : c.group = g.group → c.timestamp ≠ g.timestamp := by
      intro h₁ h₂
      simp [CacheGroup.equals, h₁, h₂] at hne
    generalize ho' : (Except.ok c : Outcome CacheGroup) = o' at hgg
    cases hgg with
    | thrown => cases ho'
    | found hG hn =>
      cases ho'
      have hc : s.Holds g.group c := ⟨_, hG, hn⟩
      have hlt : g.timestamp < c.timestamp := Int64.lt_of_le_of_ne (hown.latest g c hgo hc)
        (Ne.symm (hne (hown.holds_le _ c hc).1))
      have hcle := Int64.le_trans (hown.holds_le _ c hc).2 (Int64.le_trans hle hle')
      exact ⟨Int64.lt_of_lt_of_le hlt hcle, fun c' hc' => by rwa [hc'.unique hc]⟩
    | created hG hn =>
      cases ho'
      have hlt := Int64.lt_of_le_of_ne (Int64.le_trans (hown.obtained_le g hgo) hle) (Ne.symm (hne rfl))
      refine ⟨Int64.lt_of_lt_of_le hlt hle', fun c' hc' => ?_⟩
      obtain ⟨G', hG', hn'⟩ := hc'
      have hG := hG.symm.trans hG'
      cases hG
      rw [hn] at hn'
      cases hn'

/-- If `get` answers null for a stored value, the entry is dead. -/
theorem Step.dead_of_null [DecidableEq K] {k : K} {groupNow now : Int64}
    (h : Step s (.get k groupNow now) (.value none) s') (hv : s.value k ≠ none) :
    s.Dead k groupNow now := by
  generalize ha : (Answer.value none : Answer V) = a at h
  cases h with
  | miss hn => exact absurd (by rw [value, hn]; rfl) hv
  | dead he hj => exact ⟨_, _, he, hj⟩
  | getThrown => cases ha
  | live he => exact absurd (by rw [value, he]; exact (Answer.value.inj ha).symm) hv

/-- From then on `get` finds it dead. -/
theorem DeadFrom.dead {k : K} {e : Entry V} {groupNow now : Int64} (h : s.DeadFrom k clock)
    (he : s.entries k = some e) (hle : clock ≤ groupNow) (hle' : groupNow ≤ now) :
    s.Dead k groupNow now := by
  obtain ⟨hsome, hdead⟩ := h e he
  cases hg : e.group with
  | none =>
    have hv : e.isValid now = false := by
      rcases hdead with hv | ⟨g, hg', -⟩
      · exact isValid_mono (Int64.le_trans hle hle') hv
      · rw [hg] at hg'
        cases hg'
    exact ⟨e, s, he, hv ▸ .plain hg⟩
  | some g =>
    obtain ⟨G, hG⟩ := Option.ne_none_iff_exists'.mp (hsome g hg)
    have hfalse : ∀ c, (s.Holds g.group c ∨ c.timestamp = groupNow) →
        (e.isValid now && e.isValidGroup c now) = false := by
      intro c hc
      rw [Bool.and_eq_false_iff]
      refine (hdead.imp_left (isValid_mono (Int64.le_trans hle hle'))).imp_right ?_
      rintro ⟨g', hg', hlt, hlater⟩
      rw [hg] at hg'
      cases hg'
      have hne : g.timestamp < c.timestamp := by
        rcases hc with hc | hc
        · exact hlater c hc
        · exact hc ▸ Int64.lt_of_lt_of_le hlt hle
      rw [Entry.isValidGroup, hg]
      have : c.timestamp ≠ g.timestamp := fun e => Int64.lt_irrefl (e ▸ hne)
      simp [CacheGroup.equals, this]
    cases hn : G g.group with
    | some c =>
      have hj : s.Judge e groupNow now _ s := .grouped hg (.found hG hn)
      rw [hfalse c (Or.inl ⟨G, hG, hn⟩)] at hj
      exact ⟨e, s, he, hj⟩
    | none =>
      have ha : Assigns G g.group ⟨g.group, groupNow⟩ (update G g.group (some ⟨g.group, groupNow⟩)) :=
        ⟨Function.update_self _ _ _, fun j hj => Or.inl (Function.update_of_ne hj _ _)⟩
      have hj : s.Judge e groupNow now _ _ := .grouped hg (.created hG hn ha)
      rw [hfalse _ (Or.inr rfl)] at hj
      exact ⟨e, _, he, hj⟩

/-! ## Without a revival -/

/-- The call sets no deadline of a dead entry of `k`. -/
def NoRevival (k : K) (s : Store K V) (c : Call K V) : Prop :=
  ∀ d now, c = .getRemains k d now ∨ c = .expireInterval k d now → ¬ s.Dead k now now

variable [DecidableEq K]

/-- Where an entry comes from, without a `put` on its key. -/
theorem Step.entries_inv {k : K} {e : Entry V} {c : Call K V} {a : Answer V} (h : Step s c a s')
    (hput : ∀ v g now, c ≠ .put k v g now) (he : s'.entries k = some e) :
    s.entries k = some e ∨
      ∃ d now, (c = .getRemains k d now ∨ c = .expireInterval k d now) ∧ s.entries k ≠ none := by
  have htouch : ∀ {k' : K} {d now : Int64}, (s.touch k' d now).entries k = some e →
      s.entries k = some e ∨ k' = k ∧ s.entries k ≠ none := by
    intro k' d now he
    rcases touch_entries he with ⟨rfl, e₀, he₀, -⟩ | ⟨-, he⟩
    · exact Or.inr ⟨rfl, by simp [he₀]⟩
    · exact Or.inl he
  cases h with
  | @put k' v g now _ _ ha =>
    have hk : k ≠ k' := fun e => hput v g now (by rw [e])
    rcases ha.other k hk with he' | he'
    · exact Or.inl (he'.symm.trans he)
    · exact absurd (he'.symm.trans he) (by simp)
  | getGroup h => exact Or.inl (by rwa [h.entries.1] at he)
  | live _ h => exact Or.inl (by rwa [h.entries.1] at he)
  | getThrown _ h => exact Or.inl (by rwa [h.entries.1] at he)
  | dead _ h => exact Or.inl (by rw [← h.entries.1]; exact (erase_entries he).2)
  | @expireInterval k' d now =>
    rcases htouch he with he | ⟨rfl, hn⟩
    · exact Or.inl he
    · exact Or.inr ⟨d, now, Or.inr rfl, hn⟩
  | @getRemains k' d now =>
    rcases htouch he with he | ⟨rfl, hn⟩
    · exact Or.inl he
    · exact Or.inr ⟨d, now, Or.inl rfl, hn⟩
  | remove => exact Or.inl (erase_entries he).2
  | removeAll => cases he
  | refrush => exact Or.inl he
  | refrushThrown => exact Or.inl he
  | miss => exact Or.inl he

theorem Step.groups_some {c : Call K V} {a : Answer V} (h : Step s c a s') (hg : s.groups ≠ none) :
    s'.groups ≠ none := by
  have hget : ∀ {name : String} {now : Int64} {o : Outcome CacheGroup} {s' : Store K V},
      s.GetGroup name now o s' → s'.groups ≠ none := by
    intro name now o s' h
    cases h with
    | thrown => exact hg
    | found => exact hg
    | created => simp
  have hjudge : ∀ {e : Entry V} {groupNow now : Int64} {o : Outcome Bool} {s' : Store K V},
      s.Judge e groupNow now o s' → s'.groups ≠ none := by
    intro e groupNow now o s' h
    cases h with
    | plain => exact hg
    | grouped _ h => exact hget h
    | thrown _ h => exact hget h
  cases h with
  | getGroup h => exact hget h
  | refrush => simp
  | live _ h => exact hjudge h
  | dead _ h =>
    have hg := hjudge h
    exact hg
  | getThrown _ h => exact hjudge h
  | _ => exact hg

/-- **A dead entry stays dead** over a call that neither puts its key nor revives it. -/
theorem DeadFrom.step {k : K} (h : s.DeadFrom k clock)
    (hs : Timed Step (s, clock) l (s', clock')) (hput : ∀ v g now, l.1 ≠ .put k v g now)
    (hrev : NoRevival k s l.1) : s'.DeadFrom k clock' := by
  intro e he
  rcases hs.1.entries_inv hput he with he | ⟨d, now, hc, hn⟩
  · obtain ⟨hsome, hdead⟩ := h e he
    refine ⟨fun g hg => hs.1.groups_some (hsome g hg), ?_⟩
    rcases hdead with hv | ⟨g, hg, hlt, hlater⟩
    · exact Or.inl (isValid_mono (Call.tick_le hs.2) hv)
    · refine Or.inr ⟨g, hg, Int64.lt_of_lt_of_le hlt (Call.tick_le hs.2), fun c hc => ?_⟩
      rcases Timed.holds hs hc with hc | ⟨n, rfl, hle, -⟩
      · exact hlater c hc
      · exact Int64.lt_of_lt_of_le hlt hle
  · obtain ⟨e₀, he₀⟩ := Option.ne_none_iff_exists'.mp hn
    have htick : clock ≤ now := by
      have ht := hs.2
      rcases hc with hc | hc
      all_goals
        rw [hc] at ht
        exact (tick_eq_some ht).1
    exact absurd (h.dead he₀ htick (Int64.le_refl _)) (hrev d now hc)

/-- It is not answered either. -/
theorem DeadFrom.not_answered {k : K} {v : V} (h : s.DeadFrom k clock)
    (hs : Timed Step (s, clock) l (s', clock')) (hl : l.1.LooksUp k) (hrev : NoRevival k s l.1) :
    l.2 ≠ .value (some v) := by
  intro ha
  obtain ⟨c, a⟩ := l
  dsimp only at ha hl hrev
  subst ha
  rcases hl with ⟨groupNow, now, rfl⟩ | ⟨d, now, rfl⟩
  · obtain ⟨e, he, -, hvalid, hlive⟩ := hs.1.live_inv
    obtain ⟨⟨hle, hle'⟩, -⟩ := tick_eq_some hs.2
    rcases (h e he).2 with hv | ⟨g, hg, hlt, hlater⟩
    · rw [isValid_mono (Int64.le_trans hle hle') hv] at hvalid
      cases hvalid
    · rcases hlive g hg with hh | ⟨-, hts⟩
      · exact Int64.lt_irrefl (hlater g hh)
      · exact Int64.lt_irrefl (Int64.lt_of_lt_of_le (hts ▸ hlt) hle)
  · obtain ⟨hle, -⟩ := tick_eq_some hs.2
    have hsome : s.value k = some v := by
      have hstep := hs.1
      dsimp only at hstep
      generalize ha : (Answer.value (some v) : Answer V) = a at hstep
      cases hstep
      exact (Answer.value.inj ha).symm
    obtain ⟨e, he, -⟩ := Option.bind_eq_some_iff.mp hsome
    exact hrev d now (Or.inl rfl) (h.dead he hle (Int64.le_refl _))

theorem DeadFrom.run {k : K} (h : s.DeadFrom k clock)
    (hrun : Run (fun p l p' => Timed Step p l p' ∧ NoRevival k p.1 l.1) (s, clock) calls (s', clock'))
    (hput : ∀ l ∈ calls, ∀ v g now, l.1 ≠ .put k v g now) :
    ∀ l ∈ calls, l.1.LooksUp k → ∀ v, l.2 ≠ .value (some v) := by
  have := hrun.history (I := fun calls p => (∀ l ∈ calls, ∀ v g now, l.1 ≠ .put k v g now) →
    p.1.DeadFrom k p.2 ∧ ∀ l ∈ calls, l.1.LooksUp k → ∀ v, l.2 ≠ .value (some v))
    (fun _ => ⟨h, fun l hl => by cases hl⟩) ?_
  · exact (this hput).2
  · intro calls p l p' ih hs hput
    obtain ⟨hd, ha⟩ := ih (fun l' hl' => hput l' (by simp [hl']))
    refine ⟨hd.step hs.1 (hput l (by simp)) hs.2, fun l' hl' => ?_⟩
    rcases List.mem_append.mp hl' with hl' | hl'
    · exact ha l' hl'
    · obtain rfl := List.mem_singleton.mp hl'
      exact fun hlook v => hd.not_answered hs.1 hlook hs.2

end Store

/-! ## The lookups of the cache -/

section
open TimedCache
variable {K V : Type} [DecidableEq K] [HashCode K] {capacity : Int} {interval : Int64}
  {isGroup : Bool} {calls after : List (Call K V × Answer V)} {t : TimedCache K V}
  {clock : Int64} {k : K}

/-- **Dead is dead for every lookup.** Let `get` find the entry of `k` dead. Then
`get(k, expireInterval)` answers null as well exactly if the entry holds null; and in any run
without a `put` on `k`, whose calls set no deadline of a dead entry of `k`, no lookup answers a
value. The groups in use are those of this cache. -/
theorem dead_stays_dead {groupNow now : Int64} {p : TimedCache K V × Int64}
    (h : Reaches capacity interval isGroup calls t clock)
    (hown : ∀ k v g n a, (.put k v (some g) n, a) ∈ calls → Obtained calls g)
    (hle : clock ≤ groupNow) (hle' : groupNow ≤ now) (hdead : t.view.Dead k groupNow now)
    (hrun : Run (fun p l p' => Timed Calls p l p' ∧ Store.NoRevival k p.1.view l.1) (t, now) after p)
    (hput : ∀ l ∈ after, ∀ v g n, l.1 ≠ .put k v g n) :
    ((∀ d n a t', Calls t (.getRemains k d n) a t' → a = .value none) ↔ t.view.value k = none) ∧
      ∀ l ∈ after, l.1.LooksUp k → ∀ v, l.2 ≠ .value (some v) := by
  obtain ⟨hi, hsound⟩ := h.sound
  obtain ⟨-, groups, clock₀, hgroups, -, hstore⟩ := h.view
  constructor
  · constructor
    · intro hnull
      obtain ⟨t', hr, -, -⟩ := getRemains_spec hi k 0 0
      have := hnull 0 0 (.value (t.view.value k)) t' (by rw [Calls, call, hr]; rfl)
      exact Answer.value.inj this
    · intro hnone d n a t' hc
      obtain ⟨t₁, hr, -, -⟩ := getRemains_spec hi k d n
      rw [Calls, call, hr, hnone] at hc
      cases hc
      rfl
  · have hfrom := hdead.deadFrom (Store.Own.run hgroups hstore) hle hle' (fun e g he hg => by
      obtain ⟨before, n, a, later, hcalls, -⟩ := latestPut_of_deadlines (hsound.item k e he)
      rw [show e.item.group = some g from hg] at hcalls
      exact hown k e.item.value g n a (by rw [hcalls]; simp))
    have hsim := Run.simulate (I := fun p => p.1.Inv) (f := fun p => (p.1.view, p.2))
      (fun p l p' => Timed Store.Step p l p' ∧ Store.NoRevival k p.1 l.1) hrun hi
      (fun p l p' hp hs => by
        obtain ⟨hi', hs'⟩ := call_refines hp hs.1.1
        exact ⟨hi', ⟨hs', hs.1.2⟩, hs.2⟩)
    exact hfrom.run hsim.2 hput

theorem dead_stays_dead_expired : ∃ t : TimedCache String Nat,
    ((∀ d n a t', Calls t (.getRemains "k" d n) a t' → a = .value none) ↔
      t.view.value "k" = none) ∧
    ∀ l ∈ [((.get "k" 20 20, .value none) : Call String Nat × Answer Nat)], l.1.LooksUp "k" →
      ∀ v, l.2 ≠ .value (some v) := by
  have h : observe 4 10 false 0 [.put "k" (some 7) none 5] (fun p => decide (p.1.view.value "k" = some 7 ∧
      (play p [.get "k" 20 20]).map Prod.snd = some [(.get "k" 20 20, .value none)])) =
      some ([(.put "k" (some 7) none 5, .value none)], true) := by decide
  obtain ⟨t, clock, hr, h⟩ := Reaches.of_observe (by decide) (by decide) h
  obtain ⟨hv, h⟩ := of_decide_eq_true h
  obtain ⟨⟨p, ls⟩, hp, rfl⟩ := Option.map_eq_some_iff.mp h
  have hget := (run_of_play hp).single_inv
  have hdead := (call_refines hr.sound.1 hget.1).2.dead_of_null (by rw [hv]; simp)
  have hclock := (tick_eq_some hget.2).1.1
  have hagain : Timed Calls (t, 20) (.get "k" 20 20, .value none) (p.1, 20) := ⟨hget.1, rfl⟩
  refine ⟨t, dead_stays_dead hr (fun k v g n a hm => ?_) hclock (Int64.le_refl _) hdead
    (.single ⟨hagain, fun d n hc => ?_⟩) (fun l hl v g n => ?_)⟩
  · simp at hm
  · simp at hc
  · rw [List.mem_singleton.mp hl]
    simp

/-- `get(k, expireInterval)` answers an expired entry and revives it. -/
theorem getRemains_revives :
    ∃ (t : TimedCache String Nat) (clock : Int64) (p q : TimedCache String Nat × Int64),
      Reaches 4 10 false [(.put "k" (some 7) none 5, .value none)] t clock ∧
      Run (Timed Calls) (t, clock) [(.get "k" 20 20, .value none)] p ∧
      Run (Timed Calls) (t, clock)
        [(.getRemains "k" 10 20, .value (some 7)), (.get "k" 21 21, .value (some 7))] q := by
  have h : observe 4 10 false 0 [.put "k" (some 7) none 5] (fun p => decide (
      (play p [.get "k" 20 20]).map Prod.snd = some [(.get "k" 20 20, .value none)] ∧
      (play p [.getRemains "k" 10 20, .get "k" 21 21]).map Prod.snd =
        some [(.getRemains "k" 10 20, .value (some 7)), (.get "k" 21 21, .value (some 7))])) =
      some ([(.put "k" (some 7) none 5, .value none)], true) := by decide
  obtain ⟨t, clock, hr, h⟩ := Reaches.of_observe (by decide) (by decide) h
  obtain ⟨hget, hagain⟩ := of_decide_eq_true h
  obtain ⟨⟨p, ls⟩, hp, rfl⟩ := Option.map_eq_some_iff.mp hget
  obtain ⟨⟨q, ls'⟩, hq, hls⟩ := Option.map_eq_some_iff.mp hagain
  cases hls
  exact ⟨t, clock, p, q, hr, run_of_play hp, run_of_play hq⟩

end

end BaseService.LocalCache
