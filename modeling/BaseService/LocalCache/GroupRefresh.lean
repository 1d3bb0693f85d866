import BaseService.LocalCache.LiveEntries

/-!
# Refreshing a group

* `Timed.holds` : a group that is current after a call was current before it, or was created while
  it ran;
* `Step.live_inv` : what an answer of `get` says about the group of its entry;
* `refrushGroup_invalidates` : a refresh kills the entries of the older groups.
-/

namespace BaseService.LocalCache

namespace Store
variable {K V : Type} {s s' : Store K V} {clock clock' : Int64} {l : Call K V × Answer V}

/-! ## Where groups come from -/

theorem GetGroup.holds_or_created {name name' : String} {now : Int64} {o : Outcome CacheGroup}
    {g : CacheGroup} (h : s.GetGroup name' now o s') (hg : s'.Holds name g) :
    s.Holds name g ∨ g = ⟨name, now⟩ := by
  cases h with
  | thrown => exact Or.inl hg
  | found => exact Or.inl hg
  | created hG hn ha =>
    obtain ⟨G', he, hgG'⟩ := hg
    cases he
    by_cases hne : name = name'
    · subst hne
      exact Or.inr (Option.some.inj (hgG'.symm.trans ha.self))
    · rcases ha.other name hne with he | he
      · exact Or.inl ⟨_, hG, he.symm.trans hgG'⟩
      · rw [he] at hgG'
        cases hgG'

theorem Judge.holds_or_created {name : String} {e : Entry V} {groupNow now : Int64}
    {o : Outcome Bool} {g : CacheGroup} (h : s.Judge e groupNow now o s') (hg : s'.Holds name g) :
    s.Holds name g ∨ g = ⟨name, groupNow⟩ := by
  cases h with
  | plain => exact Or.inl hg
  | grouped _ h => exact h.holds_or_created hg
  | thrown _ h => exact h.holds_or_created hg

variable [DecidableEq K]

/-- A current group was current before the call, or was created at one of its readings. -/
theorem Timed.holds {name : String} {g : CacheGroup}
    (h : Timed Step (s, clock) l (s', clock')) (hg : s'.Holds name g) :
    s.Holds name g ∨ ∃ now, g = ⟨name, now⟩ ∧ clock ≤ now ∧ now ≤ clock' := by
  obtain ⟨hs, ht⟩ := h
  obtain ⟨c, a⟩ := l
  dsimp only at hs ht
  have hjudge : ∀ {k : K} {e : Entry V} {groupNow now : Int64} {o : Outcome Bool}
      {s' : Store K V}, (.get k groupNow now : Call K V).tick clock = some clock' →
      s.Judge e groupNow now o s' → s'.Holds name g →
      s.Holds name g ∨ ∃ now, g = ⟨name, now⟩ ∧ clock ≤ now ∧ now ≤ clock' := by
    intro k e groupNow now o s' ht hj hg
    obtain ⟨⟨h₁, h₂⟩, rfl⟩ := tick_eq_some ht
    exact (hj.holds_or_created hg).imp_right (fun he => ⟨groupNow, he, h₁, h₂⟩)
  cases hs with
  | getGroup hgg =>
    obtain ⟨hle, rfl⟩ := tick_eq_some ht
    exact (hgg.holds_or_created hg).imp_right (fun he => ⟨_, he, hle, Int64.le_refl _⟩)
  | @refrush name' now G G' hG ha =>
    obtain ⟨hle, rfl⟩ := tick_eq_some ht
    obtain ⟨G₁, he, hgG⟩ := hg
    cases he
    by_cases hne : name = name'
    · subst hne
      exact Or.inr ⟨_, Option.some.inj (hgG.symm.trans ha.self), hle, Int64.le_refl _⟩
    · rcases ha.other name hne with he | he
      · exact Or.inl ⟨G, hG, he.symm.trans hgG⟩
      · rw [he] at hgG
        cases hgG
  | live _ hj => exact hjudge ht hj hg
  | dead _ hj => exact hjudge ht hj hg
  | getThrown _ hj => exact hjudge ht hj hg
  | _ => exact Or.inl hg

theorem Step.refrush_holds {name : String} {now : Int64} {g : CacheGroup}
    (h : Step s (.refrushGroup name now) .void s') (hg : s'.Holds name g) : g = ⟨name, now⟩ := by
  cases h with
  | refrush hG ha =>
    obtain ⟨G, he, hgG⟩ := hg
    cases he
    exact Option.some.inj (hgG.symm.trans ha.self)

/-- An answered entry is in time, and its group is the current one or is created right now. -/
theorem Step.live_inv {k : K} {groupNow now : Int64} {v : V}
    (h : Step s (.get k groupNow now) (.value (some v)) s') :
    ∃ e, s.entries k = some e ∧ e.value = some v ∧ e.isValid now = true ∧
      ∀ g, e.group = some g → s.Holds g.group g ∨
        (∀ c, ¬ s.Holds g.group c) ∧ g.timestamp = groupNow := by
  generalize ha : (Answer.value (some v) : Answer V) = a at h
  cases h with
  | miss => cases ha
  | dead => cases ha
  | getThrown => cases ha
  | live he hj =>
    refine ⟨_, he, (Answer.value.inj ha).symm, hj.isValid, fun g hg => ?_⟩
    generalize ho : (Except.ok true : Outcome Bool) = o at hj
    cases hj with
    | plain hn =>
      rw [hn] at hg
      cases hg
    | thrown => cases ho
    | @grouped g' c _ hg' hgg =>
      rw [hg] at hg'
      cases hg'
      have hb := ((Bool.and_eq_true _ _).mp (Except.ok.inj ho).symm).2
      rw [Entry.isValidGroup, hg] at hb
      simp only [CacheGroup.equals, decide_eq_true_eq, Bool.decide_and, Bool.and_eq_true] at hb
      have hcg : c = g := by
        obtain ⟨n, ts⟩ := c
        obtain ⟨n', ts'⟩ := g
        simp only at hb
        rw [hb.1, hb.2]
      subst hcg
      generalize ho' : (Except.ok c : Outcome CacheGroup) = o' at hgg
      cases hgg with
      | thrown => cases ho'
      | found hG hn =>
        cases ho'
        exact Or.inl ⟨_, hG, hn⟩
      | created hG hn =>
        refine Or.inr ⟨fun c' hc' => ?_, congrArg CacheGroup.timestamp (Except.ok.inj ho')⟩
        obtain ⟨G, hG', hgG⟩ := hc'
        have hG := hG.symm.trans hG'
        cases hG
        rw [hn] at hgG
        cases hgG

/-! ## After a refresh -/

/-- Since `now`, the current group of `name` is never older than `now`. -/
theorem holds_since (name : String) {now : Int64} {calls : List (Call K V × Answer V)}
    (h : Run (Timed Step) (s, clock) calls (s', clock')) (hc : now ≤ clock)
    (hs : ∀ g, s.Holds name g → now ≤ g.timestamp) :
    now ≤ clock' ∧ ∀ g, s'.Holds name g → now ≤ g.timestamp := by
  have hstart : now ≤ (s, clock).2 ∧ ∀ g, (s, clock).1.Holds name g → now ≤ g.timestamp := ⟨hc, hs⟩
  apply h.invariant (I := fun p : Store K V × Int64 =>
    now ≤ p.2 ∧ ∀ g, p.1.Holds name g → now ≤ g.timestamp) hstart
  intro p l p' ih hstep
  refine ⟨Int64.le_trans ih.1 (Call.tick_le hstep.2), fun g hg => ?_⟩
  rcases Timed.holds hstep hg with hg | ⟨n, rfl, hle, -⟩
  · exact ih.2 g hg
  · exact Int64.le_trans ih.1 hle

end Store

section
open TimedCache
variable {K V : Type} [DecidableEq K] [HashCode K] {capacity : Int} {interval : Int64}
  {isGroup : Bool} {calls before after : List (Call K V × Answer V)} {t t' : TimedCache K V}
  {clock clock' : Int64} {k : K}

omit [HashCode K] in
/-- The entry of a key is the one of the latest `put`. -/
theorem entry_of_latestPut {v : Option V} {g : Option CacheGroup} {e : Entry V}
    {s : Store K V} (h : Store.Sound interval calls s clock) (he : s.entries k = some e)
    (hp : LatestPut k v g calls) : e.value = v ∧ e.group = g := by
  obtain ⟨before, now, a, after, rfl, hafter⟩ := hp
  have hi := h.item k e he
  rw [← List.singleton_append, ← List.append_assoc] at hi
  obtain ⟨i, hi, hv, hg⟩ := deadlines_keeps (fun l hl => (hafter l hl).1) hi
  rw [deadlines_snoc, Deadlines.after, Function.update_self] at hi
  cases hi
  exact ⟨hv, hg⟩

/-- **A refresh invalidates the whole group**: whatever was put with a group older than the clock
reading of the refresh is not answered any more. -/
theorem refrushGroup_invalidates {name : String} {now groupNow n : Int64} {v : V} {g : CacheGroup}
    (h : Reaches capacity interval isGroup
      (before ++ [(.refrushGroup name now, .void)] ++ after) t clock)
    (hname : g.group = name) (hlater : g.timestamp < now)
    (hget : Timed Calls (t, clock) (.get k groupNow n, .value (some v)) (t', clock')) :
    ¬ LatestPut k (some v) (some g) (before ++ [(.refrushGroup name now, .void)] ++ after) := by
  intro hp
  obtain ⟨hi, hsound⟩ := h.sound
  obtain ⟨-, groups, clock₀, -, -, hrun⟩ := h.view
  obtain ⟨⟨s₁, clock₁⟩, hrun, hafter⟩ := hrun.split
  obtain ⟨⟨s₀, clock₀⟩, -, hrefrush⟩ := hrun.snoc_inv
  obtain ⟨-, hclock⟩ := tick_eq_some hrefrush.2
  dsimp only at hclock
  subst hclock
  obtain ⟨hle, hsince⟩ := Store.holds_since name hafter (Int64.le_refl _)
    (fun g hg => by rw [hrefrush.1.refrush_holds hg]; exact Int64.le_refl _)
  obtain ⟨e, he, hv, -, hlive⟩ := (call_refines hi hget.1).2.live_inv
  obtain ⟨-, heg⟩ := entry_of_latestPut hsound he hp
  -- the group of the entry is as young as the refresh
  have hyoung : clock₁ ≤ g.timestamp := by
    rcases hlive g heg with hh | ⟨-, hts⟩
    · rw [hname] at hh
      exact hsince g hh
    · obtain ⟨⟨hg₁, -⟩, -⟩ := tick_eq_some hget.2
      exact hts ▸ Int64.le_trans hle hg₁
  exact Int64.lt_irrefl (Int64.lt_of_lt_of_le hlater hyoung)

theorem refrushGroup_invalidates_one : ¬ LatestPut "k" (some 8) (some ⟨"g", 5⟩)
    [(.getGroup "g" 5, .group ⟨"g", 5⟩), (.put "k" (some 7) (some ⟨"g", 5⟩) 5, .value none),
      (.refrushGroup "g" 6, .void), (.put "k" (some 8) none 6, .value (some 7))] := by
  have h : observe 4 100 true 0 [.getGroup "g" 5, .put "k" (some 7) (some ⟨"g", 5⟩) 5,
      .refrushGroup "g" 6, .put "k" (some 8) none 6, .get "k" 7 7] (fun _ => ()) =
      some ([(.getGroup "g" 5, .group ⟨"g", 5⟩),
        (.put "k" (some 7) (some ⟨"g", 5⟩) 5, .value none), (.refrushGroup "g" 6, .void),
        (.put "k" (some 8) none 6, .value (some 7)), (.get "k" 7 7, .value (some 8))], ()) := by
    decide
  obtain ⟨t', clock', h, -⟩ := Reaches.of_observe (by decide) (by decide) h
  let before : List (Call String Nat × Answer Nat) :=
    [(.getGroup "g" 5, .group ⟨"g", 5⟩), (.put "k" (some 7) (some ⟨"g", 5⟩) 5, .value none)]
  let after : List (Call String Nat × Answer Nat) := [(.put "k" (some 8) none 6, .value (some 7))]
  obtain ⟨t, clock, h, hget⟩ := h.snoc_inv (before ++ [(.refrushGroup "g" 6, .void)] ++ after)
  exact refrushGroup_invalidates h rfl (by decide) hget

/-- A refresh within the millisecond of the group it replaces makes an equal group. -/
theorem refrushGroup_same_millisecond :
    ∃ (t t' : TimedCache String Nat) (clock clock' : Int64),
      Reaches 4 100 true [(.getGroup "g" 5, .group ⟨"g", 5⟩),
        (.put "k" (some 7) (some ⟨"g", 5⟩) 5, .value none), (.refrushGroup "g" 5, .void)] t clock ∧
      Timed Calls (t, clock) (.get "k" 5 5, .value (some 7)) (t', clock') := by
  have h : observe 4 100 true 0 [.getGroup "g" 5, .put "k" (some 7) (some ⟨"g", 5⟩) 5,
      .refrushGroup "g" 5, .get "k" 5 5] (fun _ => ()) =
      some ([(.getGroup "g" 5, .group ⟨"g", 5⟩),
        (.put "k" (some 7) (some ⟨"g", 5⟩) 5, .value none), (.refrushGroup "g" 5, .void),
        (.get "k" 5 5, .value (some 7))], ()) := by decide
  obtain ⟨t', clock', h, -⟩ := Reaches.of_observe (by decide) (by decide) h
  obtain ⟨t, clock, h, hget⟩ := h.snoc_inv [(.getGroup "g" 5, .group ⟨"g", 5⟩),
    (.put "k" (some 7) (some ⟨"g", 5⟩) 5, .value none), (.refrushGroup "g" 5, .void)]
  exact ⟨t, t', clock, clock', h, hget⟩

end

end BaseService.LocalCache
