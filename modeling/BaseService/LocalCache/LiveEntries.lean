import BaseService.LocalCache.Deadlines

/-!
# Which entries are found

* `Store.Holds` : the current group of a name; it changes only by a refresh or by an eviction;
* `Step.get_live` : a live entry whose group is current is answered;
* `get_finds_live` : so `get` answers an entry until its deadline, in any run that keeps its group.
-/

namespace BaseService.LocalCache
open Function (update)

namespace Store
variable {K V : Type} {s s' : Store K V}

/-! ## The group of an entry -/

theorem equals_self (g : CacheGroup) : g.equals g = true := by simp [CacheGroup.equals]

/-- The current group of a name. -/
def Holds (s : Store K V) (name : String) (g : CacheGroup) : Prop :=
  ∃ groups, s.groups = some groups ∧ groups name = some g

theorem Holds.unique {name : String} {g g' : CacheGroup} (h : s.Holds name g)
    (h' : s.Holds name g') : g = g' := by
  obtain ⟨G, hG, hg⟩ := h
  obtain ⟨G', hG', hg'⟩ := h'
  have hG := hG.symm.trans hG'
  cases hG
  exact Option.some.inj (hg.symm.trans hg')

theorem GetGroup.holds {name name' : String} {now : Int64} {o : Outcome CacheGroup}
    {g g' : CacheGroup} (h : s.GetGroup name' now o s') (hg : s.Holds name g)
    (hg' : s'.Holds name g') : g' = g := by
  cases h with
  | thrown => exact hg'.unique hg
  | found => exact hg'.unique hg
  | created hG hn ha =>
    obtain ⟨G, hG', hgG⟩ := hg
    obtain ⟨G', he, hgG'⟩ := hg'
    have hG := hG'.symm.trans hG
    cases hG
    cases he
    have hne : name ≠ name' := by
      rintro rfl
      rw [hn] at hgG
      cases hgG
    rcases ha.other name hne with he | he
    · exact Option.some.inj ((hgG'.symm.trans he).trans hgG)
    · rw [he] at hgG'
      cases hgG'

theorem Step.getGroup_holds [DecidableEq K] {name : String} {now : Int64} {g : CacheGroup}
    (h : Step s (.getGroup name now) (.group g) s') : s'.Holds name g := by
  generalize ha : (Answer.group g : Answer V) = a at h
  cases h with
  | getGroup h =>
    cases h with
    | thrown => cases ha
    | found hG hn =>
      cases ha
      exact ⟨_, hG, hn⟩
    | created hG hn hass =>
      cases ha
      exact ⟨_, rfl, hass.self⟩

theorem GetGroup.of_holds {name : String} {now : Int64} {o : Outcome CacheGroup} {g : CacheGroup}
    (h : s.GetGroup name now o s') (hg : s.Holds name g) : o = .ok g := by
  obtain ⟨G, hG, hgG⟩ := hg
  cases h with
  | thrown hn =>
    rw [hn] at hG
    cases hG
  | found hG' hn =>
    have hG := hG.symm.trans hG'
    cases hG
    rw [Option.some.inj (hn.symm.trans hgG)]
  | created hG' hn =>
    have hG := hG.symm.trans hG'
    cases hG
    rw [hn] at hgG
    cases hgG

theorem Judge.holds {name : String} {e : Entry V} {groupNow now : Int64} {o : Outcome Bool}
    {g g' : CacheGroup} (h : s.Judge e groupNow now o s') (hg : s.Holds name g)
    (hg' : s'.Holds name g') : g' = g := by
  cases h with
  | plain => exact hg'.unique hg
  | grouped _ h => exact h.holds hg hg'
  | thrown _ h => exact h.holds hg hg'

/-- A group changes only by a refresh, or by an eviction. -/
theorem Step.holds [DecidableEq K] {name : String} {g g' : CacheGroup} {c : Call K V} {a : Answer V}
    (h : Step s c a s') (hc : ∀ now, c ≠ .refrushGroup name now) (hg : s.Holds name g)
    (hg' : s'.Holds name g') : g' = g := by
  cases h with
  | getGroup h => exact h.holds hg hg'
  | live _ h => exact h.holds hg hg'
  | dead _ h => exact h.holds hg hg'
  | getThrown _ h => exact h.holds hg hg'
  | @refrush name' now G G' hG ha =>
    obtain ⟨G₁, hG₁, hgG⟩ := hg
    obtain ⟨G₂, he, hgG'⟩ := hg'
    have hG := hG.symm.trans hG₁
    cases hG
    cases he
    have hne : name ≠ name' := fun e => hc now (by rw [e])
    rcases ha.other name hne with he | he
    · exact Option.some.inj ((hgG'.symm.trans he).trans hgG)
    · rw [he] at hgG'
      cases hgG'
  | _ => exact hg'.unique hg

/-- A live entry, whose group is still the current one, is answered. -/
theorem Step.get_live [DecidableEq K] {k : K} {e : Entry V} {groupNow now : Int64} {a : Answer V}
    (h : Step s (.get k groupNow now) a s') (he : s.entries k = some e)
    (hvalid : e.isValid now = true) (hg : ∀ g, e.group = some g → s.Holds g.group g) :
    a = .value e.value := by
  have hjudge : ∀ {e' : Entry V} {o : Outcome Bool} {s' : Store K V}, s.entries k = some e' →
      s.Judge e' groupNow now o s' → e' = e ∧ o = .ok true := by
    intro e' o s' he' hj
    obtain rfl : e' = e := Option.some.inj (he'.symm.trans he)
    refine ⟨rfl, ?_⟩
    cases hj with
    | plain => rw [hvalid]
    | @grouped g c s' hgr hj =>
      have hc := hj.of_holds (hg g hgr)
      rw [Except.ok.inj hc, hvalid, Entry.isValidGroup, hgr, Bool.true_and]
      exact congrArg Except.ok (equals_self g)
    | @thrown g x s' hgr hj =>
      have hc := hj.of_holds (hg g hgr)
      cases hc
  cases h with
  | miss hn =>
    rw [hn] at he
    cases he
  | live he' hj => rw [(hjudge he' hj).1]
  | dead he' hj => cases (hjudge he' hj).2
  | getThrown he' hj => cases (hjudge he' hj).2

end Store

/-! ## `get` -/

section
open TimedCache
variable {K V : Type} [DecidableEq K] [HashCode K]

/-- A call after which the group cache has a group for the name of `g`. -/
def KeepsGroup (g : Option CacheGroup) (p : TimedCache K V × Int64) (l : Call K V × Answer V)
    (p' : TimedCache K V × Int64) : Prop :=
  Timed Calls p l p' ∧ ∀ c, g = some c → ∃ c', p'.1.view.Holds c.group c'

theorem KeepsGroup.holds {g : Option CacheGroup} {after : List (Call K V × Answer V)}
    {p p' : TimedCache K V × Int64} (h : Run (KeepsGroup g) p after p') (hi : p.1.Inv)
    (hp : ∀ c, g = some c → p.1.view.Holds c.group c)
    (hrefrush : ∀ l ∈ after, ∀ c, g = some c → ∀ now, l.1 ≠ .refrushGroup c.group now) :
    ∀ c, g = some c → p'.1.view.Holds c.group c := by
  have := h.history (I := fun after p' => (∀ l ∈ after, ∀ c, g = some c → ∀ now,
      l.1 ≠ .refrushGroup c.group now) → p'.1.Inv ∧ ∀ c, g = some c → p'.1.view.Holds c.group c)
    (fun _ => ⟨hi, hp⟩) ?_
  · exact (this hrefrush).2
  · intro ls p₁ l p₂ ih hs hl
    obtain ⟨hi₁, hh⟩ := ih (fun l' hl' => hl l' (by simp [hl']))
    obtain ⟨hi₂, hstep⟩ := call_refines hi₁ hs.1.1
    refine ⟨hi₂, fun c hc => ?_⟩
    obtain ⟨c', hc'⟩ := hs.2 c hc
    rwa [hstep.holds (hl l (by simp) c hc) (hh c hc) hc'] at hc'

/-- **Live entries are found**: an entry put with the current group of its name is answered until
its deadline, if the deadline is a `long` and no group is evicted under it. -/
theorem get_finds_live {capacity : Int} {interval : Int64} {isGroup : Bool}
    {before after : List (Call K V × Answer V)} {t₀ t₁ t : TimedCache K V}
    {clock₀ clock₁ clock : Int64} {k : K} {v : Option V} {g : Option CacheGroup} {s : Int64}
    {a : Answer V} {i : Item V} {groupNow now : Int64}
    (h : Reaches capacity interval isGroup before t₀ clock₀)
    (hcurrent : ∀ c, g = some c → t₀.view.Holds c.group c)
    (hput : Timed Calls (t₀, clock₀) (.put k v g s, a) (t₁, clock₁))
    (hrun : Run (KeepsGroup g) (t₁, clock₁) after (t, clock))
    (hlast : ∀ l ∈ after, ∀ v g now, l.1 ≠ .put k v g now)
    (hrefrush : ∀ l ∈ after, ∀ c, g = some c → ∀ now, l.1 ≠ .refrushGroup c.group now)
    (hstored : t.view.entries k ≠ none)
    (hi : deadlines interval (before ++ [(.put k v g s, a)] ++ after) k = some i)
    (hfits : i.start + i.interval < 2 ^ 63) (hnow : now.toInt < i.start + i.interval) :
    ∃ t', Calls t (.get k groupNow now) (.value v) t' := by
  have hrun' : Run (Timed Calls) (t₁, clock₁) after (t, clock) :=
    (Run.simulate (I := fun _ => True) (f := id) (Timed Calls) hrun trivial
      (fun _ _ _ _ hs => ⟨trivial, hs.1⟩)).2
  obtain ⟨hinv, hsound⟩ := ((h.snoc hput).append hrun').sound
  obtain ⟨e, he⟩ := Option.ne_none_iff_exists'.mp hstored
  -- the entry is the one of the `put`
  have hei : e.item = i := Option.some.inj ((hsound.item k e he).symm.trans hi)
  obtain ⟨i₀, hi₀, hv, hg⟩ := deadlines_keeps hlast hi
  rw [deadlines_snoc, Deadlines.after, Function.update_self] at hi₀
  cases hi₀
  have hev : e.value = v := (congrArg Item.value hei).trans hv
  have heg : e.group = g := (congrArg Item.group hei).trans hg
  -- its group is still the current one
  obtain ⟨hinv₁, hstep₁⟩ := call_refines h.sound.1 hput.1
  have hgroups : ∀ c, g = some c → t₁.view.Holds c.group c := by
    generalize t₁.view = s₁ at hstep₁ ⊢
    generalize t₀.view = s₀ at hstep₁ hcurrent
    cases hstep₁
    exact hcurrent
  have hholds := KeepsGroup.holds hrun hinv₁ hgroups hrefrush
  have hvalid : e.isValid now = true := by
    rw [Entry.isValid, decide_eq_true_eq]
    rw [← hei] at hfits hnow
    exact lt_deadline_of_lt (hsound.checkTime_nonneg k e he) hnow hfits
  obtain ⟨t', o, hget⟩ := get_completes hinv k groupNow now
    (fun e' c he' hc => by
      obtain rfl : e' = e := Option.some.inj (he'.symm.trans he)
      obtain ⟨G, hG, hgG⟩ := hholds c (by rw [← heg, hc])
      exact ⟨G, c, hG, hgG⟩)
  have hcall : t.call (.get k groupNow now) = some (t', .of .value o) := by rw [call, hget]; rfl
  have ha := (call_refines hinv hcall).2.get_live he hvalid (fun c hc => hholds c (by rw [← heg, hc]))
  refine ⟨t', ?_⟩
  rw [Calls, hcall, ha, hev]

theorem get_finds_live_put : ∃ t t' : TimedCache String Nat,
    Calls t (.get "k" 7 7) (.value (some 7)) t' := by
  have h : observe 4 100 true 0 [.getGroup "g" 5, .put "k" (some 7) (some ⟨"g", 5⟩) 5]
      (fun p => (p.1.stored "k").isSome) =
      some ([(.getGroup "g" 5, .group ⟨"g", 5⟩),
        (.put "k" (some 7) (some ⟨"g", 5⟩) 5, .value none)], true) := by decide
  obtain ⟨t₁, clock₁, h, hs⟩ := Reaches.of_observe (by decide) (by decide) h
  obtain ⟨t₀, clock₀, h, hput⟩ := h.snoc_inv [(.getGroup "g" 5, .group ⟨"g", 5⟩)]
  obtain ⟨t, clock, h', hget⟩ := h.snoc_inv []
  have hholds := (call_refines h'.sound.1 hget.1).2.getGroup_holds
  have hrun : Run (KeepsGroup (some ⟨"g", 5⟩)) (t₁, clock₁) [] (t₁, clock₁) := .nil
  exact ⟨t₁, get_finds_live h (fun c hc => Option.some.inj hc ▸ hholds) hput hrun (by simp) (by simp)
    (Option.isSome_iff_ne_none.mp hs) rfl (by decide) (by decide)⟩

/-- A state in which a stored entry is missed, by evaluation. -/
theorem misses_of_observe {capacity : Int} {interval : Int64} {isGroup : Bool} {k : K}
    (cs : List (Call K V)) {calls : List (Call K V × Answer V)} {now : Int64}
    (hcap : capacity < 2 ^ 31)
    (h : observe capacity interval isGroup 0 cs (fun p => ((p.1.stored k).isSome,
      (p.1.call (.get k now now)).map Prod.snd, (Call.get k now now : Call K V).tick p.2)) =
      some (calls, true, some (.value none), some now)) :
    ∃ t t' clock, Reaches capacity interval isGroup calls t clock ∧ t.stored k ≠ none ∧
      Timed Calls (t, clock) (.get k now now, .value none) (t', now) := by
  obtain ⟨t, clock, hr, h⟩ := Reaches.of_observe hcap (by decide) h
  simp only [Prod.mk.injEq] at h
  obtain ⟨hs, hc, ht⟩ := h
  obtain ⟨⟨t', a⟩, hc, rfl⟩ := Option.map_eq_some_iff.mp hc
  exact ⟨t, t', clock, hr, Option.isSome_iff_ne_none.mp hs, hc, ht⟩

/-- An interval of `Long.MAX_VALUE` makes the deadline negative; and a second group in a cache of
one drops the first, so that its entries are dead. -/
theorem get_misses_live :
    (∃ (t t' : TimedCache String Nat) (clock : Int64),
      Reaches 4 Int64.maxValue false [(.put "k" (some 7) none 5, .value none)] t clock ∧
      t.stored "k" ≠ none ∧ Timed Calls (t, clock) (.get "k" 6 6, .value none) (t', 6)) ∧
    (∃ (t t' : TimedCache String Nat) (clock : Int64),
      Reaches 1 100 true
        [(.getGroup "g" 5, .group ⟨"g", 5⟩), (.put "k" (some 7) (some ⟨"g", 5⟩) 5, .value none),
          (.getGroup "h" 6, .group ⟨"h", 6⟩)] t clock ∧
      t.stored "k" ≠ none ∧ Timed Calls (t, clock) (.get "k" 7 7, .value none) (t', 7)) ∧
    (6 : Int64).toInt < (5 : Int64).toInt + Int64.maxValue.toInt ∧
    (7 : Int64).toInt < (5 : Int64).toInt + (100 : Int64).toInt := by
  refine ⟨misses_of_observe [.put "k" (some 7) none 5] (by decide) (by decide),
    misses_of_observe [.getGroup "g" 5, .put "k" (some 7) (some ⟨"g", 5⟩) 5, .getGroup "h" 6]
      (by decide) (by decide), by decide, by decide⟩

end

end BaseService.LocalCache
