import BaseService.Lively.LivelyCollect

/-!
# `livelyOverdue` among calls of `add`

One thread runs `livelyOverdue` for a list; others call `add`, and the clock advances. Each command
and each score is one step.

* `Sweep` : where `livelyOverdue` is; `LivelyRedis.Step` : the steps of all threads;
* `lastScore`, `Scored` : the score of a member after `add`s;
* `Undisturbed` : the second bound and the `add`s before the removal select the items of the first;
* `overdue_removed_iff` : **the items returned are those removed iff the call is undisturbed.**
-/

namespace BaseService.Lively
open Function (update)
open Redis (Command Server ZSet)

/-- What `livelyOverdue` does next. -/
inductive Sweep
  | start
  | range (n : Int64)
  | found (overdue : List String)
  | remove (overdue : List String) (n : Int64)
  /-- It has returned; `removed` has left the sorted set in `zremrangeByScore`. -/
  | returned (overdue : List String) (removed : Finset String)

/-- `adding` has the calls of `add`, with their scores once these are computed. -/
structure LivelyRedis (τ Date : Type) where
  now : Date
  redis : Server
  adding : τ → Option (LivelyItemEnum × Int64 × Option Int64)
  sweep : Sweep

namespace LivelyRedis
variable {τ Date : Type}

inductive Action (τ : Type)
  | tick
  | add (t : τ) (e : LivelyItemEnum) (item : Int64)
  | getScore (t : τ)
  | zadd (e : LivelyItemEnum) (n item : Int64)
  | getOverdueScore
  | zrangeByScore (n : Int64)
  | zremrangeByScore (n : Int64)

/-- The steps; the sweep is one of the list `e`. -/
inductive Step [DecidableEq τ] [Preorder Date] (cal : Calendar Date) (e : LivelyItemEnum) :
    LivelyRedis τ Date → Action τ → LivelyRedis τ Date → Prop
  | tick {s : LivelyRedis τ Date} {now : Date} : s.now ≤ now → Step cal e s .tick { s with now := now }
  | add {s : LivelyRedis τ Date} {t : τ} {e' : LivelyItemEnum} {item : Int64} :
    s.adding t = none →
    Step cal e s (.add t e' item) { s with adding := update s.adding t (some (e', item, none)) }
  | getScore {s : LivelyRedis τ Date} {t : τ} {e' : LivelyItemEnum} {item : Int64} :
    s.adding t = some (e', item, none) →
    Step cal e s (.getScore t)
      { s with adding := update s.adding t (some (e', item, some (e'.getScore cal s.now))) }
  | zadd {s : LivelyRedis τ Date} {t : τ} {e' : LivelyItemEnum} {n item : Int64} {redis : Server}
      {reply : Redis.Reply} :
    s.adding t = some (e', item, some n) →
    Command.exec ⟨key e', .zadd (score n) (toString item)⟩ s.redis = some (redis, reply) →
    Step cal e s (.zadd e' n item) { s with adding := update s.adding t none, redis := redis }
  | firstBound {s : LivelyRedis τ Date} :
    s.sweep = .start →
    Step cal e s .getOverdueScore { s with sweep := .range (e.getOverdueScore cal s.now) }
  | zrangeByScore {s : LivelyRedis τ Date} {n : Int64} {overdue : List String} :
    s.sweep = .range n → overdue = (s.redis.zset (key e)).zrangeByScore 0 (score n) →
    Step cal e s (.zrangeByScore n)
      { s with sweep := if overdue = [] then .returned [] ∅ else .found overdue }
  | secondBound {s : LivelyRedis τ Date} {overdue : List String} :
    s.sweep = .found overdue →
    Step cal e s .getOverdueScore { s with sweep := .remove overdue (e.getOverdueScore cal s.now) }
  | zremrangeByScore {s : LivelyRedis τ Date} {overdue : List String} {n : Int64} {redis : Server}
      {reply : Redis.Reply} {removed : Finset String} :
    s.sweep = .remove overdue n →
    Command.exec ⟨key e, .zremrangeByScore 0 (score n)⟩ s.redis = some (redis, reply) →
    removed = (s.redis.zset (key e)).members.toFinset \ (redis.zset (key e)).members.toFinset →
    Step cal e s (.zremrangeByScore n) { s with redis := redis, sweep := .returned overdue removed }

/-! ## Scores -/

/-- The score that the action gives to the member of the list. -/
def Action.score (e : LivelyItemEnum) (member : String) : Action τ → Option ℚ
  | .zadd e' n item => if e' = e ∧ toString item = member then some (Lively.score n) else none
  | _ => none

/-- The last score that the member got. -/
def lastScore (e : LivelyItemEnum) (member : String) (adds : List (Action τ)) : Option ℚ :=
  adds.reverse.findSome? (Action.score e member)

/-- The score of the member in a sorted set after the actions. -/
def Scored (e : LivelyItemEnum) (z : ZSet) (adds : List (Action τ)) (member : String) (score : ℚ) :
    Prop :=
  lastScore e member adds = some score ∨ lastScore e member adds = none ∧ (member, score) ∈ z

/-- Overdue for a bound. -/
def Overdue (n : Int64) (score : ℚ) : Prop := 0 ≤ score ∧ score ≤ Lively.score n

/-- `n` is the bound of the read of `z`, `n'` that of the removal, and `adds` are between them. -/
structure Undisturbed (e : LivelyItemEnum) (z : ZSet) (n n' : Int64) (adds : List (Action τ)) :
    Prop where
  /-- No score that is left alone is in one range only. -/
  left : ∀ member score, (member, score) ∈ z → lastScore e member adds = none →
    (Overdue n score ↔ Overdue n' score)
  /-- An item that is added is overdue after it only if it was before, and then it is. -/
  added : ∀ member score, lastScore e member adds = some score →
    ((∃ score, (member, score) ∈ z ∧ Overdue n score) ↔ Overdue n' score)

theorem lastScore_append (e : LivelyItemEnum) (member : String) (adds : List (Action τ))
    (a : Action τ) : lastScore e member (adds ++ [a]) =
      (a.score e member).or (lastScore e member adds) := by
  rw [lastScore, List.reverse_append, List.reverse_singleton, List.singleton_append,
    List.findSome?_cons]
  cases a.score e member <;> rfl

theorem scored_append (e : LivelyItemEnum) (z : ZSet) (adds : List (Action τ)) (a : Action τ)
    (member : String) (score : ℚ) : Scored e z (adds ++ [a]) member score ↔
      if a.score e member = none then Scored e z adds member score
      else a.score e member = some score := by
  rw [Scored, lastScore_append]
  cases ha : a.score e member with
  | none => simp [Scored]
  | some score' => simp

theorem Scored.one {e : LivelyItemEnum} {z : ZSet} {adds : List (Action τ)} {member : String}
    {score score' : ℚ} (hz : z.OneScore) (h : Scored e z adds member score)
    (h' : Scored e z adds member score') : score = score' := by
  rcases h with h | ⟨h, hmem⟩ <;> rcases h' with h' | ⟨h', hmem'⟩
  · exact Option.some.inj (h.symm.trans h')
  · cases h.symm.trans h'
  · cases h.symm.trans h'
  · exact hz hmem hmem'

section
variable [DecidableEq τ] [Preorder Date] {cal : Calendar Date} {e : LivelyItemEnum}
  {s s' : LivelyRedis τ Date} {a : Action τ}

/-- A step other than the removal scores the members as its action says. -/
theorem Step.scores (h : Step cal e s a s') (ha : ∀ n, a ≠ .zremrangeByScore n) (member : String)
    (score : ℚ) : (member, score) ∈ s'.redis.zset (key e) ↔
      if a.score e member = none then (member, score) ∈ s.redis.zset (key e)
      else a.score e member = some score := by
  cases h with
  | @zadd t e' n item redis reply _ hexec =>
    by_cases he : e' = e
    · subst he
      rw [(Redis.zset_zadd hexec).1, Redis.mem_zadd_iff]
      by_cases hitem : member = toString item
      · subst hitem
        simp [Action.score, eq_comm]
      · simp [Action.score, hitem, Ne.symm hitem]
    · rw [Redis.zset_of_ne hexec (key_injective.ne (Ne.symm he))]
      simp [Action.score, he]
  | zremrangeByScore => exact absurd rfl (ha _)
  | _ => rfl

/-- What the removal takes away. -/
theorem Step.removed (h : Step cal e s a s') (hs : (s.redis.zset (key e)).OneScore)
    {overdue : List String} {n : Int64} (hsweep : s.sweep = .remove overdue n)
    (ha : a = .zremrangeByScore n) : ∃ removed, s'.sweep = .returned overdue removed ∧
      ∀ member, member ∈ removed ↔
        ∃ score, (member, score) ∈ s.redis.zset (key e) ∧ Overdue n score := by
  cases h with
  | zremrangeByScore hsweep' hexec hremoved =>
    cases hsweep.symm.trans hsweep'
    refine ⟨_, rfl, fun member => ?_⟩
    rw [hremoved, Redis.zset_zremrangeByScore hexec, Finset.mem_sdiff, List.mem_toFinset,
      List.mem_toFinset, Redis.mem_members_zremrangeByScore hs, not_and, not_not]
    constructor
    · rintro ⟨hmem, hrange⟩
      exact Redis.mem_zrangeByScore.1 (hrange hmem)
    · intro hrange
      have hrange' := Redis.mem_zrangeByScore.2 hrange
      exact ⟨Redis.zrangeByScore_subset hrange', fun _ => hrange'⟩
  | _ => cases ha

/-- What a step does to the sweep. -/
theorem Step.sweep_cases (h : Step cal e s a s') :
    (s'.sweep = s.sweep ∧ ∀ n, a ≠ .zremrangeByScore n) ∨ s.sweep = .start ∨
      (∃ n, s.sweep = .range n) ∨
      (∃ overdue n, s.sweep = .found overdue ∧ s'.sweep = .remove overdue n ∧
        ∀ n, a ≠ .zremrangeByScore n) ∨
      ∃ overdue n, s.sweep = .remove overdue n ∧ a = .zremrangeByScore n := by
  cases h with
  | firstBound hsweep => exact .inr (.inl hsweep)
  | zrangeByScore hsweep => exact .inr (.inr (.inl ⟨_, hsweep⟩))
  | secondBound hsweep =>
    exact .inr (.inr (.inr (.inl ⟨_, _, hsweep, rfl, fun _ h => by cases h⟩)))
  | zremrangeByScore hsweep => exact .inr (.inr (.inr (.inr ⟨_, _, hsweep, rfl⟩)))
  | _ => exact .inl ⟨rfl, fun _ h => by cases h⟩

/-- Before the removal the scores of `z` are those that the actions left; the removal has taken away
what was overdue. -/
inductive Followed (e : LivelyItemEnum) (z : ZSet) (overdue : List String) (ls : List (Action τ))
    (s : LivelyRedis τ Date) : Prop
  | waiting :
    (s.sweep = .found overdue ∨ ∃ n, s.sweep = .remove overdue n) →
    (∀ n, .zremrangeByScore n ∉ ls) →
    (∀ member score, (member, score) ∈ s.redis.zset (key e) ↔ Scored e z ls member score) →
    Followed e z overdue ls s
  | removed (removed : Finset String) (adds : List (Action τ)) (n : Int64) (after : List (Action τ)) :
    s.sweep = .returned overdue removed → ls = adds ++ .zremrangeByScore n :: after →
    (∀ n, .zremrangeByScore n ∉ adds) → (∀ n, .zremrangeByScore n ∉ after) →
    (∀ member, member ∈ removed ↔ ∃ score, Scored e z adds member score ∧ Overdue n score) →
    Followed e z overdue ls s

theorem Followed.step {z : ZSet} {overdue : List String} {ls : List (Action τ)} (hz : z.OneScore)
    (h : Followed e z overdue ls s) (hs : Step cal e s a s') : Followed e z overdue (ls ++ [a]) s' := by
  have hnot {l : List (Action τ)} (hl : ∀ n, .zremrangeByScore n ∉ l)
      (ha : ∀ n, a ≠ .zremrangeByScore n) (n : Int64) : .zremrangeByScore n ∉ l ++ [a] := by
    rw [List.mem_append, List.mem_singleton, not_or]
    exact ⟨hl n, (ha n).symm⟩
  cases h with
  | waiting hsweep hls hscores =>
    have hwait (ha : ∀ n, a ≠ .zremrangeByScore n)
        (hsweep' : s'.sweep = .found overdue ∨ ∃ n, s'.sweep = .remove overdue n) :
        Followed e z overdue (ls ++ [a]) s' := by
      refine .waiting hsweep' (hnot hls ha) fun member score => ?_
      rw [hs.scores ha, scored_append, hscores]
    obtain ⟨hsame, ha⟩ | hstart | ⟨n, hrange⟩ | ⟨overdue', n, hfound, hremove, ha⟩ |
      ⟨overdue', n, hremove, rfl⟩ := hs.sweep_cases
    · apply hwait ha
      rwa [hsame]
    · simp [hstart] at hsweep
    · simp [hrange] at hsweep
    · apply hwait ha
      simp only [hfound, Sweep.found.injEq, reduceCtorEq, exists_false, or_false] at hsweep
      exact .inr ⟨n, by rw [hremove, hsweep]⟩
    · have hone : (s.redis.zset (key e)).OneScore := by
        intro member score score' hmem hmem'
        exact ((hscores _ _).1 hmem).one hz ((hscores _ _).1 hmem')
      simp only [hremove, Sweep.remove.injEq, reduceCtorEq, false_or, exists_and_left] at hsweep
      obtain ⟨removed, hreturned, hmem⟩ := hs.removed hone hremove rfl
      refine .removed removed ls n [] ?_ rfl hls (fun _ => List.not_mem_nil) ?_
      · rw [hreturned, hsweep.1]
      · simpa only [hscores] using hmem
  | removed removed adds n after hsweep hls hadds hafter hmem =>
    obtain ⟨hsame, ha⟩ | hstart | ⟨n', hrange⟩ | ⟨overdue', n', hfound, -⟩ |
      ⟨overdue', n', hremove, -⟩ := hs.sweep_cases
    · refine .removed removed adds n (after ++ [a]) (hsame.trans hsweep) ?_ hadds (hnot hafter ha) hmem
      rw [hls, List.append_assoc, List.cons_append]
    · cases hsweep.symm.trans hstart
    · cases hsweep.symm.trans hrange
    · cases hsweep.symm.trans hfound
    · cases hsweep.symm.trans hremove

end

/-- The place of the only removal. -/
theorem split_unique {l₁ l₂ l₁' l₂' : List (Action τ)} {n n' : Int64}
    (h₁ : ∀ n, .zremrangeByScore n ∉ l₁) (h₂ : ∀ n, .zremrangeByScore n ∉ l₂)
    (h : l₁ ++ .zremrangeByScore n :: l₂ = l₁' ++ .zremrangeByScore n' :: l₂') :
    l₁' = l₁ ∧ n' = n := by
  rcases List.append_eq_append_iff.1 h with ⟨c, hc, htail⟩ | ⟨c, hc, htail⟩
  · cases c with
    | nil =>
      obtain ⟨hn, -⟩ := List.cons.inj htail
      cases hn
      exact ⟨by rw [hc, List.append_nil], rfl⟩
    | cons x c =>
      obtain ⟨-, htail⟩ := List.cons.inj htail
      exact absurd (htail ▸ List.mem_append_right _ List.mem_cons_self) (h₂ n')
  · cases c with
    | nil =>
      obtain ⟨hn, -⟩ := List.cons.inj htail
      cases hn
      exact ⟨by rw [hc, List.append_nil], rfl⟩
    | cons x c =>
      obtain ⟨rfl, -⟩ := List.cons.inj htail
      exact absurd (hc ▸ List.mem_append_right _ List.mem_cons_self) (h₁ n')

theorem scored_of_some {e : LivelyItemEnum} {z : ZSet} {adds : List (Action τ)} {member : String}
    {score score' : ℚ} (h : lastScore e member adds = some score) :
    Scored e z adds member score' ↔ score' = score := by
  simp [Scored, h, eq_comm]

theorem scored_of_none {e : LivelyItemEnum} {z : ZSet} {adds : List (Action τ)} {member : String}
    {score : ℚ} (h : lastScore e member adds = none) :
    Scored e z adds member score ↔ (member, score) ∈ z := by
  simp [Scored, h]

/-- The two ranges have the same members. -/
theorem undisturbed_iff {e : LivelyItemEnum} {z : ZSet} (hz : z.OneScore) {n n' : Int64}
    {adds : List (Action τ)} : Undisturbed e z n n' adds ↔ ∀ member,
      (∃ score, (member, score) ∈ z ∧ Overdue n score) ↔
        ∃ score, Scored e z adds member score ∧ Overdue n' score := by
  constructor
  · intro h member
    cases hlast : lastScore e member adds with
    | some score => simp only [scored_of_some hlast, exists_eq_left, h.added member score hlast]
    | none =>
      simp only [scored_of_none hlast]
      exact exists_congr fun score => and_congr_right fun hmem => h.left member score hmem hlast
  · intro h
    constructor
    · intro member score hmem hlast
      have hmember := h member
      simp only [scored_of_none hlast] at hmember
      constructor
      · intro hoverdue
        obtain ⟨score', hmem', hoverdue'⟩ := hmember.1 ⟨score, hmem, hoverdue⟩
        rwa [hz hmem hmem']
      · intro hoverdue
        obtain ⟨score', hmem', hoverdue'⟩ := hmember.2 ⟨score, hmem, hoverdue⟩
        rwa [hz hmem hmem']
    · intro member score hlast
      rw [h member]
      simp only [scored_of_some hlast, exists_eq_left]

section
variable [DecidableEq τ] [Preorder Date] {cal : Calendar Date} {e : LivelyItemEnum}

theorem Step.oneScore {s s' : LivelyRedis τ Date} {a : Action τ} (h : Step cal e s a s')
    (hs : (s.redis.zset (key e)).OneScore) : (s'.redis.zset (key e)).OneScore := by
  cases h with
  | @zadd t e' n item redis reply _ hexec =>
    by_cases he : e' = e
    · subst he
      rw [(Redis.zset_zadd hexec).1]
      exact hs.zadd ..
    · rwa [Redis.zset_of_ne hexec (key_injective.ne (Ne.symm he))]
  | zremrangeByScore _ hexec _ =>
    rw [Redis.zset_zremrangeByScore hexec]
    exact hs.zremrangeByScore ..
  | _ => exact hs

/-- **The items returned are those removed if and only if nothing disturbs the call.** `s₁` is where it
reads the range, `s₃` a state after it has returned. -/
theorem overdue_removed_iff {s₀ s₁ s₂ s₃ : LivelyRedis τ Date} {before between : List (Action τ)}
    {n : Int64} {overdue : List String} {removed : Finset String}
    (hone : (s₀.redis.zset (key e)).OneScore) (hbefore : Run (Step cal e) s₀ before s₁)
    (hread : Step cal e s₁ (.zrangeByScore n) s₂) (hbetween : Run (Step cal e) s₂ between s₃)
    (hreturned : s₃.sweep = .returned overdue removed) :
    overdue.toFinset = removed ↔
      ∀ adds n' after, between = adds ++ .zremrangeByScore n' :: after →
        Undisturbed e (s₁.redis.zset (key e)) n n' adds := by
  have hz : (s₁.redis.zset (key e)).OneScore :=
    hbefore.invariant (I := fun s : LivelyRedis τ Date => (s.redis.zset (key e)).OneScore) hone
      fun _ _ _ hs h => h.oneScore hs
  cases hread with
  | @zrangeByScore _ listed hrange hlisted =>
    by_cases hempty : listed = []
    · rw [if_pos hempty] at hbetween
      have hnone : s₃.sweep = .returned [] ∅ ∧ ∀ n', .zremrangeByScore n' ∉ between := by
        refine hbetween.history (I := fun ls s => s.sweep = .returned [] ∅ ∧
          ∀ n', .zremrangeByScore n' ∉ ls) ⟨rfl, fun _ => List.not_mem_nil⟩ ?_
        rintro ls s a s' ⟨hsweep, hls⟩ hs
        obtain ⟨hsame, ha⟩ | hstart | ⟨n', hrange⟩ | ⟨overdue', n', hfound, -⟩ |
          ⟨overdue', n', hremove, -⟩ := hs.sweep_cases
        · refine ⟨hsame.trans hsweep, fun n' => ?_⟩
          rw [List.mem_append, List.mem_singleton, not_or]
          exact ⟨hls n', (ha n').symm⟩
        · cases hsweep.symm.trans hstart
        · cases hsweep.symm.trans hrange
        · cases hsweep.symm.trans hfound
        · cases hsweep.symm.trans hremove
      cases hreturned.symm.trans hnone.1
      refine iff_of_true rfl ?_
      rintro adds n' after rfl
      exact absurd (List.mem_append_right _ List.mem_cons_self) (hnone.2 n')
    · rw [if_neg hempty] at hbetween
      have hfollowed : Followed e (s₁.redis.zset (key e)) listed between s₃ := by
        refine hbetween.history (.waiting (.inl rfl) (fun _ => List.not_mem_nil) fun _ _ => ?_)
          fun _ _ _ _ h hs => h.step hz hs
        exact (scored_of_none rfl).symm
      cases hfollowed with
      | waiting hsweep => simp [hreturned] at hsweep
      | removed removed' adds n' after hsweep hls hadds hafter hmem =>
        cases hreturned.symm.trans hsweep
        have hsplit : (∀ adds n' after, between = adds ++ .zremrangeByScore n' :: after →
            Undisturbed e (s₁.redis.zset (key e)) n n' adds) ↔
              Undisturbed e (s₁.redis.zset (key e)) n n' adds := by
          constructor
          · intro h
            exact h adds n' after hls
          · intro h adds' n'' after' hls'
            obtain ⟨rfl, rfl⟩ := split_unique hadds hafter (hls.symm.trans hls')
            exact h
        rw [hsplit, undisturbed_iff hz, Finset.ext_iff]
        refine forall_congr' fun member => ?_
        rw [hmem, hlisted, List.mem_toFinset, Redis.mem_zrangeByScore]
        rfl

end

/-! ## Examples

It is 10 o'clock on the 20th; the item 5 was collected on the 1st. -/

/-- The list's sorted set has one item. -/
def oneItem (n : ℚ) : Server := update (fun _ => none) (key .pid1Day) (some (.zset [("5", n)]))

def morning (redis : Server) (sweep : Sweep) : LivelyRedis Unit Int :=
  ⟨19 * 24 + 10, redis, fun _ => none, sweep⟩

theorem overdueScore_morning :
    LivelyItemEnum.pid1Day.getOverdueScore hoursOfJanuary (19 * 24 + 10) = 2014011810 := by
  decide

theorem score_morning : score 2014011810 = 2014011810 := by
  have hlong : (2014011810 : Int64).toInt = 2014011810 := by decide
  rw [score, hlong]
  norm_num

theorem zset_oneItem (n : ℚ) : (oneItem n).zset (key .pid1Day) = [("5", n)] := by
  rw [Server.zset, oneItem, Function.update_self]

/-- The read finds the item. -/
theorem range_oneItem :
    ["5"] = ((oneItem 2014010108).zset (key .pid1Day)).zrangeByScore 0 (score 2014011810) := by
  rw [zset_oneItem, score_morning]
  norm_num [ZSet.zrangeByScore, ZSet.members]

/-- The removal takes it. -/
theorem remove_oneItem :
    Command.exec ⟨key .pid1Day, .zremrangeByScore 0 (score 2014011810)⟩ (oneItem 2014010108) =
      some (fun _ => none, .integer 1) := by
  rw [score_morning]
  norm_num [oneItem, Command.exec, Redis.Cmd.exec, Redis.Cmd.execZSet, ZSet.zremrangeByScore,
    Redis.Value.stored]

/-- The call computes the first bound and reads the range. -/
theorem read_morning :
    Run (Step hoursOfJanuary .pid1Day) (morning (oneItem 2014010108) .start) [.getOverdueScore]
      (morning (oneItem 2014010108) (.range 2014011810)) ∧
    Step hoursOfJanuary .pid1Day (morning (oneItem 2014010108) (.range 2014011810))
      (.zrangeByScore 2014011810) (morning (oneItem 2014010108) (.found ["5"])) := by
  constructor
  · have hfirst : Step hoursOfJanuary .pid1Day (morning (oneItem 2014010108) .start) .getOverdueScore _ :=
      .firstBound rfl
    apply Run.single
    rwa [morning, overdueScore_morning] at hfirst
  · exact Step.zrangeByScore (s := morning (oneItem 2014010108) (.range 2014011810)) rfl range_oneItem

theorem oneScore_oneItem (n : ℚ) : ((oneItem n).zset (key .pid1Day)).OneScore := by
  rw [zset_oneItem]
  intro m score score' h h'
  rw [List.mem_singleton] at h h'
  exact congrArg Prod.snd (h.trans h'.symm)

/-- The second bound, at any sorted set. -/
theorem secondBound_morning (redis : Server) :
    Step hoursOfJanuary .pid1Day (morning redis (.found ["5"])) .getOverdueScore
      (morning redis (.remove ["5"] 2014011810)) := by
  have hsecond : Step hoursOfJanuary .pid1Day (morning redis (.found ["5"])) .getOverdueScore _ :=
    .secondBound rfl
  rwa [morning, overdueScore_morning] at hsecond

/-- Nobody is in between. -/
theorem overdue_removed_alone : ["5"].toFinset = {"5"} ↔
    ∀ adds n' after, [Action.getOverdueScore, .zremrangeByScore 2014011810] =
        adds ++ (.zremrangeByScore n' : Action Unit) :: after →
      Undisturbed .pid1Day ((oneItem 2014010108).zset (key .pid1Day)) 2014011810 n' adds := by
  obtain ⟨hbefore, hread⟩ := read_morning
  have hremove : Step hoursOfJanuary .pid1Day (morning (oneItem 2014010108) (.remove ["5"] 2014011810))
      (.zremrangeByScore 2014011810) (morning (fun _ => none) (.returned ["5"] {"5"})) := by
    refine .zremrangeByScore (s := morning (oneItem 2014010108) (.remove ["5"] 2014011810)) rfl
      remove_oneItem ?_
    rw [morning, zset_oneItem]
    rfl
  have hbetween := (Run.single (secondBound_morning _)).snoc hremove
  exact overdue_removed_iff (oneScore_oneItem _) hbefore hread hbetween rfl

/-- The item is collected again after the call has read it: it stays, and is returned as removed. -/
theorem overdue_added_again : ¬ ∀ (s s' : LivelyRedis Unit Int) (ls : List (Action Unit))
    (overdue : List String) (removed : Finset String), (s.redis.zset (key .pid1Day)).OneScore →
    s.sweep = .start → Run (Step hoursOfJanuary .pid1Day) s ls s' →
    s'.sweep = .returned overdue removed → overdue.toFinset = removed := by
  intro h
  obtain ⟨hbefore, hread⟩ := read_morning
  let collecting (score : Option Int64) : LivelyRedis Unit Int :=
    { morning (oneItem 2014010108) (.found ["5"]) with adding := fun _ => some (.pid1Day, 5, score) }
  have hcall : Step hoursOfJanuary .pid1Day (morning (oneItem 2014010108) (.found ["5"]))
      (.add () .pid1Day 5) (collecting none) := .add rfl
  have hscore : Step hoursOfJanuary .pid1Day (collecting none) (.getScore ())
      (collecting (some 2014012010)) := .getScore rfl
  have hlong : score 2014012010 = 2014012010 := by
    have hlong : (2014012010 : Int64).toInt = 2014012010 := by decide
    rw [score, hlong]
    norm_num
  have hadd : Command.exec ⟨key .pid1Day, .zadd (score 2014012010) "5"⟩ (oneItem 2014010108) =
      some (oneItem 2014012010, .integer 0) := by
    rw [hlong]
    norm_num [oneItem, Command.exec, Redis.Cmd.exec, Redis.Cmd.execZSet, ZSet.zadd,
      Redis.Value.stored, ZSet.members]
  have hzadd : Step hoursOfJanuary .pid1Day (collecting (some 2014012010)) (.zadd .pid1Day 2014012010 5)
      (morning (oneItem 2014012010) (.found ["5"])) := .zadd (t := ()) rfl hadd
  have hkeep : Command.exec ⟨key .pid1Day, .zremrangeByScore 0 (score 2014011810)⟩
      (oneItem 2014012010) = some (oneItem 2014012010, .integer 0) := by
    rw [score_morning]
    norm_num [oneItem, Command.exec, Redis.Cmd.exec, Redis.Cmd.execZSet, ZSet.zremrangeByScore,
      Redis.Value.stored]
  have hremove : Step hoursOfJanuary .pid1Day (morning (oneItem 2014012010) (.remove ["5"] 2014011810))
      (.zremrangeByScore 2014011810) (morning (oneItem 2014012010) (.returned ["5"] ∅)) := by
    refine .zremrangeByScore (s := morning (oneItem 2014012010) (.remove ["5"] 2014011810)) rfl
      hkeep ?_
    exact (Finset.sdiff_self _).symm
  have hrun := (((((hbefore.snoc hread).snoc hcall).snoc hscore).snoc hzadd).snoc
    (secondBound_morning _)).snoc hremove
  exact absurd (h _ _ _ _ _ (oneScore_oneItem _) rfl hrun rfl) (by decide)

end LivelyRedis

end BaseService.Lively
