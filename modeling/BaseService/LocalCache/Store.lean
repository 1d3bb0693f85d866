import BaseService.Data.Runs
import BaseService.LocalCache.TimedCache

/-!
# What a timed cache is for

A `Store` is a map of entries and a map of groups, either of which may lose other keys whenever a
key is assigned. Nothing is said here about hash chains, LRU lists or references.

* `Assigns` : an assignment to a bounded map;
* `Store.Step` : what each call may answer and change;
* `Call.tick` : the clock over a call; `Timed` : steps of a system whose clock never goes back.
-/

namespace BaseService.LocalCache
open Function (update)

/-- `f'` is `f` with `a` at `i`, less some other keys. -/
structure Assigns {ι α : Type} (f : ι → Option α) (i : ι) (a : α) (f' : ι → Option α) : Prop where
  self : f' i = some a
  other : ∀ j, j ≠ i → f' j = f j ∨ f' j = none

structure Store (K V : Type) where
  entries : K → Option (Entry V)
  /-- The current group of each name; `none` for a cache without groups. -/
  groups : Option (String → Option CacheGroup)
  expireInterval : Int64

namespace Store
variable {K V : Type}

/-- The group of a name is looked up, and created if it is missing. -/
inductive GetGroup (s : Store K V) (name : String) (now : Int64) :
    Outcome CacheGroup → Store K V → Prop
  | thrown : s.groups = none → GetGroup s name now (.error .nullPointer) s
  | found {groups : String → Option CacheGroup} {g : CacheGroup} :
    s.groups = some groups → groups name = some g → GetGroup s name now (.ok g) s
  | created {groups groups' : String → Option CacheGroup} :
    s.groups = some groups → groups name = none → Assigns groups name ⟨name, now⟩ groups' →
      GetGroup s name now (.ok ⟨name, now⟩) { s with groups := some groups' }

/-- Whether an entry is live: its deadline, and its group if it has one. -/
inductive Judge (s : Store K V) (e : Entry V) (groupNow now : Int64) :
    Outcome Bool → Store K V → Prop
  | plain : e.group = none → Judge s e groupNow now (.ok (e.isValid now)) s
  | grouped {g c : CacheGroup} {s' : Store K V} :
    e.group = some g → GetGroup s g.group groupNow (.ok c) s' →
      Judge s e groupNow now (.ok (e.isValid now && e.isValidGroup c now)) s'
  | thrown {g : CacheGroup} {x : Thrown} {s' : Store K V} :
    e.group = some g → GetGroup s g.group groupNow (.error x) s' →
      Judge s e groupNow now (.error x) s'

variable [DecidableEq K]

def erase (s : Store K V) (k : K) : Store K V :=
  { s with entries := update s.entries k none }

/-- The deadline of the entry of `k`, if there is one, is set again. -/
def touch (s : Store K V) (k : K) (expireInterval now : Int64) : Store K V :=
  { s with
    entries := update s.entries k
      ((s.entries k).map fun e => e.setExpireInterval expireInterval now) }

theorem erase_entries {s : Store K V} {k k' : K} {e : Entry V}
    (h : (s.erase k).entries k' = some e) : k' ≠ k ∧ s.entries k' = some e := by
  have h : update s.entries k none k' = some e := h
  by_cases hk : k' = k
  · rw [hk, Function.update_self] at h
    cases h
  · rw [Function.update_of_ne hk] at h
    exact ⟨hk, h⟩

theorem touch_entries {s : Store K V} {k k' : K} {d now : Int64} {e : Entry V}
    (h : (s.touch k d now).entries k' = some e) :
    (k' = k ∧ ∃ e₀, s.entries k = some e₀ ∧ e = e₀.setExpireInterval d now) ∨
      k' ≠ k ∧ s.entries k' = some e := by
  have h : update s.entries k ((s.entries k).map fun e => e.setExpireInterval d now) k' = some e :=
    h
  by_cases hk : k' = k
  · rw [hk, Function.update_self] at h
    obtain ⟨e₀, he₀, rfl⟩ := Option.map_eq_some_iff.mp h
    exact Or.inl ⟨hk, e₀, he₀, rfl⟩
  · rw [Function.update_of_ne hk] at h
    exact Or.inr ⟨hk, h⟩

omit [DecidableEq K] in
/-- The value stored under `k`, live or not. -/
def value (s : Store K V) (k : K) : Option V := (s.entries k).bind Entry.value

inductive Step : Store K V → Call K V → Answer V → Store K V → Prop
  | put {s : Store K V} {k : K} {v : Option V} {g : Option CacheGroup} {now : Int64}
    {entries' : K → Option (Entry V)} {old : Option V} :
    Assigns s.entries k ⟨s.expireInterval, now, v, g⟩ entries' →
      Step s (.put k v g now) (.value old) { s with entries := entries' }
  | getGroup {s s' : Store K V} {name : String} {now : Int64} {o : Outcome CacheGroup} :
    GetGroup s name now o s' → Step s (.getGroup name now) (.of .group o) s'
  | refrush {s : Store K V} {name : String} {now : Int64}
    {groups groups' : String → Option CacheGroup} :
    s.groups = some groups → Assigns groups name ⟨name, now⟩ groups' →
      Step s (.refrushGroup name now) .void { s with groups := some groups' }
  | refrushThrown {s : Store K V} {name : String} {now : Int64} :
    s.groups = none → Step s (.refrushGroup name now) (.thrown .nullPointer) s
  | miss {s : Store K V} {k : K} {groupNow now : Int64} :
    s.entries k = none → Step s (.get k groupNow now) (.value none) s
  | live {s s' : Store K V} {k : K} {e : Entry V} {groupNow now : Int64} :
    s.entries k = some e → Judge s e groupNow now (.ok true) s' →
      Step s (.get k groupNow now) (.value e.value) s'
  | dead {s s' : Store K V} {k : K} {e : Entry V} {groupNow now : Int64} :
    s.entries k = some e → Judge s e groupNow now (.ok false) s' →
      Step s (.get k groupNow now) (.value none) (s'.erase k)
  | getThrown {s s' : Store K V} {k : K} {e : Entry V} {groupNow now : Int64} {x : Thrown} :
    s.entries k = some e → Judge s e groupNow now (.error x) s' →
      Step s (.get k groupNow now) (.thrown x) s'
  | expireInterval {s : Store K V} {k : K} {d now : Int64} :
    Step s (.expireInterval k d now) .void (s.touch k d now)
  | getRemains {s : Store K V} {k : K} {d now : Int64} :
    Step s (.getRemains k d now) (.value (s.value k)) (s.touch k d now)
  | remove {s : Store K V} {k : K} : Step s (.remove k) (.value (s.value k)) (s.erase k)
  | removeAll {s : Store K V} : Step s .removeAll .void { s with entries := fun _ => none }

end Store

/-! ## The clock -/

section
variable {K V σ : Type}

/-- The clock after a call that starts at `clock`, if the call's readings never go back. -/
def Call.tick (clock : Int64) : Call K V → Option Int64
  | .put _ _ _ now | .getGroup _ now | .refrushGroup _ now | .expireInterval _ _ now
  | .getRemains _ _ now => if clock ≤ now then some now else none
  | .get _ groupNow now => if clock ≤ groupNow ∧ groupNow ≤ now then some now else none
  | .remove _ | .removeAll => some clock

/-- A step of a system together with its clock; a label is a call with its answer. -/
def Timed (step : σ → Call K V → Answer V → σ → Prop) (p : σ × Int64)
    (l : Call K V × Answer V) (p' : σ × Int64) : Prop :=
  step p.1 l.1 l.2 p'.1 ∧ l.1.tick p.2 = some p'.2

theorem tick_eq_some {now clock' : Int64} {p : Prop} [Decidable p]
    (h : (if p then some now else none) = some clock') : p ∧ clock' = now := by
  obtain ⟨hp, h⟩ := Option.ite_none_right_eq_some.mp h
  exact ⟨hp, (Option.some.inj h).symm⟩

theorem Call.tick_le {clock clock' : Int64} {c : Call K V} (h : c.tick clock = some clock') :
    clock ≤ clock' := by
  cases c with
  | get k groupNow now =>
    obtain ⟨⟨h₁, h₂⟩, rfl⟩ := tick_eq_some h
    exact Int64.le_trans h₁ h₂
  | remove k => exact Option.some.inj h ▸ Int64.le_refl _
  | removeAll => exact Option.some.inj h ▸ Int64.le_refl _
  | _ =>
    obtain ⟨h, rfl⟩ := tick_eq_some h
    exact h

end

end BaseService.LocalCache
