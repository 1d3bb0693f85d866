import BaseService.Data.Runs

/-!
# The cached lists of instances

`getAllService` asks `ZooKeeper` when no list is cached, and when a listener is notified of a change. The
listener is installed by the calls that find no `ServiceCache` of the group.

* `Members`, `Members.Step` : the threads, each access to a map, to the cache or to `ZooKeeper` a step,
  with the changes and their notifications;
* `CaughtUp` : a cached list is that of the current members;
* `Awaited` : a call will store the current members;
* `Timely` : what is stored is current, or will be replaced by what is, and a change is noticed;
* `caughtUp_of_timely` : runs of such steps end with the current members;
* `not_invariant_of_late`, `exists_stale` : other steps let the threads end with lists that are not.
-/

namespace BaseService.Schedule
open Function (update)

/-- What a thread is about to do in `getAllService`. -/
inductive Phase (ι : Type)
  | idle
  /-- `serviceCacheMap.containsKey(groupName)`. -/
  | containsKey (needCache : Bool)
  /-- It has built a `ServiceCache`. -/
  | put (needCache : Bool)
  | addListener (needCache : Bool)
  | start (needCache : Bool)
  /-- `serviceInstanceCache.get(groupName)`. -/
  | get
  | queryForInstances
  /-- `serviceInstanceCache.put(groupName, instances)`. -/
  | store (instances : List ι)

/-- The phase that the check of `needCache` leads to. -/
def Phase.checked {ι : Type} (needCache : Bool) : Phase ι :=
  if needCache then .get else .queryForInstances

/-- The threads `τ` and a group with instances `ι`. -/
structure Members (ι τ : Type) where
  /-- What `queryForInstances` returns, the empty list if that is null. -/
  members : List ι
  /-- The group is in `serviceCacheMap`. -/
  mapped : Bool
  /-- The number of the `ServiceCache`s of the group that have been started. -/
  started : Nat
  /-- The number of notifications that no listener has received yet. -/
  outstanding : Nat
  /-- The list in `serviceInstanceCache`. -/
  cached : Option (List ι)
  phase : τ → Phase ι

namespace Members
variable {ι τ : Type} [DecidableEq τ]

def init (members : List ι) : Members ι τ := ⟨members, false, 0, 0, none, fun _ => .idle⟩

def goto (s : Members ι τ) (t : τ) (phase : Phase ι) : Members ι τ :=
  { s with phase := update s.phase t phase }

inductive Label (ι τ : Type)
  | getAllService (t : τ) (needCache : Bool)
  | containsKey (t : τ)
  | put (t : τ)
  | addListener (t : τ)
  | start (t : τ)
  | get (t : τ)
  | queryForInstances (t : τ)
  | store (t : τ)
  /-- Members come or go. -/
  | changed (members : List ι)
  | cacheChanged (t : τ)
  /-- The cache drops the list, as expired or for other groups. -/
  | dropped

inductive Step : Members ι τ → Label ι τ → Members ι τ → Prop
  | getAllService {s : Members ι τ} {t : τ} {needCache : Bool} :
    s.phase t = .idle → Step s (.getAllService t needCache) (s.goto t (.containsKey needCache))
  | containsKey {s : Members ι τ} {t : τ} {needCache : Bool} :
    s.phase t = .containsKey needCache →
      Step s (.containsKey t) (s.goto t (if s.mapped then .checked needCache else .put needCache))
  | put {s : Members ι τ} {t : τ} {needCache : Bool} :
    s.phase t = .put needCache →
      Step s (.put t) ({ s with mapped := true }.goto t (.addListener needCache))
  | addListener {s : Members ι τ} {t : τ} {needCache : Bool} :
    s.phase t = .addListener needCache → Step s (.addListener t) (s.goto t (.start needCache))
  | start {s : Members ι τ} {t : τ} {needCache : Bool} :
    s.phase t = .start needCache →
      Step s (.start t) ({ s with started := s.started + 1 }.goto t (.checked needCache))
  | get {s : Members ι τ} {t : τ} :
    s.phase t = .get →
      Step s (.get t) (s.goto t (if s.cached.isSome then .idle else .queryForInstances))
  | queryForInstances {s : Members ι τ} {t : τ} :
    s.phase t = .queryForInstances → Step s (.queryForInstances t) (s.goto t (.store s.members))
  | store {s : Members ι τ} {t : τ} {instances : List ι} :
    s.phase t = .store instances →
      Step s (.store t) ({ s with cached := some instances }.goto t .idle)
  | changed {s : Members ι τ} {members : List ι} :
    Step s (.changed members)
      { s with members := members, outstanding := s.outstanding + s.started }
  | cacheChanged {s : Members ι τ} {t : τ} {n : Nat} :
    s.outstanding = n + 1 → s.phase t = .idle →
      Step s (.cacheChanged t) ({ s with outstanding := n }.goto t (.containsKey false))
  | dropped {s : Members ι τ} : Step s .dropped { s with cached := none }

/-- All calls have returned, and the listeners have been notified. -/
def AtRest (s : Members ι τ) : Prop := s.outstanding = 0 ∧ ∀ t, s.phase t = .idle

/-- The list that is cached, if any, is that of the current members. -/
def CaughtUp (s : Members ι τ) : Prop := ∀ instances, s.cached = some instances → instances = s.members

end Members

/-- The call will store the current members, if they do not change before it has queried them. -/
def Phase.Promises {ι : Type} (members : List ι) : Phase ι → Prop
  | .containsKey needCache | .put needCache | .addListener needCache | .start needCache =>
    needCache = false
  | .queryForInstances => True
  | .store instances => instances = members
  | .idle | .get => False

namespace Members
variable {ι τ : Type} [DecidableEq τ]

/-- The current members will be stored: by a listener, or by a call. -/
def Awaited (s : Members ι τ) : Prop := s.outstanding ≠ 0 ∨ ∃ t, (s.phase t).Promises s.members

/-- A list is stored only while the current members will be; and so they are after a change, unless
nothing else is cached. -/
def Timely (s : Members ι τ) : Label ι τ → Prop
  | .store _ => s.Awaited
  | .changed members =>
    s.started ≠ 0 ∨ { s with members := members }.Awaited ∨ { s with members := members }.CaughtUp
  | _ => True

/-! ## Runs of timely steps -/

theorem checked_promises {members : List ι} {needCache : Bool} (h : needCache = false) :
    (Phase.checked needCache).Promises members := by
  subst h
  trivial

theorem goto_awaited {s : Members ι τ} (h : s.Awaited) {t : τ} {phase : Phase ι}
    (hphase : (s.phase t).Promises s.members → phase.Promises s.members) :
    (s.goto t phase).Awaited := by
  refine h.imp_right fun ⟨t', ht'⟩ => ⟨t', ?_⟩
  show (update s.phase t phase t').Promises s.members
  rw [Function.update_apply]
  split
  · next heq => exact hphase (heq ▸ ht')
  · exact ht'

/-- The current members are cached, or will be. -/
def Invariant (s : Members ι τ) : Prop := s.CaughtUp ∨ s.Awaited

theorem Invariant.goto {s : Members ι τ} (h : s.Invariant) {t : τ} {phase : Phase ι}
    (hphase : (s.phase t).Promises s.members → phase.Promises s.members) :
    (s.goto t phase).Invariant :=
  h.imp_right fun h => goto_awaited h hphase

theorem Invariant.step {s s' : Members ι τ} {l : Label ι τ} (h : s.Invariant) (hs : Step s l s')
    (hl : s.Timely l) : s'.Invariant := by
  cases hs with
  | getAllService hphase =>
    apply h.goto
    rw [hphase]
    exact False.elim
  | containsKey hphase =>
    apply h.goto
    rw [hphase]
    intro hpromises
    split
    · exact checked_promises hpromises
    · exact hpromises
  | put hphase =>
    refine Invariant.goto (s := { s with mapped := true }) h ?_
    rw [hphase]
    exact id
  | addListener hphase =>
    apply h.goto
    rw [hphase]
    exact id
  | start hphase =>
    refine Invariant.goto (s := { s with started := s.started + 1 }) h ?_
    rw [hphase]
    exact checked_promises
  | get hphase =>
    apply h.goto
    rw [hphase]
    exact False.elim
  | queryForInstances hphase => exact h.goto fun _ => rfl
  | @store t instances hphase =>
    by_cases hcurrent : instances = s.members
    · left
      rintro _ ⟨⟩
      exact hcurrent
    · right
      refine goto_awaited (s := { s with cached := some instances }) hl ?_
      rw [hphase]
      exact fun heq => absurd heq hcurrent
  | changed =>
    rcases hl with hstarted | hawaited | hcaughtUp
    · exact .inr (.inl (by simp only; omega))
    · exact .inr (hawaited.imp_left fun hne => by simp only at hne ⊢; omega)
    · exact .inl hcaughtUp
  | @cacheChanged t n houtstanding hphase =>
    refine .inr (.inr ⟨t, ?_⟩)
    show (update s.phase t _ t).Promises _
    rw [Function.update_self]
    rfl
  | dropped => exact .inl fun _ hnone => by cases hnone

omit [DecidableEq τ] in
theorem Invariant.caughtUp {s : Members ι τ} (h : s.Invariant) (hrest : s.AtRest) : s.CaughtUp := by
  refine h.resolve_right ?_
  rintro (hne | ⟨t, ht⟩)
  · exact hne hrest.1
  · rw [hrest.2 t] at ht
    exact ht

/-- **The cached list catches up**, whatever the threads do in timely steps. -/
theorem caughtUp_of_timely {members : List ι} {ls : List (Label ι τ)} {s : Members ι τ}
    (h : Run (fun s l s' => Step s l s' ∧ s.Timely l) (init members) ls s) (hrest : s.AtRest) :
    s.CaughtUp := by
  have hinv : s.Invariant := h.invariant (I := Invariant) (.inl fun _ hnone => by cases hnone)
    fun _ _ _ hi hs => hi.step hs.1 hs.2
  exact hinv.caughtUp hrest

/-- A thread finds no list, installs the listener and stores the members; then one joins, and the
listener stores them again. -/
theorem caughtUp_joined : ∃ (ls : List (Label Nat Unit)) (s : Members Nat Unit),
    Run (fun s l s' => Step s l s' ∧ s.Timely l) (init [1]) ls s ∧ s.AtRest ∧
      s.cached = some [1, 2] ∧ s.CaughtUp := by
  let step (s : Members Nat Unit) (l : Label Nat Unit) (s' : Members Nat Unit) : Prop :=
    Step s l s' ∧ s.Timely l
  have h₁ : Run step (init [1]) [.getAllService () true] _ :=
    Run.nil.snoc ⟨.getAllService rfl, trivial⟩
  have h₂ := h₁.snoc ⟨.containsKey (t := ()) rfl, trivial⟩
  have h₃ := h₂.snoc ⟨.put (t := ()) rfl, trivial⟩
  have h₄ := h₃.snoc ⟨.addListener (t := ()) rfl, trivial⟩
  have h₅ := h₄.snoc ⟨.start (t := ()) rfl, trivial⟩
  have h₆ := h₅.snoc ⟨.get (t := ()) rfl, trivial⟩
  have h₇ := h₆.snoc ⟨.queryForInstances (t := ()) rfl, trivial⟩
  have h₈ := h₇.snoc ⟨.store (t := ()) rfl, .inr ⟨(), rfl⟩⟩
  have h₉ : Run step (init [1]) (_ ++ [Label.changed [1, 2]]) _ :=
    h₈.snoc ⟨.changed, .inl Nat.one_ne_zero⟩
  have h₁₀ := h₉.snoc ⟨.cacheChanged (t := ()) rfl rfl, trivial⟩
  have h₁₁ := h₁₀.snoc ⟨.containsKey (t := ()) rfl, trivial⟩
  have h₁₂ := h₁₁.snoc ⟨.queryForInstances (t := ()) rfl, trivial⟩
  have h₁₃ := h₁₂.snoc ⟨.store (t := ()) rfl, .inr ⟨(), rfl⟩⟩
  exact ⟨_, _, h₁₃, ⟨rfl, fun _ => rfl⟩, rfl, caughtUp_of_timely h₁₃ ⟨rfl, fun _ => rfl⟩⟩

/-- A member joins after a thread has queried, and the listener stores the new list before that thread
stores the old one. -/
theorem stale_after_notification : ¬ ∀ (members : List Nat) (ls : List (Label Nat Bool))
    (s : Members Nat Bool), Run Step (init members) ls s → s.AtRest → s.CaughtUp := by
  intro h
  have h₁ : Run Step (init [1]) [.getAllService false true] _ := Run.nil.snoc (.getAllService rfl)
  have h₂ := h₁.snoc (.containsKey (t := false) rfl)
  have h₃ := h₂.snoc (.put (t := false) rfl)
  have h₄ := h₃.snoc (.addListener (t := false) rfl)
  have h₅ := h₄.snoc (.start (t := false) rfl)
  have h₆ := h₅.snoc (.get (t := false) rfl)
  have h₇ := h₆.snoc (.queryForInstances (t := false) rfl)
  have h₈ : Run Step (init [1]) (_ ++ [Label.changed [1, 2]]) _ := h₇.snoc .changed
  have h₉ := h₈.snoc (.cacheChanged (t := true) rfl rfl)
  have h₁₀ := h₉.snoc (.containsKey (t := true) rfl)
  have h₁₁ := h₁₀.snoc (.queryForInstances (t := true) rfl)
  have h₁₂ := h₁₁.snoc (.store (t := true) rfl)
  have h₁₃ := h₁₂.snoc (.store (t := false) rfl)
  have hcaughtUp := h _ _ _ h₁₃ ⟨rfl, fun t => by cases t <;> rfl⟩ [1] rfl
  cases hcaughtUp

/-! ## Other steps -/

/-- A bound on the steps to a thread's return, when it finds a list in the cache. -/
def left {ι : Type} : Phase ι → Nat
  | .idle => 0
  | .get | .store _ => 1
  | .queryForInstances => 2
  | .start _ => 3
  | .addListener _ => 4
  | .put _ => 5
  | .containsKey _ => 6

/-- A stale list is cached, and nothing is going to replace it by the current members. -/
theorem stale_step {s : Members ι τ} (h : ¬ s.Invariant) {t : τ} (ht : s.phase t ≠ .idle) :
    ∃ (l : Label ι τ) (s' : Members ι τ) (phase : Phase ι), Step s l s' ∧ ¬ s'.Invariant ∧
      s'.phase = update s.phase t phase ∧ left phase < left (s.phase t) := by
  have hpromises : ¬ (s.phase t).Promises s.members := fun hp => h (.inr (.inr ⟨t, hp⟩))
  have hgoto (mapped : Bool) (started : Nat) {phase : Phase ι} (hphase : ¬ phase.Promises s.members) :
      ¬ ({ s with mapped := mapped, started := started }.goto t phase).Invariant := by
    rintro (hcaughtUp | hne | ⟨t', ht'⟩)
    · exact h (.inl hcaughtUp)
    · exact h (.inr (.inl hne))
    · have ht' : (update s.phase t phase t').Promises s.members := ht'
      rw [Function.update_apply] at ht'
      split at ht'
      · exact hphase ht'
      · exact h (.inr (.inr ⟨t', ht'⟩))
  cases hp : s.phase t with
  | idle => exact absurd hp ht
  | containsKey needCache =>
    rw [hp] at hpromises
    refine ⟨_, _, _, .containsKey hp, hgoto s.mapped s.started ?_, rfl, ?_⟩
    · cases needCache
      · exact absurd rfl hpromises
      · cases s.mapped <;> simp [Phase.Promises, Phase.checked]
    · cases needCache <;> cases s.mapped <;> simp [left, Phase.checked]
  | put needCache =>
    rw [hp] at hpromises
    exact ⟨_, _, _, .put hp, hgoto true s.started hpromises, rfl, by simp [left]⟩
  | addListener needCache =>
    rw [hp] at hpromises
    exact ⟨_, _, _, .addListener hp, hgoto s.mapped s.started hpromises, rfl, by simp [left]⟩
  | start needCache =>
    rw [hp] at hpromises
    refine ⟨_, _, _, .start hp, hgoto s.mapped _ ?_, rfl, ?_⟩
    · cases needCache
      · exact absurd rfl hpromises
      · exact id
    · cases needCache <;> simp [left, Phase.checked]
  | get =>
    have hsome : s.cached.isSome := by
      by_contra hnone
      rw [Option.not_isSome_iff_eq_none] at hnone
      exact h (.inl fun _ hcached => by rw [hnone] at hcached; cases hcached)
    refine ⟨_, _, .idle, .get hp, ?_, ?_, by simp [left]⟩
    · rw [if_pos hsome]
      exact hgoto s.mapped s.started id
    · rw [if_pos hsome]
      rfl
  | queryForInstances =>
    rw [hp] at hpromises
    exact absurd trivial hpromises
  | store instances =>
    rw [hp] at hpromises
    refine ⟨_, _, _, .store hp, ?_, rfl, by simp [left]⟩
    have hwaits := @hgoto s.mapped s.started .idle id
    rintro (hcaughtUp | hawaited)
    · exact hpromises (hcaughtUp instances rfl)
    · exact hwaits (.inr hawaited)

/-- With nothing to replace a stale list, it is what is left when all threads have returned. -/
theorem exists_stale [Fintype τ] {s : Members ι τ} (h : ¬ s.Invariant) :
    ∃ (ls : List (Label ι τ)) (s' : Members ι τ), Run Step s ls s' ∧ s'.AtRest ∧ ¬ s'.CaughtUp := by
  generalize hn : ∑ t, left (s.phase t) = n
  induction n using Nat.strong_induction_on generalizing s with
  | _ n ih =>
    by_cases hidle : ∀ t, s.phase t = .idle
    · have houtstanding : s.outstanding = 0 := by
        by_contra hne
        exact h (.inr (.inl hne))
      exact ⟨[], s, .nil, ⟨houtstanding, hidle⟩, fun hcaughtUp => h (.inl hcaughtUp)⟩
    · obtain ⟨t, ht⟩ := not_forall.1 hidle
      obtain ⟨l, s₁, phase, hs, h₁, hphase, hlt⟩ := stale_step h ht
      have hsum : ∑ t, left (s₁.phase t) < n := by
        rw [← hn]
        apply Finset.sum_lt_sum
        · intro t' _
          rw [hphase, Function.update_apply]
          split
          · next heq => exact heq ▸ hlt.le
          · exact le_rfl
        · refine ⟨t, Finset.mem_univ t, ?_⟩
          rw [hphase, Function.update_self]
          exact hlt
      obtain ⟨ls, s', hrun, hrest, hstale⟩ := ih _ hsum h₁ rfl
      exact ⟨_, s', (Run.single hs).append hrun, hrest, hstale⟩

/-- A step that is not timely leaves such a state. -/
theorem not_invariant_of_late {s s' : Members ι τ} {l : Label ι τ} (hs : Step s l s')
    (hl : ¬ s.Timely l) : ¬ s'.Invariant := by
  cases hs with
  | @store t instances hphase =>
    have hawaited : ¬ s.Awaited := hl
    rintro (hcaughtUp | hne | ⟨t', ht'⟩)
    · have heq : instances = s.members := hcaughtUp instances rfl
      exact hawaited (.inr ⟨t, by rw [hphase]; exact heq⟩)
    · exact hawaited (.inl hne)
    · have ht' : (update s.phase t .idle t').Promises s.members := ht'
      rw [Function.update_apply] at ht'
      split at ht'
      · exact ht'
      · exact hawaited (.inr ⟨t', ht'⟩)
  | changed =>
    simp only [Timely, not_or, not_not] at hl
    obtain ⟨hstarted, hawaited, hcaughtUp⟩ := hl
    rintro (hcached | hne | hexists)
    · exact hcaughtUp hcached
    · refine hawaited (.inl ?_)
      simp only [hstarted, Nat.add_zero] at hne
      exact hne
    · exact hawaited (.inr hexists)
  | _ => exact absurd trivial hl

end Members

end BaseService.Schedule
