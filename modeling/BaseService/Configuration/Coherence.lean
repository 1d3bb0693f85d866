import BaseService.Configuration.SmcConfiguration
import BaseService.Data.Runs

/-!
# The cached properties

`properties()` keeps the map that it has built, until a listener or `remove` clears it. Only
`setProperty` adds listeners. None of the methods is synchronized.

* `Process`, `Process.Step` : the threads of the process, each access to `allProperties` a step, and the
  update events;
* `Coherent` : while no event is outstanding, `properties()` returns what a fresh rebuild gives;
* `Undisturbed` : no update without a listener meets a cached map, and no step of another thread that
  matters comes between those of `properties()`;
* `coherent` : runs of such steps.
-/

namespace BaseService.Configuration
open Function (update)

/-- What a thread is about to do. -/
inductive Phase
  | idle
  /-- `properties()` has found a map. -/
  | cached
  /-- It has found none. -/
  | build
  | getCurrentData
  | loop (data : Data) (keys : List String)
  /-- `setProperty` has added its listener. -/
  | create (key value : String)
  | setData (key value : String)
  /-- `remove` has deleted the node. -/
  | clear

/-- In `properties()`. -/
def Phase.Inside : Phase → Prop
  | .cached | .build | .getCurrentData | .loop _ _ => True
  | _ => False

/-- The threads `τ` of the process. -/
structure Process (τ : Type) where
  /-- What `zkConfigSource.getCurrentData()` returns. -/
  data : Data
  /-- The changes in `ZooKeeper` whose events have not been delivered. -/
  events : List (String × Option String)
  listeners : Nat
  /-- The listeners that the event being delivered has still to run. -/
  running : Nat
  /-- The maps that have been made, and the one that is cached. -/
  maps : List Properties
  allProperties : Option Nat
  phase : τ → Phase

namespace Process
variable {τ : Type} [DecidableEq τ]

def start (data : Data) : Process τ := ⟨data, [], 0, 0, [], none, fun _ => .idle⟩

/-- No event is outstanding. -/
def AtRest (s : Process τ) : Prop := s.events = [] ∧ s.running = 0

/-- The content of the cached map. -/
def view (s : Process τ) : Option Properties := s.allProperties.bind (s.maps[·]?)

def goto (s : Process τ) (t : τ) (phase : Phase) : Process τ :=
  { s with phase := update s.phase t phase }

def changed (s : Process τ) (key : String) (value : Option String) : Process τ :=
  { s with events := s.events ++ [(key, value)] }

inductive Label (τ : Type)
  | properties (t : τ)
  | newTreeMap (t : τ)
  | getCurrentData (t : τ)
  | put (t : τ)
  /-- What `properties()` returns. -/
  | returned (t : τ) (m : Option Properties)
  /-- It throws a `SmcConfigurationException`. -/
  | thrown (t : τ)
  | setProperty (t : τ) (key value : String)
  | created (t : τ)
  | nodeExists (t : τ)
  | stored (t : τ)
  | failed (t : τ)
  | remove (t : τ) (key : String)
  | cleared (t : τ)
  /-- A change by another process. -/
  | changed (key : String) (value : Option String)
  | delivered
  | updateConfiguration

inductive Step : Process τ → Label τ → Process τ → Prop
  | properties {s : Process τ} {t : τ} :
    s.phase t = .idle →
      Step s (.properties t) (s.goto t (if s.allProperties = none then .build else .cached))
  | newTreeMap {s : Process τ} {t : τ} :
    s.phase t = .build →
      Step s (.newTreeMap t)
        ({ s with maps := s.maps ++ [Properties.empty], allProperties := some s.maps.length }.goto t
          .getCurrentData)
  | getCurrentData {s : Process τ} {t : τ} {keys : List String} :
    s.phase t = .getCurrentData → Enumerates keys s.data →
      Step s (.getCurrentData t) (s.goto t (.loop s.data keys))
  | unavailable {s : Process τ} {t : τ} :
    s.phase t = .getCurrentData → Step s (.thrown t) (s.goto t .idle)
  | put {s : Process τ} {t : τ} {data : Data} {key : String} {keys : List String} {r : Nat} :
    s.phase t = .loop data (key :: keys) → s.allProperties = some r →
      Step s (.put t)
        ({ s with maps := s.maps.modify r (putAll data [key]) }.goto t (.loop data keys))
  | nullPointer {s : Process τ} {t : τ} {data : Data} {key : String} {keys : List String} :
    s.phase t = .loop data (key :: keys) → s.allProperties = none →
      Step s (.thrown t) (s.goto t .idle)
  | built {s : Process τ} {t : τ} {data : Data} :
    s.phase t = .loop data [] → Step s (.returned t s.view) (s.goto t .idle)
  | cached {s : Process τ} {t : τ} :
    s.phase t = .cached → Step s (.returned t s.view) (s.goto t .idle)
  | setProperty {s : Process τ} {t : τ} {key value : String} :
    s.phase t = .idle →
      Step s (.setProperty t key value)
        ({ s with listeners := s.listeners + 1 }.goto t (.create key value))
  | created {s : Process τ} {t : τ} {key value : String} :
    s.phase t = .create key value →
      Step s (.created t) ((s.changed key (some value)).goto t .idle)
  | nodeExists {s : Process τ} {t : τ} {key value : String} :
    s.phase t = .create key value → Step s (.nodeExists t) (s.goto t (.setData key value))
  | stored {s : Process τ} {t : τ} {key value : String} :
    s.phase t = .setData key value →
      Step s (.stored t) ((s.changed key (some value)).goto t .idle)
  | failed {s : Process τ} {t : τ} {key value : String} :
    s.phase t = .create key value ∨ s.phase t = .setData key value →
      Step s (.failed t) (s.goto t .idle)
  | remove {s : Process τ} {t : τ} {key : String} :
    s.phase t = .idle → Step s (.remove t key) ((s.changed key none).goto t .clear)
  | cleared {s : Process τ} {t : τ} :
    s.phase t = .clear → Step s (.cleared t) ({ s with allProperties := none }.goto t .idle)
  | changed {s : Process τ} {key : String} {value : Option String} :
    Step s (.changed key value) (s.changed key value)
  | delivered {s : Process τ} {key : String} {value : Option String}
    {events : List (String × Option String)} :
    s.events = (key, value) :: events → s.running = 0 →
      Step s .delivered
        { s with data := update s.data key value, events := events, running := s.listeners }
  | updateConfiguration {s : Process τ} {n : Nat} :
    s.running = n + 1 →
      Step s .updateConfiguration { s with running := n, allProperties := none }

/-- While no event is outstanding, `properties()` returns the map that a rebuild from the current
data gives, in any order of its keys; it does not throw. -/
def Coherent (s : Process τ) : Label τ → Prop
  | .returned _ m => s.AtRest → ∀ keys, Enumerates keys s.data → m = some (rebuild s.data keys)
  | .thrown _ => ¬ s.AtRest
  | _ => True

/-- No thread is in `properties()`. -/
def Quiet (s : Process τ) : Prop := ∀ t, ¬ (s.phase t).Inside

/-- An event is delivered when a listener is there, or no map; `properties()` does not meet an
exception of `getCurrentData()`, and another call of it, a clearing of the map or an event does not
come between its steps. -/
def Undisturbed (s : Process τ) : Label τ → Prop
  | .properties _ | .cleared _ | .updateConfiguration => s.Quiet
  | .delivered => s.Quiet ∧ (s.listeners ≠ 0 ∨ s.allProperties = none)
  | .thrown t => s.phase t ≠ .getCurrentData
  | _ => True

/-! ## The invariant -/

/-- With no map being built, the cached one is that of the current data, or about to be cleared. -/
def Fresh (s : Process τ) : Prop :=
  s.running ≠ 0 ∨ s.allProperties = none ∨ s.view = some (nest s.data)

/-- How far the map is when a thread is in `properties()`. -/
def Built (s : Process τ) : Phase → Prop
  | .cached => s.running ≠ 0 ∨ s.view = some (nest s.data)
  | .getCurrentData => s.view = some (nest fun _ => none)
  | .loop data keys => data = s.data ∧ ∃ m, s.view = some m ∧ putAll data keys m = nest s.data
  | _ => True

structure Invariant (s : Process τ) : Prop where
  alone : ∀ t t', (s.phase t).Inside → (s.phase t').Inside → t = t'
  fresh : s.Quiet → s.Fresh
  built : ∀ t, s.Built (s.phase t)

omit [DecidableEq τ] in
theorem built_outside (s : Process τ) {phase : Phase} (h : ¬ phase.Inside) : s.Built phase := by
  cases phase with
  | cached | getCurrentData | loop => exact absurd trivial h
  | _ => trivial

namespace Invariant
variable {s s' : Process τ}

omit [DecidableEq τ] in
theorem of_quiet (hquiet : s.Quiet) (h : s.Fresh) : Invariant s :=
  ⟨fun t _ ht => absurd ht (hquiet t), fun _ => h, fun t => s.built_outside (hquiet t)⟩

/-- A step of a thread that is in `properties()`, as no other. -/
theorem of_own {t : τ} (hothers : ∀ t', t' ≠ t → ¬ (s.phase t').Inside) {phase : Phase}
    (hbuilt : (s.goto t phase).Built phase) (hfresh : ¬ phase.Inside → (s.goto t phase).Fresh) :
    Invariant (s.goto t phase) := by
  have hphase (t' : τ) : t' = t ∧ (s.goto t phase).phase t' = phase ∨
      t' ≠ t ∧ ¬ ((s.goto t phase).phase t').Inside := by
    simp only [goto, Function.update_apply]
    by_cases ht : t' = t
    · exact .inl ⟨ht, if_pos ht⟩
    · rw [if_neg ht]
      exact .inr ⟨ht, hothers t' ht⟩
  refine ⟨fun t₁ t₂ h₁ h₂ => ?_, fun hquiet => hfresh ?_, fun t' => ?_⟩
  · rcases hphase t₁ with ⟨ht₁, -⟩ | ⟨-, hnot⟩
    · rcases hphase t₂ with ⟨ht₂, -⟩ | ⟨-, hnot⟩
      · rw [ht₁, ht₂]
      · exact absurd h₂ hnot
    · exact absurd h₁ hnot
  · have hself : ¬ (update s.phase t phase t).Inside := hquiet t
    rwa [Function.update_self] at hself
  · rcases hphase t' with ⟨-, ht'⟩ | ⟨-, hnot⟩
    · rw [ht']
      exact hbuilt
    · exact built_outside _ hnot

/-- A step of a thread that is not in `properties()`, or of another process. -/
theorem of_other (h : Invariant s) {t : τ} (ht : ¬ (s.phase t).Inside) {phase : Phase}
    (hphase : ¬ phase.Inside) (events : List (String × Option String)) (listeners : Nat) :
    Invariant ({ s with events := events, listeners := listeners }.goto t phase) := by
  have hinside (t' : τ) (hin : (update s.phase t phase t').Inside) :
      (s.phase t').Inside ∧ update s.phase t phase t' = s.phase t' := by
    rw [Function.update_apply] at hin ⊢
    split at hin
    · exact absurd hin hphase
    · next hne => exact ⟨hin, if_neg hne⟩
  refine ⟨fun t₁ t₂ h₁ h₂ => h.alone t₁ t₂ (hinside t₁ h₁).1 (hinside t₂ h₂).1, fun hquiet => ?_,
    fun t' => ?_⟩
  · refine h.fresh fun t' hin => ?_
    by_cases heq : t' = t
    · exact ht (heq ▸ hin)
    · refine hquiet t' ?_
      show (update s.phase t phase t').Inside
      rwa [Function.update_of_ne heq]
  · by_cases hin : (update s.phase t phase t').Inside
    · have hbuilt := h.built t'
      rw [← (hinside t' hin).2] at hbuilt
      exact hbuilt
    · exact built_outside _ hin

omit [DecidableEq τ] in
theorem start (data : Data) : Invariant (start data : Process τ) :=
  of_quiet (fun _ => id) (.inr (.inl rfl))

omit [DecidableEq τ] in
theorem others (h : Invariant s) {t : τ} (ht : (s.phase t).Inside) (t' : τ) (hne : t' ≠ t) :
    ¬ (s.phase t').Inside := fun ht' => hne (h.alone t' t ht' ht)

theorem quiet_goto (h : s.Quiet) (t : τ) {phase : Phase} (hphase : ¬ phase.Inside) :
    (s.goto t phase).Quiet := by
  intro t' hin
  have hin' : (update s.phase t phase t').Inside := hin
  rw [Function.update_apply] at hin'
  split at hin'
  · exact hphase hin'
  · exact h t' hin'

omit [DecidableEq τ] in
theorem built_of (h : Invariant s) {t : τ} {phase : Phase} (hphase : s.phase t = phase) :
    s.Built phase := hphase ▸ h.built t

theorem step {l : Label τ} (h : Invariant s) (hs : Step s l s') (hl : s.Undisturbed l) :
    Invariant s' := by
  cases hs with
  | @properties t hphase =>
    have hfresh := h.fresh hl
    refine of_own (fun t' _ => hl t') ?_ ?_
    · split
      · trivial
      · next hne => exact hfresh.imp_right fun h => h.resolve_left hne
    · intro hnot
      split at hnot <;> exact absurd trivial hnot
  | @newTreeMap t hphase =>
    have ht : (s.phase t).Inside := by rw [hphase]; trivial
    refine of_own (s := { s with maps := s.maps ++ [Properties.empty], allProperties := some s.maps.length })
      (h.others ht) ?_ (absurd trivial)
    exact List.getElem?_concat_length.trans (congrArg some nest_empty.symm)
  | @getCurrentData t keys hphase hkeys =>
    have ht : (s.phase t).Inside := by rw [hphase]; trivial
    refine of_own (h.others ht) ⟨rfl, _, h.built_of hphase, ?_⟩ (absurd trivial)
    rw [nest_empty]
    exact rebuild_eq hkeys
  | unavailable hphase => exact absurd hphase hl
  | @put t data key keys r hphase hr =>
    have ht : (s.phase t).Inside := by rw [hphase]; trivial
    obtain ⟨hdata, m, hview, hrest⟩ := h.built_of hphase
    refine of_own (s := { s with maps := s.maps.modify r (putAll data [key]) }) (h.others ht)
      ⟨hdata, putAll data [key] m, ?_, hrest⟩ (absurd trivial)
    have hmap : s.maps[r]? = some m := by
      rw [view, hr] at hview
      exact hview
    show (s.allProperties.bind ((s.maps.modify r (putAll data [key]))[·]?)) = _
    rw [hr, Option.bind_some, List.getElem?_modify_eq, hmap]
    rfl
  | @nullPointer t data key keys hphase hnone =>
    obtain ⟨-, m, hview, -⟩ := h.built_of hphase
    rw [view, hnone] at hview
    cases hview
  | @built t data hphase =>
    have ht : (s.phase t).Inside := by rw [hphase]; trivial
    obtain ⟨-, m, hview, rfl⟩ := h.built_of hphase
    exact of_own (h.others ht) trivial fun _ => .inr (.inr hview)
  | @cached t hphase =>
    have ht : (s.phase t).Inside := by rw [hphase]; trivial
    have hbuilt : s.running ≠ 0 ∨ s.view = some (nest s.data) := h.built_of hphase
    exact of_own (h.others ht) trivial fun _ => hbuilt.imp_right .inr
  | setProperty hphase => exact h.of_other (by rw [hphase]; exact id) id s.events _
  | created hphase => exact h.of_other (by rw [hphase]; exact id) id _ s.listeners
  | nodeExists hphase => exact h.of_other (by rw [hphase]; exact id) id s.events s.listeners
  | stored hphase => exact h.of_other (by rw [hphase]; exact id) id _ s.listeners
  | failed hphase =>
    refine h.of_other ?_ id s.events s.listeners
    rcases hphase with hphase | hphase <;> (rw [hphase]; exact id)
  | remove hphase => exact h.of_other (by rw [hphase]; exact id) id _ s.listeners
  | @cleared t hphase =>
    exact of_quiet (quiet_goto (s := { s with allProperties := none }) hl t id) (.inr (.inl rfl))
  | changed => exact ⟨h.alone, h.fresh, h.built⟩
  | delivered hevents hrunning => exact of_quiet hl.1 (hl.2.imp_right .inl)
  | updateConfiguration hrunning => exact of_quiet hl (.inr (.inl rfl))

end Invariant

/-! ## Runs -/

theorem step_coherent {s s' : Process τ} {l : Label τ} (h : Invariant s) (hs : Step s l s')
    (hl : s.Undisturbed l) : s.Coherent l := by
  cases hs with
  | built hphase =>
    obtain ⟨rfl, m, hview, hrest⟩ := h.built_of hphase
    rintro - keys hkeys
    rw [hview, rebuild_eq hkeys, ← hrest]
    rfl
  | cached hphase =>
    have hbuilt : s.running ≠ 0 ∨ s.view = some (nest s.data) := h.built_of hphase
    rintro ⟨-, hrunning⟩ keys hkeys
    rw [hbuilt.resolve_left fun hne => hne hrunning, rebuild_eq hkeys]
  | unavailable hphase => exact absurd hphase hl
  | nullPointer hphase hnone =>
    obtain ⟨-, m, hview, -⟩ := h.built_of hphase
    rw [view, hnone] at hview
    cases hview
  | _ => trivial

/-- **Every call of `properties()` in such a run.** -/
theorem coherent {data : Data} {ls : List (Label τ)} {s s' : Process τ} {l : Label τ}
    (h : Run (fun s l s' => Step s l s' ∧ s.Undisturbed l) (start data) ls s) (hs : Step s l s')
    (hl : s.Undisturbed l) : s.Coherent l :=
  step_coherent (h.invariant (I := Invariant) (Invariant.start data) fun _ _ _ hi hs =>
    hi.step hs.1 hs.2) hs hl

theorem enumerates_single {key value : String} :
    Enumerates [key] (update (fun _ => none) key (some value)) := by
  intro key'
  rw [List.mem_singleton, Function.update_apply]
  split
  · next h => simp [h]
  · next h => simp [h]

/-- A property is set, its event delivered, and the map built. -/
theorem coherent_set : ∃ (ls : List (Label Unit)) (s s' : Process Unit) (m : Option Properties),
    Run (fun s l s' => Step s l s' ∧ s.Undisturbed l) (start fun _ => none) ls s ∧
      Step s (.returned () m) s' ∧ s.AtRest ∧ s.Coherent (.returned () m) := by
  let step (s : Process Unit) (l : Label Unit) (s' : Process Unit) : Prop :=
    Step s l s' ∧ s.Undisturbed l
  have hquiet {s : Process Unit} (h : s.phase () = .idle) : s.Quiet := fun t hin => by
    rw [show s.phase t = .idle from h] at hin
    exact hin
  have h₁ : Run step (start fun _ => none) [.setProperty () "a" "1"] _ :=
    Run.nil.snoc ⟨.setProperty rfl, trivial⟩
  have h₂ := h₁.snoc ⟨.created (t := ()) rfl, trivial⟩
  have h₃ := h₂.snoc ⟨.delivered rfl rfl, hquiet rfl, .inl Nat.one_ne_zero⟩
  have h₄ := h₃.snoc ⟨.updateConfiguration rfl, hquiet rfl⟩
  have h₅ := h₄.snoc ⟨.properties (t := ()) rfl, hquiet rfl⟩
  have h₆ := h₅.snoc ⟨.newTreeMap (t := ()) rfl, trivial⟩
  have h₇ : Run step (start fun _ => none) (_ ++ [Label.getCurrentData ()]) _ :=
    h₆.snoc ⟨.getCurrentData (t := ()) rfl enumerates_single, trivial⟩
  have h₈ := h₇.snoc ⟨.put (t := ()) rfl rfl, trivial⟩
  exact ⟨_, _, _, _, h₈, .built (t := ()) rfl, ⟨rfl, rfl⟩,
    coherent h₈ (.built (t := ()) rfl) trivial⟩

/-- No listener: the map is built, a key is changed elsewhere, and the map is returned again. -/
theorem stale_without_listener : ¬ ∀ (data : Data) (ls : List (Label Unit)) (s s' : Process Unit)
    (l : Label Unit), Run Step (start data) ls s → Step s l s' → s.Coherent l := by
  intro h
  have h₁ : Run Step (start fun _ => none) [.properties ()] _ := Run.nil.snoc (.properties rfl)
  have h₂ := h₁.snoc (.newTreeMap (t := ()) rfl)
  have h₃ : Run Step (start fun _ => none) (_ ++ [Label.getCurrentData ()]) _ :=
    h₂.snoc (@Step.getCurrentData _ _ _ () [] rfl (by simp [Enumerates, start, goto]))
  have h₄ := h₃.snoc (.built (t := ()) rfl)
  have h₅ : Run Step (start fun _ => none) (_ ++ [Label.changed "a" (some "1")]) _ := h₄.snoc .changed
  have h₆ := h₅.snoc (.delivered rfl rfl)
  have h₇ := h₆.snoc (.properties (t := ()) rfl)
  have hstale : some Properties.empty = some (rebuild (update (fun _ => none) "a" (some "1")) ["a"]) :=
    h _ _ _ _ _ h₇ (.cached (t := ()) rfl) ⟨rfl, rfl⟩ ["a"] enumerates_single
  have hput : rebuild (update (fun _ => none) "a" (some "1")) ["a"] = Properties.empty.put "a" "1" := by
    simp [rebuild, putAll]
  have hstart := congrFun (Option.some.inj hstale) (getPrefix "a")
  rw [hput, put_eq, Function.update_self] at hstart
  cases hstart

end Process

end BaseService.Configuration
