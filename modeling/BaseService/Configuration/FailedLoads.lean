import BaseService.Configuration.Coherence
import BaseService.Configuration.Grouping

/-!
# Loads of the properties that fail

`properties()` assigns the new map to `allProperties` before it asks for the data, and
`getPropertiesBySubPrefix` assigns what `properties()` returns. Nothing takes a map back.

* `Loads`, `Loads.Step` : the threads in both methods, each access to `allProperties` a step;
* `Complete` : `properties()` returns the grouping of data that was loaded;
* `Alone` : a call comes after no failed load, and while no other thread loads;
* `complete_of_alone` : runs of such calls.
-/

namespace BaseService.Configuration
open Function (update)

/-- In a load: `properties()` has found no map and is not done with its own. -/
def Phase.Loading : Phase → Prop
  | .build | .getCurrentData | .loop _ _ => True
  | _ => False

/-- Where a thread is in `getPropertiesBySubPrefix`. -/
inductive Lookup
  | outside
  | properties (subPrefix : String)
  /-- `properties()` has returned this map. -/
  | assign (subPrefix : String) (allProperties : Option Nat)
  | get (subPrefix : String)

structure Loads (τ : Type) where
  process : Process τ
  lookup : τ → Lookup
  /-- What `getCurrentData()` has returned so far. -/
  loaded : List Data
  /-- It has thrown. -/
  failed : Bool

namespace Loads
variable {τ : Type} [DecidableEq τ]

def start (data : Data) : Loads τ := ⟨.start data, fun _ => .outside, [], false⟩

inductive Label (τ : Type)
  /-- A step of `properties()`. -/
  | own (l : Process.Label τ)
  | getPropertiesBySubPrefix (t : τ) (subPrefix : String)
  | assign (t : τ)
  /-- What `getPropertiesBySubPrefix` returns. -/
  | got (t : τ) (entries : Option Data)
  | changed (data : Data)

inductive Step : Loads τ → Label τ → Loads τ → Prop
  | properties {s : Loads τ} {t : τ} {process : Process τ} :
    s.lookup t = .outside → Process.Step s.process (.properties t) process →
      Step s (.own (.properties t)) { s with process := process }
  | getPropertiesBySubPrefix {s : Loads τ} {t : τ} {subPrefix : String} {process : Process τ} :
    s.lookup t = .outside → Process.Step s.process (.properties t) process →
      Step s (.getPropertiesBySubPrefix t subPrefix)
        { s with process := process, lookup := update s.lookup t (.properties subPrefix) }
  | newTreeMap {s : Loads τ} {t : τ} {process : Process τ} :
    Process.Step s.process (.newTreeMap t) process →
      Step s (.own (.newTreeMap t)) { s with process := process }
  | getCurrentData {s : Loads τ} {t : τ} {process : Process τ} :
    Process.Step s.process (.getCurrentData t) process →
      Step s (.own (.getCurrentData t))
        { s with process := process, loaded := s.loaded ++ [s.process.data] }
  | put {s : Loads τ} {t : τ} {process : Process τ} :
    Process.Step s.process (.put t) process → Step s (.own (.put t)) { s with process := process }
  | returned {s : Loads τ} {t : τ} {m : Option Properties} {process : Process τ} :
    s.lookup t = .outside → Process.Step s.process (.returned t m) process →
      Step s (.own (.returned t m)) { s with process := process }
  | inner {s : Loads τ} {t : τ} {subPrefix : String} {m : Option Properties} {process : Process τ} :
    s.lookup t = .properties subPrefix → Process.Step s.process (.returned t m) process →
      Step s (.own (.returned t m))
        { s with
          process := process
          lookup := update s.lookup t (.assign subPrefix s.process.allProperties) }
  | thrown {s : Loads τ} {t : τ} {process : Process τ} :
    Process.Step s.process (.thrown t) process →
      Step s (.own (.thrown t))
        { s with process := process, lookup := update s.lookup t .outside, failed := true }
  | assign {s : Loads τ} {t : τ} {subPrefix : String} {allProperties : Option Nat} :
    s.lookup t = .assign subPrefix allProperties →
      Step s (.assign t)
        { s with
          process := { s.process with allProperties := allProperties }
          lookup := update s.lookup t (.get subPrefix) }
  | got {s : Loads τ} {t : τ} {subPrefix : String} :
    s.lookup t = .get subPrefix →
      Step s (.got t (s.process.view.bind (getPropertiesBySubPrefix · subPrefix)))
        { s with lookup := update s.lookup t .outside }
  | changed {s : Loads τ} {data : Data} :
    Step s (.changed data) { s with process := { s.process with data := data } }

/-- `properties()` returns the complete grouping of data that some `getCurrentData()` returned. -/
def Complete (s : Loads τ) : Label τ → Prop
  | .own (.returned _ m) => ∃ data ∈ s.loaded, ∃ m', m = some m' ∧ Grouped data m'
  | _ => True

/-- A call of `properties()` comes after no failed load, and while no thread loads. -/
def Alone (s : Loads τ) : Label τ → Prop
  | .own (.properties _) | .getPropertiesBySubPrefix _ _ =>
    s.failed = false ∧ ∀ t, ¬ (s.process.phase t).Loading
  | _ => True

/-! ## The invariant -/

/-- The thread is in neither method. -/
def Idle (s : Loads τ) (t : τ) : Prop := s.process.phase t = .idle ∧ s.lookup t = .outside

/-- How far the only load is. -/
def Progress (s : Loads τ) : Phase → Prop
  | .build => s.process.allProperties = none
  | .getCurrentData => s.process.view = some (nest fun _ => none)
  | .loop data keys =>
    data ∈ s.loaded ∧ ∃ m, s.process.view = some m ∧ putAll data keys m = nest data
  | _ => False

/-- A load is complete, and its map is the only one that a thread knows. -/
structure Loaded (s : Loads τ) : Prop where
  view : ∃ data ∈ s.loaded, s.process.view = some (nest data)
  done : ∀ t, ¬ (s.process.phase t).Loading
  known : ∀ t subPrefix r, s.lookup t = .assign subPrefix r → r = s.process.allProperties

/-- Nothing is loaded yet, or a load has failed; or one thread loads; or a load is complete. -/
inductive Invariant (s : Loads τ) : Prop
  | idle : (∀ t, s.Idle t) → (s.failed = false → s.process.allProperties = none) → Invariant s
  | loading (t : τ) : (∀ t', t' ≠ t → s.Idle t') →
    (∀ subPrefix r, s.lookup t ≠ .assign subPrefix r) → s.Progress (s.process.phase t) → Invariant s
  | loaded : s.Loaded → Invariant s

omit [DecidableEq τ] in
theorem Idle.not_loading {s : Loads τ} {t : τ} (h : s.Idle t) : ¬ (s.process.phase t).Loading := by
  rw [h.1]
  exact id

omit [DecidableEq τ] in
/-- A thread that loads is the one that the invariant knows. -/
theorem Invariant.loads {s : Loads τ} (h : s.Invariant) {t : τ} (ht : (s.process.phase t).Loading) :
    (∀ t', t' ≠ t → s.Idle t') ∧ (∀ subPrefix r, s.lookup t ≠ .assign subPrefix r) ∧
      s.Progress (s.process.phase t) := by
  cases h with
  | idle hidle => exact absurd ht (hidle t).not_loading
  | loading t₀ hothers hlookup hprogress =>
    by_cases heq : t = t₀
    · exact heq ▸ ⟨hothers, hlookup, hprogress⟩
    · exact absurd ht (hothers t heq).not_loading
  | loaded h => exact absurd ht (h.done t)

omit [DecidableEq τ] in
/-- A thread that returns a map from the cache returns a complete one. -/
theorem Invariant.returns {s : Loads τ} (h : s.Invariant) {t : τ} (ht : s.process.phase t = .cached) :
    s.Loaded := by
  cases h with
  | idle hidle =>
    have hphase := (hidle t).1
    rw [ht] at hphase
    cases hphase
  | loading t₀ hothers hlookup hprogress =>
    by_cases heq : t = t₀
    · rw [← heq, ht] at hprogress
      exact absurd hprogress id
    · have hphase := (hothers t heq).1
      rw [ht] at hphase
      cases hphase
  | loaded h => exact h

omit [DecidableEq τ] in
/-- A thread that has a map to assign has a complete one. -/
theorem Invariant.assigns {s : Loads τ} (h : s.Invariant) {t : τ} {subPrefix : String} {r : Option Nat}
    (ht : s.lookup t = .assign subPrefix r) : s.Loaded := by
  cases h with
  | idle hidle =>
    have hlookup := (hidle t).2
    rw [ht] at hlookup
    cases hlookup
  | loading t₀ hothers hlookup =>
    by_cases heq : t = t₀
    · exact absurd (heq ▸ ht) (hlookup subPrefix r)
    · have hlookup := (hothers t heq).2
      rw [ht] at hlookup
      cases hlookup
  | loaded h => exact h

/-- No thread begins a load. -/
theorem Loaded.goto {s : Loads τ} (h : s.Loaded) (t : τ) {phase : Phase} (hphase : ¬ phase.Loading) :
    Loaded { s with process := s.process.goto t phase } := by
  refine ⟨h.view, fun t' => ?_, h.known⟩
  show ¬ (update s.process.phase t phase t').Loading
  rw [Function.update_apply]
  split
  · exact hphase
  · exact h.done t'

/-- No thread gets to know another map. -/
theorem Loaded.lookup {s : Loads τ} (h : s.Loaded) (t : τ) {lookup : Lookup}
    (hlookup : ∀ subPrefix r, lookup = .assign subPrefix r → r = s.process.allProperties) :
    Loaded { s with lookup := update s.lookup t lookup } := by
  refine ⟨h.view, h.done, fun t' subPrefix r heq => ?_⟩
  have heq : update s.lookup t lookup t' = .assign subPrefix r := heq
  rw [Function.update_apply] at heq
  split at heq
  · exact hlookup subPrefix r heq
  · exact h.known t' subPrefix r heq

/-- The next step of the load. -/
theorem invariant_of_load {s : Loads τ} {t : τ} (hothers : ∀ t', t' ≠ t → s.Idle t')
    (hlookup : ∀ subPrefix r, s.lookup t ≠ .assign subPrefix r) (process : Process τ)
    {phase : Phase} (loaded : List Data)
    (hphase : process.phase = s.process.phase)
    (hprogress : Progress { s with process := process.goto t phase, loaded := loaded } phase) :
    Invariant { s with process := process.goto t phase, loaded := loaded } := by
  refine .loading t (fun t' ht' => ⟨?_, (hothers t' ht').2⟩) hlookup ?_
  · show update process.phase t phase t' = .idle
    rw [Function.update_of_ne ht', hphase]
    exact (hothers t' ht').1
  · show Progress _ (update process.phase t phase t)
    rw [Function.update_self]
    exact hprogress

/-- A call of `properties()` that is alone. -/
theorem invariant_of_call {s : Loads τ} (h : s.Invariant) {t : τ} {process : Process τ}
    (hs : Process.Step s.process (.properties t) process)
    (halone : s.failed = false ∧ ∀ t, ¬ (s.process.phase t).Loading) {lookup : Lookup}
    (hlookup : ∀ subPrefix r, lookup ≠ .assign subPrefix r) :
    Invariant { s with process := process, lookup := update s.lookup t lookup } := by
  cases hs with
  | properties hphase =>
    cases h with
    | idle hidle hnone =>
      have hnone := hnone halone.1
      rw [if_pos hnone]
      refine invariant_of_load (s := { s with lookup := update s.lookup t lookup }) (fun t' ht' => ?_)
        ?_ s.process s.loaded rfl hnone
      · exact ⟨(hidle t').1, (Function.update_of_ne ht' ..).trans (hidle t').2⟩
      · show ∀ subPrefix r, update s.lookup t lookup t ≠ _
        rwa [Function.update_self]
    | loading t₀ _ _ hprogress =>
      have hnot := halone.2 t₀
      cases hphase₀ : s.process.phase t₀ <;> rw [hphase₀] at hprogress hnot
      case build | getCurrentData | loop => exact absurd trivial hnot
      all_goals exact absurd hprogress id
    | loaded h =>
      obtain ⟨data, hdata, hview⟩ := h.view
      have hsome : s.process.allProperties ≠ none := by
        intro hnone
        rw [Process.view, hnone] at hview
        cases hview
      rw [if_neg hsome]
      exact .loaded ((h.goto t id).lookup t fun subPrefix r heq => absurd heq (hlookup subPrefix r))

/-- `properties()` returns: it has loaded the map, or found a complete one. -/
theorem loaded_of_returned {s : Loads τ} (h : s.Invariant) {t : τ} {m : Option Properties}
    {process : Process τ} (hs : Process.Step s.process (.returned t m) process) :
    m = s.process.view ∧ process = s.process.goto t .idle ∧
      Loaded { s with process := s.process.goto t .idle } := by
  cases hs with
  | @built t data hphase =>
    have hloading : (s.process.phase t).Loading := by rw [hphase]; trivial
    obtain ⟨hothers, hlookup, hprogress⟩ := h.loads hloading
    rw [hphase] at hprogress
    obtain ⟨hdata, m, hview, rfl⟩ := hprogress
    refine ⟨rfl, rfl, ⟨data, hdata, hview⟩, fun t' => ?_, fun t' subPrefix r heq => ?_⟩
    · show ¬ (update s.process.phase t .idle t').Loading
      rw [Function.update_apply]
      split
      · exact id
      · next ht' => exact (hothers t' ht').not_loading
    · by_cases ht' : t' = t
      · exact absurd (ht' ▸ heq) (hlookup subPrefix r)
      · have hidle : s.lookup t' = .outside := (hothers t' ht').2
        rw [show s.lookup t' = _ from heq] at hidle
        cases hidle
  | cached hphase =>
    exact ⟨rfl, rfl, (h.returns hphase).goto t id⟩

theorem Invariant.step {s s' : Loads τ} {l : Label τ} (h : s.Invariant) (hs : Step s l s')
    (hl : s.Alone l) : s'.Invariant := by
  cases hs with
  | @properties t process hlookup hs =>
    have hinv : Invariant { s with process := process, lookup := update s.lookup t .outside } :=
      invariant_of_call h hs hl fun _ _ h => Lookup.noConfusion h
    rwa [← hlookup, Function.update_eq_self] at hinv
  | getPropertiesBySubPrefix hlookup hs => exact invariant_of_call h hs hl fun _ _ h => Lookup.noConfusion h
  | newTreeMap hs =>
    cases hs with
    | newTreeMap hphase =>
      obtain ⟨hothers, hlookup, -⟩ := h.loads (by rw [hphase]; trivial)
      refine invariant_of_load hothers hlookup
        { s.process with
          maps := s.process.maps ++ [Properties.empty]
          allProperties := some s.process.maps.length } s.loaded rfl ?_
      exact List.getElem?_concat_length.trans (congrArg some nest_empty.symm)
  | getCurrentData hs =>
    cases hs with
    | @getCurrentData t keys hphase hkeys =>
      obtain ⟨hothers, hlookup, hprogress⟩ := h.loads (by rw [hphase]; trivial)
      rw [hphase] at hprogress
      refine invariant_of_load hothers hlookup s.process (s.loaded ++ [s.process.data]) rfl
        ⟨List.mem_concat_self, _, hprogress, ?_⟩
      rw [nest_empty]
      exact rebuild_eq hkeys
  | put hs =>
    cases hs with
    | @put t data key keys r hphase hr =>
      obtain ⟨hothers, hlookup, hprogress⟩ := h.loads (by rw [hphase]; trivial)
      rw [hphase] at hprogress
      obtain ⟨hdata, m, hview, hrest⟩ := hprogress
      refine invariant_of_load hothers hlookup
        { s.process with maps := s.process.maps.modify r (putAll data [key]) } s.loaded rfl
        ⟨hdata, putAll data [key] m, ?_, hrest⟩
      have hmap : s.process.maps[r]? = some m := by
        rw [Process.view, hr] at hview
        exact hview
      show s.process.allProperties.bind ((s.process.maps.modify r (putAll data [key]))[·]?) = _
      rw [hr, Option.bind_some, List.getElem?_modify_eq, hmap]
      rfl
  | returned hlookup hs =>
    obtain ⟨-, rfl, hloaded⟩ := loaded_of_returned h hs
    exact .loaded hloaded
  | @inner t subPrefix m process hlookup hs =>
    obtain ⟨-, rfl, hloaded⟩ := loaded_of_returned h hs
    exact .loaded (hloaded.lookup t fun subPrefix' r heq => (Lookup.assign.inj heq).2.symm)
  | @thrown t process hs =>
    cases hs with
    | unavailable hphase =>
      obtain ⟨hothers, -, -⟩ := h.loads (by rw [hphase]; trivial)
      refine .idle (fun t' => ?_) fun hfailed => Bool.noConfusion hfailed
      by_cases ht' : t' = t
      · rw [ht']
        exact ⟨Function.update_self .., Function.update_self ..⟩
      · exact ⟨(Function.update_of_ne ht' ..).trans (hothers t' ht').1,
          (Function.update_of_ne ht' ..).trans (hothers t' ht').2⟩
    | nullPointer hphase hnone =>
      obtain ⟨-, -, hprogress⟩ := h.loads (by rw [hphase]; trivial)
      rw [hphase] at hprogress
      obtain ⟨-, m, hview, -⟩ := hprogress
      rw [Process.view, hnone] at hview
      cases hview
  | @assign t subPrefix r hassign =>
    have hloaded := h.assigns hassign
    -- the assignment changes nothing
    have hr : r = s.process.allProperties := hloaded.known t subPrefix r hassign
    subst hr
    exact .loaded (hloaded.lookup t fun _ _ heq => Lookup.noConfusion heq)
  | @got t subPrefix hget =>
    have hout (t' : τ) : update s.lookup t .outside t' = .outside ∨
        update s.lookup t .outside t' = s.lookup t' := by
      rw [Function.update_apply]
      split
      · exact .inl rfl
      · exact .inr rfl
    cases h with
    | idle hidle hnone =>
      exact .idle (fun t' => ⟨(hidle t').1, (hout t').elim id fun h => h.trans (hidle t').2⟩) hnone
    | loading t₀ hothers hlookup hprogress =>
      refine .loading t₀ (fun t' ht' => ?_) (fun subPrefix' r heq => ?_) hprogress
      · exact ⟨(hothers t' ht').1, (hout t').elim id fun h => h.trans (hothers t' ht').2⟩
      · rcases hout t₀ with h | h
        · cases h.symm.trans heq
        · exact hlookup subPrefix' r (h.symm.trans heq)
    | loaded h => exact .loaded (h.lookup t fun _ _ heq => Lookup.noConfusion heq)
  | changed =>
    cases h with
    | idle hidle hnone => exact .idle hidle hnone
    | loading t hothers hlookup hprogress =>
      refine .loading t hothers hlookup ?_
      show Progress _ (s.process.phase t)
      cases hphase : s.process.phase t <;> rw [hphase] at hprogress <;> exact hprogress
    | loaded h => exact .loaded ⟨h.view, h.done, h.known⟩

/-! ## Runs -/

theorem step_complete {s s' : Loads τ} {l : Label τ} (h : s.Invariant) (hs : Step s l s') :
    s.Complete l := by
  have hreturned {t : τ} {m : Option Properties} {process : Process τ}
      (hs : Process.Step s.process (.returned t m) process) : s.Complete (.own (.returned t m)) := by
    obtain ⟨rfl, -, hloaded⟩ := loaded_of_returned h hs
    obtain ⟨data, hdata, hview⟩ := hloaded.view
    exact ⟨data, hdata, _, hview, grouped_nest data⟩
  cases hs with
  | returned _ hs => exact hreturned hs
  | inner _ hs => exact hreturned hs
  | _ => trivial

/-- **Every map that `properties()` returns** in such a run is complete. -/
theorem complete_of_alone {data : Data} {ls : List (Label τ)} {s s' : Loads τ} {l : Label τ}
    (h : Run (fun s l s' => Step s l s' ∧ s.Alone l) (start data) ls s) (hs : Step s l s') :
    s.Complete l :=
  step_complete (h.invariant (I := Invariant) (.idle (fun _ => ⟨rfl, rfl⟩) fun _ => rfl)
    fun _ _ _ hi hs => hi.step hs.1 hs.2) hs

/-- `getPropertiesBySubPrefix` loads the properties, and `properties()` returns them again. -/
theorem complete_again : ∃ (ls : List (Label Unit)) (s s' : Loads Unit) (m : Option Properties),
    Run (fun s l s' => Step s l s' ∧ s.Alone l) (start (update (fun _ => none) "a" (some "1"))) ls s ∧
      Step s (.own (.returned () m)) s' ∧ s.Complete (.own (.returned () m)) := by
  let step (s : Loads Unit) (l : Label Unit) (s' : Loads Unit) : Prop := Step s l s' ∧ s.Alone l
  have h₁ : Run step (start (update (fun _ => none) "a" (some "1")))
      [.getPropertiesBySubPrefix () "a"] _ :=
    Run.nil.snoc ⟨.getPropertiesBySubPrefix rfl (.properties rfl), rfl, fun _ => id⟩
  have h₂ := h₁.snoc ⟨.newTreeMap (t := ()) (.newTreeMap rfl), trivial⟩
  have h₃ : Run step (start (update (fun _ => none) "a" (some "1")))
      (_ ++ [Label.own (.getCurrentData ())]) _ :=
    h₂.snoc ⟨.getCurrentData (.getCurrentData (t := ()) rfl Process.enumerates_single), trivial⟩
  have h₄ := h₃.snoc ⟨.put (.put (t := ()) rfl rfl), trivial⟩
  have h₅ := h₄.snoc ⟨.inner (t := ()) rfl (.built rfl), trivial⟩
  have h₆ := h₅.snoc ⟨.assign (t := ()) rfl, trivial⟩
  have h₇ := h₆.snoc ⟨.got (t := ()) rfl, trivial⟩
  have h₈ := h₇.snoc ⟨.properties (t := ()) rfl (.properties rfl), rfl, fun _ => id⟩
  exact ⟨_, _, _, _, h₈, .returned (t := ()) rfl (.cached rfl),
    complete_of_alone h₈ (.returned (t := ()) rfl (.cached rfl))⟩

/-- `getCurrentData()` throws, and the next call returns the empty map. -/
theorem empty_after_failure : ¬ ∀ (data : Data) (ls : List (Label Unit)) (s s' : Loads Unit)
    (l : Label Unit), Run Step (start data) ls s → Step s l s' → s.Complete l := by
  intro h
  have h₁ : Run Step (start (update (fun _ => none) "a" (some "1"))) [.own (.properties ())] _ :=
    Run.nil.snoc (.properties rfl (.properties rfl))
  have h₂ := h₁.snoc (.newTreeMap (t := ()) (.newTreeMap rfl))
  have h₃ := h₂.snoc (.thrown (t := ()) (.unavailable rfl))
  have h₄ := h₃.snoc (.properties (t := ()) rfl (.properties rfl))
  obtain ⟨data, hdata, -⟩ := h _ _ _ _ _ h₄ (.returned (t := ()) rfl (.cached rfl))
  exact absurd hdata List.not_mem_nil

end Loads

end BaseService.Configuration
