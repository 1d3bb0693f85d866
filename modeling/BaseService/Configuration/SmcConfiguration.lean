import BaseService.StringUtils

/-!
# `SmcConfiguration`

* `getPrefix`, `getSubPrefix`, `Properties.put` : the map of all properties, by prefix and sub prefix;
* `rebuild` : that of the current data; `rebuild_eq` : it does not depend on the order of the keys;
* `setProperty` : a write, for what `ZooKeeper` answers and which updates are delivered;
* `reported_iff` : when it returns `true` just for a stored value.
-/

namespace BaseService.Configuration
open Function (update)

/-! ## The map of all properties -/

def getPrefix (key : String) : String :=
  match StringUtils.split key '.' with
  | s₀ :: s₁ :: _ :: _ => s₀ ++ "." ++ s₁
  | _ => key

def getSubPrefix (key : String) : String :=
  match StringUtils.split key '.' with
  | s₀ :: s₁ :: s₂ :: _ :: _ => s₀ ++ "." ++ s₁ ++ "." ++ s₂
  | _ => key

/-- The current data, by key; those of `ZooKeeper` are strings. -/
abbrev Data (V : Type := String) := String → Option V

/-- The values by prefix, sub prefix and key. -/
abbrev Properties (V : Type := String) := String → Option (String → Option (Data V))

section
variable {V : Type}

namespace Properties

def empty : Properties V := fun _ => none

/-- The loop body of `properties()`. -/
def put (allProperties : Properties V) (key : String) (value : V) : Properties V :=
  match allProperties (getPrefix key) with
  | some properties =>
    match properties (getSubPrefix key) with
    | some subProperties =>
      update allProperties (getPrefix key) (some
        (update properties (getSubPrefix key) (some (update subProperties key (some value)))))
    | none =>
      update allProperties (getPrefix key) (some
        (update properties (getSubPrefix key) (some (update (fun _ => none) key (some value)))))
  | none =>
    update allProperties (getPrefix key) (some
      (update (fun _ => none) (getSubPrefix key) (some (update (fun _ => none) key (some value)))))

end Properties

/-- The loop of `properties()` over the rest of the keys. -/
def putAll (data : Data V) (keys : List String) (allProperties : Properties V) : Properties V :=
  keys.foldl (fun m key => (data key).elim m (m.put key)) allProperties

/-- A new map, from the current data. -/
def rebuild (data : Data V) (keys : List String) : Properties V := putAll data keys .empty

/-- The keys of the data, in some order. -/
def Enumerates (keys : List String) (data : Data V) : Prop := ∀ key, key ∈ keys ↔ data key ≠ none

/-! ## Entries in groups -/

section
open Classical

/-- The entries of a group. -/
noncomputable def entriesOf (entries : Data V) (p q : String) : Data V := fun key =>
  if getPrefix key = p ∧ getSubPrefix key = q then entries key else none

/-- The groups of a prefix that are not empty. -/
noncomputable def groupsOf (entries : Data V) (p : String) : String → Option (Data V) := fun q =>
  if entriesOf entries p q = fun _ => none then none else some (entriesOf entries p q)

/-- The entries by prefix and sub prefix. -/
noncomputable def nest (entries : Data V) : Properties V := fun p =>
  if groupsOf entries p = fun _ => none then none else some (groupsOf entries p)

theorem getD_ite {α β : Type} (f : α → Option β) :
    (if f = fun _ => none then none else some f).getD (fun _ => none) = f := by
  split
  · next h => exact h.symm
  · rfl

theorem nest_empty : nest (fun _ => none) = (.empty : Properties V) := by
  funext p
  have hentries (q : String) : entriesOf (fun _ => none : Data V) p q = fun _ => none := by
    funext key
    exact ite_self _
  have hgroups : groupsOf (fun _ => none : Data V) p = fun _ => none := by
    funext q
    exact if_pos (hentries q)
  exact if_pos hgroups

theorem put_eq (m : Properties V) (key : String) (value : V) :
    m.put key value = update m (getPrefix key) (some
      (update ((m (getPrefix key)).getD fun _ => none) (getSubPrefix key) (some
        (update ((((m (getPrefix key)).getD fun _ => none) (getSubPrefix key)).getD fun _ => none)
          key (some value))))) := by
  unfold Properties.put
  cases hp : m (getPrefix key) with
  | none => rfl
  | some properties =>
    simp only [Option.getD_some]
    cases properties (getSubPrefix key) <;> rfl

theorem entriesOf_update (entries : Data V) (key p q : String) (value : V) :
    entriesOf (update entries key (some value)) p q =
      if p = getPrefix key ∧ q = getSubPrefix key then
        update (entriesOf entries p q) key (some value) else entriesOf entries p q := by
  funext key'
  by_cases hkey : key' = key
  · subst hkey
    by_cases hpq : p = getPrefix key' ∧ q = getSubPrefix key'
    · simp [entriesOf, hpq]
    · have hpq' : ¬ (getPrefix key' = p ∧ getSubPrefix key' = q) :=
        fun h => hpq ⟨h.1.symm, h.2.symm⟩
      simp [entriesOf, hpq, hpq']
  · split <;> simp [entriesOf, Function.update_of_ne hkey]

/-- **The loop body adds an entry.** -/
theorem nest_put (entries : Data V) (key : String) (value : V) :
    (nest entries).put key value = nest (update entries key (some value)) := by
  have hne (d : Data V) : update d key (some value) ≠ fun _ => none := fun h => by
    have hkey := congrFun h key
    rw [Function.update_self] at hkey
    cases hkey
  have hgroups (p : String) : groupsOf (update entries key (some value)) p =
      if p = getPrefix key then update (groupsOf entries p) (getSubPrefix key)
        (some (update (entriesOf entries p (getSubPrefix key)) key (some value)))
      else groupsOf entries p := by
    funext q
    by_cases hpq : p = getPrefix key ∧ q = getSubPrefix key
    · have hentries := entriesOf_update entries key p q value
      rw [if_pos hpq] at hentries
      obtain ⟨rfl, rfl⟩ := hpq
      rw [groupsOf, hentries, if_neg (hne _), if_pos rfl, Function.update_self]
    · have hentries := entriesOf_update entries key p q value
      rw [if_neg hpq] at hentries
      rw [groupsOf, hentries]
      by_cases hp : p = getPrefix key
      · rw [if_pos hp, Function.update_of_ne fun hq => hpq ⟨hp, hq⟩]
        rfl
      · rw [if_neg hp]
        rfl
  funext p
  rw [put_eq]
  by_cases hp : p = getPrefix key
  · subst hp
    have hsome : groupsOf (update entries key (some value)) (getPrefix key) ≠ fun _ => none := by
      rw [hgroups, if_pos rfl]
      intro h
      have hq := congrFun h (getSubPrefix key)
      rw [Function.update_self] at hq
      cases hq
    rw [Function.update_self, nest, nest, if_neg hsome, hgroups, if_pos rfl, getD_ite, groupsOf, getD_ite]
  · rw [Function.update_of_ne hp, nest, nest, hgroups, if_neg hp]

/-- The loop over the rest of the keys adds their entries. -/
theorem putAll_nest (data : Data V) (keys : List String) (entries : Data V) :
    putAll data keys (nest entries) =
      nest fun key => if key ∈ keys ∧ data key ≠ none then data key else entries key := by
  induction keys generalizing entries with
  | nil => simp [putAll]
  | cons key keys ih =>
    have hfirst : putAll data (key :: keys) (nest entries) =
        putAll data keys (nest (if data key = none then entries else update entries key (data key))) := by
      rw [putAll, List.foldl_cons]
      cases data key with
      | none => rfl
      | some value => exact congrArg (putAll data keys) (nest_put entries key value)
    rw [hfirst, ih]
    congr 1
    funext key'
    by_cases hkeys : key' ∈ keys ∧ data key' ≠ none
    · rw [if_pos hkeys, if_pos ⟨List.mem_cons_of_mem _ hkeys.1, hkeys.2⟩]
    · rw [if_neg hkeys]
      by_cases hkey : key' = key
      · subst hkey
        cases hdata : data key' <;> simp
      · have hrest : ¬ (key' ∈ key :: keys ∧ data key' ≠ none) := fun h =>
          hkeys ⟨(List.mem_cons.1 h.1).resolve_left hkey, h.2⟩
        rw [if_neg hrest]
        cases data key with
        | none => rfl
        | some value => exact Function.update_of_ne hkey ..

/-- **The order of the keys does not matter.** -/
theorem rebuild_eq {data : Data V} {keys : List String} (h : Enumerates keys data) :
    rebuild data keys = nest data := by
  rw [rebuild, ← nest_empty, putAll_nest]
  congr 1
  funext key
  split
  · rfl
  · next hnot =>
    by_contra hne
    exact hnot ⟨(h key).2 (Ne.symm hne), Ne.symm hne⟩

end

end

/-! ## `setProperty` -/

/-- What `ZooKeeper` answers to a write; the other exceptions come with their messages. -/
inductive Answer
  | success
  | nodeExists
  | exception (message : String)

inductive Happening
  /-- An update event of the key is delivered. -/
  | update (key : String)
  | interrupt (message : String)

/-- What `setProperty` meets; exceptions come with their messages. -/
structure Circumstances where
  create : Answer
  /-- The exception of `exists("/", watcher)`. -/
  exists' : Option String
  /-- The exception of `setData`. -/
  setData : Option String
  /-- The keys of the updates delivered between the adding of the listener and the wait. -/
  updates : List String
  /-- The thread is interrupted before the wait. -/
  interrupted : Option String
  /-- What happens during the wait. -/
  later : List Happening

inductive Result
  | returned (b : Bool)
  | smcConfigurationException (message : String)
  /-- The call does not end. -/
  | waiting

structure Outcome where
  result : Result
  /-- The writes that `ZooKeeper` has acknowledged, with their paths. -/
  acknowledged : List (String × ByteArray)

def failure (message : String) : Result := .smcConfigurationException ("设置配置项失败，错误原因：" ++ message)

/-- `countDownLatch.await()`: every update counts the latch down. -/
def Circumstances.await (c : Circumstances) : Result :=
  match c.interrupted, c.updates, c.later with
  | some message, _, _ => failure message
  | none, _ :: _, _ => .returned true
  | none, [], .update _ :: _ => .returned true
  | none, [], .interrupt message :: _ => failure message
  | none, [], [] => .waiting

def path (CONFIG_ROOT_PATH key : String) : String := CONFIG_ROOT_PATH ++ "/" ++ key

def setProperty (CONFIG_ROOT_PATH key value : String) (c : Circumstances) : Outcome :=
  let write := (path CONFIG_ROOT_PATH key, value.toUTF8)
  match c.create with
  | .success =>
    match c.exists' with
    | none => ⟨.returned true, [write]⟩
    | some _ => ⟨c.await, [write]⟩
  | .nodeExists =>
    match c.setData with
    | none => ⟨.returned true, [write]⟩
    | some message => ⟨failure message, []⟩
  | .exception _ => ⟨c.await, []⟩

/-- The call returns `true` only for a write of the value to the key, else it throws. -/
def Reported (CONFIG_ROOT_PATH key value : String) (o : Outcome) : Prop :=
  (o.result = .returned true ∧ (path CONFIG_ROOT_PATH key, value.toUTF8) ∈ o.acknowledged) ∨
    ∃ message, o.result = .smcConfigurationException message

namespace Circumstances

/-- The wait ends. -/
def Ends (c : Circumstances) : Prop := c.interrupted ≠ none ∨ c.updates ≠ [] ∨ c.later ≠ []

/-- The wait ends, but with no update. -/
def Interrupted (c : Circumstances) : Prop :=
  c.interrupted ≠ none ∨ c.updates = [] ∧ ∃ message, c.later.head? = some (.interrupt message)

theorem await_ends (c : Circumstances) :
    (c.await = .returned true ∨ ∃ message, c.await = .smcConfigurationException message) ↔ c.Ends := by
  unfold await Ends failure
  split <;> simp_all

theorem await_interrupted (c : Circumstances) :
    (∃ message, c.await = .smcConfigurationException message) ↔ c.Interrupted := by
  unfold await Interrupted failure
  split <;> simp_all

end Circumstances

/-- **When `setProperty` reports the truth.** -/
theorem reported_iff (CONFIG_ROOT_PATH key value : String) (c : Circumstances) :
    Reported CONFIG_ROOT_PATH key value (setProperty CONFIG_ROOT_PATH key value c) ↔
      match c.create with
      | .success => c.exists' = none ∨ c.Ends
      | .nodeExists => True
      | .exception _ => c.Interrupted := by
  unfold Reported setProperty
  cases c.create with
  | success =>
    cases c.exists' with
    | none => simp
    | some message =>
      simp only [List.mem_singleton, and_true, reduceCtorEq, false_or]
      exact c.await_ends
  | nodeExists =>
    cases c.setData with
    | none => simp
    | some message => exact iff_of_true (.inr ⟨_, rfl⟩) trivial
  | exception message =>
    simp only [List.not_mem_nil, and_false, false_or]
    exact c.await_interrupted

/-- The connection is lost, and then another key is updated. -/
theorem reported_other : ¬ ∀ (CONFIG_ROOT_PATH key value : String) (c : Circumstances),
    Reported CONFIG_ROOT_PATH key value (setProperty CONFIG_ROOT_PATH key value c) := by
  intro h
  rcases h "/smc/config/dev" "a" "1"
    ⟨.exception "ConnectionLoss", none, none, [], none, [.update "b"]⟩ with ⟨-, hmem⟩ | ⟨message, hresult⟩
  · exact absurd hmem List.not_mem_nil
  · cases hresult

end BaseService.Configuration
