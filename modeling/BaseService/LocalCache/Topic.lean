import BaseService.LocalCache.Addresses

/-!
# Modules that share a topic

Every synchronised module registers a listener of its own, and a message on the topic is given to
all of them.

* `excuteAll` : the listeners of a message, up to the first that rejects it;
* `Step` : modules are created and used, and messages are delivered, in any order;
* `Respects` : a listener leaves the entry of another module to that module's callback;
* `delivered_respects` : what a message changes, and when every listener respects the module.
-/

namespace BaseService.LocalCache
open Function (update)
open Notify (Host Message MessageType)

/-- One listener's turn. -/
structure Visit (O V C : Type) where
  listener : Listener C
  env : Env O V C
  before : Process O V C
  issued : List (Issued O V)

/-- The clock after the readings of an `Env`. -/
def Env.tick {O V C : Type} (clock : Int64) (env : Env O V C) : Option Int64 :=
  if clock ≤ env.groupNow ∧ env.groupNow ≤ env.now ∧ env.now ≤ env.putNow then some env.putNow
  else none

namespace Process
variable {O V C : Type} [DecidableEq O] [HashCode O] [DecidableEq C]

omit [DecidableEq C] in
/-- The callback's loop over the listeners of the topic, each with what it meets. -/
def excuteAll (this : Process O V C) (message : Option Message) :
    List (Listener C × Env O V C) → Option (Process O V C × List (Visit O V C) × Bool)
  | [] => some (this, [], true)
  | (each, env) :: order => do
    let (next, issued, accepted) ← this.excute env each.callBack message
    let visit : Visit O V C := ⟨each, env, this, issued⟩
    if accepted then do
      let (last, visits, accepted) ← next.excuteAll message order
      some (last, visit :: visits, accepted)
    else some (next, [visit], false)

/-- What happens in a process. -/
inductive Action (O V C : Type)
  | created (r : Request C)
  | called (moduleName : String) (call : Call (Key O) V) (answer : Answer V)
  | delivered (topic : String) (message : Option Message) (visits : List (Visit O V C))

/-- The steps of a process with its clock. The listeners of a message may come in any order. -/
inductive Step : Process O V C × Int64 → Action O V C → Process O V C × Int64 → Prop
  | created {this this' : Process O V C} {clock : Int64} {r : Request C} :
    r.capacity < 2 ^ 31 → this.instanceOf r = some this' →
      Step (this, clock) (.created r) (this', clock)
  | called {this : Process O V C} {clock clock' : Int64} {moduleName : String}
    {inst : TimedCacheFactory O V C} {call : Call (Key O) V} {answer : Answer V}
    {cache : TimedCache (Key O) V} :
    this.INSTANCE_LIST moduleName = some inst →
      TimedCache.Calls inst.timedCache call answer cache → call.tick clock = some clock' →
      Step (this, clock) (.called moduleName call answer) (this.setCache moduleName inst cache, clock')
  | delivered {this this' : Process O V C} {clock clock' : Int64} {topic : String}
    {message : Option Message} {order : List (Listener C × Env O V C)}
    {visits : List (Visit O V C)} {accepted : Bool} :
    (order.map Prod.fst).Perm ((this.consumers.listenerList topic).getD []) →
      order.foldlM (fun clock each => each.2.tick clock) clock = some clock' →
      this.excuteAll message order = some (this', visits, accepted) →
      Step (this, clock) (.delivered topic message visits) (this', clock')

/-- `get(key)` answers a value. -/
def Answers (cache : TimedCache (Key O) V) (key : String) (groupNow now : Int64) : Prop :=
  ∃ v t, TimedCache.Calls cache (.get (.string key) groupNow now) (.value (some v)) t

/-- A listener's turn respects a module with the callback `own`: what it puts was returned by that
callback, and it does not remove an entry that the callback would have renewed. -/
structure Respects (own : Option C) (visit : Visit O V C) : Prop where
  put : ∀ i ∈ visit.issued, ∀ k v g now, i.call = .put k v g now →
    visit.listener.callBack = own ∧ ∃ c, own = some c ∧ visit.env.getItem c k = .ok v
  remove : ∀ i ∈ visit.issued, ∀ key, i.call = .remove (.string key) → own ≠ none →
    ∀ inst, visit.before.INSTANCE_LIST i.module = some inst →
      ¬ Answers inst.timedCache key visit.env.groupNow visit.env.now

/-! ## The invariant of a process -/

section
variable {this this' : Process O V C}

structure Inv (this : Process O V C) : Prop where
  cache : ∀ name inst, this.INSTANCE_LIST name = some inst → inst.timedCache.Inv
  listener : ∀ topic l, l ∈ (this.consumers.listenerList topic).getD [] →
    ∃ name inst, this.INSTANCE_LIST name = some inst ∧ inst.topic = some topic ∧
      inst.removeCallBack = l.callBack

omit [DecidableEq C] in
theorem Inv.setCache (h : this.Inv) {name : String} {inst : TimedCacheFactory O V C}
    (hinst : this.INSTANCE_LIST name = some inst) {cache : TimedCache (Key O) V}
    (hc : cache.Inv) : (this.setCache name inst cache).Inv := by
  constructor
  · intro name' inst' hinst'
    by_cases hn : name' = name
    · rw [hn, setCache_self] at hinst'
      cases hinst'
      exact hc
    · rw [setCache_of_ne _ hn] at hinst'
      exact h.cache name' inst' hinst'
  · intro topic l hl
    obtain ⟨name', inst', hinst', htopic, hcallBack⟩ := h.listener topic l hl
    by_cases hn : name' = name
    · rw [hn, hinst] at hinst'
      cases hinst'
      exact ⟨name, _, setCache_self .., htopic, hcallBack⟩
    · exact ⟨name', inst', (setCache_of_ne _ hn _ _).trans hinst', htopic, hcallBack⟩

theorem Inv.instanceOf (h : this.Inv) {r : Request C} (hr : r.capacity < 2 ^ 31)
    (hs : this.instanceOf r = some this') : this'.Inv := by
  cases hnew : this.INSTANCE_LIST r.moduleName with
  | some inst =>
    rw [Process.instanceOf, hnew] at hs
    cases hs
    exact h
  | none =>
    obtain ⟨timedCache, ht, -, hinst, hl⟩ := instanceOf_new hnew hs
    constructor
    · intro name inst hi
      rw [hinst] at hi
      by_cases hn : name = r.moduleName
      · rw [hn, Function.update_self] at hi
        cases hi
        exact (TimedCache.new_spec hr ht).1
      · rw [Function.update_of_ne hn] at hi
        exact h.cache name inst hi
    · intro topic l hmem
      rw [hinst]
      rcases hl topic l hmem with hmem | ⟨htopic, hcallBack⟩
      · obtain ⟨name, inst, hi, htopic, hcallBack⟩ := h.listener topic l hmem
        have hn : name ≠ r.moduleName := by
          rintro rfl
          rw [hnew] at hi
          cases hi
        exact ⟨name, inst, (Function.update_of_ne hn ..).trans hi, htopic, hcallBack⟩
      · exact ⟨r.moduleName, _, Function.update_self .., htopic, hcallBack.symm⟩

omit [DecidableEq C] in
theorem Inv.excute (h : this.Inv) {env : Env O V C} {callBack : Option C}
    {message : Option Message} {issued : List (Issued O V)} {accepted : Bool}
    (hs : this.excute env callBack message = some (this', issued, accepted)) : this'.Inv := by
  rcases excute_cases hs with ⟨rfl, -, -⟩ | ⟨t, inst, cache', calls, -, hinst, hacts, rfl, -⟩
  · exact h
  · exact h.setCache hinst (TimedCache.run_refines (h.cache _ _ hinst) hacts.run).1

/-! ## The turns of a message -/

section
variable {message : Option Message} {each : Listener C} {env : Env O V C}
  {order : List (Listener C × Env O V C)} {visits : List (Visit O V C)} {accepted : Bool}

omit [DecidableEq C] in
/-- The first turn, and the others if its listener accepts the message. -/
theorem excuteAll_cons
    (h : this.excuteAll message ((each, env) :: order) = some (this', visits, accepted)) :
    ∃ next issued accepted₁ visits₁,
      this.excute env each.callBack message = some (next, issued, accepted₁) ∧
      visits = ⟨each, env, this, issued⟩ :: visits₁ ∧
      (accepted₁ = true ∧ next.excuteAll message order = some (this', visits₁, accepted) ∨
        accepted₁ = false ∧ visits₁ = [] ∧ this' = next) := by
  rw [excuteAll] at h
  obtain ⟨⟨next, issued, accepted₁⟩, he, h⟩ := Option.bind_eq_some_iff.mp h
  cases accepted₁ with
  | true =>
    obtain ⟨⟨last, visits₁, accepted₂⟩, hrest, h⟩ := Option.bind_eq_some_iff.mp h
    cases h
    exact ⟨next, issued, true, visits₁, he, rfl, Or.inl ⟨rfl, hrest⟩⟩
  | false =>
    cases h
    exact ⟨_, issued, false, [], he, rfl, Or.inr ⟨rfl, rfl, rfl⟩⟩

omit [DecidableEq C] in
/-- Every turn is that of a listener of the order. -/
theorem excuteAll_visit (h : this.excuteAll message order = some (this', visits, accepted)) :
    ∀ visit ∈ visits, visit.listener ∈ order.map Prod.fst ∧ ∃ next accepted,
      visit.before.excute visit.env visit.listener.callBack message =
        some (next, visit.issued, accepted) := by
  induction order generalizing this visits with
  | nil =>
    cases h
    intro visit hv
    cases hv
  | cons head order ih =>
    obtain ⟨each, env⟩ := head
    obtain ⟨next, issued, accepted₁, visits₁, he, rfl, hrest⟩ := excuteAll_cons h
    intro visit hv
    rcases List.mem_cons.mp hv with rfl | hv
    · exact ⟨List.mem_cons_self .., next, accepted₁, he⟩
    · rcases hrest with ⟨-, hrest⟩ | ⟨-, rfl, -⟩
      · obtain ⟨hmem, hexcute⟩ := ih hrest visit hv
        exact ⟨List.mem_cons_of_mem _ hmem, hexcute⟩
      · cases hv

omit [DecidableEq C] in
/-- What holds at first and is kept by each turn holds before each turn, and at the end. -/
theorem excuteAll_invariant {J : Process O V C → Prop}
    (hstep : ∀ before env callBack next issued accepted, J before →
      before.excute env callBack message = some (next, issued, accepted) → J next)
    (h₀ : J this) (h : this.excuteAll message order = some (this', visits, accepted)) :
    J this' ∧ ∀ visit ∈ visits, J visit.before := by
  induction order generalizing this visits with
  | nil =>
    cases h
    exact ⟨h₀, fun visit hv => by cases hv⟩
  | cons head order ih =>
    obtain ⟨each, env⟩ := head
    obtain ⟨next, issued, accepted₁, visits₁, he, rfl, hrest⟩ := excuteAll_cons h
    have hnext := hstep _ _ _ _ _ _ h₀ he
    rcases hrest with ⟨-, hrest⟩ | ⟨-, rfl, rfl⟩
    · obtain ⟨hlast, hvisits⟩ := ih hnext hrest
      refine ⟨hlast, fun visit hv => ?_⟩
      rcases List.mem_cons.mp hv with rfl | hv
      · exact h₀
      · exact hvisits visit hv
    · refine ⟨hnext, fun visit hv => ?_⟩
      rw [List.mem_singleton.mp hv]
      exact h₀

end

/-! ## Runs -/

/-- **What holds of a process in any run.** -/
theorem Inv.run {identification : Host} {clock₀ clock : Int64} {actions : List (Action O V C)}
    (h : Run Step (init identification, clock₀) actions (this, clock)) : this.Inv := by
  have h₀ : (init identification : Process O V C).Inv :=
    ⟨fun _ _ hinst => by simp [init] at hinst, fun _ _ hl => by simp [init] at hl⟩
  refine h.invariant (I := fun p => p.1.Inv) h₀ ?_
  rintro ⟨this, clock⟩ action ⟨this', clock'⟩ hi hs
  cases hs with
  | created hr hs => exact hi.instanceOf hr hs
  | called hinst hc _ => exact hi.setCache hinst (TimedCache.call_refines (hi.cache _ _ hinst) hc).1
  | delivered _ _ hs =>
    exact (excuteAll_invariant (J := Inv) (fun _ _ _ _ _ _ hJ he => hJ.excute he) hi hs).1

/-! ## One turn -/

section
variable {message : Option Message} {t : Target} {inst : TimedCacheFactory O V C}

omit [DecidableEq C] in
/-- A turn respects a module whose callback the listener has, or whose cache has nothing to
answer. -/
theorem respects_of_excute {own : Option C} {visit : Visit O V C} {next : Process O V C}
    {accepted : Bool} (ht : target visit.before.identification message = .ok (some t))
    (hinst : visit.before.INSTANCE_LIST t.moduleName = some inst)
    (hs : visit.before.excute visit.env visit.listener.callBack message =
      some (next, visit.issued, accepted))
    (h : t.messageType = .LOCAL_CAHCE_DELETE → visit.listener.callBack = own ∨
      ¬ Answers inst.timedCache t.key visit.env.groupNow visit.env.now) :
    Respects own visit := by
  obtain ⟨cache', calls, hacts, -, hissued⟩ := excute_spec ht hinst hs
  constructor
  · intro i hi k v g now hcall
    rw [hissued] at hi
    obtain ⟨⟨c, a⟩, hc, rfl⟩ := List.mem_map.mp hi
    obtain rfl : c = .put k v g now := hcall
    obtain ⟨htype, ⟨cb, hcb, hitem⟩, hanswers⟩ := hacts.put hc
    rcases h htype with hown | hquiet
    · exact ⟨hown, cb, hown ▸ hcb, hitem⟩
    · exact absurd hanswers hquiet
  · intro i hi key hcall hown inst' hinst'
    rw [hissued] at hi
    obtain ⟨⟨c, a⟩, hc, rfl⟩ := List.mem_map.mp hi
    obtain rfl : c = .remove (.string key) := hcall
    obtain ⟨htype, hnone, hkey⟩ := hacts.remove hc
    obtain rfl : key = t.key := Key.string.inj hkey
    obtain rfl : inst = inst' := Option.some.inj (hinst.symm.trans hinst')
    rcases h htype with h | hquiet
    · exact absurd (h.symm.trans hnone) hown
    · exact hquiet

omit [DecidableEq C] in
theorem not_answers {cache : TimedCache (Key O) V} (hi : cache.Inv) {key : String}
    (h : cache.view.value (.string key) = none) (groupNow now : Int64) :
    ¬ Answers cache key groupNow now := by
  rintro ⟨v, t, hget⟩
  have hv := (TimedCache.call_refines hi hget).2.looked (Or.inl ⟨_, _, rfl⟩)
  rw [h] at hv
  cases hv

omit [DecidableEq C] in
/-- After a listener has accepted a deletion the cache has no value for the key, or one that the
callback has returned, unless the callback has returned null for a key that the cache answers. -/
theorem Acts.deleted {env : Env O V C} {cache cache' : TimedCache (Key O) V} {key : String}
    {callBack : Option C} {calls : List (Call (Key O) V × Answer V)} (hi : cache.Inv)
    (h : Acts env cache key callBack .LOCAL_CAHCE_DELETE cache' calls true)
    (hnull : ∀ c, callBack = some c → Answers cache key env.groupNow env.now →
      env.getItem c (.string key) ≠ .ok none) {v : V}
    (hv : cache'.view.value (.string key) = some v) :
    Answers cache key env.groupNow env.now ∧
      ∃ c, callBack = some c ∧ env.getItem c (.string key) = .ok (some v) := by
  cases h with
  | removed hc =>
    rw [(TimedCache.call_refines hi hc).2.remove_value] at hv
    cases hv
  | absent hc =>
    rw [(TimedCache.call_refines hi hc).2.get_none] at hv
    cases hv
  | kept hc hitem => exact absurd hitem (hnull _ rfl ⟨_, _, hc⟩)
  | reloaded hc hitem hput =>
    have hcache := (TimedCache.call_refines hi hc).1
    rw [(TimedCache.call_refines hcache hput).2.put_value] at hv
    cases hv
    exact ⟨⟨_, _, hc⟩, _, rfl, hitem⟩
  | ignored h => rcases h with h | h <;> cases h

/-- The target's cache has nothing to answer for the key. -/
structure Emptied (message : Option Message) (t : Target) (this : Process O V C) : Prop where
  inv : this.Inv
  addressed : target this.identification message = .ok (some t)
  value : ∃ inst, this.INSTANCE_LIST t.moduleName = some inst ∧
    inst.timedCache.view.value (.string t.key) = none

omit [DecidableEq C] in
/-- The first turn leaves nothing to answer, if there was nothing and the message goes on. -/
theorem Emptied.first (hi : this.Inv) (ht : target this.identification message = .ok (some t))
    (hinst : this.INSTANCE_LIST t.moduleName = some inst)
    (htype : t.messageType = .LOCAL_CAHCE_DELETE) {env : Env O V C}
    (hquiet : ¬ Answers inst.timedCache t.key env.groupNow env.now) {callBack : Option C}
    {next : Process O V C} {issued : List (Issued O V)}
    (hs : this.excute env callBack message = some (next, issued, true)) :
    Emptied message t next := by
  obtain ⟨cache', calls, hacts, rfl, -⟩ := excute_spec ht hinst hs
  refine ⟨hi.excute hs, ht, _, setCache_self .., ?_⟩
  rw [htype] at hacts
  rw [Option.eq_none_iff_forall_ne_some]
  intro v hv
  exact hquiet (hacts.deleted (hi.cache _ _ hinst) (fun _ _ ha => absurd ha hquiet) hv).1

omit [DecidableEq C] in
theorem Emptied.excute (h : Emptied message t this) {env : Env O V C} {callBack : Option C}
    {next : Process O V C} {issued : List (Issued O V)} {accepted : Bool}
    (hs : this.excute env callBack message = some (next, issued, accepted)) :
    Emptied message t next := by
  obtain ⟨inst, hinst, hv⟩ := h.value
  have hcache := h.inv.cache _ _ hinst
  obtain ⟨cache', calls, hacts, rfl, -⟩ := excute_spec h.addressed hinst hs
  refine ⟨h.inv.excute hs, h.addressed, _, setCache_self .., ?_⟩
  rw [Option.eq_none_iff_forall_ne_some]
  intro v hv'
  rcases Store.run_value (TimedCache.run_refines hcache hacts.run).2 hv' with hv' | ⟨⟨c, a⟩, hc, hput⟩
  · rw [hv] at hv'
    cases hv'
  · obtain ⟨g, now, hput⟩ := hput
    obtain rfl : c = _ := hput
    exact not_answers hcache hv _ _ (hacts.put hc).2.2

end

/-! ## Messages -/

omit [DecidableEq C] in
/-- A message changes no module but its target. -/
theorem excuteAll_frame {message : Option Message} {order : List (Listener C × Env O V C)}
    {visits : List (Visit O V C)} {accepted : Bool} {name : String}
    (h : this.excuteAll message order = some (this', visits, accepted))
    (hname : ∀ t, target this.identification message = .ok (some t) → t.moduleName ≠ name) :
    this'.INSTANCE_LIST name = this.INSTANCE_LIST name := by
  refine ((excuteAll_invariant (J := fun p => p.identification = this.identification ∧
    p.INSTANCE_LIST name = this.INSTANCE_LIST name) ?_ ⟨rfl, rfl⟩ h).1).2
  rintro before env callBack next issued accepted ⟨hid, hlist⟩ he
  rcases excute_cases he with ⟨rfl, -, -⟩ | ⟨t, inst, cache', calls, ht, -, -, rfl, -⟩
  · exact ⟨hid, hlist⟩
  · rw [hid] at ht
    exact ⟨hid, (setCache_of_ne _ (Ne.symm (hname t ht)) _ _).trans hlist⟩

section
variable {message : Option Message} {t : Target} {inst : TimedCacheFactory O V C}
  {order : List (Listener C × Env O V C)} {visits : List (Visit O V C)} {accepted : Bool}

omit [DecidableEq C] in
/-- All listeners have the target's callback, or the message does not delete. -/
theorem excuteAll_respects (ht : target this.identification message = .ok (some t))
    (hinst : this.INSTANCE_LIST t.moduleName = some inst) {own : Option C}
    (hown : t.messageType = .LOCAL_CAHCE_DELETE → ∀ l ∈ order.map Prod.fst, l.callBack = own)
    (h : this.excuteAll message order = some (this', visits, accepted)) :
    ∀ visit ∈ visits, Respects own visit := by
  have hbefore := (excuteAll_invariant (J := fun p =>
    target p.identification message = .ok (some t) ∧
      ∃ inst, p.INSTANCE_LIST t.moduleName = some inst) ?_ ⟨ht, inst, hinst⟩ h).2
  · intro visit hv
    obtain ⟨hmem, next, accepted', he⟩ := excuteAll_visit h visit hv
    obtain ⟨ht', inst', hinst'⟩ := hbefore visit hv
    exact respects_of_excute ht' hinst' he fun htype => Or.inl (hown htype _ hmem)
  · rintro before env callBack next issued accepted ⟨ht', inst', hinst'⟩ he
    obtain ⟨cache', -, -, rfl, -⟩ := excute_spec ht' hinst' he
    exact ⟨ht', _, setCache_self ..⟩

omit [DecidableEq C] in
/-- The target's cache has nothing to answer, from the first reading on. -/
theorem excuteAll_quiet (hi : this.Inv) (ht : target this.identification message = .ok (some t))
    (hinst : this.INSTANCE_LIST t.moduleName = some inst)
    (htype : t.messageType = .LOCAL_CAHCE_DELETE) {clock clock' : Int64}
    (htick : order.foldlM (fun clock each => each.2.tick clock) clock = some clock')
    (hquiet : ∀ groupNow now, clock ≤ groupNow → groupNow ≤ now →
      ¬ Answers inst.timedCache t.key groupNow now)
    (h : this.excuteAll message order = some (this', visits, accepted)) (own : Option C) :
    ∀ visit ∈ visits, Respects own visit := by
  cases order with
  | nil =>
    cases h
    intro visit hv
    cases hv
  | cons head order =>
    obtain ⟨each, env⟩ := head
    obtain ⟨next, issued, accepted₁, visits₁, he, rfl, hrest⟩ := excuteAll_cons h
    rw [List.foldlM_cons] at htick
    obtain ⟨clock₁, htick, -⟩ := Option.bind_eq_some_iff.mp htick
    obtain ⟨⟨hgroup, hnow, -⟩, -⟩ := tick_eq_some htick
    have hfirst := hquiet env.groupNow env.now hgroup hnow
    intro visit hv
    rcases List.mem_cons.mp hv with rfl | hv
    · exact respects_of_excute ht hinst he fun _ => Or.inr hfirst
    · rcases hrest with ⟨rfl, hrest⟩ | ⟨-, rfl, -⟩
      · have hnext := Emptied.first hi ht hinst htype hfirst he
        have hbefore := (excuteAll_invariant (J := Emptied message t)
          (fun _ _ _ _ _ _ hJ he => hJ.excute he) hnext hrest).2 visit hv
        obtain ⟨inst', hinst', hvalue⟩ := hbefore.value
        obtain ⟨-, next', accepted', he'⟩ := excuteAll_visit hrest visit hv
        exact respects_of_excute hbefore.addressed hinst' he' fun _ =>
          Or.inr (not_answers (hbefore.inv.cache _ _ hinst') hvalue _ _)
      · cases hv

end

/-- **Modules that share a topic.** In any run a message leaves the other modules as they are, and
every listener respects the target if all modules of the topic have its callback or its cache has
nothing to answer. -/
theorem delivered_respects {identification : Host} {clock₀ clock clock' : Int64}
    {actions : List (Action O V C)} {topic : String} {message : Option Message}
    {visits : List (Visit O V C)}
    (h : Run Step (init identification, clock₀) actions (this, clock))
    (hs : Step (this, clock) (.delivered topic message visits) (this', clock')) :
    (∀ name, (∀ t, target this.identification message = .ok (some t) → t.moduleName ≠ name) →
      this'.INSTANCE_LIST name = this.INSTANCE_LIST name) ∧
    ∀ t inst, target this.identification message = .ok (some t) →
      this.INSTANCE_LIST t.moduleName = some inst →
      (t.messageType = .LOCAL_CAHCE_DELETE →
        (∀ name other, this.INSTANCE_LIST name = some other → other.topic = some topic →
          other.removeCallBack = inst.removeCallBack) ∨
        ∀ groupNow now, clock ≤ groupNow → groupNow ≤ now →
          ¬ Answers inst.timedCache t.key groupNow now) →
      ∀ visit ∈ visits, Respects inst.removeCallBack visit := by
  have hi := Inv.run h
  cases hs with
  | delivered hperm htick hall =>
    refine ⟨fun name hname => excuteAll_frame hall hname, fun t inst ht hinst hcond => ?_⟩
    by_cases htype : t.messageType = .LOCAL_CAHCE_DELETE
    · rcases hcond htype with hsame | hquiet
      · refine excuteAll_respects ht hinst (fun _ l hl => ?_) hall
        obtain ⟨name, other, hother, htopic, hcallBack⟩ :=
          hi.listener _ l (hperm.mem_iff.mp hl)
        rw [← hcallBack]
        exact hsame name other hother htopic
      · exact excuteAll_quiet hi ht hinst htype htick hquiet hall _
    · exact excuteAll_respects ht hinst (fun h => absurd h htype) hall

theorem delivered_respects_single : ∃ (this this' : Process String Nat Nat) (clock clock' : Int64)
    (visits : List (Visit String Nat Nat)),
    Run Step (init ⟨some "10.0.0.2", 7090⟩, 0) [.created (.getInstanceSync "a" 4 100 none)]
      (this, clock) ∧
    Step (this, clock) (.delivered "cache_clear"
      (some (TimedCacheFactory.deleteMessage ⟨some "10.0.0.1", 7080⟩ "a" (.string "k" : Key String)))
      visits) (this', clock') ∧
    visits.length = 1 ∧ ∀ visit ∈ visits, Respects none visit := by
  let message := TimedCacheFactory.deleteMessage ⟨some "10.0.0.1", 7080⟩ "a" (.string "k" : Key String)
  let order : List (Listener Nat × Env String Nat Nat) :=
    [(⟨0, none⟩, ⟨fun _ _ => .ok (some 9), 6, 6, 6⟩)]
  have hscript : (do
      let p ← (init ⟨some "10.0.0.2", 7090⟩ : Process String Nat Nat).instanceOf
        (.getInstanceSync "a" 4 100 none)
      let done ← p.excuteAll (some message) order
      some (decide (p.consumers.listenerList "cache_clear" = some [⟨0, none⟩] ∧
        done.2.1.length = 1))) = some true := by
    decide
  obtain ⟨p, hp, hscript⟩ := Option.bind_eq_some_iff.mp hscript
  obtain ⟨⟨this', visits, accepted⟩, hdone, hscript⟩ := Option.bind_eq_some_iff.mp hscript
  obtain ⟨hlisteners, hvisits⟩ := of_decide_eq_true (Option.some.inj hscript)
  obtain ⟨t, -, hid, hinst, -⟩ := instanceOf_new rfl hp
  have htarget : target p.identification (some message) =
      .ok (some ⟨.LOCAL_CAHCE_DELETE, "a", "k"⟩) :=
    target_address (by rw [hid]; decide) _ (by decide) (by decide)
  have hrun : Run Step (init ⟨some "10.0.0.2", 7090⟩, 0)
      [.created (.getInstanceSync "a" 4 100 none)] (p, 0) := .single (.created (by decide) hp)
  have hstep : Step (p, 0) (.delivered "cache_clear" (some message) visits) (this', 6) :=
    have horder : (order.map Prod.fst).Perm ((p.consumers.listenerList "cache_clear").getD []) := by
      rw [hlisteners]
      exact List.Perm.refl _
    .delivered horder (by decide) hdone
  have ha : p.INSTANCE_LIST "a" = some ⟨"a", t, true, some "cache_clear", none⟩ := by
    rw [hinst]
    exact Function.update_self ..
  refine ⟨p, this', 0, 6, visits, hrun, hstep, hvisits,
    (delivered_respects hrun hstep).2 _ _ htarget ha fun _ => Or.inl fun name other hother _ => ?_⟩
  by_cases hn : name = "a"
  · rw [hn, ha] at hother
    cases hother
    rfl
  · rw [hinst] at hother
    cases (Function.update_of_ne hn _ _).symm.trans hother

/-- The module `a` has a callback and `b` has none. -/
theorem delivered_drops : ∃ (this this' : Process String Nat Nat) (clock clock' : Int64)
    (visits : List (Visit String Nat Nat)),
    Run Step (init ⟨some "10.0.0.2", 7090⟩, 0)
      [.created (.getInstanceCallBack "a" 4 100 none (some 1)),
        .created (.getInstanceSync "b" 4 100 none),
        .called "a" (.put (.string "k") (some 7) none 5) (.value none)] (this, clock) ∧
    Step (this, clock) (.delivered "cache_clear"
      (some (TimedCacheFactory.deleteMessage ⟨some "10.0.0.1", 7080⟩ "a" (.string "k" : Key String)))
      visits) (this', clock') ∧
    ∃ visit ∈ visits, ¬ Respects (some 1) visit := by
  let message := TimedCacheFactory.deleteMessage ⟨some "10.0.0.1", 7080⟩ "a" (.string "k" : Key String)
  let env : Env String Nat Nat := ⟨fun _ _ => .ok (some 9), 6, 6, 6⟩
  let order : List (Listener Nat × Env String Nat Nat) := [(⟨1, none⟩, env), (⟨0, some 1⟩, env)]
  have hscript : (do
      let p ← (init ⟨some "10.0.0.2", 7090⟩ : Process String Nat Nat).instanceOf
        (.getInstanceCallBack "a" 4 100 none (some 1))
      let q ← p.instanceOf (.getInstanceSync "b" 4 100 none)
      let inst ← q.INSTANCE_LIST "a"
      let put ← inst.timedCache.call (.put (.string "k") (some 7) none 5)
      let r := q.setCache "a" inst put.1
      let done ← r.excuteAll (some message) order
      let get ← put.1.call (.get (.string "k") 6 6)
      some (decide (put.2 = .value none ∧ get.2 = .value (some 7) ∧
        r.consumers.listenerList "cache_clear" = some [⟨0, some 1⟩, ⟨1, none⟩] ∧
        done.2.1.map (fun visit => visit.issued.map fun i => (i.module, i.call, i.answer)) =
          [[("a", .remove (.string "k"), .value (some 7))],
            [("a", .get (.string "k") 6 6, .value none)]]))) = some true := by
    decide
  obtain ⟨p, hp, hscript⟩ := Option.bind_eq_some_iff.mp hscript
  obtain ⟨q, hq, hscript⟩ := Option.bind_eq_some_iff.mp hscript
  obtain ⟨inst, hinst, hscript⟩ := Option.bind_eq_some_iff.mp hscript
  obtain ⟨⟨cache, answer⟩, hput, hscript⟩ := Option.bind_eq_some_iff.mp hscript
  obtain ⟨⟨this', visits, accepted⟩, hdone, hscript⟩ := Option.bind_eq_some_iff.mp hscript
  obtain ⟨⟨t, found⟩, hget, hscript⟩ := Option.bind_eq_some_iff.mp hscript
  obtain ⟨rfl, rfl, hlisteners, hvisits⟩ := of_decide_eq_true (Option.some.inj hscript)
  have horder : (order.map Prod.fst).Perm
      (((q.setCache "a" inst cache).consumers.listenerList "cache_clear").getD []) := by
    rw [hlisteners]
    exact List.Perm.swap ..
  refine ⟨q.setCache "a" inst cache, this', 5, 6, visits,
    ((Run.nil.snoc (.created (by decide) hp)).snoc (.created (by decide) hq)).snoc
      (.called hinst hput (by decide)),
    .delivered horder (by decide) hdone, ?_⟩
  · obtain ⟨next, issued, accepted₁, visits₁, -, rfl, -⟩ := excuteAll_cons hdone
    refine ⟨_, List.mem_cons_self .., fun hr => ?_⟩
    obtain ⟨i, rfl, hi⟩ := List.map_eq_singleton_iff.mp (List.head_eq_of_cons_eq hvisits)
    simp only [Prod.mk.injEq] at hi
    obtain ⟨hmodule, hcall, -⟩ := hi
    have ha : (q.setCache "a" inst cache).INSTANCE_LIST i.module = some { inst with timedCache := cache } := by
      rw [hmodule, setCache_self]
    exact hr.remove i (List.mem_singleton_self i) "k" hcall (by decide) _ ha ⟨7, t, hget⟩

end

end Process

end BaseService.LocalCache
