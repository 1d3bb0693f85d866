import BaseService.LocalCache.Topic

/-!
# Processes that share a module

Every process has the module, with a callback of its own or none, and a message of `remove` goes to
all of them.

* `Peers.Step` : clients use and remove keys, and messages are processed, in any order;
* `Event.callsOn` : what an event does to the cache of a process; `run_calls` : over a run;
* `peer_invalidated` : what a peer answers after it has processed a message.
-/

namespace BaseService.LocalCache
open Function (update)
open Notify (Host Message MessageType)

/-- The processes, the messages on the topic, and which of them each process is done with. -/
structure Peers (P O V C : Type) where
  process : P → Process O V C
  sent : List Message
  done : P → List Nat

inductive Event (P O V C : Type)
  | called (p : P) (call : Call (Key O) V) (answer : Answer V)
  | removed (p : P) (key : Key O) (calls : List (Call (Key O) V × Answer V))
  | processed (p : P) (i : Nat) (env : Env O V C) (issued : List (Issued O V)) (accepted : Bool)

/-- The calls of an event on the cache of `p`. -/
def Event.callsOn {P O V C : Type} [DecidableEq P] (p : P) :
    Event P O V C → List (Call (Key O) V × Answer V)
  | .called q call answer => if q = p then [(call, answer)] else []
  | .removed q _ calls => if q = p then calls else []
  | .processed q _ _ issued _ => if q = p then issued.map fun i => (i.call, i.answer) else []

namespace Peers
variable {P O V C : Type} [DecidableEq P] [DecidableEq O] [HashCode O] [ToString O]

/-- Each step is a call of a client or a message of the topic that a listener processes. A message
that is not accepted is delivered again. -/
inductive Step (module topic : String) : Peers P O V C → Event P O V C → Peers P O V C → Prop
  | called {s : Peers P O V C} {p : P} {inst : TimedCacheFactory O V C} {call : Call (Key O) V}
    {answer : Answer V} {cache : TimedCache (Key O) V} :
    (s.process p).INSTANCE_LIST module = some inst →
      TimedCache.Calls inst.timedCache call answer cache →
      Step module topic s (.called p call answer)
        { s with process := update s.process p ((s.process p).setCache module inst cache) }
  | removed {s : Peers P O V C} {p : P} {inst inst' : TimedCacheFactory O V C} {env : Env O V C}
    {key : Key O} {produced : List Message} {calls : List (Call (Key O) V × Answer V)}
    {outcome : Outcome (Option V)} :
    (s.process p).INSTANCE_LIST module = some inst →
      inst.remove (s.process p).identification env key = some (inst', produced, calls, outcome) →
      Step module topic s (.removed p key calls)
        { s with
          process := update s.process p ((s.process p).setCache module inst inst'.timedCache)
          sent := s.sent ++ produced }
  | processed {s : Peers P O V C} {p : P} {i : Nat} {message : Message} {listener : Listener C}
    {env : Env O V C} {this' : Process O V C} {issued : List (Issued O V)} {accepted : Bool} :
    s.sent[i]? = some message → i ∉ s.done p →
      listener ∈ ((s.process p).consumers.listenerList topic).getD [] →
      (s.process p).excute env listener.callBack (some message) = some (this', issued, accepted) →
      Step module topic s (.processed p i env issued accepted)
        { s with
          process := update s.process p this'
          done := if accepted then update s.done p (i :: s.done p) else s.done }

/-- Every process has just created the module. -/
structure Start [DecidableEq C] (module topic : String) (s : Peers P O V C) : Prop where
  created : ∀ p, ∃ identification r, r.moduleName = module ∧ r.capacity < 2 ^ 31 ∧
    r.sync.map Process.topicOf = some topic ∧
    (Process.init identification).instanceOf r = some (s.process p)
  sent : s.sent = []
  done : ∀ p, s.done p = []

/-- The module of a process with its listener, and no others. -/
structure Ready (module topic : String) (this : Process O V C) : Prop where
  inst : ∃ inst, this.INSTANCE_LIST module = some inst ∧ inst.timedCache.Inv ∧
    ∀ l ∈ (this.consumers.listenerList topic).getD [], l.callBack = inst.removeCallBack
  only : ∀ name, name ≠ module → this.INSTANCE_LIST name = none

/-! ## What a step does to one process -/

section
variable {module topic : String} {this this' : Process O V C} {inst : TimedCacheFactory O V C}
  {calls : List (Call (Key O) V × Answer V)}

/-- `calls` lead from the module's cache in one process state to the one in another. -/
def Advances (module : String) (this : Process O V C) (calls : List (Call (Key O) V × Answer V))
    (this' : Process O V C) : Prop :=
  ∃ inst cache, this.INSTANCE_LIST module = some inst ∧
    Run TimedCache.Does inst.timedCache calls cache ∧
    this'.INSTANCE_LIST module = some { inst with timedCache := cache }

omit [DecidableEq P] [ToString O] in
theorem Ready.setCache (h : Ready module topic this) (hinst : this.INSTANCE_LIST module = some inst)
    {cache : TimedCache (Key O) V} (hrun : Run TimedCache.Does inst.timedCache calls cache) :
    Ready module topic (this.setCache module inst cache) ∧
      Advances module this calls (this.setCache module inst cache) := by
  obtain ⟨inst₀, hinst₀, hi, hl⟩ := h.inst
  obtain rfl : inst₀ = inst := Option.some.inj (hinst₀.symm.trans hinst)
  exact ⟨⟨⟨_, Process.setCache_self .., (TimedCache.run_refines hi hrun).1, hl⟩,
    fun name hn => (Process.setCache_of_ne _ hn _ _).trans (h.only name hn)⟩,
    inst₀, cache, hinst, hrun, Process.setCache_self ..⟩

omit [ToString O] in
theorem Ready.refl (h : Ready module topic this) :
    Ready module topic this ∧ Advances module this [] this := by
  obtain ⟨inst, hinst, -, -⟩ := h.inst
  exact ⟨h, inst, inst.timedCache, hinst, .nil, hinst⟩

omit [DecidableEq P] [ToString O] in
theorem Ready.excute (h : Ready module topic this) {env : Env O V C} {callBack : Option C}
    {message : Option Message} {issued : List (Issued O V)} {accepted : Bool}
    (hs : this.excute env callBack message = some (this', issued, accepted)) :
    Ready module topic this' ∧
      Advances module this (issued.map fun i => (i.call, i.answer)) this' := by
  rcases Process.excute_cases hs with ⟨rfl, rfl, -⟩ |
    ⟨t, inst, cache', calls, -, hinst, hacts, rfl, rfl⟩
  · exact h.refl
  · have hmodule : t.moduleName = module := by
      by_contra hn
      rw [h.only _ hn] at hinst
      cases hinst
    rw [hmodule] at hinst ⊢
    have hcalls : (calls.map fun c => (⟨module, c.1, c.2⟩ : Issued O V)).map
        (fun i => (i.call, i.answer)) = calls := by
      rw [List.map_map]
      exact List.map_id' calls
    rw [hcalls]
    exact h.setCache hinst hacts.run

theorem step_calls {s s' : Peers P O V C} {e : Event P O V C}
    (h : ∀ p, Ready module topic (s.process p)) (hs : Step module topic s e s') (p : P) :
    Ready module topic (s'.process p) ∧
      Advances module (s.process p) (e.callsOn p) (s'.process p) := by
  -- Only the process of the event changes.
  have hother : ∀ {q : P} {this' : Process O V C} {calls : List (Call (Key O) V × Answer V)},
      Ready module topic this' ∧ Advances module (s.process q) calls this' →
      Ready module topic (update s.process q this' p) ∧
        Advances module (s.process p) (if q = p then calls else [])
          (update s.process q this' p) := by
    intro q this' calls hq
    by_cases hqp : q = p
    · subst hqp
      rw [Function.update_self, if_pos rfl]
      exact hq
    · rw [Function.update_of_ne (Ne.symm hqp), if_neg hqp]
      exact (h p).refl
  cases hs with
  | called hinst hc => exact hother ((h _).setCache hinst (.single hc))
  | removed hinst hr =>
    exact hother ((h _).setCache hinst (TimedCacheFactory.remove_run hr))
  | processed _ _ _ he => exact hother ((h _).excute he)

omit [DecidableEq P] [ToString O] in
theorem Advances.trans {this'' : Process O V C} {calls' : List (Call (Key O) V × Answer V)}
    (h : Advances module this calls this') (h' : Advances module this' calls' this'') :
    Advances module this (calls ++ calls') this'' := by
  obtain ⟨inst, cache, hinst, hrun, hcache⟩ := h
  obtain ⟨inst', cache', hinst', hrun', hcache'⟩ := h'
  rw [hcache] at hinst'
  cases hinst'
  exact ⟨inst, cache', hinst, hrun.append hrun', hcache'⟩

theorem run_calls {s s' : Peers P O V C} {events : List (Event P O V C)}
    (h : ∀ p, Ready module topic (s.process p)) (hs : Run (Step module topic) s events s') (p : P) :
    Ready module topic (s'.process p) ∧
      Advances module (s.process p) (events.flatMap (Event.callsOn p)) (s'.process p) := by
  induction hs generalizing p with
  | nil => exact (h p).refl
  | snoc _ hs ih =>
    obtain ⟨hready, hadv⟩ := step_calls (fun p => (ih p).1) hs p
    rw [List.flatMap_append, List.flatMap_singleton]
    exact ⟨hready, (ih p).2.trans hadv⟩

end

omit [DecidableEq P] [ToString O] in
theorem Start.ready [DecidableEq C] {module topic : String} {s : Peers P O V C}
    (h : Start module topic s) (p : P) : Ready module topic (s.process p) := by
  obtain ⟨identification, r, rfl, hr, -, hs⟩ := h.created p
  obtain ⟨timedCache, ht, -, hinst, hl⟩ := Process.instanceOf_new rfl hs
  constructor
  · refine ⟨_, by rw [hinst, Function.update_self], (TimedCache.new_spec hr ht).1, fun l hmem => ?_⟩
    rcases hl topic l hmem with hmem | ⟨-, hcallBack⟩
    · simp [Process.init] at hmem
    · exact hcallBack
  · intro name hn
    rw [hinst, Function.update_of_ne hn]
    rfl

theorem Step.processed_spec {module topic : String} {s s' : Peers P O V C} {p : P} {i : Nat}
    {env : Env O V C} {issued : List (Issued O V)} {accepted : Bool}
    (h : Step module topic s (.processed p i env issued accepted) s') :
    ∃ message listener, s.sent[i]? = some message ∧
      listener ∈ ((s.process p).consumers.listenerList topic).getD [] ∧
      (s.process p).excute env listener.callBack (some message) =
        some (s'.process p, issued, accepted) := by
  cases h with
  | processed hm _ hl he => exact ⟨_, _, hm, hl, he.trans (by simp)⟩

/-- **What a peer answers after it has processed a message.** A value that it looks up was put
later, or its callback has returned it, unless the callback has returned null for a key that the
cache answered. -/
theorem peer_invalidated [DecidableEq C] {module topic key : String} {s₀ s₁ s₂ s₃ s₄ : Peers P O V C}
    {before after : List (Event P O V C)} {p : P} {i : Nat} {sender : Host} {env : Env O V C}
    {issued : List (Issued O V)} {c : Call (Key O) V} {v : V} (h₀ : Start module topic s₀)
    (hbefore : Run (Step module topic) s₀ before s₁)
    (hsent : s₁.sent[i]? = some (TimedCacheFactory.deleteMessage sender module (.string key : Key O)))
    (hsender : sender.toString ≠ (s₁.process p).identification.toString)
    (hprocessed : Step module topic s₁ (.processed p i env issued true) s₂)
    (hafter : Run (Step module topic) s₂ after s₃)
    (hcalled : Step module topic s₃ (.called p c (.value (some v))) s₄) (hc : c.looksUp (.string key))
    (hmodule : Plain module) (hkey : Plain key)
    (hnull : ∀ inst cb, (s₁.process p).INSTANCE_LIST module = some inst →
      inst.removeCallBack = some cb →
      Process.Answers inst.timedCache key env.groupNow env.now →
      env.getItem cb (.string key) ≠ .ok none) :
    (∃ inst cb, (s₁.process p).INSTANCE_LIST module = some inst ∧ inst.removeCallBack = some cb ∧
      env.getItem cb (.string key) = .ok (some v)) ∨
    ∃ l ∈ after.flatMap (Event.callsOn p), ∃ g now, l.1 = .put (.string key) (some v) g now := by
  have hready₁ : ∀ p, Ready module topic (s₁.process p) := fun p =>
    (run_calls h₀.ready hbefore p).1
  have hready₂ : ∀ p, Ready module topic (s₂.process p) := fun p =>
    (step_calls hready₁ hprocessed p).1
  obtain ⟨-, inst₂, cache₃, hinst₂, hrun, hinst₃⟩ := run_calls hready₂ hafter p
  obtain ⟨inst, hinst, hi, hlisteners⟩ := (hready₁ p).inst
  obtain ⟨message, listener, hm, hl, he⟩ := hprocessed.processed_spec
  obtain rfl := Option.some.inj (hm.symm.trans hsent)
  obtain ⟨cache₂, calls, hacts, hs₂, -⟩ :=
    Process.excute_spec (target_address hsender _ hmodule hkey) hinst he
  rw [hs₂, Process.setCache_self] at hinst₂
  cases hinst₂
  cases hcalled with
  | called hinst₃' hcall =>
    obtain rfl := Option.some.inj (hinst₃.symm.trans hinst₃')
    have hi₂ : cache₂.Inv := (TimedCache.run_refines hi hacts.run).1
    rcases TimedCache.looked_up hi₂ hrun hc hcall with hv | hput
    · rw [hlisteners _ hl] at hacts
      obtain ⟨-, cb, hcb, hitem⟩ := hacts.deleted hi (fun cb hcb => hnull inst cb hinst hcb) hv
      exact Or.inl ⟨inst, cb, hinst, hcb, hitem⟩
    · exact Or.inr hput

/-- Two processes, and a callback that returns `item` to the one that has `k`. -/
theorem two_peers {item : Option Nat} (hitem : item = some 9 ∨ item = none) :
    ∃ (s₀ s₁ s₂ s₃ : Peers Bool String Nat Nat) (issued : List (Issued String Nat)),
      Start "u" "cache_clear" s₀ ∧
      Run (Step "u" "cache_clear") s₀ [.called true (.put (.string "k") (some 7) none 5) (.value none),
        .removed false (.string "k") [(.remove (.string "k"), .value none)]] s₁ ∧
      s₁.sent[0]? = some (TimedCacheFactory.deleteMessage ⟨some "10.0.0.1", 7080⟩ "u"
        (.string "k" : Key String)) ∧
      (s₁.process true).identification = ⟨some "10.0.0.2", 7090⟩ ∧
      Step "u" "cache_clear" s₁ (.processed true 0 ⟨fun _ _ => .ok item, 6, 6, 6⟩ issued true) s₂ ∧
      Step "u" "cache_clear" s₂
        (.called true (.get (.string "k") 6 6) (.value (some (item.getD 7)))) s₃ := by
  let r : Request Nat := .getInstanceCallBack "u" 4 100 none (some 1)
  let env : Env String Nat Nat := ⟨fun _ _ => .ok item, 6, 6, 6⟩
  let k : Key String := .string "k"
  let message := TimedCacheFactory.deleteMessage ⟨some "10.0.0.1", 7080⟩ "u" k
  have hscript : (do
      let a ← (Process.init ⟨some "10.0.0.1", 7080⟩ : Process String Nat Nat).instanceOf r
      let b ← (Process.init ⟨some "10.0.0.2", 7090⟩ : Process String Nat Nat).instanceOf r
      let inst ← a.INSTANCE_LIST "u"
      let inst' ← b.INSTANCE_LIST "u"
      let put ← inst'.timedCache.call (.put k (some 7) none 5)
      let removed ← inst.remove ⟨some "10.0.0.1", 7080⟩ env k
      let listeners ← b.consumers.listenerList "cache_clear"
      let done ← (b.setCache "u" inst' put.1).excute env (some 1) (some message)
      let inst'' ← done.1.INSTANCE_LIST "u"
      let get ← inst''.timedCache.call (.get k 6 6)
      some (decide (put.2 = .value none ∧ removed.2.1 = [message] ∧
        removed.2.2.1 = [(.remove k, .value none)] ∧ listeners = [⟨0, some 1⟩] ∧
        done.2.2 = true ∧ get.2 = .value (some (item.getD 7))))) = some true := by
    rcases hitem with rfl | rfl
    · decide
    · decide
  obtain ⟨a, ha, hscript⟩ := Option.bind_eq_some_iff.mp hscript
  obtain ⟨b, hb, hscript⟩ := Option.bind_eq_some_iff.mp hscript
  obtain ⟨inst, hinst, hscript⟩ := Option.bind_eq_some_iff.mp hscript
  obtain ⟨inst', hinst', hscript⟩ := Option.bind_eq_some_iff.mp hscript
  obtain ⟨⟨cache, answer⟩, hput, hscript⟩ := Option.bind_eq_some_iff.mp hscript
  obtain ⟨⟨removed, produced, calls, outcome⟩, hremoved, hscript⟩ := Option.bind_eq_some_iff.mp hscript
  obtain ⟨listeners, hlisteners, hscript⟩ := Option.bind_eq_some_iff.mp hscript
  obtain ⟨⟨done, issued, accepted⟩, hdone, hscript⟩ := Option.bind_eq_some_iff.mp hscript
  obtain ⟨inst'', hinst'', hscript⟩ := Option.bind_eq_some_iff.mp hscript
  obtain ⟨⟨cache', answer'⟩, hget, hscript⟩ := Option.bind_eq_some_iff.mp hscript
  obtain ⟨rfl, rfl, rfl, rfl, rfl, rfl⟩ := of_decide_eq_true (Option.some.inj hscript)
  obtain ⟨-, -, hida, -⟩ := Process.instanceOf_new rfl ha
  obtain ⟨-, -, hidb, -⟩ := Process.instanceOf_new rfl hb
  let s₀ : Peers Bool String Nat Nat := ⟨fun p => if p then b else a, [], fun _ => []⟩
  have hstart : Start "u" "cache_clear" s₀ := by
    refine ⟨fun p => ?_, rfl, fun _ => rfl⟩
    cases p with
    | false => exact ⟨_, r, rfl, by decide, rfl, ha⟩
    | true => exact ⟨_, r, rfl, by decide, rfl, hb⟩
  let b₁ := b.setCache "u" inst' cache
  let a₁ := a.setCache "u" inst removed.timedCache
  let s₁ : Peers Bool String Nat Nat := ⟨update (update s₀.process true b₁) false a₁, [message], s₀.done⟩
  have hremoved' : inst.remove a.identification env k =
      some (removed, [message], [(.remove k, .value none)], outcome) := by
    rw [hida]
    exact hremoved
  have hrun : Run (Step "u" "cache_clear") s₀ [.called true (.put k (some 7) none 5) (.value none),
      .removed false k [(.remove k, .value none)]] s₁ :=
    (Run.single (.called hinst' hput)).snoc (.removed (p := false) hinst hremoved')
  let s₂ : Peers Bool String Nat Nat := ⟨update s₁.process true done, [message], update s₁.done true [0]⟩
  have hlistener : (⟨0, some 1⟩ : Listener Nat) ∈
      ((s₁.process true).consumers.listenerList "cache_clear").getD [] := by
    rw [show (s₁.process true).consumers = b.consumers from rfl, hlisteners]
    exact List.mem_singleton_self _
  have hprocessed : Step "u" "cache_clear" s₁ (.processed true 0 env issued true) s₂ :=
    .processed rfl (by simp [s₁, s₀]) hlistener hdone
  exact ⟨s₀, s₁, s₂, _, issued, hstart, hrun, rfl, hidb, hprocessed, .called (p := true) hinst'' hget⟩

theorem peer_invalidated_reloaded :
    ∃ (s₁ s₂ s₃ : Peers Bool String Nat Nat) (issued : List (Issued String Nat)),
      Step "u" "cache_clear" s₁ (.processed true 0 ⟨fun _ _ => .ok (some 9), 6, 6, 6⟩ issued true) s₂ ∧
      Step "u" "cache_clear" s₂ (.called true (.get (.string "k") 6 6) (.value (some 9))) s₃ ∧
      ((∃ inst cb, (s₁.process true).INSTANCE_LIST "u" = some inst ∧
        inst.removeCallBack = some cb ∧
        (.ok (some 9) : Outcome (Option Nat)) = .ok (some 9)) ∨
      ∃ l ∈ ([] : List (Event Bool String Nat Nat)).flatMap (Event.callsOn true), ∃ g now,
        l.1 = .put (.string "k") (some 9) g now) := by
  obtain ⟨s₀, s₁, s₂, s₃, issued, h₀, hrun, hsent, hid, hprocessed, hcalled⟩ :=
    two_peers (Or.inl rfl)
  exact ⟨s₁, s₂, s₃, issued, hprocessed, hcalled, peer_invalidated h₀ hrun hsent
    (by rw [hid]; decide) hprocessed .nil hcalled (Or.inl ⟨6, 6, rfl⟩) (by decide) (by decide)
    fun _ _ _ _ _ h => by cases h⟩

/-- The callback finds that the object was deleted, and the peer keeps its value. -/
theorem peer_keeps_deleted :
    ∃ (s₀ s₁ s₂ s₃ : Peers Bool String Nat Nat) (issued : List (Issued String Nat)),
      Start "u" "cache_clear" s₀ ∧
      Run (Step "u" "cache_clear") s₀ [.called true (.put (.string "k") (some 7) none 5) (.value none),
        .removed false (.string "k") [(.remove (.string "k"), .value none)]] s₁ ∧
      s₁.sent[0]? = some (TimedCacheFactory.deleteMessage ⟨some "10.0.0.1", 7080⟩ "u"
        (.string "k" : Key String)) ∧
      (s₁.process true).identification = ⟨some "10.0.0.2", 7090⟩ ∧
      Step "u" "cache_clear" s₁ (.processed true 0 ⟨fun _ _ => .ok none, 6, 6, 6⟩ issued true) s₂ ∧
      Step "u" "cache_clear" s₂ (.called true (.get (.string "k") 6 6) (.value (some 7))) s₃ :=
  two_peers (Or.inr rfl)

end Peers

end BaseService.LocalCache
