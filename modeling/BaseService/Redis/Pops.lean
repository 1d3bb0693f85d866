import BaseService.Redis.Replicas

/-!
# What pops return

Calls on both pools, one after the other. What a pop returns is what the slave answers; what it takes
out is what the master loses.

* `elements` : the elements of a value; `push_exec`, `pop_exec` : what the commands make of them;
* `Call` : the calls that store elements and those that take them out;
* `Deliveries`, `Deliveries.Step` : the pools, with what callers got and what the master has lost;
* `Once` : these are the same elements; `once_iff` : that is so after a call just if `spop` makes the
  same choice on both servers;
* `popped_once_iff` : runs in which every element is delivered once.
-/

namespace BaseService.Redis
open Function (update)

/-! ## Elements -/

/-- The elements of a list or a set. -/
def elements : Option Value → Multiset String
  | some (.list l) => l
  | some (.set s) => s.val
  | _ => 0

@[simp]
theorem elements_list (l : List String) : elements (Value.list l).stored = l := by
  cases l <;> rfl

@[simp]
theorem elements_set (s : Finset String) : elements (Value.set s).stored = s.val := by
  rw [Value.stored]
  split
  · next hs => rw [hs]; rfl
  · rfl

/-- The element in what a pop returns. -/
def Returned.element : Returned → Multiset String
  | .string s => {s}
  | _ => 0

def Cmd.Pushes : Cmd → Prop
  | .lpush _ | .rpush _ | .sadd _ => True
  | _ => False

def Cmd.Pops : Cmd → Prop
  | .lpop | .rpop | .spop _ => True
  | _ => False

theorem elements_listOf {v : Option Value} {l : List String} (h : Cmd.listOf v = some l) :
    elements v = l := by
  rcases v with _ | _ | _ | _ | _ | _ <;> cases h <;> rfl

theorem elements_setOf {v : Option Value} {s : Finset String} (h : Cmd.setOf v = some s) :
    elements v = s.val := by
  rcases v with _ | _ | _ | _ | _ | _ <;> cases h <;> rfl

theorem push_exec {cmd : Cmd} (hcmd : cmd.Pushes) {v v' : Option Value} {reply : Reply}
    (h : cmd.exec v = some (v', reply)) : elements v ≤ elements v' := by
  have hlist (hl : cmd.OnLists)
      (hpush : ∀ l l', cmd.execList l = some (l', reply) → l.Sublist l') : elements v ≤ elements v' := by
    rw [Cmd.exec_list hl] at h
    obtain ⟨l, hv, h⟩ := Option.bind_eq_some_iff.1 h
    obtain ⟨r, hr, heq⟩ := Option.map_eq_some_iff.1 h
    cases heq
    rw [elements_listOf hv, elements_list]
    exact (hpush l r.1 hr).subperm
  cases cmd with
  | lpush vs =>
    refine hlist trivial fun l l' hexec => ?_
    cases vs with
    | nil => cases hexec
    | cons v vs =>
      cases hexec
      exact List.sublist_append_right _ _
  | rpush vs =>
    refine hlist trivial fun l l' hexec => ?_
    cases vs with
    | nil => cases hexec
    | cons v vs =>
      cases hexec
      exact List.sublist_append_left _ _
  | sadd ms =>
    have hset : (Cmd.sadd ms).OnSets := trivial
    rw [Cmd.exec_set hset] at h
    obtain ⟨s, hv, h⟩ := Option.bind_eq_some_iff.1 h
    obtain ⟨r, hr, heq⟩ := Option.map_eq_some_iff.1 h
    cases heq
    rw [elements_setOf hv, elements_set]
    cases ms with
    | nil => cases hr
    | cons m ms =>
      cases hr
      exact Finset.val_le_iff.2 Finset.subset_union_left
  | _ => exact hcmd.elim

theorem pop_exec {cmd : Cmd} (hcmd : cmd.Pops) {v v' : Option Value} {reply : Reply}
    (h : cmd.exec v = some (v', reply)) : elements v = elements v' + (bulk [reply]).element := by
  cases cmd with
  | lpop =>
    rcases v with _ | _ | l | _ | _ | _
    case none =>
      cases h
      rfl
    case some.list =>
      cases h
      rw [elements_list]
      cases l with
      | nil => rfl
      | cons x l => exact (Multiset.singleton_add x ↑l).symm.trans (add_comm ..)
    all_goals cases h
  | rpop =>
    rcases v with _ | _ | l | _ | _ | _
    case none =>
      cases h
      rfl
    case some.list =>
      cases h
      rw [elements_list]
      rcases l.eq_nil_or_concat with rfl | ⟨l, x, rfl⟩
      · rfl
      · rw [List.concat_eq_append, List.dropLast_concat, List.getLast?_concat]
        rfl
    all_goals cases h
  | spop pick =>
    rcases v with _ | _ | _ | s | _ | _
    case none =>
      cases h
      rfl
    case some.set =>
      obtain ⟨⟨s', reply'⟩, hexec, heq⟩ := Option.map_eq_some_iff.1 h
      cases heq
      rw [elements_set]
      rw [Cmd.execSet] at hexec
      split_ifs at hexec with hs hpick
      · cases hexec
        exact (add_zero _).symm
      · cases hexec
        have herase : pick ::ₘ (s.erase pick).val = s.val := Multiset.cons_erase hpick
        rw [elements, ← herase, add_comm]
        exact (Multiset.singleton_add ..).symm
    all_goals cases h
  | _ => exact hcmd.elim

theorem spop_empty {v : Option Value} (h : elements v = 0) (pick pick' : String) :
    (Cmd.spop pick').exec v = (Cmd.spop pick).exec v := by
  rcases v with _ | _ | _ | s | _ | _
  case some.set =>
    obtain rfl : s = ∅ := Finset.val_eq_zero.1 h
    rfl
  all_goals rfl

theorem spop_reply {pick : String} {v v' : Option Value} {reply : Reply}
    (h : (Cmd.spop pick).exec v = some (v', reply)) (hne : elements v ≠ 0) :
    reply = .bulk (some pick) := by
  rcases v with _ | _ | _ | s | _ | _
  case some.set =>
    obtain ⟨⟨s', reply'⟩, hexec, heq⟩ := Option.map_eq_some_iff.1 h
    cases heq
    rw [Cmd.execSet, if_neg fun hs => hne (Finset.val_eq_zero.2 hs)] at hexec
    split at hexec
    · cases hexec
      rfl
    · cases hexec
  case none => exact absurd rfl hne
  all_goals cases h

/-! ## The calls -/

inductive Call
  | lpush (key value : String)
  | lpushList (key : String) (values : List String)
  | lpushStrings (key : String) (strings : List String)
  | rpush (key value : String)
  | rpushList (key : String) (values : List String)
  | rpushStrings (key : String) (strings : List String)
  | sadd (key member : String)
  | saddList (key : String) (members : List String)
  | lpop (key : String)
  | rpop (key : String)
  | spop (key : String)
  deriving DecidableEq

namespace Call

def call : Call → PoolCall
  | lpush key value => SmcJedis.lpush key value
  | lpushList key values => SmcJedis.lpushList key values
  | lpushStrings key strings => SmcJedis.lpushStrings key strings
  | rpush key value => SmcJedis.rpush key value
  | rpushList key values => SmcJedis.rpushList key values
  | rpushStrings key strings => SmcJedis.rpushStrings key strings
  | sadd key member => SmcJedis.sadd key member
  | saddList key members => SmcJedis.saddList key members
  | lpop key => SmcJedis.lpop key
  | rpop key => SmcJedis.rpop key
  | spop key => SmcJedis.spop key

def key : Call → String
  | lpush key _ | lpushList key _ | lpushStrings key _ | rpush key _ | rpushList key _
  | rpushStrings key _ | sadd key _ | saddList key _ | lpop key | rpop key | spop key => key

/-- What the caller gets of the key's elements, if the call returns `result`. -/
def delivers (call : Call) (result : Returned) : Multiset String :=
  match call with
  | lpop _ | rpop _ | spop _ => result.element
  | _ => 0

/-- Either a pop of one command, or commands that only add elements. -/
theorem call_cases (call : Call) (pick : String) :
    (∃ cmd, cmd.Pops ∧ call.call.commands pick = some [⟨call.key, cmd⟩] ∧ call.call.value = bulk ∧
      call.delivers = Returned.element) ∨
    ∃ cs, (∀ c ∈ cs, c.key = call.key ∧ c.cmd.Pushes) ∧ call.call.commands pick = some cs ∧
      call.delivers = fun _ => 0 := by
  cases call with
  | lpop key => exact .inl ⟨.lpop, trivial, rfl, rfl, rfl⟩
  | rpop key => exact .inl ⟨.rpop, trivial, rfl, rfl, rfl⟩
  | spop key => exact .inl ⟨.spop pick, trivial, rfl, rfl, rfl⟩
  | lpushList | rpushList | saddList =>
    refine .inr ⟨_, fun c hc => ?_, rfl, rfl⟩
    obtain ⟨value, -, rfl⟩ := List.mem_map.1 hc
    exact ⟨rfl, trivial⟩
  | lpush | lpushStrings | rpush | rpushStrings | sadd =>
    refine .inr ⟨_, fun c hc => ?_, rfl, rfl⟩
    obtain rfl := List.mem_singleton.1 hc
    exact ⟨rfl, trivial⟩

/-- What the key loses between the two states of a server. -/
def loss (s s' : Server) (key : String) : Multiset String := elements (s key) - elements (s' key)

theorem loss_self (s : Server) {s' : Server} {key : String} (h : s' key = s key) :
    loss s s' key = 0 := by
  rw [loss, h]
  exact tsub_self _

theorem exec_of_ne {c : Command} {s s' : Server} {reply : Reply} (h : c.exec s = some (s', reply))
    {key : String} (hkey : key ≠ c.key) : s' key = s key := by
  obtain ⟨r, -, heq⟩ := Option.map_eq_some_iff.1 h
  cases heq
  exact Function.update_of_ne hkey ..

theorem pushes_grow {cs : List Command} (hcs : ∀ c ∈ cs, c.cmd.Pushes) {s s' : Server}
    {replies : List Reply} (h : execAll cs s = some (s', replies)) (key : String) :
    elements (s key) ≤ elements (s' key) := by
  induction cs generalizing s replies with
  | nil =>
    cases h
    exact le_refl _
  | cons c cs ih =>
    obtain ⟨⟨s₁, reply⟩, hc, hbind⟩ := Option.bind_eq_some_iff.1 h
    obtain ⟨⟨s₂, replies'⟩, hrest, heq⟩ := Option.bind_eq_some_iff.1 hbind
    cases heq
    have hfirst : elements (s key) ≤ elements (s₁ key) := by
      by_cases hkey : key = c.key
      · obtain ⟨⟨v, reply'⟩, hexec, heq⟩ := Option.map_eq_some_iff.1 hc
        cases heq
        rw [hkey, Function.update_self]
        exact push_exec (hcs c List.mem_cons_self) hexec
      · rw [exec_of_ne hc hkey]
    exact hfirst.trans (ih (fun d hd => hcs d (List.mem_cons_of_mem _ hd)) hrest)

/-- What the pool loses is what the call delivers from it. -/
theorem on_spec {call : Call} {pick : String} {pool : Pool}
    (h : (Op.exec ⟨call.call, pick⟩ pool.server).isSome) :
    ∃ result pool', call.call.on pick none pool = (some result, pool') ∧
      Op.exec ⟨call.call, pick⟩ pool.server = some pool'.server ∧
      ∀ key, loss pool.server pool'.server key = if key = call.key then call.delivers result else 0 := by
  obtain ⟨s, hs⟩ := Option.isSome_iff_exists.1 h
  obtain ⟨cs, hcs, hexec⟩ := Option.bind_eq_some_iff.1 hs
  rw [← Op.execAll_fst] at hexec
  obtain ⟨⟨s', replies⟩, hall, rfl⟩ := Option.map_eq_some_iff.1 hexec
  refine ⟨_, _, PoolCall.on_exec hcs hall, hs, fun key => ?_⟩
  rcases call.call_cases pick with ⟨cmd, hcmd, hcs', hvalue, hdelivers⟩ | ⟨cs', hpushes, hcs', hdelivers⟩
  · rw [hcs, Option.some.injEq] at hcs'
    subst hcs'
    obtain ⟨⟨s₁, reply⟩, hc, hbind⟩ := Option.bind_eq_some_iff.1 hall
    cases hbind
    rw [hvalue, hdelivers]
    split_ifs with hkey
    · obtain ⟨⟨v, reply'⟩, hreply, heq⟩ := Option.map_eq_some_iff.1 hc
      cases heq
      have hlost : elements (pool.server call.key) = elements v + (bulk [reply']).element :=
        pop_exec hcmd hreply
      subst hkey
      show elements (pool.server call.key) - elements (update pool.server call.key v call.key) =
        (bulk [reply']).element
      rw [Function.update_self, hlost]
      exact add_tsub_cancel_left ..
    · exact loss_self _ (exec_of_ne hc hkey)
  · rw [hcs, Option.some.injEq] at hcs'
    subst hcs'
    have hgrow := pushes_grow (fun c hc => (hpushes c hc).2) hall key
    rw [hdelivers, ite_self, loss]
    exact tsub_eq_zero_of_le hgrow

theorem exec_spop (key pick : String) (s : Server) :
    Op.exec ⟨(spop key).call, pick⟩ s =
      ((Cmd.spop pick).exec (s key)).map fun r => update s key r.1 := by
  rw [← Command.apply_eq ⟨key, .spop pick⟩]
  exact Option.bind_fun_some _

/-- The element that leaves a server is its choice. -/
theorem spop_loss {key pick : String} {s s' : Server}
    (h : Op.exec ⟨(spop key).call, pick⟩ s = some s') (hne : elements (s key) ≠ 0) :
    loss s s' key = {pick} := by
  rw [exec_spop] at h
  obtain ⟨⟨v, reply⟩, hexec, rfl⟩ := Option.map_eq_some_iff.1 h
  have hlost : elements (s key) = elements v + {pick} := by
    rw [pop_exec (show (Cmd.spop pick).Pops from trivial) hexec, spop_reply hexec hne]
    rfl
  rw [loss, Function.update_self, hlost]
  exact add_tsub_cancel_left ..

/-- The choice does not matter for other calls, nor where there is none. -/
theorem exec_choice {call : Call} {pick pick' : String} {s : Server}
    (h : ∀ key, call = .spop key → elements (s key) ≠ 0 → pick' = pick) :
    Op.exec ⟨call.call, pick'⟩ s = Op.exec ⟨call.call, pick⟩ s := by
  cases call with
  | spop key =>
    by_cases hne : elements (s key) = 0
    · rw [exec_spop, exec_spop, spop_empty hne pick pick']
    · rw [h key rfl hne]
  | _ => rfl

end Call

/-! ## Runs of calls -/

structure Deliveries where
  pools : Pools
  /-- What the callers got from the key. -/
  returned : String → Multiset String
  /-- What the master has lost of the key. -/
  removed : String → Multiset String

/-- A call, and the members that `spop` happens to choose on the master and on the slave. -/
structure Called where
  call : Call
  pick : String
  pick' : String

namespace Deliveries

def start (pools : Pools) : Deliveries := ⟨pools, fun _ => 0, fun _ => 0⟩

/-- A call that fails on neither server. -/
inductive Step (this : SmcJedis) : Deliveries → Called → Deliveries → Prop
  | call {d : Deliveries} {l : Called} {result : Returned} {pools : Pools} :
    (Op.exec ⟨l.call.call, l.pick⟩ d.pools.master.server).isSome →
      (Op.exec ⟨l.call.call, l.pick'⟩ d.pools.slave.server).isSome →
      this.write l.call.call ⟨none, none, l.pick, l.pick'⟩ d.pools = (some result, pools) →
      Step this d l
        ⟨pools, update d.returned l.call.key (d.returned l.call.key + l.call.delivers result),
          fun key => d.removed key + Call.loss d.pools.master.server pools.master.server key⟩

/-- What has left the master is what the callers got, each element as often as the other. -/
def Once (d : Deliveries) : Prop := ∀ key, d.returned key = d.removed key

/-- `spop` makes the same choice on both servers, if there is one. -/
def SameChoice (d : Deliveries) (l : Called) : Prop :=
  ∀ key, l.call = .spop key → elements (d.pools.master.server key) ≠ 0 → l.pick' = l.pick

section
variable {this : SmcJedis} (hboth : this.failover ∧ this.clientSlaver)
include hboth

/-- What a call does on either server. -/
theorem step_spec {d d' : Deliveries} {l : Called} (h : Step this d l d') :
    Op.exec ⟨l.call.call, l.pick⟩ d.pools.master.server = some d'.pools.master.server ∧
      Op.exec ⟨l.call.call, l.pick'⟩ d.pools.slave.server = some d'.pools.slave.server ∧
      d'.returned = update d.returned l.call.key (d.returned l.call.key +
        Call.loss d.pools.slave.server d'.pools.slave.server l.call.key) ∧
      d'.removed = update d.removed l.call.key (d.removed l.call.key +
        Call.loss d.pools.master.server d'.pools.master.server l.call.key) := by
  obtain ⟨hmaster, hslave, hwrite⟩ := h
  obtain ⟨result, master, hon, hexec, hloss⟩ := Call.on_spec hmaster
  obtain ⟨result', slave, hon', hexec', hloss'⟩ := Call.on_spec hslave
  rw [SmcJedis.write, hon, hon'] at hwrite
  simp only [if_pos hboth] at hwrite
  cases hwrite
  refine ⟨hexec, hexec', ?_, ?_⟩
  · rw [hloss', if_pos rfl]
  · funext key
    by_cases hkey : key = l.call.key
    · subst hkey
      rw [Function.update_self]
    · rw [Function.update_of_ne hkey]
      exact (congrArg (d.removed key + ·) ((hloss key).trans (if_neg hkey))).trans (add_zero _)

theorem exists_step {d : Deliveries} {l : Called}
    (h : (Op.exec ⟨l.call.call, l.pick⟩ d.pools.master.server).isSome)
    (h' : (Op.exec ⟨l.call.call, l.pick'⟩ d.pools.slave.server).isSome) : ∃ d', Step this d l d' := by
  obtain ⟨result, master, hon, -, -⟩ := Call.on_spec h
  obtain ⟨result', slave, hon', -, -⟩ := Call.on_spec h'
  refine ⟨_, .call h h' (?_ : _ = (some result', ⟨master, slave⟩))⟩
  rw [SmcJedis.write, hon, hon']
  simp only [if_pos hboth]

/-- With the same choice both servers do the same. -/
theorem same_of_choice {d d' : Deliveries} {l : Called}
    (heq : d.pools.master.server = d.pools.slave.server) (h : Step this d l d')
    (hchoice : d.SameChoice l) : d'.pools.master.server = d'.pools.slave.server := by
  obtain ⟨hexec, hexec', -, -⟩ := step_spec hboth h
  have hsame := Call.exec_choice fun key hspop hne => hchoice key hspop hne
  rw [← heq, hsame, hexec] at hexec'
  exact Option.some.inj hexec'

/-- **When a call delivers each element once.** -/
theorem once_iff {d d' : Deliveries} {l : Called}
    (heq : d.pools.master.server = d.pools.slave.server) (honce : d.Once) (h : Step this d l d') :
    d'.Once ↔ d.SameChoice l := by
  obtain ⟨hexec, hexec', hreturned, hremoved⟩ := step_spec hboth h
  have hloss : d'.Once ↔ Call.loss d.pools.slave.server d'.pools.slave.server l.call.key =
      Call.loss d.pools.master.server d'.pools.master.server l.call.key := by
    rw [Once, hreturned, hremoved]
    constructor
    · intro hall
      have hkey := hall l.call.key
      rw [Function.update_self, Function.update_self, honce] at hkey
      exact add_left_cancel hkey
    · intro hsame key
      rw [hsame, honce l.call.key, show d.returned = d.removed from funext honce]
  rw [hloss]
  constructor
  · intro hsame key hspop hne
    have hkey : l.call.key = key := by rw [hspop]; rfl
    rw [hspop] at hexec hexec'
    rw [hkey, Call.spop_loss hexec hne, Call.spop_loss hexec' (by rwa [← heq])] at hsame
    exact Multiset.singleton_inj.1 hsame
  · intro hchoice
    rw [same_of_choice hboth heq h hchoice, heq]

theorem popped_once_iff {pools : Pools} (heq : pools.master.server = pools.slave.server)
    {ls : List Called} {d : Deliveries} :
    Run (fun d l d' => Step this d l d' ∧ d'.Once) (start pools) ls d ↔
      Run (fun d l d' => Step this d l d' ∧ d.SameChoice l) (start pools) ls d := by
  refine Run.congr (I := fun d => d.pools.master.server = d.pools.slave.server ∧ d.Once)
    ⟨heq, fun _ => rfl⟩ ?_ ?_
  · rintro d l d' ⟨heq, honce⟩
    exact and_congr_right (once_iff hboth heq honce)
  · rintro d l d' ⟨heq, honce⟩ ⟨hstep, honce'⟩
    exact ⟨same_of_choice hboth heq hstep ((once_iff hboth heq honce hstep).1 honce'), honce'⟩

end

/-- A set of two members on both servers. -/
def pair : Pool := ⟨update (fun _ => none) "s" (some (.set {"a", "b"})), []⟩

theorem step_pair_spop (pick' : String) (h : pick' ∈ ({"a", "b"} : Finset String)) :
    ∃ d, Step ⟨true, true⟩ (start ⟨pair, pair⟩) ⟨.spop "s", "a", pick'⟩ d ∧
      d.returned "s" = {pick'} ∧ d.removed "s" = {"a"} := by
  have hvalue : pair.server "s" = some (.set {"a", "b"}) := by simp [pair]
  have hexec (pick : String) (hpick : pick ∈ ({"a", "b"} : Finset String)) :
      (Op.exec ⟨(Call.spop "s").call, pick⟩ pair.server).isSome := by
    rw [Call.exec_spop, hvalue, Option.isSome_map]
    show (Option.map _ (Cmd.execSet {"a", "b"} (.spop pick))).isSome
    rw [Cmd.execSet, if_neg (by decide), if_pos hpick]
    rfl
  have hne : elements (pair.server "s") ≠ 0 := by
    rw [hvalue]
    exact fun h => absurd (Finset.val_eq_zero.1 h) (by decide)
  obtain ⟨d, hstep⟩ : ∃ d, Step ⟨true, true⟩ (start ⟨pair, pair⟩) ⟨.spop "s", "a", pick'⟩ d :=
    exists_step ⟨rfl, rfl⟩ (hexec "a" (by decide)) (hexec pick' h)
  obtain ⟨hmaster, hslave, hreturned, hremoved⟩ := step_spec ⟨rfl, rfl⟩ hstep
  refine ⟨d, hstep, ?_, ?_⟩
  · have hlost := Call.spop_loss hslave hne
    rw [hreturned]
    exact (Function.update_self ..).trans ((zero_add _).trans hlost)
  · have hlost := Call.spop_loss hmaster hne
    rw [hremoved]
    exact (Function.update_self ..).trans ((zero_add _).trans hlost)

/-- A run with a pop that both servers answer with the same member. -/
theorem popped_once_pair : ∃ d, Run (fun d l d' => Step ⟨true, true⟩ d l d' ∧ d'.Once)
    (start ⟨pair, pair⟩) [⟨.spop "s", "a", "a"⟩] d ∧ d.returned "s" = {"a"} := by
  obtain ⟨d, hstep, hreturned, -⟩ := step_pair_spop "a" (by decide)
  exact ⟨d, (popped_once_iff ⟨rfl, rfl⟩ rfl).2 (.single ⟨hstep, fun _ _ _ => rfl⟩), hreturned⟩

/-- The caller gets `b`, the master loses `a`. -/
theorem popped_other : ¬ ∀ (ls : List Called) (d : Deliveries),
    Run (Step ⟨true, true⟩) (start ⟨pair, pair⟩) ls d → d.Once := by
  intro h
  obtain ⟨d, hstep, hreturned, hremoved⟩ := step_pair_spop "b" (by decide)
  have honce := h _ _ (.single hstep) "s"
  rw [hreturned, hremoved] at honce
  exact absurd (Multiset.singleton_inj.1 honce) (by decide)

end Deliveries

end BaseService.Redis
