import BaseService.Redis.Loops

/-!
# Writes that reads see

Reads use the master. What a write returns is what the slave answered, if there is one.

* `Write` : the writes that return a failure value, or nothing, when they fail;
* `Applied` : a pool has applied the commands of a write;
* `Overwritten` : the slave's answer hides that the master has not;
* `visible_iff` : a result other than the failure value says that the master has applied the write,
  just if it is not overwritten;
* `get_set` : then `get` returns what `set` has written.
-/

namespace BaseService.Redis

/-! ## The writes -/

inductive Write
  | set (key value : String)
  | zadd (key : String) (score : ℚ) (member : String)
  | zaddMap (key : String) (members : List (ℚ × String))
  | zrem (key member : String)
  | zremList (key : String) (members : List String) (isStringArray : Bool)
  | zremrangeByScore (key : String) (min max : ℚ)
  | zremrangeByRank (key : String) (start stop : Int)
  | rpush (key value : String)
  | rpushList (key : String) (values : List String)
  | rpushStrings (key : String) (strings : List String)

def Write.call : Write → PoolCall
  | set key value => SmcJedis.set key value
  | zadd key score member => SmcJedis.zadd key score member
  | zaddMap key members => SmcJedis.zaddMap key members
  | zrem key member => SmcJedis.zrem key member
  | zremList key members isStringArray => SmcJedis.zremList key members isStringArray
  | zremrangeByScore key min max => SmcJedis.zremrangeByScore key min max
  | zremrangeByRank key start stop => SmcJedis.zremrangeByRank key start stop
  | rpush key value => SmcJedis.rpush key value
  | rpushList key values => SmcJedis.rpushList key values
  | rpushStrings key strings => SmcJedis.rpushStrings key strings

/-- The commands of the write; `none` if it throws before it sends any. -/
def Write.commands (w : Write) : Option (List Command) := w.call.commands ""

/-- The failure values. -/
def Returned.Failure (v : Returned) : Prop := v = .null ∨ v = .long (-1)

/-- The writes one after the other. -/
def SmcJedis.writes (this : SmcJedis) : List (PoolCall × Circumstances) → Pools → Pools
  | [], pools => pools
  | (call, c) :: calls, pools => this.writes calls (this.write call c pools).2

/-! ## What a connection does to the commands -/

/-- The server has taken the commands, one after the other, and has changed by them alone. -/
def Applied (cs : List Command) (pool pool' : Pool) : Prop :=
  ∃ replies, execAll cs pool.server = some (pool'.server, replies) ∧
    pool'.applied = pool.applied ++ cs

/-- The connection lasts until the last command is sent, and the server rejects none. -/
def Arrives (cs : List Command) (lost : Option Nat) (server : Server) : Prop :=
  (∀ n ∈ lost, cs.length ≤ n) ∧ (execAll cs server).isSome

/-- The connection lasts until the last reply, and the server rejects no command. -/
def Answered (cs : List Command) (lost : Option Nat) (server : Server) : Prop :=
  lost = none ∧ (execAll cs server).isSome

theorem Answered.arrives {cs : List Command} {lost : Option Nat} {server : Server}
    (h : Answered cs lost server) : Arrives cs lost server := by
  refine ⟨?_, h.2⟩
  rw [h.1]
  simp

theorem execPool_applied (cs : List Command) (lost : Option Nat) (pool : Pool) :
    Applied cs pool (execPool cs lost pool).2 ↔ Arrives cs lost pool.server := by
  induction cs generalizing lost pool with
  | nil => simp [execPool, Applied, Arrives, execAll]
  | cons c cs ih =>
    by_cases hlost : lost = some 0
    · simp [execPool, hlost, Applied, Arrives]
    · cases hc : c.exec pool.server with
      | none => simp [execPool, hlost, hc, Applied, Arrives, execAll]
      | some r =>
        obtain ⟨server, reply⟩ := r
        have hrest : Applied (c :: cs) pool (execPool (c :: cs) lost pool).2 ↔
            Applied cs ⟨server, pool.applied ++ [c]⟩
              (execPool cs (lost.map (· - 1)) ⟨server, pool.applied ++ [c]⟩).2 := by
          simp [execPool, hlost, hc, Applied, execAll, Option.bind_eq_some_iff]
        have hlen : (∀ n ∈ lost.map (· - 1), cs.length ≤ n) ↔ ∀ n ∈ lost, cs.length + 1 ≤ n := by
          cases lost with
          | none => simp
          | some n =>
            have hn : n ≠ 0 := fun h => hlost (by rw [h])
            simp only [Option.map_some, Option.mem_def, Option.some.injEq, forall_eq']
            omega
        rw [hrest, ih]
        simp only [Arrives, hlen, List.length_cons, execAll, hc, Option.bind_eq_bind,
          Option.bind_some, Option.isSome_bind, Option.any_true, Option.isSome_some]

theorem execPool_replies {cs : List Command} {lost : Option Nat} {pool : Pool}
    {replies : List Reply} (h : (execPool cs lost pool).1 = some replies) :
    lost = none ∧ ∃ server, execAll cs pool.server = some (server, replies) := by
  induction cs generalizing lost pool replies with
  | nil =>
    simp only [execPool] at h
    split at h
    · next hlost => simp_all [execAll]
    · cases h
  | cons c cs ih =>
    rw [execPool] at h
    split at h
    · cases h
    · split at h
      · cases h
      · next server reply hc =>
        obtain ⟨rest, hrest, rfl⟩ := Option.map_eq_some_iff.1 h
        obtain ⟨hlost, server', hall⟩ := ih hrest
        refine ⟨Option.map_eq_none_iff.1 hlost, server', ?_⟩
        rw [execAll, hc]
        simp [hall]

theorem execPool_answers {cs : List Command} {lost : Option Nat} {pool : Pool}
    (h : Answered cs lost pool.server) : ∃ replies, (execPool cs lost pool).1 = some replies := by
  obtain ⟨rfl, hall⟩ := h
  induction cs generalizing pool with
  | nil => simp [execPool]
  | cons c cs ih =>
    rw [execAll] at hall
    cases hc : c.exec pool.server with
    | none => simp [hc] at hall
    | some r =>
      obtain ⟨server, reply⟩ := r
      have hrest : (execAll cs server).isSome := by
        cases hcs : execAll cs server <;> simp_all
      obtain ⟨replies, hreplies⟩ :
        ∃ replies, (execPool cs none ⟨server, pool.applied ++ [c]⟩).1 = some replies := ih hrest
      exact ⟨reply :: replies, by simp [execPool, hc, hreplies]⟩

/-! ## The replies -/

/-- The commands whose reply is a number of elements. -/
def Cmd.Counts : Cmd → Prop
  | .zadd _ _ | .zrem _ | .zremrangeByScore _ _ | .zremrangeByRank _ _ | .rpush _ => True
  | _ => False

theorem Cmd.Counts.exec {cmd : Cmd} (h : cmd.Counts) {v v' : Option Value} {reply : Reply}
    (hexec : cmd.exec v = some (v', reply)) :
    (∃ z z', execZSet z cmd = some (z', reply)) ∨ ∃ l l', execList l cmd = some (l', reply) := by
  have hkind : cmd.OnZSets ∨ cmd.OnLists := by
    cases cmd with
    | zadd | zrem | zremrangeByScore | zremrangeByRank => exact .inl trivial
    | rpush => exact .inr trivial
    | _ => exact h.elim
  rcases hkind with hkind | hkind
  · rw [exec_zset hkind] at hexec
    obtain ⟨z, -, hz⟩ := Option.bind_eq_some_iff.1 hexec
    obtain ⟨r, hr, heq⟩ := Option.map_eq_some_iff.1 hz
    cases heq
    exact .inl ⟨z, r.1, hr⟩
  · rw [exec_list hkind] at hexec
    obtain ⟨l, -, hl⟩ := Option.bind_eq_some_iff.1 hexec
    obtain ⟨r, hr, heq⟩ := Option.map_eq_some_iff.1 hl
    cases heq
    exact .inr ⟨l, r.1, hr⟩

theorem Cmd.Counts.reply {cmd : Cmd} (h : cmd.Counts) {v v' : Option Value} {reply : Reply}
    (hexec : cmd.exec v = some (v', reply)) : ∃ n : ℕ, reply = .integer n := by
  have length_sub {l l' : ZSet} (hle : l'.length ≤ l.length) :
      ∃ n : ℕ, (.integer (l.length - l'.length) : Reply) = .integer n :=
    ⟨l.length - l'.length, by rw [Nat.cast_sub hle]⟩
  rcases h.exec hexec with ⟨z, z', hz⟩ | ⟨l, l', hl⟩
  · cases cmd with
    | zadd score member =>
      cases hz
      exact ⟨if member ∈ ZSet.members z then 0 else 1, by split <;> rfl⟩
    | zrem ms =>
      cases ms with
      | nil => cases hz
      | cons m ms =>
        cases hz
        exact length_sub (List.length_filter_le _ _)
    | zremrangeByScore =>
      cases hz
      exact length_sub (List.length_filter_le _ _)
    | zremrangeByRank =>
      cases hz
      refine length_sub ?_
      rw [List.length_append, List.length_take, List.length_drop]
      omega
    | rpush => cases hz
    | _ => exact h.elim
  · cases cmd with
    | rpush vs =>
      cases vs with
      | nil => cases hl
      | cons v vs =>
        cases hl
        exact ⟨l.length + (v :: vs).length, by rw [Nat.cast_add]⟩
    | zadd | zrem | zremrangeByScore | zremrangeByRank => cases hl
    | _ => exact h.elim

theorem execAll_counts {cs : List Command} (hcs : ∀ c ∈ cs, c.cmd.Counts) {s s' : Server}
    {replies : List Reply} (h : execAll cs s = some (s', replies)) :
    ∀ reply ∈ replies, ∃ n : ℕ, reply = .integer n := by
  induction cs generalizing s replies with
  | nil => simp_all [execAll]
  | cons c cs ih =>
    simp only [execAll, Option.bind_eq_bind, Option.bind_eq_some_iff, Option.some.injEq,
      Prod.mk.injEq] at h
    obtain ⟨⟨s₁, reply⟩, hc, ⟨s₂, rest⟩, hrest, rfl, rfl⟩ := h
    obtain ⟨⟨v, reply'⟩, hv, heq⟩ := Option.map_eq_some_iff.1 hc
    cases heq
    intro r hr
    rcases List.mem_cons.1 hr with rfl | hr
    · exact (hcs c List.mem_cons_self).reply hv
    · exact ih (fun d hd => hcs d (List.mem_cons_of_mem _ hd)) hrest r hr

theorem count_long {replies : List Reply} (h : ∀ reply ∈ replies, ∃ n : ℕ, reply = .integer n) :
    ∃ n : ℕ, count replies = .long n := by
  induction replies with
  | nil => exact ⟨0, rfl⟩
  | cons reply replies ih =>
    obtain ⟨n, rfl⟩ := h reply List.mem_cons_self
    obtain ⟨m, hm⟩ := ih fun r hr => h r (List.mem_cons_of_mem _ hr)
    rw [count, Returned.long.injEq] at hm
    exact ⟨n + m, by simp [count, hm]⟩

theorem length_long {replies : List Reply} (h : ∀ reply ∈ replies, ∃ n : ℕ, reply = .integer n) :
    ∃ n : ℕ, length replies = .long n := by
  rw [length]
  cases hlast : replies.getLast? with
  | none => exact ⟨0, rfl⟩
  | some reply =>
    obtain ⟨n, rfl⟩ := h reply (List.mem_of_getLast? hlast)
    exact ⟨n, rfl⟩

theorem Returned.not_failure_long (n : ℕ) : ¬ (Returned.long n).Failure := by
  rintro (h | h)
  · cases h
  · rw [Returned.long.injEq] at h
    omega

/-- The `int` of `zadd(key, members)` does not count up to -1. -/
def Write.Counted (w : Write) (server : Server) : Prop :=
  match w with
  | zaddMap key members => newMembers (server.zset key) members % 2 ^ 32 ≠ 2 ^ 32 - 1
  | _ => True

/-- A write whose every command is answered does not return a failure value, if it counts right. -/
theorem Write.value_not_failure_iff {w : Write} {cs : List Command} {s s' : Server}
    {replies : List Reply} (hcs : w.commands = some cs) (h : execAll cs s = some (s', replies)) :
    ¬ (w.call.value replies).Failure ↔ w.Counted s := by
  have counts (hc : ∀ c ∈ cs, c.cmd.Counts) (hvalue : w.call.value = count) (hw : w.Counted s) :
      ¬ (w.call.value replies).Failure ↔ w.Counted s := by
    refine iff_of_true ?_ hw
    obtain ⟨n, hn⟩ := count_long (execAll_counts hc h)
    rw [hvalue, hn]
    exact Returned.not_failure_long n
  have lengths (hc : ∀ c ∈ cs, c.cmd.Counts) (hvalue : w.call.value = length) (hw : w.Counted s) :
      ¬ (w.call.value replies).Failure ↔ w.Counted s := by
    refine iff_of_true ?_ hw
    obtain ⟨n, hn⟩ := length_long (execAll_counts hc h)
    rw [hvalue, hn]
    exact Returned.not_failure_long n
  cases w with
  | set key value => exact iff_of_true (by rintro (h | h) <;> cases h) trivial
  | zremList key members isStringArray =>
    cases isStringArray with
    | false => cases hcs
    | true =>
      cases hcs
      exact counts (by simp [Cmd.Counts]) rfl trivial
  | zaddMap key members =>
    cases hcs
    show ¬ (intCount replies).Failure ↔ ¬ _ = _
    rw [intCount_eq, total_zadds h, ← bmod_eq_neg_one_iff, not_iff_not]
    refine ⟨fun hf => ?_, fun hf => .inr (congrArg Returned.long hf)⟩
    rcases hf with hf | hf
    · cases hf
    · exact Returned.long.inj hf
  | rpushList key values =>
    cases hcs
    refine lengths (fun c hc => ?_) rfl trivial
    obtain ⟨value, -, rfl⟩ := List.mem_map.1 hc
    trivial
  | rpush =>
    cases hcs
    exact lengths (by simp [Cmd.Counts]) rfl trivial
  | zadd | zrem | zremrangeByScore | zremrangeByRank | rpushStrings =>
    cases hcs
    exact counts (by simp [Cmd.Counts]) rfl trivial

/-! ## One pool -/

theorem PoolCall.on_some {call : PoolCall} {cs : List Command} {pick : String}
    (hcs : call.commands pick = some cs) (lost : Option Nat) (pool : Pool) :
    call.on pick lost pool = (match (execPool cs lost pool).1 with
      | some replies => some (call.value replies)
      | none => call.failure, (execPool cs lost pool).2) := by
  rw [PoolCall.on, hcs]
  cases hrun : execPool cs lost pool with
  | mk replies pool' => cases replies <;> simp [hrun]

/-- The failure value is what a write returns when it catches an exception. -/
theorem Write.failure_failure {w : Write} {v : Returned} (h : w.call.failure = some v) :
    v.Failure := by
  cases w with
  | set => exact .inl (Option.some.inj h).symm
  | rpushStrings => cases h
  | _ => exact .inr (Option.some.inj h).symm

theorem Write.commands_pick (w : Write) (pick : String) : w.call.commands pick = w.commands := by
  cases w <;> rfl

/-- A result other than the failure value is that of a pool which has answered the commands. -/
theorem Write.on_answered {w : Write} {pick : String} {lost : Option Nat} {pool : Pool}
    {v : Returned} (h : (w.call.on pick lost pool).1 = some v) (hv : ¬ v.Failure) :
    ∃ cs, w.commands = some cs ∧ Answered cs lost pool.server ∧ w.Counted pool.server := by
  cases hcs : w.commands with
  | none =>
    rw [← w.commands_pick pick] at hcs
    rw [PoolCall.on, hcs] at h
    exact absurd (Write.failure_failure h) hv
  | some cs =>
    rw [PoolCall.on_some ((w.commands_pick pick).trans hcs)] at h
    cases hrun : (execPool cs lost pool).1 with
    | none =>
      rw [hrun] at h
      exact absurd (Write.failure_failure h) hv
    | some replies =>
      obtain ⟨hlost, server, hall⟩ := execPool_replies hrun
      rw [hrun] at h
      obtain rfl := Option.some.inj h
      exact ⟨cs, rfl, ⟨hlost, by rw [hall]; rfl⟩, (Write.value_not_failure_iff hcs hall).1 hv⟩

theorem Write.on_of_answered {w : Write} {cs : List Command} (hcs : w.commands = some cs)
    {pick : String} {lost : Option Nat} {pool : Pool} (h : Answered cs lost pool.server)
    (hcounted : w.Counted pool.server) :
    ∃ v, (w.call.on pick lost pool).1 = some v ∧ ¬ v.Failure := by
  obtain ⟨replies, hreplies⟩ := execPool_answers h
  obtain ⟨-, server, hall⟩ := execPool_replies hreplies
  refine ⟨w.call.value replies, ?_, (w.value_not_failure_iff hcs hall).2 hcounted⟩
  rw [PoolCall.on_some ((w.commands_pick pick).trans hcs), hreplies]

theorem Write.on_pool {w : Write} {cs : List Command} (hcs : w.commands = some cs)
    (pick : String) (lost : Option Nat) (pool : Pool) :
    (w.call.on pick lost pool).2 = (execPool cs lost pool).2 := by
  rw [PoolCall.on_some ((w.commands_pick pick).trans hcs)]

/-! ## Both pools -/

/-- If the write returns a value other than the failure value, the master has applied it. -/
def Visible (this : SmcJedis) (w : Write) (c : Circumstances) (pools : Pools) : Prop :=
  ∀ v, (this.write w.call c pools).1 = some v → ¬ v.Failure →
    ∃ cs, w.commands = some cs ∧ Applied cs pools.master (this.write w.call c pools).2.master

/-- The write catches exceptions and goes on to the slave, which answers its commands, with replies that
are counted right, while they do not arrive at the master. -/
structure Overwritten (this : SmcJedis) (w : Write) (c : Circumstances) (pools : Pools) : Prop where
  both : this.failover ∧ this.clientSlaver
  caught : w.call.failure ≠ none
  slave : ∃ cs, w.commands = some cs ∧ Answered cs c.lost' pools.slave.server ∧
    ¬ Arrives cs c.lost pools.master.server
  counted : w.Counted pools.slave.server

theorem write_master (this : SmcJedis) (call : PoolCall) (c : Circumstances) (pools : Pools) :
    (this.write call c pools).2.master = (call.on c.pick c.lost pools.master).2 := by
  rw [SmcJedis.write]
  cases hrun : call.on c.pick c.lost pools.master with
  | mk result master =>
    cases result with
    | none => rfl
    | some result =>
      dsimp only
      split <;> rfl

/-- What the write returns when the call on the master throws nothing. -/
theorem write_result {this : SmcJedis} {call : PoolCall} {c : Circumstances} {pools : Pools}
    {result : Returned} (h : (call.on c.pick c.lost pools.master).1 = some result) :
    (this.write call c pools).1 =
      if this.failover ∧ this.clientSlaver then (call.on c.pick' c.lost' pools.slave).1
      else some result := by
  rw [SmcJedis.write]
  cases hrun : call.on c.pick c.lost pools.master with
  | mk result' master =>
    rw [hrun] at h
    obtain rfl : result' = some result := h
    dsimp only
    split <;> rfl

/-- After any calls on both pools, and with any connections. -/
theorem visible_iff (this : SmcJedis) (pools : Pools) (calls : List (PoolCall × Circumstances))
    (w : Write) (c : Circumstances) :
    Visible this w c (this.writes calls pools) ↔
      ¬ Overwritten this w c (this.writes calls pools) := by
  generalize this.writes calls pools = pools
  constructor
  · rintro hvisible ⟨hboth, hcaught, ⟨cs, hcs, hslave, hmaster⟩, hcounted⟩
    obtain ⟨v, hv, hfailure⟩ : ∃ v, (w.call.on c.pick' c.lost' pools.slave).1 = some v ∧
      ¬ v.Failure := w.on_of_answered hcs hslave hcounted
    -- the exception on the master's connection is caught, and the result of the slave stands
    obtain ⟨failure, hfail⟩ := Option.ne_none_iff_exists'.1 hcaught
    have hresult : ∃ result, (w.call.on c.pick c.lost pools.master).1 = some result := by
      rw [PoolCall.on_some ((w.commands_pick c.pick).trans hcs)]
      cases (execPool cs c.lost pools.master).1 with
      | none => exact ⟨failure, hfail⟩
      | some replies => exact ⟨_, rfl⟩
    obtain ⟨result, hresult⟩ := hresult
    have hwrite : (this.write w.call c pools).1 = some v := by
      rw [write_result hresult, if_pos hboth, hv]
    obtain ⟨cs', hcs', happlied⟩ := hvisible v hwrite hfailure
    obtain rfl : cs = cs' := Option.some.inj (hcs.symm.trans hcs')
    rw [write_master, w.on_pool hcs, execPool_applied] at happlied
    exact hmaster happlied
  · intro hover v hv hfailure
    have arrives {cs : List Command} (hcs : w.commands = some cs)
        (h : Arrives cs c.lost pools.master.server) : ∃ cs, w.commands = some cs ∧
          Applied cs pools.master (this.write w.call c pools).2.master :=
      ⟨cs, hcs, by rw [write_master, w.on_pool hcs, execPool_applied]; exact h⟩
    cases hresult : (w.call.on c.pick c.lost pools.master).1 with
    | none =>
      rw [SmcJedis.write] at hv
      cases hrun : w.call.on c.pick c.lost pools.master with
      | mk result master => simp_all
    | some result =>
      rw [write_result hresult] at hv
      split at hv
      · next hboth =>
        obtain ⟨cs, hcs, hslave, hcounted⟩ := w.on_answered hv hfailure
        by_cases hmaster : Arrives cs c.lost pools.master.server
        · exact arrives hcs hmaster
        · -- then nothing is caught, and the call on the master has thrown the exception
          have hcaught : w.call.failure = none := by
            by_contra hcaught
            exact hover ⟨hboth, hcaught, ⟨cs, hcs, hslave, hmaster⟩, hcounted⟩
          rw [PoolCall.on_some ((w.commands_pick c.pick).trans hcs), hcaught] at hresult
          cases hrun : (execPool cs c.lost pools.master).1 with
          | none => simp [hrun] at hresult
          | some replies =>
            obtain ⟨hlost, server, hall⟩ := execPool_replies hrun
            exact absurd (Answered.arrives ⟨hlost, by rw [hall]; rfl⟩) hmaster
      · obtain rfl := Option.some.inj hv
        obtain ⟨cs, hcs, hmaster, -⟩ := w.on_answered hresult hfailure
        exact arrives hcs hmaster.arrives

/-- The master's connection is lost, and the slave answers `OK`. -/
theorem set_overwritten :
    ¬ Visible ⟨true, true⟩ (.set "k" "v") ⟨some 0, none, "", ""⟩
      (SmcJedis.writes ⟨true, true⟩ [] ⟨.empty, .empty⟩) := by
  intro h
  obtain ⟨cs, hcs, replies, -, happlied⟩ := h (.string "OK") rfl (by rintro (h | h) <;> cases h)
  cases hcs
  cases happlied

theorem get_set {this : SmcJedis} {key value : String} {c : Circumstances} {pools : Pools}
    (h : Visible this (.set key value) c pools) {v : Returned}
    (hv : (this.write (SmcJedis.set key value) c pools).1 = some v) (hfailure : ¬ v.Failure) :
    SmcJedis.get key true (this.write (SmcJedis.set key value) c pools).2 = some value := by
  obtain ⟨cs, hcs, replies, hall, -⟩ := h v hv hfailure
  cases hcs
  simp only [execAll, Command.exec, Cmd.exec, Option.map_some, Option.bind_eq_bind,
    Option.bind_some, Option.some.injEq, Prod.mk.injEq] at hall
  have hserver : (this.write (SmcJedis.set key value) c pools).2.master.server key =
      some (.string value) := by
    rw [show (SmcJedis.set key value) = (Write.set key value).call from rfl, ← hall.1]
    exact Function.update_self ..
  unfold SmcJedis.get
  rw [hserver]

end BaseService.Redis
