import BaseService.Data.Pipeline
import BaseService.Data.Runs
import BaseService.Redis.SmcJedis

/-!
# The connections of the pools

A method of `SmcJedis` borrows a connection, sends its commands over it, each of them when it has read
the reply to the one before, and returns the connection, whatever has happened. The reply that it has
not waited for is still to come.

* `Session` : what a method does on one pool; `SmcJedis.sessions`, `JedisFactory.get`, and so on : the
  methods;
* `Clients`, `Clients.Step` : the pools, the servers and the clients between them;
* `Own` : every reply that a client has accepted was made for its command;
* `own_step_iff` : that is so just if nothing was outstanding when it sent the command;
* `own_iff` : runs in which no reply is crossed.
-/

namespace BaseService.Redis
open Function (update)

inductive ShardedJedisPool
  | clientMaster
  | clientSlaver
  deriving DecidableEq, Repr

structure JedisPoolConfig where
  maxActive : Nat
  maxIdle : Nat

/-- The shard of a command, and what its server makes of it; error replies are replies, too. -/
structure Servers (C S σ R : Type) where
  shard : C → S
  exec : C → σ → R × σ

/-- What a method does on one pool. -/
structure Session (C R V : Type) where
  pool : ShardedJedisPool
  commands : List C
  /-- The replies for which `Jedis` throws no exception. -/
  accepts : R → Bool
  value : List R → V
  /-- What its `catch (Exception e)` returns; without it the exception is thrown. -/
  failure : Option V

/-- A session with its connection, and the sessions of the method that follow it. -/
structure Turn (C R V : Type) where
  session : Session C R V
  jedis : Nat
  rest : List (Session C R V)

/-- What a client is about to do. -/
inductive Phase (C R V : Type)
  | idle
  | getResource (session : Session C R V) (rest : List (Session C R V))
  | send (turn : Turn C R V) (commands : List C) (replies : List R)
  /-- The reply to the command `id` is awaited; when it was sent, `stale` others were outstanding. -/
  | read (turn : Turn C R V) (id stale : Nat) (c : C) (commands : List C) (replies : List R)
  | failed (turn : Turn C R V)

namespace Phase
variable {C R V : Type}

/-- A session has ended: the method throws, or goes on, or returns. -/
def next (outcome : Option V) (rest : List (Session C R V)) : Phase C R V :=
  match outcome, rest with
  | some _, session :: rest => .getResource session rest
  | _, _ => .idle

/-- A session that is about to return its connection, and its value. -/
def ended : Phase C R V → Option (Turn C R V × Option V)
  | .send turn [] replies => some (turn, some (turn.session.value replies))
  | .failed turn => some (turn, none)
  | _ => none

/-- The connection that the client has borrowed. -/
def holds : Phase C R V → Option (ShardedJedisPool × Nat)
  | .send turn _ _ | .read turn _ _ _ _ _ | .failed turn => some (turn.session.pool, turn.jedis)
  | _ => none

theorem holds_next (outcome : Option V) (rest : List (Session C R V)) :
    (next outcome rest).holds = none := by
  unfold next
  split <;> rfl

theorem holds_ended {phase : Phase C R V} {turn : Turn C R V} {result : Option V}
    (h : phase.ended = some (turn, result)) : phase.holds = some (turn.session.pool, turn.jedis) := by
  unfold ended at h
  split at h
  · cases h
    rfl
  · cases h
    rfl
  · cases h

end Phase

/-- The clients `κ`, with the connections of each pool to the shards `S`. -/
structure Clients (κ S σ C R V : Type) where
  server : ShardedJedisPool → σ
  connections : ShardedJedisPool × Nat → S → Pipeline C R
  idle : ShardedJedisPool → List Nat
  created : ShardedJedisPool → Nat
  active : ShardedJedisPool → Nat
  /-- The commands are numbered, over all connections. -/
  sent : Nat
  phase : κ → Phase C R V
  /-- The commands with the replies that their clients have accepted. -/
  answered : List (Nat × Nat)

namespace Clients
variable {κ S σ C R V : Type} [DecidableEq κ] [DecidableEq S]

def start (server : ShardedJedisPool → σ) : Clients κ S σ C R V :=
  ⟨server, fun _ _ => .empty, fun _ => [], fun _ => 0, fun _ => 0, 0, fun _ => .idle, []⟩

inductive Label (κ S C R V : Type)
  | call (k : κ) (sessions : List (Session C R V))
  | getResource (k : κ) (jedis : Nat)
  | exhausted (k : κ) (outcome : Option V)
  | send (k : κ)
  | serve (j : ShardedJedisPool × Nat) (shard : S)
  | read (k : κ)
  | reject (k : κ)
  | timeout (k : κ)
  /-- The outcome of the session; if it is the last, that of the method. -/
  | returnResource (k : κ) (outcome : Option V)

def goto (s : Clients κ S σ C R V) (k : κ) (phase : Phase C R V) : Clients κ S σ C R V :=
  { s with phase := update s.phase k phase }

/-- The connection of a pool to a shard becomes `p`. -/
def connect (s : Clients κ S σ C R V) (j : ShardedJedisPool × Nat) (shard : S) (p : Pipeline C R) :
    Clients κ S σ C R V :=
  { s with connections := update s.connections j (update (s.connections j) shard p) }

/-- The connection `jedis` leaves the pool for a client. -/
def borrow (s : Clients κ S σ C R V) (pool : ShardedJedisPool) (jedis : Nat) :
    Clients κ S σ C R V :=
  { s with
    idle := update s.idle pool ((s.idle pool).erase jedis)
    active := update s.active pool (s.active pool + 1) }

/-- A new connection for a client. -/
def make (s : Clients κ S σ C R V) (pool : ShardedJedisPool) : Clients κ S σ C R V :=
  { s with
    created := update s.created pool (s.created pool + 1)
    active := update s.active pool (s.active pool + 1) }

/-- A client returns a connection; the pool keeps at most `maxIdle`. -/
def giveBack (s : Clients κ S σ C R V) (config : JedisPoolConfig) (pool : ShardedJedisPool)
    (jedis : Nat) : Clients κ S σ C R V :=
  { s with
    idle := if (s.idle pool).length < config.maxIdle then
      update s.idle pool (jedis :: s.idle pool) else s.idle
    active := update s.active pool (s.active pool - 1) }

inductive Step (config : JedisPoolConfig) (servers : Servers C S σ R) :
    Clients κ S σ C R V → Label κ S C R V → Clients κ S σ C R V → Prop
  | call {s : Clients κ S σ C R V} {k : κ} {session : Session C R V} {rest : List (Session C R V)} :
    s.phase k = .idle →
      Step config servers s (.call k (session :: rest)) (s.goto k (.getResource session rest))
  | getResource {s : Clients κ S σ C R V} {k : κ} {session : Session C R V}
    {rest : List (Session C R V)} {jedis : Nat} :
    s.phase k = .getResource session rest → jedis ∈ s.idle session.pool →
      Step config servers s (.getResource k jedis)
        ((s.borrow session.pool jedis).goto k (.send ⟨session, jedis, rest⟩ session.commands []))
  | makeObject {s : Clients κ S σ C R V} {k : κ} {session : Session C R V}
    {rest : List (Session C R V)} :
    s.phase k = .getResource session rest → s.idle session.pool = [] →
      s.active session.pool < config.maxActive →
      Step config servers s (.getResource k (s.created session.pool))
        ((s.make session.pool).goto k
          (.send ⟨session, s.created session.pool, rest⟩ session.commands []))
  | exhausted {s : Clients κ S σ C R V} {k : κ} {session : Session C R V}
    {rest : List (Session C R V)} :
    s.phase k = .getResource session rest →
      Step config servers s (.exhausted k session.failure)
        (s.goto k (.next session.failure rest))
  | send {s : Clients κ S σ C R V} {k : κ} {turn : Turn C R V} {c : C} {commands : List C}
    {replies : List R} {j : ShardedJedisPool × Nat} :
    s.phase k = .send turn (c :: commands) replies → j = (turn.session.pool, turn.jedis) →
      Step config servers s (.send k)
        ({ s.connect j (servers.shard c) ((s.connections j (servers.shard c)).send s.sent c) with
            sent := s.sent + 1 }.goto k
          (.read turn s.sent (s.connections j (servers.shard c)).outstanding.length c commands replies))
  | serve {s : Clients κ S σ C R V} {j : ShardedJedisPool × Nat} {shard : S} {c : C} {reply : R}
    {server : σ} {p : Pipeline C R} :
    (s.connections j shard).Serves c reply p → servers.exec c (s.server j.1) = (reply, server) →
      Step config servers s (.serve j shard)
        { s.connect j shard p with server := update s.server j.1 server }
  | read {s : Clients κ S σ C R V} {k : κ} {turn : Turn C R V} {id id' stale : Nat} {c : C}
    {commands : List C} {replies : List R} {reply : R} {j : ShardedJedisPool × Nat}
    {p : Pipeline C R} :
    s.phase k = .read turn id stale c commands replies → j = (turn.session.pool, turn.jedis) →
      (s.connections j (servers.shard c)).Reads id' reply p → turn.session.accepts reply = true →
      Step config servers s (.read k)
        ({ s.connect j (servers.shard c) p with answered := s.answered ++ [(id, id')] }.goto k
          (.send turn commands (replies ++ [reply])))
  | reject {s : Clients κ S σ C R V} {k : κ} {turn : Turn C R V} {id id' stale : Nat} {c : C}
    {commands : List C} {replies : List R} {reply : R} {j : ShardedJedisPool × Nat}
    {p : Pipeline C R} :
    s.phase k = .read turn id stale c commands replies → j = (turn.session.pool, turn.jedis) →
      (s.connections j (servers.shard c)).Reads id' reply p → turn.session.accepts reply = false →
      Step config servers s (.reject k) ((s.connect j (servers.shard c) p).goto k (.failed turn))
  | timeout {s : Clients κ S σ C R V} {k : κ} {turn : Turn C R V} {id stale : Nat} {c : C}
    {commands : List C} {replies : List R} :
    s.phase k = .read turn id stale c commands replies →
      Step config servers s (.timeout k) (s.goto k (.failed turn))
  | returnResource {s : Clients κ S σ C R V} {k : κ} {turn : Turn C R V} {result : Option V} :
    (s.phase k).ended = some (turn, result) →
      Step config servers s (.returnResource k (result <|> turn.session.failure))
        ((s.giveBack config turn.session.pool turn.jedis).goto k
          (.next (result <|> turn.session.failure) turn.rest))

/-- Every reply that a client has accepted was made for its command. -/
def Own (s : Clients κ S σ C R V) : Prop := ∀ a ∈ s.answered, a.2 = a.1

/-- A client accepts a reply only where nothing was outstanding when it sent the command. -/
def Fresh (s : Clients κ S σ C R V) (l : Label κ S C R V) : Prop :=
  ∀ k turn id stale c commands replies, l = .read k →
    s.phase k = .read turn id stale c commands replies → stale = 0

/-! ## Who holds a connection -/

/-- Every connection is held by one client, or idle. -/
structure Held (idle : ShardedJedisPool → List Nat) (created : ShardedJedisPool → Nat)
    (holds : κ → Option (ShardedJedisPool × Nat)) : Prop where
  idle_created : ∀ pool, ∀ jedis ∈ idle pool, jedis < created pool
  nodup : ∀ pool, (idle pool).Nodup
  held_created : ∀ k pool jedis, holds k = some (pool, jedis) → jedis < created pool
  not_idle : ∀ k pool jedis, holds k = some (pool, jedis) → jedis ∉ idle pool
  alone : ∀ k k' j, holds k = some j → holds k' = some j → k = k'

namespace Held
variable {idle : ShardedJedisPool → List Nat} {created : ShardedJedisPool → Nat}
  {holds : κ → Option (ShardedJedisPool × Nat)}

omit [DecidableEq κ] in
theorem start : Held (fun _ => []) (fun _ => 0) (fun _ : κ => none) :=
  ⟨by simp, by simp, by simp, by simp, by simp⟩

/-- A client gets a connection that no client holds. -/
theorem hold (h : Held idle created holds) {k : κ} {pool : ShardedJedisPool} {jedis : Nat}
    {idle' : ShardedJedisPool → List Nat} {created' : ShardedJedisPool → Nat}
    (hsub : ∀ pool, (idle' pool).Sublist (idle pool)) (hle : ∀ pool, created pool ≤ created' pool)
    (hcreated : jedis < created' pool) (hidle : jedis ∉ idle' pool)
    (hother : ∀ k', holds k' ≠ some (pool, jedis)) :
    Held idle' created' (update holds k (some (pool, jedis))) where
  idle_created pool' j hj := (h.idle_created pool' j ((hsub pool').subset hj)).trans_le (hle pool')
  nodup pool' := (h.nodup pool').sublist (hsub pool')
  held_created k' pool' jedis' hk := by
    rw [Function.update_apply] at hk
    split at hk
    · cases hk
      exact hcreated
    · exact (h.held_created k' pool' jedis' hk).trans_le (hle pool')
  not_idle k' pool' jedis' hk := by
    rw [Function.update_apply] at hk
    split at hk
    · cases hk
      exact hidle
    · exact fun hmem => h.not_idle k' pool' jedis' hk ((hsub pool').subset hmem)
  alone k₁ k₂ j hk₁ hk₂ := by
    rw [Function.update_apply] at hk₁ hk₂
    split at hk₁ <;> split at hk₂
    · next h₁ h₂ => rw [h₁, h₂]
    · cases hk₁
      exact absurd hk₂ (hother k₂)
    · cases hk₂
      exact absurd hk₁ (hother k₁)
    · exact h.alone k₁ k₂ j hk₁ hk₂

theorem borrow (h : Held idle created holds) {k : κ} {pool : ShardedJedisPool} {jedis : Nat}
    (hidle : jedis ∈ idle pool) :
    Held (update idle pool ((idle pool).erase jedis)) created
      (update holds k (some (pool, jedis))) := by
  refine h.hold (fun pool' => ?_) (fun _ => le_refl _) (h.idle_created _ _ hidle) ?_
    fun k' hk => h.not_idle k' pool jedis hk hidle
  · rw [Function.update_apply]
    split
    · next hp => rw [hp]; exact List.erase_sublist
    · exact List.Sublist.refl _
  · rw [Function.update_self]
    exact (h.nodup pool).not_mem_erase

theorem make (h : Held idle created holds) {k : κ} {pool : ShardedJedisPool} :
    Held idle (update created pool (created pool + 1))
      (update holds k (some (pool, created pool))) := by
  refine h.hold (fun _ => List.Sublist.refl _) (fun pool' => ?_) ?_ ?_ ?_
  · rw [Function.update_apply]
    split
    · next hp => rw [hp]; omega
    · exact le_refl _
  · rw [Function.update_self]
    exact Nat.lt_succ_self _
  · exact fun hmem => absurd (h.idle_created _ _ hmem) (lt_irrefl _)
  · exact fun k' hk => absurd (h.held_created k' pool _ hk) (lt_irrefl _)

/-- A client gives its connection up. -/
theorem drop (h : Held idle created holds) {k : κ} : Held idle created (update holds k none) := by
  have hholds {k' : κ} {j : ShardedJedisPool × Nat} (hk : update holds k none k' = some j) :
      k' ≠ k ∧ holds k' = some j := by
    rw [Function.update_apply] at hk
    split at hk
    · cases hk
    · next hne => exact ⟨hne, hk⟩
  exact ⟨h.idle_created, h.nodup, fun k' pool jedis hk => h.held_created k' pool jedis (hholds hk).2,
    fun k' pool jedis hk => h.not_idle k' pool jedis (hholds hk).2,
    fun k₁ k₂ j hk₁ hk₂ => h.alone k₁ k₂ j (hholds hk₁).2 (hholds hk₂).2⟩

theorem giveBack (h : Held idle created holds) {k : κ} {pool : ShardedJedisPool} {jedis : Nat}
    (hk : holds k = some (pool, jedis)) :
    Held (update idle pool (jedis :: idle pool)) created (update holds k none) := by
  have hmem {pool' : ShardedJedisPool} {j : Nat}
      (hj : j ∈ update idle pool (jedis :: idle pool) pool') :
      j ∈ idle pool' ∨ pool' = pool ∧ j = jedis := by
    rw [Function.update_apply] at hj
    split at hj
    · next hp =>
      rw [hp]
      rcases List.mem_cons.1 hj with rfl | hj
      · exact .inr ⟨rfl, rfl⟩
      · exact .inl hj
    · exact .inl hj
  refine ⟨fun pool' j hj => ?_, fun pool' => ?_, h.drop.held_created, fun k' pool' j hk' => ?_,
    h.drop.alone⟩
  · rcases hmem hj with hj | ⟨rfl, rfl⟩
    · exact h.idle_created pool' j hj
    · exact h.held_created k pool' j hk
  · rw [Function.update_apply]
    split
    · exact List.nodup_cons.2 ⟨h.not_idle k pool jedis hk, h.nodup pool⟩
    · exact h.nodup pool'
  · intro hj
    rcases hmem hj with hj | ⟨rfl, rfl⟩
    · exact h.drop.not_idle k' pool' j hk' hj
    · rw [Function.update_apply] at hk'
      split at hk'
      · cases hk'
      · next hne => exact hne (h.alone k' k _ hk' hk)

end Held

/-! ## What is outstanding -/

/-- The command of a client that reads is the last that is outstanding on its connection. -/
def Lined (connections : ShardedJedisPool × Nat → S → Pipeline C R) (shard : C → S) :
    Phase C R V → Prop
  | .read turn id stale c _ _ =>
    ∃ before, (connections (turn.session.pool, turn.jedis) (shard c)).outstanding = before ++ [id] ∧
      before.length = stale ∧ id ∉ before
  | _ => True

section
variable {connections connections' : ShardedJedisPool × Nat → S → Pipeline C R} {shard : C → S}
  {phase : Phase C R V}

omit [DecidableEq S] in
theorem Lined.congr (h : Lined connections shard phase)
    (heq : ∀ j, phase.holds = some j → ∀ shard, (connections' j shard).outstanding =
      (connections j shard).outstanding) : Lined connections' shard phase := by
  cases phase with
  | read turn id stale c commands replies =>
    rw [Lined, heq _ rfl]
    exact h
  | _ => trivial

/-- The client of another connection. -/
theorem Lined.connect (h : Lined connections shard phase) {j : ShardedJedisPool × Nat}
    (hne : phase.holds ≠ some j) (x : S) (p : Pipeline C R) :
    Lined (update connections j (update (connections j) x p)) shard phase := by
  refine h.congr fun j' hj' y => ?_
  rw [Function.update_of_ne]
  rintro rfl
  exact hne hj'

end

structure Invariant (shard : C → S) (s : Clients κ S σ C R V) : Prop where
  held : Held s.idle s.created fun k => (s.phase k).holds
  sent : ∀ j x, ∀ id ∈ (s.connections j x).outstanding, id < s.sent
  lined : ∀ k, Lined s.connections shard (s.phase k)

namespace Invariant
variable {shard : C → S} {s : Clients κ S σ C R V}

omit [DecidableEq S] in
theorem lined_next {connections : ShardedJedisPool × Nat → S → Pipeline C R} (outcome : Option V)
    (rest : List (Session C R V)) : Lined connections shard (.next outcome rest) := by
  unfold Phase.next
  split <;> trivial

omit [DecidableEq κ] [DecidableEq S] in
theorem start (server : ShardedJedisPool → σ) :
    Invariant shard (start server : Clients κ S σ C R V) where
  held := .start
  sent j x id hid := by cases hid
  lined k := trivial

omit [DecidableEq S] in
theorem holds_goto (s : Clients κ S σ C R V) (k : κ) (phase : Phase C R V) :
    (fun k' => ((s.goto k phase).phase k').holds) =
      update (fun k' => (s.phase k').holds) k phase.holds := by
  funext k'
  simp only [goto, Function.update_apply]
  split <;> rfl

omit [DecidableEq S] in
theorem lined_goto {connections : ShardedJedisPool × Nat → S → Pipeline C R} {k : κ}
    {phase : Phase C R V} (h : ∀ k', k' ≠ k → Lined connections shard (s.phase k'))
    (hphase : Lined connections shard phase) (k' : κ) :
    Lined connections shard ((s.goto k phase).phase k') := by
  simp only [goto, Function.update_apply]
  split
  · exact hphase
  · next hne => exact h k' hne

omit [DecidableEq S] in
/-- A step of one client that leaves the connections as they are. -/
theorem goto (h : Invariant shard s) {k : κ} {phase : Phase C R V}
    (hholds : phase.holds = (s.phase k).holds ∨ phase.holds = none)
    (hphase : Lined s.connections shard phase) : Invariant shard (s.goto k phase) where
  held := by
    rw [holds_goto]
    rcases hholds with heq | hnone
    · rw [heq, Function.update_eq_self]
      exact h.held
    · rw [hnone]
      exact h.held.drop
  sent := h.sent
  lined := lined_goto (fun k' _ => h.lined k') hphase

/-- The client that holds the connection changes what is outstanding on it. -/
theorem connect (h : Invariant shard s) {k : κ} {j : ShardedJedisPool × Nat}
    (hk : (s.phase k).holds = some j) {x : S} {p : Pipeline C R} {sent : Nat} (hle : s.sent ≤ sent)
    (hp : ∀ id ∈ p.outstanding, id < sent) {phase : Phase C R V} (hholds : phase.holds = some j)
    (hphase : Lined (s.connect j x p).connections shard phase) (answered : List (Nat × Nat)) :
    Invariant shard ({ s.connect j x p with sent := sent, answered := answered }.goto k phase) where
  held := by
    rw [holds_goto, hholds]
    show Held s.idle s.created (update (fun k' => (s.phase k').holds) k (some j))
    rw [← hk, Function.update_eq_self]
    exact h.held
  sent j' y id hid := by
    simp only [Clients.goto, Clients.connect, Function.update_apply] at hid
    split at hid
    · rw [Function.update_apply] at hid
      split at hid
      · exact hp id hid
      · next hj _ => exact (h.sent _ _ id hid).trans_le hle
    · exact (h.sent _ _ id hid).trans_le hle
  lined := by
    refine lined_goto (fun k' hne => ?_) hphase
    exact (h.lined k').connect (fun hk' => hne (h.held.alone k' k j hk' hk)) x p

theorem step {config : JedisPoolConfig} {servers : Servers C S σ R} {l : Label κ S C R V}
    {s' : Clients κ S σ C R V} (h : Invariant servers.shard s) (hs : Step config servers s l s') :
    Invariant servers.shard s' := by
  cases hs with
  | call => exact h.goto (.inr rfl) trivial
  | exhausted => exact h.goto (.inr (Phase.holds_next ..)) (lined_next ..)
  | getResource hphase hidle =>
    refine ⟨?_, h.sent, lined_goto (fun k' _ => h.lined k') trivial⟩
    rw [holds_goto]
    exact h.held.borrow hidle
  | makeObject hphase hidle hactive =>
    refine ⟨?_, h.sent, lined_goto (fun k' _ => h.lined k') trivial⟩
    rw [holds_goto]
    exact h.held.make
  | @send k turn c commands replies j hphase hj =>
    subst hj
    refine h.connect (by rw [hphase]; rfl) (Nat.le_succ _) (fun id hid => ?_) rfl ?_ s.answered
    · rw [Pipeline.outstanding_send, List.mem_append, List.mem_singleton] at hid
      rcases hid with hid | rfl
      · exact (h.sent _ _ id hid).trans (Nat.lt_succ_self _)
      · exact Nat.lt_succ_self _
    · refine ⟨_, ?_, rfl, fun hmem => absurd (h.sent _ _ _ hmem) (lt_irrefl _)⟩
      simp only [Clients.connect, Function.update_self, Pipeline.outstanding_send]
  | @serve j x c reply server p hserves hexec =>
    have hsame (j' : ShardedJedisPool × Nat) (y : S) :
        ((s.connect j x p).connections j' y).outstanding = (s.connections j' y).outstanding := by
      simp only [Clients.connect, Function.update_apply]
      split
      · next hj =>
        rw [Function.update_apply, hj]
        split
        · next hy => rw [hserves.outstanding, hy]
        · rfl
      · rfl
    exact ⟨h.held, fun j' y id hid => h.sent j' y id (hsame j' y ▸ hid),
      fun k => (h.lined k).congr fun j' _ y => hsame j' y⟩
  | @read k turn id id' stale c commands replies reply j p hphase hj hreads haccepts =>
    subst hj
    refine h.connect (by rw [hphase]; rfl) (le_refl _) (fun i hi => ?_) rfl (by trivial) _
    exact h.sent _ _ i (hreads.outstanding ▸ List.mem_cons_of_mem _ hi)
  | @reject k turn id id' stale c commands replies reply j p hphase hj hreads haccepts =>
    subst hj
    refine h.connect (by rw [hphase]; rfl) (le_refl _) (fun i hi => ?_) rfl (by trivial) s.answered
    exact h.sent _ _ i (hreads.outstanding ▸ List.mem_cons_of_mem _ hi)
  | timeout hphase => exact h.goto (.inl (by rw [hphase]; rfl)) trivial
  | @returnResource k turn result hended =>
    refine ⟨?_, h.sent, lined_goto (fun k' _ => h.lined k') (lined_next ..)⟩
    rw [holds_goto, Phase.holds_next]
    have hk := Phase.holds_ended hended
    simp only [Clients.giveBack]
    split
    · exact h.held.giveBack hk
    · exact h.held.drop

end Invariant

/-! ## Runs -/

section
variable {config : JedisPoolConfig} {servers : Servers C S σ R}

/-- **When a reply is crossed**: where one was outstanding when the command was sent. -/
theorem own_step_iff {s s' : Clients κ S σ C R V} {l : Label κ S C R V}
    (h : Invariant servers.shard s) (hown : s.Own) (hs : Step config servers s l s') :
    s'.Own ↔ s.Fresh l := by
  have hsame (hanswered : s'.answered = s.answered) (hl : ∀ k, l ≠ .read k) : s'.Own ↔ s.Fresh l :=
    iff_of_true (fun a ha => hown a (hanswered ▸ ha)) fun k _ _ _ _ _ _ hk => absurd hk (hl k)
  cases hs with
  | @read k turn id id' stale c commands replies reply j p hphase hj hreads haccepts =>
    subst hj
    have hlined := h.lined k
    rw [hphase] at hlined
    obtain ⟨before, hout, rfl, hfresh⟩ := hlined
    rw [hreads.outstanding] at hout
    have hiff := own_iff hout hfresh
    constructor
    · rintro hall k' turn' id₁ stale c' commands' replies' hk hphase'
      cases hk
      rw [hphase] at hphase'
      cases hphase'
      exact List.length_eq_zero_iff.2 (hiff.1 (hall (id, id') (List.mem_append_right _ List.mem_cons_self)))
    · intro hstale a ha
      rcases List.mem_append.1 ha with ha | ha
      · exact hown a ha
      · obtain rfl := List.mem_singleton.1 ha
        exact hiff.2 (List.length_eq_zero_iff.1 (hstale _ _ _ _ _ _ _ rfl hphase))
  | _ => exact hsame rfl (by simp)

/-- **Runs in which no reply is crossed.** -/
theorem own_run_iff {server : ShardedJedisPool → σ} {ls : List (Label κ S C R V)}
    {s : Clients κ S σ C R V} :
    Run (fun s l s' => Step config servers s l s' ∧ s'.Own) (start server) ls s ↔
      Run (fun s l s' => Step config servers s l s' ∧ s.Fresh l) (start server) ls s := by
  refine Run.congr (I := fun s => Invariant servers.shard s ∧ s.Own)
    ⟨Invariant.start server, by simp [Own, start]⟩ ?_ ?_
  · rintro s l s' ⟨h, hown⟩
    exact and_congr_right (own_step_iff h hown)
  · rintro s l s' ⟨h, hown⟩ ⟨hs, hown'⟩
    exact ⟨h.step hs, hown'⟩

end

end Clients

/-! ## The methods -/

inductive Request
  | get (key : String)
  | hget (key field : String)
  | write (c : Command)

/-- The reply, `none` for an error, and the server after it. -/
def Request.exec (request : Request) (server : Server) : Option Reply × Server :=
  match request with
  | get key =>
    match server key with
    | none => (some (.bulk none), server)
    | some (.string value) => (some (.bulk (some value)), server)
    | some _ => (none, server)
  | hget key field =>
    match server key with
    | none => (some (.bulk none), server)
    | some (.hash h) => (some (.bulk (h.lookup field)), server)
    | some _ => (none, server)
  | write c =>
    match c.exec server with
    | some (server, reply) => (some reply, server)
    | none => (none, server)

def Request.key : Request → String
  | get key | hget key _ => key
  | write c => c.key

def servers {S : Type} (getShard : String → S) : Servers Request S Server (Option Reply) :=
  ⟨fun request => getShard request.key, Request.exec⟩

/-- A status reply and a bulk reply are bytes to `Jedis`. -/
def isBytes : Option Reply → Bool
  | some .ok | some (.bulk _) => true
  | _ => false

def isLong : Option Reply → Bool
  | some (.integer _) => true
  | _ => false

def text : List (Option Reply) → Returned
  | [some .ok] => .string "OK"
  | [some (.bulk (some s))] => .string s
  | _ => .null

def number : List (Option Reply) → Returned
  | [some (.integer n)] => .long n
  | _ => .null

namespace Session

/-- `get` of `SmcJedis` with the master, of `JedisFactory` with the slave if there is one. -/
def get (key : String) (pool : ShardedJedisPool) : Session Request (Option Reply) Returned :=
  ⟨pool, [.get key], isBytes, text, some .null⟩

def hget (key field : String) (pool : ShardedJedisPool) :
    Session Request (Option Reply) Returned :=
  ⟨pool, [.hget key field], isBytes, text, none⟩

def set (key value : String) (pool : ShardedJedisPool) : Session Request (Option Reply) Returned :=
  ⟨pool, [.write ⟨key, .set value⟩], isBytes, text, some .null⟩

def zadd (key : String) (score : ℚ) (member : String) (pool : ShardedJedisPool) :
    Session Request (Option Reply) Returned :=
  ⟨pool, [.write ⟨key, .zadd score member⟩], isLong, number, some (.long (-1))⟩

def incr (key : String) (pool : ShardedJedisPool) : Session Request (Option Reply) Returned :=
  ⟨pool, [.write ⟨key, .incrBy 1⟩], isLong, number, some (.long (-1))⟩

end Session

/-- A write of `SmcJedis`, from what it does on one pool. -/
def SmcJedis.sessions (this : SmcJedis)
    (session : ShardedJedisPool → Session Request (Option Reply) Returned) :
    List (Session Request (Option Reply) Returned) :=
  session .clientMaster ::
    if this.failover ∧ this.clientSlaver then [session .clientSlaver] else []

namespace Clients

/-- The keys `a` and `b` on both servers. -/
def twoKeys (_ : ShardedJedisPool) : Server :=
  update (update (fun _ => none) "a" (some (.string "1"))) "b" (some (.string "2"))

/-- The reply for `a`, which the first client has not waited for, is what the second gets for `b`. -/
theorem reply_crossed : ¬ ∀ (ls : List (Label Bool Unit Request (Option Reply) Returned))
    (s : Clients Bool Unit Server Request (Option Reply) Returned),
    Run (Step ⟨1, 1⟩ (servers fun _ => ())) (start twoKeys) ls s → s.Own := by
  intro h
  have h₁ : Run (Step ⟨1, 1⟩ (servers fun _ => ())) (start twoKeys)
      [.call false [Session.get "a" .clientMaster]] _ := Run.nil.snoc (.call rfl)
  have h₂ := h₁.snoc (.makeObject (k := false) rfl rfl Nat.one_pos)
  have h₃ := h₂.snoc (.send (k := false) rfl rfl)
  have h₄ := h₃.snoc (.timeout (k := false) rfl)
  have h₅ := h₄.snoc (.returnResource (k := false) rfl)
  have h₆ : Run _ _ (_ ++ [Label.call true [Session.get "b" .clientMaster]]) _ :=
    h₅.snoc (.call rfl)
  have h₇ : Run _ _ (_ ++ [Label.getResource true 0]) _ :=
    h₆.snoc (.getResource rfl List.mem_cons_self)
  have h₈ := h₇.snoc (.send (k := true) rfl rfl)
  have h₉ : Run _ _ (_ ++ [Label.serve (.clientMaster, 0) ()]) _ := h₈.snoc (.serve (.mk _ rfl) rfl)
  have h₁₀ := h₉.snoc (.read (k := true) rfl rfl (.mk rfl) rfl)
  have hown := h _ _ h₁₀ (1, 0) List.mem_cons_self
  cases hown

end Clients

end BaseService.Redis
