import BaseService.Data.Ledger
import BaseService.Redis.Reconfiguration

/-!
# Connections of the pools

The reads that are not overloaded with a pool read `clientMaster` again to return their connection; all
other methods return it to the pool that they have been given.

* `Assignment`, `assignments` : how an initialisation replaces the fields; `foldl_assign` : it is `init`;
* `Process`, `Process.Step` : threads that run methods and initialisations, each access a step;
  `Ledger` : what the pools have lent;
* `Proper` : connections go back, once, to where they came from;
* `Guarded` : `clientMaster` has not been replaced in between;
* `returned_iff` : the runs in which connections go back.
-/

namespace BaseService.Redis.Reconfiguration.Resources
open Function (update)

/-! ## Initialisations -/

inductive Assignment (P : Type)
  | clientMaster (pool : P)
  | clientSlaver (pool : Option P)
  | failover (b : Bool)

/-- A new pool has a number. -/
def assign {P : Type} (number : Nat) (this : SmcJedis P) : Assignment P → SmcJedis P
  | .clientMaster pool => { this with clientMaster := some ⟨number, pool⟩ }
  | .clientSlaver pool => { this with clientSlaver := pool.map fun pool => ⟨number, pool⟩ }
  | .failover b => { this with failover := b }

section
variable {C P : Type} (lib : Libraries C P)

/-- The assignments of `init`, up to an exception. -/
def assignments (c : Configuration C) : List (Assignment P) :=
  match initialShardedPool lib c.jedisPoolConfig c.masterAdd c.masterPass with
  | none => []
  | some pool =>
    .clientMaster pool ::
      if StringUtils.isBlank c.slaveAdd then [.clientSlaver none, .failover false]
      else
        match initialShardedPool lib c.jedisPoolConfig c.slaveAdd c.slavePass with
        | none => []
        | some pool => [.clientSlaver (some pool), .failover true]

/-- Without interruption they are the initialisation. -/
theorem foldl_assign (number : Nat) (c : Configuration C) (this : SmcJedis P) :
    (assignments lib c).foldl (assign number) this = init lib number c this := by
  unfold assignments Reconfiguration.init
  cases initialShardedPool lib c.jedisPoolConfig c.masterAdd c.masterPass with
  | none => rfl
  | some pool =>
    dsimp only
    split
    · rfl
    · cases initialShardedPool lib c.jedisPoolConfig c.slaveAdd c.slavePass <;> rfl

end

/-! ## Methods -/

/-- What a method does with the pools. -/
inductive Method (P : Type)
  /-- `get`, which catches exceptions. -/
  | get
  /-- `hget`, `hmget`, `hexists`, `hlen`, `hkeys`, `hvals`, `hgetAll`, `lrange` of `long`s, `lindex` and
  `srandmember`. -/
  | hget
  /-- The other reads. -/
  | zcard
  /-- The writes, some of which catch exceptions. -/
  | set (catches : Bool)
  /-- The overloads with a pool. -/
  | pooled (pool : Option (ShardedJedisPool P))

/-- How a connection is used. -/
structure Use where
  /-- `clientMaster` is read again to return it; how often it had been replaced at the first time. -/
  since : Option Nat
  /-- A write to the slave follows, even if it throws and `catches`. -/
  both : Bool
  catches : Bool

namespace Method
variable {P : Type}

def rereads : Method P → Bool
  | get | hget => true
  | _ => false

/-- The use of the first connection. -/
def use (replaced : Nat) (m : Method P) : Use where
  since := if m.rereads then some replaced else none
  both := m matches set _
  catches := m matches set true

end Method

/-- What a thread is about to do. -/
inductive Phase (P : Type)
  | idle
  | assign (todo : List (Assignment P))
  | clientMaster (m : Method P)
  | getResource (use : Use) (pool : Option (ShardedJedisPool P))
  /-- With the connection `loan`. -/
  | execute (use : Use) (loan : Nat) (pool : ShardedJedisPool P)
  /-- `clientMaster` is read again. -/
  | again (use : Use) (loan : Nat) (pool : ShardedJedisPool P) (threw : Bool)
  | returnResource (use : Use) (loan : Nat) (pool target : ShardedJedisPool P) (threw : Bool)
  | failover (catches : Bool)
  /-- `clientSlaver != null`. -/
  | isNull (catches : Bool)
  | clientSlaver (catches : Bool)

namespace Phase
variable {P : Type}

/-- A method is running. -/
def Running : Phase P → Prop
  | idle | assign _ => False
  | _ => True

/-- The connection that a thread holds. -/
def loan : Phase P → Option Nat
  | execute _ loan _ | again _ loan _ _ | returnResource _ loan _ _ _ => some loan
  | _ => none

/-- The pool that it is from. -/
def lender : Phase P → Option (ShardedJedisPool P)
  | execute _ _ pool | again _ _ pool _ | returnResource _ _ pool _ _ => some pool
  | _ => none

/-- The pool that `clientMaster` was when it was first read, if it is going to be read again. -/
def seen : Phase P → Option (Nat × ShardedJedisPool P)
  | getResource use (some pool) | execute use _ pool | again use _ pool _ =>
    use.since.map fun m => (m, pool)
  | _ => none

/-- A connection that is about to be returned goes to the pool that it is from. -/
def Homeward : Phase P → Prop
  | returnResource _ _ pool target _ => target.number = pool.number
  | _ => True

/-- After a connection has been returned, or there was none. -/
def next (use : Use) (threw : Bool) : Phase P :=
  if use.both ∧ (threw = true → use.catches = true) then failover use.catches else idle

end Phase

/-! ## Threads -/

structure Process (κ P : Type) where
  smcJedis : SmcJedis P
  /-- The number of the next pool, and how often `clientMaster` has been replaced. -/
  created : Nat
  replaced : Nat
  /-- The connections by number: which pools have lent them, and to which they have been returned. -/
  ledger : Ledger Nat
  phase : κ → Phase P

namespace Process
variable {κ C P : Type} [DecidableEq κ]

/-- `new SmcJedis()`. -/
def new : Process κ P := ⟨⟨none, none, false⟩, 0, 0, .empty, fun _ => .idle⟩

def goto (s : Process κ P) (i : κ) (phase : Phase P) : Process κ P :=
  { s with phase := update s.phase i phase }

def assigned (s : Process κ P) (a : Assignment P) : Process κ P :=
  { s with
    smcJedis := assign s.created s.smcJedis a
    created := s.created + 1
    replaced := if a matches .clientMaster _ then s.replaced + 1 else s.replaced }

inductive Label (κ C P : Type)
  | call (i : κ) (m : Method P)
  | init (i : κ) (c : Configuration C)
  | step (i : κ)

inductive Step (lib : Libraries C P) : Process κ P → Label κ C P → Process κ P → Prop
  | call {s : Process κ P} {i : κ} {m : Method P} :
    s.phase i = .idle →
      Step lib s (.call i m) (s.goto i (match m with
        | .pooled pool => .getResource (m.use s.replaced) pool
        | _ => .clientMaster m))
  | init {s : Process κ P} {i : κ} {c : Configuration C} :
    s.phase i = .idle → Step lib s (.init i c) (s.goto i (.assign (assignments lib c)))
  | assign {s : Process κ P} {i : κ} {a : Assignment P} {todo : List (Assignment P)} :
    s.phase i = .assign (a :: todo) → Step lib s (.step i) ((s.assigned a).goto i (.assign todo))
  | inited {s : Process κ P} {i : κ} :
    s.phase i = .assign [] → Step lib s (.step i) (s.goto i .idle)
  | clientMaster {s : Process κ P} {i : κ} {m : Method P} :
    s.phase i = .clientMaster m →
      Step lib s (.step i) (s.goto i (.getResource (m.use s.replaced) s.smcJedis.clientMaster))
  | getResource {s : Process κ P} {i : κ} {use : Use} {pool : ShardedJedisPool P} :
    s.phase i = .getResource use (some pool) →
      Step lib s (.step i) ({ s with ledger := s.ledger.lend pool.number }.goto i
        (.execute use s.ledger.lenders.length pool))
  /-- There is no pool, or it has no connection to lend. -/
  | refused {s : Process κ P} {i : κ} {use : Use} {pool : Option (ShardedJedisPool P)} :
    s.phase i = .getResource use pool → Step lib s (.step i) (s.goto i (.next use true))
  | execute {s : Process κ P} {i : κ} {use : Use} {loan : Nat} {pool : ShardedJedisPool P}
    (threw : Bool) :
    s.phase i = .execute use loan pool →
      Step lib s (.step i) (s.goto i (if use.since = none then .returnResource use loan pool pool threw
        else .again use loan pool threw))
  | again {s : Process κ P} {i : κ} {use : Use} {loan : Nat} {pool target : ShardedJedisPool P}
    {threw : Bool} :
    s.phase i = .again use loan pool threw → s.smcJedis.clientMaster = some target →
      Step lib s (.step i) (s.goto i (.returnResource use loan pool target threw))
  | returnResource {s : Process κ P} {i : κ} {use : Use} {loan : Nat}
    {pool target : ShardedJedisPool P} {threw : Bool} :
    s.phase i = .returnResource use loan pool target threw →
      Step lib s (.step i) ({ s with ledger := s.ledger.giveBack loan target.number }.goto i
        (.next use threw))
  | failover {s : Process κ P} {i : κ} {catches : Bool} :
    s.phase i = .failover catches →
      Step lib s (.step i) (s.goto i (if s.smcJedis.failover then .isNull catches else .idle))
  | isNull {s : Process κ P} {i : κ} {catches : Bool} :
    s.phase i = .isNull catches →
      Step lib s (.step i)
        (s.goto i (if s.smcJedis.clientSlaver.isSome then .clientSlaver catches else .idle))
  | clientSlaver {s : Process κ P} {i : κ} {catches : Bool} :
    s.phase i = .clientSlaver catches →
      Step lib s (.step i) (s.goto i (.getResource ⟨none, false, catches⟩ s.smcJedis.clientSlaver))

/-- No method is running. -/
def AtRest (s : Process κ P) : Prop := ∀ i, ¬ (s.phase i).Running

structure Proper (s : Process κ P) : Prop where
  once : s.ledger.back.Nodup
  home : s.ledger.Home
  rest : s.AtRest → (∀ loan < s.ledger.lenders.length, loan ∈ s.ledger.back) ∧
    ∀ pool, s.ledger.active pool = 0

/-- A method that reads `clientMaster` again does so before it is replaced. -/
def Guarded (s : Process κ P) : Label κ C P → Prop
  | .step i => ∀ use loan pool threw, s.phase i = .again use loan pool threw →
    use.since = some s.replaced
  | _ => True

/-! ## What the threads hold -/

/-- `clientMaster` was `pool` when it had been replaced `m` times. -/
structure Seen (s : Process κ P) (m : Nat) (pool : ShardedJedisPool P) : Prop where
  le : m ≤ s.replaced
  lt : pool.number < s.created
  same : m = s.replaced → s.smcJedis.clientMaster = some pool
  other : m < s.replaced → ∃ p, s.smcJedis.clientMaster = some p ∧ pool.number < p.number

structure Invariant (s : Process κ P) : Prop where
  held : s.ledger.Held fun i => (s.phase i).loan
  lender : ∀ i loan pool, (s.phase i).loan = some loan → (s.phase i).lender = some pool →
    s.ledger.lenders[loan]? = some pool.number
  clientMaster : ∀ pool, s.smcJedis.clientMaster = some pool → pool.number < s.created
  seen : ∀ i m pool, (s.phase i).seen = some (m, pool) → s.Seen m pool
  again : ∀ i use loan pool threw, s.phase i = .again use loan pool threw → use.since ≠ none

variable {lib : Libraries C P} {s s' : Process κ P} {l : Label κ C P} {i : κ}

theorem goto_phase (s : Process κ P) (i : κ) (phase : Phase P) (j : κ) :
    (s.goto i phase).phase j = if j = i then phase else s.phase j := Function.update_apply ..

theorem goto_loan (s : Process κ P) (i : κ) (phase : Phase P) :
    (fun j => ((s.goto i phase).phase j).loan) = update (fun j => (s.phase j).loan) i phase.loan := by
  funext j
  rw [goto_phase, Function.update_apply]
  split <;> rfl

@[simp] theorem next_loan (use : Use) (threw : Bool) : (Phase.next use threw : Phase P).loan = none := by
  unfold Phase.next
  split <;> rfl

@[simp] theorem next_seen (use : Use) (threw : Bool) : (Phase.next use threw : Phase P).seen = none := by
  unfold Phase.next
  split <;> rfl

@[simp] theorem next_homeward (use : Use) (threw : Bool) :
    (Phase.next use threw : Phase P).Homeward := by
  unfold Phase.next
  split <;> trivial

omit [DecidableEq κ] in
theorem invariant_new : Invariant (new : Process κ P) := by
  refine ⟨Ledger.held_empty, ?_, ?_, ?_, ?_⟩ <;> simp [new, Phase.loan, Phase.seen]

/-- A thread goes on, and perhaps borrows or returns. -/
theorem Invariant.move (h : Invariant s) {ledger : Ledger Nat} {phase : Phase P}
    (hheld : ledger.Held (update (fun j => (s.phase j).loan) i phase.loan))
    (hlenders : ∀ (n a : Nat), s.ledger.lenders[n]? = some a → ledger.lenders[n]? = some a)
    (hlender : ∀ loan pool, phase.loan = some loan → phase.lender = some pool →
      ledger.lenders[loan]? = some pool.number)
    (hseen : ∀ m pool, phase.seen = some (m, pool) → s.Seen m pool)
    (hagain : ∀ use loan pool threw, phase = .again use loan pool threw → use.since ≠ none) :
    Invariant ({ s with ledger := ledger }.goto i phase) := by
  have hkeep {m : Nat} {pool : ShardedJedisPool P} (h : s.Seen m pool) :
      ({ s with ledger := ledger }.goto i phase).Seen m pool := ⟨h.le, h.lt, h.same, h.other⟩
  refine ⟨?_, fun j => ?_, h.clientMaster, fun j m pool => ?_, fun j => ?_⟩
  · rw [goto_loan]
    exact hheld
  · rw [goto_phase]
    split
    · exact hlender
    · exact fun loan pool hloan hpool => hlenders _ _ (h.lender j loan pool hloan hpool)
  · rw [goto_phase]
    split
    · exact fun hm => hkeep (hseen m pool hm)
    · exact fun hm => hkeep (h.seen j m pool hm)
  · rw [goto_phase]
    split
    · exact hagain
    · exact h.again j

/-- A thread goes on with what it holds. -/
theorem Invariant.goto (h : Invariant s) {phase : Phase P} (hloan : phase.loan = (s.phase i).loan)
    (hlender : phase.lender = (s.phase i).lender)
    (hseen : ∀ m pool, phase.seen = some (m, pool) → s.Seen m pool)
    (hagain : ∀ use loan pool threw, phase = .again use loan pool threw → use.since ≠ none) :
    Invariant (s.goto i phase) := by
  have hheld : s.ledger.Held (update (fun j => (s.phase j).loan) i phase.loan) := by
    rw [hloan]
    exact h.held.keep
  refine h.move hheld (fun _ _ hn => hn) ?_ hseen hagain
  rw [hloan, hlender]
  exact h.lender i

/-- A thread that holds nothing goes on without. -/
theorem Invariant.free (h : Invariant s) {phase : Phase P} (hi : (s.phase i).loan = none)
    (hloan : phase.loan = none) (hseen : ∀ m pool, phase.seen = some (m, pool) → s.Seen m pool) :
    Invariant (s.goto i phase) := by
  refine h.move ?_ (fun _ _ hn => hn) ?_ hseen ?_
  · rw [hloan, ← hi]
    exact h.held.keep
  · simp [hloan]
  · rintro use loan pool threw rfl
    cases hloan

omit [DecidableEq κ] in
theorem Invariant.assigned (h : Invariant s) (a : Assignment P) : Invariant (s.assigned a) := by
  have hlt {pool : ShardedJedisPool P} (hpool : s.smcJedis.clientMaster = some pool) :=
    h.clientMaster pool hpool
  refine ⟨h.held, h.lender, fun pool hpool => ?_, fun j m pool hm => ?_, h.again⟩
  · change pool.number < s.created + 1
    cases a with
    | clientMaster p =>
      rw [← Option.some.inj hpool]
      exact Nat.lt_succ_self _
    | clientSlaver => exact Nat.lt_succ_of_lt (hlt hpool)
    | failover => exact Nat.lt_succ_of_lt (hlt hpool)
  · have hseen := h.seen j m pool hm
    have hcreated : pool.number < s.created + 1 := Nat.lt_succ_of_lt hseen.lt
    cases a with
    | clientMaster p =>
      refine ⟨Nat.le_succ_of_le hseen.le, hcreated, fun hsame => ?_, fun _ => ⟨_, rfl, hseen.lt⟩⟩
      -- the pool was seen before this replacement
      have hsame : m = s.replaced + 1 := hsame
      have hle := hseen.le
      omega
    | clientSlaver => exact ⟨hseen.le, hcreated, hseen.same, hseen.other⟩
    | failover => exact ⟨hseen.le, hcreated, hseen.same, hseen.other⟩

/-- What a step preserves. -/
theorem Invariant.step (h : Invariant s) (hstep : Step lib s l s') : Invariant s' := by
  have hnone {i : κ} {phase : Phase P} (hi : s.phase i = phase) (hphase : phase.loan = none) :
      (s.phase i).loan = none := by rw [hi, hphase]
  cases hstep with
  | call hi =>
    rename_i i m
    apply h.free (hnone hi rfl)
    · cases m <;> rfl
    · cases m with
      | pooled pool => cases pool <;> simp [Phase.seen, Method.use, Method.rereads]
      | _ => simp [Phase.seen]
  | init hi => exact h.free (hnone hi rfl) rfl (by simp [Phase.seen])
  | assign hi => exact (h.assigned _).free (hnone hi rfl) rfl (by simp [Phase.seen])
  | inited hi => exact h.free (hnone hi rfl) rfl (by simp [Phase.seen])
  | clientMaster hi =>
    rename_i i m
    apply h.free (hnone hi rfl) rfl
    intro n pool hn
    cases hmaster : s.smcJedis.clientMaster with
    | none => simp [hmaster, Phase.seen] at hn
    | some p =>
      simp only [hmaster, Phase.seen, Method.use, Option.map_eq_some_iff, Prod.mk.injEq] at hn
      obtain ⟨k, hk, rfl, rfl⟩ := hn
      have hk : k = s.replaced := by
        split at hk
        · exact (Option.some.inj hk).symm
        · cases hk
      subst hk
      exact ⟨le_refl _, h.clientMaster p hmaster, fun _ => hmaster, fun hlt => absurd hlt (lt_irrefl _)⟩
  | getResource hi =>
    rename_i i use pool
    refine h.move (h.held.lend (hnone hi rfl) pool.number) (fun n a hn => Ledger.lenders_lend hn _) ?_ ?_
      ?_
    · intro loan p hloan hp
      simp only [Phase.loan, Phase.lender, Option.some.injEq] at hloan hp
      simp [← hloan, ← hp, Ledger.lend]
    · intro m p hm
      refine h.seen i m p ?_
      rw [hi]
      exact hm
    · simp
  | refused hi => exact h.free (hnone hi rfl) (next_loan ..) (by simp)
  | execute threw hi =>
    rename_i i use loan pool
    apply h.goto
    · rw [hi]
      split <;> rfl
    · rw [hi]
      split <;> rfl
    · intro m p hm
      refine h.seen i m p ?_
      rw [hi]
      split at hm
      · simp [Phase.seen] at hm
      · exact hm
    · intro use' loan' pool' threw' heq
      split at heq
      · cases heq
      · next hsome =>
        cases heq
        exact hsome
  | again hi hmaster =>
    apply h.goto <;> simp [hi, Phase.loan, Phase.lender, Phase.seen]
  | returnResource hi =>
    rename_i i use loan pool target threw
    have hloan : (s.phase i).loan = some loan := by rw [hi, Phase.loan]
    refine h.move ?_ (fun n a hn => hn) ?_ ?_ ?_
    · rw [next_loan]
      exact h.held.giveBack hloan _
    · simp
    · simp
    · intro use' loan' pool' threw' heq
      have hnext := next_loan (P := P) use threw
      rw [heq] at hnext
      cases hnext
  | failover hi =>
    apply h.free (hnone hi rfl)
    · split <;> rfl
    · split <;> simp [Phase.seen]
  | isNull hi =>
    apply h.free (hnone hi rfl)
    · split <;> rfl
    · split <;> simp [Phase.seen]
  | clientSlaver hi =>
    apply h.free (hnone hi rfl) rfl
    cases s.smcJedis.clientSlaver <;> simp [Phase.seen]

/-! ## Where the connections go -/

omit [DecidableEq κ] in
theorem guarded_of_ne (hi : ∀ use loan pool threw, s.phase i ≠ .again use loan pool threw) :
    Guarded s (.step i : Label κ C P) :=
  fun use loan pool threw h => absurd h (hi use loan pool threw)

/-- Apart from reading `clientMaster` again, and from returning, a step does not bear on it. -/
theorem step_cases (hstep : Step lib s l s') :
    (Guarded s l ∧ (s.ledger.Home → s'.ledger.Home) ∧
      ∃ i phase, s'.phase = update s.phase i phase ∧ (s.phase i).Homeward ∧ phase.Homeward) ∨
    (∃ i use loan pool target threw, l = .step i ∧ s.phase i = .again use loan pool threw ∧
      s.smcJedis.clientMaster = some target ∧
      s' = s.goto i (.returnResource use loan pool target threw)) ∨
    ∃ i use loan pool target threw, l = .step i ∧
      s.phase i = .returnResource use loan pool target threw ∧
      s' = { s with ledger := s.ledger.giveBack loan target.number }.goto i (.next use threw) := by
  have hother {i : κ} {old phase : Phase P} (hi : s.phase i = old)
      (hs' : s'.phase = update s.phase i phase) (hold : old.Homeward) (hphase : phase.Homeward) :
      ∃ i phase, s'.phase = update s.phase i phase ∧ (s.phase i).Homeward ∧ phase.Homeward := by
    refine ⟨i, phase, hs', ?_, hphase⟩
    rwa [hi]
  have hguarded {i : κ} {old : Phase P} (hi : s.phase i = old)
      (hne : ∀ use loan pool threw, old ≠ .again use loan pool threw) :
      Guarded s (.step i : Label κ C P) := guarded_of_ne (by rwa [hi])
  cases hstep with
  | @call i m hi =>
    refine .inl ⟨trivial, id, hother hi rfl trivial ?_⟩
    cases m <;> trivial
  | init hi => exact .inl ⟨trivial, id, hother hi rfl trivial trivial⟩
  | assign hi => exact .inl ⟨hguarded hi (by simp), id, hother hi rfl trivial trivial⟩
  | inited hi => exact .inl ⟨hguarded hi (by simp), id, hother hi rfl trivial trivial⟩
  | clientMaster hi => exact .inl ⟨hguarded hi (by simp), id, hother hi rfl trivial trivial⟩
  | getResource hi =>
    exact .inl ⟨hguarded hi (by simp), fun h => h.lend _, hother hi rfl trivial trivial⟩
  | refused hi => exact .inl ⟨hguarded hi (by simp), id, hother hi rfl trivial (next_homeward ..)⟩
  | execute threw hi =>
    refine .inl ⟨hguarded hi (by simp), id, hother hi rfl trivial ?_⟩
    split
    · exact rfl
    · trivial
  | again hi hmaster => exact .inr (.inl ⟨_, _, _, _, _, _, rfl, hi, hmaster, rfl⟩)
  | returnResource hi => exact .inr (.inr ⟨_, _, _, _, _, _, rfl, hi, rfl⟩)
  | failover hi =>
    refine .inl ⟨hguarded hi (by simp), id, hother hi rfl trivial ?_⟩
    split <;> trivial
  | isNull hi =>
    refine .inl ⟨hguarded hi (by simp), id, hother hi rfl trivial ?_⟩
    split <;> trivial
  | clientSlaver hi => exact .inl ⟨hguarded hi (by simp), id, hother hi rfl trivial trivial⟩

theorem homeward_update (h : ∀ j, (s.phase j).Homeward) {phase : Phase P} :
    (∀ j, (update s.phase i phase j).Homeward) ↔ phase.Homeward := by
  constructor
  · intro hall
    simpa using hall i
  · intro hphase j
    rw [Function.update_apply]
    split
    · exact hphase
    · exact h j

omit [DecidableEq κ] in
/-- The pool that `clientMaster` is now is the one it was exactly if it has not been replaced: the numbers
of the pools grow. -/
theorem Seen.number_eq_iff {m : Nat} {pool target : ShardedJedisPool P} (h : s.Seen m pool)
    (htarget : s.smcJedis.clientMaster = some target) :
    target.number = pool.number ↔ m = s.replaced := by
  constructor
  · intro heq
    by_contra hne
    obtain ⟨p, hp, hlt⟩ := h.other (lt_of_le_of_ne h.le hne)
    rw [htarget, Option.some.injEq] at hp
    subst hp
    omega
  · intro heq
    have hsame := h.same heq
    rw [htarget, Option.some.injEq] at hsame
    rw [hsame]

/-- All go home still, exactly if the step is guarded. -/
theorem Invariant.homeward_iff (h : Invariant s) (hstep : Step lib s l s')
    (hhomeward : ∀ i, (s.phase i).Homeward) : (∀ i, (s'.phase i).Homeward) ↔ Guarded s l := by
  rcases step_cases hstep with ⟨hguarded, -, i, phase, hphase, -, hnew⟩ |
    ⟨i, use, loan, pool, target, threw, rfl, hi, hmaster, rfl⟩ |
    ⟨i, use, loan, pool, target, threw, rfl, hi, rfl⟩
  · rw [hphase, homeward_update hhomeward]
    exact ⟨fun _ => hguarded, fun _ => hnew⟩
  · have hsince := h.again i use loan pool threw hi
    obtain ⟨m, hm⟩ := Option.ne_none_iff_exists'.mp hsince
    have hseen : s.Seen m pool := h.seen i m pool (by simp [hi, Phase.seen, hm])
    change (∀ j, (update s.phase i _ j).Homeward) ↔ _
    rw [homeward_update hhomeward]
    change target.number = pool.number ↔ _
    rw [hseen.number_eq_iff hmaster]
    constructor
    · rintro rfl use' loan' pool' threw' hi'
      rw [hi] at hi'
      cases hi'
      exact hm
    · intro hguarded
      have hreplaced := hguarded use loan pool threw hi
      rw [hm] at hreplaced
      exact Option.some.inj hreplaced
  · change (∀ j, (update s.phase i _ j).Homeward) ↔ _
    rw [homeward_update hhomeward]
    exact ⟨fun _ => guarded_of_ne (by simp [hi]), fun _ => next_homeward ..⟩

theorem Invariant.home_step (h : Invariant s) (hstep : Step lib s l s')
    (hhomeward : ∀ i, (s.phase i).Homeward) (hhome : s.ledger.Home) : s'.ledger.Home := by
  rcases step_cases hstep with ⟨-, hkeep, -⟩ | ⟨i, use, loan, pool, target, threw, rfl, hi, hmaster, rfl⟩ |
    ⟨i, use, loan, pool, target, threw, rfl, hi, rfl⟩
  · exact hkeep hhome
  · exact hhome
  · have hlender := h.lender i loan pool (by rw [hi, Phase.loan]) (by rw [hi, Phase.lender])
    have htarget := hhomeward i
    rw [hi] at htarget
    refine hhome.giveBack ?_
    rw [hlender]
    exact congrArg some htarget.symm

/-- A thread that is about to return a connection elsewhere stays so, until it does. -/
theorem Invariant.not_homeward (h : Invariant s) (hstep : Step lib s l s')
    (hi : ¬ (s.phase i).Homeward) (hhome : s'.ledger.Home) : ¬ (s'.phase i).Homeward := by
  have hkeep {j : κ} {phase : Phase P} (hij : i ≠ j) : ¬ (update s.phase j phase i).Homeward := by
    rwa [Function.update_of_ne hij]
  rcases step_cases hstep with ⟨-, -, j, phase, hphase, hj, -⟩ |
    ⟨j, use, loan, pool, target, threw, rfl, hj, hmaster, rfl⟩ |
    ⟨j, use, loan, pool, target, threw, rfl, hj, rfl⟩
  · rw [hphase]
    refine hkeep ?_
    rintro rfl
    exact hi hj
  · refine hkeep ?_
    rintro rfl
    exact hi (by rw [hj]; trivial)
  · refine hkeep ?_
    rintro rfl
    have hlender := h.lender i loan pool (by rw [hj, Phase.loan]) (by rw [hj, Phase.lender])
    have htarget := hhome (loan, target.number) (List.mem_append_right _ (List.mem_singleton_self _))
    change s.ledger.lenders[loan]? = some target.number at htarget
    rw [hlender, Option.some.injEq] at htarget
    rw [hj] at hi
    exact hi htarget.symm

omit [DecidableEq κ] in
/-- With nothing running, nothing is held. -/
theorem AtRest.loan_eq_none (h : s.AtRest) (i : κ) : (s.phase i).loan = none := by
  have hi := h i
  cases hphase : s.phase i <;> simp_all [Phase.Running, Phase.loan]

omit [DecidableEq κ] in
theorem AtRest.homeward (h : s.AtRest) (i : κ) : (s.phase i).Homeward := by
  have hi := h i
  cases hphase : s.phase i <;> simp_all [Phase.Running, Phase.Homeward]

omit [DecidableEq κ] in
theorem Invariant.proper (h : Invariant s) (hhome : s.ledger.Home) : Proper s where
  once := h.held.once
  home := hhome
  rest hrest := ⟨fun _ hn => h.held.all_back hrest.loan_eq_none hn,
    h.held.active_eq_zero hrest.loan_eq_none hhome⟩

/-! ## Runs -/

variable {ls : List (Label κ C P)}

/-- Guarded runs, and what holds along them. -/
theorem homeward_of_run (h : Run (fun s l s' => Step lib s l s' ∧ Guarded s l) new ls s) :
    Invariant s ∧ s.ledger.Home ∧ ∀ i, (s.phase i).Homeward := by
  refine h.invariant (I := fun s => Invariant s ∧ s.ledger.Home ∧ ∀ i, (s.phase i).Homeward)
    ⟨invariant_new, Ledger.home_empty, fun _ => trivial⟩ ?_
  rintro s l s' ⟨hinv, hhome, hhomeward⟩ ⟨hstep, hguarded⟩
  exact ⟨hinv.step hstep, hinv.home_step hstep hhomeward hhome,
    (hinv.homeward_iff hstep hhomeward).mpr hguarded⟩

/-- If the connections go back home and none is about to go elsewhere, the run was guarded. -/
theorem guarded_of_homeward (h : Run (fun s l s' => Step lib s l s' ∧ Proper s') new ls s) :
    Invariant s ∧ ((∀ i, (s.phase i).Homeward) →
      Run (fun s l s' => Step lib s l s' ∧ Guarded s l) new ls s) := by
  induction h with
  | nil => exact ⟨invariant_new, fun _ => .nil⟩
  | @snoc ls s s' l _ hs ih =>
    obtain ⟨hinv, ih⟩ := ih
    refine ⟨hinv.step hs.1, fun hhomeward' => ?_⟩
    have hhomeward (i : κ) : (s.phase i).Homeward := by
      by_contra hi
      exact hinv.not_homeward hs.1 hi hs.2.home (hhomeward' i)
    exact (ih hhomeward).snoc ⟨hs.1, (hinv.homeward_iff hs.1 hhomeward).mp hhomeward'⟩

/-- **The runs in which all connections go back, once, to the pools that they are from**: those in which
each method that reads `clientMaster` again does so before it is replaced; at the end no method is
running, or a connection might be on its way. -/
theorem returned_iff :
    (Run (fun s l s' => Step lib s l s' ∧ Guarded s l) new ls s →
      Run (fun s l s' => Step lib s l s' ∧ Proper s') new ls s) ∧
    (Run (fun s l s' => Step lib s l s' ∧ Proper s') new ls s ∧ s.AtRest ↔
      Run (fun s l s' => Step lib s l s' ∧ Guarded s l) new ls s ∧ s.AtRest) := by
  have hproper (h : Run (fun s l s' => Step lib s l s' ∧ Guarded s l) new ls s) :
      Run (fun s l s' => Step lib s l s' ∧ Proper s') new ls s := by
    induction h with
    | nil => exact .nil
    | snoc h hs ih =>
      obtain ⟨hinv, hhome, -⟩ := homeward_of_run (h.snoc hs)
      exact ih.snoc ⟨hs.1, hinv.proper hhome⟩
  refine ⟨hproper, fun ⟨h, hrest⟩ => ⟨?_, hrest⟩, fun ⟨h, hrest⟩ => ⟨hproper h, hrest⟩⟩
  exact (guarded_of_homeward h).2 hrest.homeward

/-- The configuration of one master. -/
def master : Configuration Unit := ⟨(), "a:1", "", "", ""⟩

theorem assignments_master : ∃ pool, assignments pairs master =
    [.clientMaster pool, .clientSlaver none, .failover false] := by
  have hpool : (initialShardedPool pairs () "a:1" "").isSome :=
    initialShardedPool_isSome_iff.mpr ⟨rfl, by decide⟩
  obtain ⟨pool, hpool⟩ := Option.isSome_iff_exists.mp hpool
  refine ⟨pool, ?_⟩
  have hblank : StringUtils.isBlank "" = true := by decide
  simp [assignments, master, hpool, hblank]

/-- `get` borrows from the first pool and returns to the second. -/
theorem not_returned : ¬ ∀ (ls : List (Label Bool Unit (Unit × List JedisShardInfo)))
    (s : Process Bool (Unit × List JedisShardInfo)),
    Run (Step pairs) new ls s →
      Run (fun s l s' => Step pairs s l s' ∧ Proper s') new ls s := by
  intro h
  obtain ⟨pool, hpool⟩ := assignments_master
  have hinit : Run (Step pairs) new [.init false master]
      (new.goto false (.assign (assignments pairs master))) := .single (.init rfl)
  rw [hpool] at hinit
  -- the first configuration
  have hrun := hinit.snoc (.assign (i := false) rfl)
  have hrun := hrun.snoc (.assign (i := false) rfl)
  have hrun := hrun.snoc (.assign (i := false) rfl)
  have hrun := hrun.snoc (.inited (i := false) rfl)
  -- the read borrows
  have hrun := hrun.snoc (.call (i := true) (m := .get) rfl)
  have hrun := hrun.snoc (.clientMaster (i := true) rfl)
  have hrun := hrun.snoc (.getResource (i := true) rfl)
  have hrun := hrun.snoc (.execute (i := true) false rfl)
  -- the second configuration
  have hrun := hrun.snoc (.init (i := false) (c := master) rfl)
  rw [hpool] at hrun
  have hrun := hrun.snoc (.assign (i := false) rfl)
  -- the read returns
  have hrun := hrun.snoc (.again (i := true) rfl rfl)
  obtain ⟨s, -, -, hproper⟩ := (h _ _ (hrun.snoc (.returnResource (i := true) rfl))).snoc_inv
  have hhome := hproper.home (0, 3) (List.mem_singleton_self _)
  cases hhome

end Process

end BaseService.Redis.Reconfiguration.Resources
