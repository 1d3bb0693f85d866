import BaseService.Data.Runs
import BaseService.StringUtils

/-!
# Reconfiguration

When the version of a module's configuration changes, `init` replaces the pools of its `SmcJedis` one after
the other. An exception ends it and is swallowed.

* `initialShardedPool` : the pool of an address; `Parses` : the addresses that have one;
* `SmcJedis`, `init` : the three fields, and how they are replaced;
* `Instance`, `Step` : initialisations and writes;
* `Proper` : an initialisation installs its configuration or nothing, and a write goes to pools of one
  configuration;
* `Half` : the master's address is good, but not that of the slave; `installed_iff` : any other
  configuration is installed, or nothing is;
* `proper_iff` : the runs that are proper.
-/

namespace BaseService.Redis.Reconfiguration

/-- `new JedisShardInfo(host, port, name)`, with the password that is set. -/
structure JedisShardInfo where
  host : String
  port : Int32
  name : String
  password : Option String

/-- The shard of one address; `none` is the exception of an index or of `Integer.parseInt`. -/
def shardInfo (password conn : String) : Option JedisShardInfo := do
  let host ← (splitRegex conn ':')[0]?
  let port ← (splitRegex conn ':')[1]?
  let port ← Integer.parseInt port
  some ⟨host, port, "master", if StringUtils.isBlank password then none else some password⟩

/-- The constructor of `ShardedJedisPool`, for configurations `C` of a pool; it may reject one of them,
whatever the shards. -/
structure Libraries (C P : Type) where
  accepts : C → Bool
  shardedJedisPool : C → List JedisShardInfo → P

/-- The values that `AppConfiguration` returns. -/
structure Configuration (C : Type) where
  jedisPoolConfig : C
  masterAdd : String
  masterPass : String
  slaveAdd : String
  slavePass : String

/-- A pool, and the number of the initialisation that has made it. -/
structure ShardedJedisPool (P : Type) where
  number : Nat
  pool : P

/-- The fields. -/
structure SmcJedis (P : Type) where
  clientMaster : Option (ShardedJedisPool P)
  clientSlaver : Option (ShardedJedisPool P)
  failover : Bool

/-- The pools that a write goes to. -/
def SmcJedis.pools {P : Type} (this : SmcJedis P) : List (ShardedJedisPool P) :=
  this.clientMaster.toList ++ if this.failover then this.clientSlaver.toList else []

section
variable {C P : Type} (lib : Libraries C P)

def initialShardedPool (jedisPoolConfig : C) (conn password : String) : Option P :=
  ((splitRegex conn ',').mapM (shardInfo password)).bind fun shards =>
    if lib.accepts jedisPoolConfig then some (lib.shardedJedisPool jedisPoolConfig shards) else none

/-- The initialisation with a number. -/
def init (number : Nat) (c : Configuration C) (this : SmcJedis P) : SmcJedis P :=
  match initialShardedPool lib c.jedisPoolConfig c.masterAdd c.masterPass with
  | none => this
  | some pool =>
    let this := { this with clientMaster := some ⟨number, pool⟩ }
    if StringUtils.isBlank c.slaveAdd then { this with clientSlaver := none, failover := false }
    else
      match initialShardedPool lib c.jedisPoolConfig c.slaveAdd c.slavePass with
      | none => this
      | some pool => { this with clientSlaver := some ⟨number, pool⟩, failover := true }

/-- The `SmcJedis` of a module, and the number of its initialisations. -/
structure Instance (P : Type) where
  smcJedis : SmcJedis P
  inits : Nat

/-- `new SmcJedis()`. -/
def Instance.new : Instance P := ⟨⟨none, none, false⟩, 0⟩

inductive Label (C : Type)
  | init (c : Configuration C)
  | write

inductive Step : Instance P → Label C → Instance P → Prop
  | init {s : Instance P} {c : Configuration C} :
    Step s (.init c) ⟨init lib s.inits c s.smcJedis, s.inits + 1⟩
  | write {s : Instance P} : Step s .write s

/-! ## What an initialisation should do -/

/-- The fields are those of a configuration. -/
structure Installed (number : Nat) (c : Configuration C) (this : SmcJedis P) : Prop where
  clientMaster : ∃ pool, initialShardedPool lib c.jedisPoolConfig c.masterAdd c.masterPass = some pool ∧
    this.clientMaster = some ⟨number, pool⟩
  clientSlaver : if StringUtils.isBlank c.slaveAdd then this.clientSlaver = none else
    ∃ pool, initialShardedPool lib c.jedisPoolConfig c.slaveAdd c.slavePass = some pool ∧
      this.clientSlaver = some ⟨number, pool⟩
  failover : this.failover = !StringUtils.isBlank c.slaveAdd

/-- The pools that a write goes to are of one configuration. -/
def OneConfiguration (this : SmcJedis P) : Prop :=
  ∀ p ∈ this.pools, ∀ q ∈ this.pools, p.number = q.number

/-- An initialisation installs the configuration, or leaves the fields; a write goes to the pools of one
configuration, if not to those of the old state. -/
def Proper (old : SmcJedis P) (s : Instance P) (l : Label C) (s' : Instance P) : Prop :=
  match l with
  | .init c => s'.smcJedis = s.smcJedis ∨ Installed lib s.inits c s'.smcJedis
  | .write => s.smcJedis = old ∨ OneConfiguration s.smcJedis

/-- The pool of the master has been made by an earlier initialisation. -/
def Instance.Fresh (s : Instance P) : Prop := ∀ p ∈ s.smcJedis.clientMaster, p.number < s.inits

/-- The address is a list of addresses with ports. -/
def Parses (address : String) : Prop :=
  ∀ conn ∈ splitRegex address ',', ((splitRegex conn ':')[1]?.bind Integer.parseInt).isSome

instance (address : String) : Decidable (Parses address) :=
  inferInstanceAs (Decidable (∀ _ ∈ _, _))

/-- The address of the master is good, and that of the slave is neither blank nor good. -/
def Half (c : Configuration C) : Prop :=
  lib.accepts c.jedisPoolConfig = true ∧ Parses c.masterAdd ∧ StringUtils.isBlank c.slaveAdd = false ∧
    ¬ Parses c.slaveAdd

end

/-! ## Addresses -/

section
variable {C P : Type} {lib : Libraries C P} {c : Configuration C}

theorem shardInfo_isSome (password conn : String) :
    (shardInfo password conn).isSome = ((splitRegex conn ':')[1]?.bind Integer.parseInt).isSome := by
  unfold shardInfo
  rcases splitRegex conn ':' with _ | ⟨host, _ | ⟨port, rest⟩⟩
  · rfl
  · rfl
  · show ((Integer.parseInt port).bind _).isSome = (Integer.parseInt port).isSome
    cases Integer.parseInt port <;> rfl

theorem mapM_isSome {α β : Type} (f : α → Option β) (l : List α) :
    (l.mapM f).isSome ↔ ∀ a ∈ l, (f a).isSome := by
  induction l with
  | nil => simp
  | cons a l ih =>
    rw [List.mapM_cons, List.forall_mem_cons, ← ih]
    cases f a <;> cases l.mapM f <;> simp

theorem initialShardedPool_isSome_iff {jedisPoolConfig : C} {conn password : String} :
    (initialShardedPool lib jedisPoolConfig conn password).isSome ↔
      lib.accepts jedisPoolConfig = true ∧ Parses conn := by
  have hparses : ((splitRegex conn ',').mapM (shardInfo password)).isSome ↔ Parses conn := by
    rw [mapM_isSome]
    simp only [shardInfo_isSome]
    rfl
  rw [initialShardedPool, ← hparses]
  cases (splitRegex conn ',').mapM (shardInfo password) with
  | none => simp
  | some shards => cases lib.accepts jedisPoolConfig <;> simp

theorem half_iff : Half lib c ↔
    (initialShardedPool lib c.jedisPoolConfig c.masterAdd c.masterPass).isSome ∧
      StringUtils.isBlank c.slaveAdd = false ∧
      initialShardedPool lib c.jedisPoolConfig c.slaveAdd c.slavePass = none := by
  rw [← Option.not_isSome_iff_eq_none, initialShardedPool_isSome_iff, initialShardedPool_isSome_iff, Half]
  tauto

/-! ## One initialisation -/

theorem init_of_half (h : Half lib c) (number : Nat) (this : SmcJedis P) :
    ∃ pool, init lib number c this = { this with clientMaster := some ⟨number, pool⟩ } := by
  obtain ⟨hmaster, hblank, hslave⟩ := half_iff.1 h
  obtain ⟨pool, hpool⟩ := Option.isSome_iff_exists.1 hmaster
  refine ⟨pool, ?_⟩
  simp [init, hpool, hblank, hslave]

theorem init_of_not_half (h : ¬ Half lib c) (number : Nat) (this : SmcJedis P) :
    init lib number c this = this ∨ Installed lib number c (init lib number c this) := by
  unfold init
  cases hmaster : initialShardedPool lib c.jedisPoolConfig c.masterAdd c.masterPass with
  | none => exact .inl rfl
  | some pool =>
    right
    cases hblank : StringUtils.isBlank c.slaveAdd with
    | true => exact ⟨⟨pool, hmaster, rfl⟩, by rw [if_pos hblank]; rfl, by rw [hblank]; rfl⟩
    | false =>
      cases hslave : initialShardedPool lib c.jedisPoolConfig c.slaveAdd c.slavePass with
      | none => exact absurd (half_iff.2 ⟨by rw [hmaster]; rfl, hblank, hslave⟩) h
      | some pool' =>
        refine ⟨⟨pool, hmaster, rfl⟩, ?_, by rw [hblank]; rfl⟩
        rw [hblank]
        exact ⟨pool', hslave, rfl⟩

variable {number : Nat} {this : SmcJedis P}

/-- From any old state: the configurations of which everything or nothing is installed. -/
theorem installed_iff (hfresh : ∀ p ∈ this.clientMaster, p.number < number) :
    init lib number c this = this ∨ Installed lib number c (init lib number c this) ↔ ¬ Half lib c := by
  refine ⟨fun h hhalf => ?_, fun h => init_of_not_half h number this⟩
  obtain ⟨pool, hinit⟩ := init_of_half hhalf number this
  rw [hinit] at h
  rcases h with h | ⟨-, hslaver, -⟩
  · have hmaster : this.clientMaster = some ⟨number, pool⟩ := by rw [← h]
    exact absurd (hfresh _ hmaster) (Nat.lt_irrefl number)
  · obtain ⟨-, hblank, hslave⟩ := half_iff.1 hhalf
    rw [hblank] at hslaver
    obtain ⟨pool', hpool', -⟩ := hslaver
    rw [hslave] at hpool'
    cases hpool'

theorem Installed.oneConfiguration (h : Installed lib number c this) : OneConfiguration this := by
  obtain ⟨⟨pool, -, hmaster⟩, hslaver, hfailover⟩ := h
  have hnumber (p : ShardedJedisPool P) (hp : p ∈ this.pools) : p.number = number := by
    rw [SmcJedis.pools, hmaster, List.mem_append] at hp
    rcases hp with hp | hp
    · rw [List.mem_singleton.1 hp]
    · split at hslaver
      · next hblank =>
        rw [hfailover, hblank] at hp
        cases hp
      · obtain ⟨pool', -, hslaver⟩ := hslaver
        rw [hslaver] at hp
        split at hp
        · rw [List.mem_singleton.1 hp]
        · cases hp
  intro p hp q hq
  rw [hnumber p hp, hnumber q hq]

/-! ## Runs -/

variable {s s' : Instance P} {l : Label C} {ls : List (Label C)}

theorem Step.fresh (hs : Step lib s l s') (h : s.Fresh) : s'.Fresh := by
  cases hs with
  | @init c =>
    intro p hp
    have hp : p ∈ (Reconfiguration.init lib s.inits c s.smcJedis).clientMaster := hp
    have hold (hp : p ∈ s.smcJedis.clientMaster) : p.number < s.inits + 1 :=
      Nat.lt_succ_of_lt (h p hp)
    by_cases hhalf : Half lib c
    · obtain ⟨pool, hinit⟩ := init_of_half hhalf s.inits s.smcJedis
      rw [hinit] at hp
      cases hp
      exact Nat.lt_succ_self s.inits
    · rcases init_of_not_half hhalf s.inits s.smcJedis with hinit | hinstalled
      · rw [hinit] at hp
        exact hold hp
      · obtain ⟨pool, -, hmaster⟩ := hinstalled.clientMaster
        rw [hmaster] at hp
        cases hp
        exact Nat.lt_succ_self s.inits
  | write => exact h

/-- The fields are the old ones, or of one configuration. -/
def Unmixed (old this : SmcJedis P) : Prop := this = old ∨ OneConfiguration this

theorem Unmixed.step {old : SmcJedis P} (h : Unmixed old s.smcJedis) (hs : Step lib s l s')
    (hl : ∀ c, l = .init c → ¬ Half lib c) : Unmixed old s'.smcJedis ∧ Proper lib old s l s' := by
  cases hs with
  | @init c =>
    have hinit := init_of_not_half (hl c rfl) s.inits s.smcJedis
    refine ⟨?_, hinit⟩
    rcases hinit with hsame | hinstalled
    · show Unmixed old (Reconfiguration.init lib s.inits c s.smcJedis)
      rw [hsame]
      exact h
    · exact .inr hinstalled.oneConfiguration
  | write => exact ⟨h, h⟩

theorem not_half_of_proper {old : SmcJedis P} (hfresh : s.Fresh) (hs : Step lib s l s')
    (hproper : Proper lib old s l s') (hl : l = .init c) : ¬ Half lib c := by
  subst hl
  cases hs
  exact (installed_iff hfresh).1 hproper

/-- **The runs in which each initialisation installs everything or nothing**, and each write goes to the
pools of one configuration: those without a configuration that is good by half. -/
theorem proper_iff (hfresh : s.Fresh) (h : Run (Step lib) s ls s') :
    Run (fun t l t' => Step lib t l t' ∧ Proper lib s.smcJedis t l t') s ls s' ↔
      ∀ c, .init c ∈ ls → ¬ Half lib c := by
  constructor
  · intro hrun
    have hall := hrun.history (I := fun ls t => t.Fresh ∧ ∀ c, .init c ∈ ls → ¬ Half lib c)
      ⟨hfresh, nofun⟩ fun ls t l t' hi hs => by
        refine ⟨hs.1.fresh hi.1, fun c hc => ?_⟩
        rcases List.mem_append.1 hc with hc | hc
        · exact hi.2 c hc
        · exact not_half_of_proper hi.1 hs.1 hs.2 (List.mem_singleton.1 hc).symm
    exact hall.2
  · have hall := h.history (I := fun ls t => (∀ c, .init c ∈ ls → ¬ Half lib c) →
        Unmixed s.smcJedis t.smcJedis ∧
          Run (fun t l t' => Step lib t l t' ∧ Proper lib s.smcJedis t l t') s ls t)
      (fun _ => ⟨.inl rfl, .nil⟩) fun ls t l t' hi hs hhalf => by
        obtain ⟨hunmixed, hrun⟩ := hi fun c hc => hhalf c (List.mem_append_left _ hc)
        obtain ⟨hunmixed', hproper⟩ := hunmixed.step hs fun c hc =>
          hhalf c (List.mem_append_right _ (hc ▸ List.mem_singleton_self l))
        exact ⟨hunmixed', hrun.snoc ⟨hs, hproper⟩⟩
    exact fun hhalf => (hall hhalf).2

/-- If the pools of the old state are of one configuration, so are those of every write. -/
theorem oneConfiguration_of_proper {old : SmcJedis P} (hold : OneConfiguration old)
    (h : Proper lib old s .write s') : OneConfiguration s.smcJedis :=
  h.elim (fun heq => heq ▸ hold) id

end

theorem fresh_new {P : Type} : (Instance.new : Instance P).Fresh := nofun

/-- A pool of its configuration and its shards. -/
def pairs : Libraries Unit (Unit × List JedisShardInfo) := ⟨fun _ => true, fun c shards => (c, shards)⟩

/-- A slave of two shards. -/
theorem proper_two_shards : ∃ s, Run (fun t l t' => Step pairs t l t' ∧
    Proper pairs ⟨none, none, false⟩ t l t') .new [.init ⟨(), "a:1", "", "b:2,c:3", "p"⟩, .write] s := by
  have hinit : Run (Step pairs) .new [.init ⟨(), "a:1", "", "b:2,c:3", "p"⟩] _ := .single .init
  have hrun := hinit.snoc .write
  refine ⟨_, (proper_iff fresh_new hrun).2 fun c hc hhalf => ?_⟩
  have hc : c = ⟨(), "a:1", "", "b:2,c:3", "p"⟩ := by simpa using hc
  subst hc
  exact hhalf.2.2.2 (by decide)

/-- The new address of the slave has no port. -/
theorem not_proper_half : ¬ ∀ (ls : List (Label Unit)) (s : Instance (Unit × List JedisShardInfo)),
    Run (Step pairs) .new ls s →
      Run (fun t l t' => Step pairs t l t' ∧ Proper pairs ⟨none, none, false⟩ t l t') .new ls s := by
  intro h
  have hinit : Run (Step pairs) .new [.init ⟨(), "a:1", "", "b:2", ""⟩] _ := .single .init
  obtain ⟨s, hrun, hstep, hproper⟩ := (h _ _ (hinit.snoc (@Step.init _ _ _ _
    ⟨(), "c:3", "", "d", ""⟩))).snoc_inv
  have hfresh : s.Fresh := hrun.invariant fresh_new fun _ _ _ hi hs => hs.1.fresh hi
  exact not_half_of_proper hfresh hstep hproper rfl ⟨rfl, by decide, by decide, by decide⟩

end BaseService.Redis.Reconfiguration
