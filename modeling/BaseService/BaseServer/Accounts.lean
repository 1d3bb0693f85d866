import BaseService.BaseServer.UserService
import BaseService.Data.Failing
import BaseService.Data.Runs
import BaseService.Redis.Server

/-!
# The keys of the accounts

`UserService` on a Redis server. The accounts and the set of their keys are values of one key space, in
which the key of that set is the one of the user name `all_keys`.

* `exsist`, `regist`, `modify`, `verify`, `del`, `getAllUser` : the methods, with their commands;
* `Accounts`, `Accounts.Step` : the server, and the accounts by what the calls have returned;
* `Proper` : what a call should do;
* `independent_iff` : the sequences of calls of which each does.
-/

namespace BaseService.BaseServer.KeySpace
open Function (update)
open Redis (Command Cmd Value)

/-! ## The methods -/

/-- An error reply, as to a command on a key of the wrong type, or a null that is written. -/
inductive JedisException
  | dataException
  deriving DecidableEq, Repr

abbrev Action := Failing JedisException Redis.Server

def allKeys : String := "manage_user_all_keys"

def keyOf (userName : String) : String := "manage_user_" ++ userName

def send (c : Command) : Action Unit := fun s =>
  match c.exec s with
  | some (s, _) => (.ok (), s)
  | none => (.error .dataException, s)

def hset (key field : String) : Option String → Action Unit
  | some value => send ⟨key, .hset field value⟩
  | none => throw .dataException

/-- The hash of a key; one that does not exist is empty. -/
def hgetAll (key : String) : Action (List (String × String)) := fun s =>
  match s key with
  | none => (.ok [], s)
  | some (.hash h) => (.ok h, s)
  | some _ => (.error .dataException, s)

def hexists (key field : String) : Action Bool := do
  let h ← hgetAll key
  pure (h.lookup field).isSome

def smembers (key : String) : Action (Finset String) := fun s =>
  match Cmd.setOf (s key) with
  | some set => (.ok set, s)
  | none => (.error .dataException, s)

def exsist (userName : String) : Action Bool := hexists (keyOf userName) "userName"

def regist (user : User) : Action Bool := do
  let key := keyOf user.userName
  if ← exsist user.userName then pure false
  else
    hset key "userName" (some user.userName)
    hset key "password" user.password
    hset key "name" user.name
    send ⟨allKeys, .sadd [key]⟩
    pure true

def modify (user : User) : Action Bool := do
  let key := keyOf user.userName
  if !(← exsist user.userName) then pure false
  else
    hset key "password" user.password
    pure true

def verify (userName : String) : Action Bool := do
  let key := keyOf userName
  if !(← exsist userName) then pure false
  else
    hset key "verify" (some "true")
    pure true

def del (userName : String) : Action Bool := do
  let key := keyOf userName
  if !(← exsist userName) then pure false
  else
    send ⟨key, .hdel ["userName", "password", "name", "verify"]⟩
    send ⟨allKeys, .srem [key]⟩
    pure true

/-- A user in the list of all; the password is not read. -/
structure ListedUser where
  userName : Option String
  name : Option String
  verify : Bool
  deriving DecidableEq, Repr

/-- The loop over the keys that are left. -/
def getUsers : List String → Action (List ListedUser)
  | [] => pure []
  | each :: keys => do
    let eachUser ← hgetAll each
    let user : ListedUser :=
      ⟨eachUser.lookup "userName", eachUser.lookup "name", booleanValueOf (eachUser.lookup "verify")⟩
    let users ← getUsers keys
    pure (user :: users)

/-- `order` is that in which the set of the keys is iterated. -/
def getAllUser (order : Finset String → List String) : Action (List ListedUser) := do
  let allUserKeys ← smembers allKeys
  getUsers (order allUserKeys)

/-! ## The accounts -/

inductive Call
  | regist (user : User)
  | modify (user : User)
  | verify (userName : String)
  | del (userName : String)

namespace Call

def userName : Call → String
  | regist user | modify user => user.userName
  | verify userName | del userName => userName

def run : Call → Action Bool
  | regist user => KeySpace.regist user
  | modify user => KeySpace.modify user
  | verify userName => KeySpace.verify userName
  | del userName => KeySpace.del userName

end Call

/-- What successful calls have made of an account. -/
structure Registered where
  password : Option String
  name : Option String
  verify : Bool
  deriving DecidableEq, Repr

/-- A call that has returned `true`. -/
def record (registered : String → Option Registered) : Call → String → Option Registered
  | .regist user => update registered user.userName (some ⟨user.password, user.name, false⟩)
  | .modify user => update registered user.userName
      ((registered user.userName).map fun r => { r with password := user.password })
  | .verify userName => update registered userName
      ((registered userName).map fun r => { r with verify := true })
  | .del userName => update registered userName none

/-- The server, and the accounts that are registered. -/
structure Accounts where
  server : Redis.Server
  registered : String → Option Registered

namespace Accounts

def start : Accounts := ⟨fun _ => none, fun _ => none⟩

def after (s : Accounts) (c : Call) : Accounts where
  server := (c.run s.server).2
  registered := if (c.run s.server).1 = .ok true then record s.registered c else s.registered

def Step (s : Accounts) (c : Call) (s' : Accounts) : Prop := s' = s.after c

/-- The hash of an account, and whether its key is in the set. -/
def account (s : Accounts) (userName : String) : Option (List (String × String)) :=
  match s.server (keyOf userName) with
  | some (.hash h) => some h
  | _ => none

def Listed (s : Accounts) (userName : String) : Prop :=
  ∃ set, Cmd.setOf (s.server allKeys) = some set ∧ keyOf userName ∈ set

/-- The list of all users has the registered ones, each once. -/
def ListsAll (s : Accounts) : Prop :=
  ∀ order : Finset String → List String, (∀ set, (order set).Nodup ∧ (order set).toFinset = set) →
    ∃ users, (getAllUser order s.server).1 = .ok users ∧ (users.map ListedUser.userName).Nodup ∧
      ∀ user, user ∈ users ↔ ∃ userName r, s.registered userName = some r ∧
        user = ⟨some userName, r.name, r.verify⟩

structure Proper (s : Accounts) (c : Call) (s' : Accounts) : Prop where
  regist : ∀ user, c = .regist user →
    ((c.run s.server).1 = .ok true ↔ s.registered user.userName = none)
  others : ∀ userName, userName ≠ c.userName →
    s'.account userName = s.account userName ∧ (s'.Listed userName ↔ s.Listed userName)
  listed : s'.ListsAll

/-- A new account does not have the name of the set of all keys, and no null is written. -/
def Allowed (s : Accounts) (c : Call) : Prop :=
  ∀ user, c = .regist user → s.registered user.userName = none →
    user.userName ≠ "all_keys" ∧ user.password ≠ none ∧ user.name ≠ none

end Accounts

/-! ## Hashes and keys -/

theorem keyOf_injective : Function.Injective keyOf := by
  intro u v h
  have hlist := congrArg String.toList h
  simp only [keyOf, String.toList_append] at hlist
  exact String.toList_inj.mp (List.append_cancel_left hlist)

theorem keyOf_all_keys : keyOf "all_keys" = allKeys := by decide

theorem keyOf_ne {userName : String} (h : userName ≠ "all_keys") : keyOf userName ≠ allKeys := by
  rw [← keyOf_all_keys]
  exact keyOf_injective.ne h

/-- The hash of an account, by field. -/
def fields (userName password name : String) (verify : Bool) : List (String × String) :=
  [("name", name), ("password", password), ("userName", userName)] ++
    if verify then [("verify", "true")] else []

section
variable (userName password name : String) (verify : Bool)

theorem hput_new : Redis.hput (Redis.hput (Redis.hput [] "userName" userName) "password" password)
    "name" name = fields userName password name false := by
  have h₁ : ("password" : String) ≤ "userName" := by decide
  have h₂ : ("name" : String) ≤ "password" := by decide
  simp [Redis.hput, fields, h₁, h₂]

theorem hput_password (password' : String) :
    Redis.hput (fields userName password name verify) "password" password' =
      fields userName password' name verify := by
  have h₁ : ("password" : String) ≤ "userName" := by decide
  have h₂ : ¬ ("password" : String) ≤ "name" := by decide
  cases verify <;> simp [Redis.hput, fields, h₁, h₂]

theorem hput_verify : Redis.hput (fields userName password name verify) "verify" "true" =
    fields userName password name true := by
  have h₁ : ¬ ("verify" : String) ≤ "userName" := by decide
  have h₂ : ¬ ("verify" : String) ≤ "name" := by decide
  have h₃ : ¬ ("verify" : String) ≤ "password" := by decide
  cases verify <;> simp [Redis.hput, fields, h₁, h₂, h₃]

theorem filter_fields : ((fields userName password name verify).filter fun e =>
    e.1 ∉ ["userName", "password", "name", "verify"]) = [] := by
  cases verify <;> simp [fields]

end

/-! ## The commands -/

section
variable {s : Redis.Server} {key : String} {h : List (String × String)} {set : Finset String}

theorem hgetAll_hash (hkey : s key = some (.hash h)) : hgetAll key s = (.ok h, s) := by
  simp [hgetAll, hkey]

theorem hgetAll_none (hkey : s key = none) : hgetAll key s = (.ok [], s) := by
  simp [hgetAll, hkey]

theorem stored_hput (h : List (String × String)) (field value : String) :
    (Value.hash (Redis.hput h field value)).stored = some (.hash (Redis.hput h field value)) := by
  have hmem : (field, value) ∈ Redis.hput h field value := by simp [Redis.hput]
  cases hput : Redis.hput h field value with
  | nil => simp [hput] at hmem
  | cons e l => rfl

/-- A field is written into a hash. -/
theorem hset_spec (hkey : hgetAll key s = (.ok h, s)) (field value : String) :
    hset key field (some value) s =
      (.ok (), update s key (some (.hash (Redis.hput h field value)))) := by
  have hexec : (Cmd.hset field value).exec (s key) = some
      (some (.hash (Redis.hput h field value)), .integer (if h.lookup field = none then 1 else 0)) := by
    unfold hgetAll at hkey
    split at hkey
    · next hnone =>
      cases hkey
      rw [hnone, ← stored_hput]
      rfl
    · next hsome =>
      cases hkey
      rw [hsome, ← stored_hput]
      rfl
    · cases hkey
  simp [hset, send, Command.exec, hexec]

theorem sadd_spec (hkey : s key = (Value.set set).stored) (member : String) :
    send ⟨key, .sadd [member]⟩ s = (.ok (), update s key (Value.set (insert member set)).stored) := by
  have hexec : (Cmd.sadd [member]).exec (s key) = some ((Value.set (insert member set)).stored,
      .integer ([member].toFinset \ set).card) := by
    rw [Cmd.exec_set (by simp [Cmd.OnSets]), hkey, Cmd.setOf_stored]
    simp [Cmd.execSet]
  simp [send, Command.exec, hexec]

theorem srem_spec (hkey : s key = (Value.set set).stored) (member : String) :
    send ⟨key, .srem [member]⟩ s = (.ok (), update s key (Value.set (set.erase member)).stored) := by
  have hexec : (Cmd.srem [member]).exec (s key) = some ((Value.set (set.erase member)).stored,
      .integer (set ∩ [member].toFinset).card) := by
    rw [Cmd.exec_set (by simp [Cmd.OnSets]), hkey, Cmd.setOf_stored]
    simp [Cmd.execSet, Finset.sdiff_singleton_eq_erase]
  simp [send, Command.exec, hexec]

/-- All fields of an account are deleted, and with them its hash. -/
theorem hdel_spec {userName password name : String} {verify : Bool}
    (hkey : s key = some (.hash (fields userName password name verify))) :
    send ⟨key, .hdel ["userName", "password", "name", "verify"]⟩ s = (.ok (), update s key none) := by
  have hexec : (Cmd.hdel ["userName", "password", "name", "verify"]).exec (s key) =
      some (none, .integer ((fields userName password name verify).length - ([] : List Nat).length)) := by
    rw [hkey]
    unfold Cmd.exec
    simp only [Cmd.execHash, Option.bind_eq_bind, Option.bind_some, Option.map_some, filter_fields]
    rfl
  simp [send, Command.exec, hexec]

end

/-! ## What the server holds -/

/-- The value at the key of an account. -/
def Stores (server : Redis.Server) (userName : String) : Option Registered → Prop
  | none => server (keyOf userName) = none
  | some r => ∃ password name, r.password = some password ∧ r.name = some name ∧
      server (keyOf userName) = some (.hash (fields userName password name r.verify))

structure Holds (s : Accounts) : Prop where
  free : s.registered "all_keys" = none
  stores : ∀ userName, userName ≠ "all_keys" → Stores s.server userName (s.registered userName)
  keys : ∃ set, s.server allKeys = (Value.set set).stored ∧
    ∀ key, key ∈ set ↔ ∃ userName, s.registered userName ≠ none ∧ key = keyOf userName

namespace Holds
variable {s : Accounts}

theorem start : Holds .start :=
  ⟨rfl, fun _ _ => rfl, ∅, by simp [Accounts.start, Value.stored], by simp [Accounts.start]⟩

theorem ne (h : Holds s) {userName : String} (hr : s.registered userName ≠ none) :
    userName ≠ "all_keys" := by
  rintro rfl
  exact hr h.free

theorem stored (h : Holds s) {userName : String} (hr : s.registered userName ≠ none) :
    ∃ r password name, s.registered userName = some r ∧ r.password = some password ∧
      r.name = some name ∧
      s.server (keyOf userName) = some (.hash (fields userName password name r.verify)) := by
  obtain ⟨r, hr'⟩ := Option.ne_none_iff_exists'.mp hr
  have hstores := h.stores userName (h.ne hr)
  rw [hr'] at hstores
  obtain ⟨password, name, hpassword, hname, hkey⟩ := hstores
  exact ⟨r, password, name, hr', hpassword, hname, hkey⟩

/-- `exsist` says whether an account is registered. -/
theorem exsist (h : Holds s) {userName : String} (hne : userName ≠ "all_keys") :
    exsist userName s.server = (.ok (s.registered userName).isSome, s.server) := by
  have hstores := h.stores userName hne
  unfold KeySpace.exsist hexists
  cases hr : s.registered userName with
  | none =>
    rw [hr] at hstores
    simp [hgetAll_none hstores]
  | some r =>
    rw [hr] at hstores
    obtain ⟨password, name, -, -, hkey⟩ := hstores
    simp [hgetAll_hash hkey, fields, List.lookup]

/-- Asked about the set of the keys, it returns `false` or throws. -/
theorem exsist_all_keys (h : Holds s) :
    KeySpace.exsist "all_keys" s.server = (.ok false, s.server) ∧ s.server allKeys = none ∨
      KeySpace.exsist "all_keys" s.server = (.error .dataException, s.server) := by
  obtain ⟨set, hset, -⟩ := h.keys
  unfold KeySpace.exsist hexists
  rw [keyOf_all_keys]
  by_cases hempty : set = ∅
  · have hnone : s.server allKeys = none := by simp [hset, hempty, Value.stored]
    simp [hgetAll_none hnone, hnone]
  · have hsome : s.server allKeys = some (.set set) := by simp [hset, hempty, Value.stored]
    simp [hgetAll, hsome]

/-- An account is written, or removed. -/
theorem update (h : Holds s) {userName : String} (hne : userName ≠ "all_keys")
    {server : Redis.Server} {r : Option Registered}
    (hothers : ∀ key, key ≠ keyOf userName → key ≠ allKeys → server key = s.server key)
    (hstores : Stores server userName r)
    (hkeys : ∃ set, server allKeys = (Value.set set).stored ∧ ∀ key, key ∈ set ↔
      if key = keyOf userName then r ≠ none else ∃ u, s.registered u ≠ none ∧ key = keyOf u) :
    Holds ⟨server, Function.update s.registered userName r⟩ := by
  obtain ⟨set, hset, hmem⟩ := hkeys
  refine ⟨?_, fun u hu => ?_, set, hset, fun key => ?_⟩
  · dsimp only
    rw [Function.update_of_ne hne.symm]
    exact h.free
  · dsimp only
    by_cases heq : u = userName
    · subst heq
      rwa [Function.update_self]
    · rw [Function.update_of_ne heq]
      have hkey := hothers (keyOf u) (keyOf_injective.ne heq) (keyOf_ne hu)
      have hstores := h.stores u hu
      unfold Stores at hstores ⊢
      rwa [hkey]
  · rw [hmem]
    dsimp only
    split
    · next hkey =>
      subst hkey
      constructor
      · exact fun hr => ⟨userName, by rwa [Function.update_self], rfl⟩
      · rintro ⟨u, hr, hkey⟩
        rwa [← keyOf_injective hkey, Function.update_self] at hr
    · next hkey =>
      refine exists_congr fun u => and_congr_left fun heq => ?_
      rw [Function.update_of_ne]
      rintro rfl
      exact hkey heq

theorem regist_taken (h : Holds s) {user : User} (hr : s.registered user.userName ≠ none) :
    regist user s.server = (.ok false, s.server) := by
  unfold regist
  simp [h.exsist (h.ne hr), Option.isSome_iff_ne_none.mpr hr]

/-- A new account. -/
theorem regist_new (h : Holds s) {user : User} (hallowed : s.Allowed (.regist user))
    (hr : s.registered user.userName = none) :
    ∃ server, regist user s.server = (.ok true, server) ∧
      Holds ⟨server, record s.registered (.regist user)⟩ := by
  obtain ⟨hne, hpassword, hname⟩ := hallowed user rfl hr
  obtain ⟨userName, password, name⟩ := user
  obtain ⟨password, rfl⟩ := Option.ne_none_iff_exists'.mp hpassword
  obtain ⟨name, rfl⟩ := Option.ne_none_iff_exists'.mp hname
  dsimp only at hr hne
  obtain ⟨set, hset, hmem⟩ := h.keys
  have hstores := h.stores userName hne
  rw [hr] at hstores
  have hkey := keyOf_ne hne
  let s₁ := Function.update s.server (keyOf userName) (some (.hash (fields userName password name false)))
  refine ⟨Function.update s₁ allKeys (Value.set (insert (keyOf userName) set)).stored, ?_, ?_⟩
  · have hset₁ : s₁ allKeys = (Value.set set).stored :=
      (Function.update_of_ne hkey.symm ..).trans hset
    unfold regist
    simp only [Failing.run_bind, h.exsist hne, hr, Option.isSome_none, Bool.false_eq_true, if_false]
    rw [hset_spec (hgetAll_none hstores)]
    dsimp only
    rw [hset_spec (hgetAll_hash (Function.update_self ..)), Function.update_idem]
    dsimp only
    rw [hset_spec (hgetAll_hash (Function.update_self ..)), Function.update_idem, hput_new]
    dsimp only
    rw [sadd_spec hset₁]
    rfl
  · refine h.update hne (fun key hkey hall => ?_) ?_ ⟨_, Function.update_self .., fun key => ?_⟩
    · exact (Function.update_of_ne hall ..).trans (Function.update_of_ne hkey ..)
    · exact ⟨password, name, rfl, rfl,
        (Function.update_of_ne hkey ..).trans (Function.update_self ..)⟩
    · rw [Finset.mem_insert, hmem]
      split
      · next heq => simp [heq]
      · next heq => simp [heq]

/-- Another hash for an account that is registered. -/
theorem write (h : Holds s) {userName : String} (hr : s.registered userName ≠ none)
    (password name : String) (verify : Bool) :
    Holds ⟨Function.update s.server (keyOf userName)
        (some (.hash (fields userName password name verify))),
      Function.update s.registered userName (some ⟨some password, some name, verify⟩)⟩ := by
  obtain ⟨set, hset, hmem⟩ := h.keys
  have hne := h.ne hr
  refine h.update hne (fun key hkey _ => Function.update_of_ne hkey ..)
    ⟨password, name, rfl, rfl, Function.update_self ..⟩ ⟨set, ?_, fun key => ?_⟩
  · rw [Function.update_of_ne (keyOf_ne hne).symm, hset]
  · rw [hmem]
    split
    · next heq =>
      subst heq
      simpa using ⟨userName, hr, rfl⟩
    · rfl

/-- A call changes nothing, or it returns `true` and the server holds what it has registered. -/
def Kept (s : Accounts) (c : Call) : Prop :=
  (c.run s.server).1 ≠ .ok true ∧ (c.run s.server).2 = s.server ∨
    (c.run s.server).1 = .ok true ∧ Holds ⟨(c.run s.server).2, record s.registered c⟩

/-- The calls that begin with `exsist` do nothing without the account. -/
theorem kept_of_exsist (h : Holds s) {c : Call} {userName : String} {rest : Action Bool}
    (hrun : c.run = (do if !(← KeySpace.exsist userName) then pure false else rest))
    (hrest : s.registered userName ≠ none →
      (rest s.server).1 ≠ .ok true ∧ (rest s.server).2 = s.server ∨
        (rest s.server).1 = .ok true ∧ Holds ⟨(rest s.server).2, record s.registered c⟩) :
    Kept s c := by
  unfold Kept
  rw [hrun]
  by_cases hne : userName = "all_keys"
  · subst hne
    rcases h.exsist_all_keys with ⟨hexsist, -⟩ | hexsist <;> simp [hexsist]
  · cases hr : s.registered userName with
    | none => simp [h.exsist hne, hr]
    | some r => simpa [h.exsist hne, hr] using hrest (by simp [hr])

theorem kept_modify (h : Holds s) (user : User) : Kept s (.modify user) := by
  refine h.kept_of_exsist (c := .modify user) rfl fun hr => ?_
  obtain ⟨r, password, name, hr', -, hname, hkey⟩ := h.stored hr
  obtain ⟨userName, password', name'⟩ := user
  cases password' with
  | none => simp [hset]
  | some password' =>
    refine .inr ?_
    rw [Failing.bind_ok (hset_spec (hgetAll_hash hkey) _ _), hput_password]
    refine ⟨rfl, ?_⟩
    have hwrite := h.write hr password' name r.verify
    rw [← hname] at hwrite
    simpa [record, hr'] using hwrite

theorem kept_verify (h : Holds s) (userName : String) : Kept s (.verify userName) := by
  refine h.kept_of_exsist (c := .verify userName) rfl fun hr => ?_
  obtain ⟨r, password, name, hr', hpassword, hname, hkey⟩ := h.stored hr
  refine .inr ?_
  rw [Failing.bind_ok (hset_spec (hgetAll_hash hkey) _ _), hput_verify]
  refine ⟨rfl, ?_⟩
  have hwrite := h.write hr password name true
  rw [← hname, ← hpassword] at hwrite
  simpa [record, hr'] using hwrite

theorem kept_del (h : Holds s) (userName : String) : Kept s (.del userName) := by
  refine h.kept_of_exsist (c := .del userName) rfl fun hr => ?_
  have hne := h.ne hr
  obtain ⟨r, password, name, -, -, -, hkey⟩ := h.stored hr
  obtain ⟨set, hset, hmem⟩ := h.keys
  have hset₁ : Function.update s.server (keyOf userName) none allKeys = (Value.set set).stored :=
    (Function.update_of_ne (keyOf_ne hne).symm ..).trans hset
  refine .inr ?_
  rw [Failing.bind_ok (hdel_spec hkey), Failing.bind_ok (srem_spec hset₁ _), Failing.run_pure]
  dsimp only
  refine ⟨rfl, h.update hne (fun key hkey hall => ?_) ?_ ⟨_, Function.update_self .., fun key => ?_⟩⟩
  · exact (Function.update_of_ne hall ..).trans (Function.update_of_ne hkey ..)
  · exact (Function.update_of_ne (keyOf_ne hne) ..).trans (Function.update_self ..)
  · rw [Finset.mem_erase, hmem]
    split
    · next heq => simp [heq]
    · next heq => simp [heq]

theorem kept_regist (h : Holds s) {user : User} (hallowed : s.Allowed (.regist user)) :
    Kept s (.regist user) := by
  by_cases hr : s.registered user.userName = none
  · obtain ⟨server, hregist, hholds⟩ := h.regist_new hallowed hr
    refine .inr ?_
    simp only [Call.run, hregist]
    exact ⟨trivial, hholds⟩
  · refine .inl ?_
    simp [Call.run, h.regist_taken hr]

theorem kept (h : Holds s) {c : Call} (hallowed : s.Allowed c) : Kept s c := by
  cases c with
  | regist user => exact h.kept_regist hallowed
  | modify user => exact h.kept_modify user
  | verify userName => exact h.kept_verify userName
  | del userName => exact h.kept_del userName

/-- What a call leaves. -/
theorem after (h : Holds s) {c : Call} (hallowed : s.Allowed c) : Holds (s.after c) := by
  unfold Accounts.after
  rcases h.kept hallowed with ⟨hresult, hserver⟩ | ⟨hresult, hholds⟩
  · rw [if_neg hresult, hserver]
    exact h
  · rwa [if_pos hresult]

/-! ### What a caller sees -/

/-- Keys of registered accounts are those of some user names. -/
theorem exists_names {registered : String → Option Registered} {keys : List String}
    (h : ∀ key ∈ keys, ∃ u, registered u ≠ none ∧ key = keyOf u) :
    ∃ names : List String, keys = names.map keyOf ∧ ∀ u ∈ names, registered u ≠ none := by
  induction keys with
  | nil => exact ⟨[], rfl, by simp⟩
  | cons key keys ih =>
    rw [List.forall_mem_cons] at h
    obtain ⟨⟨u, hu, rfl⟩, hkeys⟩ := h
    obtain ⟨names, rfl, hnames⟩ := ih hkeys
    exact ⟨u :: names, rfl, by simpa using ⟨hu, hnames⟩⟩

theorem account (h : Holds s) (userName : String) :
    s.account userName = (s.registered userName).bind fun r => r.password.bind fun password =>
      r.name.map fun name => fields userName password name r.verify := by
  unfold Accounts.account
  cases hr : s.registered userName with
  | none =>
    by_cases hne : userName = "all_keys"
    · obtain ⟨set, hset, -⟩ := h.keys
      rw [hne, keyOf_all_keys, hset, Value.stored]
      split_ifs <;> rfl
    · have hstores := h.stores userName hne
      rw [hr] at hstores
      have hnone : s.server (keyOf userName) = none := hstores
      rw [hnone]
      rfl
  | some r =>
    have hne : s.registered userName ≠ none := by simp [hr]
    obtain ⟨r', password, name, hr', hpassword, hname, hkey⟩ := h.stored hne
    rw [hr] at hr'
    cases hr'
    simp [hkey, hpassword, hname]

theorem listed (h : Holds s) (userName : String) :
    s.Listed userName ↔ s.registered userName ≠ none := by
  obtain ⟨set, hset, hmem⟩ := h.keys
  unfold Accounts.Listed
  rw [hset, Cmd.setOf_stored]
  constructor
  · rintro ⟨set', heq, hkey⟩
    cases heq
    obtain ⟨u, hu, hkey⟩ := (hmem _).1 hkey
    rwa [keyOf_injective hkey]
  · exact fun hr => ⟨set, rfl, (hmem _).2 ⟨userName, hr, rfl⟩⟩

/-- How an account is listed. -/
def listedUser (registered : String → Option Registered) (userName : String) : ListedUser :=
  ⟨some userName, (registered userName).bind Registered.name, (registered userName).any Registered.verify⟩

/-- The loop of `getAllUser` over keys of registered accounts. -/
theorem getUsers (h : Holds s) {names : List String} (hnames : ∀ u ∈ names, s.registered u ≠ none) :
    KeySpace.getUsers (names.map keyOf) s.server =
      (.ok (names.map (listedUser s.registered)), s.server) := by
  induction names with
  | nil => rfl
  | cons u names ih =>
    rw [List.forall_mem_cons] at hnames
    obtain ⟨r, password, name, hr, -, hname, hkey⟩ := h.stored hnames.1
    have htrue : booleanValueOf (some "true") = true := by decide
    have hfalse : booleanValueOf none = false := rfl
    rw [List.map_cons, KeySpace.getUsers, Failing.bind_ok (hgetAll_hash hkey),
      Failing.bind_ok (ih hnames.2), Failing.run_pure]
    cases hverify : r.verify <;>
      simp [fields, List.lookup, listedUser, hr, hname, hverify, htrue, hfalse]

theorem listsAll (h : Holds s) : s.ListsAll := by
  intro order horder
  obtain ⟨set, hset, hmem⟩ := h.keys
  obtain ⟨hnodup, hfinset⟩ := horder set
  have hkeys (key : String) : key ∈ order set ↔
      ∃ u, s.registered u ≠ none ∧ key = keyOf u := by
    rw [← hmem, ← List.mem_toFinset, hfinset]
  obtain ⟨names, hnames, hregistered⟩ := exists_names fun key hkey => (hkeys key).1 hkey
  have hmembers : smembers allKeys s.server = (.ok set, s.server) := by
    unfold smembers
    rw [hset, Cmd.setOf_stored]
  refine ⟨names.map (listedUser s.registered), ?_, ?_, fun user => ?_⟩
  · unfold getAllUser
    rw [Failing.bind_ok hmembers, hnames, h.getUsers hregistered]
  · rw [hnames] at hnodup
    rw [List.map_map]
    exact (hnodup.of_map _).map (Option.some_injective _)
  · rw [List.mem_map]
    constructor
    · rintro ⟨u, hu, rfl⟩
      obtain ⟨r, hr⟩ := Option.ne_none_iff_exists'.mp (hregistered u hu)
      exact ⟨u, r, hr, by simp [listedUser, hr]⟩
    · rintro ⟨u, r, hr, rfl⟩
      have hkey := (hkeys (keyOf u)).2 ⟨u, by simp [hr], rfl⟩
      rw [hnames, List.mem_map] at hkey
      obtain ⟨v, hv, heq⟩ := hkey
      rw [keyOf_injective heq] at hv
      exact ⟨u, hv, by simp [listedUser, hr]⟩

/-- A call changes only the account that it is for. -/
theorem after_registered {c : Call} {userName : String} (hne : userName ≠ c.userName) :
    (s.after c).registered userName = s.registered userName := by
  unfold Accounts.after
  dsimp only
  split
  · cases c <;> exact Function.update_of_ne hne ..
  · rfl

theorem regist_iff (h : Holds s) {user : User} (hallowed : s.Allowed (.regist user)) :
    (regist user s.server).1 = .ok true ↔ s.registered user.userName = none := by
  by_cases hr : s.registered user.userName = none
  · obtain ⟨server, hregist, -⟩ := h.regist_new hallowed hr
    simp [hregist, hr]
  · simp [h.regist_taken hr, hr]

/-- A null is written after other fields have been. -/
theorem regist_null {server : Redis.Server} {user : User}
    (hexsist : KeySpace.exsist user.userName server = (.ok false, server))
    (hkey : server (keyOf user.userName) = none) (hnull : user.password = none ∨ user.name = none) :
    (regist user server).1 ≠ .ok true := by
  unfold regist
  simp only [Failing.run_bind, hexsist, Bool.false_eq_true, if_false]
  rw [hset_spec (hgetAll_none hkey)]
  dsimp only
  cases hpassword : user.password with
  | none => simp [hset]
  | some password =>
    rw [hset_spec (hgetAll_hash (Function.update_self ..))]
    simp [hset, hnull.resolve_left (by simp [hpassword])]

/-- The set of the keys gets the fields of an account. -/
theorem regist_all_keys (h : Holds s) (password name : Option String) :
    (regist ⟨"all_keys", password, name⟩ s.server).1 ≠ .ok true := by
  rcases h.exsist_all_keys with ⟨hexsist, hnone⟩ | hexsist
  · by_cases hnull : password = none ∨ name = none
    · exact regist_null hexsist hnone hnull
    · rw [not_or] at hnull
      obtain ⟨password, rfl⟩ := Option.ne_none_iff_exists'.mp hnull.1
      obtain ⟨name, rfl⟩ := Option.ne_none_iff_exists'.mp hnull.2
      unfold regist
      simp only [Failing.run_bind, hexsist, Bool.false_eq_true, if_false, keyOf_all_keys]
      rw [hset_spec (hgetAll_none hnone)]
      dsimp only
      rw [hset_spec (hgetAll_hash (Function.update_self ..)), Function.update_idem]
      dsimp only
      rw [hset_spec (hgetAll_hash (Function.update_self ..)), Function.update_idem, hput_new]
      simp [send, Command.exec, Cmd.exec]
  · unfold regist
    simp [hexsist]

/-- **When a call does what it should.** -/
theorem proper_iff_allowed (h : Holds s) {c : Call} : s.Proper c (s.after c) ↔ s.Allowed c := by
  constructor
  · intro hproper user heq hr
    subst heq
    have htrue := (hproper.regist user rfl).2 hr
    have hne : user.userName ≠ "all_keys" := by
      intro hall
      obtain ⟨userName, password, name⟩ := user
      dsimp only at hall
      subst hall
      exact h.regist_all_keys password name htrue
    have hstores := h.stores user.userName hne
    rw [hr] at hstores
    have hexsist := h.exsist hne
    rw [hr] at hexsist
    refine ⟨hne, ?_, ?_⟩
    · exact fun hnull => regist_null hexsist hstores (.inl hnull) htrue
    · exact fun hnull => regist_null hexsist hstores (.inr hnull) htrue
  · intro hallowed
    have hafter := h.after hallowed
    refine ⟨fun user heq => ?_, fun userName hne => ?_, hafter.listsAll⟩
    · subst heq
      exact h.regist_iff hallowed
    · rw [hafter.account, h.account, hafter.listed, h.listed, after_registered hne]
      exact ⟨rfl, Iff.rfl⟩

end Holds

namespace Accounts

/-- **The sequences of calls with independent accounts**: no account gets the name `all_keys`, and no
call that registers one writes a null. -/
theorem independent_iff {cs : List Call} {s : Accounts} :
    Run (fun s c s' => Step s c s' ∧ Proper s c s') start cs s ↔
      Run (fun s c s' => Step s c s' ∧ Allowed s c) start cs s := by
  refine Run.congr (I := Holds) .start (fun s c s' h => ?_) fun s c s' h hs => ?_
  · refine and_congr_right fun hstep => ?_
    rw [hstep]
    exact h.proper_iff_allowed
  · obtain ⟨rfl, hproper⟩ := hs
    exact h.after (h.proper_iff_allowed.1 hproper)

/-- The first account has the name `all_keys`. -/
theorem not_independent : ¬ ∀ cs s, Run Step start cs s →
    Run (fun s c s' => Step s c s' ∧ Proper s c s') start cs s := by
  intro h
  have hrun := (h _ _ (Run.single (l := .regist ⟨"all_keys", some "p", some "n"⟩) rfl)).single_inv
  exact Holds.start.regist_all_keys _ _ ((hrun.2.regist _ rfl).2 rfl)

end Accounts

end BaseService.BaseServer.KeySpace
