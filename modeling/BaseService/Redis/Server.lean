import Mathlib

/-!
# A Redis server

The commands by which `SmcJedis` writes, on the value of one key.

* `ZSet` : sorted sets, in the order of score and member;
* `Cmd`, `Cmd.exec` : a command, the value it leaves and its reply; `none` is an error reply, as to a
  command without elements, or a choice that `spop` does not have;
* `Cmd.listOf`, `Cmd.setOf`, `Cmd.zsetOf` : what the commands on one type find; `Cmd.exec_list`,
  `Cmd.exec_set`, `Cmd.exec_zset` : what they do with it;
* `Command.exec`, `Command.apply` : a command on its key of a server, with and without its reply;
* `apply_comm` : commands on different keys commute;
* `Server.zset` : the sorted set of a key; `zset_zadd`, `zset_zremrangeByScore` : what the commands make
  of it, `zset_of_ne` : and of those of other keys.
-/

namespace BaseService.Redis
open Function (update)

/-! ## Sorted sets -/

/-- The members with their scores, by score and then by member. -/
abbrev ZSet := List (String × ℚ)

namespace ZSet

def before (a b : String × ℚ) : Prop := a.2 < b.2 ∨ a.2 = b.2 ∧ a.1 ≤ b.1

instance : DecidableRel before := fun a b =>
  inferInstanceAs (Decidable (a.2 < b.2 ∨ a.2 = b.2 ∧ a.1 ≤ b.1))

def members (z : ZSet) : List String := z.map Prod.fst

def zscore (z : ZSet) (member : String) : Option ℚ := z.lookup member

def zadd (z : ZSet) (score : ℚ) (member : String) : ZSet :=
  (z.filter fun e => e.1 ≠ member).orderedInsert before (member, score)

def zrem (z : ZSet) (ms : List String) : ZSet := z.filter fun e => e.1 ∉ ms

/-- The members that `zrangeByScore` returns. -/
def zrangeByScore (z : ZSet) (min max : ℚ) : List String :=
  members (z.filter fun e => min ≤ e.2 ∧ e.2 ≤ max)

def zremrangeByScore (z : ZSet) (min max : ℚ) : ZSet :=
  z.filter fun e => ¬ (min ≤ e.2 ∧ e.2 ≤ max)

end ZSet

/-- The first index and the number of the elements from `start` to `stop` of `len`; negative ones
count from the end. -/
def range (len : Nat) (start stop : Int) : Nat × Nat :=
  let start := if start < 0 then max 0 (len + start) else start
  let stop := min (if stop < 0 then len + stop else stop) (len - 1)
  (start.toNat, (stop + 1 - start).toNat)

/-! ## Commands -/

inductive Value
  | string (s : String)
  | list (l : List String)
  | set (s : Finset String)
  /-- The fields with their values, by field. -/
  | hash (h : List (String × String))
  | zset (z : ZSet)
  deriving DecidableEq

inductive Reply
  | ok
  | integer (n : Int)
  | bulk (s : Option String)
  | score (x : ℚ)
  deriving DecidableEq

/-- A command without its key. `pick` is the member that `spop` happens to choose. -/
inductive Cmd
  | set (value : String)
  | del
  | incrBy (n : Int)
  | lpush (vs : List String)
  | rpush (vs : List String)
  | lpop
  | rpop
  | ltrim (start stop : Int)
  | lset (index : Int) (value : String)
  | lrem (count : Int) (value : String)
  | linsert (before : Bool) (pivot value : String)
  | sadd (ms : List String)
  | srem (ms : List String)
  | spop (pick : String)
  | hset (field value : String)
  | hsetnx (field value : String)
  | hmset (fields : List (String × String))
  | hincrBy (field : String) (n : Int)
  | hdel (fields : List String)
  | zadd (score : ℚ) (member : String)
  | zrem (ms : List String)
  | zincrby (score : ℚ) (member : String)
  | zremrangeByRank (start stop : Int)
  | zremrangeByScore (min max : ℚ)
  deriving DecidableEq

/-- A key whose list, set, hash or sorted set is empty does not exist. -/
def Value.stored : Value → Option Value
  | list [] | hash [] | zset [] => none
  | set s => if s = ∅ then none else some (set s)
  | v => some v

/-- A 64-bit integer in the notation that Redis accepts. -/
def integerOf (s : String) : Option Int :=
  s.toInt?.filter fun n => toString n = s ∧ -2 ^ 63 ≤ n ∧ n < 2 ^ 63

def added (n m : Int) : Option Int := some (n + m) |>.filter fun r => -2 ^ 63 ≤ r ∧ r < 2 ^ 63

def hput (h : List (String × String)) (field value : String) : List (String × String) :=
  (h.filter fun e => e.1 ≠ field).orderedInsert (fun a b => a.1 ≤ b.1) (field, value)

/-- The list without the first `n` occurrences of `value`. -/
def eraseFirst (value : String) : Nat → List String → List String
  | 0, l => l
  | _ + 1, [] => []
  | n + 1, x :: l => if x = value then eraseFirst value n l else x :: eraseFirst value (n + 1) l

def insertAt (before : Bool) (pivot value : String) : List String → List String
  | [] => []
  | x :: l =>
    if x = pivot then (if before then value :: x :: l else x :: value :: l)
    else x :: insertAt before pivot value l

namespace Cmd

/-- Commands on lists. -/
def execList (l : List String) : Cmd → Option (List String × Reply)
  | lpush [] | rpush [] => none
  | lpush vs => some (vs.reverse ++ l, .integer (vs.length + l.length))
  | rpush vs => some (l ++ vs, .integer (l.length + vs.length))
  | lpop => some (l.drop 1, .bulk l.head?)
  | rpop => some (l.dropLast, .bulk l.getLast?)
  | ltrim start stop =>
    let (first, count) := range l.length start stop
    some ((l.drop first).take count, .ok)
  | lset index value =>
    let i := if index < 0 then l.length + index else index
    if 0 ≤ i ∧ i < l.length then some (l.set i.toNat value, .ok) else none
  | lrem count value =>
    let n := if count = 0 then l.length else count.natAbs
    let l' := if count < 0 then (eraseFirst value n l.reverse).reverse else eraseFirst value n l
    some (l', .integer (l.length - l'.length))
  | linsert before pivot value =>
    if pivot ∈ l then some (insertAt before pivot value l, .integer (l.length + 1))
    else some (l, .integer (if l = [] then 0 else -1))
  | _ => none

/-- Commands on sets. -/
def execSet (s : Finset String) : Cmd → Option (Finset String × Reply)
  | sadd [] | srem [] => none
  | sadd ms => some (s ∪ ms.toFinset, .integer (ms.toFinset \ s).card)
  | srem ms => some (s \ ms.toFinset, .integer (s ∩ ms.toFinset).card)
  | spop pick =>
    if s = ∅ then some (s, .bulk none)
    else if pick ∈ s then some (s.erase pick, .bulk (some pick)) else none
  | _ => none

/-- Commands on hashes. -/
def execHash (h : List (String × String)) : Cmd → Option (List (String × String) × Reply)
  | hmset [] | hdel [] => none
  | hset field value =>
    some (hput h field value, .integer (if h.lookup field = none then 1 else 0))
  | hsetnx field value =>
    if h.lookup field = none then some (hput h field value, .integer 1) else some (h, .integer 0)
  | hmset fields => some (fields.foldl (fun h e => hput h e.1 e.2) h, .ok)
  | hincrBy field n => do
    let old ← match h.lookup field with
      | none => some 0
      | some value => integerOf value
    let r ← added old n
    some (hput h field (toString r), .integer r)
  | hdel fields =>
    let h' := h.filter fun e => e.1 ∉ fields
    some (h', .integer (h.length - h'.length))
  | _ => none

/-- Commands on sorted sets. -/
def execZSet (z : ZSet) : Cmd → Option (ZSet × Reply)
  | zrem [] => none
  | zadd score member =>
    some (ZSet.zadd z score member, .integer (if member ∈ z.members then 0 else 1))
  | zrem ms => some (ZSet.zrem z ms, .integer (z.length - (ZSet.zrem z ms).length))
  | zincrby score member =>
    let r := (z.zscore member).getD 0 + score
    some (ZSet.zadd z r member, .score r)
  | zremrangeByRank start stop =>
    let (first, count) := range z.length start stop
    let z' := z.take first ++ z.drop (first + count)
    some (z', .integer (z.length - z'.length))
  | zremrangeByScore min max =>
    let z' := ZSet.zremrangeByScore z min max
    some (z', .integer (z.length - z'.length))
  | _ => none

/-- What the command makes of the value of its key. -/
def exec (cmd : Cmd) (v : Option Value) : Option (Option Value × Reply) :=
  match cmd with
  | set value => some (some (.string value), .ok)
  | del => some (none, .integer (if v = none then 0 else 1))
  | incrBy n => do
    let old ← match v with
      | none => some 0
      | some (.string s) => integerOf s
      | some _ => none
    let r ← added old n
    some (some (.string (toString r)), .integer r)
  | lpush _ | rpush _ | lpop | rpop | ltrim _ _ | lset _ _ | lrem _ _ | linsert _ _ _ => do
    let l ← match v with
      | none => some []
      | some (.list l) => some l
      | some _ => none
    (execList l cmd).map fun r => ((Value.list r.1).stored, r.2)
  | sadd _ | srem _ | spop _ => do
    let s ← match v with
      | none => some ∅
      | some (.set s) => some s
      | some _ => none
    (execSet s cmd).map fun r => ((Value.set r.1).stored, r.2)
  | hset _ _ | hsetnx _ _ | hmset _ | hincrBy _ _ | hdel _ => do
    let h ← match v with
      | none => some []
      | some (.hash h) => some h
      | some _ => none
    (execHash h cmd).map fun r => ((Value.hash r.1).stored, r.2)
  | zadd _ _ | zrem _ | zincrby _ _ | zremrangeByRank _ _ | zremrangeByScore _ _ => do
    let z ← match v with
      | none => some []
      | some (.zset z) => some z
      | some _ => none
    (execZSet z cmd).map fun r => ((Value.zset r.1).stored, r.2)

/-! ## Values of a type -/

/-- What a command on lists finds: a key that does not exist has the empty list. -/
def listOf : Option Value → Option (List String)
  | none => some []
  | some (.list l) => some l
  | some _ => none

def setOf : Option Value → Option (Finset String)
  | none => some ∅
  | some (.set s) => some s
  | some _ => none

def zsetOf : Option Value → Option ZSet
  | none => some []
  | some (.zset z) => some z
  | some _ => none

@[simp]
theorem listOf_stored (l : List String) : listOf (Value.list l).stored = some l := by
  cases l <;> rfl

@[simp]
theorem setOf_stored (s : Finset String) : setOf (Value.set s).stored = some s := by
  rw [Value.stored]
  split
  · next h => rw [h]; rfl
  · rfl

@[simp]
theorem zsetOf_stored (z : ZSet) : zsetOf (Value.zset z).stored = some z := by
  cases z <;> rfl

/-- The commands on lists. -/
def OnLists : Cmd → Prop
  | lpush _ | rpush _ | lpop | rpop | ltrim _ _ | lset _ _ | lrem _ _ | linsert _ _ _ => True
  | _ => False

def OnSets : Cmd → Prop
  | sadd _ | srem _ | spop _ => True
  | _ => False

def OnZSets : Cmd → Prop
  | zadd _ _ | zrem _ | zincrby _ _ | zremrangeByRank _ _ | zremrangeByScore _ _ => True
  | _ => False

theorem exec_list {cmd : Cmd} (h : cmd.OnLists) (v : Option Value) : cmd.exec v =
    (listOf v).bind fun l => (cmd.execList l).map fun r => ((Value.list r.1).stored, r.2) := by
  cases cmd
  case lpush | rpush | lpop | rpop | ltrim | lset | lrem | linsert =>
    rcases v with _ | _ | _ | _ | _ | _ <;> rfl
  all_goals exact h.elim

theorem exec_set {cmd : Cmd} (h : cmd.OnSets) (v : Option Value) : cmd.exec v =
    (setOf v).bind fun s => (cmd.execSet s).map fun r => ((Value.set r.1).stored, r.2) := by
  cases cmd
  case sadd | srem | spop => rcases v with _ | _ | _ | _ | _ | _ <;> rfl
  all_goals exact h.elim

theorem exec_zset {cmd : Cmd} (h : cmd.OnZSets) (v : Option Value) : cmd.exec v =
    (zsetOf v).bind fun z => (cmd.execZSet z).map fun r => ((Value.zset r.1).stored, r.2) := by
  cases cmd
  case zadd | zrem | zincrby | zremrangeByRank | zremrangeByScore =>
    rcases v with _ | _ | _ | _ | _ | _ <;> rfl
  all_goals exact h.elim

end Cmd

/-! ## Servers -/

abbrev Server := String → Option Value

structure Command where
  key : String
  cmd : Cmd
  deriving DecidableEq

/-- The server after the command, and its reply; `none` is an error reply, which changes nothing. -/
def Command.exec (c : Command) (s : Server) : Option (Server × Reply) :=
  (c.cmd.exec (s c.key)).map fun r => (update s c.key r.1, r.2)

/-- The server after the command. -/
def Command.apply (c : Command) (s : Server) : Option Server := (c.exec s).map Prod.fst

theorem Command.apply_eq (c : Command) (s : Server) :
    c.apply s = (c.cmd.exec (s c.key)).map fun r => update s c.key r.1 := by
  rw [Command.apply, Command.exec, Option.map_map]
  rfl

/-- The sorted set of a key; that of a key that does not exist is empty. -/
def Server.zset (s : Server) (key : String) : ZSet :=
  match s key with
  | some (.zset z) => z
  | _ => []

/-- Commands one after the other, until one fails. -/
def execAll : List Command → Server → Option (Server × List Reply)
  | [], s => some (s, [])
  | c :: cs, s => do
    let (s, reply) ← c.exec s
    let (s, replies) ← execAll cs s
    some (s, reply :: replies)

/-! ## The sorted set of a key -/

theorem mem_zadd {z : ZSet} {score : ℚ} {member m : String} :
    m ∈ (z.zadd score member).members ↔ m = member ∨ m ∈ z.members := by
  simp only [ZSet.members, ZSet.zadd, List.mem_map, List.mem_orderedInsert, List.mem_filter]
  constructor
  · rintro ⟨e, rfl | he, rfl⟩
    · exact .inl rfl
    · exact .inr ⟨e, he.1, rfl⟩
  · rintro (rfl | ⟨e, he, rfl⟩)
    · exact ⟨(m, score), .inl rfl, rfl⟩
    · by_cases hm : e.1 = member
      · exact ⟨(member, score), .inl rfl, hm.symm⟩
      · exact ⟨e, .inr ⟨he, by simpa using hm⟩, rfl⟩

theorem mem_zadd_iff {z : ZSet} {score score' : ℚ} {member m : String} :
    (m, score') ∈ z.zadd score member ↔
      if m = member then score' = score else (m, score') ∈ z := by
  simp only [ZSet.zadd, List.mem_orderedInsert, List.mem_filter, Prod.mk.injEq]
  split
  · next hm => simp [hm]
  · next hm => simp [hm]

theorem mem_zremrangeByScore {z : ZSet} {min max : ℚ} {e : String × ℚ} :
    e ∈ z.zremrangeByScore min max ↔ e ∈ z ∧ ¬ (min ≤ e.2 ∧ e.2 ≤ max) := by
  rw [ZSet.zremrangeByScore, List.mem_filter, decide_eq_true_eq]

theorem mem_zrangeByScore {z : ZSet} {min max : ℚ} {m : String} :
    m ∈ z.zrangeByScore min max ↔ ∃ score, (m, score) ∈ z ∧ min ≤ score ∧ score ≤ max := by
  simp [ZSet.zrangeByScore, ZSet.members]

theorem zremrangeByScore_subset {z : ZSet} {min max : ℚ} :
    (z.zremrangeByScore min max).members ⊆ z.members :=
  List.map_subset _ (List.filter_subset_self _)

theorem zrangeByScore_subset {z : ZSet} {min max : ℚ} : z.zrangeByScore min max ⊆ z.members :=
  List.map_subset _ (List.filter_subset_self _)

/-- A member has one score. -/
def ZSet.OneScore (z : ZSet) : Prop := ∀ ⦃m score score'⦄, (m, score) ∈ z → (m, score') ∈ z → score = score'

theorem ZSet.OneScore.zadd {z : ZSet} (h : z.OneScore) (score : ℚ) (member : String) :
    (z.zadd score member).OneScore := by
  intro m score₁ score₂ h₁ h₂
  rw [mem_zadd_iff] at h₁ h₂
  split at h₁
  · next hm =>
    rw [if_pos hm] at h₂
    rw [h₁, h₂]
  · next hm =>
    rw [if_neg hm] at h₂
    exact h h₁ h₂

theorem ZSet.OneScore.zremrangeByScore {z : ZSet} (h : z.OneScore) (min max : ℚ) :
    (z.zremrangeByScore min max).OneScore := fun _ _ _ h₁ h₂ =>
  h (mem_zremrangeByScore.1 h₁).1 (mem_zremrangeByScore.1 h₂).1

/-- The members that are left are those that are not in the range. -/
theorem mem_members_zremrangeByScore {z : ZSet} (h : z.OneScore) {min max : ℚ} {m : String} :
    m ∈ (z.zremrangeByScore min max).members ↔ m ∈ z.members ∧ m ∉ z.zrangeByScore min max := by
  simp only [ZSet.members, List.mem_map, Prod.exists, exists_and_right, exists_eq_right,
    mem_zremrangeByScore, mem_zrangeByScore, not_exists]
  constructor
  · rintro ⟨score, hmem, hleft⟩
    refine ⟨⟨score, hmem⟩, fun score' ⟨hmem', hrange⟩ => hleft ?_⟩
    rwa [h hmem hmem']
  · rintro ⟨⟨score, hmem⟩, hleft⟩
    exact ⟨score, hmem, fun hrange => hleft score ⟨hmem, hrange⟩⟩

theorem Server.zset_eq {s : Server} {key : String} {z : ZSet} (h : Cmd.zsetOf (s key) = some z) :
    s.zset key = z := by
  unfold Server.zset
  cases hv : s key with
  | none =>
    rw [hv] at h
    exact Option.some.inj h
  | some v =>
    rw [hv] at h
    cases v
    case zset => exact Option.some.inj h
    all_goals cases h

/-- A command on values of one type finds such a value, or none, and leaves one. -/
theorem exec_of {α : Type} {of : Option Value → Option α} {mk : α → Value}
    (hstored : ∀ x, of (mk x).stored = some x) {c : Command} {f : α → Option (α × Reply)}
    (hc : ∀ v, c.cmd.exec v = (of v).bind fun x => (f x).map fun r => ((mk r.1).stored, r.2))
    {s s' : Server} {reply : Reply} (h : c.exec s = some (s', reply)) :
    ∃ x x', of (s c.key) = some x ∧ f x = some (x', reply) ∧ of (s' c.key) = some x' ∧
      s' = update s c.key (mk x').stored := by
  obtain ⟨⟨v, reply'⟩, hexec, heq⟩ := Option.map_eq_some_iff.1 h
  cases heq
  rw [hc] at hexec
  obtain ⟨x, hx, hexec⟩ := Option.bind_eq_some_iff.1 hexec
  obtain ⟨⟨x', reply''⟩, hx', heq⟩ := Option.map_eq_some_iff.1 hexec
  cases heq
  exact ⟨x, x', hx, hx', by rw [Function.update_self, hstored], rfl⟩

theorem exec_zset {c : Command} {s s' : Server} {reply : Reply} (h : c.exec s = some (s', reply))
    (hc : c.cmd.OnZSets) :
    c.cmd.execZSet (s.zset c.key) = some (s'.zset c.key, reply) := by
  obtain ⟨z, z', hz, hexec, hz', -⟩ := exec_of Cmd.zsetOf_stored (Cmd.exec_zset hc) h
  rw [Server.zset_eq hz, hexec, Server.zset_eq hz']

theorem zset_zadd {key member : String} {score : ℚ} {s s' : Server} {reply : Reply}
    (h : Command.exec ⟨key, .zadd score member⟩ s = some (s', reply)) :
    s'.zset key = (s.zset key).zadd score member ∧
      reply = .integer (if member ∈ (s.zset key).members then 0 else 1) := by
  have hexec := exec_zset h trivial
  simp only [Cmd.execZSet, Option.some.injEq, Prod.mk.injEq] at hexec
  exact ⟨hexec.1.symm, hexec.2.symm⟩

theorem zset_zremrangeByScore {key : String} {min max : ℚ} {s s' : Server} {reply : Reply}
    (h : Command.exec ⟨key, .zremrangeByScore min max⟩ s = some (s', reply)) :
    s'.zset key = (s.zset key).zremrangeByScore min max := by
  have hexec := exec_zset h trivial
  simp only [Cmd.execZSet, Option.some.injEq, Prod.mk.injEq] at hexec
  exact hexec.1.symm

theorem zset_of_ne {c : Command} {s s' : Server} {reply : Reply} (h : c.exec s = some (s', reply))
    {key : String} (hkey : key ≠ c.key) : s'.zset key = s.zset key := by
  obtain ⟨r, -, heq⟩ := Option.map_eq_some_iff.1 h
  cases heq
  rw [Server.zset, Server.zset, Function.update_of_ne hkey]

end BaseService.Redis
