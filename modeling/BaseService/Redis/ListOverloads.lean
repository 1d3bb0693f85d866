import BaseService.Redis.Replicas

/-!
# The methods on lists

* `Overload` : the methods on a list, and on one element;
* `each` : the operation on one element after the other;
* `SameAsEach` : the method leaves the same server, and returns the number of elements it has affected, or
  the length of the list;
* `Suited` : the lists for which it does; `execAll_zrems` : removing members one by one;
* `sameAsEach_iff` : and no others.
-/

namespace BaseService.Redis
open Function (update)

inductive Overload
  | zrem
  | rpush
  | lpush
  | srem
  | sadd
  | del
  deriving DecidableEq, Repr

/-- A list of strings, and whether its `toArray()` is a `String[]`. -/
structure StringList where
  elements : List String
  isStringArray : Bool

namespace Overload

/-- The method on a list. -/
def onList (key : String) (l : StringList) : Overload → PoolCall
  | zrem => SmcJedis.zremList key l.elements l.isStringArray
  | rpush => SmcJedis.rpushList key l.elements
  | lpush => SmcJedis.lpushList key l.elements
  | srem => SmcJedis.sremList key l.elements
  | sadd => SmcJedis.saddList key l.elements
  | del => SmcJedis.delList l.elements

/-- The method on one element. -/
def onOne (key : String) (element : String) : Overload → PoolCall
  | zrem => SmcJedis.zrem key element
  | rpush => SmcJedis.rpush key element
  | lpush => SmcJedis.lpush key element
  | srem => SmcJedis.srem key element
  | sadd => SmcJedis.sadd key element
  | del => SmcJedis.del element

/-- The command that the method on one element sends. -/
def command (key : String) (element : String) : Overload → Command
  | zrem => ⟨key, .zrem [element]⟩
  | rpush => ⟨key, .rpush [element]⟩
  | lpush => ⟨key, .lpush [element]⟩
  | srem => ⟨key, .srem [element]⟩
  | sadd => ⟨key, .sadd [element]⟩
  | del => ⟨element, .del⟩

/-- The number of elements that are removed or added. -/
def affected (key : String) (elements : List String) (s : Server) : Overload → Nat
  | zrem => ((s.zset key).filter fun e => e.1 ∈ elements).length
  | srem => (s.set key ∩ elements.toFinset).card
  | sadd => (elements.toFinset \ s.set key).card
  | del => (elements.toFinset.filter fun key => s key ≠ none).card
  | rpush | lpush => elements.length

/-- The number of affected elements, or the length of the list that is left. -/
def answer (key : String) (elements : List String) (s s' : Server) : Overload → Nat
  | rpush | lpush => (s'.list key).length
  | o => o.affected key elements s

end Overload

/-- The operation on one element after the other, on a connection that is not lost; `none` : one of them
fails. -/
def each (one : String → PoolCall) (pick : String) : List String → Pool → Option Pool
  | [], pool => some pool
  | element :: elements, pool =>
    match (one element).on pick none pool with
    | (some result, pool) => if result = .long (-1) then none else each one pick elements pool
    | (none, _) => none

/-- What the method on a list returns, and leaves of the server, is that of the operations on its elements
that end with `pool'`. -/
structure SameAsEach (o : Overload) (key : String) (l : StringList) (pick : String) (pool pool' : Pool) :
    Prop where
  server : ((o.onList key l).on pick none pool).2.server = pool'.server
  result : ((o.onList key l).on pick none pool).1 = some (.long
    (o.answer key l.elements pool.server pool'.server))

/-- What the methods rely on. -/
def Suited (o : Overload) (key : String) (l : StringList) (s : Server) : Prop :=
  match o with
  | .zrem => l.isStringArray = true ∧ l.elements ≠ []
  | .rpush | .lpush => l.elements ≠ [] ∨ s.list key = []
  | .srem | .sadd | .del => o.affected key l.elements s < 2 ^ 31

/-! ## One element after the other -/

section
variable {o : Overload} {key pick : String} {l : StringList} {elements : List String}
  {pool pool' : Pool} {s s' : Server} {replies : List Reply}

theorem onOne_commands (o : Overload) (key element : String) :
    (o.onOne key element).commands pick = some [o.command key element] := by
  cases o <;> rfl

theorem onOne_failure (o : Overload) (key element : String) :
    (o.onOne key element).failure = none ∨ (o.onOne key element).failure = some (.long (-1)) := by
  cases o
  case zrem | rpush => exact .inr rfl
  all_goals exact .inl rfl

theorem each_spec (h : each (fun element => o.onOne key element) pick elements pool = some pool') :
    ∃ replies, execAll (elements.map fun element => o.command key element) pool.server =
      some (pool'.server, replies) := by
  induction elements generalizing pool with
  | nil =>
    cases h
    exact ⟨[], rfl⟩
  | cons element elements ih =>
    rw [each] at h
    cases hc : (o.command key element).exec pool.server with
    | none =>
      have hon : (o.onOne key element).on pick none pool = ((o.onOne key element).failure, pool) := by
        rw [PoolCall.on_some (onOne_commands o key element), execPool, hc]
        rfl
      rw [hon] at h
      rcases onOne_failure o key element with hfailure | hfailure <;> rw [hfailure] at h <;> cases h
    | some r =>
      obtain ⟨s₁, reply⟩ := r
      rw [PoolCall.on_exec (onOne_commands o key element) (execAll_single hc)] at h
      dsimp only at h
      split at h
      · cases h
      · obtain ⟨replies, hrest⟩ := ih h
        refine ⟨reply :: replies, ?_⟩
        rw [List.map_cons, execAll, hc]
        simp only [Option.bind_eq_bind, Option.bind_some, hrest]

/-! ## Removing members one by one -/

theorem zrem_zrem (z : ZSet) (ms ms' : List String) :
    (z.zrem ms).zrem ms' = z.zrem (ms ++ ms') := by
  rw [ZSet.zrem, ZSet.zrem, ZSet.zrem, List.filter_filter]
  congr 1
  funext e
  simp [Bool.and_comm]

theorem zrem_foldl (z : ZSet) (ms : List String) : ms.foldl (fun z m => z.zrem [m]) z = z.zrem ms := by
  induction ms generalizing z with
  | nil => simp [ZSet.zrem]
  | cons m ms ih => rw [List.foldl_cons, ih, zrem_zrem, List.singleton_append]

theorem zrem_length (z : ZSet) (ms : List String) :
    (z.length - (z.zrem ms).length : Int) = ((z.filter fun e => e.1 ∈ ms).length : Nat) := by
  have hlength := List.length_eq_length_filter_add (l := z) fun e => decide (e.1 ∈ ms)
  have hzrem : z.zrem ms = z.filter fun e => !decide (e.1 ∈ ms) := by
    rw [ZSet.zrem]
    congr 1
    funext e
    rw [decide_not]
  rw [hzrem]
  omega

theorem exec_zrem {z : ZSet} {ms : List String} (hz : Cmd.zsetOf (s key) = some z) (hne : ms ≠ []) :
    Command.exec ⟨key, .zrem ms⟩ s =
      some (update s key (Value.zset (z.zrem ms)).stored,
        .integer ((z.filter fun e => e.1 ∈ ms).length : Nat)) := by
  have hms : (Cmd.zrem ms).OnZSets := trivial
  obtain ⟨m, ms, rfl⟩ := List.exists_cons_of_ne_nil hne
  rw [Command.exec, Cmd.exec_zset hms, hz, Option.bind_some, ← zrem_length]
  rfl

/-- Removing the members one by one leaves what is left when they are removed at once. -/
theorem execAll_zrems {z : ZSet} {ms : List String} (hz : Cmd.zsetOf (s key) = some z) (hne : ms ≠ [])
    (h : execAll (ms.map fun m => ⟨key, .zrem [m]⟩) s = some (s', replies)) :
    s' = update s key (Value.zset (z.zrem ms)).stored := by
  obtain ⟨replies', hall⟩ := execAll_loop Cmd.zsetOf_stored
    (fun m hz => ⟨_, exec_zrem hz (List.cons_ne_nil m [])⟩) hz ms
  rw [if_neg hne, zrem_foldl] at hall
  exact (Prod.mk.inj (Option.some.inj (h.symm.trans hall))).1

/-! ## The methods on lists -/

/-- The methods that send a command for each element. -/
theorem onList_commands {o : Overload} (ho : o ≠ .zrem) (key pick : String) (l : StringList) :
    (o.onList key l).commands pick = some (l.elements.map fun element => o.command key element) := by
  cases o
  case zrem => exact absurd rfl ho
  all_goals rfl

theorem sameAsEach_of_loop
    (h : execAll (l.elements.map fun element => o.command key element) pool.server =
      some (pool'.server, replies)) (ho : o ≠ .zrem) :
    SameAsEach o key l pick pool pool' ↔
      (o.onList key l).value replies =
        .long (o.answer key l.elements pool.server pool'.server) := by
  have hon := PoolCall.on_exec (onList_commands ho key pick l) h
  constructor
  · rintro ⟨-, hresult⟩
    rw [hon] at hresult
    exact Option.some.inj hresult
  · intro hvalue
    exact ⟨by rw [hon], by rw [hon, hvalue]⟩

/-- The last reply is the length of the list, if there is one. -/
theorem length_iff {cmd : String → Command}
    (h : execAll (elements.map cmd) s = some (s', replies))
    (hlast : elements ≠ [] → length replies = .long (s'.list key).length) :
    length replies = .long (s'.list key).length ↔ elements ≠ [] ∨ s.list key = [] := by
  by_cases hne : elements = []
  · subst hne
    cases h
    rw [length, List.getLast?_nil, Returned.long.injEq, eq_comm, Nat.cast_eq_zero,
      List.length_eq_zero_iff]
    simp
  · exact iff_of_true (hlast hne) (.inl hne)

/-- An int counter has the number that it counts, if this is an int. -/
theorem intCount_iff {n : Nat} (h : total replies = n) : intCount replies = .long n ↔ n < 2 ^ 31 := by
  rw [intCount_eq, h, Returned.long.injEq]
  exact bmod_eq_self_iff

/-- A method that returns -1 has not returned a number of elements. -/
theorem not_sameAsEach (h : ((o.onList key l).on pick none pool).1 = some (.long (-1))) :
    ¬ SameAsEach o key l pick pool pool' := by
  intro hsame
  have hresult := Returned.long.inj (Option.some.inj (h.symm.trans hsame.result))
  omega

/-- The one command of `zrem`. -/
theorem sameAsEach_zrem
    (h : execAll (l.elements.map fun element => ⟨key, .zrem [element]⟩) pool.server =
      some (pool'.server, replies)) :
    SameAsEach .zrem key l pick pool pool' ↔ l.isStringArray = true ∧ l.elements ≠ [] := by
  obtain ⟨elements, isStringArray⟩ := l
  cases isStringArray with
  | false => exact iff_of_false (not_sameAsEach rfl) fun hsuited => Bool.false_ne_true hsuited.1
  | true =>
    cases elements with
    | nil =>
      refine iff_of_false (not_sameAsEach ?_) fun hsuited => hsuited.2 rfl
      have herror : Command.exec ⟨key, .zrem []⟩ pool.server = none := by
        have hzrem : (Cmd.zrem []).OnZSets := trivial
        rw [Command.exec, Cmd.exec_zset hzrem]
        cases Cmd.zsetOf (pool.server key) <;> rfl
      have hcs : (Overload.onList key ⟨[], true⟩ .zrem).commands pick = some [⟨key, .zrem []⟩] := rfl
      rw [PoolCall.on_some hcs, execPool, herror]
      rfl
    | cons element elements =>
      refine iff_of_true ?_ ⟨rfl, List.cons_ne_nil element elements⟩
      have hzrem : (Cmd.zrem [element]).OnZSets := trivial
      obtain ⟨s₁, reply, rest, hc, -, -⟩ := execAll_cons h
      obtain ⟨z, -, hz, -⟩ := exec_of Cmd.zsetOf_stored (Cmd.exec_zset hzrem) hc
      have hne := List.cons_ne_nil element elements
      have hcs : (Overload.onList key ⟨element :: elements, true⟩ .zrem).commands pick =
          some [⟨key, .zrem (element :: elements)⟩] := rfl
      have hon := PoolCall.on_exec hcs (execAll_single (exec_zrem hz hne))
      refine ⟨?_, ?_⟩
      · rw [hon, execAll_zrems hz hne h]
      · rw [hon]
        have hanswer : Overload.answer key (element :: elements) pool.server pool'.server .zrem =
            (z.filter fun e => e.1 ∈ element :: elements).length := by
          show ((pool.server.zset key).filter fun e => e.1 ∈ element :: elements).length = _
          rw [Server.zset_eq hz]
        rw [hanswer]
        show some (count [_]) = _
        rw [count_eq, total, List.map_singleton, List.sum_singleton]

/-- **The lists for which the methods do what those on one element do**, when these do not fail. -/
theorem sameAsEach_iff (h : each (fun element => o.onOne key element) pick l.elements pool = some pool') :
    SameAsEach o key l pick pool pool' ↔ Suited o key l pool.server := by
  obtain ⟨replies, hall⟩ := each_spec h
  cases o with
  | zrem => exact sameAsEach_zrem hall
  | rpush =>
    rw [sameAsEach_of_loop hall nofun]
    exact length_iff hall (last_rpushes · hall)
  | lpush =>
    rw [sameAsEach_of_loop hall nofun]
    exact length_iff hall (last_lpushes · hall)
  | srem =>
    rw [sameAsEach_of_loop hall nofun]
    exact intCount_iff (total_srems hall)
  | sadd =>
    rw [sameAsEach_of_loop hall nofun]
    exact intCount_iff (total_sadds hall)
  | del =>
    rw [sameAsEach_of_loop hall nofun]
    exact intCount_iff (total_dels hall)

end

/-- Two values are pushed. -/
theorem sameAsEach_rpush : ∃ pool',
    each (fun element => Overload.rpush.onOne "k" element) "" ["a", "b"] .empty = some pool' ∧
      SameAsEach .rpush "k" ⟨["a", "b"], false⟩ "" .empty pool' :=
  ⟨_, rfl, (sameAsEach_iff (l := ⟨["a", "b"], false⟩) rfl).2 (.inl (List.cons_ne_nil _ _))⟩

/-- An `ArrayList` of a member. -/
theorem not_sameAsEach_zrem :
    ¬ ∀ (o : Overload) (key : String) (l : StringList) (pick : String) (pool pool' : Pool),
      each (fun element => o.onOne key element) pick l.elements pool = some pool' →
        SameAsEach o key l pick pool pool' := by
  intro h
  exact not_sameAsEach rfl
    (h .zrem "k" ⟨["a"], false⟩ "" ⟨fun _ => some (.zset [("a", 1)]), []⟩ _ rfl)

end BaseService.Redis
