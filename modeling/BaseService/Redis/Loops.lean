import BaseService.Redis.SmcJedis

/-!
# One command for each element

The methods on several elements send a command for each of them, and add up the replies or keep the last.

* `total`, `intCount_eq` : the sum of the replies, and what an `int` holds of it;
* `execAll_total`, `execAll_last` : the replies to a loop, from the reply to one of its commands;
  `execAll_loop` : what it makes of a key;
* `Server.list`, `Server.set` : the list and the set of a key, beside `Server.zset`;
* `total_sadds`, `total_srems`, `total_dels`, `total_zadds` : what the loops count;
* `last_lpushes`, `last_rpushes` : the length that is kept.
-/

namespace BaseService.Redis
open Function (update)

/-- The sum of integer replies. -/
def total (replies : List Reply) : Int :=
  (replies.map fun reply => match reply with
    | .integer n => n
    | _ => 0).sum

theorem count_eq (replies : List Reply) : count replies = .long (total replies) := rfl

theorem intCount_eq (replies : List Reply) : intCount replies = .long ((total replies).bmod (2 ^ 32)) := by
  have hfoldl (c : Int) : replies.foldl (fun count reply => match reply with
      | .integer n => (count + n).bmod (2 ^ 32)
      | _ => count) (c.bmod (2 ^ 32)) = (c + total replies).bmod (2 ^ 32) := by
    induction replies generalizing c with
    | nil => exact congrArg (Int.bmod · (2 ^ 32)) (add_zero c).symm
    | cons reply replies ih =>
      cases reply with
      | integer n =>
        have htotal : total (.integer n :: replies) = n + total replies := List.sum_cons
        rw [List.foldl_cons, htotal, ← add_assoc, ← ih (c + n)]
        congr 1
        exact Int.bmod_add_bmod
      | _ =>
        rw [List.foldl_cons, ih c]
        exact congrArg (fun n => (c + n).bmod (2 ^ 32)) (zero_add _).symm
  have hzero := hfoldl 0
  rw [zero_add] at hzero
  exact congrArg Returned.long hzero

/-- An `int` holds the numbers below 2^31 as they are. -/
theorem bmod_eq_self_iff {n : ℕ} : (n : Int).bmod (2 ^ 32) = n ↔ n < 2 ^ 31 := by
  rw [Int.bmod_def]
  omega

theorem bmod_eq_neg_one_iff {n : ℕ} : (n : Int).bmod (2 ^ 32) = -1 ↔ n % 2 ^ 32 = 2 ^ 32 - 1 := by
  rw [Int.bmod_def]
  omega

/-! ## The replies to a loop -/

section
variable {α : Type} {cmd : α → Command} {as : List α} {s s' : Server} {replies : List Reply}

theorem execAll_cons {c : Command} {cs : List Command} (h : execAll (c :: cs) s = some (s', replies)) :
    ∃ s₁ reply rest, c.exec s = some (s₁, reply) ∧ execAll cs s₁ = some (s', rest) ∧
      replies = reply :: rest := by
  obtain ⟨⟨s₁, reply⟩, hc, h⟩ := Option.bind_eq_some_iff.1 h
  obtain ⟨⟨s₂, rest⟩, hrest, h⟩ := Option.bind_eq_some_iff.1 h
  cases h
  exact ⟨s₁, reply, rest, hc, hrest, rfl⟩

theorem execAll_single {c : Command} {reply : Reply} (h : c.exec s = some (s', reply)) :
    execAll [c] s = some (s', [reply]) := by
  rw [execAll, h]
  rfl

/-- What is counted of the elements is counted with the first of them. -/
theorem execAll_total (affected : Server → List α → Nat) (hnil : ∀ s, affected s [] = 0)
    (hcons : ∀ {s s' reply a}, (cmd a).exec s = some (s', reply) →
      ∃ n : Nat, reply = .integer n ∧ ∀ as, affected s (a :: as) = n + affected s' as)
    (h : execAll (as.map cmd) s = some (s', replies)) : total replies = affected s as := by
  induction as generalizing s replies with
  | nil =>
    cases h
    rw [hnil]
    rfl
  | cons a as ih =>
    obtain ⟨s₁, reply, rest, hc, hrest, rfl⟩ := execAll_cons h
    obtain ⟨n, rfl, haffected⟩ := hcons hc
    rw [haffected, Nat.cast_add, ← ih hrest]
    exact List.sum_cons

/-- Each reply is the length that its command leaves. -/
theorem execAll_last (len : Server → Nat)
    (hone : ∀ {s s' reply a}, (cmd a).exec s = some (s', reply) → reply = .integer (len s'))
    (hne : as ≠ []) (h : execAll (as.map cmd) s = some (s', replies)) :
    length replies = .long (len s') := by
  induction as generalizing s replies with
  | nil => exact absurd rfl hne
  | cons a as ih =>
    obtain ⟨s₁, reply, rest, hc, hrest, rfl⟩ := execAll_cons h
    cases as with
    | nil =>
      cases hrest
      rw [hone hc]
      rfl
    | cons a' as =>
      rw [← ih nofun hrest]
      obtain ⟨-, reply', rest', -, -, rfl⟩ := execAll_cons hrest
      rw [length, length, List.getLast?_cons_cons]

/-- A loop of commands on one key, whose value is of the type that they require. -/
theorem execAll_loop {β : Type} {of : Option Value → Option β} {mk : β → Value}
    (hstored : ∀ x, of (mk x).stored = some x) {next : β → α → β} {key : String}
    (hexec : ∀ {s x} a, of (s key) = some x →
      ∃ reply, (cmd a).exec s = some (update s key (mk (next x a)).stored, reply))
    {x : β} (hx : of (s key) = some x) (as : List α) :
    ∃ replies, execAll (as.map cmd) s =
      some (if as = [] then s else update s key (mk (as.foldl next x)).stored, replies) := by
  induction as generalizing s x with
  | nil => exact ⟨[], rfl⟩
  | cons a as ih =>
    obtain ⟨reply, hc⟩ := hexec a hx
    have hx₁ : of (update s key (mk (next x a)).stored key) = some (next x a) := by
      rw [Function.update_self, hstored]
    obtain ⟨replies, hall⟩ := ih hx₁
    refine ⟨reply :: replies, ?_⟩
    rw [List.map_cons, execAll, hc]
    simp only [Option.bind_eq_bind, Option.bind_some, hall]
    by_cases has : as = []
    · subst has
      rfl
    · rw [if_neg has, if_neg (List.cons_ne_nil a as), Function.update_idem, List.foldl_cons]

end

/-! ## The commands of the loops -/

def Server.list (s : Server) (key : String) : List String := (Cmd.listOf (s key)).getD []

def Server.set (s : Server) (key : String) : Finset String := (Cmd.setOf (s key)).getD ∅

section
variable {s s' : Server} {c : Command} {reply : Reply} {replies : List Reply} {key : String}

theorem exec_list (h : c.exec s = some (s', reply)) (hc : c.cmd.OnLists) :
    c.cmd.execList (s.list c.key) = some (s'.list c.key, reply) := by
  obtain ⟨l, l', hl, hexec, hl', -⟩ := exec_of Cmd.listOf_stored (Cmd.exec_list hc) h
  rw [Server.list, hl, Option.getD_some, hexec, Server.list, hl', Option.getD_some]

theorem exec_set (h : c.exec s = some (s', reply)) (hc : c.cmd.OnSets) :
    c.cmd.execSet (s.set c.key) = some (s'.set c.key, reply) := by
  obtain ⟨l, l', hl, hexec, hl', -⟩ := exec_of Cmd.setOf_stored (Cmd.exec_set hc) h
  rw [Server.set, hl, Option.getD_some, hexec, Server.set, hl', Option.getD_some]

/-- Of the elements those are new that are not there, the first of them included. -/
theorem card_new (m : String) (t present : Finset String) :
    (insert m t \ present).card = ({m} \ present).card + (t \ (present ∪ {m})).card := by
  have hunion : insert m t \ present = ({m} \ present) ∪ (t \ (present ∪ {m})) := by
    ext x
    simp only [Finset.mem_sdiff, Finset.mem_insert, Finset.mem_union, Finset.mem_singleton]
    tauto
  rw [hunion, Finset.card_union_of_disjoint]
  rw [Finset.disjoint_left]
  intro x hx hx'
  simp only [Finset.mem_sdiff, Finset.mem_union, Finset.mem_singleton, not_or] at hx hx'
  exact hx'.2.2 hx.1

theorem card_present (m : String) (t present : Finset String) :
    (present ∩ insert m t).card = (present ∩ {m}).card + ((present \ {m}) ∩ t).card := by
  have hunion : present ∩ insert m t = (present ∩ {m}) ∪ ((present \ {m}) ∩ t) := by
    ext x
    simp only [Finset.mem_sdiff, Finset.mem_insert, Finset.mem_union, Finset.mem_singleton,
      Finset.mem_inter]
    tauto
  rw [hunion, Finset.card_union_of_disjoint]
  rw [Finset.disjoint_left]
  intro x hx hx'
  simp only [Finset.mem_sdiff, Finset.mem_inter, Finset.mem_singleton] at hx hx'
  exact hx'.1.2 hx.2

theorem total_sadds {ms : List String}
    (h : execAll (ms.map fun m => ⟨key, .sadd [m]⟩) s = some (s', replies)) :
    total replies = (ms.toFinset \ s.set key).card := by
  refine execAll_total (fun s ms => (ms.toFinset \ s.set key).card) (fun s => by simp) ?_ h
  intro s s' reply m hc
  have hexec : some (s.set key ∪ [m].toFinset, Reply.integer ([m].toFinset \ s.set key).card) =
      some (s'.set key, reply) := exec_set hc trivial
  obtain ⟨hset, rfl⟩ := Prod.mk.inj (Option.some.inj hexec)
  refine ⟨_, rfl, fun ms => ?_⟩
  rw [← hset, List.toFinset_cons]
  exact card_new m ms.toFinset (s.set key)

theorem total_srems {ms : List String}
    (h : execAll (ms.map fun m => ⟨key, .srem [m]⟩) s = some (s', replies)) :
    total replies = (s.set key ∩ ms.toFinset).card := by
  refine execAll_total (fun s ms => (s.set key ∩ ms.toFinset).card) (fun s => by simp) ?_ h
  intro s s' reply m hc
  have hexec : some (s.set key \ [m].toFinset, Reply.integer (s.set key ∩ [m].toFinset).card) =
      some (s'.set key, reply) := exec_set hc trivial
  obtain ⟨hset, rfl⟩ := Prod.mk.inj (Option.some.inj hexec)
  refine ⟨_, rfl, fun ms => ?_⟩
  rw [← hset, List.toFinset_cons]
  exact card_present m ms.toFinset (s.set key)

theorem total_dels {keys : List String}
    (h : execAll (keys.map fun key => ⟨key, .del⟩) s = some (s', replies)) :
    total replies = (keys.toFinset.filter fun key => s key ≠ none).card := by
  refine execAll_total (fun s keys => (keys.toFinset.filter fun key => s key ≠ none).card)
    (fun s => rfl) ?_ h
  intro s s' reply key hc
  have hexec : some (update s key none, Reply.integer (if s key = none then 0 else 1)) =
      some (s', reply) := hc
  obtain ⟨rfl, rfl⟩ := Prod.mk.inj (Option.some.inj hexec)
  refine ⟨if s key = none then 0 else 1, by split <;> rfl, fun keys => ?_⟩
  rw [List.toFinset_cons, Finset.filter_insert]
  by_cases hkey : s key = none
  · have hsame : update s key none = s := Function.update_eq_self_iff.2 hkey.symm
    rw [if_neg (not_not.2 hkey), if_pos hkey, zero_add, hsame]
  · have hinsert : insert key (keys.toFinset.filter fun k => s k ≠ none) =
        insert key (keys.toFinset.filter fun k => update s key none k ≠ none) := by
      ext k
      by_cases hk : k = key <;> simp [hk]
    have hnot : key ∉ keys.toFinset.filter fun k => update s key none k ≠ none := by simp
    rw [if_pos hkey, if_neg hkey, hinsert, Finset.card_insert_of_notMem hnot, add_comm]

/-- The number of members of the entries that the sorted set does not have. -/
def newMembers (z : ZSet) (entries : List (ℚ × String)) : Nat :=
  ((entries.map Prod.snd).toFinset \ z.members.toFinset).card

theorem total_zadds {entries : List (ℚ × String)}
    (h : execAll (entries.map fun e => ⟨key, .zadd e.1 e.2⟩) s = some (s', replies)) :
    total replies = newMembers (s.zset key) entries := by
  refine execAll_total (fun s entries => newMembers (s.zset key) entries)
    (fun s => by simp [newMembers]) ?_ h
  rintro s s' reply ⟨score, m⟩ hc
  obtain ⟨hzset, rfl⟩ := zset_zadd hc
  have hmembers : (s'.zset key).members.toFinset = (s.zset key).members.toFinset ∪ {m} := by
    ext x
    rw [hzset, List.mem_toFinset, mem_zadd, Finset.mem_union, Finset.mem_singleton, List.mem_toFinset]
    exact or_comm
  refine ⟨if m ∈ (s.zset key).members then 0 else 1, by split <;> rfl, fun entries => ?_⟩
  rw [newMembers, newMembers, hmembers, List.map_cons, List.toFinset_cons, card_new]
  congr 1
  by_cases hm : m ∈ (s.zset key).members
  · simp [hm]
  · rw [if_neg hm, Finset.sdiff_eq_self_of_disjoint, Finset.card_singleton]
    exact Finset.disjoint_singleton_left.2 fun hmem => hm (List.mem_toFinset.1 hmem)

/-- Pushing answers with the length of the list that it leaves. -/
theorem last_pushes (cmd : String → Cmd) (hlists : ∀ v, (cmd v).OnLists)
    (hlength : ∀ {v l l' reply}, (cmd v).execList l = some (l', reply) → reply = .integer l'.length)
    {vs : List String} (hne : vs ≠ [])
    (h : execAll (vs.map fun v => ⟨key, cmd v⟩) s = some (s', replies)) :
    length replies = .long (s'.list key).length :=
  execAll_last (fun s => (s.list key).length) (fun hc => hlength (exec_list hc (hlists _))) hne h

theorem last_rpushes {vs : List String} (hne : vs ≠ [])
    (h : execAll (vs.map fun v => ⟨key, .rpush [v]⟩) s = some (s', replies)) :
    length replies = .long (s'.list key).length := by
  refine last_pushes (fun v => .rpush [v]) (fun _ => trivial) (fun {v l l' reply} hexec => ?_) hne h
  have hexec : some (l ++ [v], Reply.integer (l.length + [v].length)) = some (l', reply) := hexec
  obtain ⟨rfl, rfl⟩ := Prod.mk.inj (Option.some.inj hexec)
  rw [List.length_append, Nat.cast_add]

theorem last_lpushes {vs : List String} (hne : vs ≠ [])
    (h : execAll (vs.map fun v => ⟨key, .lpush [v]⟩) s = some (s', replies)) :
    length replies = .long (s'.list key).length := by
  refine last_pushes (fun v => .lpush [v]) (fun _ => trivial) (fun {v l l' reply} hexec => ?_) hne h
  have hexec : some ([v].reverse ++ l, Reply.integer ([v].length + l.length)) = some (l', reply) :=
    hexec
  obtain ⟨rfl, rfl⟩ := Prod.mk.inj (Option.some.inj hexec)
  rw [List.length_append, List.length_reverse, Nat.cast_add]

end

end BaseService.Redis
