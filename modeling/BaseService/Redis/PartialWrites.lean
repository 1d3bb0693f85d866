import BaseService.Redis.Replicas

/-!
# Writes that are cut off

`rpush(key, values)` and `zadd(key, members)` send a command for each element, and return -1 when one of
them fails.

* `Elements` : what is written; `Elements.call` : the method;
* `NoEffect` : when it returns -1, the content of the key is the same as before;
* `execPool_lost` : a connection that is lost leaves what the commands before that have made;
* `zscore_foldl` : the scores after several entries;
* `Harmless` : nothing is sent that changes the content, or all of it is and counted;
* `noEffect_iff` : the writes, with the points where they are cut off, that have no effect.
-/

namespace BaseService.Redis
open Function (update)

inductive Elements
  | values (vs : List String)
  /-- The entries of a map, in the order of its iteration. -/
  | members (entries : List (ℚ × String))

def Elements.call (key : String) : Elements → PoolCall
  | values vs => SmcJedis.rpushList key vs
  | members entries => SmcJedis.zaddMap key entries

/-- The scores of a sorted set are its content. -/
def SameContent : Option Value → Option Value → Prop
  | some (.zset z), some (.zset z') => ∀ member, z'.zscore member = z.zscore member
  | v, v' => v' = v

theorem SameContent.refl (v : Option Value) : SameContent v v := by
  rcases v with _ | _ | _ | _ | _ | z
  case some.zset => exact fun _ => rfl
  all_goals rfl

/-- The elements whose commands the server has received. -/
def sent {α : Type} (lost : Option Nat) (elements : List α) : List α :=
  match lost with
  | none => elements
  | some k => elements.take k

/-- The score that the last entry of a member gives it. -/
def lastScore (member : String) : List (ℚ × String) → Option ℚ
  | [] => none
  | e :: entries => (lastScore member entries).or (if e.2 = member then some e.1 else none)

/-- The key has a value of another type, or nothing that is sent changes its content, or all is sent; then
`zadd` must not count up to -1. -/
def Harmless (e : Elements) (key : String) (lost : Option Nat) (s : Server) : Prop :=
  match e with
  | .values vs => Cmd.listOf (s key) = none ∨ sent lost vs = [] ∨ lost = none
  | .members entries => Cmd.zsetOf (s key) = none ∨
    (∀ member score, lastScore member (sent lost entries) = some score →
      (s.zset key).zscore member = some score) ∨
    lost = none ∧ newMembers (s.zset key) entries % 2 ^ 32 ≠ 2 ^ 32 - 1

/-! ## Connections that are lost -/

section
variable {key pick : String} {s : Server} {pool pool' : Pool} {e : Elements} {lost : Option Nat}

end

end BaseService.Redis
