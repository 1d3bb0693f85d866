import BaseService.Redis.Server

/-!
# `SmcJedis`

The methods that write, on one pool and on both.

* `Pool`, `execPool` : a server behind connections that may fail;
* `PoolCall`, `PoolCall.on` : the method of a write on one pool;
* `SmcJedis.write` : the method on both pools;
* `set`, `zadd`, and so on : the writes of `SmcJedis`;
* `get` : a read, from the master.
-/

namespace BaseService.Redis

/-- The server of a pool, and the commands it has applied. -/
structure Pool where
  server : Server
  applied : List Command

/-- A server without a key. -/
def Pool.empty : Pool := ⟨fun _ => none, []⟩

/-- Commands over a connection that is lost after so many of them; the reply to the last one is then
lost, too. The replies are missing if an exception ends the commands. -/
def execPool : List Command → Option Nat → Pool → Option (List Reply) × Pool
  | [], lost, pool => (if lost = none then some [] else none, pool)
  | c :: cs, lost, pool =>
    if lost = some 0 then (none, pool)
    else
      match c.exec pool.server with
      | none => (none, pool)
      | some (server, reply) =>
        let (replies, pool) := execPool cs (lost.map (· - 1)) ⟨server, pool.applied ++ [c]⟩
        (replies.map (reply :: ·), pool)

/-- What a method returns. -/
inductive Returned
  | null
  | string (s : String)
  | long (n : Int)
  | double (x : ℚ)
  deriving DecidableEq

/-- The method of a write on one pool. -/
structure PoolCall where
  /-- The commands it sends, for the member that `spop` happens to choose; `none` if it throws
  before. -/
  commands : String → Option (List Command)
  value : List Reply → Returned
  /-- What its `catch (Exception e)` returns; without it the exception is thrown. -/
  failure : Option Returned

/-- The call on a pool; `none` is an exception. -/
def PoolCall.on (call : PoolCall) (pick : String) (lost : Option Nat) (pool : Pool) :
    Option Returned × Pool :=
  match call.commands pick with
  | none => (call.failure, pool)
  | some cs =>
    match execPool cs lost pool with
    | (some replies, pool) => (some (call.value replies), pool)
    | (none, pool) => (call.failure, pool)

structure SmcJedis where
  failover : Bool
  /-- `clientSlaver != null`. -/
  clientSlaver : Bool
  deriving DecidableEq, Repr

structure Pools where
  master : Pool
  slave : Pool

/-- A connection for each pool, and what `spop` chooses there. -/
structure Circumstances where
  lost : Option Nat
  lost' : Option Nat
  pick : String
  pick' : String

/-- The method on both pools: the result of the second call replaces that of the first. -/
def SmcJedis.write (this : SmcJedis) (call : PoolCall) (c : Circumstances) (pools : Pools) :
    Option Returned × Pools :=
  match call.on c.pick c.lost pools.master with
  | (none, master) => (none, { pools with master := master })
  | (some result, master) =>
    if this.failover ∧ this.clientSlaver then
      let (result, slave) := call.on c.pick' c.lost' pools.slave
      (result, ⟨master, slave⟩)
    else (some result, { pools with master := master })

/-! ## The writes -/

/-- The sum of integer replies, that of the one reply included. -/
def count (replies : List Reply) : Returned :=
  .long (replies.map fun reply => match reply with
    | .integer n => n
    | _ => 0).sum

/-- The sum of integer replies in an `int`. -/
def intCount (replies : List Reply) : Returned :=
  .long (replies.foldl (fun count reply => match reply with
    | .integer n => (count + n).bmod (2 ^ 32)
    | _ => count) 0)

/-- The last of several lengths. -/
def length (replies : List Reply) : Returned :=
  match replies.getLast? with
  | some (.integer n) => .long n
  | _ => .long 0

/-- The bulk reply of one command. -/
def bulk (replies : List Reply) : Returned :=
  match replies with
  | [.bulk (some s)] => .string s
  | _ => .null

def okReply (_ : List Reply) : Returned := .string "OK"

/-- A method that sends the commands and returns a failure value when it catches an exception. -/
def caught (cs : List Command) (value : List Reply → Returned) (failure : Returned) : PoolCall :=
  ⟨fun _ => some cs, value, some failure⟩

/-- A method that sends the commands and catches no exception. -/
def uncaught (cs : List Command) (value : List Reply → Returned) : PoolCall :=
  ⟨fun _ => some cs, value, none⟩

namespace SmcJedis

def set (key value : String) : PoolCall := caught [⟨key, .set value⟩] okReply .null

def zadd (key : String) (score : ℚ) (member : String) : PoolCall :=
  caught [⟨key, .zadd score member⟩] count (.long (-1))

/-- `zadd(key, members)`; the entries are in the order of the map's iteration. -/
def zaddMap (key : String) (members : List (ℚ × String)) : PoolCall :=
  caught (members.map fun e => ⟨key, .zadd e.1 e.2⟩) intCount (.long (-1))

def zrem (key member : String) : PoolCall := caught [⟨key, .zrem [member]⟩] count (.long (-1))

/-- `zrem(key, members)`; the cast of `members.toArray()` fails if it is no `String[]`. -/
def zremList (key : String) (members : List String) (isStringArray : Bool) : PoolCall :=
  { caught [⟨key, .zrem members⟩] count (.long (-1)) with
    commands := fun _ => if isStringArray then some [⟨key, .zrem members⟩] else none }

def zremrangeByRank (key : String) (start stop : Int) : PoolCall :=
  caught [⟨key, .zremrangeByRank start stop⟩] count (.long (-1))

def zremrangeByScore (key : String) (min max : ℚ) : PoolCall :=
  caught [⟨key, .zremrangeByScore min max⟩] count (.long (-1))

def rpush (key value : String) : PoolCall := caught [⟨key, .rpush [value]⟩] length (.long (-1))

def rpushList (key : String) (values : List String) : PoolCall :=
  caught (values.map fun value => ⟨key, .rpush [value]⟩) length (.long (-1))

def rpushStrings (key : String) (strings : List String) : PoolCall :=
  uncaught [⟨key, .rpush strings⟩] count

def lpush (key value : String) : PoolCall := uncaught [⟨key, .lpush [value]⟩] count

def lpushList (key : String) (values : List String) : PoolCall :=
  uncaught (values.map fun value => ⟨key, .lpush [value]⟩) length

def lpushStrings (key : String) (strings : List String) : PoolCall :=
  uncaught [⟨key, .lpush strings⟩] count

def lpop (key : String) : PoolCall := uncaught [⟨key, .lpop⟩] bulk

def rpop (key : String) : PoolCall := uncaught [⟨key, .rpop⟩] bulk

def ltrim (key : String) (start stop : Int) : PoolCall :=
  uncaught [⟨key, .ltrim start stop⟩] okReply

def lset (key : String) (index : Int) (value : String) : PoolCall :=
  uncaught [⟨key, .lset index value⟩] okReply

def lrem (key : String) (n : Int) (value : String) : PoolCall :=
  uncaught [⟨key, .lrem n value⟩] count

def linsert (key : String) (before : Bool) (pivot value : String) : PoolCall :=
  uncaught [⟨key, .linsert before pivot value⟩] count

def sadd (key member : String) : PoolCall := uncaught [⟨key, .sadd [member]⟩] count

def saddList (key : String) (members : List String) : PoolCall :=
  uncaught (members.map fun member => ⟨key, .sadd [member]⟩) intCount

def srem (key member : String) : PoolCall := uncaught [⟨key, .srem [member]⟩] count

def sremList (key : String) (members : List String) : PoolCall :=
  uncaught (members.map fun member => ⟨key, .srem [member]⟩) intCount

def spop (key : String) : PoolCall := ⟨fun pick => some [⟨key, .spop pick⟩], bulk, none⟩

def incrBy (key : String) (increment : Int) : PoolCall := uncaught [⟨key, .incrBy increment⟩] count

def incr (key : String) : PoolCall := incrBy key 1

def decrBy (key : String) (decrement : Int) : PoolCall :=
  uncaught [⟨key, .incrBy (-decrement)⟩] count

def decr (key : String) : PoolCall := decrBy key 1

def hset (key field value : String) : PoolCall := uncaught [⟨key, .hset field value⟩] count

def hsetnx (key field value : String) : PoolCall := uncaught [⟨key, .hsetnx field value⟩] count

def hmset (key : String) (hash : List (String × String)) : PoolCall :=
  uncaught [⟨key, .hmset hash⟩] okReply

def hincrBy (key field : String) (value : Int) : PoolCall :=
  uncaught [⟨key, .hincrBy field value⟩] count

def hdel (key : String) (fields : List String) : PoolCall := uncaught [⟨key, .hdel fields⟩] count

def zincrby (key : String) (score : ℚ) (member : String) : PoolCall :=
  uncaught [⟨key, .zincrby score member⟩] fun replies => match replies with
    | [.score x] => .double x
    | _ => .null

def del (key : String) : PoolCall := uncaught [⟨key, .del⟩] count

def delList (keys : List String) : PoolCall := uncaught (keys.map fun key => ⟨key, .del⟩) intCount

/-- `get`; without a connection it catches the exception, as for a value that is no string. -/
def get (key : String) (connected : Bool) (pools : Pools) : Option String :=
  match connected, pools.master.server key with
  | true, some (.string s) => some s
  | _, _ => none

end SmcJedis

end BaseService.Redis
