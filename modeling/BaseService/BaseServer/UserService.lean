import Mathlib

/-!
# `UserService`

The accounts are hashes on a Redis server. A null that is written makes the client throw.

* `Account`, `Store` : a hash and the hashes of all users;
* `exsist`, `login`, `regist`, `modify`, `verify`, `del` : the methods, when nobody else is calling;
* `Method.run` : a method with what it returns, `none` for an exception.
-/

namespace BaseService.BaseServer
open Function (update)

/-- The fields of a hash `manage_user_<userName>`. -/
structure Account where
  userName : Option String
  password : Option String
  name : Option String
  verify : Option String
  deriving DecidableEq, Repr

/-- A hash without fields does not exist. -/
def Account.absent : Account := ⟨none, none, none, none⟩

/-- What the server keeps. The keys are those of the user names. -/
structure Store where
  hash : String → Account
  /-- `manage_user_all_keys`. -/
  allKeys : Finset String

namespace Store

def empty : Store := ⟨fun _ => .absent, ∅⟩

def put (s : Store) (userName : String) (a : Account) : Store :=
  { s with hash := update s.hash userName a }

def setUserName (s : Store) (userName : String) : Store :=
  s.put userName { s.hash userName with userName := some userName }

def setPassword (s : Store) (userName password : String) : Store :=
  s.put userName { s.hash userName with password := some password }

def setName (s : Store) (userName name : String) : Store :=
  s.put userName { s.hash userName with name := some name }

def setVerify (s : Store) (userName : String) : Store :=
  s.put userName { s.hash userName with verify := some "true" }

def hdel (s : Store) (userName : String) : Store := s.put userName .absent

def sadd (s : Store) (userName : String) : Store :=
  { s with allKeys := insert userName s.allKeys }

def srem (s : Store) (userName : String) : Store := { s with allKeys := s.allKeys.erase userName }

/-! ### What is written, and what stays -/

theorem put_hash (s : Store) (userName : String) (a : Account) (u : String) :
    (s.put userName a).hash u = if u = userName then a else s.hash u := Function.update_apply ..

/-- A field that is not written stays, in all accounts. -/
theorem put_field {α : Type} (f : Account → α) {s : Store} {userName : String} {a : Account}
    (h : f a = f (s.hash userName)) (u : String) : f ((s.put userName a).hash u) = f (s.hash u) := by
  rw [put_hash]
  split
  · next hu => rw [hu, h]
  · rfl

section
variable (s : Store) (userName : String)

theorem setUserName_password (u : String) :
    ((s.setUserName userName).hash u).password = (s.hash u).password := by
  refine put_field Account.password ?_ u
  rfl

theorem setUserName_verify (u : String) :
    ((s.setUserName userName).hash u).verify = (s.hash u).verify := by
  refine put_field Account.verify ?_ u
  rfl

theorem setPassword_password (password u : String) :
    ((s.setPassword userName password).hash u).password =
      if u = userName then some password else (s.hash u).password := by
  rw [setPassword, put_hash]
  split <;> rfl

theorem setPassword_verify (password u : String) :
    ((s.setPassword userName password).hash u).verify = (s.hash u).verify := by
  refine put_field Account.verify ?_ u
  rfl

theorem setName_password (name u : String) :
    ((s.setName userName name).hash u).password = (s.hash u).password := by
  refine put_field Account.password ?_ u
  rfl

theorem setName_verify (name u : String) :
    ((s.setName userName name).hash u).verify = (s.hash u).verify := by
  refine put_field Account.verify ?_ u
  rfl

theorem setVerify_password (u : String) :
    ((s.setVerify userName).hash u).password = (s.hash u).password := by
  refine put_field Account.password ?_ u
  rfl

theorem setVerify_verify (u : String) : ((s.setVerify userName).hash u).verify =
    if u = userName then some "true" else (s.hash u).verify := by
  rw [setVerify, put_hash]
  split <;> rfl

theorem hdel_hash (u : String) :
    (s.hdel userName).hash u = if u = userName then .absent else s.hash u := put_hash ..

end

end Store

/-- `Boolean.valueOf(s)`. -/
def booleanValueOf (s : Option String) : Bool :=
  s.any fun s => s.toList.map Char.toLower = ['t', 'r', 'u', 'e']

structure User where
  userName : String
  password : Option String
  name : Option String

namespace UserService

def exsist (userName : String) (s : Store) : Bool := (s.hash userName).userName.isSome

def login (userName : String) (password : Option String) (s : Store) : Option String :=
  if booleanValueOf (s.hash userName).verify then
    if (s.hash userName).password = password then (s.hash userName).name else none
  else some "@none-verify"

def regist (user : User) (s : Store) : Option Bool × Store :=
  if exsist user.userName s then (some false, s)
  else
    let s := s.setUserName user.userName
    match user.password with
    | none => (none, s)
    | some password =>
      let s := s.setPassword user.userName password
      match user.name with
      | none => (none, s)
      | some name => (some true, (s.setName user.userName name).sadd user.userName)

def modify (user : User) (s : Store) : Option Bool × Store :=
  if exsist user.userName s then
    match user.password with
    | none => (none, s)
    | some password => (some true, s.setPassword user.userName password)
  else (some false, s)

def verify (userName : String) (s : Store) : Bool × Store :=
  if exsist userName s then (true, s.setVerify userName) else (false, s)

def del (userName : String) (s : Store) : Bool × Store :=
  if exsist userName s then (true, (s.hdel userName).srem userName) else (false, s)

end UserService

inductive Method
  | regist (user : User)
  | modify (user : User)
  | verify (userName : String)
  | del (userName : String)
  | login (userName : String) (password : Option String)

inductive Returned
  | boolean (b : Bool)
  | string (s : Option String)

def Method.run (s : Store) : Method → Option Returned × Store
  | regist user => ((UserService.regist user s).1.map .boolean, (UserService.regist user s).2)
  | modify user => ((UserService.modify user s).1.map .boolean, (UserService.modify user s).2)
  | verify userName =>
    (some (.boolean (UserService.verify userName s).1), (UserService.verify userName s).2)
  | del userName => (some (.boolean (UserService.del userName s).1), (UserService.del userName s).2)
  | login userName password => (some (.string (UserService.login userName password s)), s)

end BaseService.BaseServer
