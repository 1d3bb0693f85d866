import BaseService.BaseServer.UserService
import BaseService.StringUtils

/-!
# The servlets

Requests are served one after another. The filter is for the pages under `/comm/`, the servlets are not
among them.

* `Server`, `Request` : the accounts with the sessions, and what a client sends;
* `LoginServlet.service`, and so on : the servlets; `serve` : the filter and the mapping of `web.xml`;
* `Approved` : a request that changes a flag or deletes an account comes from a session of a user;
* `approved_iff` : when that is so;
* `NoSelfApproval` : they all do, and a client without a session and without the credentials of a
  verified account does not log in;
* `noSelfApproval_iff` : the sequences of requests with that property.
-/

namespace BaseService.BaseServer
open Function (update)

/-- The attributes of a session. -/
structure Session where
  auth : Option String
  admin : Option String
  deriving DecidableEq, Repr

/-- The accounts and the sessions `σ`. -/
structure Server (σ : Type) where
  store : Store
  session : σ → Session
  /-- The sessions into which `LoginServlet` has stored attributes. -/
  stored : Finset σ

/-- The path is that after `/base`. -/
structure Request (σ : Type) where
  session : σ
  path : String
  parameter : String → Option String

inductive Response
  | println (text : String)
  | sendRedirect (location : String)
  /-- A page or a file of the container. -/
  | page
  | empty
  | exception
  deriving DecidableEq, Repr

/-- A null in the key of an account. -/
def nullable (userName : Option String) : String := userName.getD "null"

/-- `StringUtils.isBlank`, also of a null. -/
def isBlank (s : Option String) : Bool := s.all StringUtils.isBlank

section
variable {σ : Type} [DecidableEq σ]

namespace LoginServlet

/-- What the log-in of a user leaves in the session. -/
def store (r : Request σ) (login : Option String) (s : Server σ) : Server σ :=
  let session := s.session r.session
  { s with
    session := update s.session r.session
      { auth := login
        admin := if r.parameter "username" = some "admin" then login else session.admin }
    stored := insert r.session s.stored }

def service (r : Request σ) (s : Server σ) : Response × Server σ :=
  let userName := nullable (r.parameter "username")
  if UserService.exsist userName s.store then
    let login := UserService.login userName (r.parameter "passwd") s.store
    if login = some "@none-verify" then (.println "账号未审核通过，等待审核！", s)
    else if isBlank login then (.println "用户名与密码不匹配，请重试！", s)
    else (.println "100", store r login s)
  else (.println "该用户名不存在！", s)

end LoginServlet

namespace UserServlet

/-- `println(100)`, or that the registration failed. -/
def answer : Option Bool → Response
  | some true => .println "100"
  | some false => .println "注册失败，请稍候再试！"
  | none => .exception

/-- A user name that is null cannot be written. -/
def add (r : Request σ) (s : Server σ) : Response × Server σ :=
  if UserService.exsist (nullable (r.parameter "username")) s.store then
    (.println "该用户名已经存在！", s)
  else
    match r.parameter "username" with
    | none => (.exception, s)
    | some userName =>
      let (isSucc, store) :=
        UserService.regist ⟨userName, r.parameter "passwd", r.parameter "name"⟩ s.store
      (answer isSucc, { s with store := store })

def up (r : Request σ) (s : Server σ) : Response × Server σ :=
  let userName := nullable (r.parameter "username")
  let login := UserService.login userName (r.parameter "passwd") s.store
  if isBlank login then (.println "账号或旧密码错误！", s)
  else if login = some "@none-verify" then (.println "账号未审核通过", s)
  else
    let (isSucc, store) :=
      UserService.modify ⟨userName, r.parameter "newPasswd", r.parameter "name"⟩ s.store
    (answer isSucc, { s with store := store })

def service (r : Request σ) (s : Server σ) : Response × Server σ :=
  if r.parameter "action" = some "ADD" then add r s
  else if r.parameter "action" = some "UP" then up r s
  else (.empty, s)

end UserServlet

def LogoutServlet.service (r : Request σ) (s : Server σ) : Response × Server σ :=
  (.sendRedirect "/base/login.jsp", { s with session := update s.session r.session ⟨none, none⟩ })

def UserVerifyServlet.service (r : Request σ) (s : Server σ) : Response × Server σ :=
  (.sendRedirect "/base/comm/usermanage.jsp",
    { s with store := (UserService.verify (nullable (r.parameter "userName")) s.store).2 })

def UserDelServlet.service (r : Request σ) (s : Server σ) : Response × Server σ :=
  (.sendRedirect "/base/comm/usermanage.jsp",
    { s with store := (UserService.del (nullable (r.parameter "userName")) s.store).2 })

/-! ## `web.xml` -/

inductive Servlet
  | login
  | user
  | logout
  | userVerify
  | userDel
  deriving DecidableEq, Repr

/-- The container puts a slash before the patterns. -/
def servletMapping (path : String) : Option Servlet :=
  if path = "/login.do" then some .login
  else if path = "/user.do" then some .user
  else if path = "/logout.go" then some .logout
  else if path = "/userVerify.do" then some .userVerify
  else if path = "/userDel.do" then some .userDel
  else none

def Servlet.service (r : Request σ) (s : Server σ) : Servlet → Response × Server σ
  | login => LoginServlet.service r s
  | user => UserServlet.service r s
  | logout => LogoutServlet.service r s
  | userVerify => UserVerifyServlet.service r s
  | userDel => UserDelServlet.service r s

/-- The pattern `/comm/*`. -/
def filterMapping (path : String) : Bool :=
  path = "/comm" ∨ path.toList.take 6 = ['/', 'c', 'o', 'm', 'm', '/']

def AuthFilter.doFilter (r : Request σ) (s : Server σ) (chain : Response × Server σ) :
    Response × Server σ :=
  if (s.session r.session).auth ≠ none ∨ (s.session r.session).admin ≠ none then chain
  else (.sendRedirect "/base/login.jsp", s)

def serve (r : Request σ) (s : Server σ) : Response × Server σ :=
  let served :=
    match servletMapping r.path with
    | some servlet => servlet.service r s
    | none => (.page, s)
  if filterMapping r.path then AuthFilter.doFilter r s served else served

/-- A sequence of requests that all have a property when they come. -/
def Always (P : Server σ → Request σ → Prop) : Server σ → List (Request σ) → Prop
  | _, [] => True
  | s, r :: rs => P s r ∧ Always P (serve r s).2 rs

/-! ## What is to be -/

/-- Every account with a flag has a user name, as those of `UserService` have when it is idle. -/
def Store.WellFormed (s : Store) : Prop :=
  ∀ u, (s.hash u).verify ≠ none → UserService.exsist u s = true

/-- The flag of an account changes, or the account is deleted. -/
def Changes (s s' : Store) (u : String) : Prop :=
  (s'.hash u).verify ≠ (s.hash u).verify ∨
    UserService.exsist u s = true ∧ UserService.exsist u s' = false

def Approved (s : Server σ) (r : Request σ) : Prop :=
  ∀ u, Changes s.store (serve r s).2.store u → r.session ∈ s.stored

/-- The request gets a session the attributes of a user. -/
def LogsIn (s : Server σ) (r : Request σ) : Prop :=
  servletMapping r.path = some .login ∧ (serve r s).1 = .println "100"

/-- The request does not carry the password of a verified account. -/
def Without (s : Server σ) (r : Request σ) : Prop :=
  booleanValueOf (s.store.hash (nullable (r.parameter "username"))).verify = true →
    r.parameter "passwd" ≠ (s.store.hash (nullable (r.parameter "username"))).password

/-- What the requests of a client are not to do. -/
structure NoSelfApproval (s : Server σ) (rs : List (Request σ)) : Prop where
  approved : Always Approved s rs
  client : (∀ r ∈ rs, r.session ∉ s.stored) → (∀ r ∈ rs, Without s r) →
    Always (fun s r => ¬ LogsIn s r) s rs

/-- Requests to verify or to delete come from sessions of users, unless they change nothing. -/
def Guarded (s : Server σ) (r : Request σ) : Prop :=
  match servletMapping r.path with
  | some .userVerify =>
    UserService.exsist (nullable (r.parameter "userName")) s.store = true →
      (s.store.hash (nullable (r.parameter "userName"))).verify ≠ some "true" → r.session ∈ s.stored
  | some .userDel =>
    UserService.exsist (nullable (r.parameter "userName")) s.store = true → r.session ∈ s.stored
  | _ => True

/-! ## What the servlets keep -/

/-- No flag changes and no account is deleted. -/
def Keeps (s s' : Store) : Prop :=
  ∀ u, (s'.hash u).verify = (s.hash u).verify ∧
    (UserService.exsist u s = true → UserService.exsist u s' = true)

theorem Keeps.refl (s : Store) : Keeps s s := fun _ => ⟨rfl, id⟩

theorem Keeps.trans {s s' s'' : Store} (h : Keeps s s') (h' : Keeps s' s'') : Keeps s s'' :=
  fun u => ⟨(h' u).1.trans (h u).1, (h' u).2 ∘ (h u).2⟩

theorem Keeps.not_changes {s s' : Store} (h : Keeps s s') (u : String) : ¬ Changes s s' u := by
  rintro (hverify | ⟨hexsist, hdeleted⟩)
  · exact hverify (h u).1
  · rw [(h u).2 hexsist] at hdeleted
    cases hdeleted

/-- A field of an account is written. -/
theorem keeps_put {s : Store} {userName : String} {a : Account}
    (hverify : a.verify = (s.hash userName).verify)
    (hname : (s.hash userName).userName.isSome = true → a.userName.isSome = true) :
    Keeps s (s.put userName a) := by
  intro u
  refine ⟨Store.put_field Account.verify hverify u, fun hexsist => ?_⟩
  unfold UserService.exsist at hexsist ⊢
  rw [Store.put_hash]
  split
  · next hu =>
    rw [hu] at hexsist
    exact hname hexsist
  · exact hexsist

theorem keeps_regist (user : User) (s : Store) : Keeps s (UserService.regist user s).2 := by
  have huserName : Keeps s (s.setUserName user.userName) := keeps_put rfl fun _ => rfl
  unfold UserService.regist
  split
  · exact .refl s
  · dsimp only
    split
    · exact huserName
    · next password _ =>
      have hpassword : Keeps s ((s.setUserName user.userName).setPassword user.userName password) :=
        huserName.trans (keeps_put rfl id)
      split
      · exact hpassword
      · exact hpassword.trans (keeps_put rfl id)

theorem keeps_modify (user : User) (s : Store) : Keeps s (UserService.modify user s).2 := by
  unfold UserService.modify
  split
  · split
    · exact .refl s
    · exact keeps_put rfl id
  · exact .refl s

theorem login_store (r : Request σ) (s : Server σ) : (LoginServlet.service r s).2.store = s.store := by
  unfold LoginServlet.service
  dsimp only
  split_ifs <;> rfl

omit [DecidableEq σ] in
theorem keeps_user (r : Request σ) (s : Server σ) : Keeps s.store (UserServlet.service r s).2.store := by
  unfold UserServlet.service UserServlet.add UserServlet.up
  split
  · split
    · exact .refl _
    · split
      · exact .refl _
      · exact keeps_regist _ _
  · split
    · dsimp only
      split
      · exact .refl _
      · split
        · exact .refl _
        · exact keeps_modify _ _
    · exact .refl _

theorem exsist_setVerify (s : Store) (userName u : String) :
    UserService.exsist u (s.setVerify userName) = UserService.exsist u s := by
  unfold UserService.exsist
  refine congrArg Option.isSome (Store.put_field Account.userName ?_ u)
  rfl

/-- A verification changes the flag of an account that has not got it. -/
theorem changes_verify {userName : String} {s : Store} :
    (∃ u, Changes s (UserService.verify userName s).2 u) ↔
      UserService.exsist userName s = true ∧ (s.hash userName).verify ≠ some "true" := by
  unfold UserService.verify
  by_cases hexsist : UserService.exsist userName s = true
  · rw [if_pos hexsist, and_iff_right hexsist]
    constructor
    · rintro ⟨u, hverify | ⟨hu, hdeleted⟩⟩
      · rw [Store.setVerify_verify] at hverify
        split at hverify
        · next heq =>
          rw [heq] at hverify
          exact Ne.symm hverify
        · exact absurd rfl hverify
      · rw [exsist_setVerify, hu] at hdeleted
        cases hdeleted
    · intro hverify
      refine ⟨userName, .inl ?_⟩
      rw [Store.setVerify_verify, if_pos rfl]
      exact Ne.symm hverify
  · rw [if_neg hexsist]
    refine iff_of_false ?_ fun h => hexsist h.1
    rintro ⟨u, hu⟩
    exact (Keeps.refl s).not_changes u hu

theorem changes_del {userName : String} {s : Store} :
    (∃ u, Changes s (UserService.del userName s).2 u) ↔ UserService.exsist userName s = true := by
  unfold UserService.del
  by_cases hexsist : UserService.exsist userName s = true
  · rw [if_pos hexsist]
    refine iff_of_true ⟨userName, .inr ⟨hexsist, ?_⟩⟩ hexsist
    show ((s.hdel userName).hash userName).userName.isSome = false
    rw [Store.hdel_hash, if_pos rfl]
    rfl
  · rw [if_neg hexsist]
    refine iff_of_false ?_ hexsist
    rintro ⟨u, hu⟩
    exact (Keeps.refl s).not_changes u hu

/-! ## One request -/

theorem serve_servlet {r : Request σ} {servlet : Servlet} (h : servletMapping r.path = some servlet)
    (s : Server σ) : serve r s = servlet.service r s := by
  have hpath : filterMapping r.path = false := by
    unfold servletMapping at h
    split_ifs at h with h₁ h₂ h₃ h₄ h₅
    · rw [h₁]; decide
    · rw [h₂]; decide
    · rw [h₃]; decide
    · rw [h₄]; decide
    · rw [h₅]; decide
  unfold serve
  dsimp only
  rw [hpath, h]
  rfl

theorem serve_page {r : Request σ} (h : servletMapping r.path = none) (s : Server σ) :
    (serve r s).2 = s := by
  unfold serve AuthFilter.doFilter
  dsimp only
  rw [h]
  split_ifs <;> rfl

/-- **Who changes flags or deletes accounts.** -/
theorem approved_iff (s : Server σ) (r : Request σ) : Approved s r ↔ Guarded s r := by
  have hkeeps (h : Keeps s.store (serve r s).2.store) : Approved s r :=
    fun u hu => absurd hu (h.not_changes u)
  have hexists : Approved s r ↔
      ((∃ u, Changes s.store (serve r s).2.store u) → r.session ∈ s.stored) := by
    unfold Approved
    rw [forall_exists_index]
  unfold Guarded
  cases hmapping : servletMapping r.path with
  | none => exact iff_of_true (hkeeps (by rw [serve_page hmapping]; exact .refl _)) trivial
  | some servlet =>
    have hserve := serve_servlet hmapping s
    cases servlet with
    | login =>
      refine iff_of_true (hkeeps ?_) trivial
      rw [hserve]
      show Keeps s.store (LoginServlet.service r s).2.store
      rw [login_store]
      exact .refl _
    | user => exact iff_of_true (hkeeps (by rw [hserve]; exact keeps_user r s)) trivial
    | logout => exact iff_of_true (hkeeps (by rw [hserve]; exact .refl _)) trivial
    | userVerify =>
      rw [hexists, hserve]
      show ((∃ u, Changes s.store (UserService.verify _ s.store).2 u) → _) ↔ _
      rw [changes_verify, and_imp]
    | userDel =>
      rw [hexists, hserve]
      show ((∃ u, Changes s.store (UserService.del _ s.store).2 u) → _) ↔ _
      rw [changes_del]

/-! ### Accounts with a flag have a user name -/

omit [DecidableEq σ] in
theorem Keeps.wellFormed {s s' : Store} (h : Keeps s s') (hs : s.WellFormed) : s'.WellFormed :=
  fun u hu => (h u).2 (hs u ((h u).1 ▸ hu))

omit [DecidableEq σ] in
theorem wellFormed_verify {s : Store} (h : s.WellFormed) (userName : String) :
    (UserService.verify userName s).2.WellFormed := by
  unfold UserService.verify
  split
  · next hexsist =>
    intro u hu
    rw [Store.setVerify_verify] at hu
    rw [exsist_setVerify]
    split at hu
    · next heq =>
      rw [heq]
      exact hexsist
    · exact h u hu
  · exact h

omit [DecidableEq σ] in
theorem wellFormed_del {s : Store} (h : s.WellFormed) (userName : String) :
    (UserService.del userName s).2.WellFormed := by
  unfold UserService.del
  split
  · intro u hu
    change ((s.hdel userName).hash u).verify ≠ none at hu
    show ((s.hdel userName).hash u).userName.isSome = true
    rw [Store.hdel_hash] at hu ⊢
    split at hu
    · exact absurd rfl hu
    · next hne =>
      rw [if_neg hne]
      exact h u hu
  · exact h

theorem wellFormed_serve {s : Server σ} (h : s.store.WellFormed) (r : Request σ) :
    (serve r s).2.store.WellFormed := by
  cases hmapping : servletMapping r.path with
  | none =>
    rw [serve_page hmapping]
    exact h
  | some servlet =>
    rw [serve_servlet hmapping]
    cases servlet with
    | login =>
      show (LoginServlet.service r s).2.store.WellFormed
      rw [login_store]
      exact h
    | user => exact (keeps_user r s).wellFormed h
    | logout => exact h
    | userVerify => exact wellFormed_verify h _
    | userDel => exact wellFormed_del h _

/-! ## A client without the credentials of a verified account -/

/-- Since `s₀`, no account has been verified, and those that were are as they were. -/
structure Locked (s₀ s : Server σ) : Prop where
  stored : s.stored = s₀.stored
  verify : ∀ u, (s.store.hash u).verify = (s₀.store.hash u).verify
  password : ∀ u, booleanValueOf (s₀.store.hash u).verify = true →
    (s.store.hash u).password = (s₀.store.hash u).password
  exsist : ∀ u, booleanValueOf (s₀.store.hash u).verify = true → UserService.exsist u s.store = true

section
variable {s₀ s : Server σ} {r : Request σ}

omit [DecidableEq σ] in
theorem Locked.start (h : s.store.WellFormed) : Locked s s := by
  refine ⟨rfl, fun _ => rfl, fun _ _ => rfl, fun u hu => h u fun hnone => ?_⟩
  rw [hnone] at hu
  cases hu

omit [DecidableEq σ] in
theorem Locked.login (h : Locked s₀ s) (hwithout : Without s₀ r) :
    UserService.login (nullable (r.parameter "username")) (r.parameter "passwd") s.store = none ∨
      UserService.login (nullable (r.parameter "username")) (r.parameter "passwd") s.store =
        some "@none-verify" := by
  unfold UserService.login
  rw [h.verify]
  split
  · next hverify =>
    rw [h.password _ hverify, if_neg (Ne.symm (hwithout hverify))]
    exact .inl rfl
  · exact .inr rfl

omit [DecidableEq σ] in
theorem regist_hash_of_ne {user : User} {u : String} (h : u ≠ user.userName) (store : Store) :
    (UserService.regist user store).2.hash u = store.hash u := by
  have hput (store : Store) (a : Account) : (store.put user.userName a).hash u = store.hash u := by
    rw [Store.put_hash, if_neg h]
  unfold UserService.regist
  split
  · rfl
  · dsimp only
    split
    · exact hput ..
    · split
      · exact (hput ..).trans (hput ..)
      · exact (hput ..).trans ((hput ..).trans (hput ..))

omit [DecidableEq σ] in
theorem Locked.user (h : Locked s₀ s) (hwithout : Without s₀ r) :
    Locked s₀ (UserServlet.service r s).2 := by
  have hlogin := h.login hwithout
  unfold UserServlet.service
  split
  · unfold UserServlet.add
    split
    · exact h
    · next hexsist =>
      split
      · exact h
      · next userName huserName =>
        rw [huserName] at hexsist
        have hkeeps := keeps_regist ⟨userName, r.parameter "passwd", r.parameter "name"⟩ s.store
        refine ⟨h.stored, fun u => (hkeeps u).1.trans (h.verify u), fun u hu => ?_,
          fun u hu => (hkeeps u).2 (h.exsist u hu)⟩
        have hne : u ≠ userName := by
          rintro rfl
          exact hexsist (h.exsist u hu)
        exact (congrArg Account.password (regist_hash_of_ne hne s.store)).trans (h.password u hu)
  · split
    · unfold UserServlet.up
      dsimp only
      rcases hlogin with hnone | hunverified
      · rw [hnone]
        exact h
      · rw [hunverified, if_neg (by decide), if_pos rfl]
        exact h
    · exact h

theorem Locked.logIn (h : Locked s₀ s) (hwithout : Without s₀ r) :
    (LoginServlet.service r s).2 = s ∧ (LoginServlet.service r s).1 ≠ .println "100" := by
  have hlogin := h.login hwithout
  unfold LoginServlet.service
  dsimp only
  split
  · rcases hlogin with hnone | hunverified
    · rw [hnone, if_neg (by decide), if_pos (show isBlank none = true from rfl)]
      exact ⟨rfl, by simp⟩
    · rw [hunverified, if_pos rfl]
      exact ⟨rfl, by simp⟩
  · exact ⟨rfl, by simp⟩

omit [DecidableEq σ] in
/-- A flag that is written again. -/
theorem verify_same {store : Store} {userName : String}
    (h : UserService.exsist userName store = true → (store.hash userName).verify = some "true") :
    (UserService.verify userName store).2 = store := by
  unfold UserService.verify
  split
  · next hexsist =>
    have hsame : { store.hash userName with verify := some "true" } = store.hash userName := by
      rw [← h hexsist]
    unfold Store.setVerify Store.put
    dsimp only
    rw [hsame, Function.update_eq_self]
  · rfl

omit [DecidableEq σ] in
theorem del_same {store : Store} {userName : String}
    (h : UserService.exsist userName store ≠ true) : (UserService.del userName store).2 = store := by
  unfold UserService.del
  rw [if_neg h]

/-- A request of the client. -/
theorem Locked.serve (h : Locked s₀ s) (hwithout : Without s₀ r) (hsession : r.session ∉ s₀.stored)
    (hguarded : Guarded s r) : Locked s₀ (serve r s).2 ∧ ¬ LogsIn s r := by
  have hother (servlet : Option Servlet) (hservlet : servletMapping r.path = servlet)
      (hne : servlet ≠ some .login) : ¬ LogsIn s r := fun hlogs =>
    hne (hservlet.symm.trans hlogs.1)
  unfold Guarded at hguarded
  rw [h.stored] at hguarded
  cases hmapping : servletMapping r.path with
  | none =>
    rw [serve_page hmapping]
    exact ⟨h, hother _ hmapping (by simp)⟩
  | some servlet =>
    rw [hmapping] at hguarded
    have hserve := serve_servlet hmapping s
    cases servlet with
    | login =>
      obtain ⟨hsame, hresponse⟩ := h.logIn hwithout
      have hserved : (BaseServer.serve r s) = LoginServlet.service r s := hserve
      refine ⟨?_, fun hlogs => hresponse ?_⟩
      · rw [hserved, hsame]
        exact h
      · rw [← hserved]
        exact hlogs.2
    | user =>
      rw [hserve]
      exact ⟨h.user hwithout, hother _ hmapping (by simp)⟩
    | logout =>
      rw [hserve]
      exact ⟨⟨h.stored, h.verify, h.password, h.exsist⟩, hother _ hmapping (by simp)⟩
    | userVerify =>
      have hsame := verify_same fun hexsist => by
        by_contra hverify
        exact hsession (hguarded hexsist hverify)
      rw [hserve]
      refine ⟨?_, hother _ hmapping (by simp)⟩
      show Locked s₀ { s with store := (UserService.verify _ s.store).2 }
      rw [hsame]
      exact h
    | userDel =>
      have hsame := del_same fun hexsist => hsession (hguarded hexsist)
      rw [hserve]
      refine ⟨?_, hother _ hmapping (by simp)⟩
      show Locked s₀ { s with store := (UserService.del _ s.store).2 }
      rw [hsame]
      exact h

end

/-! ## Sequences of requests -/

theorem Always.congr {P Q : Server σ → Request σ → Prop} (h : ∀ s r, P s r ↔ Q s r)
    (s : Server σ) (rs : List (Request σ)) : Always P s rs ↔ Always Q s rs := by
  induction rs generalizing s with
  | nil => exact Iff.rfl
  | cons r rs ih => exact and_congr (h s r) (ih _)

theorem Locked.always {s₀ s : Server σ} {rs : List (Request σ)} (h : Locked s₀ s)
    (hwithout : ∀ r ∈ rs, Without s₀ r) (hsession : ∀ r ∈ rs, r.session ∉ s₀.stored)
    (hguarded : Always Guarded s rs) : Always (fun s r => ¬ LogsIn s r) s rs := by
  induction rs generalizing s with
  | nil => trivial
  | cons r rs ih =>
    obtain ⟨hwithout₁, hwithout⟩ := List.forall_mem_cons.1 hwithout
    obtain ⟨hsession₁, hsession⟩ := List.forall_mem_cons.1 hsession
    obtain ⟨hlocked, hlogs⟩ := h.serve hwithout₁ hsession₁ hguarded.1
    exact ⟨hlogs, ih hlocked hwithout hsession hguarded.2⟩

/-- **Nobody approves himself** just if the requests to verify and to delete come from sessions of users. -/
theorem noSelfApproval_iff {s : Server σ} (h : s.store.WellFormed) (rs : List (Request σ)) :
    NoSelfApproval s rs ↔ Always Guarded s rs := by
  constructor
  · intro hno
    exact (Always.congr approved_iff s rs).1 hno.approved
  · intro hguarded
    exact ⟨(Always.congr approved_iff s rs).2 hguarded,
      fun hsession hwithout => (Locked.start h).always hwithout hsession hguarded⟩

end

/-- A request with parameters. -/
def get (session : Nat) (path : String) (parameters : List (String × String)) : Request Nat :=
  ⟨session, path, fun name => parameters.lookup name⟩

/-- One user is verified, and another is not. -/
def twoUsers : Server Nat where
  store := (Store.empty.put "admin" ⟨some "admin", some "p", some "a", some "true"⟩).put "u"
    ⟨some "u", some "q", some "n", none⟩
  session _ := ⟨none, none⟩
  stored := ∅

theorem twoUsers_wellFormed : twoUsers.store.WellFormed := by
  intro u hu
  unfold UserService.exsist twoUsers at *
  rw [Store.put_hash, Store.put_hash] at *
  split_ifs at * with h₁ h₂
  · rfl
  · rfl
  · exact absurd rfl hu

theorem noSelfApproval_admin : NoSelfApproval twoUsers
    [get 0 "/login.do" [("username", "admin"), ("passwd", "p")],
      get 0 "/userVerify.do" [("userName", "u")]] :=
  (noSelfApproval_iff twoUsers_wellFormed _).2 ⟨trivial, fun _ _ => by decide, trivial⟩

/-- The user verifies himself, without a session, and logs in. -/
theorem not_noSelfApproval : ¬ NoSelfApproval twoUsers
    [get 1 "/userVerify.do" [("userName", "u")],
      get 1 "/login.do" [("username", "u"), ("passwd", "q")]] := fun h =>
  absurd (h.approved.1 "u" (.inl (by decide))) (by decide)

end BaseService.BaseServer
