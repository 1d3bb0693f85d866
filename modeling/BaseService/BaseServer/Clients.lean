import BaseService.BaseServer.UserService
import BaseService.Data.Runs

/-!
# Clients of `UserService`

A method is a check and then one Redis call after another, with those of other clients between them.

* `Clients`, `Step` : the clients and the server, a step being one Redis call;
* `alone` : a method whose calls nobody interrupts does what `Method.run` says;
* `Needed` : who logs in has the latest password of an account whose registration was verified;
* `Clean` : a verification writes its flag to the registration that it has seen, and a log-in reads one
  account;
* `needed_run` : runs of clean steps.
-/

namespace BaseService.BaseServer
open Function (update)

/-- The next Redis call of a client. A registration is numbered by the deletions before. -/
inductive Phase
  | done (returned : Option Returned)
  | registExsist (user : User)
  | registUserName (user : User)
  | registPassword (user : User)
  | registName (user : User)
  | registKey (user : User)
  | modifyExsist (user : User)
  | modifyPassword (user : User)
  | verifyExsist (userName : String)
  /-- The check has seen the registration `seen`. -/
  | verifyFlag (userName : String) (seen : Nat)
  | delExsist (userName : String)
  | delFields (userName : String)
  | delKey (userName : String)
  | loginVerify (userName : String) (password : Option String)
  /-- The flag was that of the registration `seen`. -/
  | loginPassword (userName : String) (password : Option String) (seen : Nat)
  /-- The password was the one written last but `written`. -/
  | loginName (userName : String) (password : Option String) (seen written : Nat)

def Method.start : Method → Phase
  | regist user => .registExsist user
  | modify user => .modifyExsist user
  | verify userName => .verifyExsist userName
  | del userName => .delExsist userName
  | login userName password => .loginVerify userName password

/-- The server with the clients `κ`, and what has happened to the accounts. -/
structure Clients (κ : Type) where
  store : Store
  phase : κ → Phase
  /-- How often the fields of an account have been deleted. -/
  deleted : String → Nat
  /-- How often its password has been written, and the last one. -/
  written : String → Nat
  latest : String → Option String
  /-- The flags set, with the registrations that the checks saw. -/
  verified : List (String × Nat)

namespace Clients
variable {κ : Type} [DecidableEq κ]

def start : Clients κ := ⟨.empty, fun _ => .done none, fun _ => 0, fun _ => 0, fun _ => none, []⟩

def goto (s : Clients κ) (k : κ) (phase : Phase) : Clients κ :=
  { s with phase := update s.phase k phase }

def write (s : Clients κ) (store : Store) : Clients κ := { s with store := store }

def writePassword (s : Clients κ) (userName password : String) : Clients κ :=
  { s with
    store := s.store.setPassword userName password
    written := update s.written userName (s.written userName + 1)
    latest := update s.latest userName (some password) }

def writeFlag (s : Clients κ) (userName : String) (seen : Nat) : Clients κ :=
  { s with store := s.store.setVerify userName, verified := (userName, seen) :: s.verified }

def hdel (s : Clients κ) (userName : String) : Clients κ :=
  { s with
    store := s.store.hdel userName
    deleted := update s.deleted userName (s.deleted userName + 1) }

inductive Label (κ : Type)
  | call (k : κ) (method : Method)
  | redis (k : κ)
  | fail (k : κ)

inductive Step : Clients κ → Label κ → Clients κ → Prop
  | call {s : Clients κ} {k : κ} {returned : Option Returned} {method : Method} :
    s.phase k = .done returned → Step s (.call k method) (s.goto k method.start)
  /-- An exception of the client, also after the server has got the call. -/
  | fail {s : Clients κ} {k : κ} : Step s (.fail k) (s.goto k (.done none))
  | registExsist {s : Clients κ} {k : κ} {user : User} :
    s.phase k = .registExsist user →
      Step s (.redis k) (s.goto k (if UserService.exsist user.userName s.store then
        .done (some (.boolean false)) else .registUserName user))
  | registUserName {s : Clients κ} {k : κ} {user : User} :
    s.phase k = .registUserName user →
      Step s (.redis k)
        ((s.write (s.store.setUserName user.userName)).goto k (.registPassword user))
  | registPassword {s : Clients κ} {k : κ} {user : User} {password : String} :
    s.phase k = .registPassword user → user.password = some password →
      Step s (.redis k) ((s.writePassword user.userName password).goto k (.registName user))
  | registName {s : Clients κ} {k : κ} {user : User} {name : String} :
    s.phase k = .registName user → user.name = some name →
      Step s (.redis k) ((s.write (s.store.setName user.userName name)).goto k (.registKey user))
  | registKey {s : Clients κ} {k : κ} {user : User} :
    s.phase k = .registKey user →
      Step s (.redis k)
        ((s.write (s.store.sadd user.userName)).goto k (.done (some (.boolean true))))
  | modifyExsist {s : Clients κ} {k : κ} {user : User} :
    s.phase k = .modifyExsist user →
      Step s (.redis k) (s.goto k (if UserService.exsist user.userName s.store then
        .modifyPassword user else .done (some (.boolean false))))
  | modifyPassword {s : Clients κ} {k : κ} {user : User} {password : String} :
    s.phase k = .modifyPassword user → user.password = some password →
      Step s (.redis k)
        ((s.writePassword user.userName password).goto k (.done (some (.boolean true))))
  | verifyExsist {s : Clients κ} {k : κ} {userName : String} :
    s.phase k = .verifyExsist userName →
      Step s (.redis k) (s.goto k (if UserService.exsist userName s.store then
        .verifyFlag userName (s.deleted userName) else .done (some (.boolean false))))
  | verifyFlag {s : Clients κ} {k : κ} {userName : String} {seen : Nat} :
    s.phase k = .verifyFlag userName seen →
      Step s (.redis k) ((s.writeFlag userName seen).goto k (.done (some (.boolean true))))
  | delExsist {s : Clients κ} {k : κ} {userName : String} :
    s.phase k = .delExsist userName →
      Step s (.redis k) (s.goto k (if UserService.exsist userName s.store then
        .delFields userName else .done (some (.boolean false))))
  | delFields {s : Clients κ} {k : κ} {userName : String} :
    s.phase k = .delFields userName →
      Step s (.redis k) ((s.hdel userName).goto k (.delKey userName))
  | delKey {s : Clients κ} {k : κ} {userName : String} :
    s.phase k = .delKey userName →
      Step s (.redis k) ((s.write (s.store.srem userName)).goto k (.done (some (.boolean true))))
  | loginVerify {s : Clients κ} {k : κ} {userName : String} {password : Option String} :
    s.phase k = .loginVerify userName password →
      Step s (.redis k) (s.goto k (if booleanValueOf (s.store.hash userName).verify then
        .loginPassword userName password (s.deleted userName)
        else .done (some (.string (some "@none-verify")))))
  | loginPassword {s : Clients κ} {k : κ} {userName : String} {password : Option String}
    {seen : Nat} :
    s.phase k = .loginPassword userName password seen →
      Step s (.redis k) (s.goto k (if (s.store.hash userName).password = password then
        .loginName userName password seen (s.written userName) else .done (some (.string none))))
  | loginName {s : Clients κ} {k : κ} {userName : String} {password : Option String}
    {seen written : Nat} :
    s.phase k = .loginName userName password seen written →
      Step s (.redis k) (s.goto k (.done (some (.string (s.store.hash userName).name))))

/-- `login` returns the name only for the latest password, and if the registration was verified. -/
def Needed (s : Clients κ) (l : Label κ) : Prop :=
  ∀ k userName password seen written name, l = .redis k →
    s.phase k = .loginName userName password seen written →
    (s.store.hash userName).name = some name →
    (∃ p, password = some p ∧ s.latest userName = some p) ∧
      (userName, s.deleted userName) ∈ s.verified

/-- What should not have happened before a call. -/
def Undisturbed (s : Clients κ) : Phase → Prop
  | .verifyFlag userName seen => s.deleted userName = seen
  | .loginPassword userName password _ => password = none → (s.store.hash userName).password ≠ none
  | .loginName userName _ seen written =>
    (s.store.hash userName).name ≠ none →
      s.deleted userName = seen ∧ s.written userName = written
  | _ => True

def Clean (s : Clients κ) (l : Label κ) : Prop := ∀ k, l = .redis k → s.Undisturbed (s.phase k)

/-! ## A method alone -/

section
variable {s : Clients κ} {k : κ}

@[simp]
theorem phase_goto (s : Clients κ) (k : κ) (phase : Phase) : (s.goto k phase).phase k = phase :=
  Function.update_self ..

/-- From here on the client `k` gets to the result `r` with nobody between its calls. -/
def Ends (s : Clients κ) (k : κ) (r : Option Returned × Store) : Prop :=
  ∃ ls s', Run Step s ls s' ∧ s'.phase k = .done r.1 ∧ s'.store = r.2

theorem ends_done {r : Option Returned × Store} (hphase : s.phase k = .done r.1)
    (hstore : s.store = r.2) : s.Ends k r :=
  ⟨[], s, .nil, hphase, hstore⟩

theorem Ends.step {s' : Clients κ} {l : Label κ} {r : Option Returned × Store} (h : s'.Ends k r)
    (hs : Step s l s') : s.Ends k r := by
  obtain ⟨ls, s'', hrun, hend⟩ := h
  exact ⟨[l] ++ ls, s'', (Run.single hs).append hrun, hend⟩

theorem ends_regist {user : User} (hphase : s.phase k = .registExsist user) :
    s.Ends k ((UserService.regist user s.store).1.map .boolean,
      (UserService.regist user s.store).2) := by
  have hcheck := Step.registExsist hphase
  unfold UserService.regist
  by_cases hexsist : UserService.exsist user.userName s.store = true
  · rw [if_pos hexsist] at hcheck ⊢
    exact Ends.step (ends_done (phase_goto ..) rfl) hcheck
  · rw [if_neg hexsist] at hcheck ⊢
    refine Ends.step (Ends.step ?_ (.registUserName (phase_goto ..))) hcheck
    dsimp only
    cases hpassword : user.password with
    | none => exact Ends.step (ends_done (phase_goto ..) rfl) .fail
    | some password =>
      refine Ends.step ?_ (.registPassword (phase_goto ..) hpassword)
      dsimp only
      cases hname : user.name with
      | none => exact Ends.step (ends_done (phase_goto ..) rfl) .fail
      | some name =>
        refine Ends.step (Ends.step ?_ (.registKey (phase_goto ..))) (.registName (phase_goto ..) hname)
        exact ends_done (phase_goto ..) rfl

theorem ends_modify {user : User} (hphase : s.phase k = .modifyExsist user) :
    s.Ends k ((UserService.modify user s.store).1.map .boolean,
      (UserService.modify user s.store).2) := by
  have hcheck := Step.modifyExsist hphase
  unfold UserService.modify
  by_cases hexsist : UserService.exsist user.userName s.store = true
  · rw [if_pos hexsist] at hcheck ⊢
    refine Ends.step ?_ hcheck
    cases hpassword : user.password with
    | none =>
      refine Ends.step ?_ (.fail (k := k))
      exact ends_done (phase_goto ..) rfl
    | some password =>
      exact Ends.step (ends_done (phase_goto ..) rfl) (.modifyPassword (phase_goto ..) hpassword)
  · rw [if_neg hexsist] at hcheck ⊢
    exact Ends.step (ends_done (phase_goto ..) rfl) hcheck

theorem ends_verify {userName : String} (hphase : s.phase k = .verifyExsist userName) :
    s.Ends k (some (.boolean (UserService.verify userName s.store).1),
      (UserService.verify userName s.store).2) := by
  have hcheck := Step.verifyExsist hphase
  unfold UserService.verify
  by_cases hexsist : UserService.exsist userName s.store = true
  · rw [if_pos hexsist] at hcheck ⊢
    refine Ends.step (Ends.step ?_ (.verifyFlag (phase_goto ..))) hcheck
    exact ends_done (phase_goto ..) rfl
  · rw [if_neg hexsist] at hcheck ⊢
    exact Ends.step (ends_done (phase_goto ..) rfl) hcheck

theorem ends_del {userName : String} (hphase : s.phase k = .delExsist userName) :
    s.Ends k (some (.boolean (UserService.del userName s.store).1),
      (UserService.del userName s.store).2) := by
  have hcheck := Step.delExsist hphase
  unfold UserService.del
  by_cases hexsist : UserService.exsist userName s.store = true
  · rw [if_pos hexsist] at hcheck ⊢
    refine Ends.step (Ends.step (Ends.step ?_ (.delKey (phase_goto ..))) (.delFields (phase_goto ..)))
      hcheck
    exact ends_done (phase_goto ..) rfl
  · rw [if_neg hexsist] at hcheck ⊢
    exact Ends.step (ends_done (phase_goto ..) rfl) hcheck

theorem ends_login {userName : String} {password : Option String}
    (hphase : s.phase k = .loginVerify userName password) :
    s.Ends k (some (.string (UserService.login userName password s.store)), s.store) := by
  have hflag := Step.loginVerify hphase
  unfold UserService.login
  by_cases hverify : booleanValueOf (s.store.hash userName).verify = true
  · rw [if_pos hverify] at hflag ⊢
    refine Ends.step ?_ hflag
    have hcompare : Step (s.goto k (.loginPassword userName password (s.deleted userName))) (.redis k) _ :=
      .loginPassword (phase_goto ..)
    change Step _ _ (goto _ k (if (s.store.hash userName).password = password then _ else _)) at hcompare
    by_cases hpassword : (s.store.hash userName).password = password
    · rw [if_pos hpassword] at hcompare ⊢
      refine Ends.step ?_ hcompare
      refine Ends.step ?_ (.loginName (phase_goto ..))
      exact ends_done (phase_goto ..) rfl
    · rw [if_neg hpassword] at hcompare ⊢
      refine Ends.step ?_ hcompare
      exact ends_done (phase_goto ..) rfl
  · rw [if_neg hverify] at hflag ⊢
    exact Ends.step (ends_done (phase_goto ..) rfl) hflag

/-- **A method that is not interrupted** does what it does alone. -/
theorem alone (method : Method) {returned : Option Returned} (hphase : s.phase k = .done returned) :
    s.Ends k (method.run s.store) := by
  have hcall : Step s (.call k method) (s.goto k method.start) := .call hphase
  refine Ends.step ?_ hcall
  cases method with
  | regist user => exact ends_regist (phase_goto ..)
  | modify user => exact ends_modify (phase_goto ..)
  | verify userName => exact ends_verify (phase_goto ..)
  | del userName => exact ends_del (phase_goto ..)
  | login userName password => exact ends_login (phase_goto ..)

end

/-! ## What a clean run keeps -/

/-- What a client knows. -/
def Aware (s : Clients κ) : Phase → Prop
  | .loginPassword userName _ seen => (userName, seen) ∈ s.verified
  | .loginName userName password seen written =>
    (userName, seen) ∈ s.verified ∧ written ≤ s.written userName ∧
      (s.written userName = written → ∃ p, password = some p ∧ s.latest userName = some p)
  | _ => True

structure Invariant (s : Clients κ) : Prop where
  /-- The flag of an account was set for its registration. -/
  flag : ∀ u, (s.store.hash u).verify ≠ none → (u, s.deleted u) ∈ s.verified
  password : ∀ u p, (s.store.hash u).password = some p → s.latest u = some p
  aware : ∀ k, s.Aware (s.phase k)

/-- What has happened in between. -/
structure Later (s s' : Clients κ) : Prop where
  verified : ∀ v ∈ s.verified, v ∈ s'.verified
  written : ∀ u, s.written u ≤ s'.written u
  latest : ∀ u, s'.written u = s.written u → s'.latest u = s.latest u

section
variable {s s' : Clients κ}

omit [DecidableEq κ] in
theorem Later.refl (s : Clients κ) : Later s s := ⟨fun _ h => h, fun _ => le_refl _, fun _ _ => rfl⟩

omit [DecidableEq κ] in
theorem Later.aware (h : Later s s') {phase : Phase} (hphase : s.Aware phase) : s'.Aware phase := by
  cases phase with
  | loginPassword u p seen => exact h.verified _ hphase
  | loginName u p seen written =>
    obtain ⟨hseen, hle, hlatest⟩ := hphase
    refine ⟨h.verified _ hseen, hle.trans (h.written u), fun heq => ?_⟩
    have hle' := h.written u
    have hsame : s'.written u = s.written u := by omega
    rw [h.latest u hsame]
    exact hlatest (hsame.symm.trans heq)
  | _ => trivial

namespace Invariant

omit [DecidableEq κ] in
theorem start : Invariant (start : Clients κ) where
  flag _ h := absurd rfl h
  password _ _ h := by cases h
  aware _ := trivial

/-- A call of the client `k`, after which it is at `phase`. -/
theorem goto (h : Invariant s) (hlater : Later s s') (hsame : s'.phase = s.phase)
    (hflag : ∀ u, (s'.store.hash u).verify ≠ none → (u, s'.deleted u) ∈ s'.verified)
    (hpassword : ∀ u p, (s'.store.hash u).password = some p → s'.latest u = some p) {k : κ}
    {phase : Phase} (hphase : s'.Aware phase) : Invariant (s'.goto k phase) where
  flag := hflag
  password := hpassword
  aware k' := by
    show s'.Aware (update s'.phase k phase k')
    rw [Function.update_apply]
    split
    · exact hphase
    · rw [hsame]
      exact hlater.aware (h.aware k')

/-- A call that leaves the server as it is. -/
theorem read (h : Invariant s) {k : κ} {phase : Phase} (hphase : s.Aware phase) :
    Invariant (s.goto k phase) :=
  h.goto (Later.refl s) rfl h.flag h.password hphase

/-- A call that writes neither a flag nor a password. -/
theorem write (h : Invariant s) {store : Store}
    (hverify : ∀ u, (store.hash u).verify = (s.store.hash u).verify)
    (hpassword : ∀ u, (store.hash u).password = (s.store.hash u).password) {k : κ} {phase : Phase}
    (hphase : s.Aware phase) : Invariant ((s.write store).goto k phase) := by
  have hlater : Later s (s.write store) := ⟨fun _ h => h, fun _ => le_refl _, fun _ _ => rfl⟩
  exact h.goto hlater rfl
    (fun u hu => h.flag u (hverify u ▸ hu)) (fun u p hu => h.password u p (hpassword u ▸ hu)) hphase

theorem writePassword (h : Invariant s) {k : κ} {userName password : String} {phase : Phase}
    (hphase : (s.writePassword userName password).Aware phase) :
    Invariant ((s.writePassword userName password).goto k phase) := by
  have hlater : Later s (s.writePassword userName password) := by
    refine ⟨fun _ h => h, fun u => ?_, fun u hu => ?_⟩
    · show s.written u ≤ update s.written userName (s.written userName + 1) u
      rw [Function.update_apply]
      split
      · next hu =>
        rw [hu]
        exact Nat.le_succ _
      · exact le_refl _
    · show update s.latest userName (some password) u = s.latest u
      change update s.written userName (s.written userName + 1) u = s.written u at hu
      rw [Function.update_apply] at hu ⊢
      split at hu
      · next heq =>
        rw [heq] at hu
        omega
      · next hne => exact if_neg hne
  refine h.goto hlater rfl (fun u hu => h.flag u ?_) (fun u p hu => ?_) hphase
  · change ((s.store.setPassword userName password).hash u).verify ≠ none at hu
    rwa [Store.setPassword_verify] at hu
  · change ((s.store.setPassword userName password).hash u).password = some p at hu
    show update s.latest userName (some password) u = some p
    rw [Store.setPassword_password] at hu
    rw [Function.update_apply]
    split at hu
    · next heq => rw [if_pos heq, hu]
    · next hne =>
      rw [if_neg hne]
      exact h.password u p hu

theorem writeFlag (h : Invariant s) {k : κ} {userName : String} {phase : Phase}
    (hphase : (s.writeFlag userName (s.deleted userName)).Aware phase) :
    Invariant ((s.writeFlag userName (s.deleted userName)).goto k phase) := by
  have hlater : Later s (s.writeFlag userName (s.deleted userName)) :=
    ⟨fun _ h => List.mem_cons_of_mem _ h, fun _ => le_refl _, fun _ _ => rfl⟩
  refine h.goto hlater rfl (fun u hu => ?_) (fun u p hu => h.password u p ?_) hphase
  · change ((s.store.setVerify userName).hash u).verify ≠ none at hu
    show (u, s.deleted u) ∈ (userName, s.deleted userName) :: s.verified
    rw [Store.setVerify_verify] at hu
    split at hu
    · next heq =>
      rw [heq]
      exact List.mem_cons_self
    · exact List.mem_cons_of_mem _ (h.flag u hu)
  · change ((s.store.setVerify userName).hash u).password = some p at hu
    rwa [Store.setVerify_password] at hu

/-- The next registration starts without a flag. -/
theorem hdel (h : Invariant s) {k : κ} {userName : String} {phase : Phase}
    (hphase : (s.hdel userName).Aware phase) : Invariant ((s.hdel userName).goto k phase) := by
  have hlater : Later s (s.hdel userName) := ⟨fun _ h => h, fun _ => le_refl _, fun _ _ => rfl⟩
  refine h.goto hlater rfl (fun u hu => ?_) (fun u p hu => h.password u p ?_) hphase
  · change ((s.store.hdel userName).hash u).verify ≠ none at hu
    show (u, update s.deleted userName _ u) ∈ s.verified
    rw [Store.hdel_hash] at hu
    split at hu
    · exact absurd rfl hu
    · next hne =>
      rw [Function.update_of_ne hne]
      exact h.flag u hu
  · change ((s.store.hdel userName).hash u).password = some p at hu
    rw [Store.hdel_hash] at hu
    split at hu
    · cases hu
    · exact hu

theorem step {l : Label κ} (h : Invariant s) (hs : Step s l s') (hclean : s.Clean l) :
    Invariant s' := by
  cases hs with
  | call => exact h.read (by cases ‹Method› <;> trivial)
  | fail => exact h.read trivial
  | registExsist => exact h.read (by split <;> trivial)
  | registUserName =>
    refine h.write (fun u => ?_) (fun u => ?_) ?_
    · exact Store.setUserName_verify ..
    · exact Store.setUserName_password ..
    · trivial
  | registPassword => exact h.writePassword trivial
  | registName =>
    refine h.write (fun u => ?_) (fun u => ?_) ?_
    · exact Store.setName_verify ..
    · exact Store.setName_password ..
    · trivial
  | registKey =>
    refine h.write (fun u => ?_) (fun u => ?_) ?_
    · rfl
    · rfl
    · trivial
  | modifyExsist => exact h.read (by split <;> trivial)
  | modifyPassword => exact h.writePassword trivial
  | verifyExsist => exact h.read (by split <;> trivial)
  | @verifyFlag k userName seen hphase =>
    have hseen := hclean k rfl
    rw [hphase] at hseen
    obtain rfl : s.deleted userName = seen := hseen
    exact h.writeFlag trivial
  | delExsist => exact h.read (by split <;> trivial)
  | delFields => exact h.hdel trivial
  | delKey =>
    refine h.write (fun u => ?_) (fun u => ?_) ?_
    · rfl
    · rfl
    · trivial
  | @loginVerify k userName password hphase =>
    refine h.read ?_
    split
    · next hverify =>
      refine h.flag userName fun hnone => ?_
      rw [hnone] at hverify
      cases hverify
    · trivial
  | @loginPassword k userName password seen hphase =>
    have hseen := h.aware k
    have hpassword := hclean k rfl
    rw [hphase] at hseen hpassword
    refine h.read ?_
    split
    · next heq =>
      refine ⟨hseen, le_refl _, fun _ => ?_⟩
      cases password with
      | none => exact absurd heq (hpassword rfl)
      | some p => exact ⟨p, rfl, h.password userName p heq⟩
    · trivial
  | loginName => exact h.read trivial

omit [DecidableEq κ] in
/-- A clean log-in. -/
theorem needed {l : Label κ} (h : Invariant s) (hclean : s.Clean l) : s.Needed l := by
  intro k userName password seen written name hl hphase hname
  have hundisturbed := hclean k hl
  have haware := h.aware k
  rw [hphase] at hundisturbed haware
  obtain ⟨hdeleted, hwritten⟩ := hundisturbed (by rw [hname]; exact Option.some_ne_none name)
  obtain ⟨hseen, -, hlatest⟩ := haware
  exact ⟨hlatest hwritten, hdeleted ▸ hseen⟩

end Invariant

end

/-- **Runs of clean steps**: every log-in has the latest password and a verified registration. -/
theorem needed_run {ls : List (Label κ)} {s : Clients κ}
    (h : Run (fun s l s' => Step s l s' ∧ s.Clean l) start ls s) :
    Run (fun s l s' => Step s l s' ∧ s.Needed l) start ls s :=
  (h.simulate (f := id) _ Invariant.start fun _ _ _ hi hs =>
    ⟨hi.step hs.1 hs.2, hs.1, hi.needed hs.2⟩).2

/-- A user registers, is verified and logs in. -/
theorem needed_verified : ∃ s : Clients Unit,
    Run (fun s l s' => Step s l s' ∧ s.Needed l) start
      [.call () (.regist ⟨"u", some "p", some "n"⟩), .redis (), .redis (), .redis (), .redis (),
        .redis (), .call () (.verify "u"), .redis (), .redis (),
        .call () (.login "u" (some "p")), .redis (), .redis (), .redis ()] s ∧
      s.phase () = .done (some (.string (some "n"))) := by
  have hclean {s : Clients Unit} {l : Label Unit} {phase : Phase} (hphase : s.phase () = phase)
      (h : s.Undisturbed phase) : s.Clean l := fun _ _ => hphase ▸ h
  have h₁ : Run (fun s l s' => Step s l s' ∧ s.Clean l) (start : Clients Unit)
      [.call () (.regist ⟨"u", some "p", some "n"⟩)] _ := Run.nil.snoc ⟨.call rfl, hclean rfl trivial⟩
  have h₂ := h₁.snoc ⟨.registExsist (k := ()) rfl, hclean rfl trivial⟩
  have h₃ := h₂.snoc ⟨.registUserName (k := ()) rfl, hclean rfl trivial⟩
  have h₄ := h₃.snoc ⟨.registPassword (k := ()) rfl rfl, hclean rfl trivial⟩
  have h₅ := h₄.snoc ⟨.registName (k := ()) rfl rfl, hclean rfl trivial⟩
  have h₆ := h₅.snoc ⟨.registKey (k := ()) rfl, hclean rfl trivial⟩
  have h₇ : Run _ _ (_ ++ [Label.call () (.verify "u")]) _ :=
    h₆.snoc ⟨.call rfl, hclean rfl trivial⟩
  have h₈ := h₇.snoc ⟨.verifyExsist (k := ()) rfl, hclean rfl trivial⟩
  have h₉ := h₈.snoc ⟨.verifyFlag (k := ()) rfl, hclean rfl rfl⟩
  have h₁₀ : Run _ _ (_ ++ [Label.call () (.login "u" (some "p"))]) _ :=
    h₉.snoc ⟨.call rfl, hclean rfl trivial⟩
  have h₁₁ := h₁₀.snoc ⟨.loginVerify (k := ()) rfl, hclean rfl trivial⟩
  have h₁₂ := h₁₁.snoc ⟨.loginPassword (k := ()) rfl, hclean rfl (by intro h; cases h)⟩
  have h₁₃ := h₁₂.snoc ⟨.loginName (k := ()) rfl, hclean rfl (fun _ => ⟨rfl, rfl⟩)⟩
  exact ⟨_, needed_run h₁₃, rfl⟩

/-- The verification has seen the registration before. -/
theorem not_needed_stale : ¬ ∀ (ls : List (Label Bool)) (s : Clients Bool), Run Step start ls s →
    ∀ l s', Step s l s' → s.Needed l := by
  intro h
  have h₁ : Run Step (start : Clients Bool) [.call true (.regist ⟨"u", some "p", some "n"⟩)] _ :=
    Run.nil.snoc (.call rfl)
  have h₂ := h₁.snoc (.registExsist (k := true) rfl)
  have h₃ := h₂.snoc (.registUserName (k := true) rfl)
  have h₄ := h₃.snoc (.registPassword (k := true) rfl rfl)
  have h₅ := h₄.snoc (.registName (k := true) rfl rfl)
  have h₆ := h₅.snoc (.registKey (k := true) rfl)
  have h₇ : Run _ _ (_ ++ [Label.call false (.verify "u")]) _ := h₆.snoc (.call rfl)
  have h₈ := h₇.snoc (.verifyExsist (k := false) rfl)
  have h₉ : Run _ _ (_ ++ [Label.call true (.del "u")]) _ := h₈.snoc (.call rfl)
  have h₁₀ := h₉.snoc (.delExsist (k := true) rfl)
  have h₁₁ := h₁₀.snoc (.delFields (k := true) rfl)
  have h₁₂ := h₁₁.snoc (.delKey (k := true) rfl)
  have h₁₃ : Run _ _ (_ ++ [Label.call true (.regist ⟨"u", some "q", some "m"⟩)]) _ :=
    h₁₂.snoc (.call rfl)
  have h₁₄ := h₁₃.snoc (.registExsist (k := true) rfl)
  have h₁₅ := h₁₄.snoc (.registUserName (k := true) rfl)
  have h₁₆ := h₁₅.snoc (.registPassword (k := true) rfl rfl)
  have h₁₇ := h₁₆.snoc (.registName (k := true) rfl rfl)
  have h₁₈ := h₁₇.snoc (.registKey (k := true) rfl)
  have h₁₉ := h₁₈.snoc (.verifyFlag (k := false) rfl)
  have h₂₀ : Run _ _ (_ ++ [Label.call true (.login "u" (some "q"))]) _ := h₁₉.snoc (.call rfl)
  have h₂₁ := h₂₀.snoc (.loginVerify (k := true) rfl)
  have h₂₂ := h₂₁.snoc (.loginPassword (k := true) rfl)
  have hneeded := h _ _ h₂₂ _ _ (.loginName (k := true) rfl)
  obtain ⟨-, hverified⟩ := hneeded true "u" (some "q") 1 2 "m" rfl rfl rfl
  cases List.mem_singleton.1 hverified

end Clients

end BaseService.BaseServer
