import BaseService.Java

/-!
# `Connections`

The open connections of a client, by host and port and in one list.

* `getKey_inj` : the key of a host and a port is that of no others;
* `Connections` : both tables, which agree; `addConnection`, `remove`;
* `connectionSize_eq` : `connectionSize` counts the connections in the list.
-/

namespace BaseService.Notify.NSQClient
open Function (update)

/-- A connection of a client, which is an object of its own. -/
structure Connection where
  id : Nat
  host : String
  port : Int
  deriving DecidableEq, Repr

def getKey (host : String) (port : Int) : String := host ++ ":" ++ toString port

def Connection.key (this : Connection) : String := getKey this.host this.port

/-- It has this host and port. -/
def Connection.IsTo (this : Connection) (host : String) (port : Int) : Bool :=
  this.host = host ∧ this.port = port

/-! ## Keys -/

theorem toList_toString (port : Int) : ∃ n : Nat,
    (toString port).toList = Nat.toDigits 10 n ∧ port = n ∨
      (toString port).toList = '-' :: Nat.toDigits 10 n ∧ port = -n := by
  cases port with
  | ofNat n => exact ⟨n, .inl ⟨Nat.toList_repr, rfl⟩⟩
  | negSucc n =>
    refine ⟨n + 1, .inr ⟨?_, Int.negSucc_eq n⟩⟩
    rw [show toString (Int.negSucc n) = "-" ++ Nat.repr (n + 1) from rfl, String.toList_append,
      Nat.toList_repr]
    rfl

theorem not_mem_toString (port : Int) : ':' ∉ (toString port).toList := by
  intro h
  have hdigits (n : Nat) : ':' ∉ Nat.toDigits 10 n := fun hmem =>
    absurd (Long.isDigit_of_mem hmem) (by decide)
  obtain ⟨n, ⟨hlist, -⟩ | ⟨hlist, -⟩⟩ := toList_toString port
  · exact hdigits n (hlist ▸ h)
  · rw [hlist, List.mem_cons] at h
    exact h.elim (by decide) (hdigits n)

theorem toString_inj {port port' : Int} (h : toString port = toString port') : port = port' := by
  have hdigits {n n' : Nat} (hn : Nat.toDigits 10 n = Nat.toDigits 10 n') : n = n' := by
    have hread := Long.readDigits_toDigits n
    rw [hn, Long.readDigits_toDigits] at hread
    exact (Option.some.inj hread).symm
  have hminus (n n' : Nat) : Nat.toDigits 10 n ≠ '-' :: Nat.toDigits 10 n' := fun hn =>
    absurd (Long.isDigit_of_mem (n := n) (c := '-') (by simp [hn])) (by decide)
  obtain ⟨n, ⟨hlist, rfl⟩ | ⟨hlist, rfl⟩⟩ := toList_toString port <;>
    obtain ⟨n', ⟨hlist', rfl⟩ | ⟨hlist', rfl⟩⟩ := toList_toString port' <;>
    rw [h, hlist'] at hlist
  · rw [hdigits hlist]
  · exact absurd hlist.symm (hminus _ _)
  · exact absurd hlist (hminus _ _)
  · rw [hdigits (List.cons.inj hlist).2]

/-- What comes before the last separator. -/
theorem append_cons_inj {α : Type} {sep : α} {l l' r r' : List α} (hr : sep ∉ r) (hr' : sep ∉ r')
    (h : l ++ sep :: r = l' ++ sep :: r') : l = l' ∧ r = r' := by
  rcases List.append_eq_append_iff.mp h with ⟨m, rfl, hm⟩ | ⟨m, rfl, hm⟩
  · cases m with
    | nil => simpa using hm
    | cons a m =>
      rw [List.cons_append, List.cons.injEq] at hm
      exact absurd (hm.2 ▸ List.mem_append_right m List.mem_cons_self) hr
  · cases m with
    | nil => simpa [eq_comm] using hm
    | cons a m =>
      rw [List.cons_append, List.cons.injEq] at hm
      exact absurd (hm.2 ▸ List.mem_append_right m List.mem_cons_self) hr'

/-- **Two addresses have different keys.** -/
theorem getKey_inj {host host' : String} {port port' : Int} (h : getKey host port = getKey host' port') :
    host = host' ∧ port = port' := by
  have hlist := congrArg String.toList h
  simp only [getKey, String.toList_append, List.append_assoc] at hlist
  obtain ⟨hhost, hport⟩ := append_cons_inj (not_mem_toString port) (not_mem_toString port') hlist
  exact ⟨String.toList_inj.mp hhost, toString_inj (String.toList_inj.mp hport)⟩

theorem Connection.key_eq_iff {this : Connection} {host : String} {port : Int} :
    this.key = getKey host port ↔ this.IsTo host port = true := by
  unfold Connection.IsTo
  rw [decide_eq_true_iff]
  constructor
  · exact getKey_inj
  · rintro ⟨rfl, rfl⟩
    rfl

/-! ## The tables -/

structure Connections where
  connections : String → Option (List Connection)
  connectionList : List Connection
  nodup : connectionList.Nodup
  filed : ∀ key, (connections key).getD [] = connectionList.filter fun c => c.key = key

namespace Connections

def empty : Connections := ⟨fun _ => none, [], List.nodup_nil, fun _ => rfl⟩

theorem filed_add (this : Connections) (c : Connection) (key : String) :
    (update this.connections c.key (some ((this.connections c.key).getD [] ++ [c])) key).getD [] =
      (this.connectionList ++ [c]).filter fun c' => c'.key = key := by
  rw [List.filter_append]
  by_cases hkey : key = c.key
  · subst hkey
    simp [this.filed]
  · rw [Function.update_of_ne hkey, this.filed]
    simp [Ne.symm hkey]

/-- `addConnection` ignores null. -/
def addConnection (this : Connections) : Option Connection → Connections
  | none => this
  | some c =>
    if h : c ∈ this.connectionList then this
    else
      { connections := update this.connections c.key (some ((this.connections c.key).getD [] ++ [c]))
        connectionList := this.connectionList ++ [c]
        nodup := by
          rw [← List.concat_eq_append]
          exact this.nodup.concat h
        filed := this.filed_add c }

/-- The list of a key, which is dropped when it is empty. -/
def orNull (conn : List Connection) : Option (List Connection) := if conn = [] then none else some conn

theorem getD_orNull (conn : List Connection) : (orNull conn).getD [] = conn := by
  unfold orNull
  split <;> simp_all

theorem filed_remove (this : Connections) (c : Connection) (key : String) :
    (update this.connections c.key (orNull (((this.connections c.key).getD []).erase c)) key).getD [] =
      (this.connectionList.erase c).filter fun c' => c'.key = key := by
  rw [List.Nodup.erase_eq_filter this.nodup, List.filter_filter]
  by_cases hkey : key = c.key
  · subst hkey
    rw [Function.update_self, getD_orNull, this.filed,
      List.Nodup.erase_eq_filter (this.nodup.filter _), List.filter_filter]
    simp only [Bool.and_comm]
  · rw [Function.update_of_ne hkey, this.filed]
    refine List.filter_congr fun c' _ => ?_
    by_cases hc : c' = c
    · subst hc
      simp [Ne.symm hkey]
    · simp [hc]

def remove (this : Connections) (c : Connection) : Connections :=
  if c ∈ this.connectionList then
    { connections :=
        update this.connections c.key (orNull (((this.connections c.key).getD []).erase c))
      connectionList := this.connectionList.erase c
      nodup := this.nodup.erase c
      filed := this.filed_remove c }
  else this

def connectionSize (this : Connections) (host : String) (port : Int) : Nat :=
  match this.connections (getKey host port) with
  | none => 0
  | some c => c.length

variable {this : Connections} {c : Connection}

/-- **The size of an address**: the connections to it in the list. -/
theorem connectionSize_eq (this : Connections) (host : String) (port : Int) :
    this.connectionSize host port = this.connectionList.countP fun c => c.IsTo host port := by
  have hsize : this.connectionSize host port = ((this.connections (getKey host port)).getD []).length := by
    unfold connectionSize
    cases this.connections (getKey host port) <;> rfl
  rw [hsize, this.filed, ← List.countP_eq_length_filter]
  refine List.countP_congr fun c _ => ?_
  rw [decide_eq_true_iff, Connection.key_eq_iff]

theorem addConnection_list (h : c ∉ this.connectionList) :
    (this.addConnection (some c)).connectionList = this.connectionList ++ [c] := by
  simp [addConnection, h]

theorem remove_list (this : Connections) (c : Connection) :
    (this.remove c).connectionList = this.connectionList.filter fun c' => c' ≠ c := by
  unfold remove
  split
  · dsimp only
    rw [List.Nodup.erase_eq_filter this.nodup]
    exact List.filter_congr fun c' _ => by rw [bne, beq_eq_decide, decide_not]
  · next h =>
    refine (List.filter_eq_self.mpr fun c' hc' => ?_).symm
    simp only [decide_eq_true_eq]
    rintro rfl
    exact h hc'

/-- Removing each of `cs` leaves the others. -/
theorem foldl_remove_list (this : Connections) (cs : List Connection) :
    (cs.foldl remove this).connectionList = this.connectionList.filter fun c => c ∉ cs := by
  induction cs generalizing this with
  | nil => simp
  | cons c cs ih =>
    rw [List.foldl_cons, ih, remove_list, List.filter_filter]
    exact List.filter_congr fun c' _ => by simp [Bool.and_comm]

end Connections

end BaseService.Notify.NSQClient
