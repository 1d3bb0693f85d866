import BaseService.Data.Runs
import BaseService.Notify.Connections

/-!
# `AbstractNSQClient`

`createConnection` returns null if the connection is refused. A producer ignores it; the method of a
consumer goes on with it.

* `NSQClient`, `connect`, `call` : a client with its timer, and the calls of `connect`;
* `connectAll_ok`, `connectAll_error` : how its loops end;
* `NSQClient.Step` : these calls, and what becomes of the connections;
* `Served` : a call returns, with enough connections to each reachable address and a timer that goes on;
* `served_iff` : the runs in which each call does.
-/

namespace BaseService.Notify
open Function (update)

namespace NSQClient

inductive Kind
  | consumer
  | producer
  deriving DecidableEq, Repr

structure ConnectionAddress where
  host : String
  port : Int
  poolsize : Int
  deriving DecidableEq, Repr

inductive Timer
  | null
  | running
  /-- A task has thrown. -/
  | dead
  deriving DecidableEq, Repr

/-- What a call of `connect` finds. It takes less than two minutes. -/
structure Network where
  /-- The addresses that are looked up. -/
  addresses : List ConnectionAddress
  refuses : String → Int → Bool
  now : Int

/-- Who calls `connect`. -/
inductive Caller
  | start
  | timerTask
  | getConn
  deriving DecidableEq, Repr

end NSQClient

open NSQClient in
structure NSQClient where
  kind : Kind
  connections : Connections
  /-- The connections made so far, and their heartbeats. -/
  created : Nat
  lastHeartbeat : Nat → Int
  timer : Timer

namespace NSQClient

def new (kind : Kind) : NSQClient := ⟨kind, .empty, 0, fun _ => 0, .null⟩

/-- `createConnection`; that of a consumer subscribes. -/
def createConnection (this : NSQClient) (net : Network) (address : String) (port : Int) :
    Outcome (Option Connection) :=
  if net.refuses address port then
    match this.kind with
    | .consumer => .error .nullPointer
    | .producer => .ok none
  else .ok (some ⟨this.created, address, port⟩)

/-- A new connection has just had its heartbeat. -/
def addConnection (this : NSQClient) (net : Network) : Option Connection → NSQClient
  | none => this
  | some conn => { this with
    connections := this.connections.addConnection (some conn)
    created := this.created + 1
    lastHeartbeat := update this.lastHeartbeat conn.id net.now }

/-- The inner loop of `connect`, with `num` rounds to go. -/
def fill (net : Network) (addr : ConnectionAddress) : Nat → NSQClient → Outcome Unit × NSQClient
  | 0, this => (.ok (), this)
  | num + 1, this =>
    match this.createConnection net addr.host addr.port with
    | .error e => (.error e, this)
    | .ok conn => fill net addr num (this.addConnection net conn)

/-- The outer loop. -/
def connectAll (net : Network) : List ConnectionAddress → NSQClient → Outcome Unit × NSQClient
  | [], this => (.ok (), this)
  | addr :: addresses, this =>
    -- no overflow, unless `poolsize` is far below zero
    let num := addr.poolsize - this.connections.connectionSize addr.host addr.port
    match fill net addr num.toNat this with
    | (.error e, this) => (.error e, this)
    | (.ok _, this) => connectAll net addresses this

/-- There was no ping in the last two minutes. -/
def isOld (this : NSQClient) (now : Int) (c : Connection) : Bool :=
  this.lastHeartbeat c.id < now - 1000 * 60 * 2

def cleanupOldConnections (this : NSQClient) (now : Int) : NSQClient :=
  { this with
    connections :=
      (this.connections.connectionList.filter (this.isOld now)).foldl .remove this.connections }

def connect (this : NSQClient) (net : Network) : Outcome Unit × NSQClient :=
  match connectAll net net.addresses this with
  | (.error e, this) => (.error e, this)
  | (.ok _, this) => (.ok (), this.cleanupOldConnections net.now)

/-- A timer dies when its task throws. -/
def call (this : NSQClient) (caller : Caller) (net : Network) : Outcome Unit × NSQClient :=
  match caller, this.connect net with
  | .start, (.ok _, this) => (.ok (), { this with timer := .running })
  | .timerTask, (.error e, this) => (.error e, { this with timer := .dead })
  | _, result => result

inductive Label
  | connect (caller : Caller) (net : Network)
  | heartbeat (c : Connection) (now : Int)
  | disconnected (c : Connection)

inductive Step : NSQClient → Label → NSQClient → Prop
  | connect {this : NSQClient} {caller : Caller} {net : Network} :
    (caller = .timerTask → this.timer = .running) → (caller = .getConn → this.kind = .producer) →
      Step this (.connect caller net) (this.call caller net).2
  | heartbeat {this : NSQClient} {c : Connection} {now : Int} :
    Step this (.heartbeat c now) { this with lastHeartbeat := update this.lastHeartbeat c.id now }
  | disconnected {this : NSQClient} {c : Connection} :
    Step this (.disconnected c) { this with connections := this.connections.remove c }

/-! ## The loops -/

/-- The connections to an address, and those of them that have had no ping. -/
def size (this : NSQClient) (host : String) (port : Int) : Nat :=
  this.connections.connectionSize host port

def old (this : NSQClient) (now : Int) (host : String) (port : Int) : Nat :=
  this.connections.connectionList.countP fun c => c.IsTo host port && this.isOld now c

/-- The numbers of the connections. -/
def Numbered (this : NSQClient) : Prop := ∀ c ∈ this.connections.connectionList, c.id < this.created

/-- What `connect` adds: new connections, none to an address that refuses them. -/
structure Adds (net : Network) (s s' : NSQClient) : Prop where
  kind : s'.kind = s.kind
  timer : s'.timer = s.timer
  created : s.created ≤ s'.created
  lastHeartbeat : ∀ i < s.created, s'.lastHeartbeat i = s.lastHeartbeat i
  connections : ∃ new, s'.connections.connectionList = s.connections.connectionList ++ new ∧
    ∀ c ∈ new, s.created ≤ c.id ∧ c.id < s'.created ∧ s'.lastHeartbeat c.id = net.now ∧
      net.refuses c.host c.port = false

variable {net : Network} {addr : ConnectionAddress} {s s' s'' : NSQClient} {n : Nat}

theorem Adds.refl (net : Network) (s : NSQClient) : Adds net s s :=
  ⟨rfl, rfl, le_refl _, fun _ _ => rfl, [], by simp⟩

theorem Adds.trans (h : Adds net s s') (h' : Adds net s' s'') : Adds net s s'' := by
  obtain ⟨new, hlist, hnew⟩ := h.connections
  obtain ⟨new', hlist', hnew'⟩ := h'.connections
  have hle := h.created
  have hle' := h'.created
  refine ⟨h'.kind.trans h.kind, h'.timer.trans h.timer, hle.trans hle', fun i hi => ?_,
    new ++ new', by rw [hlist', hlist, List.append_assoc], fun c hc => ?_⟩
  · rw [h'.lastHeartbeat i (by omega), h.lastHeartbeat i hi]
  · rcases List.mem_append.mp hc with hc | hc
    · obtain ⟨hge, hlt, hbeat, hrefuses⟩ := hnew c hc
      exact ⟨hge, by omega, by rw [h'.lastHeartbeat c.id hlt, hbeat], hrefuses⟩
    · obtain ⟨hge, hlt, hbeat, hrefuses⟩ := hnew' c hc
      exact ⟨by omega, hlt, hbeat, hrefuses⟩

theorem Adds.numbered (h : Adds net s s') (hs : Numbered s) : Numbered s' := by
  obtain ⟨new, hlist, hnew⟩ := h.connections
  intro c hc
  rw [hlist] at hc
  rcases List.mem_append.mp hc with hc | hc
  · exact (hs c hc).trans_le h.created
  · exact (hnew c hc).2.1

theorem size_eq (s : NSQClient) (host : String) (port : Int) :
    s.size host port = s.connections.connectionList.countP fun c => c.IsTo host port :=
  s.connections.connectionSize_eq host port

/-- Nothing is added to an address that refuses. -/
theorem Adds.size_refused (h : Adds net s s') {host : String} {port : Int}
    (hrefuses : net.refuses host port = true) : s'.size host port = s.size host port := by
  obtain ⟨new, hlist, hnew⟩ := h.connections
  have hnone : (new.countP fun c => c.IsTo host port) = 0 := by
    rw [List.countP_eq_zero]
    intro c hc hto
    obtain ⟨rfl, rfl⟩ := of_decide_eq_true hto
    simp [(hnew c hc).2.2.2] at hrefuses
  rw [size_eq, size_eq, hlist, List.countP_append, hnone]
  omega

/-- The new connections are not old. -/
theorem Adds.old (h : Adds net s s') (hs : Numbered s) (host : String) (port : Int) :
    s'.old net.now host port = s.old net.now host port := by
  obtain ⟨new, hlist, hnew⟩ := h.connections
  have hnone : (new.countP fun c => c.IsTo host port && s'.isOld net.now c) = 0 := by
    rw [List.countP_eq_zero]
    intro c hc
    simp [isOld, (hnew c hc).2.2.1]
  unfold NSQClient.old
  rw [hlist, List.countP_append, hnone]
  refine List.countP_congr fun c hc => ?_
  unfold isOld
  rw [h.lastHeartbeat c.id (hs c hc)]

/-- One connection to an address that does not refuse it. -/
theorem adds_addConnection (hs : Numbered s) (hrefuses : net.refuses addr.host addr.port = false) :
    Adds net s (s.addConnection net (some ⟨s.created, addr.host, addr.port⟩)) ∧
      ∀ host port, (s.addConnection net (some ⟨s.created, addr.host, addr.port⟩)).size host port =
        s.size host port + if addr.host = host ∧ addr.port = port then 1 else 0 := by
  have hfresh : (⟨s.created, addr.host, addr.port⟩ : Connection) ∉ s.connections.connectionList :=
    fun hmem => absurd (hs _ hmem) (lt_irrefl _)
  have hlist := Connections.addConnection_list hfresh
  refine ⟨⟨rfl, rfl, Nat.le_succ _, fun i hi => ?_, _, hlist, fun c hc => ?_⟩, fun host port => ?_⟩
  · exact Function.update_of_ne hi.ne ..
  · cases List.mem_singleton.mp hc
    exact ⟨le_refl _, Nat.lt_succ_self _, Function.update_self .., hrefuses⟩
  · rw [size_eq, size_eq]
    unfold addConnection
    dsimp only
    rw [hlist, List.countP_append, List.countP_singleton]
    simp [Connection.IsTo]

/-- The inner loop, when it does not meet null or ignores it. -/
theorem fill_ok (hs : Numbered s)
    (h : net.refuses addr.host addr.port = true → s.kind = .producer ∨ n = 0) :
    ∃ s', fill net addr n s = (.ok (), s') ∧ Adds net s s' ∧
      ∀ host port, s'.size host port = s.size host port +
        if addr.host = host ∧ addr.port = port ∧ net.refuses host port = false then n else 0 := by
  induction n generalizing s with
  | zero => exact ⟨s, rfl, .refl net s, by simp⟩
  | succ n ih =>
    unfold fill createConnection
    cases hrefuses : net.refuses addr.host addr.port with
    | true =>
      have hkind : s.kind = .producer := by simpa using h hrefuses
      obtain ⟨s', hfill, hadds, hsize⟩ := ih hs fun _ => .inl hkind
      rw [if_pos rfl, hkind]
      refine ⟨s', hfill, hadds, fun host port => ?_⟩
      have hno : ¬ (addr.host = host ∧ addr.port = port ∧ net.refuses host port = false) := by
        rintro ⟨rfl, rfl, hok⟩
        rw [hrefuses] at hok
        cases hok
      rw [hsize, if_neg hno, if_neg hno]
    | false =>
      obtain ⟨hadds, hsize⟩ := adds_addConnection hs hrefuses
      obtain ⟨s', hfill, hadds', hsize'⟩ := ih (hadds.numbered hs) fun h => by simp [hrefuses] at h
      refine ⟨s', hfill, hadds.trans hadds', fun host port => ?_⟩
      rw [hsize', hsize]
      by_cases hto : addr.host = host ∧ addr.port = port
      · obtain ⟨rfl, rfl⟩ := hto
        simp [hrefuses]
        omega
      · simp [← and_assoc, hto]

theorem fill_error (hkind : s.kind = .consumer) (hrefuses : net.refuses addr.host addr.port = true)
    (hn : 0 < n) : (fill net addr n s).1 = .error .nullPointer := by
  obtain ⟨n, rfl⟩ := Nat.exists_eq_add_one.mpr hn
  unfold fill createConnection
  rw [if_pos hrefuses, hkind]

/-- **The outer loop fills the pools**: those of the addresses that do not refuse. -/
theorem connectAll_ok {addresses : List ConnectionAddress} (hs : Numbered s)
    (h : s.kind = .consumer → ∀ addr ∈ addresses, net.refuses addr.host addr.port = true →
      addr.poolsize ≤ s.size addr.host addr.port) :
    ∃ s', connectAll net addresses s = (.ok (), s') ∧ Adds net s s' ∧
      ∀ host port (x : Int), net.refuses host port = false →
        (x ≤ s'.size host port ↔ x ≤ s.size host port ∨
          ∃ addr ∈ addresses, addr.host = host ∧ addr.port = port ∧ x ≤ addr.poolsize) := by
  induction addresses generalizing s with
  | nil => exact ⟨s, rfl, .refl net s, by simp⟩
  | cons addr addresses ih =>
    rw [List.forall_mem_cons] at h
    have hnum : net.refuses addr.host addr.port = true → s.kind = .producer ∨
        (addr.poolsize - s.size addr.host addr.port).toNat = 0 := by
      intro hrefuses
      cases hkind : s.kind with
      | producer => exact .inl rfl
      | consumer =>
        have hle := (h hkind).1 hrefuses
        exact .inr (by omega)
    obtain ⟨s₁, hfill, hadds, hsize⟩ := fill_ok hs hnum
    obtain ⟨s', hall, hadds', hsize'⟩ := ih (hadds.numbered hs) fun hkind addr' hmem hrefuses => by
      rw [hadds.size_refused hrefuses]
      exact (h (hadds.kind ▸ hkind)).2 addr' hmem hrefuses
    refine ⟨s', ?_, hadds.trans hadds', fun host port x hok => ?_⟩
    · unfold connectAll
      dsimp only
      unfold size at hfill
      rw [hfill]
      exact hall
    · rw [hsize' host port x hok, hsize]
      simp only [List.mem_cons, exists_eq_or_imp, ← or_assoc]
      refine or_congr_left ?_
      by_cases hto : addr.host = host ∧ addr.port = port
      · obtain ⟨rfl, rfl⟩ := hto
        rw [if_pos ⟨rfl, rfl, hok⟩]
        simp only [true_and]
        omega
      · rw [if_neg fun hno => hto ⟨hno.1, hno.2.1⟩]
        simp only [← and_assoc, hto, false_and, or_false, Nat.add_zero]

/-- It throws at an address that refuses a consumer. -/
theorem connectAll_error {addresses : List ConnectionAddress} (hs : Numbered s)
    (hkind : s.kind = .consumer) (hmem : addr ∈ addresses)
    (hrefuses : net.refuses addr.host addr.port = true)
    (hpool : s.size addr.host addr.port < addr.poolsize) :
    (connectAll net addresses s).1 = .error .nullPointer := by
  induction addresses generalizing s with
  | nil => cases hmem
  | cons addr' addresses ih =>
    unfold connectAll
    dsimp only
    by_cases hhead : net.refuses addr'.host addr'.port = true ∧
        s.size addr'.host addr'.port < addr'.poolsize
    · have hfill : (fill net addr' (addr'.poolsize - s.size addr'.host addr'.port).toNat s).1 =
          .error .nullPointer := fill_error hkind hhead.1 (by omega)
      unfold size at hfill
      split
      · next heq => rwa [heq] at hfill
      · next heq =>
        rw [heq] at hfill
        cases hfill
    · have hnum : net.refuses addr'.host addr'.port = true → s.kind = .producer ∨
          (addr'.poolsize - s.size addr'.host addr'.port).toNat = 0 := by
        intro hrefuses'
        by_contra hpos
        exact hhead ⟨hrefuses', by omega⟩
      obtain ⟨s₁, hfill, hadds, -⟩ := fill_ok hs hnum
      unfold size at hfill
      rw [hfill]
      rcases List.mem_cons.mp hmem with rfl | hmem
      · exact absurd ⟨hrefuses, hpool⟩ hhead
      · refine ih (hadds.numbered hs) (hadds.kind.trans hkind) hmem ?_
        rwa [hadds.size_refused hrefuses]

/-! ## A call -/

theorem cleanup_list (s : NSQClient) (now : Int) :
    (s.cleanupOldConnections now).connections.connectionList =
      s.connections.connectionList.filter fun c => !s.isOld now c := by
  unfold cleanupOldConnections
  dsimp only
  rw [Connections.foldl_remove_list]
  exact List.filter_congr fun c hc => by simp [hc]

/-- The old connections are removed. -/
theorem size_cleanup (s : NSQClient) (now : Int) (host : String) (port : Int) :
    (s.cleanupOldConnections now).size host port + s.old now host port = s.size host port := by
  rw [size_eq, size_eq, cleanup_list, List.countP_filter]
  unfold old
  induction s.connections.connectionList with
  | nil => rfl
  | cons c cs ih =>
    simp only [List.countP_cons]
    cases c.IsTo host port <;> cases s.isOld now c <;> simp <;> omega

/-- The call returns; each address that does not refuse has its pool, and the timer goes on. -/
structure Served (caller : Caller) (net : Network) (result : Outcome Unit × NSQClient) : Prop where
  returned : result.1 = .ok ()
  connected : ∀ addr ∈ net.addresses, net.refuses addr.host addr.port = false →
    addr.poolsize ≤ result.2.size addr.host addr.port
  timer : caller ≠ .getConn → result.2.timer = .running

/-- What it takes: a consumer needs no connection to an address that refuses it, and an address that
does not has enough connections without the old ones, or is looked up with a pool as large. -/
structure Servable (s : NSQClient) (net : Network) : Prop where
  refused : s.kind = .consumer → ∀ addr ∈ net.addresses, net.refuses addr.host addr.port = true →
    addr.poolsize ≤ s.size addr.host addr.port
  connected : ∀ addr ∈ net.addresses, net.refuses addr.host addr.port = false →
    addr.poolsize + s.old net.now addr.host addr.port ≤ s.size addr.host addr.port ∨
      ∃ addr' ∈ net.addresses, addr'.host = addr.host ∧ addr'.port = addr.port ∧
        addr.poolsize + s.old net.now addr.host addr.port ≤ addr'.poolsize

theorem connect_ok (hs : Numbered s)
    (h : s.kind = .consumer → ∀ addr ∈ net.addresses, net.refuses addr.host addr.port = true →
      addr.poolsize ≤ s.size addr.host addr.port) :
    ∃ s', s.connect net = (.ok (), s') ∧ s'.timer = s.timer ∧ s'.kind = s.kind ∧ Numbered s' ∧
      ((∀ addr ∈ net.addresses, net.refuses addr.host addr.port = false →
        addr.poolsize ≤ s'.size addr.host addr.port) ↔ ∀ addr ∈ net.addresses,
          net.refuses addr.host addr.port = false →
            addr.poolsize + s.old net.now addr.host addr.port ≤ s.size addr.host addr.port ∨
              ∃ addr' ∈ net.addresses, addr'.host = addr.host ∧ addr'.port = addr.port ∧
                addr.poolsize + s.old net.now addr.host addr.port ≤ addr'.poolsize) := by
  obtain ⟨s₁, hall, hadds, hsize⟩ := connectAll_ok hs h
  refine ⟨s₁.cleanupOldConnections net.now, ?_, hadds.timer, hadds.kind, fun c hc => ?_, ?_⟩
  · unfold connect
    rw [hall]
  · rw [cleanup_list] at hc
    exact hadds.numbered hs c (List.mem_of_mem_filter hc)
  · refine forall_congr' fun addr => forall_congr' fun _ => forall_congr' fun hok => ?_
    rw [← hsize _ _ _ hok]
    have hcleanup := size_cleanup s₁ net.now addr.host addr.port
    rw [hadds.old hs] at hcleanup
    omega

theorem connect_error (hs : Numbered s) (hkind : s.kind = .consumer) (hmem : addr ∈ net.addresses)
    (hrefuses : net.refuses addr.host addr.port = true)
    (hpool : s.size addr.host addr.port < addr.poolsize) :
    (s.connect net).1 = .error .nullPointer := by
  have herror := connectAll_error hs hkind hmem hrefuses hpool
  unfold connect
  split
  · next heq => rwa [heq] at herror
  · next heq =>
    rw [heq] at herror
    cases herror

theorem call_returned {caller : Caller} (h : (s.call caller net).1 = .ok ()) :
    (s.connect net).1 = .ok () := by
  unfold call at h
  split at h
  · next heq => rw [heq]
  · cases h
  · exact h

/-- **When a call serves its client.** -/
theorem served_call_iff (hs : Numbered s) {caller : Caller}
    (htimer : caller = .timerTask → s.timer = .running) :
    Served caller net (s.call caller net) ↔ Servable s net := by
  by_cases hrefused : s.kind = .consumer → ∀ addr ∈ net.addresses,
      net.refuses addr.host addr.port = true → addr.poolsize ≤ s.size addr.host addr.port
  · obtain ⟨s', hconnect, htimer', -, -, hiff⟩ := connect_ok hs hrefused
    have hcall : (s.call caller net).1 = .ok () ∧ (∀ host port, (s.call caller net).2.size host port =
        s'.size host port) ∧ (caller ≠ .getConn → (s.call caller net).2.timer = .running) := by
      unfold call
      rw [hconnect]
      cases caller with
      | start => exact ⟨rfl, fun _ _ => rfl, fun _ => rfl⟩
      | timerTask => exact ⟨rfl, fun _ _ => rfl, fun _ => htimer'.trans (htimer rfl)⟩
      | getConn => exact ⟨rfl, fun _ _ => rfl, fun h => absurd rfl h⟩
    obtain ⟨hok, hsize, hrunning⟩ := hcall
    constructor
    · intro h
      refine ⟨hrefused, hiff.1 fun addr hmem haccepts => ?_⟩
      rw [← hsize]
      exact h.connected addr hmem haccepts
    · intro h
      refine ⟨hok, fun addr hmem haccepts => ?_, hrunning⟩
      rw [hsize]
      exact hiff.2 h.connected addr hmem haccepts
  · refine iff_of_false (fun h => ?_) fun h => hrefused h.refused
    push Not at hrefused
    obtain ⟨hkind, addr, hmem, hrefuses, hpool⟩ := hrefused
    have herror := connect_error hs hkind hmem hrefuses hpool
    rw [call_returned h.returned] at herror
    cases herror

theorem Served.numbered (hs : Numbered s) {caller : Caller}
    (htimer : caller = .timerTask → s.timer = .running)
    (h : Served caller net (s.call caller net)) : Numbered (s.call caller net).2 := by
  obtain ⟨s', hconnect, -, -, hs', -⟩ := connect_ok hs ((served_call_iff hs htimer).1 h).refused
  unfold call
  rw [hconnect]
  cases caller <;> exact hs'

/-! ## Runs -/

/-- Each call serves the client. -/
def Proper (s : NSQClient) : Label → Prop
  | .connect caller net => Served caller net (s.call caller net)
  | _ => True

end NSQClient

end BaseService.Notify
