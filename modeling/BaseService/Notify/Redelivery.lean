import BaseService.Data.Runs
import BaseService.Notify.Connection

/-!
# Redelivery

A message that some listener rejects at every delivery, from the server to the callback and back.

* `Server` : the message in the server; a requeued message, or one without a reply, is sent again;
* `Delivery` : what a delivery meets in the process;
* `replyTo` : the reply to each delivery; `step_iff` : it decides the steps;
* `bounded_iff` : the values of `retry` that bound the redelivery as documented.
-/

namespace BaseService.Notify

/-- A message in the server. -/
inductive Server
  /-- The next delivery has this number, which the frame has as an unsigned 16-bit number. -/
  | ready (attempts : Nat)
  | finished
  deriving DecidableEq, Repr

/-- What the server gets for a delivery. -/
inductive Reply
  | FIN
  | REQ
  | timeout
  deriving DecidableEq, Repr

/-- The commands that make up a reply. -/
def Reply.commands (id : List Byte) : Reply → List Command
  | .FIN => [.FIN id]
  | .REQ => [.REQ id 0]
  | .timeout => []

/-- The server after the reply to the delivery number `attempts`. -/
def Reply.after (attempts : Nat) : Reply → Server
  | .FIN => .finished
  | .REQ | .timeout => .ready (attempts + 1)

/-- What a delivery meets: the connection, and the listeners in the order of their iteration. -/
structure Delivery (L : Type) where
  totalMessages : Int64
  timestamp : Nat
  listeners : List L
  excute : L → Option Message → Bool

namespace Redelivery

section
variable {L : Type} (platform : Platform) (retry : Int) (id body : List Byte)

/-- The content of the message, as the listeners get it. -/
def content : Option Message := Message.convert platform (platform.newString body)

def Rejects (d : Delivery L) : Prop :=
  ∃ l ∈ d.listeners, d.excute l (content platform body) = false

/-- The frame arrives and is handled. -/
def handle (d : Delivery L) (attempts : Nat) : Outcome (Consumers.Handled L) := do
  let frame ← MessageFrame.setData (MessageFrame.data d.timestamp attempts id body)
  let connection : Connection L :=
    ⟨d.totalMessages, some (Consumers.message platform d.excute (some d.listeners) retry)⟩
  .ok (connection.incoming frame).2

inductive Step (L : Type) : Server → Reply → Server → Prop
  | finished {attempts : Nat} {handled : Consumers.Handled L} (d : Delivery L) :
    Rejects platform body d → handle platform retry id body d attempts = .ok handled →
      .FIN id ∈ handled.commands → Step L (.ready attempts) .FIN .finished
  | requeued {attempts : Nat} {timeoutMillis : Int} {handled : Consumers.Handled L} (d : Delivery L) :
    Rejects platform body d → handle platform retry id body d attempts = .ok handled →
      .REQ id timeoutMillis ∈ handled.commands →
      Step L (.ready attempts) .REQ (.ready (attempts + 1))
  | timeout {attempts : Nat} {handled : Consumers.Handled L} (d : Delivery L) :
    Rejects platform body d → handle platform retry id body d attempts = .ok handled →
      (∀ c ∈ handled.commands, ∃ count, c = .RDY count) →
      Step L (.ready attempts) .timeout (.ready (attempts + 1))

/-- The redelivery of the message is as documented: with `retry = -1` it is requeued every time,
else `retry` times, and then it is finished. -/
def Bounded (L : Type) : Prop :=
  ∀ replies, (∃ s, Run (Step platform retry id body L) (.ready 1) replies s) ↔
    if retry = -1 then ∃ n, replies = List.replicate n .REQ
    else replies <+: List.replicate retry.toNat .REQ ++ [.FIN]

/-! ## The replies -/

/-- The reply to the delivery number `attempts`. -/
def replyTo (attempts : Nat) : Reply :=
  if Bytes.signed 2 attempts > retry ∧ retry > 0 then .FIN
  else if content platform body = none then .timeout else .REQ

variable {platform retry id body}

theorem replyTo_finished {attempts : Nat} (h : replyTo platform retry body attempts = .FIN) :
    1 ≤ retry ∧ retry ≤ 32766 := by
  have hlt := Bytes.signed_lt 1 attempts
  unfold replyTo at h
  split at h
  · norm_num at hlt
    omega
  · split at h <;> cases h

theorem replyTo_requeued {attempts : Nat} (h : replyTo platform retry body attempts = .REQ) :
    content platform body ≠ none := by
  unfold replyTo at h
  split at h
  · cases h
  · split at h
    · cases h
    · assumption

/-- What a rejected delivery sends. -/
theorem handle_rejected (hid : id.length = 16) {d : Delivery L} (hd : Rejects platform body d)
    (attempts : Nat) :
    ∃ handled, handle platform retry id body d attempts = .ok handled ∧
      handled.commands = Connection.requestMore (d.totalMessages + 1) ++
        (replyTo platform retry body attempts).commands id := by
  refine ⟨_, ?_, (Connection.incoming_commands
    ⟨d.totalMessages, some (Consumers.message platform d.excute (some d.listeners) retry)⟩ rfl
    ⟨Bytes.signed 8 d.timestamp, Bytes.signed 2 attempts, id, body⟩).trans (congrArg _ ?_)⟩
  · rw [handle, MessageFrame.setData_spec d.timestamp attempts body hid]
    rfl
  · rw [show Consumers.message platform d.excute (some d.listeners) retry _ =
      Consumers.excuteAll d.excute (content platform body) retry _ d.listeners from rfl,
      (Consumers.excuteAll_rejected hd).1]
    unfold Consumers.reject replyTo
    split
    · rfl
    · cases content platform body with
      | none => rfl
      | some msg => rfl

theorem handled_commands (hid : id.length = 16) {d : Delivery L} (hd : Rejects platform body d)
    {attempts : Nat} {handled : Consumers.Handled L}
    (h : handle platform retry id body d attempts = .ok handled) :
    handled.commands = Connection.requestMore (d.totalMessages + 1) ++
      (replyTo platform retry body attempts).commands id := by
  obtain ⟨handled', h', hc⟩ : ∃ handled', handle platform retry id body d attempts = .ok handled' ∧
      handled'.commands = Connection.requestMore (d.totalMessages + 1) ++
        (replyTo platform retry body attempts).commands id := handle_rejected hid hd attempts
  rw [Except.ok.inj (h.symm.trans h'), hc]

/-- The commands of a reply are no `RDY`. -/
theorem mem_commands_iff {tot : Int64} {r : Reply} {c : Command} (hc : ∀ count, c ≠ .RDY count) :
    c ∈ Connection.requestMore tot ++ r.commands id ↔ c ∈ r.commands id := by
  rw [List.mem_append, or_iff_right]
  intro h
  obtain ⟨count, rfl⟩ := Connection.requestMore_mem h
  exact hc count rfl

/-- **The reply decides the step.** -/
theorem step_iff [Nonempty L] (hid : id.length = 16) {s s' : Server} {r : Reply} :
    Step platform retry id body L s r s' ↔
      ∃ attempts, s = .ready attempts ∧ r = replyTo platform retry body attempts ∧
        s' = r.after attempts := by
  constructor
  · intro h
    cases h with
    | @finished attempts handled d hd hh hfin =>
      rw [handled_commands hid hd hh, mem_commands_iff (by simp)] at hfin
      refine ⟨attempts, rfl, ?_, rfl⟩
      cases hr : replyTo platform retry body attempts <;> simp [hr, Reply.commands] at hfin ⊢
    | @requeued attempts timeoutMillis handled d hd hh hreq =>
      rw [handled_commands hid hd hh, mem_commands_iff (by simp)] at hreq
      refine ⟨attempts, rfl, ?_, rfl⟩
      cases hr : replyTo platform retry body attempts <;> simp [hr, Reply.commands] at hreq ⊢
    | @timeout attempts handled d hd hh hrdy =>
      rw [handled_commands hid hd hh] at hrdy
      refine ⟨attempts, rfl, ?_, rfl⟩
      cases hr : replyTo platform retry body attempts with
      | FIN =>
        obtain ⟨count, hcount⟩ := hrdy (.FIN id) (by simp [hr, Reply.commands])
        cases hcount
      | REQ =>
        obtain ⟨count, hcount⟩ := hrdy (.REQ id 0) (by simp [hr, Reply.commands])
        cases hcount
      | timeout => rfl
  · rintro ⟨attempts, rfl, rfl, rfl⟩
    obtain ⟨l⟩ := ‹Nonempty L›
    have hd : Rejects platform body (⟨0, 0, [l], fun _ _ => false⟩ : Delivery L) :=
      ⟨l, List.mem_singleton_self l, rfl⟩
    obtain ⟨handled, hh, hc⟩ : ∃ handled,
        handle platform retry id body ⟨0, 0, [l], fun _ _ => false⟩ attempts = .ok handled ∧
          handled.commands = Connection.requestMore (0 + 1) ++
            (replyTo platform retry body attempts).commands id := handle_rejected hid hd attempts
    cases hr : replyTo platform retry body attempts with
    | FIN => exact .finished _ hd hh (by simp [hc, hr, Reply.commands])
    | REQ =>
      have hreq : Command.REQ id 0 ∈ handled.commands := by simp [hc, hr, Reply.commands]
      exact .requeued _ hd hh hreq
    | timeout =>
      refine .timeout _ hd hh (fun c hmem => ?_)
      rw [hc, hr] at hmem
      exact Connection.requestMore_mem (by simpa [Reply.commands] using hmem)

/-! ## Runs -/

section
variable [Nonempty L]

theorem run_requeued (hid : id.length = 16) {n : Nat}
    (h : ∀ k < n, replyTo platform retry body (k + 1) = .REQ) :
    Run (Step platform retry id body L) (.ready 1) (List.replicate n .REQ) (.ready (n + 1)) := by
  induction n with
  | zero => exact .nil
  | succ n ih =>
    rw [List.replicate_succ']
    exact (ih fun k hk => h k (by omega)).snoc
      ((step_iff hid).mpr ⟨n + 1, rfl, (h n (by omega)).symm, rfl⟩)

theorem runs_of_requeued (hid : id.length = 16)
    (h : ∀ k, replyTo platform retry body (k + 1) = .REQ) (replies : List Reply) :
    (∃ s, Run (Step platform retry id body L) (.ready 1) replies s) ↔
      ∃ n, replies = List.replicate n .REQ := by
  constructor
  · rintro ⟨s, hrun⟩
    have hinv : ∃ n, replies = List.replicate n .REQ ∧ s = .ready (n + 1) := by
      refine hrun.history (I := fun rs s => ∃ n, rs = List.replicate n .REQ ∧ s = .ready (n + 1))
        ⟨0, rfl, rfl⟩ ?_
      rintro rs s r s' ⟨n, rfl, rfl⟩ hs
      obtain ⟨attempts, ha, rfl, rfl⟩ := (step_iff hid).mp hs
      obtain rfl := Server.ready.inj ha
      exact ⟨n + 1, by rw [h n, List.replicate_succ'], by rw [h n]; rfl⟩
    obtain ⟨n, hn, -⟩ := hinv
    exact ⟨n, hn⟩
  · rintro ⟨n, rfl⟩
    exact ⟨_, run_requeued hid fun k _ => h k⟩

theorem runs_of_finished (hid : id.length = 16) {n : Nat}
    (h : ∀ k < n, replyTo platform retry body (k + 1) = .REQ)
    (hfin : replyTo platform retry body (n + 1) = .FIN) (replies : List Reply) :
    (∃ s, Run (Step platform retry id body L) (.ready 1) replies s) ↔
      replies <+: List.replicate n .REQ ++ [.FIN] := by
  rw [List.prefix_concat_iff, List.prefix_replicate_iff]
  constructor
  · rintro ⟨s, hrun⟩
    have hinv : replies = List.replicate n .REQ ++ [.FIN] ∧ s = .finished ∨
        ∃ m ≤ n, replies = List.replicate m .REQ ∧ s = .ready (m + 1) := by
      refine hrun.history (I := fun rs s => rs = List.replicate n .REQ ++ [.FIN] ∧ s = .finished ∨
        ∃ m ≤ n, rs = List.replicate m .REQ ∧ s = .ready (m + 1)) (Or.inr ⟨0, by omega, rfl, rfl⟩) ?_
      rintro rs s r s' hi hs
      obtain ⟨attempts, rfl, rfl, rfl⟩ := (step_iff hid).mp hs
      rcases hi with ⟨-, hs⟩ | ⟨m, hm, rfl, ha⟩
      · cases hs
      · obtain rfl := Server.ready.inj ha
        by_cases hmn : m = n
        · subst hmn
          rw [hfin]
          exact Or.inl ⟨rfl, rfl⟩
        · rw [h m (by omega)]
          exact Or.inr ⟨m + 1, by omega, List.replicate_succ'.symm, rfl⟩
    rcases hinv with ⟨hr, -⟩ | ⟨m, hm, rfl, -⟩
    · exact Or.inl hr
    · rw [List.length_replicate]
      exact Or.inr ⟨hm, rfl⟩
  · rintro (rfl | ⟨hlen, hr⟩)
    · exact ⟨_, (run_requeued hid h).snoc ((step_iff hid).mpr ⟨n + 1, rfl, hfin.symm, rfl⟩)⟩
    · rw [hr]
      exact ⟨_, run_requeued hid fun k hk => h k (by omega)⟩

/-- **When the redelivery is as documented**: for `retry` from `1` to `32766` or `-1`, unless the
listeners get a null message. -/
theorem bounded_iff (hid : id.length = 16) :
    Bounded platform retry id body L ↔
      (retry = -1 ∨ 1 ≤ retry ∧ retry ≤ 32766) ∧ content platform body ≠ none := by
  have hlast : ∀ {rs r}, (∃ s, Run (Step platform retry id body L) (.ready 1) (rs ++ [r]) s) →
      ∃ attempts, replyTo platform retry body attempts = r := by
    rintro rs r ⟨s, hrun⟩
    obtain ⟨s', -, hs⟩ := hrun.snoc_inv
    obtain ⟨attempts, -, hr, -⟩ := (step_iff hid).mp hs
    exact ⟨attempts, hr.symm⟩
  constructor
  · intro hb
    by_cases hone : retry = -1
    · obtain ⟨attempts, hr⟩ := hlast ((hb ([] ++ [.REQ])).mpr (by rw [if_pos hone]; exact ⟨1, rfl⟩))
      exact ⟨Or.inl hone, replyTo_requeued hr⟩
    · simp only [Bounded, if_neg hone] at hb
      obtain ⟨attempts, hr⟩ := hlast ((hb _).mpr (List.prefix_refl _))
      have hrange := replyTo_finished hr
      have hstart : [] ++ [.REQ] <+: List.replicate retry.toNat Reply.REQ ++ [.FIN] := by
        obtain ⟨n, hn⟩ : ∃ n, retry.toNat = n + 1 := ⟨retry.toNat - 1, by omega⟩
        rw [hn]
        exact ⟨_, rfl⟩
      obtain ⟨attempts, hr⟩ := hlast ((hb _).mpr hstart)
      exact ⟨Or.inr hrange, replyTo_requeued hr⟩
  · rintro ⟨hretry, hcontent⟩ replies
    by_cases hone : retry = -1
    · rw [if_pos hone]
      refine runs_of_requeued hid (fun k => ?_) replies
      rw [replyTo, if_neg (by omega), if_neg hcontent]
    · have hrange : 1 ≤ retry ∧ retry ≤ 32766 := hretry.resolve_left hone
      have hsigned : ∀ k ≤ retry.toNat, Bytes.signed 2 (k + 1) = k + 1 := fun k hk => by
        rw [Bytes.signed_of_lt (by omega)]
        omega
      rw [if_neg hone]
      refine runs_of_finished hid (fun k hk => ?_) ?_ replies
      · rw [replyTo, hsigned k (by omega), if_neg (by omega), if_neg hcontent]
      · rw [replyTo, hsigned _ (le_refl _), if_pos (by omega)]

end

theorem bounded_three : Bounded Consumers.plainText 3 (List.replicate 16 0) [120] Unit :=
  (bounded_iff (List.length_replicate ..)).mpr ⟨Or.inr (by omega), by decide⟩

/-- With `retry = 0` no delivery is finished, not even the first. -/
theorem not_bounded_zero : ¬ Bounded Consumers.plainText 0 (List.replicate 16 0) [120] Unit := by
  intro hb
  obtain ⟨s, hrun⟩ := (hb ([] ++ [.FIN])).mpr ⟨[], rfl⟩
  obtain ⟨s', -, hs⟩ := hrun.snoc_inv
  obtain ⟨attempts, -, hr, -⟩ := (step_iff (List.length_replicate ..)).mp hs
  have hrange := replyTo_finished hr.symm
  omega

end

end Redelivery

end BaseService.Notify
