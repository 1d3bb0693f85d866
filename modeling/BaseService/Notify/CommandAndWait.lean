import BaseService.Notify.ProducerConnection

/-!
# Whose answer a command gets

The answers of nsqd carry no numbers: a thread that waits for one takes what comes into the queue
`responses`.

* `Own` : every frame returned is the answer to its command, and no rejected command is reported
  successful;
* `Passes`, `Invariant` : what nsqd, the executor and the network can change, and what is always so;
* `own_step_iff` : `Own` is kept just if nothing was to come when the first command that returns cleared
  the queue;
* `own_answers_iff` : the runs with that property.
-/

namespace BaseService.Notify
open Function (update)

namespace ProducerConnection
variable {κ C : Type} [DecidableEq κ]

/-- Every frame returned is nsqd's answer to that command, and those reported successful were accepted. -/
structure Own (s : ProducerConnection κ C) : Prop where
  own : ∀ r ∈ s.returned, r.answered = r.command
  accepted : ∀ r ∈ s.returned, produced r.frame = .success →
    ∃ frame : Answer, (r.command, frame) ∈ s.served ∧ produced frame = .success

/-- The first command that returns a frame has cleared the queue when nothing was to come. -/
def Clean (s : ProducerConnection κ C) (l : Label κ C) : Prop :=
  ∀ k id stale, l = .poll k → s.phase k = .poll id stale → s.returned = [] → stale = 0

/-! ## What is to come -/

section
variable {s s' : ProducerConnection κ C}

/-- The answers to come to the queue, and that in it. -/
def coming (s : ProducerConnection κ C) : List Nat := s.responses.toList.map Prod.fst ++ s.wire

def frames (s : ProducerConnection κ C) : List (Nat × Answer) :=
  s.responses.toList ++ s.offering.toList ++ s.channel.replies

/-- What a thread knows of the answers: with nothing stale there is only its own, and otherwise the next
is that to another command. -/
def Lined (coming : List Nat) (connected : Bool) : Phase C → Prop
  | .command _ stale => (stale = 0 → coming = []) ∧ (stale ≠ 0 → coming ≠ [] ∨ connected = false)
  | .poll id stale =>
    (stale = 0 → coming = [] ∨ coming = [id]) ∧ (stale ≠ 0 → coming.head? ≠ some id)
  | _ => True

/-- What is so once a command has got its answer. -/
def Settled (wire : List Nat) : Phase C → Prop
  | .clear _ | .release => wire = []
  | .command _ stale | .poll _ stale => stale = 0
  | _ => True

structure Invariant (s : ProducerConnection κ C) : Prop where
  own : Own s
  alone : ∀ k k', (s.phase k).inside = true → (s.phase k').inside = true → k = k'
  locked : ∀ k, (s.phase k).inside = true → s.requests ≠ none
  sent : ∀ id ∈ s.coming, id < s.sent
  lined : ∀ k, Lined s.coming s.connected (s.phase k)
  served : ∀ x ∈ s.frames, x ∈ s.served
  unlocked : s.returned ≠ [] → s.requests = none → s.wire = []
  settled : s.returned ≠ [] → ∀ k, Settled s.wire (s.phase k)

/-- A step of nsqd, of the executor or of the network. -/
structure Passes (s s' : ProducerConnection κ C) : Prop where
  phase : s'.phase = s.phase
  requests : s'.requests = s.requests
  sent : s'.sent = s.sent
  returned : s'.returned = s.returned
  served : ∀ x ∈ s.served, x ∈ s'.served
  frames : (∀ x ∈ s.frames, x ∈ s.served) → ∀ x ∈ s'.frames, x ∈ s'.served
  wire : s'.wire.Sublist s.wire
  coming : s'.coming.Sublist s.coming
  connected : s.connected = false → s'.connected = false
  /-- What comes first stays first, as long as there is a request. -/
  first : s.requests ≠ none →
    s'.coming.head? = s.coming.head? ∨ s'.coming = [] ∧ s'.connected = false

omit [DecidableEq κ] in
theorem Lined.passes {coming coming' : List Nat} {connected connected' : Bool} {phase : Phase C}
    (h : Lined coming connected phase) (hsub : coming'.Sublist coming)
    (hconnected : connected = false → connected' = false)
    (hfirst : coming'.head? = coming.head? ∨ coming' = [] ∧ connected' = false) :
    Lined coming' connected' phase := by
  cases phase with
  | command c stale =>
    refine ⟨fun h₀ => ?_, fun h₀ => ?_⟩
    · rw [h.1 h₀] at hsub
      exact List.sublist_nil.1 hsub
    · rcases hfirst with heq | ⟨-, hclosed⟩
      · rcases h.2 h₀ with hne | hclosed
        · refine .inl fun hnil => hne ?_
          rw [hnil] at heq
          exact List.head?_eq_none_iff.1 heq.symm
        · exact .inr (hconnected hclosed)
      · exact .inr hclosed
  | poll id stale =>
    refine ⟨fun h₀ => ?_, fun h₀ => ?_⟩
    · rcases h.1 h₀ with hnil | hone
      · rw [hnil] at hsub
        exact .inl (List.sublist_nil.1 hsub)
      · rw [hone] at hsub
        exact List.sublist_singleton.1 hsub
    · rcases hfirst with heq | ⟨hnil, -⟩
      · rw [heq]
        exact h.2 h₀
      · rw [hnil]
        simp
  | _ => trivial

theorem Settled.passes {wire wire' : List Nat} {phase : Phase C} (h : Settled wire phase)
    (hsub : wire'.Sublist wire) : Settled wire' phase := by
  have hnil (hwire : wire = []) : wire' = [] := List.sublist_nil.1 (hwire ▸ hsub)
  cases phase with
  | clear c => exact hnil h
  | release => exact hnil h
  | _ => exact h

omit [DecidableEq κ] in
theorem Invariant.passes (h : Invariant s) (hs : Passes s s') : Invariant s' where
  own :=
    { own := hs.returned ▸ h.own.own
      accepted := fun r hr hsuccess => by
        obtain ⟨frame, hmem, hframe⟩ := h.own.accepted r (hs.returned ▸ hr) hsuccess
        exact ⟨frame, hs.served _ hmem, hframe⟩ }
  alone := hs.phase ▸ h.alone
  locked k hk := by
    rw [hs.requests]
    exact h.locked k (hs.phase ▸ hk)
  sent id hid := hs.sent ▸ h.sent id (hs.coming.subset hid)
  lined k := by
    rw [hs.phase]
    by_cases hk : (s.phase k).inside = true
    · exact (h.lined k).passes hs.coming hs.connected (hs.first (h.locked k hk))
    · revert hk
      cases s.phase k <;> simp [Phase.inside, Lined]
  served := hs.frames h.served
  unlocked hreturned hnone := by
    rw [hs.returned] at hreturned
    rw [hs.requests] at hnone
    have hsub := hs.wire
    rw [h.unlocked hreturned hnone] at hsub
    exact List.sublist_nil.1 hsub
  settled hreturned k := by
    rw [hs.returned] at hreturned
    rw [hs.phase]
    exact (h.settled hreturned k).passes hs.wire

end

/-! ## The steps of nsqd, of the executor and of the network -/

section
variable {s : ProducerConnection κ C}

omit [DecidableEq κ] in
/-- A step that moves an answer on. -/
theorem Passes.moved {s' : ProducerConnection κ C} (hphase : s'.phase = s.phase)
    (hrequests : s'.requests = s.requests) (hsent : s'.sent = s.sent)
    (hreturned : s'.returned = s.returned) (hserved : ∀ x ∈ s.served, x ∈ s'.served)
    (hframes : ∀ x ∈ s'.frames, x ∈ s.frames ∨ x ∈ s'.served)
    (hconnected : s'.connected = s.connected) (hwire : s'.wire.Sublist s.wire)
    (hcoming : s'.coming = s.coming) : Passes s s' where
  phase := hphase
  requests := hrequests
  sent := hsent
  returned := hreturned
  served := hserved
  frames h x hx := (hframes x hx).elim (fun hmem => hserved x (h x hmem)) fun hmem => hmem
  wire := hwire
  coming := hcoming ▸ List.Sublist.refl _
  connected h := hconnected.trans h
  first _ := .inl (congrArg List.head? hcoming)

omit [DecidableEq κ] in
theorem passes_answer {id : Nat} {c : C} {requests : List (Nat × C)} (frame : Answer)
    (hrequests : s.channel.requests = (id, c) :: requests) :
    Passes s { s with
      channel := ⟨requests, s.channel.replies ++ [(id, frame)]⟩
      served := s.served ++ [(id, frame)] } := by
  have hout := (Pipeline.Serves.mk frame hrequests).outstanding
  refine .moved rfl rfl rfl rfl (fun x hx => List.mem_append_left _ hx) (fun x hx => ?_) rfl ?_ ?_
  · simp only [frames, List.mem_append, List.mem_singleton] at hx ⊢
    tauto
  · simp only [wire, hout]
    exact List.Sublist.refl _
  · simp only [coming, wire, hout]

omit [DecidableEq κ] in
theorem passes_heartbeat : Passes s s.heartbeat :=
  .moved rfl rfl rfl rfl (fun _ hx => hx) (fun _ hx => .inl hx) rfl (List.Sublist.refl _) rfl

omit [DecidableEq κ] in
theorem passes_incoming {id : Nat} {frame : Answer} {p : Pipeline C Answer}
    (hoffering : s.offering = none) (hreads : s.channel.Reads id frame p) :
    Passes s ({ s with channel := p }.incoming id frame) := by
  have hout := hreads.outstanding
  obtain ⟨hreplies⟩ := hreads
  obtain ⟨frame, hanswer⟩ := frame
  cases frame with
  | response message =>
    simp only [incoming, hanswer, Bool.false_eq_true, if_false]
    split
    · refine .moved rfl rfl rfl rfl (fun _ hx => hx) (fun x hx => .inl ?_) rfl ?_ ?_
      · simp only [frames, hreplies, Option.toList_some, List.mem_append, List.mem_cons] at hx ⊢
        tauto
      · simp only [wire, hoffering, hout]
        exact List.Sublist.refl _
      · simp only [coming, wire, hoffering, hout]
        rfl
    · next hnone =>
      refine ⟨rfl, rfl, rfl, rfl, fun _ hx => hx, fun h x hx => h x ?_, ?_, ?_, fun h => h,
        fun h => absurd (Option.isSome_iff_ne_none.2 h) hnone⟩
      · simp only [frames, hreplies, List.mem_append, List.mem_cons] at hx ⊢
        tauto
      · simp only [wire, hoffering, hout]
        exact List.sublist_cons_self _ _
      · simp only [coming, wire, hoffering, hout]
        exact (List.sublist_cons_self _ _).append_left _
  | error err =>
    cases hresponses : s.responses with
    | none =>
      refine .moved rfl rfl rfl rfl (fun _ hx => hx) (fun x hx => .inl ?_) rfl ?_ ?_
      · simp only [incoming, frames, hreplies, hresponses, Option.or, Option.toList_some,
          List.mem_append, List.mem_cons] at hx ⊢
        tauto
      · simp only [incoming, wire, hoffering, hout]
        exact List.sublist_cons_self _ _
      · simp only [incoming, coming, wire, hoffering, hresponses, hout, Option.or]
        rfl
    | some y =>
      refine ⟨rfl, rfl, rfl, rfl, fun _ hx => hx, fun h x hx => h x ?_, ?_, ?_, fun h => h,
        fun _ => .inl ?_⟩
      · simp only [incoming, frames, hreplies, hresponses, Option.or, List.mem_append,
          List.mem_cons] at hx ⊢
        tauto
      · simp only [incoming, wire, hoffering, hout]
        exact List.sublist_cons_self _ _
      · simp only [incoming, coming, wire, hoffering, hresponses, hout, Option.or]
        exact (List.sublist_cons_self _ _).append_left _
      · simp only [incoming, coming, hresponses, Option.or]
        rfl

omit [DecidableEq κ] in
theorem passes_offered {x : Nat × Answer} (hoffering : s.offering = some x)
    (hresponses : s.responses = none) :
    Passes s { s with responses := some x, offering := none } := by
  refine .moved rfl rfl rfl rfl (fun _ hx => hx) (fun y hy => .inl ?_) rfl ?_ ?_
  · simp only [frames, hoffering, hresponses, List.mem_append] at hy ⊢
    tauto
  · simp only [wire, hoffering]
    exact List.sublist_cons_self _ _
  · simp only [coming, wire, hoffering, hresponses]
    rfl

omit [DecidableEq κ] in
theorem passes_lost {x : Nat × Answer} (hoffering : s.offering = some x)
    (hresponses : s.responses ≠ none) : Passes s { s with offering := none } := by
  obtain ⟨y, hy⟩ := Option.ne_none_iff_exists'.1 hresponses
  refine ⟨rfl, rfl, rfl, rfl, fun _ hx => hx, fun h x hx => h x ?_, ?_, ?_, fun h => h,
    fun _ => .inl ?_⟩
  · simp only [frames, List.mem_append] at hx ⊢
    tauto
  · simp only [wire, hoffering]
    exact List.sublist_cons_self _ _
  · simp only [coming, wire, hoffering]
    exact (List.sublist_cons_self _ _).append_left _
  · simp only [coming, hy]
    rfl

omit [DecidableEq κ] in
theorem passes_disconnect (received : Nat) :
    Passes s { s with channel := ⟨[], s.channel.replies.take received⟩, connected := false } := by
  have hstart : ((s.channel.replies.take received).map Prod.fst ++ []) <+: s.channel.outstanding := by
    rw [List.append_nil]
    exact ((List.take_prefix _ _).map _).trans (List.prefix_append _ _)
  have hwire : wire { s with
      channel := ⟨[], s.channel.replies.take received⟩, connected := false } <+: s.wire :=
    (List.prefix_append_right_inj _).2 hstart
  have hcoming : coming { s with
      channel := ⟨[], s.channel.replies.take received⟩, connected := false } <+: s.coming :=
    (List.prefix_append_right_inj _).2 hwire
  refine ⟨rfl, rfl, rfl, rfl, fun _ hx => hx, fun h x hx => h x ?_, hwire.sublist, hcoming.sublist,
    fun _ => rfl, fun _ => ?_⟩
  · simp only [frames, List.mem_append] at hx ⊢
    exact hx.imp_right List.mem_of_mem_take
  · obtain ⟨rest, hrest⟩ := hcoming
    cases hlist : coming { s with
        channel := ⟨[], s.channel.replies.take received⟩, connected := false } with
    | nil => exact .inr ⟨rfl, rfl⟩
    | cons id ids =>
      rw [← hrest, hlist]
      exact .inl rfl

end

/-! ## The steps of the threads -/

namespace Invariant
variable {s : ProducerConnection κ C}

omit [DecidableEq κ] in
theorem start (ident : Option C) : Invariant (createConnection ident : ProducerConnection κ C) where
  own := ⟨by simp [createConnection], by simp [createConnection]⟩
  alone := by simp [createConnection, Phase.inside]
  locked := by simp [createConnection, Phase.inside]
  sent id hid := by
    cases ident with
    | none => cases hid
    | some c =>
      rw [show (createConnection (some c) : ProducerConnection κ C).coming = [0] from rfl,
        List.mem_singleton] at hid
      subst hid
      exact Nat.one_pos
  lined _ := trivial
  served x hx := by
    cases ident <;> cases hx
  unlocked h := absurd rfl h
  settled h := absurd rfl h

/-- What the others are doing. -/
theorem others {P : Phase C → Prop} {k : κ} {phase : Phase C}
    (h : ∀ k', k' ≠ k → P (s.phase k')) (hphase : P phase) (k' : κ) :
    P (update s.phase k phase k') := by
  rw [Function.update_apply]
  split
  · exact hphase
  · next hne => exact h k' hne

theorem inside_goto {k k' : κ} {phase : Phase C}
    (hk' : (update s.phase k phase k').inside = true) (hphase : phase.inside = false) :
    k' ≠ k ∧ (s.phase k').inside = true := by
  rw [Function.update_apply] at hk'
  split at hk'
  · rw [hphase] at hk'
    cases hk'
  · next hne => exact ⟨hne, hk'⟩

/-- A thread outside. -/
theorem leave (h : Invariant s) {k : κ} {phase : Phase C} (hphase : phase.inside = false) :
    Invariant (s.goto k phase) where
  own := ⟨h.own.own, h.own.accepted⟩
  alone k₁ k₂ h₁ h₂ := h.alone k₁ k₂ (inside_goto h₁ hphase).2 (inside_goto h₂ hphase).2
  locked k' hk' := h.locked k' (inside_goto hk' hphase).2
  sent := h.sent
  lined := others (fun k' _ => h.lined k') (by cases phase <;> simp_all [Phase.inside, Lined])
  served := h.served
  unlocked := h.unlocked
  settled hreturned :=
    others (fun k' _ => h.settled hreturned k') (by cases phase <;> simp_all [Phase.inside, Settled])

omit [DecidableEq κ] in
theorem lined_outside {coming : List Nat} {connected : Bool} {phase : Phase C}
    (h : phase.inside = false) : Lined coming connected phase := by
  cases phase <;> simp_all [Phase.inside, Lined]

omit [DecidableEq κ] in
theorem settled_outside {wire : List Nat} {phase : Phase C} (h : phase.inside = false) :
    Settled wire phase := by
  cases phase <;> simp_all [Phase.inside, Settled]

omit [DecidableEq κ] in
/-- The others, where one thread is inside. -/
theorem outside (h : Invariant s) {k : κ} (hk : (s.phase k).inside = true) (k' : κ) (hne : k' ≠ k) :
    (s.phase k').inside = false := by
  by_contra hinside
  exact hne (h.alone k' k (by simpa using hinside) hk)

/-- The thread inside, if there is one, is `k`. -/
theorem of_alone {s' : ProducerConnection κ C} {k : κ} {phase : Phase C}
    (hothers : ∀ k', k' ≠ k → (s.phase k').inside = false)
    (hphase : s'.phase = update s.phase k phase) (hown : Own s')
    (hlocked : phase.inside = true → s'.requests ≠ none) (hsent : ∀ id ∈ s'.coming, id < s'.sent)
    (hlined : Lined s'.coming s'.connected phase) (hserved : ∀ x ∈ s'.frames, x ∈ s'.served)
    (hunlocked : s'.returned ≠ [] → s'.requests = none → s'.wire = [])
    (hsettled : s'.returned ≠ [] → Settled s'.wire phase) : Invariant s' where
  own := hown
  alone k₁ k₂ h₁ h₂ := by
    have hk (k' : κ) (hk' : (s'.phase k').inside = true) : k' = k := by
      by_contra hne
      rw [hphase, Function.update_of_ne hne, hothers k' hne] at hk'
      cases hk'
    rw [hk k₁ h₁, hk k₂ h₂]
  locked k' hk' := by
    rw [hphase, Function.update_apply] at hk'
    split at hk'
    · exact hlocked hk'
    · next hne =>
      rw [hothers k' hne] at hk'
      cases hk'
  sent := hsent
  lined := by
    rw [hphase]
    exact others (fun k' hne => lined_outside (hothers k' hne)) hlined
  served := hserved
  unlocked := hunlocked
  settled hreturned := by
    rw [hphase]
    exact others (fun k' hne => settled_outside (hothers k' hne)) (hsettled hreturned)

theorem offer (h : Invariant s) {k : κ} {c : C} (hrequests : s.requests = none) :
    Invariant ({ s with requests := some c }.goto k (.clear c)) := by
  have hothers (k' : κ) (_ : k' ≠ k) : (s.phase k').inside = false := by
    by_contra hinside
    exact h.locked k' (by simpa using hinside) hrequests
  refine of_alone (s := s) hothers rfl ⟨h.own.own, h.own.accepted⟩ ?_ h.sent trivial h.served ?_ ?_
  · exact fun _ => Option.some_ne_none c
  · exact fun _ hnone => absurd hnone (Option.some_ne_none c)
  · exact fun hreturned => h.unlocked hreturned hrequests

theorem clear (h : Invariant s) {k : κ} {c : C} (hk : s.phase k = .clear c) :
    Invariant ({ s with responses := none }.goto k (.command c s.wire.length)) := by
  have hinside : (s.phase k).inside = true := by rw [hk]; rfl
  have hlocked := h.locked k hinside
  have hmem (id : Nat) (hid : id ∈ s.wire) : id ∈ s.coming := List.mem_append_right _ hid
  refine of_alone (s := s) (h.outside hinside) rfl ⟨h.own.own, h.own.accepted⟩ (fun _ => hlocked)
    (fun id hid => h.sent id (hmem id hid)) ⟨?_, ?_⟩ ?_ ?_ ?_
  · exact fun hzero => List.length_eq_zero_iff.1 hzero
  · exact fun hne => .inl fun hnil => hne (List.length_eq_zero_iff.2 hnil)
  · intro x hx
    refine h.served x ?_
    simp only [frames, goto, Option.toList_none, List.nil_append] at hx ⊢
    rw [List.append_assoc]
    exact List.mem_append_right _ hx
  · exact fun _ hnone => absurd hnone hlocked
  · intro hreturned
    have hsettled := h.settled hreturned k
    rw [hk] at hsettled
    exact List.length_eq_zero_iff.2 hsettled

theorem command (h : Invariant s) {k : κ} {c : C} {stale : Nat} (hk : s.phase k = .command c stale) :
    Invariant ({ s with
      channel := if s.connected then s.channel.send s.sent c else s.channel
      sent := s.sent + 1 }.goto k (.poll s.sent stale)) := by
  have hinside : (s.phase k).inside = true := by rw [hk]; rfl
  have hlocked := h.locked k hinside
  have hlined := h.lined k
  have hcoming : coming ({ s with
      channel := if s.connected then s.channel.send s.sent c else s.channel
      sent := s.sent + 1 }.goto k (.poll s.sent stale)) =
      s.coming ++ if s.connected then [s.sent] else [] := by
    simp only [coming, wire, goto]
    split <;> simp
  rw [hk] at hlined
  refine of_alone (s := s) (h.outside hinside) rfl ⟨h.own.own, h.own.accepted⟩ (fun _ => hlocked)
    (fun id hid => ?_) ?_ ?_ ?_ ?_
  · rw [hcoming, List.mem_append] at hid
    show id < s.sent + 1
    rcases hid with hid | hid
    · exact Nat.lt_succ_of_lt (h.sent id hid)
    · split at hid
      · rw [List.mem_singleton.1 hid]
        exact Nat.lt_succ_self _
      · cases hid
  · rw [hcoming]
    refine ⟨fun hzero => ?_, fun hstale hhead => ?_⟩
    · rw [hlined.1 hzero]
      split
      · exact .inr rfl
      · exact .inl rfl
    · rcases hlined.2 hstale with hne | hclosed
      · obtain ⟨id, ids, hids⟩ := List.exists_cons_of_ne_nil hne
        rw [hids] at hhead
        have hlt := h.sent id (hids ▸ List.mem_cons_self)
        rw [Option.some.inj hhead] at hlt
        exact lt_irrefl _ hlt
      · rw [hclosed, if_neg Bool.false_ne_true, List.append_nil] at hhead
        exact lt_irrefl _ (h.sent _ (List.mem_of_mem_head? hhead))
  · intro x hx
    refine h.served x ?_
    simp only [frames, goto] at hx ⊢
    split at hx
    · exact hx
    · exact hx
  · exact fun _ hnone => absurd hnone hlocked
  · intro hreturned
    have hsettled := h.settled hreturned k
    rw [hk] at hsettled
    exact hsettled

omit [DecidableEq κ] in
/-- A thread that takes its own answer has found nothing else to come. -/
theorem stale_of_own (h : Invariant s) {k : κ} {id stale : Nat} {frame : Answer}
    (hk : s.phase k = .poll id stale) (hresponses : s.responses = some (id, frame)) : stale = 0 := by
  have hlined := h.lined k
  rw [hk] at hlined
  by_contra hstale
  refine hlined.2 hstale ?_
  simp only [coming, hresponses]
  rfl

omit [DecidableEq κ] in
/-- With nothing stale, the answer is the own one, and the last to come. -/
theorem own_of_stale (h : Invariant s) {k : κ} {id id' : Nat} {frame : Answer}
    (hk : s.phase k = .poll id 0) (hresponses : s.responses = some (id', frame)) :
    id' = id ∧ s.wire = [] := by
  have hlined := h.lined k
  rw [hk] at hlined
  have hcoming : s.coming = id' :: s.wire := by
    simp only [coming, hresponses]
    rfl
  rcases hlined.1 rfl with hnil | hone
  · rw [hcoming] at hnil
    cases hnil
  · rw [hcoming] at hone
    exact List.cons.inj hone

theorem poll (h : Invariant s) {k : κ} {id id' stale : Nat} {frame : Answer}
    (hk : s.phase k = .poll id stale) (hresponses : s.responses = some (id', frame))
    (hown : Own ({ s with
      responses := none
      returned := s.returned ++ [Returned.mk id id' frame.1] }.goto k .release)) :
    Invariant ({ s with
      responses := none
      returned := s.returned ++ [Returned.mk id id' frame.1] }.goto k .release) := by
  have hinside : (s.phase k).inside = true := by rw [hk]; rfl
  have hlocked := h.locked k hinside
  have hid : id' = id := hown.own _ (List.mem_append_right _ (List.mem_singleton_self _))
  have hstale := h.stale_of_own hk (hid ▸ hresponses)
  have hwire := (h.own_of_stale (hstale ▸ hk) hresponses).2
  refine of_alone (s := s) (h.outside hinside) rfl hown (fun _ => hlocked)
    (fun i hi => h.sent i (List.mem_append_right _ hi)) trivial (fun x hx => h.served x ?_)
    (fun _ _ => hwire) fun _ => hwire
  simp only [frames, goto, Option.toList_none, List.nil_append] at hx ⊢
  rw [List.append_assoc]
  exact List.mem_append_right _ hx

theorem release (h : Invariant s) {k : κ} (hk : s.phase k = .release) :
    Invariant ({ s with requests := none }.goto k .idle) := by
  have hinside : (s.phase k).inside = true := by rw [hk]; rfl
  refine of_alone (s := s) (h.outside hinside) rfl ⟨h.own.own, h.own.accepted⟩ (fun hidle => ?_)
    h.sent trivial h.served (fun hreturned _ => ?_) fun _ => trivial
  · cases hidle
  · have hsettled := h.settled hreturned k
    rw [hk] at hsettled
    exact hsettled

theorem step {l : Label κ C} {s' : ProducerConnection κ C} (h : Invariant s) (hs : Step s l s')
    (hown : Own s') : Invariant s' := by
  cases hs with
  | call => exact h.leave rfl
  | full => exact h.leave rfl
  | timeout => exact h.leave rfl
  | offer _ hrequests => exact h.offer hrequests
  | clear hk => exact h.clear hk
  | command hk => exact h.command hk
  | poll hk hresponses => exact h.poll hk hresponses hown
  | release hk => exact h.release hk
  | answer hrequests => exact h.passes (passes_answer _ hrequests)
  | heartbeat => exact h.passes passes_heartbeat
  | incoming hoffering hreads => exact h.passes (passes_incoming hoffering hreads)
  | offered hoffering hresponses => exact h.passes (passes_offered hoffering hresponses)
  | lost hoffering hresponses => exact h.passes (passes_lost hoffering hresponses)
  | disconnect => exact h.passes (passes_disconnect _)

end Invariant

/-! ## Runs -/

section
variable {s s' : ProducerConnection κ C} {l : Label κ C}

/-- **When a frame is crossed**: where the first command that returns one has cleared the queue too
early. -/
theorem own_step_iff (h : Invariant s) (hs : Step s l s') : Own s' ↔ s.Clean l := by
  have hsame (hreturned : s'.returned = s.returned) (hserved : s.served ⊆ s'.served)
      (hl : ∀ k, l ≠ .poll k) : Own s' ↔ s.Clean l := by
    refine iff_of_true ⟨?_, fun r hr hsuccess => ?_⟩ fun k _ _ hk => absurd hk (hl k)
    · rw [hreturned]
      exact h.own.own
    · obtain ⟨frame, hmem, hframe⟩ := h.own.accepted r (hreturned ▸ hr) hsuccess
      exact ⟨frame, hserved hmem, hframe⟩
  have hpasses (hp : Passes s s') (hl : ∀ k, l ≠ .poll k) : Own s' ↔ s.Clean l :=
    hsame hp.returned hp.served hl
  cases hs with
  | @poll k id id' stale frame hk hresponses =>
    constructor
    · rintro hown k' i n hl hk' -
      cases hl
      rw [hk] at hk'
      cases hk'
      have hid : id' = id := hown.own _ (List.mem_append_right _ (List.mem_singleton_self _))
      exact h.stale_of_own hk (hid ▸ hresponses)
    · intro hclean
      have hstale : stale = 0 := by
        by_cases hreturned : s.returned = []
        · exact hclean k id stale rfl hk hreturned
        · have hsettled := h.settled hreturned k
          rw [hk] at hsettled
          exact hsettled
      subst hstale
      obtain ⟨rfl, -⟩ := h.own_of_stale hk hresponses
      have hserved : (id', frame) ∈ s.served := by
        refine h.served _ ?_
        simp only [frames, hresponses, Option.toList_some, List.append_assoc]
        exact List.mem_append_left _ (List.mem_singleton_self _)
      refine ⟨fun r hr => ?_, fun r hr hsuccess => ?_⟩
      · rcases List.mem_append.1 hr with hr | hr
        · exact h.own.own r hr
        · rw [List.mem_singleton.1 hr]
      · rcases List.mem_append.1 hr with hr | hr
        · exact h.own.accepted r hr hsuccess
        · rw [List.mem_singleton.1 hr] at hsuccess ⊢
          exact ⟨frame, hserved, hsuccess⟩
  | answer hrequests => exact hpasses (passes_answer _ hrequests) (by simp)
  | heartbeat => exact hpasses passes_heartbeat (by simp)
  | incoming hoffering hreads => exact hpasses (passes_incoming hoffering hreads) (by simp)
  | offered hoffering hresponses => exact hpasses (passes_offered hoffering hresponses) (by simp)
  | lost hoffering hresponses => exact hpasses (passes_lost hoffering hresponses) (by simp)
  | disconnect => exact hpasses (passes_disconnect _) (by simp)
  | _ => exact hsame rfl (fun _ hx => hx) (by simp)

/-- **A command gets its own answer** just if nothing was to come when the first one that returns cleared
the queue. -/
theorem own_answers_iff (ident : Option C) (ls : List (Label κ C)) (s : ProducerConnection κ C) :
    Run (fun s l s' => Step s l s' ∧ Own s') (createConnection ident) ls s ↔
      Run (fun s l s' => Step s l s' ∧ Clean s l) (createConnection ident) ls s :=
  Run.congr (I := Invariant) (.start ident)
    (fun _ _ _ h => and_congr_right fun hs => own_step_iff h hs)
    fun _ _ _ h hs => h.step hs.1 hs.2

end

/-! ## A rejected message -/

/-- The answer to `IDENTIFY` comes when the thread waits for that to `PUB`, which nsqd then rejects. -/
theorem rejected_success : ¬ ∀ (ls : List (Label Unit String)) (s : ProducerConnection Unit String),
    Run Step (createConnection (some "IDENTIFY")) ls s → Own s := by
  intro h
  have h₁ : Run Step (createConnection (some "IDENTIFY")) [.call () "PUB topic"] _ :=
    Run.nil.snoc (.call rfl)
  have h₂ := h₁.snoc (.offer (k := ()) rfl rfl)
  have h₃ := h₂.snoc (.clear (k := ()) rfl)
  have h₄ := h₃.snoc (.command (k := ()) rfl)
  have h₅ : Run _ _ (_ ++ [Label.answer ⟨.response "OK", by decide⟩]) _ := h₄.snoc (.answer rfl)
  have h₆ := h₅.snoc (.incoming rfl (.mk rfl))
  have h₇ := h₆.snoc (.offered rfl rfl)
  have h₈ := h₇.snoc (.poll (k := ()) rfl rfl)
  have h₉ : Run _ _ (_ ++ [Label.answer ⟨.error "E_BAD_MESSAGE", by decide⟩]) _ :=
    h₈.snoc (.answer rfl)
  obtain ⟨frame, hmem, hsuccess⟩ := (h _ _ h₉).accepted _ List.mem_cons_self rfl
  rcases List.mem_cons.1 hmem with heq | hmem
  · cases heq
  · cases List.mem_singleton.1 hmem
    exact produced_error _ hsuccess

end ProducerConnection

end BaseService.Notify
