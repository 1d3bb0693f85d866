import BaseService.Notify.ObjectTree
import BaseService.Data.Runs

/-!
# Calls on one thread

All calls of a thread, and all levels of a call, share the thread-local builder.

* `Closed`, `fromObject_closed` : what every step keeps, `fromObject` keeps;
* `Thread.shift` : the same thread with more builders; `getJsonStringFromObject_fresh` : a call that
  finds no builder;
* `Logged` : what holds of the calls that have returned; `calls_isolated` : in any run.
-/

namespace BaseService.Notify.JsonUtil
open Failing (bind_ok bind_error)

/-! ## Relations between computations -/

/-- A relation that the steps of the encoder preserve; `τ` relates the references. -/
structure Closed (τ : Nat → Nat) (R : (α : Type) → Action α → Action α → Prop) : Prop where
  pure : ∀ {α : Type} (a : α), R α (pure a) (pure a)
  throw : ∀ {α : Type} (t : Throwable), R α (throw t) (throw t)
  bind : ∀ {α β : Type} {x y : Action α} {f g : α → Action β}, R α x y → (∀ a, R β (f a) (g a)) →
    R β (x >>= f) (y >>= g)
  builder : ∀ {α : Type} {f g : Nat → Action α}, (∀ b, R α (f b) (g (τ b))) →
    R α (builder >>= f) (builder >>= g)
  append : ∀ b s, R Unit (append b s) (append (τ b) s)
  deleteLast : ∀ b, R Unit (deleteLast b) (deleteLast (τ b))
  catchException : ∀ {x y : Action Unit}, R Unit x y → R Unit (catchException x) (catchException y)
  complete : ∀ o, R Unit (fromObject o) (fromObject o) →
    R _ (attempt (complete o (fromObject o))) (attempt (complete o (fromObject o)))

section
variable {τ : Nat → Nat} {R : (α : Type) → Action α → Action α → Prop} (h : Closed τ R)
include h

theorem Closed.ofOutcome {α : Type} (o : Outcome α) : R α (ofOutcome o) (ofOutcome o) := by
  cases o with
  | ok a => exact h.pure a
  | error e => exact h.throw _

theorem Closed.appendComma (b : Nat) (last : Bool) :
    R Unit (appendComma b last) (appendComma (τ b) last) := by
  cases last with
  | false => exact h.append b _
  | true => exact h.pure ()

theorem Closed.hasNext (ending : Ending) (isEmpty : Bool) :
    R Bool (hasNext ending isEmpty) (hasNext ending isEmpty) := by
  cases isEmpty with
  | false => exact h.pure true
  | true =>
    cases ending with
    | ends => exact h.pure false
    | hasNext t => exact h.throw t
    | next t => exact h.pure true

theorem Closed.afterLast (ending : Ending) : R Unit (afterLast ending) (afterLast ending) := by
  cases ending with
  | ends => exact h.pure ()
  | hasNext t => exact h.throw t
  | next t => exact h.throw t

theorem fromPrimitives_closed (b : Nat) (ps : List Primitive) :
    R Unit (fromPrimitives b ps) (fromPrimitives (τ b) ps) := by
  induction ps with
  | nil => exact h.pure ()
  | cons p ps ih =>
    exact h.bind (h.ofOutcome _) fun _ => h.bind (h.append b _) fun _ =>
      h.bind (h.appendComma b _) fun _ => ih

/-- Brackets around a part that writes into the same builder. -/
theorem Closed.brackets (s s' : List Nat) {x : Nat → Action Unit} (hx : ∀ b, R Unit (x b) (x (τ b))) :
    R Unit (do let b ← JsonUtil.builder; JsonUtil.append b s; x b; JsonUtil.append b s')
      (do let b ← JsonUtil.builder; JsonUtil.append b s; x b; JsonUtil.append b s') :=
  h.builder fun b => h.bind (h.append b _) fun _ => h.bind (hx b) fun _ => h.append b _

mutual

theorem fromObject_closed : (o : Obj) → R Unit (fromObject o) (fromObject o)
  | .null => by
    rw [fromObject]
    exact h.builder fun b => h.append b _
  | .string s => by
    rw [fromObject]
    exact h.builder fun b => h.bind (h.ofOutcome _) fun _ => h.append b _
  | .primitive p => by
    rw [fromObject]
    exact h.builder fun b => h.bind (h.ofOutcome _) fun _ => h.append b _
  | .array elements => by
    rw [fromObject]
    exact h.brackets _ _ fun b => fromElements_closed b elements
  | .primitives elements => by
    rw [fromObject]
    exact h.brackets _ _ fun b => fromPrimitives_closed h b elements
  | .collection elements ending => by
    rw [fromObject]
    exact h.brackets _ _ fun b => fromIterator_closed b ending elements
  | .map entries ending => by
    rw [fromObject]
    exact h.brackets _ _ fun b => fromEntries_closed b ending entries
  | .bean properties => by
    rw [fromObject]
    exact h.brackets _ _ fun b => h.catchException (fromProperties_closed b properties)

theorem fromElements_closed (b : Nat) : (os : List Obj) →
    R Unit (fromElements b os) (fromElements (τ b) os)
  | [] => by
    rw [fromElements, fromElements]
    exact h.pure ()
  | o :: os => by
    rw [fromElements, fromElements]
    exact h.bind (fromObject_closed o) fun _ => h.bind (h.appendComma b _) fun _ =>
      fromElements_closed b os

theorem fromIterator_closed (b : Nat) (ending : Ending) : (codes : List Code) →
    R Unit (fromIterator b ending codes) (fromIterator (τ b) ending codes)
  | [] => by
    rw [fromIterator, fromIterator]
    exact h.afterLast ending
  | code :: codes => by
    rw [fromIterator, fromIterator]
    exact h.bind (fromCode_closed code) fun _ => h.bind (h.hasNext ending _) fun _ =>
      h.bind (h.appendComma b _) fun _ => fromIterator_closed b ending codes

theorem fromEntries_closed (b : Nat) (ending : Ending) : (entries : List (List Nat × Code)) →
    R Unit (fromEntries b ending entries) (fromEntries (τ b) ending entries)
  | [] => by
    rw [fromEntries, fromEntries]
    exact h.afterLast ending
  | (key, code) :: entries => by
    rw [fromEntries, fromEntries]
    exact h.bind (h.append b _) fun _ => h.bind (fromCode_closed code) fun _ =>
      h.bind (h.hasNext ending _) fun _ => h.bind (h.appendComma b _) fun _ =>
        fromEntries_closed b ending entries

theorem fromProperties_closed (b : Nat) : (properties : List (List Nat × Code)) →
    R Unit (fromProperties b properties) (fromProperties (τ b) properties)
  | [] => by
    rw [fromProperties, fromProperties]
    exact h.pure ()
  | (pname, code) :: properties => by
    rw [fromProperties, fromProperties]
    exact h.bind (fromProperty_closed b pname _ code) fun _ => fromProperties_closed b properties

theorem fromCode_closed : (code : Code) → R Unit (fromCode code) (fromCode code)
  | .returns o => by
    rw [fromCode]
    exact fromObject_closed o
  | .throws t => by
    rw [fromCode]
    exact h.throw t
  | .calls argument k => by
    rw [fromCode]
    exact h.bind (h.complete argument (fromObject_closed argument)) fun r => fromCode_closed (k r)

theorem fromProperty_closed (b : Nat) (pname : List Nat) (last : Bool) : (code : Code) →
    R Unit (fromProperty b pname last code) (fromProperty (τ b) pname last code)
  | .returns o => by
    by_cases ho : o = .null
    · subst ho
      rw [fromProperty_null, fromProperty_null]
      cases last with
      | false => exact h.pure ()
      | true => exact h.deleteLast b
    · rw [fromProperty, fromProperty]
      · exact h.bind (h.append b _) fun _ => h.bind (fromObject_closed o) fun _ =>
          h.appendComma b last
      · exact ho
      · exact ho
  | .throws t => by
    rw [fromProperty, fromProperty]
    exact h.throw _
  | .calls argument k => by
    rw [fromProperty, fromProperty]
    exact h.bind (h.complete argument (fromObject_closed argument)) fun r =>
      fromProperty_closed b pname last (k r)

end

end

/-! ## A call that finds no builder -/

section
variable (pre : List (List Nat)) (log : List Completed)

/-- The thread with the builders `pre` before its own. -/
def Thread.shift (this : Thread) : Thread :=
  ⟨pre ++ this.builders, this.localBuilder.map (pre.length + ·), log ++ this.completed⟩

theorem Thread.shift_text (this : Thread) (b : Nat) :
    (this.shift pre log).text (pre.length + b) = this.text b := by
  simp [shift, text, List.getElem?_append_right]

variable {pre log}

omit log in
theorem modify_shift (l : List (List Nat)) (b : Nat) (f : List Nat → List Nat) :
    (pre ++ l).modify (pre.length + b) f = pre ++ l.modify b f := by
  simp [List.modify_eq_take_drop, List.take_append]

variable (pre log)

/-- `y` does on the shifted thread what `x` does on the thread. -/
def Shifts (α : Type) (x y : Action α) : Prop :=
  ∀ thread, y (thread.shift pre log) = ((x thread).1, (x thread).2.shift pre log)

variable {pre log}

theorem Shifts.bind {α β : Type} {x y : Action α} {f g : α → Action β} (hx : Shifts pre log α x y)
    (hf : ∀ a, Shifts pre log β (f a) (g a)) : Shifts pre log β (x >>= f) (y >>= g) := by
  intro thread
  have hy := hx thread
  rcases hr : x thread with ⟨_ | a, thread'⟩
  · rw [hr] at hy
    rw [bind_error hr, bind_error hy]
  · rw [hr] at hy
    rw [bind_ok hr, bind_ok hy, hf a]

variable (pre log) in
theorem builder_shift (thread : Thread) : ∃ b thread', builder thread = (.ok b, thread') ∧
    builder (thread.shift pre log) = (.ok (pre.length + b), thread'.shift pre log) := by
  cases hl : thread.localBuilder with
  | none =>
    refine ⟨_, _, builder_none hl, ?_⟩
    rw [builder_none (by simp [Thread.shift, hl])]
    simp [Thread.shift, Thread.opened]
  | some b =>
    refine ⟨b, thread, builder_some hl, ?_⟩
    rw [builder_some (b := pre.length + b) (by simp [Thread.shift, hl])]

theorem Shifts.builder {α : Type} {f g : Nat → Action α}
    (hf : ∀ b, Shifts pre log α (f b) (g (pre.length + b))) :
    Shifts pre log α (builder >>= f) (builder >>= g) := by
  intro thread
  obtain ⟨b, thread', hb, hb'⟩ := builder_shift pre log thread
  rw [bind_ok hb, bind_ok hb', hf b]

theorem Shifts.deleteLast (b : Nat) :
    Shifts pre log Unit (deleteLast b) (deleteLast (pre.length + b)) := by
  intro thread
  rw [JsonUtil.deleteLast, JsonUtil.deleteLast, bind_ok (x := get) (a := thread) rfl,
    bind_ok (x := get) (a := thread.shift pre log) rfl, Thread.shift_text]
  by_cases he : thread.text b = []
  · rw [if_pos he, if_pos he]
    rfl
  · rw [if_neg he, if_neg he]
    show (Except.ok (), Thread.mk ((pre ++ thread.builders).modify (pre.length + b) _) _ _) = _
    rw [modify_shift]
    rfl

theorem Shifts.complete (o : Obj) {x y : Action Unit} (hx : Shifts pre log Unit x y) :
    Shifts pre log _ (complete o x) (complete o y) := by
  intro thread
  have hy := hx thread
  rcases hr : x thread with ⟨_ | _, thread₁⟩
  · rw [hr] at hy
    rw [complete_error hr, complete_error hy]
  · rw [hr] at hy
    obtain ⟨b, thread₂, hb, hb'⟩ := builder_shift pre log thread₁
    have hfound : (thread.shift pre log).localBuilder.map (thread.shift pre log).text =
        thread.localBuilder.map thread.text := by
      cases hl : thread.localBuilder with
      | none => simp [Thread.shift, hl]
      | some b =>
        have := thread.shift_text pre log b
        simpa [Thread.shift, hl] using this
    rw [complete_ok hr hb, complete_ok hy hb', hfound, Thread.shift_text]
    simp [Thread.shift]

theorem shifts_closed : Closed (pre.length + ·) (Shifts pre log) where
  pure _ _ := rfl
  throw _ _ := rfl
  bind := Shifts.bind
  builder := Shifts.builder
  append b s thread := by
    show (Except.ok (), Thread.mk ((pre ++ thread.builders).modify (pre.length + b) _) _ _) = _
    rw [modify_shift]
    rfl
  deleteLast := Shifts.deleteLast
  catchException {x y} hx thread := by
    have hy := hx thread
    rw [catchException, catchException, hy]
    rcases x thread with ⟨(_ | _) | _, thread'⟩ <;> rfl
  complete o hx thread := by
    have hy := Shifts.complete o hx thread
    rw [attempt, attempt, hy]
    rfl

end

/-- What a call returns on a fresh thread. -/
def fresh (obj : Obj) : Except Throwable (List Nat) := (getJsonStringFromObject obj .init).1

/-- **A call that finds no builder returns what it returns on a fresh thread.** -/
theorem getJsonStringFromObject_fresh (obj : Obj) {thread : Thread}
    (h : thread.localBuilder = none) : (getJsonStringFromObject obj thread).1 = fresh obj := by
  have hshift : Thread.init.shift thread.builders thread.completed = thread := by
    obtain ⟨builders, localBuilder, completed⟩ := thread
    cases h
    simp [Thread.shift, Thread.init]
  have hobj : Shifts thread.builders thread.completed _ (fromObject obj) (fromObject obj) :=
    fromObject_closed shifts_closed obj
  have hcall := Shifts.complete obj hobj .init
  rw [hshift] at hcall
  show (complete obj (fromObject obj) thread).1 = _
  rw [hcall]
  rfl

/-! ## Calls that have returned -/

/-- What holds of a call: if it found no builder, its result is that of a fresh thread; for a tree
it is what it found and the text of the tree. -/
structure Isolated (c : Completed) : Prop where
  fresh : c.found = none → fresh c.argument = .ok c.returned
  tree : ∀ t : Tree, c.argument = t.toObj → c.returned = c.found.getD [] ++ t.text

structure Logged (thread : Thread) : Prop where
  lt : ∀ b, thread.localBuilder = some b → b < thread.builders.length
  isolated : ∀ c ∈ thread.completed, Isolated c

/-- A computation that keeps `Logged`. -/
def Keeps (α : Type) (x y : Action α) : Prop :=
  x = y ∧ ∀ thread, Logged thread → Logged (x thread).2

theorem Logged.builder {thread : Thread} (h : Logged thread) :
    ∃ b thread', builder thread = (.ok b, thread') ∧ Logged thread' := by
  cases hl : thread.localBuilder with
  | none =>
    refine ⟨_, _, builder_none hl, fun b hb => ?_, h.isolated⟩
    cases hb
    exact thread.opened_open.1.lt
  | some b => exact ⟨b, thread, builder_some hl, h⟩

theorem Logged.modify {thread : Thread} (h : Logged thread) (b : Nat) (f : List Nat → List Nat) :
    Logged { thread with builders := thread.builders.modify b f } :=
  ⟨fun b' hb => by simpa using h.lt b' hb, h.isolated⟩

/-- A call that returns is isolated. -/
theorem Logged.returned {thread thread' : Thread} (h : Logged thread) {o : Obj} {s : List Nat}
    (hs : complete o (fromObject o) thread = (.ok s, thread')) :
    Isolated ⟨o, thread.localBuilder.map thread.text, s⟩ := by
  have hcall : (getJsonStringFromObject o thread).1 = .ok s := congrArg Prod.fst hs
  cases hl : thread.localBuilder with
  | none =>
    have hfresh := (getJsonStringFromObject_fresh o hl).symm.trans hcall
    refine ⟨fun _ => hfresh, fun t ht => ?_⟩
    obtain rfl : o = t.toObj := ht
    rw [(getJsonStringFromObject_text t hl).1] at hcall
    exact (Except.ok.inj hcall).symm
  | some b =>
    refine ⟨fun hfound => (by cases hfound), fun t ht => ?_⟩
    obtain rfl : o = t.toObj := ht
    have hopen : thread.Open b := ⟨hl, h.lt b hl⟩
    rw [complete_ok (fromObject_text t _ hopen) (builder_eq (hopen.append _)),
      hopen.text_append] at hs
    cases hs
    rfl

theorem Logged.complete {thread : Thread} (h : Logged thread) {o : Obj}
    (hx : Keeps Unit (fromObject o) (fromObject o)) :
    Logged (complete o (fromObject o) thread).2 := by
  have h₁ := hx.2 thread h
  rcases hr : fromObject o thread with ⟨_ | _, thread₁⟩
  · rw [hr] at h₁
    rw [complete_error hr]
    exact h₁
  · rw [hr] at h₁
    obtain ⟨b, thread₂, hb, h₂⟩ := h₁.builder
    have hs : JsonUtil.complete o (fromObject o) thread = _ := complete_ok hr hb
    have hisolated := h.returned hs
    rw [hs]
    refine ⟨fun b hb => (by cases hb), fun c hc => ?_⟩
    rcases List.mem_append.mp hc with hc | hc
    · exact h₂.isolated c hc
    · rw [List.mem_singleton.mp hc]
      exact hisolated

/-- A call that returns leaves no builder. -/
theorem unset_of_returned {o : Obj} {s : List Nat} {thread thread' : Thread}
    (h : getJsonStringFromObject o thread = (.ok s, thread')) : thread'.localBuilder = none := by
  rcases hr : fromObject o thread with ⟨_ | _, thread₁⟩
  · rw [getJsonStringFromObject, complete_error hr] at h
    cases h
  · obtain ⟨b, thread₂, hb, -⟩ := builder_shift [] [] thread₁
    rw [getJsonStringFromObject, complete_ok hr hb] at h
    cases h
    rfl

theorem keeps_closed : Closed id Keeps where
  pure _ := ⟨rfl, fun _ h => h⟩
  throw _ := ⟨rfl, fun _ h => h⟩
  bind := by
    rintro α β x y f g ⟨hxy, hx⟩ hf
    subst hxy
    refine ⟨by rw [show f = g from funext fun a => (hf a).1], fun thread h => ?_⟩
    have h₁ := hx thread h
    rcases hr : x thread with ⟨_ | a, thread₁⟩
    · rw [hr] at h₁
      rw [bind_error hr]
      exact h₁
    · rw [hr] at h₁
      rw [bind_ok hr]
      exact (hf a).2 thread₁ h₁
  builder := by
    intro α f g hf
    refine ⟨by rw [show f = g from funext fun b => (hf b).1], fun thread h => ?_⟩
    obtain ⟨b, thread', hb, h'⟩ := h.builder
    rw [bind_ok hb]
    exact (hf b).2 thread' h'
  append b s := ⟨rfl, fun thread h => h.modify b _⟩
  deleteLast b := by
    refine ⟨rfl, fun thread h => ?_⟩
    rw [JsonUtil.deleteLast, bind_ok (x := get) (a := thread) rfl]
    split
    · exact h
    · exact h.modify b _
  catchException := by
    rintro x y ⟨hxy, hx⟩
    subst hxy
    refine ⟨rfl, fun thread h => ?_⟩
    have h₁ := hx thread h
    rw [catchException]
    rcases hr : x thread with ⟨(_ | _) | _, thread'⟩ <;> rw [hr] at h₁ <;> exact h₁
  complete o hx := ⟨rfl, fun thread h => h.complete hx⟩

/-! ## Runs -/

/-- A call on the thread, with how it ends. -/
def Step (thread : Thread) (l : Obj × Except Throwable (List Nat)) (thread' : Thread) : Prop :=
  getJsonStringFromObject l.1 thread = (l.2, thread')

/-- **Calls on one thread do not leak into each other** as long as each finds no builder: in any
run a call that finds none, nested or not, returns what it returns on a fresh thread, a call for a
tree returns this only then, and after calls that have all returned there is no builder. -/
theorem calls_isolated {ls : List (Obj × Except Throwable (List Nat))} {thread : Thread}
    (h : Run Step .init ls thread) :
    (∀ c ∈ thread.completed, (c.found = none → fresh c.argument = .ok c.returned) ∧
      ∀ t : Tree, c.argument = t.toObj →
        (fresh c.argument = .ok c.returned ↔ c.found.getD [] = [])) ∧
    ((∀ l ∈ ls, ∃ s, l.2 = .ok s) → thread.localBuilder = none) := by
  have hlogged : Logged thread := by
    refine h.invariant (I := Logged) ⟨fun b hb => (by cases hb), fun c hc => (by cases hc)⟩ ?_
    rintro thread ⟨o, r⟩ thread' hl hs
    have := hl.complete (fromObject_closed keeps_closed o)
    rwa [show complete o (fromObject o) thread = (r, thread') from hs] at this
  refine ⟨fun c hc => ?_, fun hall => ?_⟩
  · have hisolated := hlogged.isolated c hc
    refine ⟨hisolated.fresh, fun t ht => ?_⟩
    have hfresh : fresh c.argument = .ok t.text := by
      rw [ht]
      exact (getJsonStringFromObject_text t rfl).1
    rw [hfresh, hisolated.tree t ht, Except.ok.injEq, List.self_eq_append_left]
  · cases h with
    | nil => rfl
    | snoc _ hs =>
      obtain ⟨s, hok⟩ := hall _ (List.mem_append_right _ (List.mem_singleton_self _))
      rw [Step, hok] at hs
      exact unset_of_returned hs

theorem calls_isolated_null : ∃ thread, Run Step .init [(.null, .ok (units "null"))] thread ∧
    thread.completed ≠ [] ∧
    ∀ c ∈ thread.completed, c.found = none → fresh c.argument = .ok c.returned := by
  have hrun : Run Step .init [(.null, .ok (units "null"))] (getJsonStringFromObject .null .init).2 :=
    .single rfl
  exact ⟨_, hrun, List.cons_ne_nil _ _, fun c hc => (((calls_isolated hrun).1 c hc).1)⟩

/-- A collection whose iterator throws, and the next call on the thread; and a getter that calls
`getJsonStringFromObject`. -/
theorem calls_leak :
    (∃ thread, Run Step .init [(.collection [] (.hasNext .exception), .error .exception),
      (.null, .ok (units "[null"))] thread) ∧
    (∃ r thread, Run Step .init [(.bean [(units "a", .calls .null fun _ => .returns .null)], r)] thread ∧
      ∃ c ∈ thread.completed, c.argument = .null ∧ c.returned = units "\x7bnull") ∧
    fresh .null = .ok (units "null") := by
  let thrower : Obj := .collection [] (.hasNext .exception)
  let nested : Obj := .bean [(units "a", .calls .null fun _ => .returns .null)]
  let thread := (getJsonStringFromObject thrower .init).2
  have hthrown : Step .init (thrower, .error .exception) thread := rfl
  have hreturned : Step thread (.null, .ok (units "[null")) (getJsonStringFromObject .null thread).2 :=
    rfl
  have hnested : Step .init (nested, (getJsonStringFromObject nested .init).1)
    (getJsonStringFromObject nested .init).2 := rfl
  exact ⟨⟨_, (Run.single hthrown).snoc hreturned⟩,
    ⟨_, _, .single hnested, _, List.mem_cons_self .., rfl, rfl⟩, rfl⟩

end BaseService.Notify.JsonUtil
