import BaseService.Data.Failing
import BaseService.Notify.Quote

/-!
# `JsonUtil.getJsonStringFromObject`

The text of an object is written by recursion into the `StringBuilder` of the thread.

* `Obj`, `Code` : objects, by what the encoder sees of them and what their methods do;
* `Thread` : the builders and the thread-local; `Action` : a computation of the thread;
* `fromObject` and its parts; `getJsonStringFromObject`.

`Date`s and the floating-point numbers are left out.
-/

namespace BaseService.Notify.JsonUtil
open Failing (bind_ok bind_error)

inductive Throwable
  | exception
  | error
  deriving DecidableEq, Repr

/-- `Byte`, `Short`, `Integer` and `Long`, `Boolean`, and `Character`. -/
inductive Primitive
  | integer (n : Int)
  | boolean (b : Bool)
  | character (c : Nat)

/-- How an iterator ends: `hasNext()` is false or throws, or it is true and `next()` throws. -/
inductive Ending
  | ends
  | hasNext (t : Throwable)
  | next (t : Throwable)

mutual

inductive Obj
  | null
  | string (s : List Nat)
  | primitive (p : Primitive)
  | array (elements : List Obj)
  /-- An array with a primitive component type. -/
  | primitives (elements : List Primitive)
  /-- With what each `next()` does. -/
  | collection (elements : List Code) (ending : Ending)
  /-- The keys, with what `get(key)` does. -/
  | map (entries : List (List Nat × Code)) (ending : Ending)
  /-- The readable properties in the order of the `BeanInfo`, with what the getter does. -/
  | bean (properties : List (List Nat × Code))

/-- What a method of an object does: it may call `getJsonStringFromObject` and go on with the
result. -/
inductive Code
  | returns (o : Obj)
  | throws (t : Throwable)
  | calls (argument : Obj) (k : Except Throwable (List Nat) → Code)

end

/-- A call that has returned, and the text that its thread-local held when it began. -/
structure Completed where
  argument : Obj
  found : Option (List Nat)
  returned : List Nat

structure Thread where
  builders : List (List Nat)
  /-- `local.get()`, a reference to one of the builders. -/
  localBuilder : Option Nat
  completed : List Completed

def Thread.init : Thread := ⟨[], none, []⟩

def Thread.text (this : Thread) (builder : Nat) : List Nat := this.builders.getD builder []

def Thread.append (this : Thread) (builder : Nat) (s : List Nat) : Thread :=
  { this with builders := this.builders.modify builder (· ++ s) }

/-- A computation of the thread. An exception leaves its effects. -/
abbrev Action := ExceptT Throwable (StateM Thread)

def builder : Action Nat := do
  let thread ← get
  match thread.localBuilder with
  | some builder => pure builder
  | none => do
    set { thread with
      builders := thread.builders ++ [[]], localBuilder := some thread.builders.length }
    pure thread.builders.length

def append (builder : Nat) (s : List Nat) : Action Unit :=
  modify fun thread => thread.append builder s

/-- `builder.deleteCharAt(builder.length() - 1)`. -/
def deleteLast (builder : Nat) : Action Unit := do
  let thread ← get
  if thread.text builder = [] then throw .exception
  else set { thread with builders := thread.builders.modify builder List.dropLast }

/-- The comma after a part that is not the last. -/
def appendComma (builder : Nat) (last : Bool) : Action Unit :=
  if last then pure () else append builder [','.toNat]

/-- `iterator.hasNext()`, if `isEmpty` tells that all elements have been returned. -/
def hasNext (ending : Ending) (isEmpty : Bool) : Action Bool :=
  if isEmpty then
    match ending with
    | .ends => pure false
    | .hasNext t => throw t
    | .next _ => pure true
  else pure true

/-- `iterator.hasNext()` after the last element, and the `iterator.next()` that throws. -/
def afterLast : Ending → Action Unit
  | .ends => pure ()
  | .hasNext t => throw t
  | .next t => throw t

def ofOutcome {α : Type} : Outcome α → Action α
  | .ok a => pure a
  | .error _ => throw .exception

/-- `try { … } catch (Exception e)`. -/
def catchException (x : Action Unit) : Action Unit := fun thread =>
  match x thread with
  | (.error .exception, thread) => (.ok (), thread)
  | result => result

/-- What a method does with a call that may throw. -/
def attempt {α : Type} (x : Action α) : Action (Except Throwable α) := fun thread =>
  let (result, thread) := x thread
  (.ok result, thread)

/-- `append(obj)` for a `Number` or a `Boolean`, `append(quote(...))` for a `Character`. -/
def Primitive.text : Primitive → Outcome (List Nat)
  | integer n => .ok (units (toString n))
  | boolean b => .ok (units (toString b))
  | character c => quote [c]

def fromPrimitive (obj : Primitive) : Action Unit := do
  append (← builder) (← ofOutcome obj.text)

def fromPrimitives (builder : Nat) : List Primitive → Action Unit
  | [] => pure ()
  | p :: rest => do
    append builder (← ofOutcome p.text)
    appendComma builder rest.isEmpty
    fromPrimitives builder rest

/-- A call of `getJsonStringFromObject(argument)`; `x` is `fromObject(argument)`. -/
def complete (argument : Obj) (x : Action Unit) : Action (List Nat) := do
  let thread ← get
  let found := thread.localBuilder.map thread.text
  x
  let b ← builder
  modify fun thread => { thread with localBuilder := none }
  let returned := (← get).text b
  modify fun thread =>
    { thread with completed := thread.completed ++ [⟨argument, found, returned⟩] }
  pure returned

mutual

def fromObject : Obj → Action Unit
  | .null => do append (← builder) (units "null")
  | .string s => do append (← builder) (← ofOutcome (quote s))
  | .primitive p => fromPrimitive p
  | .array elements => do
    let builder ← builder
    append builder ['['.toNat]
    fromElements builder elements
    append builder [']'.toNat]
  | .primitives elements => do
    let builder ← builder
    append builder ['['.toNat]
    fromPrimitives builder elements
    append builder [']'.toNat]
  | .collection elements ending => do
    let builder ← builder
    append builder ['['.toNat]
    fromIterator builder ending elements
    append builder [']'.toNat]
  | .map entries ending => do
    let builder ← builder
    append builder ['{'.toNat]
    fromEntries builder ending entries
    append builder ['}'.toNat]
  | .bean properties => do
    let builder ← builder
    append builder ['{'.toNat]
    catchException (fromProperties builder properties)
    append builder ['}'.toNat]

/-- The loop of `fromArray` over objects. -/
def fromElements (builder : Nat) : List Obj → Action Unit
  | [] => pure ()
  | o :: rest => do
    fromObject o
    appendComma builder rest.isEmpty
    fromElements builder rest

/-- The loop of `fromCollection`. -/
def fromIterator (builder : Nat) (ending : Ending) : List Code → Action Unit
  | [] => afterLast ending
  | code :: rest => do
    fromCode code
    let more ← hasNext ending rest.isEmpty
    appendComma builder !more
    fromIterator builder ending rest

/-- The loop of `fromMap`. -/
def fromEntries (builder : Nat) (ending : Ending) : List (List Nat × Code) → Action Unit
  | [] => afterLast ending
  | (key, code) :: rest => do
    append builder ('"'.toNat :: key ++ ['"'.toNat, ':'.toNat])
    fromCode code
    let more ← hasNext ending rest.isEmpty
    appendComma builder !more
    fromEntries builder ending rest

/-- The loop of `fromBean`. -/
def fromProperties (builder : Nat) : List (List Nat × Code) → Action Unit
  | [] => pure ()
  | (pname, code) :: rest => do
    fromProperty builder pname rest.isEmpty code
    fromProperties builder rest

/-- `fromObject` of what a method returns. -/
def fromCode : Code → Action Unit
  | .returns o => fromObject o
  | .throws t => throw t
  | .calls argument k => do
    let result ← attempt (complete argument (fromObject argument))
    fromCode (k result)

/-- One round of the loop of `fromBean`. The reflective call wraps what a getter throws in an
`InvocationTargetException`. -/
def fromProperty (builder : Nat) (pname : List Nat) (last : Bool) : Code → Action Unit
  | .returns .null => if last then deleteLast builder else pure ()
  | .returns o => do
    append builder ('"'.toNat :: pname ++ ['"'.toNat, ':'.toNat])
    fromObject o
    appendComma builder last
  | .throws _ => throw .exception
  | .calls argument k => do
    let result ← attempt (complete argument (fromObject argument))
    fromProperty builder pname last (k result)

end

def getJsonStringFromObject (obj : Obj) : Action (List Nat) := complete obj (fromObject obj)

/-! ## Steps -/

theorem catchException_ok {x : Action Unit} {thread thread' : Thread} (h : x thread = (.ok (), thread')) :
    catchException x thread = (.ok (), thread') := by
  rw [catchException, h]

/-! ## Builders -/

namespace Thread

/-- The thread-local is set. -/
structure Open (this : Thread) (b : Nat) : Prop where
  local_eq : this.localBuilder = some b
  lt : b < this.builders.length

variable {this : Thread} {b : Nat} {s s' : List Nat}

theorem append_append : (this.append b s).append b s' = this.append b (s ++ s') := by
  simp only [append, List.modify_modify_eq]
  congr 2
  funext l
  simp

theorem append_nil : this.append b [] = this := by
  simp only [append, List.append_nil]
  congr 1
  exact List.modify_id ..

theorem Open.append (h : this.Open b) (s : List Nat) : (this.append b s).Open b :=
  ⟨h.local_eq, by simpa [Thread.append] using h.lt⟩

theorem Open.text_append (h : this.Open b) (s : List Nat) :
    (this.append b s).text b = this.text b ++ s := by
  simp [Thread.append, text, h.lt]

end Thread

section
variable {thread : Thread} {b : Nat}

theorem builder_some (h : thread.localBuilder = some b) : builder thread = (.ok b, thread) := by
  show (match thread.localBuilder with
    | some b => pure b
    | none => _ : Action Nat) thread = _
  rw [h]
  rfl

theorem builder_eq (h : thread.Open b) : builder thread = (.ok b, thread) := builder_some h.local_eq

theorem append_eq (s : List Nat) : append b s thread = (.ok (), thread.append b s) := rfl

theorem deleteLast_eq (h : thread.Open b) (s : List Nat) (u : Nat) :
    deleteLast b (thread.append b (s ++ [u])) = (.ok (), thread.append b s) := by
  have hne : (thread.append b (s ++ [u])).text b ≠ [] := by
    rw [h.text_append]
    simp
  rw [deleteLast, bind_ok (x := get) (a := thread.append b (s ++ [u])) rfl, if_neg hne]
  show (Except.ok (), Thread.mk _ _ _) = _
  congr 2
  simp only [Thread.append, List.modify_modify_eq]
  congr 1
  funext l
  simp [← List.append_assoc]

/-- The thread after `builder()` has set its thread-local. -/
def Thread.opened (this : Thread) : Thread :=
  { this with builders := this.builders ++ [[]], localBuilder := some this.builders.length }

theorem builder_none (h : thread.localBuilder = none) :
    builder thread = (.ok thread.builders.length, thread.opened) := by
  show (match thread.localBuilder with
    | some b => pure b
    | none => _ : Action Nat) thread = _
  rw [h]
  rfl

theorem Thread.opened_open (this : Thread) : this.opened.Open this.builders.length ∧
    this.opened.text this.builders.length = [] :=
  ⟨⟨rfl, by simp [opened]⟩, by simp [opened, text]⟩

theorem fromObject_builder (o : Obj) : ∃ f : Nat → Action Unit, fromObject o = builder >>= f := by
  cases o with
  | primitive p => exact ⟨_, by rw [fromObject, fromPrimitive]⟩
  | _ => exact ⟨_, by rw [fromObject]⟩

/-- `fromObject` begins with `builder()`. -/
theorem fromObject_opened (o : Obj) (h : thread.localBuilder = none) :
    fromObject o thread.opened = fromObject o thread := by
  obtain ⟨f, hf⟩ := fromObject_builder o
  rw [hf, bind_ok (builder_none h), bind_ok (builder_eq thread.opened_open.1)]

variable {thread₁ thread₂ : Thread} {argument : Obj} {x : Action Unit}

theorem complete_ok (hx : x thread = (.ok (), thread₁)) (hb : builder thread₁ = (.ok b, thread₂)) :
    complete argument x thread = (.ok (thread₂.text b), { thread₂ with
      localBuilder := none
      completed := thread₂.completed ++
        [⟨argument, thread.localBuilder.map thread.text, thread₂.text b⟩] }) := by
  rw [complete, bind_ok (x := get) (a := thread) rfl]
  refine (bind_ok hx).trans ((bind_ok hb).trans ?_)
  rfl

theorem complete_error {t : Throwable} (hx : x thread = (.error t, thread₁)) :
    complete argument x thread = (.error t, thread₁) := by
  rw [complete, bind_ok (x := get) (a := thread) rfl]
  exact bind_error hx

end

end BaseService.Notify.JsonUtil
