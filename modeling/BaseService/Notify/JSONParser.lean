import BaseService.Notify.JSONGrammar
import BaseService.Notify.Lexemes

/-!
# The parser of JSON texts

* `JSONParser` : the parser and its scanner; `Stacks` : what `parse` works on, and the heap it fills;
* `advance` : one token; `parse` : a text;
* `Reps` : the stacks hold the part of the document that has been read; `advance_spec`;
* `parseTokens_spec` : what the loop comes to is said by the grammar;
* `parse_spec` : **a value is returned for the texts of documents alone, and holds the document**;
* `parse_text` : what is read depends on the text alone;
* `TextOf.within` : no string of a document is longer than its text.
-/

namespace BaseService.Notify.JSON
open Failing (bind_ok bind_error)

variable {D : Type}

inductive Status
  | S_INIT
  | S_IN_FINISHED_VALUE
  | S_IN_OBJECT
  | S_IN_ARRAY
  | S_PASSED_PAIR_KEY
  | S_IN_PAIR_VALUE
  | S_END
  | S_IN_ERROR
  deriving DecidableEq

/-- `token.type == TYPE_EOF` -/
def Yytoken.isEof : Yytoken D → Bool
  | .TYPE_EOF => true
  | _ => false

theorem Yytoken.isEof_iff {token : Yytoken D} : token.isEof = true ↔ token = .TYPE_EOF := by
  cases token <;> simp [isEof]

structure JSONParser (D : Type) where
  handlerStatusStack : Option (List Status) := none
  lexer : Yylex
  token : Option (Yytoken D) := none
  status : Status := .S_INIT

/-- The stacks of `parse` with their first elements in front, and the containers it creates. -/
structure Stacks (D : Type) where
  statusStack : List Status := []
  valueStack : List (Item (Scalar D)) := []
  heap : Heap (List Nat) (Scalar D) := []

abbrev Parsing (D : Type) := Failing (Throwable D) (JSONParser D)

/-- `removeFirst()` -/
def removeFirst {α : Type} : List α → Except (Throwable D) (α × List α)
  | [] => .error .NoSuchElementException
  | a :: l => .ok (a, l)

/-- `getFirst()` -/
def getFirst {α : Type} : List α → Except (Throwable D) α
  | [] => .error .NoSuchElementException
  | a :: _ => .ok a

def peekStatus : List Status → Status
  | [] => .S_IN_ERROR
  | status :: _ => status

namespace Stacks

def push (s : Stacks D) (status : Status) (v : Item (Scalar D)) : Stacks D :=
  { s with statusStack := status :: s.statusStack, valueStack := v :: s.valueStack }

/-- `new DynMap()` -/
def createObjectContainer (s : Stacks D) : Item (Scalar D) × Stacks D :=
  (.ref s.heap.length, { s with heap := s.heap ++ [.map Doc.empty] })

/-- `new JSONArray()` -/
def createArrayContainer (s : Stacks D) : Item (Scalar D) × Stacks D :=
  (.ref s.heap.length, { s with heap := s.heap ++ [.list []] })

/-- `parent.put(key, value)` on the map that is first. -/
def put (s : Stacks D) (key : List Nat) (value : Item (Scalar D)) : Except (Throwable D) (Stacks D) := do
  match ← getFirst s.valueStack with
  | .ref r =>
    match s.heap[r]? with
    | some (.map m) => return { s with heap := s.heap.set r (.map (Doc.put m key value)) }
    | _ => throw .ClassCastException
  | .scalar _ => throw .ClassCastException

/-- `val.add(value)` on the list that is first. -/
def add (s : Stacks D) (value : Item (Scalar D)) : Except (Throwable D) (Stacks D) := do
  match ← getFirst s.valueStack with
  | .ref r =>
    match s.heap[r]? with
    | some (.list l) => return { s with heap := s.heap.set r (.list (l ++ [value])) }
    | _ => throw .ClassCastException
  | .scalar _ => throw .ClassCastException

/-- The key that is first is taken from the stack, and its status. -/
def takeKey (s : Stacks D) : Except (Throwable D) (List Nat × Stacks D) := do
  let (_, statusStack) ← removeFirst s.statusStack
  match ← removeFirst s.valueStack with
  | (.scalar (.string key), valueStack) => return (key, { s with statusStack, valueStack })
  | _ => throw .ClassCastException

/-- The end of an object or an array. -/
def leave (s : Stacks D) : Except (Throwable D) (Status × Stacks D) :=
  if 1 < s.valueStack.length then do
    let (_, statusStack) ← removeFirst s.statusStack
    let (_, valueStack) ← removeFirst s.valueStack
    return (peekStatus statusStack, { s with statusStack, valueStack })
  else return (.S_IN_FINISHED_VALUE, s)

end Stacks

/-- The switch over the states in which a value is not finished. -/
def advance (status : Status) (token : Yytoken D) (s : Stacks D) :
    Except (Throwable D) (Status × Stacks D) :=
  match status with
  | .S_INIT =>
    match token with
    | .TYPE_VALUE value => return (.S_IN_FINISHED_VALUE, s.push .S_IN_FINISHED_VALUE (.scalar value))
    | .TYPE_LEFT_BRACE =>
      let (newObject, s) := s.createObjectContainer
      return (.S_IN_OBJECT, s.push .S_IN_OBJECT newObject)
    | .TYPE_LEFT_SQUARE =>
      let (newArray, s) := s.createArrayContainer
      return (.S_IN_ARRAY, s.push .S_IN_ARRAY newArray)
    | _ => return (.S_IN_ERROR, s)
  | .S_IN_OBJECT =>
    match token with
    | .TYPE_COMMA => return (.S_IN_OBJECT, s)
    | .TYPE_VALUE (.string key) => return (.S_PASSED_PAIR_KEY, s.push .S_PASSED_PAIR_KEY (.scalar (.string key)))
    | .TYPE_RIGHT_BRACE => s.leave
    | _ => return (.S_IN_ERROR, s)
  | .S_PASSED_PAIR_KEY =>
    match token with
    | .TYPE_COLON => return (.S_PASSED_PAIR_KEY, s)
    | .TYPE_VALUE value => do
      let (key, s) ← s.takeKey
      let s ← s.put key (.scalar value)
      return (peekStatus s.statusStack, s)
    | .TYPE_LEFT_SQUARE => do
      let (key, s) ← s.takeKey
      let (newArray, s) := s.createArrayContainer
      let s ← s.put key newArray
      return (.S_IN_ARRAY, s.push .S_IN_ARRAY newArray)
    | .TYPE_LEFT_BRACE => do
      let (key, s) ← s.takeKey
      let (newObject, s) := s.createObjectContainer
      let s ← s.put key newObject
      return (.S_IN_OBJECT, s.push .S_IN_OBJECT newObject)
    | _ => return (.S_IN_ERROR, s)
  | .S_IN_ARRAY =>
    match token with
    | .TYPE_COMMA => return (.S_IN_ARRAY, s)
    | .TYPE_VALUE value => do
      let s ← s.add (.scalar value)
      return (.S_IN_ARRAY, s)
    | .TYPE_RIGHT_SQUARE => s.leave
    | .TYPE_LEFT_BRACE => do
      let (newObject, s) := s.createObjectContainer
      let s ← s.add newObject
      return (.S_IN_OBJECT, s.push .S_IN_OBJECT newObject)
    | .TYPE_LEFT_SQUARE => do
      let (newArray, s) := s.createArrayContainer
      let s ← s.add newArray
      return (.S_IN_ARRAY, s.push .S_IN_ARRAY newArray)
    | _ => return (.S_IN_ERROR, s)
  | status => return (status, s)

namespace JSONParser

/-- `reset(in)` -/
def reset (this : JSONParser D) (reader : Reader) : JSONParser D :=
  { lexer := this.lexer.yyreset reader }

/-- The token, which is `TYPE_EOF` for null. -/
def nextToken (double : Doubles D) (fuel : Nat) : Parsing D (Yytoken D) := fun this =>
  match Yylex.yylex double fuel this.lexer with
  | (.ok token, lexer) =>
    (.ok (token.getD .TYPE_EOF), { this with lexer, token := some (token.getD .TYPE_EOF) })
  | (.error e, lexer) => (.error e, { this with lexer })

/-- What an operation on the stacks returns or throws. -/
def attempt {α : Type} (x : Except (Throwable D) α) : Parsing D α := fun this => (x, this)

/-- `throw new ParseException(getPosition(), ERROR_UNEXPECTED_TOKEN, token)` -/
def unexpected {α : Type} (token : Yytoken D) : Parsing D α := fun this =>
  (.error (.ParseException this.lexer.yychar (.ERROR_UNEXPECTED_TOKEN token)), this)

/-- The loop of `parse`. -/
def parseLoop (double : Doubles D) (size : Nat) : Nat → Stacks D →
    Parsing D (Item (Scalar D) × Heap (List Nat) (Scalar D))
  | 0, _ => throw .fuel
  | fuel + 1, s => do
    let token ← nextToken double size
    let this ← get
    match this.status with
    | .S_IN_FINISHED_VALUE =>
      if token.isEof then
        let (v, _) ← attempt (removeFirst s.valueStack)
        return (v, s.heap)
      else unexpected token
    | .S_IN_ERROR => unexpected token
    | status =>
      let (status, s) ← attempt (advance status token s)
      set { this with status }
      if status = .S_IN_ERROR then unexpected token
      else if token.isEof then unexpected token
      else parseLoop double size fuel s

/-- `parse(in)`: the value, and the containers it refers to. -/
def parse (double : Doubles D) (reader : Reader) : Parsing D (Item (Scalar D) × Heap (List Nat) (Scalar D)) := do
  modify fun this => this.reset reader
  parseLoop double (reader.rest.length + 1) (reader.rest.length + 1) {}

end JSONParser

/-! ## The stacks and the grammar -/

/-- The status of a container that is being built. -/
def statusOf : Doc.Context (List Nat) (Scalar D) → Status
  | .member _ _ => .S_IN_OBJECT
  | .element _ => .S_IN_ARRAY

/-- The stacks hold the part that has been read. -/
inductive Reps : Zip D → Status → Stacks D → Prop
  | init : Reps .init .S_INIT {}
  | object {r : Nat} {rs : List Nat} {m : List Nat → Option (Item (Scalar D))}
    {h : Heap (List Nat) (Scalar D)} {done : List (List Nat × Document D)} {cs : Around D} :
    Doc.InMap h r rs m done cs →
    Reps (.object done cs) .S_IN_OBJECT ⟨.S_IN_OBJECT :: cs.map statusOf, (r :: rs).map .ref, h⟩
  | value {r : Nat} {rs : List Nat} {m : List Nat → Option (Item (Scalar D))}
    {h : Heap (List Nat) (Scalar D)} {done : List (List Nat × Document D)} {k : List Nat} {cs : Around D} :
    Doc.InMap h r rs m done cs → Reps (.value done k cs) .S_PASSED_PAIR_KEY
      ⟨.S_PASSED_PAIR_KEY :: .S_IN_OBJECT :: cs.map statusOf,
        .scalar (.string k) :: (r :: rs).map .ref, h⟩
  | array {r : Nat} {rs : List Nat} {l : List (Item (Scalar D))} {h : Heap (List Nat) (Scalar D)}
    {done : List (Document D)} {cs : Around D} : Doc.InList h r rs l done cs →
    Reps (.array done cs) .S_IN_ARRAY ⟨.S_IN_ARRAY :: cs.map statusOf, (r :: rs).map .ref, h⟩
  | finished {v : Item (Scalar D)} {d : Document D} {s : Stacks D} {rest : List (Item (Scalar D))} :
    s.valueStack = v :: rest → Doc.Holds s.heap 0 s.heap.length v d →
    Reps (.finished d) .S_IN_FINISHED_VALUE s

variable {z z' : Zip D} {status : Status} {s : Stacks D} {token : Yytoken D} {cs : Around D}
  {h : Heap (List Nat) (Scalar D)} {r : Nat} {rs : List Nat} {d : Document D}

theorem contexts_length (hcontexts : Doc.Contexts h r rs cs) : rs.length = cs.length := by
  induction rs generalizing r cs with
  | nil =>
    cases cs with
    | nil => rfl
    | cons c cs => cases hcontexts
  | cons r' rs ih =>
    cases cs with
    | nil => cases hcontexts
    | cons c cs => rw [List.length_cons, List.length_cons, ih hcontexts.2.2]

/-- The end of a container. -/
theorem leave_spec (status : Status) (hclosed : Doc.Holds h r h.length (.ref r) d) (hcontexts : Doc.Contexts h r rs cs) :
    ∃ status' s', Stacks.leave ⟨status :: cs.map statusOf, (r :: rs).map .ref, h⟩ = .ok (status', s') ∧
      Reps (Zip.close d cs) status' s' := by
  have hlength := contexts_length hcontexts
  cases cs with
  | nil =>
    obtain rfl := List.eq_nil_of_length_eq_zero hlength
    exact ⟨_, _, rfl, .finished rfl (hclosed.mono (Nat.zero_le r) le_rfl fun _ _ _ => rfl)⟩
  | cons c cs =>
    obtain ⟨r', rs, rfl⟩ := List.exists_cons_of_length_pos (l := rs) (by rw [hlength]; exact Nat.succ_pos _)
    cases c with
    | member done k =>
      obtain ⟨m, hin⟩ := Doc.inMap_of_closed hclosed hcontexts
      exact ⟨_, _, rfl, .object hin⟩
    | element done =>
      obtain ⟨l, hin⟩ := Doc.inList_of_closed hclosed hcontexts
      exact ⟨_, _, rfl, .array hin⟩

variable {statusStack : List Status} {valueStack : List (Item (Scalar D))} {done : List (List Nat × Document D)}
  {items : List (Document D)} {l : List (Item (Scalar D))} {m : List Nat → Option (Item (Scalar D))}

theorem put_spec (hget : h[r]? = some (.map m)) (key : List Nat) (v : Item (Scalar D)) :
    Stacks.put ⟨statusStack, .ref r :: valueStack, h⟩ key v =
      .ok ⟨statusStack, .ref r :: valueStack, h.set r (.map (Doc.put m key v))⟩ := by
  show (match h[r]? with | some (.map m) => _ | _ => _) = _
  rw [hget]
  rfl

theorem add_spec (hget : h[r]? = some (.list l)) (v : Item (Scalar D)) :
    Stacks.add ⟨statusStack, .ref r :: valueStack, h⟩ v =
      .ok ⟨statusStack, .ref r :: valueStack, h.set r (.list (l ++ [v]))⟩ := by
  show (match h[r]? with | some (.list l) => _ | _ => _) = _
  rw [hget]
  rfl

/-- A new container that is put in the map, or added to the list, that is being built. -/
theorem put_new (hin : Doc.InMap h r rs m done cs) (c : Container (List Nat) (Scalar D)) (key : List Nat) :
    Stacks.put ⟨statusStack, .ref r :: valueStack, h ++ [c]⟩ key (.ref h.length) =
      .ok ⟨statusStack, .ref r :: valueStack, (h ++ [c]).set r (.map (Doc.put m key (.ref h.length)))⟩ :=
  put_spec (by rw [List.getElem?_append_left (Doc.lt_of_get hin.get), hin.get]) key _

theorem add_new (hin : Doc.InList h r rs l items cs) (c : Container (List Nat) (Scalar D)) :
    Stacks.add ⟨statusStack, .ref r :: valueStack, h ++ [c]⟩ (.ref h.length) =
      .ok ⟨statusStack, .ref r :: valueStack, (h ++ [c]).set r (.list (l ++ [.ref h.length]))⟩ :=
  add_spec (by rw [List.getElem?_append_left (Doc.lt_of_get hin.get), hin.get]) _

/-- A token leads on, or is an error, as the grammar says. -/
inductive Advances (token : Yytoken D) (status : Status) (s : Stacks D) : Option (Zip D) → Prop
  | on {z' : Zip D} {status' : Status} {s' : Stacks D} : advance status token s = .ok (status', s') →
    Reps z' status' s' → Advances token status s (some z')
  | error {s' : Stacks D} : advance status token s = .ok (.S_IN_ERROR, s') → Advances token status s none

theorem advance_init (token : Yytoken D) : Advances token .S_INIT {} (Zip.init.step token) := by
  cases token with
  | TYPE_VALUE v => exact .on rfl (.finished rfl rfl)
  | TYPE_LEFT_BRACE => exact .on rfl (.object Doc.inMap_single)
  | TYPE_LEFT_SQUARE => exact .on rfl (.array Doc.inList_single)
  | _ => exact .error rfl

theorem advance_object (hin : Doc.InMap h r rs m done cs) (token : Yytoken D) :
    Advances token .S_IN_OBJECT ⟨.S_IN_OBJECT :: cs.map statusOf, (r :: rs).map .ref, h⟩
      ((Zip.object done cs).step token) := by
  cases token with
  | TYPE_COMMA => exact .on rfl (.object hin)
  | TYPE_VALUE v =>
    cases v with
    | string k => exact .on rfl (.value hin)
    | _ => exact .error rfl
  | TYPE_RIGHT_BRACE =>
    obtain ⟨status', s', hleave, hreps⟩ := leave_spec .S_IN_OBJECT hin.closed hin.contexts
    exact .on hleave hreps
  | _ => exact .error rfl

theorem advance_value (hin : Doc.InMap h r rs m done cs) (k : List Nat) (token : Yytoken D) :
    Advances token .S_PASSED_PAIR_KEY ⟨.S_PASSED_PAIR_KEY :: .S_IN_OBJECT :: cs.map statusOf,
      .scalar (.string k) :: (r :: rs).map .ref, h⟩ ((Zip.value done k cs).step token) := by
  have hlt := Doc.lt_of_get hin.get
  cases token with
  | TYPE_COLON => exact .on rfl (.value hin)
  | TYPE_VALUE v =>
    refine .on ?_ (.object (hin.put k v))
    show (Stacks.put ⟨.S_IN_OBJECT :: cs.map statusOf, .ref r :: rs.map .ref, h⟩ k (.scalar v)).bind _ = _
    rw [put_spec hin.get]
    rfl
  | TYPE_LEFT_SQUARE =>
    refine .on ?_ (.array (Doc.inList_new hlt (hin.contexts_open k _)))
    show (Stacks.put ⟨.S_IN_OBJECT :: cs.map statusOf, .ref r :: rs.map .ref, h ++ [.list []]⟩ k
      (.ref h.length)).bind _ = _
    rw [put_new hin]
    rfl
  | TYPE_LEFT_BRACE =>
    refine .on ?_ (.object (Doc.inMap_new hlt (hin.contexts_open k _)))
    show (Stacks.put ⟨.S_IN_OBJECT :: cs.map statusOf, .ref r :: rs.map .ref, h ++ [.map Doc.empty]⟩ k
      (.ref h.length)).bind _ = _
    rw [put_new hin]
    rfl
  | _ => exact .error rfl

theorem advance_array (hin : Doc.InList h r rs l items cs) (token : Yytoken D) :
    Advances token .S_IN_ARRAY ⟨.S_IN_ARRAY :: cs.map statusOf, (r :: rs).map .ref, h⟩
      ((Zip.array items cs).step token) := by
  have hlt := Doc.lt_of_get hin.get
  cases token with
  | TYPE_COMMA => exact .on rfl (.array hin)
  | TYPE_VALUE v =>
    refine .on ?_ (.array (hin.add v))
    show (Stacks.add ⟨.S_IN_ARRAY :: cs.map statusOf, .ref r :: rs.map .ref, h⟩ (.scalar v)).bind _ = _
    rw [add_spec hin.get]
    rfl
  | TYPE_RIGHT_SQUARE =>
    obtain ⟨status', s', hleave, hreps⟩ := leave_spec .S_IN_ARRAY hin.closed hin.contexts
    exact .on hleave hreps
  | TYPE_LEFT_SQUARE =>
    refine .on ?_ (.array (Doc.inList_new hlt (hin.contexts_open _)))
    show (Stacks.add ⟨.S_IN_ARRAY :: cs.map statusOf, .ref r :: rs.map .ref, h ++ [.list []]⟩
      (.ref h.length)).bind _ = _
    rw [add_new hin]
    rfl
  | TYPE_LEFT_BRACE =>
    refine .on ?_ (.object (Doc.inMap_new hlt (hin.contexts_open _)))
    show (Stacks.add ⟨.S_IN_ARRAY :: cs.map statusOf, .ref r :: rs.map .ref, h ++ [.map Doc.empty]⟩
      (.ref h.length)).bind _ = _
    rw [add_new hin]
    rfl
  | _ => exact .error rfl

theorem advance_spec (hreps : Reps z status s) (hstatus : status ≠ .S_IN_FINISHED_VALUE)
    (token : Yytoken D) : Advances token status s (z.step token) := by
  cases hreps with
  | init => exact advance_init token
  | object hin => exact advance_object hin token
  | value hin => exact advance_value hin _ token
  | array hin => exact advance_array hin token
  | finished => exact absurd rfl hstatus

/-! ## The loop -/

/-- One turn of the loop: the value that is returned, or where the loop goes on. -/
def consume (position : Nat) (status : Status) (token : Yytoken D) (s : Stacks D) :
    Except (Throwable D) (Item (Scalar D) × Heap (List Nat) (Scalar D) ⊕ Status × Stacks D) :=
  match status with
  | .S_IN_FINISHED_VALUE =>
    if token.isEof then (removeFirst s.valueStack).map fun r => .inl (r.1, s.heap)
    else .error (.ParseException position (.ERROR_UNEXPECTED_TOKEN token))
  | .S_IN_ERROR => .error (.ParseException position (.ERROR_UNEXPECTED_TOKEN token))
  | status =>
    match advance status token s with
    | .error e => .error e
    | .ok (status, s) =>
      if status = .S_IN_ERROR ∨ token.isEof then
        .error (.ParseException position (.ERROR_UNEXPECTED_TOKEN token))
      else .ok (.inr (status, s))

/-- The loop ends at `TYPE_EOF`. -/
theorem consume_eof {position : Nat} {next : Status × Stacks D} :
    consume position status .TYPE_EOF s ≠ .ok (.inr next) := by
  intro hconsume
  unfold consume at hconsume
  split at hconsume
  · have heof : (Yytoken.TYPE_EOF : Yytoken D).isEof = true := rfl
    rw [if_pos heof] at hconsume
    revert hconsume
    cases s.valueStack <;> nofun
  · cases hconsume
  · split at hconsume
    · cases hconsume
    · rw [if_pos (.inr rfl)] at hconsume
      cases hconsume

/-- The loop on the tokens of a text. -/
def parseTokens (status : Status) (s : Stacks D) : List (Nat × Yytoken D) → Ending D →
    Except (Throwable D) (Item (Scalar D) × Heap (List Nat) (Scalar D))
  | [], .thrown e => .error e
  | [], .eof p =>
    match consume p status .TYPE_EOF s with
    | .error x => .error x
    | .ok (.inl r) => .ok r
    | .ok (.inr _) => .error .fuel
  | (p, token) :: ts, e =>
    match consume p status token s with
    | .error x => .error x
    | .ok (.inl r) => .ok r
    | .ok (.inr (status, s)) => parseTokens status s ts e

namespace JSONParser
variable {double : Doubles D} {this this₁ : JSONParser D} {size fuel : Nat}

theorem nextToken_spec {token : Option (Yytoken D)} {lexer : Yylex}
    (h : Yylex.yylex double fuel this.lexer = (.ok token, lexer)) : nextToken double fuel this =
      (.ok (token.getD .TYPE_EOF), { this with lexer, token := some (token.getD .TYPE_EOF) }) := by
  unfold nextToken
  rw [h]

theorem nextToken_thrown {e : Throwable D} {lexer : Yylex}
    (h : Yylex.yylex double fuel this.lexer = (.error e, lexer)) :
    nextToken double fuel this = (.error e, { this with lexer }) := by
  unfold nextToken
  rw [h]

theorem bind_attempt {α β : Type} (x : Except (Throwable D) α) (f : α → Parsing D β) :
    (attempt x >>= f) this = match x with
      | .ok a => f a this
      | .error e => (.error e, this) := by
  rw [Failing.run_bind]
  cases x <;> rfl

theorem parseLoop_succ (fuel : Nat) (s : Stacks D) (h : nextToken double size this = (.ok token, this₁)) :
    ∃ this', parseLoop double size (fuel + 1) s this =
        (match consume this₁.lexer.yychar this₁.status token s with
          | .error x => (.error x, this')
          | .ok (.inl r) => (.ok r, this')
          | .ok (.inr (status, s)) => parseLoop double size fuel s { this₁ with status }) ∧
      this'.lexer = this₁.lexer := by
  rw [parseLoop, bind_ok h, bind_ok (Failing.run_get this₁)]
  cases hstatus : this₁.status with
  | S_IN_FINISHED_VALUE =>
    simp only [consume]
    by_cases heof : token.isEof = true
    · rw [if_pos heof, if_pos heof, bind_attempt]
      cases s.valueStack with
      | nil => exact ⟨this₁, rfl, rfl⟩
      | cons v rest => exact ⟨this₁, rfl, rfl⟩
    · rw [if_neg heof, if_neg heof]
      exact ⟨this₁, rfl, rfl⟩
  | S_IN_ERROR => exact ⟨this₁, rfl, rfl⟩
  | _ =>
    simp only [consume, bind_attempt]
    obtain e | ⟨status', s'⟩ := advance _ token s
    · exact ⟨this₁, rfl, rfl⟩
    · dsimp only
      rw [bind_ok (Failing.run_set this₁ _)]
      by_cases herror : status' = .S_IN_ERROR
      · rw [if_pos herror, if_pos (.inl herror)]
        exact ⟨_, rfl, rfl⟩
      · by_cases heof : token.isEof = true
        · rw [if_neg herror, if_pos heof, if_pos (.inr heof)]
          exact ⟨_, rfl, rfl⟩
        · rw [if_neg herror, if_neg heof, if_neg (by simp [herror, heof])]
          exact ⟨this₁, rfl, rfl⟩

/-- **The loop is the one on the tokens of the text.** -/
theorem parseLoop_spec (s : Stacks D) {t : Text} {ts : List (Nat × Yytoken D)} {e : Ending D}
    (hreads : Reads double t ts e) (hat : this.lexer.At t) (hsize : t.rest.length < 2 ^ 30)
    (hlex : t.rest.length < size) (hfuel : t.rest.length < fuel) :
    ∃ this', parseLoop double size fuel s this = (parseTokens this.status s ts e, this') ∧
      this'.lexer.Fits := by
  induction ts generalizing this t s fuel with
  | nil =>
    obtain ⟨fuel, rfl⟩ := Nat.exists_eq_succ_of_ne_zero (Nat.ne_of_gt (Nat.zero_lt_of_lt hfuel))
    have hspec := Yylex.yylex_spec hreads hat hsize hlex
    cases e with
    | thrown e =>
      obtain ⟨lexer, hyylex, hfits⟩ := hspec
      exact ⟨_, by rw [parseLoop, bind_error (nextToken_thrown hyylex)]; rfl, hfits⟩
    | eof p =>
      obtain ⟨lexer, hyylex, hyychar, hfits⟩ := hspec
      obtain ⟨this', hloop, hlexer⟩ := parseLoop_succ fuel s (nextToken_spec hyylex)
      refine ⟨this', ?_⟩
      rw [hloop, parseTokens]
      dsimp only [Option.getD_none]
      rw [hyychar]
      rcases hconsume : consume p this.status .TYPE_EOF s with x | r | next
      · exact ⟨rfl, by rw [hlexer]; exact hfits⟩
      · exact ⟨rfl, by rw [hlexer]; exact hfits⟩
      · exact absurd hconsume consume_eof
  | cons p ts ih =>
    obtain ⟨p, token⟩ := p
    obtain ⟨fuel, rfl⟩ := Nat.exists_eq_succ_of_ne_zero (Nat.ne_of_gt (Nat.zero_lt_of_lt hfuel))
    obtain ⟨lexer, t', hyylex, hyychar, hat', hlt, hreads'⟩ := Yylex.yylex_spec hreads hat hsize hlex
    obtain ⟨this', hloop, hlexer⟩ := parseLoop_succ fuel s (nextToken_spec hyylex)
    rw [hloop, parseTokens]
    dsimp only [Option.getD_some]
    rw [hyychar]
    obtain x | r | ⟨status', s'⟩ := consume p this.status token s
    · exact ⟨this', rfl, by rw [hlexer]; exact hat'.fits⟩
    · exact ⟨this', rfl, by rw [hlexer]; exact hat'.fits⟩
    · exact ih s' hreads' hat' (by omega) (by omega) (by omega)

/-- **`parse` reads the tokens of the text**, whatever has been parsed before. -/
theorem parse_eq {reader : Reader} {ts : List (Nat × Yytoken D)} {e : Ending D}
    (hfits : 0 < this.lexer.zzBuffer.length) (hreads : Reads double ⟨{}, 0, reader.rest⟩ ts e)
    (hsize : reader.rest.length < 2 ^ 30) :
    ∃ this', parse double reader this = (parseTokens .S_INIT {} ts e, this') ∧
      0 < this'.lexer.zzBuffer.length := by
  have hat : (this.reset reader).lexer.At ⟨⟨YYINITIAL, this.lexer.sb⟩, 0, reader.rest⟩ :=
    Yylex.yyreset_at hfits reader
  obtain ⟨this', hloop, hfits'⟩ := parseLoop_spec {} (reads_withString hreads this.lexer.sb) hat hsize
    (Nat.lt_succ_self reader.rest.length) (Nat.lt_succ_self reader.rest.length)
  refine ⟨this', ?_, hfits'.nonempty⟩
  rw [parse, bind_ok (Failing.run_modify _ this)]
  exact hloop

end JSONParser

/-! ## The grammar -/

/-- What becomes of the tokens from here on. -/
def Zip.outcome (z : Zip D) : List (Nat × Yytoken D) → Ending D → Except (Throwable D) (Document D)
  | [], .thrown e => .error e
  | [], .eof p =>
    match z with
    | .finished d => .ok d
    | _ => .error (.ParseException p (.ERROR_UNEXPECTED_TOKEN .TYPE_EOF))
  | (p, token) :: ts, e =>
    match z.step token with
    | some z' => z'.outcome ts e
    | none => .error (.ParseException p (.ERROR_UNEXPECTED_TOKEN token))

theorem Reps.status_ne (h : Reps z status s) : status ≠ .S_IN_ERROR := by
  cases h <;> decide

theorem step_eof (z : Zip D) : z.step .TYPE_EOF = none := by
  cases z <;> rfl

/-- One turn of the loop on what has been read. -/
theorem consume_spec (position : Nat) (token : Yytoken D) (hreps : Reps z status s) (hstatus : status ≠ .S_IN_FINISHED_VALUE) :
    match z.step token with
    | some z' => ∃ status' s', consume position status token s = .ok (.inr (status', s')) ∧ Reps z' status' s'
    | none => consume position status token s = .error (.ParseException position (.ERROR_UNEXPECTED_TOKEN token)) := by
  have hconsume : consume position status token s = match advance status token s with
      | .error e => .error e
      | .ok (status, s) =>
        if status = .S_IN_ERROR ∨ token.isEof then
          .error (.ParseException position (.ERROR_UNEXPECTED_TOKEN token))
        else .ok (.inr (status, s)) := by
    unfold consume
    split
    · exact absurd rfl hstatus
    · exact absurd rfl hreps.status_ne
    · rfl
  rw [hconsume]
  have hadvances := advance_spec hreps hstatus token
  cases hstep : z.step token with
  | none =>
    rw [hstep] at hadvances
    cases hadvances with
    | error hadvance =>
      rw [hadvance]
      exact if_pos (.inl rfl)
  | some z' =>
    rw [hstep] at hadvances
    cases hadvances with
    | @on z' status' s' hadvance hreps' =>
      have heof : token.isEof ≠ true := by
        intro heof
        rw [Yytoken.isEof_iff.1 heof, step_eof] at hstep
        cases hstep
      refine ⟨status', s', ?_, hreps'⟩
      rw [hadvance]
      exact if_neg fun h => h.elim hreps'.status_ne heof

/-- **The loop comes to what the grammar says.** -/
theorem parseTokens_spec {ts : List (Nat × Yytoken D)} {e : Ending D} (hreps : Reps z status s)
    (hts : ∀ p ∈ ts, p.2.isEof = false) :
    match z.outcome ts e with
    | .ok d => ∃ v h, parseTokens status s ts e = .ok (v, h) ∧ Doc.Holds h 0 h.length v d
    | .error x => parseTokens status s ts e = .error x := by
  induction ts generalizing z status s with
  | nil =>
    cases e with
    | thrown e => rfl
    | eof p =>
      by_cases hstatus : status = .S_IN_FINISHED_VALUE
      · subst hstatus
        cases hreps with
        | @finished v d s rest hstack hholds =>
          refine ⟨v, s.heap, ?_, hholds⟩
          simp only [parseTokens, consume, Yytoken.isEof, if_true, hstack, removeFirst]
          rfl
      · have hconsume := consume_spec p .TYPE_EOF hreps hstatus
        rw [step_eof] at hconsume
        cases hreps with
        | finished => exact absurd rfl hstatus
        | _ =>
          simp only [Zip.outcome, parseTokens]
          rw [hconsume]
  | cons q ts ih =>
    obtain ⟨p, token⟩ := q
    have htoken : token.isEof = false := hts (p, token) (List.mem_cons_self ..)
    have hrest : ∀ q ∈ ts, q.2.isEof = false := fun q hq => hts q (List.mem_cons_of_mem _ hq)
    by_cases hstatus : status = .S_IN_FINISHED_VALUE
    · subst hstatus
      cases hreps with
      | finished =>
        simp only [Zip.outcome, Zip.step, parseTokens, consume, htoken, Bool.false_eq_true, if_false]
    · have hconsume := consume_spec p token hreps hstatus
      rw [Zip.outcome, parseTokens]
      cases hstep : z.step token with
      | none =>
        rw [hstep] at hconsume
        rw [hconsume]
      | some z' =>
        rw [hstep] at hconsume
        obtain ⟨status', s', hconsume, hreps'⟩ := hconsume
        rw [hconsume]
        exact ih hreps' hrest

theorem Zip.outcome_ok {ts : List (Nat × Yytoken D)} {e : Ending D} :
    z.outcome ts e = .ok d ↔ (∃ p, e = .eof p) ∧ z.steps (ts.map Prod.snd) = some (.finished d) := by
  induction ts generalizing z with
  | nil =>
    cases e with
    | thrown e => simp [outcome]
    | eof p => cases z <;> simp [outcome, steps]
  | cons q ts ih =>
    obtain ⟨p, token⟩ := q
    rw [outcome, List.map_cons, steps]
    cases z.step token with
    | none => simp
    | some z' => exact ih

/-- The text is that of the document. -/
def TextOf (double : Doubles D) (text : List Nat) (d : Document D) : Prop :=
  ∃ ts p, Reads double ⟨{}, 0, text⟩ ts (.eof p) ∧ Value (ts.map Prod.snd) d

theorem TextOf.unique {double : Doubles D} {text : List Nat} {d d' : Document D}
    (h : TextOf double text d) (h' : TextOf double text d') : d = d' := by
  obtain ⟨ts, p, hreads, hvalue⟩ := h
  obtain ⟨ts', p', hreads', hvalue'⟩ := h'
  obtain ⟨rfl, -⟩ := hreads.unique hreads'
  exact hvalue.unique hvalue'

/-- The exceptions of the scanner. -/
def Throwable.IsSyntax (e : Throwable D) : Prop :=
  (∃ position unexpected, e = .ParseException position unexpected) ∨ e = .NumberFormatException

theorem act_token {double : Doubles D} {action : Nat} {yytext : List Nat} {yychar : Nat} {m m' : Mode}
    (h : act double action yytext yychar m = some (.ok (some token, m'))) : token.isEof = false := by
  unfold act at h
  split at h
  case h_9 | h_18 | h_21 => split at h <;> cases h <;> rfl
  all_goals cases h <;> rfl

theorem act_error {double : Doubles D} {action : Nat} {yytext : List Nat} {yychar : Nat} {m : Mode}
    {e : Throwable D} (h : act double action yytext yychar m = some (.error e)) : e.IsSyntax := by
  unfold act at h
  split at h
  case h_9 | h_18 | h_21 =>
    split at h <;> cases h
    first | exact .inr rfl | exact .inl ⟨_, _, rfl⟩
  all_goals first | (cases h; exact .inl ⟨_, _, rfl⟩) | cases h

theorem Text.round_act {double : Doubles D} {t : Text}
    {r : Except (Throwable D) (Option (Yytoken D) × Text)} (h : t.round double = some r) :
    ∃ action yytext r', act double action yytext t.yychar t.toMode = some r' ∧
      r'.map Prod.fst = r.map Prod.fst := by
  unfold round at h
  split at h
  · cases h
  · next q n hmunch =>
    obtain ⟨r', hact, rfl⟩ := Option.map_eq_some_iff.1 h
    refine ⟨_, _, r', hact, ?_⟩
    cases r' <;> rfl

/-- The tokens of a text do not have `TYPE_EOF`, and what the scanner throws is about the syntax. -/
theorem Reads.spec {double : Doubles D} {t : Text} {ts : List (Nat × Yytoken D)} {e : Ending D}
    (h : Reads double t ts e) : (∀ p ∈ ts, p.2.isEof = false) ∧ ∀ x, e = .thrown x → x.IsSyntax := by
  induction h with
  | eof => exact ⟨nofun, nofun⟩
  | thrown hround =>
    refine ⟨nofun, ?_⟩
    rintro x ⟨⟩
    obtain ⟨action, yytext, r', hact, hr⟩ := Text.round_act hround
    cases r' with
    | ok p => cases hr
    | error e =>
      cases hr
      exact act_error hact
  | skip hround h ih => exact ih
  | token hround h ih =>
    refine ⟨List.forall_mem_cons.2 ⟨?_, ih.1⟩, ih.2⟩
    obtain ⟨action, yytext, r', hact, hr⟩ := Text.round_act hround
    obtain e | ⟨token', m'⟩ := r'
    · cases hr
    · cases hr
      exact act_token hact

theorem Zip.outcome_error {ts : List (Nat × Yytoken D)} {e : Ending D} {x : Throwable D}
    (h : z.outcome ts e = .error x) (hthrown : ∀ x, e = .thrown x → x.IsSyntax) : x.IsSyntax := by
  induction ts generalizing z with
  | nil =>
    cases e with
    | thrown e =>
      cases h
      exact hthrown _ rfl
    | eof p => cases z <;> cases h <;> exact .inl ⟨_, _, rfl⟩
  | cons q ts ih =>
    obtain ⟨p, token⟩ := q
    rw [outcome] at h
    cases hstep : z.step token with
    | none =>
      rw [hstep] at h
      cases h
      exact .inl ⟨_, _, rfl⟩
    | some z' =>
      rw [hstep] at h
      exact ih h

/-- What `parse` may come to on a text. -/
inductive Parsed (double : Doubles D) (text : List Nat) :
    Except (Throwable D) (Item (Scalar D) × Heap (List Nat) (Scalar D)) → Prop
  | ok {v : Item (Scalar D)} {h : Heap (List Nat) (Scalar D)} {d : Document D} : TextOf double text d →
    Doc.Holds h 0 h.length v d → Parsed double text (.ok (v, h))
  | error {e : Throwable D} : (∀ d, ¬ TextOf double text d) → e.IsSyntax → Parsed double text (.error e)

theorem Parsed.of_textOf {double : Doubles D} {text : List Nat}
    {r : Except (Throwable D) (Item (Scalar D) × Heap (List Nat) (Scalar D))} (h : Parsed double text r)
    (htext : TextOf double text d) : ∃ v h, r = .ok (v, h) ∧ Doc.Holds h 0 h.length v d := by
  cases h with
  | @ok v h d' htext' hholds => exact ⟨v, h, rfl, htext.unique htext' ▸ hholds⟩
  | error hno _ => exact absurd htext (hno d)

theorem parseTokens_parsed {double : Doubles D} {text : List Nat} {ts : List (Nat × Yytoken D)} {e : Ending D}
    (hreads : Reads double ⟨{}, 0, text⟩ ts e) : Parsed double text (parseTokens .S_INIT {} ts e) := by
  obtain ⟨htokens, hthrown⟩ := hreads.spec
  have hspec := parseTokens_spec (e := e) .init htokens
  cases houtcome : Zip.init.outcome ts e with
  | ok d =>
    rw [houtcome] at hspec
    obtain ⟨v, h, hparse, hholds⟩ := hspec
    obtain ⟨⟨p, rfl⟩, hsteps⟩ := Zip.outcome_ok.1 houtcome
    rw [hparse]
    exact .ok ⟨ts, p, hreads, Zip.value_iff.1 hsteps⟩ hholds
  | error x =>
    rw [houtcome] at hspec
    rw [show parseTokens .S_INIT {} ts e = .error x from hspec]
    refine .error ?_ (Zip.outcome_error houtcome hthrown)
    rintro d ⟨ts', p, hreads', hvalue⟩
    obtain ⟨rfl, rfl⟩ := hreads.unique hreads'
    rw [Zip.outcome_ok.2 ⟨⟨p, rfl⟩, Zip.value_iff.2 hvalue⟩] at houtcome
    cases houtcome

namespace JSONParser

/-- **A value is returned for the texts of documents alone, and holds the document.** On other texts the
exception is one about the syntax: no cast fails, no stack is empty, and the loop ends. -/
theorem parse_spec (double : Doubles D) (this : JSONParser D) (reader : Reader)
    (hfits : 0 < this.lexer.zzBuffer.length) (hsize : reader.rest.length < 2 ^ 30) :
    Parsed double reader.rest (parse double reader this).1 ∧
      0 < (parse double reader this).2.lexer.zzBuffer.length := by
  obtain ⟨ts, e, hreads⟩ := exists_reads double ⟨{}, 0, reader.rest⟩
  obtain ⟨this', hparse, hfits'⟩ := parse_eq hfits hreads hsize
  rw [hparse]
  exact ⟨parseTokens_parsed hreads, hfits'⟩

/-- `[1]`, read two characters at a time -/
theorem parse_spec_array : Parsed (⟨fun _ => none, fun _ => [], fun _ => false, fun _ => false⟩ : Doubles Unit)
      [91, 49, 93] (parse ⟨fun _ => none, fun _ => [], fun _ => false, fun _ => false⟩
        ⟨[91, 49, 93], fun _ => 2, 0⟩ { lexer := { zzReader := ⟨[], fun _ => 1, 0⟩ } }).1 ∧
    0 < (parse (⟨fun _ => none, fun _ => [], fun _ => false, fun _ => false⟩ : Doubles Unit)
      ⟨[91, 49, 93], fun _ => 2, 0⟩ { lexer := { zzReader := ⟨[], fun _ => 1, 0⟩ } }).2.lexer.zzBuffer.length :=
  parse_spec _ _ ⟨[91, 49, 93], fun _ => 2, 0⟩ (by rw [List.length_replicate]; decide) (by decide)

/-- **What is read depends on the text alone**: not on how the reader cuts it, nor on what the parser has
read before. -/
theorem parse_text (double : Doubles D) (this this' : JSONParser D) (reader reader' : Reader)
    (hfits : 0 < this.lexer.zzBuffer.length) (hfits' : 0 < this'.lexer.zzBuffer.length)
    (hrest : reader.rest = reader'.rest) (hsize : reader.rest.length < 2 ^ 30) :
    (parse double reader this).1 = (parse double reader' this').1 := by
  obtain ⟨ts, e, hreads⟩ := exists_reads double ⟨{}, 0, reader.rest⟩
  obtain ⟨this₁, hparse, -⟩ := parse_eq hfits hreads hsize
  rw [hrest] at hreads hsize
  obtain ⟨this₁', hparse', -⟩ := parse_eq hfits' hreads hsize
  rw [hparse, hparse']

theorem parse_text_array :
    (parse (⟨fun _ => none, fun _ => [], fun _ => false, fun _ => false⟩ : Doubles Unit)
      ⟨[91, 49, 93], fun _ => 2, 0⟩ { lexer := { zzReader := ⟨[], fun _ => 1, 0⟩ } }).1 =
    (parse ⟨fun _ => none, fun _ => [], fun _ => false, fun _ => false⟩ ⟨[91, 49, 93], fun _ => 3, 0⟩
      { lexer := { zzReader := ⟨[], fun _ => 1, 0⟩, zzBuffer := [34], sb := [34] }, status := .S_IN_ERROR }).1 :=
  parse_text _ _ _ ⟨[91, 49, 93], fun _ => 2, 0⟩ ⟨[91, 49, 93], fun _ => 3, 0⟩ 
    (by rw [List.length_replicate]; decide) (by decide) rfl (by decide)

end JSONParser

/-! ## How long strings are -/

/-- The string, if it is one, has no more than `n` characters. -/
def Scalar.Within (n : Nat) : Scalar D → Prop
  | .string s => s.length ≤ n
  | _ => True

theorem Scalar.Within.mono {n n' : Nat} {v : Scalar D} (h : v.Within n) (hle : n ≤ n') : v.Within n' := by
  cases v with
  | string s => exact le_trans (show s.length ≤ n from h) hle
  | _ => trivial

theorem act_within {double : Doubles D} {action : Nat} {yytext : List Nat} {yychar : Nat} {m m' : Mode}
    {token : Option (Yytoken D)} (h : act double action yytext yychar m = some (.ok (token, m')))
    (hne : 0 < yytext.length) : m'.sb.length ≤ m.sb.length + yytext.length ∧
      ∀ v, token = some (.TYPE_VALUE v) → v.Within m.sb.length := by
  unfold act at h
  split at h
  case h_9 | h_18 | h_21 =>
    split at h <;> cases h
    exact ⟨by simp [Mode.append]; try omega, by rintro v ⟨⟩ <;> trivial⟩
  case h_7 =>
    cases h
    exact ⟨Nat.le_add_right _ _, by rintro v ⟨⟩; exact le_rfl⟩
  all_goals
    cases h <;> exact ⟨by simp [Mode.append]; try omega, by rintro v ⟨⟩ <;> trivial⟩

theorem Text.round_within {double : Doubles D} {t t' : Text} {token : Option (Yytoken D)}
    (h : t.round double = some (.ok (token, t'))) :
    t'.sb.length + t'.rest.length ≤ t.sb.length + t.rest.length ∧
      ∀ v, token = some (.TYPE_VALUE v) → v.Within t.sb.length := by
  unfold round at h
  split at h
  · cases h
  · next q n hmunch =>
    obtain ⟨r, hact, hr⟩ := Option.map_eq_some_iff.1 h
    cases r with
    | error e => cases hr
    | ok r =>
      cases hr
      have hlongest := Scanner.munch_eq_some_iff.1 hmunch
      have hpos := hlongest.positive
      have hle := hlongest.le
      obtain ⟨hsb, htoken⟩ := act_within hact (by rw [List.length_take]; omega)
      refine ⟨?_, htoken⟩
      rw [List.length_take] at hsb
      rw [List.length_drop]
      dsimp only
      omega

theorem Reads.within {double : Doubles D} {t : Text} {ts : List (Nat × Yytoken D)} {e : Ending D}
    (h : Reads double t ts e) :
    ∀ v, .TYPE_VALUE v ∈ ts.map Prod.snd → v.Within (t.sb.length + t.rest.length) := by
  induction h with
  | eof | thrown => nofun
  | skip hround _ ih => exact fun v hv => (ih v hv).mono (Text.round_within hround).1
  | token hround _ ih =>
    obtain ⟨hle, htoken⟩ := Text.round_within hround
    intro v hv
    cases hv with
    | head => exact (htoken v rfl).mono (Nat.le_add_right _ _)
    | tail _ hv => exact (ih v hv).mono hle

mutual

/-- The scalars of a document are among its tokens. -/
theorem Value.all {P : Scalar D → Prop} : ∀ {ts : List (Yytoken D)} {d : Document D}, Value ts d →
    (∀ v, .TYPE_VALUE v ∈ ts → P v) → Doc.All P d
  | _, _, .scalar v, hP => hP v (List.mem_singleton.2 rfl)
  | _, _, .object h, hP => Members.all h fun v hv => hP v (by simp [hv])
  | _, _, .array h, hP => Elements.all h fun v hv => hP v (by simp [hv])

theorem Members.all {P : Scalar D → Prop} : ∀ {ts : List (Yytoken D)} {members : List (List Nat × Document D)},
    Members ts members → (∀ v, .TYPE_VALUE v ∈ ts → P v) → Doc.AllMembers P members
  | _, _, .nil, _ => trivial
  | _, _, .comma h, hP => Members.all h fun v hv => hP v (List.mem_cons_of_mem _ hv)
  | _, _, .member k n hv h, hP =>
    ⟨Value.all hv fun v hmem => hP v (by simp [hmem]), Members.all h fun v hmem => hP v (by simp [hmem])⟩

theorem Elements.all {P : Scalar D → Prop} : ∀ {ts : List (Yytoken D)} {elements : List (Document D)},
    Elements ts elements → (∀ v, .TYPE_VALUE v ∈ ts → P v) → Doc.AllElements P elements
  | _, _, .nil, _ => trivial
  | _, _, .comma h, hP => Elements.all h fun v hv => hP v (List.mem_cons_of_mem _ hv)
  | _, _, .element hv h, hP =>
    ⟨Value.all hv fun v hmem => hP v (List.mem_append_left _ hmem),
      Elements.all h fun v hmem => hP v (List.mem_append_right _ hmem)⟩

end

/-- No string of a document is longer than its text. -/
theorem TextOf.within {double : Doubles D} {text : List Nat} {d : Document D} (h : TextOf double text d) :
    Doc.All (Scalar.Within text.length) d := by
  obtain ⟨ts, p, hreads, hvalue⟩ := h
  exact hvalue.all fun v hv => (hreads.within v hv).mono (by simp)

end BaseService.Notify.JSON
