import BaseService.Data.Documents
import BaseService.Notify.Yylex

/-!
# The documents that the parser reads

* `Value`, `Members`, `Elements` : the tokens of a document. Commas may stand anywhere between members and
  elements, and colons anywhere in front of a member's value;
* `Zip` : the part of a document that has been read; `Zip.step` : one more token;
* `value_iff` : **the tokens that lead from the start to a whole document are its tokens.**
-/

namespace BaseService.Notify.JSON

variable {D : Type}

abbrev Document (D : Type) := Doc (List Nat) (Scalar D)

/-- What is around a document. -/
abbrev Around (D : Type) := List (Doc.Context (List Nat) (Scalar D))

/-! ## The grammar -/

mutual

inductive Value : List (Yytoken D) → Document D → Prop
  | scalar (v : Scalar D) : Value [.TYPE_VALUE v] (.scalar v)
  | object {ts : List (Yytoken D)} {members : List (List Nat × Document D)} : Members ts members →
    Value (.TYPE_LEFT_BRACE :: (ts ++ [.TYPE_RIGHT_BRACE])) (.object members)
  | array {ts : List (Yytoken D)} {elements : List (Document D)} : Elements ts elements →
    Value (.TYPE_LEFT_SQUARE :: (ts ++ [.TYPE_RIGHT_SQUARE])) (.array elements)

inductive Members : List (Yytoken D) → List (List Nat × Document D) → Prop
  | nil : Members [] []
  | comma {ts : List (Yytoken D)} {members : List (List Nat × Document D)} : Members ts members →
    Members (.TYPE_COMMA :: ts) members
  | member {ts vs : List (Yytoken D)} {members : List (List Nat × Document D)} {d : Document D}
    (k : List Nat) (n : Nat) : Value vs d → Members ts members →
    Members (.TYPE_VALUE (.string k) :: (List.replicate n .TYPE_COLON ++ (vs ++ ts))) ((k, d) :: members)

inductive Elements : List (Yytoken D) → List (Document D) → Prop
  | nil : Elements [] []
  | comma {ts : List (Yytoken D)} {elements : List (Document D)} : Elements ts elements →
    Elements (.TYPE_COMMA :: ts) elements
  | element {ts vs : List (Yytoken D)} {elements : List (Document D)} {d : Document D} : Value vs d →
    Elements ts elements → Elements (vs ++ ts) (d :: elements)

end

variable {ts ts' vs : List (Yytoken D)} {d : Document D} {members members' : List (List Nat × Document D)}
  {elements elements' : List (Document D)}

theorem Members.append (h' : Members ts' members') : ∀ {ts : List (Yytoken D)}
    {members : List (List Nat × Document D)}, Members ts members → Members (ts ++ ts') (members ++ members')
  | _, _, .nil => h'
  | _, _, .comma h => .comma (h'.append h)
  | _, _, .member k n hv h => by
    rw [List.cons_append, List.append_assoc, List.append_assoc]
    exact .member k n hv (h'.append h)

theorem Elements.append (h' : Elements ts' elements') : ∀ {ts : List (Yytoken D)}
    {elements : List (Document D)}, Elements ts elements → Elements (ts ++ ts') (elements ++ elements')
  | _, _, .nil => h'
  | _, _, .comma h => .comma (h'.append h)
  | _, _, .element hv h => by
    rw [List.append_assoc]
    exact .element hv (h'.append h)

theorem Members.snoc (h : Members ts members) (k : List Nat) (n : Nat) (hv : Value vs d) :
    Members (ts ++ .TYPE_VALUE (.string k) :: (List.replicate n .TYPE_COLON ++ vs)) (members ++ [(k, d)]) := by
  have hmember := Members.member k n hv .nil
  rw [List.append_nil] at hmember
  exact hmember.append h

theorem Elements.snoc (h : Elements ts elements) (hv : Value vs d) :
    Elements (ts ++ vs) (elements ++ [d]) := by
  have helement := Elements.element hv .nil
  rw [List.append_nil] at helement
  exact helement.append h

/-! ## The part that has been read -/

inductive Zip (D : Type)
  | init
  | object (done : List (List Nat × Document D)) (cs : Around D)
  | value (done : List (List Nat × Document D)) (k : List Nat) (cs : Around D)
  | array (done : List (Document D)) (cs : Around D)
  | finished (d : Document D)

namespace Zip

/-- A document is awaited. -/
def await : Around D → Zip D
  | [] => init
  | .member done k :: cs => value done k cs
  | .element done :: cs => array done cs

/-- The document has been read. -/
def close (d : Document D) : Around D → Zip D
  | [] => finished d
  | .member done k :: cs => object (done ++ [(k, d)]) cs
  | .element done :: cs => array (done ++ [d]) cs

def step : Zip D → Yytoken D → Option (Zip D)
  | init, .TYPE_VALUE v => some (finished (.scalar v))
  | init, .TYPE_LEFT_BRACE => some (object [] [])
  | init, .TYPE_LEFT_SQUARE => some (array [] [])
  | object done cs, .TYPE_COMMA => some (object done cs)
  | object done cs, .TYPE_VALUE (.string k) => some (value done k cs)
  | object done cs, .TYPE_RIGHT_BRACE => some (close (.object done) cs)
  | value done k cs, .TYPE_COLON => some (value done k cs)
  | value done k cs, .TYPE_VALUE v => some (object (done ++ [(k, .scalar v)]) cs)
  | value done k cs, .TYPE_LEFT_SQUARE => some (array [] (.member done k :: cs))
  | value done k cs, .TYPE_LEFT_BRACE => some (object [] (.member done k :: cs))
  | array done cs, .TYPE_COMMA => some (array done cs)
  | array done cs, .TYPE_VALUE v => some (array (done ++ [.scalar v]) cs)
  | array done cs, .TYPE_RIGHT_SQUARE => some (close (.array done) cs)
  | array done cs, .TYPE_LEFT_BRACE => some (object [] (.element done :: cs))
  | array done cs, .TYPE_LEFT_SQUARE => some (array [] (.element done :: cs))
  | _, _ => none

def steps (z : Zip D) : List (Yytoken D) → Option (Zip D)
  | [] => some z
  | t :: ts => (z.step t).bind fun z' => steps z' ts

variable {z z' : Zip D} {t : Yytoken D} {cs : Around D}

theorem steps_append : z.steps (ts ++ ts') = (z.steps ts).bind fun z' => z'.steps ts' := by
  induction ts generalizing z with
  | nil => rfl
  | cons t ts ih =>
    rw [List.cons_append, steps, steps]
    cases z.step t with
    | none => rfl
    | some z' => exact ih

theorem steps_cons (h : z.step t = some z') : z.steps (t :: ts) = z'.steps ts := by
  rw [steps, h, Option.bind_some]

theorem step_await_value (v : Scalar D) (cs : Around D) :
    (await cs).step (.TYPE_VALUE v) = some (close (.scalar v) cs) := by
  rcases cs with _ | ⟨_ | _, cs⟩ <;> rfl

theorem step_await_brace (cs : Around D) :
    (await cs).step (.TYPE_LEFT_BRACE) = some (object [] cs) := by
  rcases cs with _ | ⟨_ | _, cs⟩ <;> rfl

theorem step_await_square (cs : Around D) :
    (await cs).step (.TYPE_LEFT_SQUARE) = some (array [] cs) := by
  rcases cs with _ | ⟨_ | _, cs⟩ <;> rfl

theorem steps_colons (done : List (List Nat × Document D)) (k : List Nat) (cs : Around D) (n : Nat) :
    (value done k cs).steps (List.replicate n .TYPE_COLON ++ ts) = (value done k cs).steps ts := by
  induction n with
  | zero => rfl
  | succ n ih =>
    rw [List.replicate_succ, List.cons_append, steps_cons rfl, ih]

mutual

/-- The tokens of a document lead to it. -/
theorem steps_value (cs : Around D) : ∀ {ts : List (Yytoken D)} {d : Document D}, Value ts d →
    (await cs).steps ts = some (close d cs)
  | _, _, .scalar v => by rw [steps_cons (step_await_value v cs), steps]
  | _, _, .object h => by
    rw [steps_cons (step_await_brace cs), steps_append, steps_members [] cs h, Option.bind_some,
      List.nil_append, steps_cons rfl, steps]
  | _, _, .array h => by
    rw [steps_cons (step_await_square cs), steps_append, steps_elements [] cs h, Option.bind_some,
      List.nil_append, steps_cons rfl, steps]

theorem steps_members (done : List (List Nat × Document D)) (cs : Around D) :
    ∀ {ts : List (Yytoken D)} {members : List (List Nat × Document D)}, Members ts members →
      (object done cs).steps ts = some (object (done ++ members) cs)
  | _, _, .nil => by rw [List.append_nil, steps]
  | _, _, .comma h => by rw [steps_cons rfl, steps_members done cs h]
  | _, _, .member (d := d) k n hv h => by
    have hvalue := steps_value (.member done k :: cs) hv
    rw [steps_cons rfl, steps_colons, steps_append]
    change (steps (value done k cs) _).bind _ = _
    rw [show (value done k cs).steps _ = _ from hvalue, Option.bind_some]
    change steps (object (done ++ [(k, d)]) cs) _ = _
    rw [steps_members (done ++ [(k, d)]) cs h, List.append_assoc, List.singleton_append]

theorem steps_elements (done : List (Document D)) (cs : Around D) :
    ∀ {ts : List (Yytoken D)} {elements : List (Document D)}, Elements ts elements →
      (array done cs).steps ts = some (array (done ++ elements) cs)
  | _, _, .nil => by rw [List.append_nil, steps]
  | _, _, .comma h => by rw [steps_cons rfl, steps_elements done cs h]
  | _, _, .element (d := d) hv h => by
    have hvalue := steps_value (.element done :: cs) hv
    rw [steps_append, show (array done cs).steps _ = _ from hvalue, Option.bind_some]
    change steps (array (done ++ [d]) cs) _ = _
    rw [steps_elements (done ++ [d]) cs h, List.append_assoc, List.singleton_append]

end

/-! ## What has been read -/

/-- The tokens in front of a document that is awaited. -/
def Opened (ts : List (Yytoken D)) : Around D → Prop
  | [] => ts = []
  | .member done k :: cs => ∃ before body n, ts = before ++ .TYPE_LEFT_BRACE :: (body ++
      .TYPE_VALUE (.string k) :: List.replicate n .TYPE_COLON) ∧ Opened before cs ∧ Members body done
  | .element done :: cs => ∃ before body, ts = before ++ .TYPE_LEFT_SQUARE :: body ∧ Opened before cs ∧
      Elements body done

/-- The tokens are those of what has been read. -/
def Spells (ts : List (Yytoken D)) : Zip D → Prop
  | init => Opened ts []
  | value done k cs => Opened ts (.member done k :: cs)
  | array done cs => Opened ts (.element done :: cs)
  | object done cs => ∃ before body, ts = before ++ .TYPE_LEFT_BRACE :: body ∧ Opened before cs ∧
      Members body done
  | finished d => Value ts d

theorem Opened.close (h : Opened ts cs) (hv : Value vs d) : Spells (ts ++ vs) (close d cs) := by
  cases cs with
  | nil =>
    cases (h : ts = [])
    exact hv
  | cons c cs =>
    cases c with
    | member done k =>
      obtain ⟨before, body, n, rfl, hbefore, hbody⟩ := h
      refine ⟨before, body ++ .TYPE_VALUE (.string k) :: (List.replicate n .TYPE_COLON ++ vs), ?_, hbefore,
        hbody.snoc k n hv⟩
      simp only [List.append_assoc, List.cons_append]
    | element done =>
      obtain ⟨before, body, rfl, hbefore, hbody⟩ := h
      refine ⟨before, body ++ vs, ?_, hbefore, hbody.snoc hv⟩
      rw [List.append_assoc, List.cons_append]

theorem Opened.brace (h : Opened ts cs) : Spells (ts ++ [.TYPE_LEFT_BRACE]) (object [] cs) :=
  ⟨ts, [], rfl, h, .nil⟩

theorem Opened.square (h : Opened ts cs) : Spells (ts ++ [.TYPE_LEFT_SQUARE]) (array [] cs) :=
  ⟨ts, [], rfl, h, .nil⟩

/-! One more token, for each of the parts that may have been read. -/

theorem Opened.step_init (h : Opened ts []) (hstep : (init : Zip D).step t = some z') :
    Spells (ts ++ [t]) z' := by
  cases t <;> cases hstep
  · exact h.close (.scalar _)
  · exact h.brace
  · exact h.square

theorem Opened.step_object {before body : List (Yytoken D)} {done : List (List Nat × Document D)}
    (hbefore : Opened before cs) (hbody : Members body done) (hstep : (object done cs).step t = some z') :
    Spells (before ++ .TYPE_LEFT_BRACE :: body ++ [t]) z' := by
  rw [List.append_assoc, List.cons_append]
  cases t with
  | TYPE_VALUE v =>
    cases v <;> cases hstep
    exact ⟨before, body, 0, rfl, hbefore, hbody⟩
  | TYPE_COMMA =>
    cases hstep
    have hcomma := Members.append (.comma .nil) hbody
    rw [List.append_nil] at hcomma
    exact ⟨before, body ++ [.TYPE_COMMA], rfl, hbefore, hcomma⟩
  | TYPE_RIGHT_BRACE =>
    cases hstep
    exact hbefore.close (.object hbody)
  | _ => cases hstep

theorem Opened.step_value {done : List (List Nat × Document D)} {k : List Nat}
    (h : Opened ts (.member done k :: cs))
    (hstep : (value done k cs).step t = some z') : Spells (ts ++ [t]) z' := by
  cases t with
  | TYPE_VALUE v =>
    cases hstep
    exact h.close (.scalar v)
  | TYPE_COLON =>
    cases hstep
    obtain ⟨before, body, n, rfl, hbefore, hbody⟩ := h
    refine ⟨before, body, n + 1, ?_, hbefore, hbody⟩
    rw [List.replicate_succ']
    simp only [List.append_assoc, List.cons_append]
  | TYPE_LEFT_BRACE =>
    cases hstep
    exact h.brace
  | TYPE_LEFT_SQUARE =>
    cases hstep
    exact h.square
  | _ => cases hstep

theorem Opened.step_array {done : List (Document D)} (h : Opened ts (.element done :: cs))
    (hstep : (array done cs).step t = some z') : Spells (ts ++ [t]) z' := by
  cases t with
  | TYPE_VALUE v =>
    cases hstep
    exact h.close (.scalar v)
  | TYPE_COMMA =>
    cases hstep
    obtain ⟨before, body, rfl, hbefore, hbody⟩ := h
    have hcomma := Elements.append (.comma .nil) hbody
    rw [List.append_nil] at hcomma
    refine ⟨before, body ++ [.TYPE_COMMA], ?_, hbefore, hcomma⟩
    rw [List.append_assoc, List.cons_append]
  | TYPE_LEFT_BRACE =>
    cases hstep
    exact h.brace
  | TYPE_LEFT_SQUARE =>
    cases hstep
    exact h.square
  | TYPE_RIGHT_SQUARE =>
    cases hstep
    obtain ⟨before, body, rfl, hbefore, hbody⟩ := h
    rw [List.append_assoc, List.cons_append]
    exact hbefore.close (.array hbody)
  | _ => cases hstep

theorem Spells.step (h : Spells ts z) (hstep : z.step t = some z') : Spells (ts ++ [t]) z' := by
  cases z with
  | init => exact Opened.step_init h hstep
  | object done cs =>
    obtain ⟨before, body, rfl, hbefore, hbody⟩ := h
    exact hbefore.step_object hbody hstep
  | value done k cs => exact Opened.step_value h hstep
  | array done cs => exact Opened.step_array h hstep
  | finished d => cases hstep

theorem Spells.steps (h : Spells ts z) (hsteps : z.steps ts' = some z') : Spells (ts ++ ts') z' := by
  induction ts' generalizing ts z with
  | nil =>
    cases hsteps
    rwa [List.append_nil]
  | cons t ts' ih =>
    obtain ⟨z₁, hstep, hrest⟩ := Option.bind_eq_some_iff.1 hsteps
    have hspells := ih (h.step hstep) hrest
    rwa [List.append_assoc, List.singleton_append] at hspells

/-- **The tokens that lead to a whole document are its tokens.** -/
theorem value_iff : init.steps ts = some (finished d) ↔ Value ts d :=
  ⟨fun h => (show Spells [] init from rfl).steps h, fun h => steps_value [] h⟩

end Zip

/-- A text is the text of one document. -/
theorem Value.unique {d' : Document D} (h : Value ts d) (h' : Value ts d') : d = d' := by
  have heq := (Zip.value_iff.2 h).symm.trans (Zip.value_iff.2 h')
  cases heq
  rfl

end BaseService.Notify.JSON
