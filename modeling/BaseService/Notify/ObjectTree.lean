import BaseService.Notify.JsonUtil

/-!
# What `getJsonStringFromObject` writes for a tree of objects

* `Tree` : objects whose methods only return; `Tree.value` : the JSON value of one;
* `Tree.text` : what is written; `fromObject_text`, `getJsonStringFromObject_text`;
* `Tree.Regular` : when it is JSON; `text_exact`, `parse_text` : when it denotes the tree;
* `getJsonStringFromObject_denotes` : the two together.
-/

namespace BaseService.Notify.JsonUtil
open Json (readValue join member Exact)
open Failing (bind_ok)

/-- A finite tree of objects. -/
inductive Tree
  | null
  | string (s : List Nat)
  | primitive (p : Primitive)
  | array (elements : List Tree)
  | primitives (elements : List Primitive)
  | collection (elements : List Tree)
  | map (entries : List (List Nat × Tree))
  | bean (properties : List (List Nat × Tree))

mutual

def Tree.toObj : Tree → Obj
  | .null => .null
  | .string s => .string s
  | .primitive p => .primitive p
  | .array elements => .array (toObjs elements)
  | .primitives elements => .primitives elements
  | .collection elements => .collection (toCodes elements) .ends
  | .map entries => .map (toEntries entries) .ends
  | .bean properties => .bean (toEntries properties)

def toObjs : List Tree → List Obj
  | [] => []
  | t :: ts => t.toObj :: toObjs ts

def toCodes : List Tree → List Code
  | [] => []
  | t :: ts => .returns t.toObj :: toCodes ts

def toEntries : List (List Nat × Tree) → List (List Nat × Code)
  | [] => []
  | (k, t) :: ts => (k, .returns t.toObj) :: toEntries ts

end

def Tree.isNull : Tree → Bool
  | .null => true
  | _ => false

def Primitive.value : Primitive → Json
  | integer n => .number n
  | boolean b => .bool b
  | character c => .string [c]

mutual

/-- The JSON value of a tree: a null property is omitted, and a `Character` is a string. -/
def Tree.value : Tree → Json
  | .null => .null
  | .string s => .string s
  | .primitive p => p.value
  | .array elements => .array (values elements)
  | .primitives elements => .array (elements.map Primitive.value)
  | .collection elements => .array (values elements)
  | .map entries => .object (memberValues false entries)
  | .bean properties => .object (memberValues true properties)

def values : List Tree → List Json
  | [] => []
  | t :: ts => t.value :: values ts

def memberValues (skipNull : Bool) : List (List Nat × Tree) → List (List Nat × Json)
  | [] => []
  | (k, t) :: ts =>
    if skipNull && t.isNull then memberValues skipNull ts
    else (k, t.value) :: memberValues skipNull ts

end

/-! ## The text -/

def Primitive.written : Primitive → List Nat
  | integer n => units (toString n)
  | boolean b => units (toString b)
  | character c => '"'.toNat :: (quoted 0 [c] ++ ['"'.toNat])

mutual

def Tree.text : Tree → List Nat
  | .null => units "null"
  | .string s => '"'.toNat :: (quoted 0 s ++ ['"'.toNat])
  | .primitive p => p.written
  | .array elements => '['.toNat :: join (texts elements) ++ [']'.toNat]
  | .primitives elements => '['.toNat :: join (elements.map Primitive.written) ++ [']'.toNat]
  | .collection elements => '['.toNat :: join (texts elements) ++ [']'.toNat]
  | .map entries => '{'.toNat :: join (memberTexts false entries) ++ ['}'.toNat]
  | .bean properties =>
    -- If all properties are null, the last one takes away the opening brace.
    if properties ≠ [] ∧ memberTexts true properties = [] then ['}'.toNat]
    else '{'.toNat :: join (memberTexts true properties) ++ ['}'.toNat]

def texts : List Tree → List (List Nat)
  | [] => []
  | t :: ts => t.text :: texts ts

def memberTexts (skipNull : Bool) : List (List Nat × Tree) → List (List Nat)
  | [] => []
  | (k, t) :: ts =>
    if skipNull && t.isNull then memberTexts skipNull ts
    else member k t.text :: memberTexts skipNull ts

end

/-! ## What is written -/

section
variable {thread : Thread} {b : Nat}

/-- `x` writes `s` into the builder `b`. -/
def Writes (x : Action Unit) (b : Nat) (s : List Nat) : Prop :=
  ∀ thread, Thread.Open thread b → x thread = (.ok (), thread.append b s)

theorem Writes.bind {x y : Action Unit} {s s' : List Nat} (hx : Writes x b s) (hy : Writes y b s') :
    Writes (x >>= fun _ => y) b (s ++ s') := by
  intro thread h
  rw [bind_ok (hx thread h), hy _ (h.append s), Thread.append_append]

theorem Writes.congr {x : Action Unit} {s s' : List Nat} (h : Writes x b s) (hs : s = s') :
    Writes x b s' := hs ▸ h

theorem writes_append (s : List Nat) : Writes (append b s) b s := fun _ _ => rfl

theorem Writes.builder {f : Nat → Action Unit} {s : List Nat} (h : Writes (f b) b s) :
    Writes (builder >>= f) b s := by
  intro thread ho
  rw [bind_ok (builder_eq ho), h thread ho]

theorem writes_nil : Writes (pure ()) b [] := by
  intro thread _
  rw [Thread.append_nil]
  rfl

theorem ofOutcome_text (p : Primitive) : ofOutcome p.text = pure p.written := by
  cases p with
  | character c => simp only [Primitive.text, quote_eq, ofOutcome, Primitive.written]
  | _ => rfl

theorem writes_comma : Writes (appendComma b false) b [','.toNat] := writes_append _

theorem writes_last : Writes (appendComma b true) b [] := writes_nil

theorem writes_primitive (p : Primitive) : Writes (fromPrimitive p) b p.written := by
  rw [fromPrimitive, ofOutcome_text]
  exact .builder (writes_append _)

theorem writes_primitives : (ps : List Primitive) →
    Writes (fromPrimitives b ps) b (join (ps.map Primitive.written))
  | [] => writes_nil
  | [p] => by
    rw [fromPrimitives, ofOutcome_text, fromPrimitives]
    exact ((writes_append _).bind (writes_last.bind writes_nil)).congr (by simp [join])
  | p :: p' :: ps => by
    rw [fromPrimitives, ofOutcome_text]
    exact (writes_append _).bind (writes_comma.bind (writes_primitives (p' :: ps)))

theorem fromProperty_null (k : List Nat) (last : Bool) :
    fromProperty b k last (.returns .null) = if last then deleteLast b else pure () := by
  rw [fromProperty]

theorem fromProperty_returns {t : Tree} (h : t.isNull = false) (k : List Nat) (last : Bool) :
    fromProperty b k last (.returns t.toObj) = (do
      append b ('"'.toNat :: k ++ ['"'.toNat, ':'.toNat])
      fromObject t.toObj
      appendComma b last) := by
  cases t with
  | null => cases h
  | _ =>
    rw [Tree.toObj, fromProperty]
    intro he
    cases he

theorem Tree.toObj_null {t : Tree} (h : t.isNull = true) : t = .null := by
  cases t with
  | null => rfl
  | _ => cases h

/-- What the loop of `fromBean` makes of a builder that ends with `u`. -/
def written (s : List Nat) (u : Nat) (ts : List (List Nat × Tree)) : List Nat :=
  if ts ≠ [] ∧ memberTexts true ts = [] then s else s ++ u :: join (memberTexts true ts)

theorem written_cons {t : Tree} (ht : t.isNull = false) {s k : List Nat} {u : Nat}
    {p : List Nat × Tree} {ts : List (List Nat × Tree)} :
    written s u ((k, t) :: p :: ts) = written (s ++ u :: member k t.text) ','.toNat (p :: ts) := by
  have hcons : memberTexts true ((k, t) :: p :: ts) =
      member k t.text :: memberTexts true (p :: ts) := by
    rw [memberTexts, ht]
    rfl
  rw [written, written, hcons]
  cases memberTexts true (p :: ts) with
  | nil => simp [join]
  | cons part parts => simp [join]

mutual

/-- A tree is written as its text. -/
theorem fromObject_text : (t : Tree) → Writes (fromObject t.toObj) b t.text
  | .null => by
    rw [Tree.toObj, fromObject, Tree.text]
    exact .builder (writes_append _)
  | .string s => by
    rw [Tree.toObj, fromObject, quote_eq, Tree.text]
    exact .builder (writes_append _)
  | .primitive p => by
    rw [Tree.toObj, fromObject, Tree.text]
    exact writes_primitive p
  | .array elements => by
    rw [Tree.toObj, fromObject, Tree.text]
    exact .builder ((writes_append _).bind ((fromElements_text elements).bind (writes_append _)))
  | .primitives elements => by
    rw [Tree.toObj, fromObject, Tree.text]
    exact .builder ((writes_append _).bind ((writes_primitives elements).bind (writes_append _)))
  | .collection elements => by
    rw [Tree.toObj, fromObject, Tree.text]
    exact .builder ((writes_append _).bind ((fromIterator_text elements).bind (writes_append _)))
  | .map entries => by
    rw [Tree.toObj, fromObject, Tree.text]
    exact .builder ((writes_append _).bind ((fromEntries_text entries).bind (writes_append _)))
  | .bean properties => by
    rw [Tree.toObj, fromObject, Tree.text]
    refine .builder fun thread h => ?_
    have hp := fromProperties_text properties h [] '{'.toNat
    rw [List.nil_append] at hp
    refine (bind_ok (append_eq _)).trans ((bind_ok (catchException_ok hp)).trans ?_)
    rw [append_eq, Thread.append_append, written]
    split_ifs <;> rfl

theorem fromElements_text : (ts : List Tree) →
    Writes (fromElements b (toObjs ts)) b (join (texts ts))
  | [] => by
    rw [toObjs, fromElements]
    exact writes_nil
  | [t] => by
    rw [toObjs, fromElements, toObjs, fromElements]
    exact ((fromObject_text t).bind (writes_last.bind writes_nil)).congr (by simp [join, texts])
  | t :: t' :: ts => by
    rw [toObjs, fromElements]
    exact (fromObject_text t).bind (writes_comma.bind (fromElements_text (t' :: ts)))

theorem fromIterator_text : (ts : List Tree) →
    Writes (fromIterator b .ends (toCodes ts)) b (join (texts ts))
  | [] => by
    rw [toCodes, fromIterator]
    exact writes_nil
  | [t] => by
    rw [toCodes, fromIterator, fromCode, toCodes, fromIterator]
    exact ((fromObject_text t).bind (writes_last.bind writes_nil)).congr (by simp [join, texts])
  | t :: t' :: ts => by
    rw [toCodes, fromIterator, fromCode]
    exact (fromObject_text t).bind (writes_comma.bind (fromIterator_text (t' :: ts)))

theorem fromEntries_text : (ts : List (List Nat × Tree)) →
    Writes (fromEntries b .ends (toEntries ts)) b (join (memberTexts false ts))
  | [] => by
    rw [toEntries, fromEntries]
    exact writes_nil
  | [(k, t)] => by
    rw [toEntries, fromEntries, fromCode, toEntries, fromEntries]
    exact ((writes_append _).bind ((fromObject_text t).bind (writes_last.bind writes_nil))).congr
      (by simp [join, memberTexts, member])
  | (k, t) :: (k', t') :: ts => by
    rw [toEntries, fromEntries, fromCode]
    refine ((writes_append _).bind ((fromObject_text t).bind
      (writes_comma.bind (fromEntries_text ((k', t') :: ts))))).congr ?_
    simp [join, memberTexts, member]

theorem fromProperties_text : (ts : List (List Nat × Tree)) → {thread : Thread} → thread.Open b →
    (s : List Nat) → (u : Nat) →
    fromProperties b (toEntries ts) (thread.append b (s ++ [u])) =
      (.ok (), thread.append b (written s u ts))
  | [], thread, h, s, u => by
    rw [toEntries, fromProperties]
    rfl
  | [(k, t)], thread, h, s, u => by
    rw [toEntries, fromProperties, toEntries, fromProperties]
    cases ht : t.isNull with
    | true =>
      rw [Tree.toObj_null ht, Tree.toObj, fromProperty_null]
      exact (bind_ok (deleteLast_eq h s u)).trans rfl
    | false =>
      rw [fromProperty_returns ht]
      have hw := (((writes_append ('"'.toNat :: k ++ ['"'.toNat, ':'.toNat])).bind
        ((fromObject_text t).bind writes_last)).bind writes_nil) _ (h.append (s ++ [u]))
      refine hw.trans ?_
      rw [Thread.append_append]
      simp [written, memberTexts, ht, member, join]
  | (k, t) :: (k', t') :: ts, thread, h, s, u => by
    rw [toEntries, fromProperties]
    cases ht : t.isNull with
    | true =>
      rw [Tree.toObj_null ht, Tree.toObj, fromProperty_null]
      refine (fromProperties_text ((k', t') :: ts) h s u).trans ?_
      simp [written, memberTexts, Tree.isNull]
    | false =>
      rw [fromProperty_returns ht]
      have hw := ((writes_append ('"'.toNat :: k ++ ['"'.toNat, ':'.toNat])).bind
        ((fromObject_text t).bind writes_comma)) _ (h.append (s ++ [u]))
      have hcomma : s ++ [u] ++ ('"'.toNat :: k ++ ['"'.toNat, ':'.toNat] ++
          (t.text ++ [','.toNat])) = s ++ u :: member k t.text ++ [','.toNat] := by
        simp [member]
      rw [Thread.append_append, hcomma] at hw
      refine (bind_ok hw).trans ((fromProperties_text ((k', t') :: ts) h _ _).trans ?_)
      rw [written_cons ht]

end

end

/-! ## When it is JSON -/

mutual

/-- Every name that is written needs no escape, and no bean has only null properties. -/
def Tree.Regular : Tree → Prop
  | .null => True
  | .string _ => True
  | .primitive _ => True
  | .array elements => AllRegular elements
  | .primitives _ => True
  | .collection elements => AllRegular elements
  | .map entries => MembersRegular false entries
  | .bean properties =>
    (properties = [] ∨ ∃ p ∈ properties, p.2.isNull = false) ∧ MembersRegular true properties

def AllRegular : List Tree → Prop
  | [] => True
  | t :: ts => t.Regular ∧ AllRegular ts

def MembersRegular (skipNull : Bool) : List (List Nat × Tree) → Prop
  | [] => True
  | (k, t) :: ts =>
    if skipNull && t.isNull then MembersRegular skipNull ts
    else Json.Unescaped k ∧ t.Regular ∧ MembersRegular skipNull ts

end

theorem units_toString (n : Nat) : units (toString n) = Json.decimal n := by
  have hchar : ∀ c ∈ Nat.toDigits 10 n, utf16 c = [c.toNat] := fun c hc => by
    have := Nat.isDigit_of_mem_toDigits (by decide) (by decide) hc
    simp only [Char.isDigit, Bool.and_eq_true, decide_eq_true_eq, UInt32.le_iff_toNat_le] at this
    have h9 : c.toNat ≤ 57 := this.2
    exact if_pos (by omega)
  rw [units, Nat.toString_eq_repr, Nat.toList_repr, Json.decimal]
  generalize Nat.toDigits 10 n = l at hchar
  induction l with
  | nil => rfl
  | cons c l ih =>
    obtain ⟨hc, hl⟩ := List.forall_mem_cons.mp hchar
    rw [List.flatMap_cons, hc, ih hl]
    rfl

theorem written_exact (p : Primitive) (fuel : Nat) :
    Exact (readValue (fuel + 1)) p.written p.value True := by
  refine .of_reads fun {rest} h => ?_
  cases p with
  | boolean b =>
    cases b with
    | false => exact Json.readValue_word (w := "false") (by simp [Primitive.value])
    | true => exact Json.readValue_word (w := "true") (by simp [Primitive.value])
  | character c =>
    simp only [Primitive.written, List.cons_append, List.append_assoc]
    exact Json.readValue_string (readString_quoted _ _ _)
  | integer n =>
    cases n with
    | ofNat n =>
      obtain ⟨hd, hv⟩ := Json.decimal_spec n
      have hread : readValue (fuel + 1) (Json.decimal n ++ rest) = _ := (Json.readValue_digits hd h).1
      rw [hv, ← units_toString] at hread
      exact hread
    | negSucc n =>
      obtain ⟨hd, hv⟩ := Json.decimal_spec (n + 1)
      have hread : readValue (fuel + 1) ('-'.toNat :: Json.decimal (n + 1) ++ rest) = _ :=
        (Json.readValue_digits hd h).2
      have hminus : units (toString (Int.negSucc n)) = '-'.toNat :: Json.decimal (n + 1) := by
        rw [← units_toString]
        exact units_append "-" (toString (n + 1))
      rw [hv] at hread
      rw [Primitive.written, Primitive.value, hminus, hread]
      simp

theorem head_written (p : Primitive) : Json.Head ']'.toNat p.written := by
  cases p with
  | integer n =>
    cases n with
    | ofNat n =>
      have := Json.head_decimal n
      rw [← units_toString] at this
      exact this
    | negSucc n => exact ⟨_, _, units_append "-" (toString (n + 1)), by decide, by decide⟩
  | boolean b => cases b <;> exact ⟨_, _, rfl, by decide, by decide⟩
  | character c => exact ⟨_, _, rfl, by decide, by decide⟩

theorem head_text (t : Tree) : Json.Head ']'.toNat t.text := by
  cases t with
  | primitive p =>
    rw [Tree.text]
    exact head_written p
  | bean properties =>
    rw [Tree.text]
    split
    · exact ⟨_, _, rfl, by decide, by decide⟩
    · exact ⟨_, _, rfl, by decide, by decide⟩
  | _ =>
    rw [Tree.text]
    exact ⟨_, _, rfl, by decide, by decide⟩

/-! ### Lists -/

theorem elements_eq (ts : List Tree) : texts ts = ts.map Tree.text ∧ values ts = ts.map Tree.value ∧
    (AllRegular ts ↔ ∀ t ∈ ts, t.Regular) := by
  induction ts with
  | nil => exact ⟨rfl, rfl, by simp [AllRegular]⟩
  | cons t ts ih =>
    obtain ⟨ht, hv, hr⟩ := ih
    rw [texts, values, AllRegular, ht, hv, hr]
    exact ⟨rfl, rfl, (List.forall_mem_cons ..).symm⟩

/-- The members that are written. -/
def kept (skipNull : Bool) (ts : List (List Nat × Tree)) : List (List Nat × Tree) :=
  ts.filter fun p => !(skipNull && p.2.isNull)

theorem members_eq (skipNull : Bool) (ts : List (List Nat × Tree)) :
    memberTexts skipNull ts = (kept skipNull ts).map (fun p => member p.1 p.2.text) ∧
      memberValues skipNull ts = (kept skipNull ts).map (fun p => (p.1, p.2.value)) ∧
      (MembersRegular skipNull ts ↔ ∀ p ∈ kept skipNull ts, Json.Unescaped p.1 ∧ p.2.Regular) := by
  induction ts with
  | nil => exact ⟨rfl, rfl, by simp [MembersRegular, kept]⟩
  | cons p ts ih =>
    obtain ⟨k, t⟩ := p
    obtain ⟨ht, hv, hr⟩ := ih
    rw [memberTexts, memberValues, MembersRegular]
    cases hskip : skipNull && t.isNull with
    | true =>
      have hkept : kept skipNull ((k, t) :: ts) = kept skipNull ts :=
        List.filter_cons_of_neg (by simp [hskip])
      rw [hkept]
      exact ⟨ht, hv, hr⟩
    | false =>
      have hkept : kept skipNull ((k, t) :: ts) = (k, t) :: kept skipNull ts :=
        List.filter_cons_of_pos (by simp [hskip])
      rw [hkept, List.forall_mem_cons, List.map_cons, List.map_cons, ← ht, ← hv, ← hr]
      exact ⟨rfl, rfl, and_assoc.symm⟩

/-! ### Trees -/

/-- `t` is read as its value if and only if it is regular. -/
def Denoted (t : Tree) : Prop :=
  ∀ fuel, t.text.length ≤ fuel → Exact (readValue (fuel + 1)) t.text t.value t.Regular

theorem elements_exact {ts : List Tree} (h : ∀ t ∈ ts, Denoted t) {fuel : Nat}
    (hfuel : ('['.toNat :: join (texts ts) ++ [']'.toNat]).length ≤ fuel) :
    Exact (readValue (fuel + 1)) ('['.toNat :: join (texts ts) ++ [']'.toNat])
      (.array (values ts)) (AllRegular ts) := by
  obtain ⟨ht, hv, hr⟩ := elements_eq ts
  simp only [List.length_append, List.length_cons, List.length_nil] at hfuel
  obtain ⟨fuel, rfl⟩ : ∃ f, fuel = f + 1 := ⟨fuel - 1, by omega⟩
  let parts : List (List Nat × Json × Prop) := ts.map fun t => (t.text, t.value, t.Regular)
  have hparts : ∀ p ∈ parts, Json.Head ']'.toNat p.1 ∧
      Exact (readValue (fuel + 1)) p.1 p.2.1 p.2.2 := by
    intro p hp
    obtain ⟨t, hmem, rfl⟩ := List.mem_map.mp hp
    have hlen := Json.length_le_join (List.mem_map_of_mem (f := Tree.text) hmem)
    rw [← ht] at hlen
    exact ⟨head_text t, h t hmem fuel (by omega)⟩
  have hexact := Json.array_exact (fun p hp => (hparts p hp).1) fun p hp => (hparts p hp).2
  rw [List.map_map, List.map_map] at hexact
  rw [ht, hv]
  refine hexact.congr ?_
  rw [hr]
  exact List.forall_mem_map

theorem members_exact {skipNull : Bool} {ts : List (List Nat × Tree)}
    (h : ∀ p ∈ ts, Denoted p.2) {fuel : Nat}
    (hfuel : ('{'.toNat :: join (memberTexts skipNull ts) ++ ['}'.toNat]).length ≤ fuel) :
    Exact (readValue (fuel + 1)) ('{'.toNat :: join (memberTexts skipNull ts) ++ ['}'.toNat])
      (.object (memberValues skipNull ts)) (MembersRegular skipNull ts) := by
  obtain ⟨ht, hv, hr⟩ := members_eq skipNull ts
  simp only [List.length_append, List.length_cons, List.length_nil] at hfuel
  obtain ⟨fuel, rfl⟩ : ∃ f, fuel = f + 1 := ⟨fuel - 1, by omega⟩
  let members : List (List Nat × List Nat × Json × Prop) :=
    (kept skipNull ts).map fun p => (p.1, p.2.text, p.2.value, p.2.Regular)
  have hmembers : ∀ m ∈ members, Exact (readValue (fuel + 1)) m.2.1 m.2.2.1 m.2.2.2 := by
    intro m hm
    obtain ⟨p, hmem, rfl⟩ := List.mem_map.mp hm
    have hlen := Json.length_le_join
      (List.mem_map_of_mem (f := fun p : List Nat × Tree => member p.1 p.2.text) hmem)
    rw [← ht] at hlen
    simp only [member, List.length_append, List.length_cons] at hlen
    exact h p (List.mem_filter.mp hmem).1 fuel (by omega)
  have hexact := Json.object_exact hmembers
  rw [List.map_map, List.map_map] at hexact
  rw [ht, hv]
  refine hexact.congr ?_
  rw [hr]
  exact List.forall_mem_map

theorem primitives_exact (ps : List Primitive) (fuel : Nat) :
    Exact (readValue (fuel + 2)) ('['.toNat :: join (ps.map Primitive.written) ++ [']'.toNat])
      (.array (ps.map Primitive.value)) True := by
  let parts : List (List Nat × Json × Prop) := ps.map fun p => (p.written, p.value, True)
  have hparts : ∀ p ∈ parts, Json.Head ']'.toNat p.1 ∧
      Exact (readValue (fuel + 1)) p.1 p.2.1 p.2.2 := by
    intro p hp
    obtain ⟨p, -, rfl⟩ := List.mem_map.mp hp
    exact ⟨head_written p, written_exact p fuel⟩
  have hexact := Json.array_exact (fun p hp => (hparts p hp).1) fun p hp => (hparts p hp).2
  rw [List.map_map, List.map_map] at hexact
  refine hexact.congr (iff_of_true (fun p hp => ?_) trivial)
  obtain ⟨p, -, rfl⟩ := List.mem_map.mp hp
  trivial

theorem memberTexts_eq_nil (ts : List (List Nat × Tree)) :
    memberTexts true ts = [] ↔ ¬ ∃ p ∈ ts, p.2.isNull = false := by
  rw [(members_eq true ts).1, List.map_eq_nil_iff, kept, List.filter_eq_nil_iff]
  simp

mutual

theorem text_exact : (t : Tree) → Denoted t
  | .null => fun fuel _ => by
    rw [Tree.text, Tree.value, Tree.Regular]
    exact .of_reads fun _ => Json.readValue_word (w := "null") (by simp)
  | .string s => fun fuel _ => by
    rw [Tree.text, Tree.value, Tree.Regular]
    refine .of_reads fun _ => ?_
    rw [List.cons_append, List.append_assoc]
    exact Json.readValue_string (readString_quoted _ _ _)
  | .primitive p => fun fuel _ => by
    rw [Tree.text, Tree.value, Tree.Regular]
    exact written_exact p fuel
  | .array elements => fun fuel hfuel => by
    rw [Tree.text] at hfuel ⊢
    rw [Tree.value, Tree.Regular]
    exact elements_exact (texts_exact elements) hfuel
  | .primitives elements => fun fuel hfuel => by
    rw [Tree.text] at hfuel ⊢
    rw [Tree.value, Tree.Regular]
    simp only [List.length_append, List.length_cons] at hfuel
    obtain ⟨fuel, rfl⟩ : ∃ f, fuel = f + 1 := ⟨fuel - 1, by omega⟩
    exact primitives_exact elements fuel
  | .collection elements => fun fuel hfuel => by
    rw [Tree.text] at hfuel ⊢
    rw [Tree.value, Tree.Regular]
    exact elements_exact (texts_exact elements) hfuel
  | .map entries => fun fuel hfuel => by
    rw [Tree.text] at hfuel ⊢
    rw [Tree.value, Tree.Regular]
    exact members_exact (memberTexts_exact entries) hfuel
  | .bean properties => fun fuel hfuel => by
    rw [Tree.text] at hfuel ⊢
    rw [Tree.value, Tree.Regular]
    by_cases hnull : properties ≠ [] ∧ memberTexts true properties = []
    · -- What is written is a closing brace.
      have hirregular : ¬ (properties = [] ∨ ∃ p ∈ properties, p.2.isNull = false) :=
        not_or.mpr ⟨hnull.1, (memberTexts_eq_nil properties).mp hnull.2⟩
      rw [if_pos hnull]
      refine ⟨fun hr => absurd hr.1 hirregular, fun _ hread => ?_⟩
      rw [List.singleton_append, Json.readValue_brace] at hread
      cases hread
    · have hregular : properties = [] ∨ ∃ p ∈ properties, p.2.isNull = false := by
        rwa [not_and_or, not_not, memberTexts_eq_nil, not_not] at hnull
      rw [if_neg hnull] at hfuel ⊢
      exact (members_exact (memberTexts_exact properties) hfuel).congr
        (iff_and_self.mpr fun _ => hregular)

theorem texts_exact : (ts : List Tree) → ∀ t ∈ ts, Denoted t
  | [] => fun _ h => (by cases h)
  | t :: ts => List.forall_mem_cons.mpr ⟨text_exact t, texts_exact ts⟩

theorem memberTexts_exact : (ts : List (List Nat × Tree)) → ∀ p ∈ ts, Denoted p.2
  | [] => fun _ h => (by cases h)
  | (_, t) :: ts => List.forall_mem_cons.mpr ⟨text_exact t, memberTexts_exact ts⟩

end

/-! ## Calls -/

/-- What a call returns for a tree, and the thread after it. -/
theorem getJsonStringFromObject_text (t : Tree) {thread : Thread} (h : thread.localBuilder = none) :
    (getJsonStringFromObject t.toObj thread).1 = .ok t.text ∧
      (getJsonStringFromObject t.toObj thread).2.localBuilder = none := by
  obtain ⟨hopen, hempty⟩ := thread.opened_open
  have hx := fromObject_text t _ hopen
  rw [fromObject_opened _ h] at hx
  have hb := hopen.append t.text
  rw [getJsonStringFromObject, complete_ok hx (builder_eq hb), hopen.text_append, hempty]
  exact ⟨rfl, rfl⟩

/-- **A tree is written as JSON that denotes it if and only if it is regular.** -/
theorem getJsonStringFromObject_denotes (t : Tree) {thread : Thread}
    (h : thread.localBuilder = none) :
    (∃ s, (getJsonStringFromObject t.toObj thread).1 = .ok s ∧ Json.parse s = some t.value) ↔
      t.Regular := by
  rw [(getJsonStringFromObject_text t h).1, ← Json.parse_exact (text_exact t)]
  constructor
  · rintro ⟨s, hs, hparse⟩
    cases hs
    exact hparse
  · exact fun hparse => ⟨t.text, rfl, hparse⟩

theorem getJsonStringFromObject_denotes_array :
    ∃ s, (getJsonStringFromObject (Tree.array [.null, .string (units "a")]).toObj .init).1 = .ok s ∧
      Json.parse s = some (.array [.null, .string (units "a")]) :=
  (getJsonStringFromObject_denotes (.array [.null, .string (units "a")]) rfl).mpr
    ⟨trivial, trivial, trivial⟩

/-- A bean with only null properties, and a map with a quotation mark in a key. -/
theorem getJsonStringFromObject_not_json :
    (getJsonStringFromObject (Tree.bean [(units "a", .null)]).toObj .init).1 = .ok (units "\x7d") ∧
    (Json.parse (units "\x7d")).isNone ∧
    (getJsonStringFromObject (Tree.map [(units "a\"b", .null)]).toObj .init).1 =
      .ok (units "\x7b\"a\"b\":null\x7d") ∧
    Json.parse (units "\x7b\"a\"b\":null\x7d") ≠ some (.object [(units "a\"b", .null)]) := by
  have hbean : (Tree.bean [(units "a", .null)]).text = units "\x7d" := by decide
  have hmap : (Tree.map [(units "a\"b", .null)]).text = units "\x7b\"a\"b\":null\x7d" := by decide
  have hirregular : ¬ (Tree.map [(units "a\"b", .null)]).Regular := fun hr =>
    absurd hr.1 (by decide)
  rw [(getJsonStringFromObject_text _ rfl).1, (getJsonStringFromObject_text _ rfl).1, hbean, ← hmap]
  exact ⟨rfl, by decide, rfl, fun hparse => hirregular ((Json.parse_exact (text_exact _)).mp hparse)⟩

end BaseService.Notify.JsonUtil
