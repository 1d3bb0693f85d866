import BaseService.Notify.JSONValue
import BaseService.Notify.NSQClient

/-!
# `NSQLookupDynMapImpl`

What a lookup server answers is parsed, cast and read by a path of keys.

* `DynMap`, `castDynMap`, `castString`, `castInteger`, `toList`, `getListForKey` : casts of what has been parsed;
* `lookup` : the addresses that the servers know for a topic;
* `documentOf`, `membersOf`, `itemsOf` : the same of documents; `producers` : what an answer lists;
* `lookup_spec` : **the addresses are those of the producers in the answers, each once**;
* `discovered` : a consumer that connects has a connection to each producer.
-/

namespace BaseService.Notify.JSON

variable {D : Type}

/-- A value with the containers that it and its parts refer to. -/
abbrev Object (D : Type) := Item (Scalar D) × Heap (List Nat) (Scalar D)

/-- A map with the containers that its values refer to. -/
structure DynMap (D : Type) where
  map : List Nat → Option (Item (Scalar D))
  heap : Heap (List Nat) (Scalar D)

/-- What casts use of `Double`, and `toString()` of maps and lists. -/
structure Casting (D : Type) extends Doubles D where
  intValue : D → Int32
  containerText : Object D → List Nat

def DynMap.new : DynMap D := ⟨Doc.empty, []⟩

/-- `get(key)`, where the key has no dot. -/
def DynMap.get (this : DynMap D) (key : List Nat) : Object D :=
  match this.map key with
  | some v => (v, this.heap)
  | none => (.scalar .null, [])

namespace TypeCast

/-- `instanceof Map` -/
def asMap (obj : Object D) : Option (DynMap D) :=
  match obj.1 with
  | .scalar _ => none
  | .ref r =>
    match obj.2[r]? with
    | some (.map map) => some ⟨map, obj.2⟩
    | _ => none

/-- `instanceof List` -/
def asList (obj : Object D) : Option (List (Object D)) :=
  match obj.1 with
  | .scalar _ => none
  | .ref r =>
    match obj.2[r]? with
    | some (.list list) => some (list.map fun v => (v, obj.2))
    | _ => none

/-- `catch (Exception x)` -/
def swallow {α : Type} : Except (Throwable D) (Option α) → Except (Throwable D) (Option α)
  | .ok a => .ok a
  | .error e => if JSONValue.isException e then .ok none else .error e

/-- `cast(DynMap.class, obj)` -/
def castDynMap (double : Doubles D) (obj : Object D) : Except (Throwable D) (Option (DynMap D)) :=
  match asMap obj with
  | some map => .ok (some map)
  | none =>
    match obj.1 with
    | .scalar (.string s) => swallow ((JSONValue.parseWithException double s).map asMap)
    | _ => .ok none

/-- `trim()` -/
def trim (s : List Nat) : List Nat :=
  ((s.dropWhile (· ≤ ' '.toNat)).reverse.dropWhile (· ≤ ' '.toNat)).reverse

/-- The text of an object that is no string; an empty one is null. -/
def trimmed (s : List Nat) : Option (List Nat) := if trim s = [] then none else some (trim s)

def scalarString (double : Doubles D) : Scalar D → Option (List Nat)
  | .null => none
  | .string s => some s
  | .bool b => trimmed (Json.word (if b then "true" else "false"))
  | .long n => trimmed (units (toString n))
  | .double d => trimmed (double.toString d)

/-- `cast(String.class, obj)` -/
def castString (casting : Casting D) (obj : Object D) : Option (List Nat) :=
  match obj.1 with
  | .scalar v => scalarString casting.toDoubles v
  | .ref _ => trimmed (casting.containerText obj)

/-- `StringHelper.removeAll(input, toRemove)`, which ends at a character that its iterator has for its end. -/
def removeAll (input toRemove : List Nat) : List Nat :=
  (input.takeWhile (· ≠ 0xFFFF)).filter (· ∉ toRemove)

/-- The number in a text. -/
def parseInteger (casting : Casting D) (str : List Nat) : Option Int32 :=
  match casting.valueOf (trim (removeAll str [' '.toNat, ','.toNat, '$'.toNat])) with
  | some num => if casting.isInfinite num ∨ casting.isNaN num then none else some (casting.intValue num)
  | none => none

/-- `cast(Integer.class, obj)` -/
def castInteger (casting : Casting D) (obj : Object D) : Option Int32 :=
  match obj.1 with
  | .scalar (.long n) => some n.toInt32
  | .scalar (.double d) => some (casting.intValue d)
  | _ => (castString casting obj).bind (parseInteger casting)

/-- An empty list is null. -/
def nonEmpty {α : Type} (list : List α) : Option (List α) := if list = [] then none else some list

/-- `str.startsWith("[") && str.endsWith("]")` -/
def bracketed (str : List Nat) : Bool := str.head? = some '['.toNat ∧ str.getLast? = some ']'.toNat

/-- `toList(obj)`. A text in brackets is that of a list, where the recursion ends. -/
def toList (double : Doubles D) : Nat → Object D → Except (Throwable D) (Option (List (Object D)))
  | 0, _ => .error .fuel
  | fuel + 1, obj =>
    match obj.1 with
    | .scalar .null => .ok none
    | .scalar (.string str) =>
      if str = [] then .ok none
      else if bracketed str then
        swallow ((JSONValue.parseWithException double str).bind (toList double fuel))
      else .ok (some [obj])
    | _ =>
      match asList obj with
      | some list => .ok (nonEmpty list)
      | none => .ok (some [obj])

section Typed
variable {α : Type}

/-- The elements that can be cast. -/
def castAll (cast : Object D → Except (Throwable D) (Option α)) : List (Object D) → Except (Throwable D) (List α)
  | [] => .ok []
  | val :: lst => do
    let tmp ← cast val
    let list ← castAll cast lst
    return tmp.toList ++ list

/-- `toTypedList(cls, obj)` -/
def toTypedList (double : Doubles D) (cast : Object D → Except (Throwable D) (Option α)) (obj : Object D) :
    Except (Throwable D) (Option (List α)) := do
  match ← toList double 2 obj with
  | none => return none
  | some lst => return nonEmpty (← castAll cast lst)

/-- The lists of the maps, one behind the other. -/
def addAll {β : Type} (getList : β → Except (Throwable D) (List α)) : List β → Except (Throwable D) (List α)
  | [] => .ok []
  | map :: dynMapList => do
    let list ← getList map
    let retList ← addAll getList dynMapList
    return list ++ retList

/-- `getListForKey(cls, key)`, with the parts of the key. -/
def getListForKey (double : Doubles D) (cast : Object D → Except (Throwable D) (Option α)) :
    List (List Nat) → DynMap D → Except (Throwable D) (List α)
  | [], _ => .ok []
  | [topKey], this => do
    let val ← toTypedList double cast (this.get topKey)
    return val.getD []
  | topKey :: remainKey, this => do
    match ← toTypedList double (castDynMap double) (this.get topKey) with
    | some dynMapList => addAll (getListForKey double cast remainKey) dynMapList
    | none => return []

end Typed

end TypeCast

namespace NSQLookup
open TypeCast

structure ConnectionAddress where
  poolsize : Nat := 1
  host : Option (List Nat)
  port : Int32
  deriving DecidableEq

/-- `host + ":" + port` -/
def keyOf (host : Option (List Nat)) (port : Option Int32) : List Nat :=
  host.getD (Json.word "null") ++ ':'.toNat :: (port.map fun p => units (toString p)).getD (Json.word "null")

/-- `addresses.put(key, address)`. The values stand in the order of their keys' first puts. -/
def put (key : List Nat) (address : ConnectionAddress) :
    List (List Nat × ConnectionAddress) → List (List Nat × ConnectionAddress)
  | [] => [(key, address)]
  | p :: addresses => if p.1 = key then (key, address) :: addresses else p :: put key address addresses

/-- The host and the port of a node. -/
def hostOf (casting : Casting D) (node : DynMap D) : Option (List Nat) :=
  (castString casting (node.get (Json.word "broadcast_address"))).or
    (castString casting (node.get (Json.word "address")))

def portOf (casting : Casting D) (node : DynMap D) : Option Int32 :=
  castInteger casting (node.get (Json.word "tcp_port"))

/-- The inner loop of `lookup`. A port that is null cannot be set. -/
def addNodes (casting : Casting D) : List (DynMap D) → List (List Nat × ConnectionAddress) →
    Except (Throwable D) (List (List Nat × ConnectionAddress))
  | [], addresses => .ok addresses
  | node :: nodes, addresses =>
    let host := hostOf casting node
    match portOf casting node with
    | none => .error .NullPointerException
    | some port => addNodes casting nodes (put (keyOf host (some port)) ⟨1, host, port⟩ addresses)

/-- The nodes that an answer lists. -/
def nodesOf (double : Doubles D) (answer : List Nat) : Except (Throwable D) (List (DynMap D)) := do
  let mp ← castDynMap double (.scalar (.string answer), [])
  getListForKey double (castDynMap double) ((Json.word "data.producers").splitOn '.'.toNat) (mp.getD .new)

/-- The outer loop. -/
def addServers (casting : Casting D) (getHTML : List Nat → List Nat) (topic : List Nat) : List (List Nat) →
    List (List Nat × ConnectionAddress) → Except (Throwable D) (List (List Nat × ConnectionAddress))
  | [], addresses => .ok addresses
  | addr :: addrs, addresses => do
    let nodes ← nodesOf casting.toDoubles (getHTML (addr ++ Json.word "/lookup?topic=" ++ topic))
    addServers casting getHTML topic addrs (← addNodes casting nodes addresses)

/-- `NSQLookupDynMapImpl`, with its addresses in the order of their set. -/
structure NSQLookupDynMapImpl where
  addresses : List (List Nat) := []

def addAddr (this : NSQLookupDynMapImpl) (addr : List Nat) (port : Int32) : NSQLookupDynMapImpl :=
  let addr := if (Json.word "http").isPrefixOf addr then addr else Json.word "http://" ++ addr
  let addr := addr ++ ':'.toNat :: units (toString port)
  { this with addresses := if addr ∈ this.addresses then this.addresses else this.addresses ++ [addr] }

/-- `lookup(topic)`, where `getHTML` is what is read at an address. -/
def lookup (this : NSQLookupDynMapImpl) (casting : Casting D) (getHTML : List Nat → List Nat)
    (topic : List Nat) : Except (Throwable D) (List ConnectionAddress) := do
  let addresses ← addServers casting getHTML topic this.addresses []
  return addresses.map Prod.snd

end NSQLookup

/-! ## Casts of documents -/

open Classical in
/-- The document that a text is the text of. -/
noncomputable def documentOf (double : Doubles D) (text : List Nat) : Option (Document D) :=
  if h : ∃ d, TextOf double text d then some h.choose else none

theorem documentOf_eq_some {double : Doubles D} {text : List Nat} {d : Document D} :
    documentOf double text = some d ↔ TextOf double text d := by
  unfold documentOf
  constructor
  · intro h
    split at h
    · next hex => exact Option.some.inj h ▸ hex.choose_spec
    · cases h
  · intro htext
    have hex : ∃ d, TextOf double text d := ⟨d, htext⟩
    rw [dif_pos hex, hex.choose_spec.unique htext]

theorem documentOf_eq_none {double : Doubles D} {text : List Nat} (h : ∀ d, ¬ TextOf double text d) :
    documentOf double text = none := by
  by_contra hne
  obtain ⟨d, hd⟩ := Option.ne_none_iff_exists'.1 hne
  exact h d (documentOf_eq_some.1 hd)

/-- The members of an object. -/
def Document.members? : Document D → Option (List (List Nat × Document D))
  | .object members => some members
  | _ => none

/-- The elements of an array. -/
def Document.elements? : Document D → Option (List (Document D))
  | .array elements => some elements
  | _ => none

/-- The value of a name, which is null where there is none. -/
def fieldOf (key : List Nat) (members : List (List Nat × Document D)) : Document D :=
  (Doc.lastOf key members).getD (.scalar .null)

/-- The members of an object, or of one that a string is the text of. -/
noncomputable def membersOf (double : Doubles D) : Document D → Option (List (List Nat × Document D))
  | .object members => some members
  | .scalar (.string s) => (documentOf double s).bind Document.members?
  | _ => none

/-- The elements of an array, or of one that a string is the text of, or else the one value there is. -/
noncomputable def itemsOf (double : Doubles D) : Document D → List (Document D)
  | .array elements => elements
  | .scalar .null => []
  | .scalar (.string s) =>
    if s = [] then []
    else if TypeCast.bracketed s then ((documentOf double s).bind Document.elements?).getD []
    else [.scalar (.string s)]
  | d => [d]

noncomputable def objectsOf (double : Doubles D) (d : Document D) : List (List (List Nat × Document D)) :=
  (itemsOf double d).filterMap (membersOf double)

/-- What an answer lists. -/
noncomputable def producers (double : Doubles D) (answer : List Nat) : List (List (List Nat × Document D)) :=
  let members := (membersOf double (.scalar (.string answer))).getD []
  (objectsOf double (fieldOf (Json.word "data") members)).flatMap fun data =>
    objectsOf double (fieldOf (Json.word "producers") data)

/-- `render` is `toString()` of maps and lists. -/
def stringOf (double : Doubles D) (render : Document D → List Nat) : Document D → Option (List Nat)
  | .scalar v => TypeCast.scalarString double v
  | d => TypeCast.trimmed (render d)

def integerOf (casting : Casting D) (render : Document D → List Nat) : Document D → Option Int32
  | .scalar (.long n) => some n.toInt32
  | .scalar (.double d) => some (casting.intValue d)
  | d => (stringOf casting.toDoubles render d).bind (TypeCast.parseInteger casting)

/-- The address of a producer; `none` is one without a port. -/
def addressOf (casting : Casting D) (render : Document D → List Nat) (producer : List (List Nat × Document D)) :
    Option NSQLookup.ConnectionAddress :=
  (integerOf casting render (fieldOf (Json.word "tcp_port") producer)).map fun port =>
    ⟨1, (stringOf casting.toDoubles render (fieldOf (Json.word "broadcast_address") producer)).or
      (stringOf casting.toDoubles render (fieldOf (Json.word "address") producer)), port⟩

/-! ## What is parsed is a document -/

/-- No string is too long for the scanner. -/
abbrev Short (d : Document D) : Prop := Doc.All (Scalar.Within (2 ^ 30 - 1)) d

/-- The object is the document. -/
structure Object.Is (obj : Object D) (d : Document D) : Prop where
  holds : Doc.Holds obj.2 0 obj.2.length obj.1 d
  short : Short d

/-- The map has the members. -/
structure DynMap.Is (this : DynMap D) (members : List (List Nat × Document D)) : Prop where
  holds : ∃ kvs, this.map = Doc.putAll kvs ∧ Doc.HoldsMembers this.heap 0 this.heap.length kvs members
  short : Doc.AllMembers (Scalar.Within (2 ^ 30 - 1)) members

variable {double : Doubles D} {casting : Casting D} {obj : Object D} {d : Document D} {this : DynMap D}
  {members : List (List Nat × Document D)}

theorem dynMap_new : (DynMap.new : DynMap D).Is [] := ⟨⟨[], rfl, rfl⟩, trivial⟩

theorem DynMap.Is.get (h : this.Is members) (key : List Nat) :
    Object.Is (this.get key) (fieldOf key members) := by
  obtain ⟨kvs, hmap, hmembers⟩ := h.holds
  have hlast := hmembers.lastOf key
  have hshort : ∀ d, Doc.lastOf key members = some d → Short d := fun d hd => h.short.lastOf hd
  unfold DynMap.get fieldOf
  rw [hmap, Doc.putAll_apply]
  generalize Doc.lastOf key kvs = v, Doc.lastOf key members = d at hlast hshort ⊢
  cases hlast with
  | some hv => exact ⟨hv, hshort _ rfl⟩
  | none => exact ⟨rfl, trivial⟩

namespace TypeCast

theorem asMap_is (h : Object.Is obj d) : Option.Rel DynMap.Is (asMap obj) d.members? := by
  obtain ⟨v, heap⟩ := obj
  obtain ⟨hholds, hshort⟩ := h
  cases d with
  | scalar a =>
    cases (hholds : v = .scalar a)
    exact .none
  | object members =>
    obtain ⟨r, kvs, rfl, -, -, hget, hmembers⟩ := hholds
    dsimp only at hget
    unfold asMap
    dsimp only
    rw [hget]
    exact .some ⟨⟨kvs, rfl, hmembers⟩, hshort⟩
  | array elements =>
    obtain ⟨r, vs, rfl, -, -, hget, -⟩ := hholds
    dsimp only at hget
    unfold asMap
    dsimp only
    rw [hget]
    exact .none

theorem asList_is (h : Object.Is obj d) : Option.Rel (List.Forall₂ Object.Is) (asList obj) d.elements? := by
  obtain ⟨v, heap⟩ := obj
  obtain ⟨hholds, hshort⟩ := h
  cases d with
  | scalar a =>
    cases (hholds : v = .scalar a)
    exact .none
  | object members =>
    obtain ⟨r, kvs, rfl, -, -, hget, -⟩ := hholds
    dsimp only at hget
    unfold asList
    dsimp only
    rw [hget]
    exact .none
  | array elements =>
    obtain ⟨r, vs, rfl, -, -, hget, helements⟩ := hholds
    dsimp only at hget
    unfold asList
    dsimp only
    rw [hget]
    exact .some (List.forall₂_map_left_iff.2 ((helements.forall₂ hshort).imp fun _ _ hv => ⟨hv.1, hv.2⟩))

/-- A text is parsed, or there is an exception. -/
theorem parse_cases (double : Doubles D) {s : List Nat} (hs : s.length ≤ 2 ^ 30 - 1) :
    (∃ obj d, JSONValue.parseWithException double s = .ok obj ∧ documentOf double s = some d ∧
      Object.Is obj d ∧ TextOf double s d) ∨
    ∃ e, JSONValue.parseWithException double s = .error e ∧ JSONValue.isException e = true ∧
      documentOf double s = none := by
  have hparsed := JSONValue.parseWithException_parsed double (Nat.lt_of_le_sub_one (by decide) hs)
  generalize JSONValue.parseWithException double s = r at hparsed ⊢
  cases hparsed with
  | @ok v h d htext hholds =>
    exact .inl ⟨(v, h), d, rfl, documentOf_eq_some.2 htext, ⟨hholds, htext.within.mono fun _ hv => hv.mono hs⟩,
      htext⟩
  | @error e hno hsyntax =>
    refine .inr ⟨e, rfl, ?_, documentOf_eq_none hno⟩
    obtain ⟨_, _, rfl⟩ | rfl := hsyntax <;> rfl

theorem castDynMap_is (double : Doubles D) (h : Object.Is obj d) :
    ∃ r, castDynMap double obj = .ok r ∧ Option.Rel DynMap.Is r (membersOf double d) := by
  have hmap := asMap_is h
  unfold castDynMap
  cases d with
  | scalar a =>
    obtain ⟨v, heap⟩ := obj
    cases (h.holds : v = .scalar a)
    cases a with
    | string s =>
      dsimp only [asMap, membersOf]
      obtain ⟨obj, d, hparse, hdoc, his, -⟩ | ⟨e, hparse, hexception, hdoc⟩ := parse_cases double h.short
      · rw [hparse, hdoc]
        exact ⟨_, rfl, asMap_is his⟩
      · rw [hparse, hdoc]
        exact ⟨none, if_pos hexception, .none⟩
    | _ => exact ⟨none, rfl, .none⟩
  | object members =>
    generalize asMap obj = m at hmap ⊢
    cases hmap with
    | some hmap => exact ⟨_, rfl, .some hmap⟩
  | array elements =>
    obtain ⟨r, vs, hr, -⟩ := h.holds
    generalize asMap obj = m at hmap ⊢
    cases hmap
    dsimp only
    rw [hr]
    exact ⟨none, rfl, .none⟩

/-- A text that begins with a bracket is that of an array. -/
theorem elements_of_bracketed {s : List Nat} (hs : bracketed s = true) (htext : TextOf double s d) :
    ∃ elements, d = .array elements := by
  obtain ⟨hhead, -⟩ := of_decide_eq_true hs
  obtain ⟨rest, rfl⟩ := List.head?_eq_some_iff.1 hhead
  obtain ⟨ts, p, hreads, hvalue⟩ := htext
  obtain ⟨ts', e', hrest⟩ := exists_reads double ⟨{}, 0 + 1, rest⟩
  obtain ⟨ts'', hts, hbracket⟩ := lexes_left_square 0 rest ts' e' trivial hrest
  obtain ⟨rfl, -⟩ := hreads.unique hbracket
  rw [List.map_append, hts, List.singleton_append] at hvalue
  generalize ts'.map Prod.snd = tokens at hvalue
  cases hvalue with
  | array h => exact ⟨_, rfl⟩

theorem getD_nonEmpty {α : Type} (l : List α) : (nonEmpty l).getD [] = l := by
  unfold nonEmpty
  split
  · next h => rw [h, Option.getD_none]
  · rfl

theorem toList_list (double : Doubles D) (fuel : Nat) {elements : List (Document D)}
    (h : Object.Is obj (.array elements)) :
    ∃ r, toList double (fuel + 1) obj = .ok r ∧ List.Forall₂ Object.Is (r.getD []) elements := by
  have hlist := asList_is h
  obtain ⟨r, vs, hr, -⟩ := h.holds
  obtain ⟨v, heap⟩ := obj
  cases (hr : v = .ref r)
  rw [toList]
  dsimp only
  generalize asList (Item.ref r, heap) = l at hlist ⊢
  cases hlist with
  | some hlist => exact ⟨_, rfl, by rwa [getD_nonEmpty]⟩

theorem toList_is (double : Doubles D) (h : Object.Is obj d) :
    ∃ r, toList double 2 obj = .ok r ∧ List.Forall₂ Object.Is (r.getD []) (itemsOf double d) := by
  cases d with
  | scalar a =>
    obtain ⟨v, heap⟩ := obj
    cases (h.holds : v = .scalar a)
    have hitself : List.Forall₂ Object.Is [(.scalar a, heap)] [.scalar a] := .cons h .nil
    cases a with
    | null => exact ⟨none, rfl, .nil⟩
    | string s =>
      rw [toList]
      dsimp only [itemsOf]
      by_cases hnil : s = []
      · rw [if_pos hnil, if_pos hnil]
        exact ⟨none, rfl, .nil⟩
      · rw [if_neg hnil, if_neg hnil]
        by_cases hbracketed : bracketed s = true
        · rw [if_pos hbracketed, if_pos hbracketed]
          obtain ⟨obj, d, hparse, hdoc, his, htext⟩ | ⟨e, hparse, hexception, hdoc⟩ :=
            parse_cases double h.short
          · obtain ⟨elements, rfl⟩ := elements_of_bracketed hbracketed htext
            obtain ⟨r, hlist, hr⟩ := toList_list double 0 his
            rw [hparse, hdoc]
            exact ⟨r, congrArg swallow hlist, hr⟩
          · rw [hparse, hdoc]
            exact ⟨none, if_pos hexception, .nil⟩
        · rw [if_neg hbracketed, if_neg hbracketed]
          exact ⟨_, rfl, hitself⟩
    | _ => exact ⟨_, rfl, hitself⟩
  | array elements => exact toList_list double 1 h
  | object members =>
    have hlist := asList_is h
    obtain ⟨r, kvs, hr, -⟩ := h.holds
    obtain ⟨v, heap⟩ := obj
    cases (hr : v = .ref r)
    rw [toList]
    dsimp only
    generalize asList (Item.ref r, heap) = l at hlist ⊢
    cases hlist with
    | none => exact ⟨_, rfl, .cons h .nil⟩

section Typed
variable {α β : Type} {R : α → β → Prop} {cast : Object D → Except (Throwable D) (Option α)}
  {spec : Document D → Option β}

/-- The cast of an object is that of the document. -/
def CastsTo (cast : Object D → Except (Throwable D) (Option α)) (spec : Document D → Option β)
    (R : α → β → Prop) : Prop :=
  ∀ obj d, Object.Is obj d → ∃ r, cast obj = .ok r ∧ Option.Rel R r (spec d)

theorem castDynMap_casts (double : Doubles D) :
    CastsTo (castDynMap double) (membersOf double) DynMap.Is := fun _ _ his => castDynMap_is double his

theorem castAll_is (hcast : CastsTo cast spec R) {lst : List (Object D)} {ds : List (Document D)}
    (h : List.Forall₂ Object.Is lst ds) :
    ∃ r, castAll cast lst = .ok r ∧ List.Forall₂ R r (ds.filterMap spec) := by
  induction h with
  | nil => exact ⟨[], rfl, .nil⟩
  | @cons obj d lst ds his _ ih =>
    obtain ⟨tmp, htmp, hrel⟩ := hcast obj d his
    obtain ⟨list, hlist, hlists⟩ := ih
    refine ⟨tmp.toList ++ list, ?_, ?_⟩
    · rw [castAll, htmp, hlist]
      rfl
    · rw [List.filterMap_cons]
      generalize spec d = b at hrel ⊢
      cases hrel with
      | some hab => exact .cons hab hlists
      | none => exact hlists

theorem toTypedList_is (double : Doubles D) (hcast : CastsTo cast spec R) (h : Object.Is obj d) :
    ∃ r, toTypedList double cast obj = .ok r ∧
      List.Forall₂ R (r.getD []) ((itemsOf double d).filterMap spec) := by
  obtain ⟨items, hitems, his⟩ := toList_is double h
  unfold toTypedList
  rw [hitems]
  cases items with
  | none =>
    generalize itemsOf double d = ds at his ⊢
    cases his
    exact ⟨none, rfl, .nil⟩
  | some lst =>
    obtain ⟨list, hlist, hlists⟩ := castAll_is hcast his
    refine ⟨nonEmpty list, ?_, by rwa [getD_nonEmpty]⟩
    change (castAll cast lst).bind _ = _
    rw [show castAll cast lst = _ from hlist]
    rfl

theorem addAll_is {getList : DynMap D → Except (Throwable D) (List α)}
    {specs : List (List Nat × Document D) → List β} {maps : List (DynMap D)}
    {objects : List (List (List Nat × Document D))}
    (hget : ∀ map members, DynMap.Is map members →
      ∃ r, getList map = .ok r ∧ List.Forall₂ R r (specs members))
    (h : List.Forall₂ DynMap.Is maps objects) :
    ∃ r, addAll getList maps = .ok r ∧ List.Forall₂ R r (objects.flatMap specs) := by
  induction h with
  | nil => exact ⟨[], rfl, .nil⟩
  | @cons map members maps objects his _ ih =>
    obtain ⟨list, hlist, hlists⟩ := hget map members his
    obtain ⟨retList, hretList, hretLists⟩ := ih
    refine ⟨list ++ retList, ?_, ?_⟩
    · rw [addAll, hlist, hretList]
      rfl
    · rw [List.flatMap_cons]
      exact List.rel_append hlists hretLists

/-- A path of two keys. -/
theorem getListForKey_is (hcast : CastsTo cast spec R) (h : this.Is members) (topKey remainKey : List Nat) :
    ∃ r, getListForKey double cast [topKey, remainKey] this = .ok r ∧
      List.Forall₂ R r ((objectsOf double (fieldOf topKey members)).flatMap fun data =>
        (itemsOf double (fieldOf remainKey data)).filterMap spec) := by
  have hlast : ∀ map members, DynMap.Is map members → ∃ r, getListForKey double cast [remainKey] map = .ok r ∧
      List.Forall₂ R r ((itemsOf double (fieldOf remainKey members)).filterMap spec) := by
    intro map members his
    obtain ⟨r, hr, hlist⟩ := toTypedList_is double hcast (his.get remainKey)
    exact ⟨r.getD [], by rw [getListForKey, hr]; rfl, hlist⟩
  obtain ⟨r, hr, hmaps⟩ := toTypedList_is double (castDynMap_casts double) (h.get topKey)
  obtain ⟨list, hlist, hlists⟩ := addAll_is hlast hmaps
  refine ⟨list, ?_, hlists⟩
  rw [getListForKey, hr]
  · cases r with
    | none => exact hlist
    | some maps => exact hlist
  · nofun

end Typed

end TypeCast

/-! ## The addresses -/

namespace TypeCast
variable {render : Document D → List Nat}

/-- `toString()` of a map or a list says what its document is. -/
def Renders (casting : Casting D) (render : Document D → List Nat) : Prop :=
  ∀ obj d, Object.Is obj d → (∀ v, d ≠ .scalar v) → casting.containerText obj = render d

theorem castString_is (hrender : Renders casting render) (h : Object.Is obj d) :
    castString casting obj = stringOf casting.toDoubles render d := by
  obtain ⟨v, heap⟩ := obj
  cases d with
  | scalar a =>
    cases (h.holds : v = .scalar a)
    rfl
  | object members =>
    have hcontainer := hrender _ _ h nofun
    obtain ⟨r, kvs, hr, -⟩ := h.holds
    cases (hr : v = .ref r)
    exact congrArg trimmed hcontainer
  | array elements =>
    have hcontainer := hrender _ _ h nofun
    obtain ⟨r, vs, hr, -⟩ := h.holds
    cases (hr : v = .ref r)
    exact congrArg trimmed hcontainer

theorem castInteger_is (hrender : Renders casting render) (h : Object.Is obj d) :
    castInteger casting obj = integerOf casting render d := by
  have hstring := castString_is hrender h
  obtain ⟨v, heap⟩ := obj
  cases d with
  | scalar a =>
    cases (h.holds : v = .scalar a)
    cases a <;> rfl
  | object members =>
    obtain ⟨r, kvs, hr, -⟩ := h.holds
    cases (hr : v = .ref r)
    unfold castInteger integerOf
    dsimp only
    rw [hstring]
  | array elements =>
    obtain ⟨r, vs, hr, -⟩ := h.holds
    cases (hr : v = .ref r)
    unfold castInteger integerOf
    dsimp only
    rw [hstring]

end TypeCast

namespace NSQLookup
open TypeCast

variable {render : Document D → List Nat}

theorem nodesOf_is (double : Doubles D) {answer : List Nat} (hsize : answer.length < 2 ^ 30) :
    ∃ nodes, nodesOf double answer = .ok nodes ∧
      List.Forall₂ DynMap.Is nodes (producers double answer) := by
  have hanswer : Object.Is (.scalar (.string answer), []) (.scalar (.string answer) : Document D) :=
    ⟨rfl, Nat.le_sub_one_of_lt hsize⟩
  have hkey : (Json.word "data.producers").splitOn '.'.toNat = [Json.word "data", Json.word "producers"] := by
    decide
  obtain ⟨mp, hmp, hmap⟩ := castDynMap_is double hanswer
  have hmembers : (mp.getD .new).Is ((membersOf double (.scalar (.string answer))).getD []) := by
    generalize membersOf double (.scalar (.string answer)) = members at hmap ⊢
    cases hmap with
    | some hmap => exact hmap
    | none => exact dynMap_new
  unfold nodesOf
  rw [hmp, hkey]
  exact getListForKey_is (castDynMap_casts double) hmembers _ _

/-- The key of an address. -/
def ConnectionAddress.key (address : ConnectionAddress) : List Nat := keyOf address.host (some address.port)

/-- The addresses are put one after the other. -/
def putAddresses (found : List ConnectionAddress) (addresses : List (List Nat × ConnectionAddress)) :
    List (List Nat × ConnectionAddress) :=
  found.foldl (fun addresses address => put address.key address addresses) addresses

/-- What a loop comes to that finds these, or a producer without a port. -/
def Puts (found : Option (List ConnectionAddress)) (addresses : List (List Nat × ConnectionAddress))
    (r : Except (Throwable D) (List (List Nat × ConnectionAddress))) : Prop :=
  r = match found with
    | some found => .ok (putAddresses found addresses)
    | none => .error .NullPointerException

theorem addNodes_puts (hrender : Renders casting render) {nodes : List (DynMap D)}
    {listed : List (List (List Nat × Document D))} (h : List.Forall₂ DynMap.Is nodes listed)
    (addresses : List (List Nat × ConnectionAddress)) :
    Puts (listed.mapM (addressOf casting render)) addresses (addNodes casting nodes addresses) := by
  induction h generalizing addresses with
  | nil => rfl
  | @cons node producer nodes listed his _ ih =>
    have hport : portOf casting node = integerOf casting render (fieldOf (Json.word "tcp_port") producer) :=
      castInteger_is hrender (his.get _)
    have hhost : hostOf casting node =
        (stringOf casting.toDoubles render (fieldOf (Json.word "broadcast_address") producer)).or
          (stringOf casting.toDoubles render (fieldOf (Json.word "address") producer)) := by
      rw [hostOf, castString_is hrender (his.get _), castString_is hrender (his.get _)]
    unfold Puts
    rw [addNodes, List.mapM_cons, addressOf, ← hport, ← hhost]
    cases portOf casting node with
    | none => rfl
    | some port =>
      have hrest := ih (put (keyOf (hostOf casting node) (some port)) ⟨1, hostOf casting node, port⟩ addresses)
      unfold Puts at hrest
      dsimp only [Option.map_some]
      rw [hrest]
      cases listed.mapM (addressOf casting render) <;> rfl

/-- `addr + "/lookup?topic=" + topic` -/
def url (addr topic : List Nat) : List Nat := addr ++ Json.word "/lookup?topic=" ++ topic

theorem addServers_puts (hrender : Renders casting render) {getHTML : List Nat → List Nat} {topic : List Nat}
    {addrs : List (List Nat)} (hsize : ∀ addr ∈ addrs, (getHTML (url addr topic)).length < 2 ^ 30)
    (addresses : List (List Nat × ConnectionAddress)) :
    Puts ((addrs.flatMap fun addr => producers casting.toDoubles (getHTML (url addr topic))).mapM
      (addressOf casting render)) addresses (addServers casting getHTML topic addrs addresses) := by
  induction addrs generalizing addresses with
  | nil => rfl
  | cons addr addrs ih =>
    obtain ⟨nodes, hnodes, his⟩ := nodesOf_is casting.toDoubles (hsize addr (List.mem_cons_self ..))
    have hputs := addNodes_puts hrender his addresses
    have hrest := ih fun addr haddr => hsize addr (List.mem_cons_of_mem _ haddr)
    unfold Puts at hputs hrest ⊢
    rw [addServers, show nodesOf casting.toDoubles (getHTML (addr ++ Json.word "/lookup?topic=" ++ topic)) = _ from
      hnodes, List.flatMap_cons, List.mapM_append]
    change (addNodes casting nodes addresses).bind _ = _
    rw [hputs]
    cases (producers casting.toDoubles (getHTML (url addr topic))).mapM (addressOf casting render) with
    | none => rfl
    | some found =>
      change addServers casting getHTML topic addrs (putAddresses found addresses) = _
      rw [hrest]
      cases (addrs.flatMap fun addr => producers casting.toDoubles (getHTML (url addr topic))).mapM
        (addressOf casting render) with
      | none => rfl
      | some found' =>
        exact congrArg Except.ok List.foldl_append.symm

/-- The table holds addresses of those found, one for each of their keys. -/
structure Holds (found : List ConnectionAddress) (addresses : List (List Nat × ConnectionAddress)) : Prop where
  nodup : (addresses.map Prod.fst).Nodup
  sound : ∀ p ∈ addresses, p.1 = p.2.key ∧ p.2 ∈ found
  complete : ∀ address ∈ found, address.key ∈ addresses.map Prod.fst

theorem map_put (key : List Nat) (address : ConnectionAddress) (addresses : List (List Nat × ConnectionAddress)) :
    (put key address addresses).map Prod.fst =
      if key ∈ addresses.map Prod.fst then addresses.map Prod.fst else addresses.map Prod.fst ++ [key] := by
  induction addresses with
  | nil => rfl
  | cons p addresses ih =>
    rw [put, List.map_cons]
    by_cases hp : p.1 = key
    · rw [if_pos hp, if_pos (List.mem_cons.2 (.inl hp.symm)), List.map_cons, hp]
    · rw [if_neg hp, List.map_cons, ih]
      by_cases hmem : key ∈ addresses.map Prod.fst
      · rw [if_pos hmem, if_pos (List.mem_cons_of_mem _ hmem)]
      · rw [if_neg hmem, if_neg fun h => (List.mem_cons.1 h).elim (fun h => hp h.symm) hmem, List.cons_append]

theorem mem_put {key : List Nat} {address : ConnectionAddress} {addresses : List (List Nat × ConnectionAddress)}
    {p : List Nat × ConnectionAddress} (h : p ∈ put key address addresses) :
    p = (key, address) ∨ p ∈ addresses := by
  induction addresses with
  | nil => exact .inl (List.mem_singleton.1 h)
  | cons p' addresses ih =>
    rw [put] at h
    split at h
    · exact (List.mem_cons.1 h).imp_right (List.mem_cons_of_mem _)
    · obtain rfl | h := List.mem_cons.1 h
      · exact .inr (List.mem_cons_self ..)
      · exact (ih h).imp_right (List.mem_cons_of_mem _)

theorem Holds.put {found : List ConnectionAddress} {addresses : List (List Nat × ConnectionAddress)}
    (h : Holds found addresses) (address : ConnectionAddress) :
    Holds (found ++ [address]) (put address.key address addresses) where
  nodup := by
    rw [map_put]
    split
    · exact h.nodup
    · next hnew => exact List.Nodup.append h.nodup (List.nodup_singleton _) (List.disjoint_singleton.2 hnew)
  sound p hp := by
    obtain rfl | hp := mem_put hp
    · exact ⟨rfl, List.mem_append_right _ (List.mem_singleton.2 rfl)⟩
    · exact ⟨(h.sound p hp).1, List.mem_append_left _ (h.sound p hp).2⟩
  complete address' haddress' := by
    rw [map_put]
    obtain hmem | hmem := List.mem_append.1 haddress'
    · have hkey := h.complete address' hmem
      split
      · exact hkey
      · exact List.mem_append_left _ hkey
    · rw [List.mem_singleton.1 hmem]
      split
      · next hkey => exact hkey
      · exact List.mem_append_right _ (List.mem_singleton.2 rfl)

theorem Holds.putAddresses {found found' : List ConnectionAddress}
    {addresses : List (List Nat × ConnectionAddress)} (h : Holds found addresses) :
    Holds (found ++ found') (putAddresses found' addresses) := by
  induction found' generalizing found addresses with
  | nil => rwa [List.append_nil]
  | cons address found' ih =>
    have hput := ih (h.put address)
    rwa [List.append_assoc, List.singleton_append] at hput

/-- The producers that the servers list for a topic. -/
noncomputable def listed (this : NSQLookupDynMapImpl) (double : Doubles D) (getHTML : List Nat → List Nat)
    (topic : List Nat) : List (List (List Nat × Document D)) :=
  this.addresses.flatMap fun addr => producers double (getHTML (url addr topic))

/-- **The addresses are those of the producers in the answers**, one for each host and port. An answer that is
no document lists none, and a producer without a port is an exception. -/
theorem lookup_spec (hrender : Renders casting render) (this : NSQLookupDynMapImpl)
    (getHTML : List Nat → List Nat) (topic : List Nat)
    (hsize : ∀ addr ∈ this.addresses, (getHTML (url addr topic)).length < 2 ^ 30) :
    match (listed this casting.toDoubles getHTML topic).mapM (addressOf casting render) with
    | some found => ∃ l, lookup this casting getHTML topic = .ok l ∧ (l.map ConnectionAddress.key).Nodup ∧
        (∀ address ∈ l, address ∈ found) ∧ ∀ address ∈ found, ∃ address' ∈ l, address'.key = address.key
    | none => lookup this casting getHTML topic = .error .NullPointerException := by
  have hputs := addServers_puts hrender hsize []
  unfold Puts at hputs
  unfold lookup
  rw [hputs]
  unfold listed
  cases (this.addresses.flatMap fun addr => producers casting.toDoubles (getHTML (url addr topic))).mapM
    (addressOf casting render) with
  | none => rfl
  | some found =>
    have hholds : Holds found (putAddresses found []) :=
      (⟨List.nodup_nil, nofun, nofun⟩ : Holds [] []).putAddresses
    have hkeys : ((putAddresses found []).map Prod.snd).map ConnectionAddress.key =
        (putAddresses found []).map Prod.fst := by
      rw [List.map_map]
      exact List.map_congr_left fun p hp => (hholds.sound p hp).1.symm
    refine ⟨_, rfl, hkeys ▸ hholds.nodup, fun address haddress => ?_, fun address haddress => ?_⟩
    · obtain ⟨p, hp, rfl⟩ := List.mem_map.1 haddress
      exact (hholds.sound p hp).2
    · have hkey := hholds.complete address haddress
      rw [← hkeys] at hkey
      exact List.mem_map.1 hkey

/-- What a server answers that knows one producer. -/
def answer : Document Unit :=
  .object [(Json.word "data", .object [(Json.word "producers", .array [.object [
    (Json.word "broadcast_address", .scalar (.string (Json.word "nsqd"))),
    (Json.word "tcp_port", .scalar (.long 4150))]])])]

/-- No double is cast and no container is written where this is used. -/
def halfCasting : Casting Unit := { half with intValue := fun _ => 0, containerText := fun _ => [] }

theorem halfCasting_renders : Renders halfCasting fun _ => [] := fun _ _ _ _ => rfl

theorem keys_ne : Json.word "tcp_port" ≠ Json.word "broadcast_address" ∧
    Json.word "tcp_port" ≠ Json.word "address" ∧ Json.word "broadcast_address" ≠ Json.word "address" := by
  decide

theorem answer_size : (toJSONString half answer).length < 2 ^ 30 := by decide

theorem listed_answer : (listed ⟨[Json.word "http://lookup:4161"]⟩ halfCasting.toDoubles
    (fun _ => toJSONString half answer) (Json.word "topic")).mapM (addressOf halfCasting fun _ => []) =
      some [⟨1, some (Json.word "nsqd"), 4150⟩] := by
  have hdoc : documentOf halfCasting.toDoubles (toJSONString half answer) = some answer :=
    documentOf_eq_some.2 (textOf_toJSONString half_faithful answer)
  have hproducers : producers halfCasting.toDoubles (toJSONString half answer) = [[
      (Json.word "broadcast_address", .scalar (.string (Json.word "nsqd"))),
      (Json.word "tcp_port", .scalar (.long 4150))]] := by
    rw [producers, membersOf, hdoc]
    simp [answer, Document.members?, fieldOf, Doc.lastOf, objectsOf, itemsOf, membersOf]
  rw [listed, List.flatMap_singleton, hproducers]
  simp [addressOf, fieldOf, Doc.lastOf, keys_ne, keys_ne.1.symm, integerOf, stringOf, scalarString]

theorem lookup_spec_answer : ∃ l, lookup ⟨[Json.word "http://lookup:4161"]⟩ halfCasting
      (fun _ => toJSONString half answer) (Json.word "topic") = .ok l ∧
    (l.map ConnectionAddress.key).Nodup ∧
    (∀ address ∈ l, address ∈ [⟨1, some (Json.word "nsqd"), 4150⟩]) ∧
    ∀ address ∈ [(⟨1, some (Json.word "nsqd"), 4150⟩ : ConnectionAddress)],
      ∃ address' ∈ l, address'.key = address.key := by
  have hspec := lookup_spec halfCasting_renders ⟨[Json.word "http://lookup:4161"]⟩
    (fun _ => toJSONString half answer) (Json.word "topic") fun _ _ => answer_size
  rwa [listed_answer] at hspec

/-! ## Named hosts -/

theorem toString_eq (port : Int32) : toString port = toString port.toInt64 := by
  rw [show toString port = toString port.toInt from rfl, ← Int32.toInt_toInt64]
  rfl

theorem colon_notMem (port : Int32) : ':'.toNat ∉ units (toString port) := by
  obtain ⟨sign, ds, hsign, hds, hunits⟩ := units_toString port.toInt64
  rw [toString_eq, hunits]
  intro hmem
  obtain hmem | hmem := List.mem_append.1 hmem
  · obtain rfl | rfl := hsign
    · cases hmem
    · exact absurd hmem (by decide)
  · exact absurd (hds.2 _ hmem).2 (by decide)

theorem port_injective {port port' : Int32} (h : units (toString port) = units (toString port')) :
    port = port' := by
  rw [toString_eq, toString_eq] at h
  have hint := congrArg Int64.toInt (Long.toString_injective (units_injective h))
  rw [Int32.toInt_toInt64, Int32.toInt_toInt64] at hint
  exact Int32.toInt_inj.1 hint

/-- Of two texts that go on with the same character and do not have it after that. -/
theorem append_cons_inj {a a' b b' : List Nat} {c : Nat} (hb : c ∉ b) (hb' : c ∉ b')
    (h : a ++ c :: b = a' ++ c :: b') : a = a' ∧ b = b' := by
  obtain ⟨w, rfl, hw⟩ | ⟨w, rfl, hw⟩ := List.append_eq_append_iff.1 h
  · cases w with
    | nil => exact ⟨(List.append_nil a).symm, (List.cons.inj hw).2⟩
    | cons c' w =>
      obtain ⟨rfl, rfl⟩ := List.cons.inj hw
      exact absurd (List.mem_append_right _ (List.mem_cons_self ..)) hb
  · cases w with
    | nil => exact ⟨List.append_nil a', (List.cons.inj hw).2.symm⟩
    | cons c' w =>
      obtain ⟨rfl, rfl⟩ := List.cons.inj hw
      exact absurd (List.mem_append_right _ (List.mem_cons_self ..)) hb'

theorem key_injective {address address' : ConnectionAddress} (hhost : address.host.isSome)
    (hhost' : address'.host.isSome) (hkey : address.key = address'.key) :
    address.host = address'.host ∧ address.port = address'.port := by
  obtain ⟨host, hsome⟩ := Option.isSome_iff_exists.1 hhost
  obtain ⟨host', hsome'⟩ := Option.isSome_iff_exists.1 hhost'
  unfold ConnectionAddress.key keyOf at hkey
  rw [hsome, hsome'] at hkey ⊢
  obtain ⟨rfl, hport⟩ := append_cons_inj (colon_notMem _) (colon_notMem _) hkey
  exact ⟨rfl, port_injective hport⟩

theorem mapM_poolsize {render : Document D → List Nat} {producers : List (List (List Nat × Document D))}
    {found : List ConnectionAddress} (h : producers.mapM (addressOf casting render) = some found) :
    ∀ address ∈ found, address.poolsize = 1 := by
  induction producers generalizing found with
  | nil =>
    cases h
    nofun
  | cons producer producers ih =>
    rw [List.mapM_cons] at h
    obtain ⟨address, haddress, h⟩ := Option.bind_eq_some_iff.1 h
    obtain ⟨rest, hrest, h⟩ := Option.bind_eq_some_iff.1 h
    cases h
    obtain ⟨port, -, rfl⟩ := Option.map_eq_some_iff.1 haddress
    exact List.forall_mem_cons.2 ⟨rfl, ih hrest⟩

/-- Where the hosts are known, each address is there once. -/
theorem lookup_named (hrender : Renders casting render) (this : NSQLookupDynMapImpl)
    (getHTML : List Nat → List Nat) (topic : List Nat) (found : List ConnectionAddress)
    (hsize : ∀ addr ∈ this.addresses, (getHTML (url addr topic)).length < 2 ^ 30)
    (hfound : (listed this casting.toDoubles getHTML topic).mapM (addressOf casting render) = some found)
    (hhosts : ∀ address ∈ found, address.host.isSome) :
    ∃ l, lookup this casting getHTML topic = .ok l ∧ l.Nodup ∧ ∀ address, address ∈ l ↔ address ∈ found := by
  have hspec := lookup_spec hrender this getHTML topic hsize
  rw [hfound] at hspec
  obtain ⟨l, hlookup, hnodup, hsound, hcomplete⟩ := hspec
  refine ⟨l, hlookup, hnodup.of_map, fun address => ⟨hsound address, fun haddress => ?_⟩⟩
  obtain ⟨address', haddress', hkey⟩ := hcomplete address haddress
  obtain ⟨hhost, hport⟩ := key_injective (hhosts _ (hsound _ haddress')) (hhosts _ haddress) hkey
  have hpool := (mapM_poolsize hfound _ (hsound _ haddress')).trans (mapM_poolsize hfound _ haddress).symm
  have heq : address' = address := by
    cases address
    cases address'
    cases hhost
    cases hport
    cases hpool
    rfl
  exact heq ▸ haddress'

theorem lookup_named_answer : ∃ l, lookup ⟨[Json.word "http://lookup:4161"]⟩ halfCasting
      (fun _ => toJSONString half answer) (Json.word "topic") = .ok l ∧ l.Nodup ∧
    ∀ address, address ∈ l ↔ address ∈ [⟨1, some (Json.word "nsqd"), 4150⟩] :=
  lookup_named halfCasting_renders _ _ _ _ (fun _ _ => answer_size) listed_answer (by decide)

/-! ## Connections -/

/-- The address as the client has it. -/
def ConnectionAddress.toClient (address : ConnectionAddress) : NSQClient.ConnectionAddress :=
  ⟨String.ofList (characters (address.host.getD [])), address.port.toInt, address.poolsize⟩

/-- **A consumer that connects has a connection to each producer**, if they accept it and none of those it has
to them is old. -/
theorem discovered (hrender : Renders casting render) (this : NSQLookupDynMapImpl)
    (getHTML : List Nat → List Nat) (topic : List Nat) (found l : List ConnectionAddress)
    (client : NSQClient) (net : NSQClient.Network)
    (hsize : ∀ addr ∈ this.addresses, (getHTML (url addr topic)).length < 2 ^ 30)
    (hfound : (listed this casting.toDoubles getHTML topic).mapM (addressOf casting render) = some found)
    (hhosts : ∀ address ∈ found, address.host.isSome)
    (hlookup : lookup this casting getHTML topic = .ok l)
    (haddresses : net.addresses = l.map ConnectionAddress.toClient) (hclient : client.Numbered)
    (haccepts : ∀ address ∈ found, net.refuses address.toClient.host address.toClient.port = false)
    (hold : ∀ address ∈ found, client.old net.now address.toClient.host address.toClient.port = 0) :
    ∃ client', client.connect net = (.ok (), client') ∧
      ∀ address ∈ found, 1 ≤ client'.size address.toClient.host address.toClient.port := by
  obtain ⟨l', hl', -, hmem⟩ := lookup_named hrender this getHTML topic found hsize hfound hhosts
  obtain rfl : l = l' := Except.ok.inj (hlookup.symm.trans hl')
  have hlisted : ∀ addr ∈ net.addresses, ∃ address ∈ found, addr = address.toClient := by
    intro addr haddr
    rw [haddresses] at haddr
    obtain ⟨address, haddress, rfl⟩ := List.mem_map.1 haddr
    exact ⟨address, (hmem address).1 haddress, rfl⟩
  have hrefused : client.kind = .consumer → ∀ addr ∈ net.addresses, net.refuses addr.host addr.port = true →
      addr.poolsize ≤ client.size addr.host addr.port := by
    intro _ addr haddr hrefuses
    obtain ⟨address, haddress, rfl⟩ := hlisted addr haddr
    rw [haccepts address haddress] at hrefuses
    cases hrefuses
  obtain ⟨client', hconnect, -, -, -, hiff⟩ := NSQClient.connect_ok hclient hrefused
  have hpools := hiff.2 fun addr haddr _ => by
    obtain ⟨address, haddress, rfl⟩ := hlisted addr haddr
    exact .inr ⟨_, haddr, rfl, rfl, by rw [hold address haddress]; omega⟩
  refine ⟨client', hconnect, fun address haddress => ?_⟩
  have hpool := hpools address.toClient
    (by rw [haddresses]; exact List.mem_map_of_mem ((hmem address).2 haddress)) (haccepts address haddress)
  have hone : address.toClient.poolsize = 1 := congrArg Nat.cast (mapM_poolsize hfound address haddress)
  omega

theorem discovered_answer : ∃ l client', lookup ⟨[Json.word "http://lookup:4161"]⟩ halfCasting
      (fun _ => toJSONString half answer) (Json.word "topic") = .ok l ∧
    (NSQClient.new .consumer).connect ⟨l.map ConnectionAddress.toClient, fun _ _ => false, 0⟩ = (.ok (), client') ∧
      ∀ address ∈ [(⟨1, some (Json.word "nsqd"), 4150⟩ : ConnectionAddress)],
        1 ≤ client'.size address.toClient.host address.toClient.port := by
  obtain ⟨l, hlookup, -⟩ := lookup_named halfCasting_renders _ _ _ _ (fun _ _ => answer_size) listed_answer
    (by decide)
  obtain ⟨client', hclient⟩ := discovered halfCasting_renders _ _ _ _ l (.new .consumer)
    ⟨l.map ConnectionAddress.toClient, fun _ _ => false, 0⟩ (fun _ _ => answer_size) listed_answer
    (by decide) hlookup rfl nofun (fun _ _ => rfl) fun _ _ => rfl
  exact ⟨l, client', hlookup, hclient⟩

end NSQLookup

end BaseService.Notify.JSON
