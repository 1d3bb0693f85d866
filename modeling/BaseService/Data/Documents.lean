import Mathlib

/-!
# Documents in a heap

Maps and lists that refer to each other, as a program builds them from the outside in.

* `Doc` : a document; `Item`, `Container`, `Heap` : maps and lists and what they refer to;
* `Holds` : an item of the heap is the document, where the last member of a name counts;
* `lastOf`, `All` : what is read of a document;
* `Context` : a map or a list with a hole where one of its items is being built;
* `InMap`, `InList` : a heap in which a map or a list is being built;
* `put`, `add`, `openMap` and so on : the steps that build it.
-/

namespace BaseService

inductive Doc (K A : Type)
  | scalar (a : A)
  | object (members : List (K × Doc K A))
  | array (elements : List (Doc K A))

/-- A scalar or a reference to a container. -/
inductive Item (A : Type)
  | scalar (a : A)
  | ref (r : Nat)
  deriving DecidableEq

inductive Container (K A : Type)
  | map (m : K → Option (Item A))
  | list (l : List (Item A))

abbrev Heap (K A : Type) := List (Container K A)

namespace Doc
variable {K A : Type} [DecidableEq K]

def put (m : K → Option (Item A)) (k : K) (v : Item A) : K → Option (Item A) :=
  fun k' => if k' = k then some v else m k'

def empty : K → Option (Item A) := fun _ => none

/-- The map after the puts, in this order. -/
def putAll (kvs : List (K × Item A)) : K → Option (Item A) :=
  kvs.foldl (fun m p => put m p.1 p.2) empty

theorem putAll_snoc (kvs : List (K × Item A)) (k : K) (v : Item A) :
    putAll (kvs ++ [(k, v)]) = put (putAll kvs) k v := by
  rw [putAll, List.foldl_append]
  rfl

/-! ## What a heap holds -/

mutual

/-- The item is the document, with its containers at `lo` or above and below `hi`. -/
def Holds (h : Heap K A) (lo hi : Nat) (v : Item A) : Doc K A → Prop
  | scalar a => v = .scalar a
  | object members => ∃ r kvs, v = .ref r ∧ lo ≤ r ∧ r < hi ∧ h[r]? = some (.map (putAll kvs)) ∧
      HoldsMembers h lo hi kvs members
  | array elements => ∃ r vs, v = .ref r ∧ lo ≤ r ∧ r < hi ∧ h[r]? = some (.list vs) ∧
      HoldsElements h lo hi vs elements

def HoldsMembers (h : Heap K A) (lo hi : Nat) (kvs : List (K × Item A)) : List (K × Doc K A) → Prop
  | [] => kvs = []
  | (k, d) :: members => ∃ v rest, kvs = (k, v) :: rest ∧ Holds h lo hi v d ∧
      HoldsMembers h lo hi rest members

def HoldsElements (h : Heap K A) (lo hi : Nat) (vs : List (Item A)) : List (Doc K A) → Prop
  | [] => vs = []
  | d :: elements => ∃ v rest, vs = v :: rest ∧ Holds h lo hi v d ∧ HoldsElements h lo hi rest elements

end

variable {h h' : Heap K A} {lo lo' hi hi' r : Nat} {k : K} {v : Item A} {d : Doc K A}
  {kvs : List (K × Item A)} {vs : List (Item A)} {members : List (K × Doc K A)} {elements : List (Doc K A)}

mutual

/-- A heap that agrees on the containers of the document holds it too. -/
theorem Holds.mono (hlo : lo' ≤ lo) (hhi : hi ≤ hi') (hagree : ∀ r, lo ≤ r → r < hi → h'[r]? = h[r]?) :
    ∀ {d : Doc K A} {v : Item A}, Holds h lo hi v d → Holds h' lo' hi' v d
  | scalar _, _, hv => hv
  | object _, _, ⟨r, kvs, hv, hr, hlt, hget, hmembers⟩ =>
    ⟨r, kvs, hv, hlo.trans hr, hlt.trans_le hhi, (hagree r hr hlt).trans hget,
      HoldsMembers.mono hlo hhi hagree hmembers⟩
  | array _, _, ⟨r, vs, hv, hr, hlt, hget, helements⟩ =>
    ⟨r, vs, hv, hlo.trans hr, hlt.trans_le hhi, (hagree r hr hlt).trans hget,
      HoldsElements.mono hlo hhi hagree helements⟩

theorem HoldsMembers.mono (hlo : lo' ≤ lo) (hhi : hi ≤ hi')
    (hagree : ∀ r, lo ≤ r → r < hi → h'[r]? = h[r]?) : ∀ {members : List (K × Doc K A)}
      {kvs : List (K × Item A)}, HoldsMembers h lo hi kvs members → HoldsMembers h' lo' hi' kvs members
  | [], _, hkvs => hkvs
  | (_, _) :: _, _, ⟨v, rest, hkvs, hv, hrest⟩ =>
    ⟨v, rest, hkvs, Holds.mono hlo hhi hagree hv, HoldsMembers.mono hlo hhi hagree hrest⟩

theorem HoldsElements.mono (hlo : lo' ≤ lo) (hhi : hi ≤ hi')
    (hagree : ∀ r, lo ≤ r → r < hi → h'[r]? = h[r]?) : ∀ {elements : List (Doc K A)}
      {vs : List (Item A)}, HoldsElements h lo hi vs elements → HoldsElements h' lo' hi' vs elements
  | [], _, hvs => hvs
  | _ :: _, _, ⟨v, rest, hvs, hv, hrest⟩ =>
    ⟨v, rest, hvs, Holds.mono hlo hhi hagree hv, HoldsElements.mono hlo hhi hagree hrest⟩

end

theorem Holds.lt (hheld : Holds h lo hi (.ref r) d) : r < hi := by
  cases d with
  | scalar a => cases (hheld : Item.ref r = .scalar a)
  | object members =>
    obtain ⟨_, _, hr, -, hlt, -⟩ := hheld
    cases hr
    exact hlt
  | array elements =>
    obtain ⟨_, _, hr, -, hlt, -⟩ := hheld
    cases hr
    exact hlt

theorem HoldsMembers.snoc (hmembers : HoldsMembers h lo hi kvs members) (hv : Holds h lo hi v d) :
    HoldsMembers h lo hi (kvs ++ [(k, v)]) (members ++ [(k, d)]) := by
  induction members generalizing kvs with
  | nil =>
    cases (hmembers : kvs = [])
    exact ⟨v, [], rfl, hv, rfl⟩
  | cons m members ih =>
    obtain ⟨v', rest, rfl, hv', hrest⟩ := hmembers
    exact ⟨v', rest ++ [(k, v)], rfl, hv', ih hrest⟩

theorem HoldsElements.snoc (helements : HoldsElements h lo hi vs elements) (hv : Holds h lo hi v d) :
    HoldsElements h lo hi (vs ++ [v]) (elements ++ [d]) := by
  induction elements generalizing vs with
  | nil =>
    cases (helements : vs = [])
    exact ⟨v, [], rfl, hv, rfl⟩
  | cons e elements ih =>
    obtain ⟨v', rest, rfl, hv', hrest⟩ := helements
    exact ⟨v', rest ++ [v], rfl, hv', ih hrest⟩

/-! ## What is read of a document -/

/-- The last value of the name. -/
def lastOf {β : Type} (k : K) : List (K × β) → Option β
  | [] => none
  | (k', v) :: rest => (lastOf k rest).or (if k' = k then some v else none)

theorem foldl_put (m : K → Option (Item A)) (kvs : List (K × Item A)) (k : K) :
    kvs.foldl (fun m p => put m p.1 p.2) m k = (lastOf k kvs).or (m k) := by
  induction kvs generalizing m with
  | nil => rfl
  | cons p kvs ih =>
    rw [List.foldl_cons, ih, lastOf, Option.or_assoc, put]
    by_cases hk : k = p.1
    · rw [if_pos hk, if_pos hk.symm, Option.some_or]
    · rw [if_neg hk, if_neg (Ne.symm hk), Option.none_or]

theorem putAll_apply (kvs : List (K × Item A)) (k : K) : putAll kvs k = lastOf k kvs := by
  rw [putAll, foldl_put, empty, Option.or_none]

theorem HoldsMembers.lastOf (hmembers : HoldsMembers h lo hi kvs members) (k : K) :
    Option.Rel (Holds h lo hi) (lastOf k kvs) (lastOf k members) := by
  induction members generalizing kvs with
  | nil =>
    cases (hmembers : kvs = [])
    exact .none
  | cons m members ih =>
    obtain ⟨v, rest, rfl, hv, hrest⟩ := hmembers
    have hlast := ih hrest
    rw [Doc.lastOf, Doc.lastOf]
    generalize Doc.lastOf k rest = last, Doc.lastOf k members = last' at hlast ⊢
    cases hlast with
    | some hlast => exact .some hlast
    | none =>
      rw [Option.none_or, Option.none_or]
      split
      · exact .some hv
      · exact .none

mutual

/-- The scalars of a document are such. -/
def All (P : A → Prop) : Doc K A → Prop
  | scalar a => P a
  | object members => AllMembers P members
  | array elements => AllElements P elements

def AllMembers (P : A → Prop) : List (K × Doc K A) → Prop
  | [] => True
  | (_, d) :: members => All P d ∧ AllMembers P members

def AllElements (P : A → Prop) : List (Doc K A) → Prop
  | [] => True
  | d :: elements => All P d ∧ AllElements P elements

end

omit [DecidableEq K] in
mutual

theorem All.mono {P Q : A → Prop} (hPQ : ∀ a, P a → Q a) : ∀ {d : Doc K A}, All P d → All Q d
  | scalar a, ha => hPQ a ha
  | object _, hmembers => AllMembers.mono hPQ hmembers
  | array _, helements => AllElements.mono hPQ helements

theorem AllMembers.mono {P Q : A → Prop} (hPQ : ∀ a, P a → Q a) : ∀ {members : List (K × Doc K A)},
    AllMembers P members → AllMembers Q members
  | [], _ => trivial
  | (_, _) :: _, ⟨hd, hrest⟩ => ⟨All.mono hPQ hd, AllMembers.mono hPQ hrest⟩

theorem AllElements.mono {P Q : A → Prop} (hPQ : ∀ a, P a → Q a) : ∀ {elements : List (Doc K A)},
    AllElements P elements → AllElements Q elements
  | [], _ => trivial
  | _ :: _, ⟨hd, hrest⟩ => ⟨All.mono hPQ hd, AllElements.mono hPQ hrest⟩

end

theorem AllMembers.lastOf {P : A → Prop} (hall : AllMembers P members) {k : K}
    (hlast : lastOf k members = some d) : All P d := by
  induction members with
  | nil => cases hlast
  | cons m members ih =>
    obtain ⟨k', d'⟩ := m
    rw [Doc.lastOf] at hlast
    cases hrest : Doc.lastOf k members with
    | some d'' =>
      rw [hrest] at hlast
      cases hlast
      exact ih hall.2 hrest
    | none =>
      rw [hrest, Option.none_or] at hlast
      split at hlast
      · cases hlast
        exact hall.1
      · cases hlast

theorem HoldsElements.forall₂ {P : A → Prop} (helements : HoldsElements h lo hi vs elements)
    (hall : AllElements P elements) :
    List.Forall₂ (fun v d => Holds h lo hi v d ∧ All P d) vs elements := by
  induction elements generalizing vs with
  | nil =>
    cases (helements : vs = [])
    exact .nil
  | cons e elements ih =>
    obtain ⟨v, rest, rfl, hv, hrest⟩ := helements
    exact .cons ⟨hv, hall.1⟩ (ih hrest hall.2)

/-! ## Documents that are being built -/

/-- A map or a list with a hole behind its items. -/
inductive Context (K A : Type)
  | member (done : List (K × Doc K A)) (k : K)
  | element (done : List (Doc K A))

/-- The container at `r'` has the items of the context and then the one at `r`. -/
def Hole (h : Heap K A) (r r' : Nat) : Context K A → Prop
  | .member done k => ∃ kvs, h[r']? = some (.map (putAll (kvs ++ [(k, .ref r)]))) ∧
      HoldsMembers h (r' + 1) r kvs done
  | .element done => ∃ vs, h[r']? = some (.list (vs ++ [.ref r])) ∧ HoldsElements h (r' + 1) r vs done

/-- The contexts around the container at `r`, from the inside out. -/
def Contexts (h : Heap K A) : Nat → List Nat → List (Context K A) → Prop
  | _, [], [] => True
  | r, r' :: rs, c :: cs => r' < r ∧ Hole h r r' c ∧ Contexts h r' rs cs
  | _, _, _ => False

theorem Contexts.congr {rs : List Nat} {cs : List (Context K A)} (hcontexts : Contexts h r rs cs)
    (hagree : ∀ r', r' < r → h'[r']? = h[r']?) : Contexts h' r rs cs := by
  induction rs generalizing r cs with
  | nil =>
    cases cs with
    | nil => trivial
    | cons c cs => exact hcontexts
  | cons r' rs ih =>
    cases cs with
    | nil => exact hcontexts
    | cons c cs =>
      obtain ⟨hlt, hhole, hrest⟩ := hcontexts
      refine ⟨hlt, ?_, ih hrest fun r'' hr'' => hagree r'' (hr''.trans hlt)⟩
      cases c with
      | member done k =>
        obtain ⟨kvs, hget, hdone⟩ := hhole
        exact ⟨kvs, (hagree r' hlt).trans hget,
          hdone.mono le_rfl le_rfl fun r'' _ hr'' => hagree r'' hr''⟩
      | element done =>
        obtain ⟨vs, hget, hdone⟩ := hhole
        exact ⟨vs, (hagree r' hlt).trans hget,
          hdone.mono le_rfl le_rfl fun r'' _ hr'' => hagree r'' hr''⟩

/-- The map at `r` is being built. -/
structure InMap (h : Heap K A) (r : Nat) (rs : List Nat) (m : K → Option (Item A))
    (done : List (K × Doc K A)) (cs : List (Context K A)) : Prop where
  get : h[r]? = some (.map m)
  holds : ∃ kvs, m = putAll kvs ∧ HoldsMembers h (r + 1) h.length kvs done
  contexts : Contexts h r rs cs

/-- The list at `r` is being built. -/
structure InList (h : Heap K A) (r : Nat) (rs : List Nat) (l : List (Item A)) (done : List (Doc K A))
    (cs : List (Context K A)) : Prop where
  get : h[r]? = some (.list l)
  holds : HoldsElements h (r + 1) h.length l done
  contexts : Contexts h r rs cs

variable {rs : List Nat} {m : K → Option (Item A)} {l : List (Item A)} {cs : List (Context K A)}
  {done : List (K × Doc K A)} {items : List (Doc K A)}

omit [DecidableEq K] in
theorem lt_of_get {c : Container K A} (hget : h[r]? = some c) : r < h.length :=
  (List.getElem?_eq_some_iff.1 hget).1

omit [DecidableEq K] in
theorem get_set_of_ne {c : Container K A} {r' : Nat} (hne : r' ≠ r) : (h.set r c)[r']? = h[r']? :=
  List.getElem?_set_ne hne.symm

/-- A heap of one map. -/
theorem inMap_single : InMap ([.map empty] : Heap K A) 0 [] empty [] [] :=
  ⟨rfl, ⟨[], rfl, rfl⟩, trivial⟩

theorem inList_single : InList ([.list []] : Heap K A) 0 [] [] [] [] :=
  ⟨rfl, rfl, trivial⟩

theorem InMap.put (hin : InMap h r rs m done cs) (k : K) (a : A) :
    InMap (h.set r (.map (put m k (.scalar a)))) r rs (Doc.put m k (.scalar a)) (done ++ [(k, .scalar a)]) cs := by
  have hlt := lt_of_get hin.get
  obtain ⟨kvs, rfl, hdone⟩ := hin.holds
  refine ⟨List.getElem?_set_self hlt, ⟨kvs ++ [(k, .scalar a)], (putAll_snoc ..).symm, ?_⟩,
    hin.contexts.congr fun r' hr' => get_set_of_ne hr'.ne⟩
  rw [List.length_set]
  exact (hdone.mono le_rfl le_rfl fun r' hr' _ => get_set_of_ne (by omega)).snoc rfl

theorem InList.add (hin : InList h r rs l items cs) (a : A) :
    InList (h.set r (.list (l ++ [.scalar a]))) r rs (l ++ [.scalar a]) (items ++ [.scalar a]) cs := by
  have hlt := lt_of_get hin.get
  refine ⟨List.getElem?_set_self hlt, ?_, hin.contexts.congr fun r' hr' => get_set_of_ne hr'.ne⟩
  rw [List.length_set]
  exact (hin.holds.mono le_rfl le_rfl fun r' hr' _ => get_set_of_ne (by omega)).snoc rfl

omit [DecidableEq K] in
theorem get_open {c c' : Container K A} {r' : Nat} (hlt : r' < h.length) (hne : r' ≠ r) :
    ((h ++ [c]).set r c')[r']? = h[r']? := by
  rw [List.getElem?_set_ne hne.symm, List.getElem?_append_left hlt]

omit [DecidableEq K] in
theorem get_new {c c' : Container K A} (hlt : r < h.length) :
    ((h ++ [c]).set r c')[h.length]? = some c := by
  rw [List.getElem?_set_ne hlt.ne, List.getElem?_concat_length]

/-- A new container in a map is one that is being built. -/
theorem InMap.contexts_open (hin : InMap h r rs m done cs) (k : K) (c : Container K A) :
    Contexts ((h ++ [c]).set r (.map (Doc.put m k (.ref h.length)))) h.length (r :: rs)
      (.member done k :: cs) := by
  have hlt := lt_of_get hin.get
  obtain ⟨kvs, rfl, hdone⟩ := hin.holds
  refine ⟨hlt, ⟨kvs, ?_, ?_⟩, hin.contexts.congr fun r' hr' => get_open (hr'.trans hlt) hr'.ne⟩
  · rw [putAll_snoc]
    exact List.getElem?_set_self (by rw [List.length_append]; omega)
  · exact hdone.mono le_rfl le_rfl fun r' hr' hlt' => get_open hlt' (by omega)

theorem InList.contexts_open (hin : InList h r rs l items cs) (c : Container K A) :
    Contexts ((h ++ [c]).set r (.list (l ++ [.ref h.length]))) h.length (r :: rs)
      (.element items :: cs) := by
  have hlt := lt_of_get hin.get
  refine ⟨hlt, ⟨l, ?_, ?_⟩, hin.contexts.congr fun r' hr' => get_open (hr'.trans hlt) hr'.ne⟩
  · exact List.getElem?_set_self (by rw [List.length_append]; omega)
  · exact hin.holds.mono le_rfl le_rfl fun r' hr' hlt' => get_open hlt' (by omega)

theorem inMap_new {c' : Container K A} (hlt : r < h.length)
    (hcontexts : Contexts ((h ++ [Container.map empty]).set r c') h.length rs cs) :
    InMap ((h ++ [Container.map empty]).set r c') h.length rs empty [] cs :=
  ⟨get_new hlt, ⟨[], rfl, rfl⟩, hcontexts⟩

theorem inList_new {c' : Container K A} (hlt : r < h.length)
    (hcontexts : Contexts ((h ++ [Container.list []]).set r c') h.length rs cs) :
    InList ((h ++ [Container.list []]).set r c') h.length rs [] [] cs :=
  ⟨get_new hlt, rfl, hcontexts⟩

/-- A map that is built is a document. -/
theorem InMap.closed (hin : InMap h r rs m done cs) : Holds h r h.length (.ref r) (.object done) := by
  obtain ⟨kvs, rfl, hdone⟩ := hin.holds
  exact ⟨r, kvs, rfl, le_rfl, lt_of_get hin.get, hin.get,
    hdone.mono (Nat.le_succ r) le_rfl fun _ _ _ => rfl⟩

theorem InList.closed (hin : InList h r rs l items cs) : Holds h r h.length (.ref r) (.array items) :=
  ⟨r, l, rfl, le_rfl, lt_of_get hin.get, hin.get,
    hin.holds.mono (Nat.le_succ r) le_rfl fun _ _ _ => rfl⟩

/-- With it the map around it goes on. -/
theorem inMap_of_closed {r' : Nat} {k : K} (hclosed : Holds h r h.length (.ref r) d)
    (hcontexts : Contexts h r (r' :: rs) (.member done k :: cs)) :
    ∃ m, InMap h r' rs m (done ++ [(k, d)]) cs := by
  obtain ⟨hlt, ⟨kvs, hget, hdone⟩, hrest⟩ := hcontexts
  refine ⟨_, hget, ⟨_, rfl, ?_⟩, hrest⟩
  exact (hdone.mono le_rfl hclosed.lt.le fun _ _ _ => rfl).snoc (hclosed.mono hlt le_rfl fun _ _ _ => rfl)

theorem inList_of_closed {r' : Nat} (hclosed : Holds h r h.length (.ref r) d)
    (hcontexts : Contexts h r (r' :: rs) (.element items :: cs)) :
    ∃ l, InList h r' rs l (items ++ [d]) cs := by
  obtain ⟨hlt, ⟨vs, hget, hdone⟩, hrest⟩ := hcontexts
  refine ⟨_, hget, ?_, hrest⟩
  exact (hdone.mono le_rfl hclosed.lt.le fun _ _ _ => rfl).snoc (hclosed.mono hlt le_rfl fun _ _ _ => rfl)

end Doc

end BaseService
