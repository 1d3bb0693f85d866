import Mathlib

/-!
# The Java values the services compute with

* `wrapInt`, `wrapLong` : two's complement `int` and `long`;
* `lt_of_lt_deadline`, `lt_deadline_of_lt` : the comparison of a clock with a wrapping deadline;
* `units`, `characters` : the UTF-16 units of a string, and back;
* `HashCode` : `Object.hashCode`, with the `String` instance of the language;
* `Long.valueOf`, `Integer.parseInt` : the numbers that a text denotes;
* `splitRegex` : `String.split`;
* `Outcome` : a method returns a value or throws.
-/

namespace BaseService

/-- The value of an `int` after an arithmetic operation. -/
def wrapInt (x : Int) : Int := (x + 2 ^ 31) % 2 ^ 32 - 2 ^ 31

/-- The value of a `long` after an arithmetic operation. -/
def wrapLong (x : Int) : Int := (x + 2 ^ 63) % 2 ^ 64 - 2 ^ 63

theorem wrapInt_of_range {x : Int} (h₁ : -2 ^ 31 ≤ x) (h₂ : x < 2 ^ 31) : wrapInt x = x := by
  unfold wrapInt
  omega

/-! ## Deadlines

`start + interval` of two `long`s wraps around; `toInt` is the exact value. -/

theorem Int64.toInt_add_of_range {a b : Int64} (h₁ : -2 ^ 63 ≤ a.toInt + b.toInt)
    (h₂ : a.toInt + b.toInt < 2 ^ 63) : (a + b).toInt = a.toInt + b.toInt := by
  rw [Int64.toInt_add, Int.bmod_def]
  omega

/-- A wrapped deadline lies in the past. -/
theorem lt_of_lt_deadline {now start interval : Int64} (hn : 0 ≤ now) (hs : 0 ≤ start)
    (h : now < start + interval) : now.toInt < start.toInt + interval.toInt := by
  have hn := Int64.le_iff_toInt_le.mp hn
  have hs := Int64.le_iff_toInt_le.mp hs
  have h := Int64.lt_iff_toInt_lt.mp h
  have hd := interval.toInt_lt
  have hz : (0 : Int64).toInt = 0 := rfl
  by_cases hw : start.toInt + interval.toInt < 2 ^ 63
  · rwa [Int64.toInt_add_of_range (by have := interval.le_toInt; omega) hw] at h
  · have := now.toInt_lt
    omega

theorem lt_deadline_of_lt {now start interval : Int64} (hs : 0 ≤ start)
    (h : now.toInt < start.toInt + interval.toInt)
    (hfits : start.toInt + interval.toInt < 2 ^ 63) : now < start + interval := by
  have hs := Int64.le_iff_toInt_le.mp hs
  have hz : (0 : Int64).toInt = 0 := rfl
  rw [Int64.lt_iff_toInt_lt,
    Int64.toInt_add_of_range (by have := interval.le_toInt; omega) hfits]
  exact h

/-- `Object.hashCode`. -/
class HashCode (K : Type) where
  hashCode : K → BitVec 32

export HashCode (hashCode)

/-- The UTF-16 code units of a character. -/
def utf16 (c : Char) : List Nat :=
  if c.toNat < 0x10000 then [c.toNat]
  else [0xD800 + (c.toNat - 0x10000) / 0x400, 0xDC00 + (c.toNat - 0x10000) % 0x400]

/-- The units of a string. -/
def units (s : String) : List Nat := s.toList.flatMap utf16

theorem units_append (a b : String) : units (a ++ b) = units a ++ units b := by
  simp [units, String.toList_append]

/-- The characters of UTF-16 units. -/
def characters : List Nat → List Char
  | [] => []
  | [u] => [Char.ofNat u]
  | u :: v :: rest =>
    if 0xD800 ≤ u ∧ u < 0xDC00 then
      Char.ofNat (0x10000 + (u - 0xD800) * 0x400 + (v - 0xDC00)) :: characters rest
    else Char.ofNat u :: characters (v :: rest)

theorem characters_cons {u : Nat} (h : ¬ (0xD800 ≤ u ∧ u < 0xDC00)) (l : List Nat) :
    characters (u :: l) = Char.ofNat u :: characters l := by
  cases l with
  | nil => rfl
  | cons v l => rw [characters, if_neg h]

theorem characters_units (s : String) : characters (units s) = s.toList := by
  unfold units
  generalize s.toList = cs
  induction cs with
  | nil => rfl
  | cons c cs ih =>
    have hvalid : c.toNat < 0xD800 ∨ 0xDFFF < c.toNat ∧ c.toNat < 0x110000 := c.valid
    rw [List.flatMap_cons]
    by_cases hc : c.toNat < 0x10000
    · have hunits : utf16 c = [c.toNat] := if_pos hc
      rw [hunits, List.singleton_append, characters_cons (by omega), ih, Char.ofNat_toNat]
    · have hunits : utf16 c = [0xD800 + (c.toNat - 0x10000) / 0x400,
        0xDC00 + (c.toNat - 0x10000) % 0x400] := if_neg hc
      have hback : 0x10000 + (0xD800 + (c.toNat - 0x10000) / 0x400 - 0xD800) * 0x400 +
          (0xDC00 + (c.toNat - 0x10000) % 0x400 - 0xDC00) = c.toNat := by
        omega
      rw [hunits, List.cons_append, List.singleton_append, characters, if_pos (by omega), hback, ih,
        Char.ofNat_toNat]

/-- Different strings have different units. -/
theorem units_injective : Function.Injective units := fun a b h => by
  rw [← String.toList_inj, ← characters_units, ← characters_units, h]

theorem exists_units_of_ascii {l : List Nat} (h : ∀ u ∈ l, u < 128) : ∃ s, units s = l := by
  refine ⟨String.ofList (l.map Char.ofNat), ?_⟩
  rw [units, String.toList_ofList]
  induction l with
  | nil => rfl
  | cons u l ih =>
    obtain ⟨hu, hl⟩ := List.forall_mem_cons.mp h
    have hchar : ∀ u < 128, utf16 (Char.ofNat u) = [u] := by decide
    rw [List.map_cons, List.flatMap_cons, hchar u hu, ih hl, List.singleton_append]

/-- `String.hashCode`: `s[0]*31^(n-1) + ... + s[n-1]` over the UTF-16 units. -/
instance : HashCode String where
  hashCode s := (s.toList.flatMap utf16).foldl (fun h c => 31 * h + BitVec.ofNat 32 c) 0

/-! ## Decimal texts -/

namespace Long

/-- The zeros of the decimal digits of the Basic Multilingual Plane. -/
def zeros : List Nat :=
  [0x30, 0x660, 0x6F0, 0x7C0, 0x966, 0x9E6, 0xA66, 0xAE6, 0xB66, 0xBE6, 0xC66, 0xCE6, 0xD66, 0xE50,
    0xED0, 0xF20, 0x1040, 0x1090, 0x17E0, 0x1810, 0x1946, 0x19D0, 0x1A80, 0x1A90, 0x1B50, 0x1BB0,
    0x1C40, 0x1C50, 0xA620, 0xA8D0, 0xA900, 0xA9D0, 0xAA50, 0xABF0, 0xFF10]

/-- `Character.digit(c, 10)`. -/
def digit (c : Char) : Option Nat :=
  (zeros.find? fun z => z ≤ c.toNat ∧ c.toNat < z + 10).map (c.toNat - ·)

/-- The value of the digits after those that `n` is the value of. -/
def readDigits (n : Nat) : List Char → Option Nat
  | [] => some n
  | c :: cs => do
    let d ← digit c
    readDigits (10 * n + d) cs

/-- The digits `cs` after a sign. -/
def ofDigits (negative : Bool) (cs : List Char) : Option Int64 :=
  if cs = [] then none
  else
    (readDigits 0 cs).bind fun n =>
      let value : Int := if negative then -n else n
      if -2 ^ 63 ≤ value ∧ value < 2 ^ 63 then some (Int64.ofInt value) else none

/-- `Long.valueOf(s)`, which takes a plus since Java 7; `none` is a `NumberFormatException`. -/
def valueOf (s : String) : Option Int64 :=
  match s.toList with
  | '-' :: cs => ofDigits true cs
  | '+' :: cs => ofDigits false cs
  | cs => ofDigits false cs

theorem digit_of_isDigit {c : Char} (h : c.isDigit) : digit c = some (c.toNat - '0'.toNat) := by
  simp only [Char.isDigit, Bool.and_eq_true, decide_eq_true_eq] at h
  have h₁ : 0x30 ≤ c.toNat := h.1
  have h₂ : c.toNat < 0x30 + 10 := Nat.lt_succ_of_le h.2
  simp [digit, zeros, h₁, h₂]

theorem readDigits_isDigit {cs : List Char} (h : ∀ c ∈ cs, c.isDigit) (n : Nat) :
    readDigits n cs = some (Nat.ofDigitChars 10 cs n) := by
  induction cs generalizing n with
  | nil => rfl
  | cons c cs ih =>
    rw [readDigits, digit_of_isDigit (h c List.mem_cons_self)]
    exact ih (fun d hd => h d (List.mem_cons_of_mem _ hd)) _

theorem isDigit_of_mem {n : ℕ} {c : Char} (h : c ∈ Nat.toDigits 10 n) : c.isDigit :=
  Nat.isDigit_of_mem_toDigits (by decide) (by decide) h

theorem readDigits_toDigits (n : Nat) : readDigits 0 (Nat.toDigits 10 n) = some n := by
  rw [readDigits_isDigit fun c hc => isDigit_of_mem hc, Nat.ofDigitChars_ten_toDigits]

theorem ofDigits_toDigits {negative : Bool} {n : Nat} {i : Int64}
    (h : i.toInt = if negative then -(n : Int) else n) :
    ofDigits negative (Nat.toDigits 10 n) = some i := by
  have h₁ := i.le_toInt
  have h₂ := i.toInt_lt
  rw [ofDigits, if_neg Nat.toDigits_ne_nil, readDigits_toDigits, Option.bind_some, ← h]
  simp only [if_pos (And.intro h₁ h₂), Int64.ofInt_toInt]

theorem toList_toString (i : Int64) : ∃ n : ℕ,
    (toString i).toList = Nat.toDigits 10 n ∧ i.toInt = n ∨
      (toString i).toList = '-' :: Nat.toDigits 10 n ∧ i.toInt = -n := by
  rw [show toString i = toString i.toInt from rfl]
  cases i.toInt with
  | ofNat n => exact ⟨n, .inl ⟨Nat.toList_repr, rfl⟩⟩
  | negSucc n =>
    refine ⟨n + 1, .inr ⟨?_, Int.negSucc_eq n⟩⟩
    rw [show toString (Int.negSucc n) = "-" ++ Nat.repr (n + 1) from rfl, String.toList_append,
      Nat.toList_repr]
    rfl

/-- A `long` is read back from its decimal text. -/
theorem valueOf_toString (i : Int64) : valueOf (toString i) = some i := by
  unfold valueOf
  obtain ⟨n, ⟨hlist, hi⟩ | ⟨hlist, hi⟩⟩ := toList_toString i
  · rw [hlist]
    split
    · next h => exact absurd (isDigit_of_mem (n := n) (c := '-') (by rw [h]; simp)) (by decide)
    · next h => exact absurd (isDigit_of_mem (n := n) (c := '+') (by rw [h]; simp)) (by decide)
    · exact ofDigits_toDigits hi
  · rw [hlist]
    exact ofDigits_toDigits hi

theorem toString_injective : Function.Injective (toString : Int64 → String) := by
  intro i j h
  have hi := valueOf_toString i
  rw [h, valueOf_toString] at hi
  exact (Option.some.inj hi).symm

/-- Its text has digits, and perhaps a minus. -/
theorem toString_spec (i : Int64) : toString i ≠ "" ∧ ∀ c ∈ (toString i).toList, c = '-' ∨ c.isDigit := by
  obtain ⟨n, ⟨hlist, -⟩ | ⟨hlist, -⟩⟩ := toList_toString i
  · refine ⟨fun h => ?_, fun c hc => .inr (isDigit_of_mem (hlist ▸ hc))⟩
    rw [h] at hlist
    exact Nat.toDigits_ne_nil hlist.symm
  · refine ⟨fun h => ?_, fun c hc => ?_⟩
    · rw [h] at hlist
      cases hlist
    · rw [hlist] at hc
      exact (List.mem_cons.1 hc).imp_right isDigit_of_mem

end Long

/-- `Integer.parseInt(s)`; `none` is a `NumberFormatException`. -/
def Integer.parseInt (s : String) : Option Int32 :=
  (Long.valueOf s).bind fun n =>
    if -2 ^ 31 ≤ n.toInt ∧ n.toInt < 2 ^ 31 then some (Int32.ofInt n.toInt) else none

/-- `s.split(regex)` for one character: the empty strings at the end are dropped, and a string without
the character is left as it is. -/
def splitRegex (s : String) (regex : Char) : List String :=
  if regex ∈ s.toList then
    ((s.toList.splitOn regex).rdropWhile List.isEmpty).map String.ofList
  else [s]

/-- What a caller can see a method throw. -/
inductive Thrown
  | nullPointer
  | indexOutOfBounds
  deriving DecidableEq, Repr

/-- A method returns a value or throws. -/
abbrev Outcome (α : Type) := Except Thrown α

end BaseService
