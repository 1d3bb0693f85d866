import Mathlib

/-!
# JSON

A text is a list of code units.

* `Json` : the values; `parse` : the value of a text;
* `readString_unescaped`, `unescaped_of_readString` : when a string is written as it is;
* `readNumber_digits` : integers; `Follow` : what comes after a value;
* `readValue_…`, `readItems_…`, `readMembers_…` : a value from its parts.
-/

namespace BaseService

/-- The members of an object are in the order of the text. -/
inductive Json
  | null
  | bool (b : Bool)
  | number (n : ℚ)
  | string (s : List Nat)
  | array (elements : List Json)
  | object (members : List (List Nat × Json))

namespace Json

def word (s : String) : List Nat := s.toList.map Char.toNat

/-- `ws` -/
def skip (cs : List Nat) : List Nat :=
  cs.dropWhile fun c => c = ' '.toNat ∨ c = '\t'.toNat ∨ c = '\n'.toNat ∨ c = '\r'.toNat

/-! ## Strings -/

def hexValue (c : Nat) : Option Nat :=
  if '0'.toNat ≤ c ∧ c ≤ '9'.toNat then some (c - '0'.toNat)
  else if 'a'.toNat ≤ c ∧ c ≤ 'f'.toNat then some (c - 'a'.toNat + 10)
  else if 'A'.toNat ≤ c ∧ c ≤ 'F'.toNat then some (c - 'A'.toNat + 10)
  else none

/-- The unit that follows a backslash and is not four digits of `u`. -/
def escaped (c : Nat) : Option Nat :=
  if c = '"'.toNat ∨ c = '\\'.toNat ∨ c = '/'.toNat then some c
  else if c = 'b'.toNat then some 8
  else if c = 'f'.toNat then some 12
  else if c = 'n'.toNat then some 10
  else if c = 'r'.toNat then some 13
  else if c = 't'.toNat then some 9
  else none

/-- A string up to its closing quotation mark, and the text after that. -/
def readString : List Nat → Option (List Nat × List Nat)
  | [] => none
  | c :: cs =>
    if c = '"'.toNat then some ([], cs)
    else if c = '\\'.toNat then
      match cs with
      | [] => none
      | e :: cs =>
        if e = 'u'.toNat then
          match cs with
          | h₁ :: h₂ :: h₃ :: h₄ :: cs => do
            let d₁ ← hexValue h₁
            let d₂ ← hexValue h₂
            let d₃ ← hexValue h₃
            let d₄ ← hexValue h₄
            let (s, rest) ← readString cs
            some ((((d₁ * 16 + d₂) * 16 + d₃) * 16 + d₄) :: s, rest)
          | _ => none
        else do
          let u ← escaped e
          let (s, rest) ← readString cs
          some (u :: s, rest)
    else if c < ' '.toNat then none
    else do
      let (s, rest) ← readString cs
      some (c :: s, rest)

/-! ## Numbers -/

def isDigit (c : Nat) : Bool := '0'.toNat ≤ c ∧ c ≤ '9'.toNat

def digitsValue (ds : List Nat) : Nat := ds.foldl (fun n d => 10 * n + (d - '0'.toNat)) 0

/-- One digit or more. -/
def readDigits (cs : List Nat) : Option (List Nat × List Nat) :=
  if cs.takeWhile isDigit = [] then none else some (cs.takeWhile isDigit, cs.dropWhile isDigit)

/-- `int`: a zero at the front is the only digit. -/
def readInt (cs : List Nat) : Option (Nat × List Nat) := do
  let (ds, cs) ← readDigits cs
  if ds.head? = some '0'.toNat ∧ ds.length ≠ 1 then none else some (digitsValue ds, cs)

def readFrac : List Nat → Option (ℚ × List Nat)
  | [] => some (0, [])
  | c :: cs =>
    if c = '.'.toNat then do
      let (ds, cs) ← readDigits cs
      some (digitsValue ds / 10 ^ ds.length, cs)
    else some (0, c :: cs)

def readExp : List Nat → Option (ℤ × List Nat)
  | [] => some (0, [])
  | c :: cs =>
    if c = 'e'.toNat ∨ c = 'E'.toNat then
      match cs with
      | [] => none
      | s :: cs =>
        if s = '-'.toNat then do
          let (ds, cs) ← readDigits cs
          some (-digitsValue ds, cs)
        else do
          let (ds, cs) ← readDigits (if s = '+'.toNat then cs else s :: cs)
          some (digitsValue ds, cs)
    else some (0, c :: cs)

def readUnsigned (cs : List Nat) : Option (ℚ × List Nat) := do
  let (n, cs) ← readInt cs
  let (f, cs) ← readFrac cs
  let (e, cs) ← readExp cs
  some ((n + f) * 10 ^ e, cs)

def readNumber : List Nat → Option (ℚ × List Nat)
  | [] => none
  | c :: cs =>
    if c = '-'.toNat then (readUnsigned cs).map fun (n, cs) => (-n, cs) else readUnsigned (c :: cs)

/-! ## Values -/

/-- `null`, `true` and `false`. -/
def readLiteral (cs : List Nat) : Option (Json × List Nat) :=
  if word "null" <+: cs then some (null, cs.drop 4)
  else if word "true" <+: cs then some (bool true, cs.drop 4)
  else if word "false" <+: cs then some (bool false, cs.drop 5)
  else none

/-- The name of a member and the colon. -/
def readName (cs : List Nat) : Option (List Nat × List Nat) :=
  match skip cs with
  | [] => none
  | c :: cs =>
    if c = '"'.toNat then do
      let (k, cs) ← readString cs
      match skip cs with
      | [] => none
      | d :: cs => if d = ':'.toNat then some (k, cs) else none
    else none

/-- Parts with commas between them, up to `close`. There are at most `n`. -/
def readSeq {α : Type} (part : List Nat → Option (α × List Nat)) (close : Nat) :
    Nat → List Nat → Option (List α × List Nat)
  | 0, _ => none
  | n + 1, cs => do
    let (a, cs) ← part cs
    match skip cs with
    | [] => none
    | c :: cs =>
      if c = ','.toNat then (readSeq part close n cs).map fun (l, cs) => (a :: l, cs)
      else if c = close then some ([a], cs)
      else none

/-- What comes after the opening bracket of an array or an object. -/
def readParts {α : Type} (part : List Nat → Option (α × List Nat)) (close : Nat) (cs : List Nat) :
    Option (List α × List Nat) :=
  if (skip cs).head? = some close then some ([], (skip cs).tail)
  else readSeq part close cs.length cs

def readMember (value : List Nat → Option (Json × List Nat)) (cs : List Nat) :
    Option ((List Nat × Json) × List Nat) := do
  let (k, cs) ← readName cs
  let (v, cs) ← value cs
  some ((k, v), cs)

/-- A value of less than `fuel` levels. -/
def readValue : Nat → List Nat → Option (Json × List Nat)
  | 0, _ => none
  | fuel + 1, cs =>
    match skip cs with
    | [] => none
    | c :: cs =>
      if c = '"'.toNat then (readString cs).map fun (s, cs) => (string s, cs)
      else if c = '['.toNat then
        (readParts (readValue fuel) ']'.toNat cs).map fun (l, cs) => (array l, cs)
      else if c = '{'.toNat then
        (readParts (readMember (readValue fuel)) '}'.toNat cs).map fun (l, cs) => (object l, cs)
      else if c = '-'.toNat ∨ isDigit c then (readNumber (c :: cs)).map fun (n, cs) => (number n, cs)
      else readLiteral (c :: cs)

/-- The value of a text. Each level takes a unit. -/
def parse (cs : List Nat) : Option Json := do
  let (v, cs) ← readValue (cs.length + 1) cs
  if skip cs = [] then some v else none

/-! ## Strings as they are written -/

variable {c : Nat} {cs s rest r : List Nat}

/-- No unit needs a backslash. -/
def Unescaped (s : List Nat) : Prop := ∀ c ∈ s, c ≠ '"'.toNat ∧ c ≠ '\\'.toNat ∧ ' '.toNat ≤ c

instance (s : List Nat) : Decidable (Unescaped s) := by
  unfold Unescaped
  infer_instance

theorem Unescaped.cons (hc : c ≠ '"'.toNat ∧ c ≠ '\\'.toNat ∧ ' '.toNat ≤ c) (h : Unescaped s) :
    Unescaped (c :: s) :=
  List.forall_mem_cons.mpr ⟨hc, h⟩

theorem readString_end : readString ('"'.toNat :: cs) = some ([], cs) := by
  rw [readString.eq_def]
  exact if_pos rfl

theorem readString_cons (h : c ≠ '"'.toNat ∧ c ≠ '\\'.toNat ∧ ' '.toNat ≤ c) :
    readString (c :: cs) = (readString cs).map fun p => (c :: p.1, p.2) := by
  rw [readString.eq_def]
  simp only [if_neg h.1, if_neg h.2.1, if_neg (Nat.not_lt.mpr h.2.2)]
  cases readString cs <;> rfl

theorem readString_escaped {e u : Nat} (he : e ≠ 'u'.toNat) (hu : escaped e = some u) :
    readString ('\\'.toNat :: e :: cs) = (readString cs).map fun p => (u :: p.1, p.2) := by
  rw [readString.eq_def]
  simp only [if_neg (show ¬ '\\'.toNat = '"'.toNat by decide), if_true, if_neg he, hu]
  cases readString cs <;> rfl

theorem readString_hex {h₁ h₂ h₃ h₄ d₁ d₂ d₃ d₄ : Nat} (e₁ : hexValue h₁ = some d₁)
    (e₂ : hexValue h₂ = some d₂) (e₃ : hexValue h₃ = some d₃) (e₄ : hexValue h₄ = some d₄) :
    readString ('\\'.toNat :: 'u'.toNat :: h₁ :: h₂ :: h₃ :: h₄ :: cs) =
      (readString cs).map fun p => ((((d₁ * 16 + d₂) * 16 + d₃) * 16 + d₄) :: p.1, p.2) := by
  rw [readString.eq_def]
  simp only [if_neg (show ¬ '\\'.toNat = '"'.toNat by decide), if_true, e₁, e₂, e₃, e₄]
  cases readString cs <;> rfl

theorem readString_unescaped (h : Unescaped s) :
    readString (s ++ '"'.toNat :: rest) = some (s, rest) := by
  induction s with
  | nil => exact readString_end
  | cons c s ih =>
    obtain ⟨hc, hs⟩ := List.forall_mem_cons.mp h
    rw [List.cons_append, readString_cons hc, ih hs]
    rfl

/-- The first unit of a string: its end, a unit with a backslash, or a unit as it is. -/
theorem readString_cases (h : readString (c :: cs) = some (s, r)) :
    (c = '"'.toNat ∧ s = []) ∨
    (c = '\\'.toNat ∧ ∃ e cs' u s', cs = e :: cs' ∧ escaped e = some u ∧
      readString cs' = some (s', r) ∧ s = u :: s') ∨
    (c = '\\'.toNat ∧ ∃ h₁ h₂ h₃ h₄ cs' u s', cs = 'u'.toNat :: h₁ :: h₂ :: h₃ :: h₄ :: cs' ∧
      (hexValue h₁).isSome ∧ (hexValue h₂).isSome ∧ (hexValue h₃).isSome ∧ (hexValue h₄).isSome ∧
      readString cs' = some (s', r) ∧ s = u :: s') ∨
    (c ≠ '"'.toNat ∧ c ≠ '\\'.toNat ∧ ' '.toNat ≤ c) ∧
      ∃ s', readString cs = some (s', r) ∧ s = c :: s' := by
  by_cases hend : c = '"'.toNat
  · rw [hend, readString_end] at h
    cases h
    exact Or.inl ⟨hend, rfl⟩
  by_cases hback : c = '\\'.toNat
  · rw [readString.eq_def] at h
    simp only [if_neg hend, if_pos hback] at h
    cases cs with
    | nil => cases h
    | cons e cs =>
      by_cases hu : e = 'u'.toNat
      · simp only [if_pos hu] at h
        split at h
        · next h₁ h₂ h₃ h₄ cs' =>
          obtain ⟨d₁, e₁, h⟩ := Option.bind_eq_some_iff.mp h
          obtain ⟨d₂, e₂, h⟩ := Option.bind_eq_some_iff.mp h
          obtain ⟨d₃, e₃, h⟩ := Option.bind_eq_some_iff.mp h
          obtain ⟨d₄, e₄, h⟩ := Option.bind_eq_some_iff.mp h
          obtain ⟨⟨s', r'⟩, hs, h⟩ := Option.bind_eq_some_iff.mp h
          cases h
          exact Or.inr (Or.inr (Or.inl ⟨hback, h₁, h₂, h₃, h₄, cs', _, s', by rw [hu],
            Option.isSome_of_eq_some e₁, Option.isSome_of_eq_some e₂,
            Option.isSome_of_eq_some e₃, Option.isSome_of_eq_some e₄, hs, rfl⟩))
        · cases h
      · simp only [if_neg hu] at h
        obtain ⟨u, hu, h⟩ := Option.bind_eq_some_iff.mp h
        obtain ⟨⟨s', r'⟩, hs, h⟩ := Option.bind_eq_some_iff.mp h
        cases h
        exact Or.inr (Or.inl ⟨hback, e, cs, u, s', rfl, hu, hs, rfl⟩)
  · by_cases hcontrol : c < ' '.toNat
    · rw [readString.eq_def] at h
      simp only [if_neg hend, if_neg hback, if_pos hcontrol] at h
      cases h
    · have hc : c ≠ '"'.toNat ∧ c ≠ '\\'.toNat ∧ ' '.toNat ≤ c :=
        ⟨hend, hback, Nat.not_lt.mp hcontrol⟩
      rw [readString_cons hc] at h
      obtain ⟨⟨s', r'⟩, hs, h⟩ := Option.map_eq_some_iff.mp h
      cases h
      exact Or.inr (Or.inr (Or.inr ⟨hc, s', hs, rfl⟩))

/-- A text up to a quotation mark is read as it is, or what is read is shorter or has an earlier
quotation mark. -/
theorem readString_upto {a : List Nat} (ha : '"'.toNat ∉ a)
    (h : readString (a ++ '"'.toNat :: rest) = some (s, r)) :
    s.length < a.length ∨ (s = a ∧ Unescaped a) ∨ ∃ j < a.length, s[j]? = some '"'.toNat := by
  induction hn : a.length using Nat.strong_induction_on generalizing a s with
  | _ n ih =>
    -- A unit `u` is read from the first units of `a`, and the others are left.
    have hshorter : ∀ {a' s' : List Nat} {u : Nat}, '"'.toNat ∉ a' → a'.length + 2 ≤ n →
        readString (a' ++ '"'.toNat :: rest) = some (s', r) → s = u :: s' →
        s.length < n ∨ (s = a ∧ Unescaped a) ∨ ∃ j < n, s[j]? = some '"'.toNat := by
      rintro a' s' u ha' hlt hs rfl
      rcases ih a'.length (by omega) ha' hs rfl with hlen | ⟨rfl, -⟩ | ⟨j, hj, hq⟩
      · exact Or.inl (by simp only [List.length_cons]; omega)
      · exact Or.inl (by simp only [List.length_cons]; omega)
      · exact Or.inr (Or.inr ⟨j + 1, by omega, hq⟩)
    cases a with
    | nil =>
      rw [List.nil_append, readString_end] at h
      cases h
      exact Or.inr (Or.inl ⟨rfl, fun c hc => (by cases hc)⟩)
    | cons c a =>
      rw [List.mem_cons, not_or] at ha
      rw [List.length_cons] at hn
      rcases readString_cases h with ⟨rfl, -⟩ | ⟨-, e, cs', u, s', hcs, hu, hs, rfl⟩ |
        ⟨-, h₁, h₂, h₃, h₄, cs', u, s', hcs, e₁, e₂, e₃, e₄, hs, rfl⟩ | ⟨hc, s', hs, rfl⟩
      · exact absurd rfl ha.1
      · cases a with
        | nil =>
          -- The backslash belongs to the quotation mark.
          cases hcs
          cases hu
          exact Or.inr (Or.inr ⟨0, by omega, rfl⟩)
        | cons e' a =>
          cases hcs
          rw [List.mem_cons, not_or] at ha
          exact hshorter ha.2.2 (by simp only [List.length_cons] at hn; omega) hs rfl
      · -- The four digits are in `a`, because a quotation mark is none.
        have hquote : (hexValue '"'.toNat).isSome = false := by decide
        rcases a with _ | ⟨a₁, _ | ⟨a₂, _ | ⟨a₃, _ | ⟨a₄, _ | ⟨a₅, a⟩⟩⟩⟩⟩ <;> cases hcs
        · rw [hquote] at e₁
          cases e₁
        · rw [hquote] at e₂
          cases e₂
        · rw [hquote] at e₃
          cases e₃
        · rw [hquote] at e₄
          cases e₄
        · simp only [List.mem_cons, not_or] at ha
          exact hshorter ha.2.2.2.2.2.2 (by simp only [List.length_cons] at hn; omega) hs rfl
      · rcases ih a.length (by omega) ha.2 hs rfl with hlen | ⟨rfl, hu⟩ | ⟨j, hj, hq⟩
        · exact Or.inl (by simp only [List.length_cons]; omega)
        · exact Or.inr (Or.inl ⟨rfl, hu.cons hc⟩)
        · exact Or.inr (Or.inr ⟨j + 1, by omega, hq⟩)

/-- **A string is read as it is written only if nothing is escaped.** -/
theorem unescaped_of_readString (h : readString (s ++ '"'.toNat :: rest) = some (s, r)) :
    Unescaped s := by
  by_cases hquote : '"'.toNat ∈ s
  · obtain ⟨a, b, hs, ha⟩ := List.eq_append_cons_of_mem hquote
    have hlen := congrArg List.length hs
    rw [List.length_append, List.length_cons] at hlen
    rw [hs, List.append_assoc, List.cons_append, ← hs] at h
    rcases readString_upto ha h with hlt | ⟨rfl, -⟩ | ⟨j, hj, hq⟩
    · omega
    · omega
    · rw [hs, List.getElem?_append_left hj] at hq
      exact absurd (List.mem_of_getElem? hq) ha
  · rcases readString_upto hquote h with hlt | ⟨-, hu⟩ | ⟨j, hj, hq⟩
    · omega
    · exact hu
    · exact absurd (List.mem_of_getElem? hq) hquote

/-! ## Integers -/

/-- What comes after a value: the end, a comma or a bracket. -/
def Follow : List Nat → Prop
  | [] => True
  | c :: _ => c = ','.toNat ∨ c = ']'.toNat ∨ c = '}'.toNat

theorem Follow.not_digit (h : Follow rest) : rest.takeWhile isDigit = [] := by
  cases rest with
  | nil => rfl
  | cons c rest => rcases h with rfl | rfl | rfl <;> rfl

theorem Follow.skip (h : Follow rest) : skip rest = rest := by
  cases rest with
  | nil => rfl
  | cons c rest => rcases h with rfl | rfl | rfl <;> rfl

theorem readFrac_follow (h : Follow rest) : readFrac rest = some (0, rest) := by
  cases rest with
  | nil => rfl
  | cons c rest => rcases h with rfl | rfl | rfl <;> rfl

theorem readExp_follow (h : Follow rest) : readExp rest = some (0, rest) := by
  cases rest with
  | nil => rfl
  | cons c rest => rcases h with rfl | rfl | rfl <;> rfl

/-- The digits of a number, without a superfluous zero. -/
structure Decimal (ds : List Nat) : Prop where
  digit : ∀ d ∈ ds, isDigit d
  ne_nil : ds ≠ []
  zero : ds.head? = some '0'.toNat → ds.length = 1

theorem readDigits_append {ds : List Nat} (hds : Decimal ds) (h : Follow rest) :
    readDigits (ds ++ rest) = some (ds, rest) := by
  have htake : (ds ++ rest).takeWhile isDigit = ds := by
    rw [List.takeWhile_append_of_pos hds.digit, h.not_digit, List.append_nil]
  have hdrop : (ds ++ rest).dropWhile isDigit = rest := by
    have := List.takeWhile_append_dropWhile (p := isDigit) (l := ds ++ rest)
    rw [htake] at this
    exact List.append_cancel_left this
  rw [readDigits, htake, hdrop, if_neg hds.ne_nil]

theorem readUnsigned_append {ds : List Nat} (hds : Decimal ds) (h : Follow rest) :
    readUnsigned (ds ++ rest) = some ((digitsValue ds : ℚ), rest) := by
  have hint : readInt (ds ++ rest) = some (digitsValue ds, rest) := by
    simp only [readInt, readDigits_append hds h, Option.bind_eq_bind, Option.bind_some]
    exact if_neg fun hz => hz.2 (hds.zero hz.1)
  simp [readUnsigned, hint, readFrac_follow h, readExp_follow h]

theorem readNumber_digits {ds : List Nat} (hds : Decimal ds) (h : Follow rest) :
    readNumber (ds ++ rest) = some ((digitsValue ds : ℚ), rest) ∧
      readNumber ('-'.toNat :: ds ++ rest) = some (-(digitsValue ds : ℚ), rest) := by
  constructor
  · have hu := readUnsigned_append hds h
    cases ds with
    | nil => exact absurd rfl hds.ne_nil
    | cons d ds =>
      rw [List.cons_append, readNumber, if_neg, ← List.cons_append, hu]
      rintro rfl
      exact absurd (hds.digit _ (List.mem_cons_self ..)) (by decide)
  · rw [List.cons_append, readNumber, if_pos rfl, readUnsigned_append hds h]
    rfl

/-- A natural number in decimal notation. -/
def decimal (n : Nat) : List Nat := (Nat.toDigits 10 n).map Char.toNat

theorem toDigits_head {n : Nat} (h : (Nat.toDigits 10 n).head? = some '0') : n = 0 := by
  induction n using Nat.strong_induction_on with
  | _ n ih =>
    rw [Nat.toDigits_eq_if (by decide)] at h
    split at h
    · next hlt =>
      have hdigit : ∀ m < 10, Nat.digitChar m = '0' → m = 0 := by decide
      exact hdigit n hlt (Option.some.inj h)
    · next hge =>
      rw [List.head?_append_of_ne_nil _ Nat.toDigits_ne_nil] at h
      have := ih (n / 10) (by omega) h
      omega

theorem decimal_spec (n : Nat) : Decimal (decimal n) ∧ digitsValue (decimal n) = n := by
  refine ⟨⟨fun d hd => ?_, fun h => Nat.toDigits_ne_nil (List.map_eq_nil_iff.mp h), fun h => ?_⟩, ?_⟩
  · obtain ⟨c, hc, rfl⟩ := List.mem_map.mp hd
    have := Nat.isDigit_of_mem_toDigits (by decide) (by decide) hc
    simp only [Char.isDigit, Bool.and_eq_true, decide_eq_true_eq] at this
    simp only [isDigit, decide_eq_true_eq]
    exact this
  · rw [decimal, List.head?_map] at h
    obtain ⟨c, hc, hcz⟩ := Option.map_eq_some_iff.mp h
    obtain rfl : c = '0' := Char.toNat_inj.mp hcz
    rw [toDigits_head hc]
    rfl
  · rw [digitsValue, decimal, List.foldl_map]
    exact Nat.ofDigitChars_ten_toDigits

/-! ## Values -/

variable {fuel : Nat}

theorem readValue_string (h : readString cs = some (s, rest)) :
    readValue (fuel + 1) ('"'.toNat :: cs) = some (string s, rest) := by
  simp [readValue, skip, h]

theorem readValue_number {n : ℚ} (hc : c = '-'.toNat ∨ isDigit c)
    (h : readNumber (c :: cs) = some (n, rest)) :
    readValue (fuel + 1) (c :: cs) = some (number n, rest) := by
  have hrange : c = 45 ∨ 48 ≤ c ∧ c ≤ 57 := by simpa [isDigit] using hc
  have hskip : skip (c :: cs) = c :: cs := List.dropWhile_cons_of_neg (by simp; omega)
  rw [readValue, hskip]
  simp only [h, hc, if_true, Option.map_some]
  rw [if_neg (by simp; omega), if_neg (by simp; omega), if_neg (by simp; omega)]

theorem readValue_digits {ds : List Nat} (hds : Decimal ds) (h : Follow rest) :
    readValue (fuel + 1) (ds ++ rest) = some (number (digitsValue ds), rest) ∧
      readValue (fuel + 1) ('-'.toNat :: ds ++ rest) = some (number (-digitsValue ds), rest) := by
  obtain ⟨hn, hm⟩ := readNumber_digits hds h
  refine ⟨?_, readValue_number (Or.inl rfl) hm⟩
  cases ds with
  | nil => exact absurd rfl hds.ne_nil
  | cons d ds => exact readValue_number (Or.inr (hds.digit d (List.mem_cons_self ..))) hn

theorem readValue_word {w : String} {v : Json} (hw : (w, v) ∈ [("null", null), ("true", bool true),
    ("false", bool false)]) : readValue (fuel + 1) (word w ++ rest) = some (v, rest) := by
  simp only [List.mem_cons, List.not_mem_nil, or_false, Prod.mk.injEq] at hw
  rcases hw with ⟨rfl, rfl⟩ | ⟨rfl, rfl⟩ | ⟨rfl, rfl⟩ <;> rfl

/-- No value starts with a closing bracket. -/
theorem readValue_brace : readValue fuel ('}'.toNat :: cs) = none := by
  cases fuel <;> rfl

/-! ## Names -/

variable {k : List Nat}

theorem readName_unescaped (h : Unescaped k) :
    readName ('"'.toNat :: (k ++ '"'.toNat :: ':'.toNat :: rest)) = some (k, rest) := by
  have hread : readString (k ++ 34 :: 58 :: rest) = some (k, 58 :: rest) := readString_unescaped h
  simp [readName, skip, hread]

theorem unescaped_of_readName (h : readName ('"'.toNat :: (k ++ '"'.toNat :: rest)) = some (k, r)) :
    Unescaped k := by
  rw [readName] at h
  have hskip : skip ('"'.toNat :: (k ++ '"'.toNat :: rest)) = '"'.toNat :: (k ++ '"'.toNat :: rest) :=
    rfl
  simp only [hskip, if_true] at h
  obtain ⟨⟨k', r'⟩, hk, h⟩ := Option.bind_eq_some_iff.mp h
  simp only at h
  split at h
  · cases h
  · split at h
    · cases h
      exact unescaped_of_readString hk
    · cases h

/-! ## Texts -/

/-- The parts with commas between them. -/
def join : List (List Nat) → List Nat
  | [] => []
  | [part] => part
  | part :: parts => part ++ ','.toNat :: join parts

def member (k text : List Nat) : List Nat := '"'.toNat :: k ++ ['"'.toNat, ':'.toNat] ++ text

theorem member_append (k text rest : List Nat) : member k text ++ rest =
    '"'.toNat :: (k ++ '"'.toNat :: ':'.toNat :: (text ++ rest)) := by
  simp [member]

theorem join_cons_cons (part part' : List Nat) (parts : List (List Nat)) (rest : List Nat) :
    join (part :: part' :: parts) ++ rest = part ++ (','.toNat :: (join (part' :: parts) ++ rest)) := by
  simp [join]

theorem length_le_join {parts : List (List Nat)} {part : List Nat} (h : part ∈ parts) :
    part.length ≤ (join parts).length := by
  induction parts with
  | nil => cases h
  | cons head parts ih =>
    cases parts with
    | nil =>
      rw [List.mem_singleton.mp h]
      exact Nat.le_refl _
    | cons next parts =>
      simp only [join, List.length_append, List.length_cons]
      rcases List.mem_cons.mp h with rfl | h
      · omega
      · have := ih h
        omega

/-- The first unit of a text is neither white space nor `close`. -/
def Head (close : Nat) (text : List Nat) : Prop := ∃ c cs, text = c :: cs ∧ ' '.toNat < c ∧ c ≠ close

theorem Head.append {close : Nat} {text : List Nat} (h : Head close text) (cs : List Nat) :
    Head close (text ++ cs) := by
  obtain ⟨c, cs', rfl, hc⟩ := h
  exact ⟨c, cs' ++ cs, rfl, hc⟩

theorem Head.skip {close : Nat} {text : List Nat} (h : Head close text) :
    skip text = text ∧ text.head? ≠ some close := by
  obtain ⟨c, cs, rfl, hc, hne⟩ := h
  refine ⟨List.dropWhile_cons_of_neg ?_, fun he => hne (Option.some.inj he)⟩
  simp at hc ⊢
  omega

theorem head_decimal (n : Nat) : Head ']'.toNat (decimal n) := by
  obtain ⟨hd, -⟩ := decimal_spec n
  cases hn : decimal n with
  | nil => exact absurd hn hd.ne_nil
  | cons c cs =>
    have hc := hd.digit c (by rw [hn]; exact List.mem_cons_self ..)
    simp only [isDigit, decide_eq_true_eq] at hc
    exact ⟨c, cs, rfl, by simp at hc ⊢; omega, by simp at hc ⊢; omega⟩

/-- `part` reads `text` as `v` before whatever follows, if and only if `P` holds. -/
structure Exact {α : Type} (part : List Nat → Option (α × List Nat)) (text : List Nat) (v : α)
    (P : Prop) : Prop where
  reads : P → ∀ {rest : List Nat}, Follow rest → part (text ++ rest) = some (v, rest)
  needs : ∀ {rest r : List Nat}, Follow rest → part (text ++ rest) = some (v, r) → P

theorem Exact.congr {α : Type} {part : List Nat → Option (α × List Nat)} {text : List Nat} {v : α}
    {P Q : Prop} (h : Exact part text v P) (hPQ : P ↔ Q) : Exact part text v Q :=
  ⟨fun hQ _ hrest => h.reads (hPQ.mpr hQ) hrest, fun hrest hread => hPQ.mp (h.needs hrest hread)⟩

theorem Exact.of_reads {α : Type} {part : List Nat → Option (α × List Nat)} {text : List Nat}
    {v : α} (h : ∀ {rest : List Nat}, Follow rest → part (text ++ rest) = some (v, rest)) :
    Exact part text v True :=
  ⟨fun _ _ hrest => h hrest, fun _ _ => trivial⟩

section
variable {α : Type} {part : List Nat → Option (α × List Nat)} {close n : Nat} {a : α} {l : List α}
  {parts : List (List Nat × α × Prop)}

theorem readSeq_last (hclose : close = ']'.toNat ∨ close = '}'.toNat)
    (h : part cs = some (a, close :: rest)) : readSeq part close (n + 1) cs = some ([a], rest) := by
  rcases hclose with rfl | rfl <;> simp [readSeq, h, skip]

theorem readSeq_cons (h : part cs = some (a, ','.toNat :: rest)) :
    readSeq part close (n + 1) cs = (readSeq part close n rest).map fun p => (a :: p.1, p.2) := by
  simp [readSeq, h, skip]

theorem readSeq_head (h : readSeq part close (n + 1) cs = some (a :: l, r)) :
    ∃ r', part cs = some (a, r') := by
  rw [readSeq] at h
  obtain ⟨⟨a', r'⟩, ha, h⟩ := Option.bind_eq_some_iff.mp h
  simp only at h
  split at h
  · cases h
  · split at h
    · obtain ⟨⟨l', r''⟩, -, h⟩ := Option.map_eq_some_iff.mp h
      cases h
      exact ⟨r', ha⟩
    · split at h
      · cases h
        exact ⟨r', ha⟩
      · cases h

/-- The parts that are written with commas between them are read one after the other. -/
theorem readSeq_parts (hclose : close = ']'.toNat ∨ close = '}'.toNat) (hne : parts ≠ [])
    (h : ∀ p ∈ parts, Exact part p.1 p.2.1 p.2.2) (hn : parts.length ≤ n) :
    ((∀ p ∈ parts, p.2.2) →
      readSeq part close n (join (parts.map fun p => p.1) ++ close :: rest) =
        some (parts.map fun p => p.2.1, rest)) ∧
    (readSeq part close n (join (parts.map fun p => p.1) ++ close :: rest) =
      some (parts.map fun p => p.2.1, r) → ∀ p ∈ parts, p.2.2) := by
  induction parts generalizing n with
  | nil => exact absurd rfl hne
  | cons p parts ih =>
    obtain ⟨hp, hparts⟩ := List.forall_mem_cons.mp h
    obtain ⟨n, rfl⟩ : ∃ m, n = m + 1 := ⟨n - 1, by simp only [List.length_cons] at hn; omega⟩
    cases parts with
    | nil =>
      have hfollow : Follow (close :: rest) := Or.inr hclose
      constructor
      · intro hP
        exact readSeq_last hclose (hp.reads (hP p (List.mem_cons_self ..)) hfollow)
      · intro hread
        obtain ⟨r', hv⟩ := readSeq_head hread
        rw [List.forall_mem_singleton]
        exact hp.needs hfollow hv
    | cons p' parts =>
      have hsplit := join_cons_cons p.1 p'.1 (parts.map fun p => p.1) (close :: rest)
      have hfollow : Follow (','.toNat :: (join ((p' :: parts).map fun p => p.1) ++ close :: rest)) :=
        Or.inl rfl
      obtain ⟨hreads, hneeds⟩ := ih (List.cons_ne_nil _ _) hparts (Nat.le_of_succ_le_succ hn)
      have hcons : p.2.2 → readSeq part close (n + 1)
          (join ((p :: p' :: parts).map fun p => p.1) ++ close :: rest) = _ := fun hP =>
        (congrArg (readSeq part close (n + 1)) hsplit).trans (readSeq_cons (hp.reads hP hfollow))
      constructor
      · intro hP
        obtain ⟨hP, hPs⟩ := List.forall_mem_cons.mp hP
        exact (hcons hP).trans (congrArg _ (hreads hPs))
      · intro hread
        obtain ⟨r', hv⟩ := readSeq_head hread
        rw [List.map_cons, List.map_cons, hsplit] at hv
        have hP := hp.needs hfollow hv
        refine List.forall_mem_cons.mpr ⟨hP, hneeds ?_⟩
        obtain ⟨⟨l, r''⟩, hl, he⟩ := Option.map_eq_some_iff.mp ((hcons hP).symm.trans hread)
        cases he
        exact hl

theorem count_le_join (hhead : ∀ p ∈ parts, Head close p.1) :
    parts.length ≤ (join (parts.map fun p => p.1)).length := by
  induction parts with
  | nil => exact Nat.zero_le _
  | cons p parts ih =>
    obtain ⟨⟨c, cs, hp, -⟩, hparts⟩ := List.forall_mem_cons.mp hhead
    have hlen := ih hparts
    cases parts with
    | nil => simp [join, hp]
    | cons p' parts =>
      simp only [List.map_cons, join, List.length_append, List.length_cons, hp] at hlen ⊢
      omega

theorem head_join (hne : parts ≠ []) (hhead : ∀ p ∈ parts, Head close p.1) :
    Head close (join (parts.map fun p => p.1)) := by
  cases parts with
  | nil => exact absurd rfl hne
  | cons p parts =>
    have hp := hhead p (List.mem_cons_self ..)
    cases parts with
    | nil => exact hp
    | cons p' parts => exact hp.append _

/-- **The parts of an array or an object.** -/
theorem readParts_exact (hclose : close = ']'.toNat ∨ close = '}'.toNat)
    (hhead : ∀ p ∈ parts, Head close p.1) (h : ∀ p ∈ parts, Exact part p.1 p.2.1 p.2.2) :
    Exact (readParts part close) (join (parts.map fun p => p.1) ++ [close])
      (parts.map fun p => p.2.1) (∀ p ∈ parts, p.2.2) := by
  by_cases hne : parts = []
  · subst hne
    refine ⟨fun _ rest _ => ?_, fun _ _ p hp => (by cases hp)⟩
    rcases hclose with rfl | rfl <;> rfl
  · have hparts : ∀ rest, readParts part close (join (parts.map fun p => p.1) ++ [close] ++ rest) =
        readSeq part close (join (parts.map fun p => p.1) ++ close :: rest).length
          (join (parts.map fun p => p.1) ++ close :: rest) := by
      intro rest
      obtain ⟨hskip, hfirst⟩ := ((head_join hne hhead).append (close :: rest)).skip
      rw [List.append_assoc, List.singleton_append, readParts, hskip, if_neg hfirst]
    have hn : ∀ rest, parts.length ≤ (join (parts.map fun p => p.1) ++ close :: rest).length := by
      intro rest
      have := count_le_join hhead
      rw [List.length_append]
      omega
    constructor
    · intro hP rest _
      rw [hparts]
      exact (readSeq_parts (r := []) hclose hne h (hn rest)).1 hP
    · intro rest r _ hread
      rw [hparts] at hread
      exact (readSeq_parts hclose hne h (hn rest)).2 hread

end

variable {v : Json} {P : Prop} {text : List Nat}

theorem readMember_exact {value : List Nat → Option (Json × List Nat)} (h : Exact value text v P)
    (k : List Nat) : Exact (readMember value) (member k text) (k, v) (Unescaped k ∧ P) := by
  constructor
  · rintro ⟨hk, hP⟩ rest hrest
    rw [member_append, readMember, readName_unescaped hk]
    show (value (text ++ rest)).bind _ = _
    rw [h.reads hP hrest]
    rfl
  · intro rest r hrest hread
    rw [member_append, readMember] at hread
    obtain ⟨⟨k', cs⟩, hname, hread⟩ := Option.bind_eq_some_iff.mp hread
    obtain ⟨⟨v', r'⟩, hvalue, hread⟩ := Option.bind_eq_some_iff.mp hread
    cases hread
    have hk := unescaped_of_readName hname
    rw [readName_unescaped hk] at hname
    cases hname
    exact ⟨hk, h.needs hrest hvalue⟩

theorem array_exact {parts : List (List Nat × Json × Prop)}
    (hhead : ∀ p ∈ parts, Head ']'.toNat p.1)
    (h : ∀ p ∈ parts, Exact (readValue fuel) p.1 p.2.1 p.2.2) :
    Exact (readValue (fuel + 1)) ('['.toNat :: join (parts.map fun p => p.1) ++ [']'.toNat])
      (array (parts.map fun p => p.2.1)) (∀ p ∈ parts, p.2.2) := by
  have hvalue : ∀ cs, readValue (fuel + 1) ('['.toNat :: cs) =
      (readParts (readValue fuel) ']'.toNat cs).map fun p => (array p.1, p.2) := fun _ => rfl
  obtain ⟨hreads, hneeds⟩ := readParts_exact (Or.inl rfl) hhead h
  constructor
  · intro hP rest hrest
    rw [List.cons_append, List.cons_append, hvalue, hreads hP hrest]
    rfl
  · intro rest r hrest hread
    rw [List.cons_append, List.cons_append, hvalue] at hread
    obtain ⟨⟨l, r'⟩, hl, he⟩ := Option.map_eq_some_iff.mp hread
    cases he
    exact hneeds hrest hl

/-- The members of an object: names, texts, values, and what they need. -/
theorem object_exact {members : List (List Nat × List Nat × Json × Prop)}
    (h : ∀ m ∈ members, Exact (readValue fuel) m.2.1 m.2.2.1 m.2.2.2) :
    Exact (readValue (fuel + 1))
      ('{'.toNat :: join (members.map fun m => member m.1 m.2.1) ++ ['}'.toNat])
      (object (members.map fun m => (m.1, m.2.2.1)))
      (∀ m ∈ members, Unescaped m.1 ∧ m.2.2.2) := by
  have hvalue : ∀ cs, readValue (fuel + 1) ('{'.toNat :: cs) =
      (readParts (readMember (readValue fuel)) '}'.toNat cs).map fun p => (object p.1, p.2) :=
    fun _ => rfl
  let parts : List (List Nat × (List Nat × Json) × Prop) :=
    members.map fun m => (member m.1 m.2.1, (m.1, m.2.2.1), Unescaped m.1 ∧ m.2.2.2)
  have hparts : ∀ p ∈ parts, Head '}'.toNat p.1 ∧
      Exact (readMember (readValue fuel)) p.1 p.2.1 p.2.2 := by
    intro p hp
    obtain ⟨m, hm, rfl⟩ := List.mem_map.mp hp
    exact ⟨⟨_, _, rfl, by decide, by decide⟩, readMember_exact (h m hm) m.1⟩
  obtain ⟨hreads, hneeds⟩ := readParts_exact (Or.inr rfl) (fun p hp => (hparts p hp).1)
    fun p hp => (hparts p hp).2
  rw [List.map_map, List.map_map] at hreads hneeds
  constructor
  · intro hP rest hrest
    have hP' : ∀ p ∈ parts, p.2.2 := by
      intro p hp
      obtain ⟨m, hm, rfl⟩ := List.mem_map.mp hp
      exact hP m hm
    rw [List.cons_append, List.cons_append, hvalue]
    exact congrArg _ (hreads hP' hrest)
  · intro rest r hrest hread m hm
    rw [List.cons_append, List.cons_append, hvalue] at hread
    obtain ⟨⟨l, r'⟩, hl, he⟩ := Option.map_eq_some_iff.mp hread
    cases he
    exact hneeds hrest hl _ (List.mem_map_of_mem hm)

/-- **When a text denotes a value.** -/
theorem parse_exact (h : ∀ fuel, text.length ≤ fuel → Exact (readValue (fuel + 1)) text v P) :
    parse text = some v ↔ P := by
  have hexact := h text.length (Nat.le_refl _)
  have happ : text ++ [] = text := List.append_nil text
  have hend : Follow [] := trivial
  constructor
  · intro hparse
    obtain ⟨⟨v', r⟩, hv, hparse⟩ := Option.bind_eq_some_iff.mp hparse
    simp only at hparse
    split at hparse
    · cases hparse
      have hread : readValue (text.length + 1) (text ++ []) = some (v, r) := by rwa [happ]
      exact hexact.needs hend hread
    · cases hparse
  · intro hP
    have hread : readValue (text.length + 1) (text ++ []) = some (v, []) := hexact.reads hP hend
    rw [happ] at hread
    rw [parse, hread]
    rfl

end Json

end BaseService
