import BaseService.Data.Failing
import BaseService.Data.Json
import BaseService.Data.Scanning
import BaseService.Java

/-!
# The scanner of JSON texts

* `scanner` : the automaton of the generated tables; `act` : what is done with a lexeme;
* `Reader` : where the characters come from, in pieces of any size;
* `Yylex` : the scanner and its buffer; `zzRefill`, `zzForAction`, `yylex`;
* `Doubles` : the texts of `double`s.

Characters are UTF-16 units.
-/

namespace BaseService.Notify.JSON

/-- The `double`s and their texts; `none` is a `NumberFormatException`. -/
structure Doubles (D : Type) where
  valueOf : List Nat → Option D
  toString : D → List Nat
  isInfinite : D → Bool
  isNaN : D → Bool

/-- `String`, `Boolean`, `Long` and `Double`, and null. -/
inductive Scalar (D : Type)
  | null
  | bool (b : Bool)
  | long (n : Int64)
  | double (d : D)
  | string (s : List Nat)
  deriving DecidableEq

inductive Yytoken (D : Type)
  | TYPE_VALUE (value : Scalar D)
  | TYPE_LEFT_BRACE
  | TYPE_RIGHT_BRACE
  | TYPE_LEFT_SQUARE
  | TYPE_RIGHT_SQUARE
  | TYPE_COMMA
  | TYPE_COLON
  | TYPE_EOF
  deriving DecidableEq

/-- The error type of a `ParseException` and its object. -/
inductive Unexpected (D : Type)
  | ERROR_UNEXPECTED_CHAR (c : Nat)
  | ERROR_UNEXPECTED_TOKEN (token : Yytoken D)
  | ERROR_UNEXPECTED_EXCEPTION
  deriving DecidableEq

/-- What can be thrown. A run that is out of `fuel` has not ended. -/
inductive Throwable (D : Type)
  | ParseException (position : Nat) (unexpected : Unexpected D)
  | NumberFormatException
  | ClassCastException
  | NoSuchElementException
  | NullPointerException
  | NegativeArraySizeException
  | ArrayIndexOutOfBoundsException
  | Error (message : String)
  | fuel
  deriving DecidableEq

/-! ## The tables -/

/-- The entry of a packed table: each pair is a count and a value. -/
def zzUnpack : List (Nat × Nat) → Nat → Nat
  | [], _ => 0
  | (count, value) :: packed, i => if i < count then value else zzUnpack packed (i - count)

def zzCMapPacked : List (Nat × Nat) := [
  (9, 0), (1, 7), (1, 7), (2, 0), (1, 7), (18, 0), (1, 7), (1, 0), (1, 9), (8, 0), (1, 6), (1, 25),
  (1, 2), (1, 4), (1, 10), (10, 3), (1, 26), (6, 0), (4, 1), (1, 5), (1, 1), (20, 0), (1, 23),
  (1, 8), (1, 24), (3, 0), (1, 18), (1, 11), (2, 1), (1, 17), (1, 12), (5, 0), (1, 19), (1, 0),
  (1, 13), (3, 0), (1, 14), (1, 20), (1, 15), (1, 16), (5, 0), (1, 21), (1, 0), (1, 22), (65410, 0)]

/-- The class of a character. -/
def zzCMap (c : Nat) : Nat := zzUnpack zzCMapPacked c

def zzActionPacked : List (Nat × Nat) := [
  (2, 0), (2, 1), (1, 2), (1, 3), (1, 4), (3, 1), (1, 5), (1, 6), (1, 7), (1, 8), (1, 9), (1, 10),
  (1, 11), (1, 12), (1, 13), (5, 0), (1, 12), (1, 14), (1, 15), (1, 16), (1, 17), (1, 18), (1, 19),
  (1, 20), (1, 0), (1, 21), (1, 0), (1, 21), (4, 0), (1, 22), (1, 23), (2, 0), (1, 24)]

def zzAction (zzState : Nat) : Nat := zzUnpack zzActionPacked zzState

def zzRowMap : List Nat := [
  0, 27, 54, 81, 108, 135, 54, 162, 189, 216, 54, 54, 54, 54, 54, 54, 243, 270, 54, 297, 324, 351,
  378, 405, 54, 54, 54, 54, 54, 54, 54, 54, 432, 459, 486, 486, 513, 540, 567, 594, 54, 54, 621,
  648, 54]

/-- The table, a row of the automaton on each line. -/
def zzTransRows : List (List Int) := [
  [2, 2, 3, 4, 2, 2, 2, 5, 2, 6, 2, 2, 7, 8, 2, 9, 2, 2, 2, 2, 2, 10, 11, 12, 13, 14, 15],
  [16, 16, 16, 16, 16, 16, 16, 16, 17, 18, 16, 16, 16, 16, 16, 16, 16, 16, 16, 16, 16, 16, 16, 16, 16, 16, 16],
  [-1, -1, -1, -1, -1, -1, -1, -1, -1, -1, -1, -1, -1, -1, -1, -1, -1, -1, -1, -1, -1, -1, -1, -1, -1, -1, -1],
  [-1, -1, -1, 4, -1, -1, -1, -1, -1, -1, -1, -1, -1, -1, -1, -1, -1, -1, -1, -1, -1, -1, -1, -1, -1, -1, -1],
  [-1, -1, -1, 4, 19, 20, -1, -1, -1, -1, -1, -1, -1, -1, -1, -1, -1, 20, -1, -1, -1, -1, -1, -1, -1, -1, -1],
  [-1, -1, -1, -1, -1, -1, -1, 5, -1, -1, -1, -1, -1, -1, -1, -1, -1, -1, -1, -1, -1, -1, -1, -1, -1, -1, -1],
  [-1, -1, -1, -1, -1, -1, -1, -1, -1, -1, -1, -1, -1, -1, -1, -1, -1, -1, 21, -1, -1, -1, -1, -1, -1, -1, -1],
  [-1, -1, -1, -1, -1, -1, -1, -1, -1, -1, -1, -1, -1, -1, -1, -1, 22, -1, -1, -1, -1, -1, -1, -1, -1, -1, -1],
  [-1, -1, -1, -1, -1, -1, -1, -1, -1, -1, -1, -1, -1, -1, 23, -1, -1, -1, -1, -1, -1, -1, -1, -1, -1, -1, -1],
  [16, 16, 16, 16, 16, 16, 16, 16, -1, -1, 16, 16, 16, 16, 16, 16, 16, 16, 16, 16, 16, 16, 16, 16, 16, 16, 16],
  [-1, -1, -1, -1, -1, -1, -1, -1, 24, 25, 26, 27, 28, 29, 30, 31, 32, -1, -1, -1, -1, -1, -1, -1, -1, -1, -1],
  [-1, -1, -1, 33, -1, -1, -1, -1, -1, -1, -1, -1, -1, -1, -1, -1, -1, -1, -1, -1, -1, -1, -1, -1, -1, -1, -1],
  [-1, -1, 34, 35, -1, -1, 34, -1, -1, -1, -1, -1, -1, -1, -1, -1, -1, -1, -1, -1, -1, -1, -1, -1, -1, -1, -1],
  [-1, -1, -1, -1, -1, -1, -1, -1, -1, -1, -1, -1, -1, -1, -1, -1, -1, -1, -1, 36, -1, -1, -1, -1, -1, -1, -1],
  [-1, -1, -1, -1, -1, -1, -1, -1, -1, -1, -1, -1, -1, -1, -1, -1, -1, -1, -1, 37, -1, -1, -1, -1, -1, -1, -1],
  [-1, -1, -1, -1, -1, -1, -1, -1, -1, -1, -1, -1, -1, -1, -1, -1, 38, -1, -1, -1, -1, -1, -1, -1, -1, -1, -1],
  [-1, 39, -1, 39, -1, 39, -1, -1, -1, -1, -1, 39, 39, -1, -1, -1, -1, 39, 39, -1, -1, -1, -1, -1, -1, -1, -1],
  [-1, -1, -1, 33, -1, 20, -1, -1, -1, -1, -1, -1, -1, -1, -1, -1, -1, 20, -1, -1, -1, -1, -1, -1, -1, -1, -1],
  [-1, -1, -1, 35, -1, -1, -1, -1, -1, -1, -1, -1, -1, -1, -1, -1, -1, -1, -1, -1, -1, -1, -1, -1, -1, -1, -1],
  [-1, -1, -1, -1, -1, -1, -1, -1, -1, -1, -1, -1, -1, -1, -1, -1, -1, -1, -1, -1, 38, -1, -1, -1, -1, -1, -1],
  [-1, -1, -1, -1, -1, -1, -1, -1, -1, -1, -1, -1, -1, -1, -1, -1, -1, -1, -1, 40, -1, -1, -1, -1, -1, -1, -1],
  [-1, -1, -1, -1, -1, -1, -1, -1, -1, -1, -1, -1, -1, -1, -1, -1, -1, 41, -1, -1, -1, -1, -1, -1, -1, -1, -1],
  [-1, 42, -1, 42, -1, 42, -1, -1, -1, -1, -1, 42, 42, -1, -1, -1, -1, 42, 42, -1, -1, -1, -1, -1, -1, -1, -1],
  [-1, 43, -1, 43, -1, 43, -1, -1, -1, -1, -1, 43, 43, -1, -1, -1, -1, 43, 43, -1, -1, -1, -1, -1, -1, -1, -1],
  [-1, 44, -1, 44, -1, 44, -1, -1, -1, -1, -1, 44, 44, -1, -1, -1, -1, 44, 44, -1, -1, -1, -1, -1, -1, -1, -1]]

def zzTrans : List Int := zzTransRows.flatten

def zzAttributePacked : List (Nat × Nat) := [
  (2, 0), (1, 9), (3, 1), (1, 9), (3, 1), (6, 9), (2, 1), (1, 9), (5, 0), (8, 9), (1, 0), (1, 1),
  (1, 0), (1, 1), (4, 0), (2, 9), (2, 0), (1, 9)]

def zzAttribute (zzState : Nat) : Nat := zzUnpack zzAttributePacked zzState

/-- The next state; -1 is none. -/
def zzNext (zzState k : Nat) : Int := zzTrans.getD (zzRowMap.getD zzState 0 + k) (-1)

theorem zzUnpack_mem (packed : List (Nat × Nat)) (i : Nat) :
    zzUnpack packed i = 0 ∨ zzUnpack packed i ∈ packed.map Prod.snd := by
  induction packed generalizing i with
  | nil => exact .inl rfl
  | cons p packed ih =>
    rw [zzUnpack]
    split
    · exact .inr (List.mem_cons_self ..)
    · exact (ih _).imp_right (List.mem_cons_of_mem _)

theorem zzUnpack_of_le {packed : List (Nat × Nat)} {i : Nat} (h : (packed.map Prod.fst).sum ≤ i) :
    zzUnpack packed i = 0 := by
  induction packed generalizing i with
  | nil => rfl
  | cons p packed ih =>
    rw [List.map_cons, List.sum_cons] at h
    rw [zzUnpack, if_neg (by omega), ih (by omega)]

theorem zzCMap_lt (c : Nat) : zzCMap c < 27 := by
  obtain h | h := zzUnpack_mem zzCMapPacked c
  · rw [zzCMap, h]
    decide
  · have hlt : ∀ k ∈ zzCMapPacked.map Prod.snd, k < 27 := by decide
    exact hlt _ h

set_option maxRecDepth 2000 in
theorem zzNext_closes : ∀ zzState < 45, zzAttribute zzState &&& 8 = 8 → ∀ k < 27, zzNext zzState k = -1 := by
  decide

/-- The automaton of the tables. -/
def scanner : Scanner Nat Nat where
  next zzState c := if zzNext zzState (zzCMap c) = -1 then none else some (zzNext zzState (zzCMap c)).toNat
  accepts zzState := zzAttribute zzState &&& 1 = 1
  closes zzState := zzAttribute zzState &&& 8 = 8
  next_closes := by
    intro zzState hcloses c
    rw [decide_eq_true_eq] at hcloses
    have hlt : zzState < 45 := by
      by_contra hge
      have hsum : (zzAttributePacked.map Prod.fst).sum = 45 := rfl
      rw [zzAttribute, zzUnpack_of_le (by omega)] at hcloses
      cases hcloses
    exact if_pos (zzNext_closes zzState hlt hcloses _ (zzCMap_lt c))

/-! ## Lexemes -/

def YYINITIAL : Nat := 0

def STRING_BEGIN : Nat := 2

/-- `ZZ_LEXSTATE[l]` -/
def zzLexState (l : Nat) : Nat := [0, 0, 1, 1].getD l 0

/-- `Boolean.valueOf(s)` -/
def Boolean.valueOf (s : List Nat) : Bool := s = Json.word "true"

/-- `Integer.parseInt(s, 16)` -/
def Integer.parseHex (s : List Nat) : Option Nat :=
  if s = [] then none else s.foldlM (fun n c => (Json.hexValue c).map (16 * n + ·)) 0

/-- What a lexeme changes: the lexical state and the string that has been read. -/
structure Mode where
  zzLexicalState : Nat := YYINITIAL
  sb : List Nat := []
  deriving DecidableEq

def Mode.append (m : Mode) (s : List Nat) : Mode := { m with sb := m.sb ++ s }

variable {D : Type}

/-- The switch over the actions. It returns a token or goes on; `none` is its default. -/
def act (double : Doubles D) (action : Nat) (yytext : List Nat) (yychar : Nat) (m : Mode) :
    Option (Except (Throwable D) (Option (Yytoken D) × Mode)) :=
  match action with
  | 11 => some (.ok (none, m.append yytext))
  | 4 => some (.ok (none, ⟨STRING_BEGIN, []⟩))
  | 16 => some (.ok (none, m.append [8]))
  | 6 => some (.ok (some .TYPE_RIGHT_BRACE, m))
  | 23 => some (.ok (some (.TYPE_VALUE (.bool (Boolean.valueOf yytext))), m))
  | 22 => some (.ok (some (.TYPE_VALUE .null), m))
  | 13 => some (.ok (some (.TYPE_VALUE (.string m.sb)), { m with zzLexicalState := YYINITIAL }))
  | 12 => some (.ok (none, m.append [92]))
  | 21 => some <|
    match double.valueOf yytext with
    | some d => .ok (some (.TYPE_VALUE (.double d)), m)
    | none => .error .NumberFormatException
  | 1 => some (.error (.ParseException yychar (.ERROR_UNEXPECTED_CHAR (yytext.headD 0))))
  | 8 => some (.ok (some .TYPE_RIGHT_SQUARE, m))
  | 19 => some (.ok (none, m.append [13]))
  | 15 => some (.ok (none, m.append [47]))
  | 10 => some (.ok (some .TYPE_COLON, m))
  | 14 => some (.ok (none, m.append [34]))
  | 5 => some (.ok (some .TYPE_LEFT_BRACE, m))
  | 17 => some (.ok (none, m.append [12]))
  | 24 => some <|
    match Integer.parseHex (yytext.drop 2) with
    | some ch => .ok (none, m.append [ch])
    | none => .error (.ParseException yychar .ERROR_UNEXPECTED_EXCEPTION)
  | 20 => some (.ok (none, m.append [9]))
  | 7 => some (.ok (some .TYPE_LEFT_SQUARE, m))
  | 2 => some <|
    match Long.valueOf (String.ofList (characters yytext)) with
    | some val => .ok (some (.TYPE_VALUE (.long val)), m)
    | none => .error .NumberFormatException
  | 18 => some (.ok (none, m.append [10]))
  | 9 => some (.ok (some .TYPE_COMMA, m))
  | 3 => some (.ok (none, m))
  | _ => none

/-! ## The buffer -/

/-- The characters to come, and how many of them the reads bring at most. -/
structure Reader where
  rest : List Nat
  sizes : Nat → Nat
  reads : Nat := 0

/-- `read(cbuf, off, len)`; `none` is the end. -/
def Reader.read (zzReader : Reader) (len : Nat) : Option (List Nat) × Reader :=
  if zzReader.rest = [] then (none, zzReader)
  else
    let n := min (zzReader.sizes zzReader.reads) len
    (some (zzReader.rest.take n), { zzReader with rest := zzReader.rest.drop n, reads := zzReader.reads + 1 })

/-- `read()` -/
def Reader.readOne (zzReader : Reader) : Option Nat × Reader :=
  (zzReader.rest.head?, { zzReader with rest := zzReader.rest.tail })

structure Yylex extends Mode where
  zzReader : Reader
  zzBuffer : List Nat := List.replicate 16384 0
  zzMarkedPos : Nat := 0
  zzCurrentPos : Nat := 0
  zzStartRead : Nat := 0
  zzEndRead : Nat := 0
  yychar : Nat := 0
  zzAtEOF : Bool := false

/-- The variables of the loop that looks for a match. `zzAction` is `none` for -1. -/
structure Match where
  zzState : Nat
  zzAction : Option Nat
  zzCurrentPosL : Nat
  zzMarkedPosL : Nat

abbrev Lexing (D : Type) := Failing (Throwable D) Yylex

namespace Yylex

/-- What is in front of `zzStartRead` goes. -/
def makeRoom (this : Yylex) : Yylex :=
  if 0 < this.zzStartRead then
    { this with
      zzBuffer := (this.zzBuffer.take this.zzEndRead).drop this.zzStartRead ++
        this.zzBuffer.drop (this.zzEndRead - this.zzStartRead)
      zzEndRead := this.zzEndRead - this.zzStartRead
      zzCurrentPos := this.zzCurrentPos - this.zzStartRead
      zzMarkedPos := this.zzMarkedPos - this.zzStartRead
      zzStartRead := 0 }
  else this

/-- A bigger buffer when this one is full. -/
def blowUp : Lexing D Unit := do
  let this ← get
  if this.zzBuffer.length ≤ this.zzCurrentPos then
    if 2 ^ 31 ≤ this.zzCurrentPos * 2 then throw .NegativeArraySizeException
    set { this with
      zzBuffer := this.zzBuffer ++ List.replicate (this.zzCurrentPos * 2 - this.zzBuffer.length) 0 }

/-- The characters go behind `zzEndRead`. -/
def fill (chars : List Nat) : Lexing D Unit := do
  let this ← get
  if this.zzBuffer.length < this.zzEndRead + chars.length then throw .ArrayIndexOutOfBoundsException
  set { this with
    zzBuffer := this.zzBuffer.take this.zzEndRead ++ chars ++
      this.zzBuffer.drop (this.zzEndRead + chars.length)
    zzEndRead := this.zzEndRead + chars.length }

/-- New characters, unless the reader is at its end. -/
def fetch : Lexing D Bool := do
  let this ← get
  let (chars, zzReader) := this.zzReader.read (this.zzBuffer.length - this.zzEndRead)
  set { this with zzReader }
  match chars with
  | none => return true
  | some [] =>
    let (c, zzReader) := zzReader.readOne
    set { this with zzReader }
    match c with
    | none => return true
    | some c =>
      fill [c]
      return false
  | some chars =>
    fill chars
    return false

/-- False if there was new input. -/
def zzRefill : Lexing D Bool := do
  modify makeRoom
  blowUp
  fetch

/-- `zzBufferL[zzCurrentPosL++]` -/
def take (m : Match) : Lexing D (Option Nat × Match) := do
  let this ← get
  match this.zzBuffer[m.zzCurrentPosL]? with
  | none => throw .ArrayIndexOutOfBoundsException
  | some c => return (some c, { m with zzCurrentPosL := m.zzCurrentPosL + 1 })

/-- The next character after a refill. -/
def takeNew (m : Match) : Lexing D (Option Nat × Match) := do
  modify fun this => { this with zzCurrentPos := m.zzCurrentPosL, zzMarkedPos := m.zzMarkedPosL }
  let eof ← zzRefill
  let this ← get
  let m := { m with zzCurrentPosL := this.zzCurrentPos, zzMarkedPosL := this.zzMarkedPos }
  if eof then return (none, m) else take m

/-- The next character; `none` is `YYEOF`. -/
def zzInput (m : Match) : Lexing D (Option Nat × Match) := do
  let this ← get
  if m.zzCurrentPosL < this.zzEndRead then take m
  else if this.zzAtEOF then return (none, m)
  else takeNew m

/-- The loop that looks for the longest match. -/
def zzForAction : Nat → Match → Lexing D (Option Nat × Match)
  | 0, _ => throw .fuel
  | fuel + 1, m => do
    let (c, m) ← zzInput m
    match c with
    | none => return (none, m)
    | some c =>
      match scanner.next m.zzState c with
      | none => return (some c, m)
      | some zzState =>
        let m := { m with zzState }
        if scanner.accepts zzState then
          let m := { m with zzAction := some zzState, zzMarkedPosL := m.zzCurrentPosL }
          if scanner.closes zzState then return (some c, m) else zzForAction fuel m
        else zzForAction fuel m

def yytext (this : Yylex) : List Nat := (this.zzBuffer.take this.zzMarkedPos).drop this.zzStartRead

/-- `zzStartRead` where the last lexeme ended. -/
def next (this : Yylex) : Yylex :=
  { this with
    yychar := this.yychar + (this.zzMarkedPos - this.zzStartRead)
    zzCurrentPos := this.zzMarkedPos
    zzStartRead := this.zzMarkedPos }

/-- The variables of the loop at its start. -/
def start (this : Yylex) : Match :=
  { zzState := zzLexState this.zzLexicalState, zzAction := none, zzCurrentPosL := this.zzMarkedPos,
    zzMarkedPosL := this.zzMarkedPos }

/-- The switch after the loop has stopped at the character `c`: what is returned, if anything. -/
def perform (double : Doubles D) (c : Option Nat) (m : Match) : Lexing D (Option (Option (Yytoken D))) := do
  modify fun this => { this with zzMarkedPos := m.zzMarkedPosL }
  let this ← get
  match m.zzAction.bind fun zzState => act double (zzAction zzState) this.yytext this.yychar this.toMode with
  | some (.error e) => throw e
  | some (.ok (token, mode)) =>
    set { this with toMode := mode }
    return token.map some
  | none =>
    if c = none ∧ this.zzStartRead = this.zzCurrentPos then
      set { this with zzAtEOF := true }
      return some none
    else throw (.Error "Error: could not match input")

/-- The next token; `none` is null, at the end of the text. -/
def yylex (double : Doubles D) : Nat → Lexing D (Option (Yytoken D))
  | 0 => throw .fuel
  | fuel + 1 => do
    modify next
    let this ← get
    let found ← zzForAction (fuel + 1) this.start
    let returned ← perform double found.1 found.2
    match returned with
    | some token => return token
    | none => yylex double fuel

/-- `yyreset(reader)` -/
def yyreset (this : Yylex) (reader : Reader) : Yylex :=
  { this with
    zzReader := reader, zzAtEOF := false, zzEndRead := 0, zzStartRead := 0, zzCurrentPos := 0,
    zzMarkedPos := 0, yychar := 0, zzLexicalState := YYINITIAL }

end Yylex

end BaseService.Notify.JSON
