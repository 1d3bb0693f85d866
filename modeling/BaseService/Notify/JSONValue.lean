import BaseService.Notify.JSONParser

/-!
# Values as texts

* `JSONValue.escape`, `toJSONString` : the text of a value; `JSONValue.parse` : the value of a text;
* `Doubles.Faithful` : what is known of the texts of doubles;
* `Lexeme` : a lexeme, whatever comes after it; `Lexes` : a piece of text and its tokens;
* `textOf_toJSONString` : **the text of a document is that of the document**, where null stands for what is no
  finite number; `parse_toJSONString` : it is read back.
-/

namespace BaseService.Notify.JSON

variable {D : Type}

/-! ## Texts -/

/-- `Integer.toHexString(ch)` -/
def Integer.toHexString (ch : Nat) : List Nat := (Nat.toDigits 16 ch).map Char.toNat

/-- `toUpperCase()`, of hexadecimal digits. -/
def toUpperCase (s : List Nat) : List Nat :=
  s.map fun c => if 'a'.toNat ≤ c ∧ c ≤ 'z'.toNat then c - 32 else c

namespace JSONValue

/-- The default of `escape`. -/
def unicode (ch : Nat) : List Nat :=
  let ss := Integer.toHexString ch
  ['\\'.toNat, 'u'.toNat] ++ List.replicate (4 - ss.length) '0'.toNat ++ toUpperCase ss

/-- The switch of `escape`. -/
def escapeChar (ch : Nat) : List Nat :=
  if ch = '"'.toNat then ['\\'.toNat, '"'.toNat]
  else if ch = '\\'.toNat then ['\\'.toNat, '\\'.toNat]
  else if ch = 8 then ['\\'.toNat, 'b'.toNat]
  else if ch = 12 then ['\\'.toNat, 'f'.toNat]
  else if ch = '\n'.toNat then ['\\'.toNat, 'n'.toNat]
  else if ch = '\r'.toNat then ['\\'.toNat, 'r'.toNat]
  else if ch = '\t'.toNat then ['\\'.toNat, 't'.toNat]
  else if ch = '/'.toNat then ['\\'.toNat, '/'.toNat]
  else if ch ≤ 0x1F ∨ 0x7F ≤ ch ∧ ch ≤ 0x9F ∨ 0x2000 ≤ ch ∧ ch ≤ 0x20FF then unicode ch
  else [ch]

def escape (s : List Nat) : List Nat := s.flatMap escapeChar

/-- The text of what is neither a map nor a list. -/
def scalarText (double : Doubles D) : Scalar D → List Nat
  | .null => Json.word "null"
  | .string s => '"'.toNat :: (escape s ++ ['"'.toNat])
  | .double d => if double.isInfinite d ∨ double.isNaN d then Json.word "null" else double.toString d
  | .long n => units (toString n)
  | .bool b => Json.word (if b then "true" else "false")

end JSONValue

mutual

/-- `JSONValue.toJSONString(value)`. The members of a map are in the order of its iterator. -/
def toJSONString (double : Doubles D) : Document D → List Nat
  | .scalar v => JSONValue.scalarText double v
  | .object map => '{'.toNat :: (JSONObject.toJSONString double true map ++ ['}'.toNat])
  | .array list => '['.toNat :: (JSONArray.toJSONString double true list ++ [']'.toNat])

/-- The loop of `JSONObject.toJSONString(map)`. -/
def JSONObject.toJSONString (double : Doubles D) (first : Bool) : List (List Nat × Document D) → List Nat
  | [] => []
  | (key, value) :: iter =>
    (if first then [] else [','.toNat]) ++ ('"'.toNat :: (JSONValue.escape key ++ ['"'.toNat, ':'.toNat])) ++
      toJSONString double value ++ JSONObject.toJSONString double false iter

/-- The loop of `JSONArray.toJSONString(list)`. -/
def JSONArray.toJSONString (double : Doubles D) (first : Bool) : List (Document D) → List Nat
  | [] => []
  | value :: iter =>
    (if first then [] else [','.toNat]) ++ toJSONString double value ++
      JSONArray.toJSONString double false iter

end

namespace JSONValue

/-- `new JSONParser()` -/
def newJSONParser : JSONParser D := { lexer := { zzReader := ⟨[], fun _ => 0, 0⟩ } }

/-- `new StringReader(s)`, which reads what is asked for. -/
def StringReader (s : List Nat) : Reader := ⟨s, fun _ => s.length, 0⟩

/-- `instanceof Exception`; a run without an end is none. -/
def isException : Throwable D → Bool
  | .Error _ => false
  | .fuel => false
  | _ => true

def parseWithException (double : Doubles D) (s : List Nat) :
    Except (Throwable D) (Item (Scalar D) × Heap (List Nat) (Scalar D)) :=
  (JSONParser.parse double (StringReader s) newJSONParser).1

/-- `parse(s)`: null where there is an exception. -/
def parse (double : Doubles D) (s : List Nat) :
    Except (Throwable D) (Item (Scalar D) × Heap (List Nat) (Scalar D)) :=
  match parseWithException double s with
  | .ok value => .ok value
  | .error e => if isException e then .ok (.scalar .null, []) else .error e

end JSONValue

/-! ## The texts of doubles -/

/-- One decimal digit or more. -/
def Digits (ds : List Nat) : Prop := ds ≠ [] ∧ ∀ c ∈ ds, '0'.toNat ≤ c ∧ c ≤ '9'.toNat

def Sign (s : List Nat) : Prop := s = [] ∨ s = ['-'.toNat]

/-- The form of the text of a finite double: digits on both sides of a point, and perhaps an exponent. -/
inductive IsDecimal : List Nat → Prop
  | plain {sign whole frac : List Nat} : Sign sign → Digits whole → Digits frac →
    IsDecimal (sign ++ whole ++ '.'.toNat :: frac)
  | exponent {sign whole frac sign' ds : List Nat} : Sign sign → Digits whole → Digits frac → Sign sign' →
    Digits ds → IsDecimal (sign ++ whole ++ '.'.toNat :: frac ++ 'E'.toNat :: (sign' ++ ds))

/-- Finite doubles are read back from their texts. -/
structure Doubles.Faithful (double : Doubles D) : Prop where
  isDecimal : ∀ {d}, double.isInfinite d = false → double.isNaN d = false → IsDecimal (double.toString d)
  valueOf_toString : ∀ {d}, double.isInfinite d = false → double.isNaN d = false →
    double.valueOf (double.toString d) = some d

/-- Null stands for what is no finite number. -/
def Scalar.printed (double : Doubles D) : Scalar D → Scalar D
  | .double d => if double.isInfinite d ∨ double.isNaN d then .null else .double d
  | v => v

mutual

/-- The document that the text says. -/
def printed (double : Doubles D) : Document D → Document D
  | .scalar v => .scalar (v.printed double)
  | .object map => .object (printedMembers double map)
  | .array list => .array (printedElements double list)

def printedMembers (double : Doubles D) : List (List Nat × Document D) → List (List Nat × Document D)
  | [] => []
  | (key, value) :: iter => (key, printed double value) :: printedMembers double iter

def printedElements (double : Doubles D) : List (Document D) → List (Document D)
  | [] => []
  | value :: iter => printed double value :: printedElements double iter

end

/-! ## Lexemes -/

variable {double : Doubles D} {m m' : Mode} {w w' : List Nat} {q : Nat} {token : Option (Yytoken D)}

/-- The characters are a lexeme where the text goes on as `P` says. -/
def Lexeme (double : Doubles D) (m : Mode) (w : List Nat) (token : Option (Yytoken D)) (m' : Mode)
    (P : List Nat → Prop) : Prop :=
  ∀ yychar rest, P rest → Text.round double ⟨m, yychar, w ++ rest⟩ =
    some (.ok (token, ⟨m', yychar + w.length, rest⟩))

theorem lexeme {P : List Nat → Prop} (hreach : scanner.reach (zzLexState m.zzLexicalState) w = some q)
    (haccepts : scanner.accepts q = true) (hne : w ≠ [])
    (hrest : ∀ rest, P rest → ∀ c ∈ rest.head?, scanner.next q c = none)
    (hact : ∀ yychar, act double (zzAction q) w yychar m = some (.ok (token, m'))) :
    Lexeme double m w token m' P := by
  intro yychar rest hP
  unfold Text.round
  dsimp only
  rw [Scanner.munch_append hreach haccepts hne (hrest rest hP)]
  dsimp only
  rw [List.take_left, hact, List.drop_left]
  rfl

/-- A lexeme that ends by itself. -/
theorem lexeme_closes (hreach : scanner.reach (zzLexState m.zzLexicalState) w = some q)
    (haccepts : scanner.accepts q = true) (hcloses : scanner.closes q = true) (hne : w ≠ [])
    (hact : ∀ yychar, act double (zzAction q) w yychar m = some (.ok (token, m'))) :
    Lexeme double m w token m' fun _ => True :=
  lexeme hreach haccepts hne (fun _ _ c _ => scanner.next_closes hcloses c) hact

/-! ## Strings -/

theorem zzUnpack_append {packed packed' : List (Nat × Nat)} {i : Nat} (h : (packed.map Prod.fst).sum ≤ i) :
    zzUnpack (packed ++ packed') i = zzUnpack packed' (i - (packed.map Prod.fst).sum) := by
  induction packed generalizing i with
  | nil => rfl
  | cons p packed ih =>
    rw [List.map_cons, List.sum_cons] at h ⊢
    rw [List.cons_append, zzUnpack, if_neg (by omega), ih (by omega), Nat.sub_sub]

theorem zzCMap_high {c : Nat} (h : 126 ≤ c) : zzCMap c = 0 := by
  have hpacked : zzCMapPacked = zzCMapPacked.dropLast ++ [(65410, 0)] := rfl
  rw [zzCMap, hpacked, zzUnpack_append (h.trans' (by decide)), zzUnpack]
  split <;> rfl

theorem zzCMap_low : ∀ c < 126, c ≠ '"'.toNat → c ≠ '\\'.toNat → zzCMap c ≠ 8 ∧ zzCMap c ≠ 9 := by
  decide

theorem scanner_next {q c q' : Nat} (h : zzNext q (zzCMap c) = q') : scanner.next q c = some q' := by
  change ite _ _ _ = _
  rw [h, if_neg (by omega), Int.toNat_natCast]

set_option maxRecDepth 2000 in
theorem zzNext_text : ∀ k < 27, k ≠ 8 → k ≠ 9 → zzNext 1 k = 16 ∧ zzNext 16 k = 16 := by
  decide

/-- The characters of a string that stand for themselves. -/
theorem next_text {c : Nat} (hquote : c ≠ '"'.toNat) (hbackslash : c ≠ '\\'.toNat) :
    scanner.next 1 c = some 16 ∧ scanner.next 16 c = some 16 := by
  have hclass : zzCMap c ≠ 8 ∧ zzCMap c ≠ 9 := by
    by_cases hlow : c < 126
    · exact zzCMap_low c hlow hquote hbackslash
    · rw [zzCMap_high (not_lt.1 hlow)]
      decide
  obtain ⟨hfirst, hmore⟩ := zzNext_text _ (zzCMap_lt c) hclass.1 hclass.2
  exact ⟨scanner_next hfirst, scanner_next hmore⟩

theorem reach_text {run : List Nat} (h : ∀ c ∈ run, c ≠ '"'.toNat ∧ c ≠ '\\'.toNat) :
    scanner.reach 16 run = some 16 := by
  induction run with
  | nil => rfl
  | cons c run ih =>
    obtain ⟨hquote, hbackslash⟩ := h c (List.mem_cons_self ..)
    rw [Scanner.reach_cons (next_text hquote hbackslash).2, ih fun c hc => h c (List.mem_cons_of_mem _ hc)]

/-- What comes after a run of characters that stand for themselves. -/
def EndsRun (rest : List Nat) : Prop := ∃ c cs, rest = c :: cs ∧ (c = '"'.toNat ∨ c = '\\'.toNat)

theorem lexeme_run (sb : List Nat) {run : List Nat} (hne : run ≠ [])
    (h : ∀ c ∈ run, c ≠ '"'.toNat ∧ c ≠ '\\'.toNat) :
    Lexeme double ⟨STRING_BEGIN, sb⟩ run none ⟨STRING_BEGIN, sb ++ run⟩ EndsRun := by
  obtain ⟨c, cs, rfl⟩ := List.exists_cons_of_ne_nil hne
  obtain ⟨hquote, hbackslash⟩ := h c (List.mem_cons_self ..)
  refine lexeme (q := 16) ?_ rfl hne ?_ fun _ => rfl
  · change scanner.reach 1 _ = _
    rw [Scanner.reach_cons (next_text hquote hbackslash).1,
      reach_text fun c hc => h c (List.mem_cons_of_mem _ hc)]
  · rintro _ ⟨c, cs, rfl, rfl | rfl⟩ _ ⟨⟩ <;> rfl

theorem lexeme_open (sb : List Nat) : Lexeme double ⟨YYINITIAL, sb⟩ ['"'.toNat] none ⟨STRING_BEGIN, []⟩
    fun _ => True :=
  lexeme_closes (q := 6) rfl rfl rfl nofun fun _ => rfl

theorem lexeme_close (sb : List Nat) : Lexeme double ⟨STRING_BEGIN, sb⟩ ['"'.toNat]
    (some (.TYPE_VALUE (.string sb))) ⟨YYINITIAL, sb⟩ fun _ => True :=
  lexeme_closes (q := 18) rfl rfl rfl nofun fun _ => rfl

namespace JSONValue

/-- Four digits that are read back. -/
def FourDigits (c : Nat) : Prop :=
  ((unicode c).drop 2).length = 4 ∧ Integer.parseHex ((unicode c).drop 2) = some c

instance : DecidablePred FourDigits := fun _ => inferInstanceAs (Decidable (_ ∧ _))

set_option maxRecDepth 2000 in
theorem unicode_fourDigits : (∀ c < 0x20, FourDigits c) ∧ (∀ i < 0x21, FourDigits (0x7F + i)) ∧
    ∀ i < 0x100, FourDigits (0x2000 + i) := by
  decide

theorem hexValue_lt {d v : Nat} (h : Json.hexValue d = some v) : d < 128 := by
  unfold Json.hexValue at h
  split_ifs at h with h₁ h₂ h₃
  · exact h₁.2.trans_lt (by decide)
  · exact h₂.2.trans_lt (by decide)
  · exact h₃.2.trans_lt (by decide)

theorem zzCMap_hex : ∀ d < 128, Json.hexValue d ≠ none → zzCMap d ∈ [1, 3, 5, 11, 12, 17, 18] := by
  decide

set_option maxRecDepth 2000 in
theorem zzNext_hex : ∀ k ∈ [1, 3, 5, 11, 12, 17, 18],
    zzNext 32 k = 39 ∧ zzNext 39 k = 42 ∧ zzNext 42 k = 43 ∧ zzNext 43 k = 44 := by
  decide

theorem next_hexValue {d v : Nat} (h : Json.hexValue d = some v) : scanner.next 32 d = some 39 ∧
    scanner.next 39 d = some 42 ∧ scanner.next 42 d = some 43 ∧ scanner.next 43 d = some 44 := by
  obtain ⟨h₁, h₂, h₃, h₄⟩ := zzNext_hex _ (zzCMap_hex d (hexValue_lt h) (by rw [h]; nofun))
  exact ⟨scanner_next h₁, scanner_next h₂, scanner_next h₃, scanner_next h₄⟩

theorem reach_hex {ds : List Nat} {n : Nat} (hlength : ds.length = 4) (hds : Integer.parseHex ds = some n) :
    scanner.reach 32 ds = some 44 := by
  obtain ⟨d₁, d₂, d₃, d₄, rfl⟩ := List.length_eq_four.1 hlength
  rw [Integer.parseHex, if_neg nofun] at hds
  simp only [List.foldlM_cons, List.foldlM_nil, Option.bind_eq_bind, Option.bind_eq_some_iff,
    Option.map_eq_some_iff] at hds
  obtain ⟨_, ⟨v₁, h₁, -⟩, _, ⟨v₂, h₂, -⟩, _, ⟨v₃, h₃, -⟩, _, ⟨v₄, h₄, -⟩, -⟩ := hds
  rw [Scanner.reach_cons (next_hexValue h₁).1, Scanner.reach_cons (next_hexValue h₂).2.1,
    Scanner.reach_cons (next_hexValue h₃).2.2.1, Scanner.reach_cons (next_hexValue h₄).2.2.2]
  rfl

theorem lexeme_unicode (sb : List Nat) {c : Nat} (h : FourDigits c) :
    Lexeme double ⟨STRING_BEGIN, sb⟩ (unicode c) none ⟨STRING_BEGIN, sb ++ [c]⟩ fun _ => True := by
  obtain ⟨hlength, hhex⟩ := h
  have hbackslash : scanner.next 1 '\\'.toNat = some 17 := rfl
  have hu : scanner.next 17 'u'.toNat = some 32 := rfl
  have hreach : scanner.reach 1 (unicode c) = some 44 := by
    change scanner.reach 1 ('\\'.toNat :: 'u'.toNat :: (unicode c).drop 2) = _
    rw [Scanner.reach_cons hbackslash, Scanner.reach_cons hu, reach_hex hlength hhex]
  refine lexeme_closes hreach rfl rfl nofun fun yychar => ?_
  have haction : zzAction 44 = 24 := rfl
  simp only [haction, act, hhex]
  rfl

/-- A character is written as it is, or as a lexeme that stands for it. -/
theorem escapeChar_cases (double : Doubles D) (sb : List Nat) (c : Nat) :
    escapeChar c = [c] ∧ c ≠ '"'.toNat ∧ c ≠ '\\'.toNat ∨
      Lexeme double ⟨STRING_BEGIN, sb⟩ (escapeChar c) none ⟨STRING_BEGIN, sb ++ [c]⟩ (fun _ => True) ∧
        (escapeChar c).head? = some '\\'.toNat := by
  unfold escapeChar
  split_ifs with h₁ h₂ h₃ h₄ h₅ h₆ h₇ h₈ h₉
  · subst h₁
    exact .inr ⟨lexeme_closes (q := 25) rfl rfl rfl nofun fun _ => rfl, rfl⟩
  · subst h₂
    exact .inr ⟨lexeme_closes (q := 24) rfl rfl rfl nofun fun _ => rfl, rfl⟩
  · subst h₃
    exact .inr ⟨lexeme_closes (q := 27) rfl rfl rfl nofun fun _ => rfl, rfl⟩
  · subst h₄
    exact .inr ⟨lexeme_closes (q := 28) rfl rfl rfl nofun fun _ => rfl, rfl⟩
  · subst h₅
    exact .inr ⟨lexeme_closes (q := 29) rfl rfl rfl nofun fun _ => rfl, rfl⟩
  · subst h₆
    exact .inr ⟨lexeme_closes (q := 30) rfl rfl rfl nofun fun _ => rfl, rfl⟩
  · subst h₇
    exact .inr ⟨lexeme_closes (q := 31) rfl rfl rfl nofun fun _ => rfl, rfl⟩
  · subst h₈
    exact .inr ⟨lexeme_closes (q := 26) rfl rfl rfl nofun fun _ => rfl, rfl⟩
  · right
    obtain ⟨hcontrol, hdelete, hpunctuation⟩ := unicode_fourDigits
    rcases h₉ with h | ⟨hl, hu⟩ | ⟨hl, hu⟩
    · exact ⟨lexeme_unicode sb (hcontrol c (Nat.lt_succ_of_le h)), rfl⟩
    · obtain ⟨i, rfl⟩ := Nat.exists_eq_add_of_le hl
      exact ⟨lexeme_unicode sb (hdelete i (by omega)), rfl⟩
    · obtain ⟨i, rfl⟩ := Nat.exists_eq_add_of_le hl
      exact ⟨lexeme_unicode sb (hpunctuation i (by omega)), rfl⟩
  · exact .inl ⟨rfl, h₁, h₂⟩

end JSONValue

section Run
variable {sb run rest : List Nat} {yychar : Nat} {ts : List (Nat × Yytoken D)} {e : Ending D}

/-- A run of characters that stand for themselves, or none. -/
theorem reads_run (hrun : ∀ c ∈ run, c ≠ '"'.toNat ∧ c ≠ '\\'.toNat) (hrest : EndsRun rest)
    (h : Reads double ⟨⟨STRING_BEGIN, sb ++ run⟩, yychar + run.length, rest⟩ ts e) :
    Reads double ⟨⟨STRING_BEGIN, sb⟩, yychar, run ++ rest⟩ ts e := by
  by_cases hne : run = []
  · subst hne
    rwa [List.append_nil] at h
  · exact .skip (lexeme_run sb hne hrun yychar rest hrest) h

/-- The rest of a string, in front of which there is a run. -/
theorem reads_string (sb run : List Nat) {s : List Nat} (hrun : ∀ c ∈ run, c ≠ '"'.toNat ∧ c ≠ '\\'.toNat)
    (h : Reads double ⟨{}, yychar + (run ++ JSONValue.escape s ++ ['"'.toNat]).length, rest⟩ ts e) :
    ∃ p, Reads double ⟨⟨STRING_BEGIN, sb⟩, yychar, run ++ (JSONValue.escape s ++ '"'.toNat :: rest)⟩
      ((p, .TYPE_VALUE (.string (sb ++ run ++ s))) :: ts) e := by
  induction s generalizing sb run yychar with
  | nil =>
    have hclose : Reads double ⟨⟨STRING_BEGIN, sb ++ run⟩, yychar + run.length, '"'.toNat :: rest⟩
        ((yychar + run.length, .TYPE_VALUE (.string (sb ++ run))) :: ts) e := by
      rw [JSONValue.escape, List.flatMap_nil, List.append_nil, List.length_append, ← Nat.add_assoc] at h
      exact .token (lexeme_close (sb ++ run) (yychar + run.length) rest trivial) (reads_withString h _)
    rw [List.append_nil]
    exact ⟨_, reads_run hrun ⟨_, _, rfl, .inl rfl⟩ hclose⟩
  | cons c s ih =>
    have hescape : JSONValue.escape (c :: s) = JSONValue.escapeChar c ++ JSONValue.escape s :=
      List.flatMap_cons
    rw [hescape] at h ⊢
    obtain ⟨hplain, hc⟩ | ⟨hlexeme, hhead⟩ := JSONValue.escapeChar_cases double (sb ++ run) c
    · have hrun' : ∀ c' ∈ run ++ [c], c' ≠ '"'.toNat ∧ c' ≠ '\\'.toNat := by
        intro c' hc'
        obtain hmem | hmem := List.mem_append.1 hc'
        · exact hrun c' hmem
        · exact List.mem_singleton.1 hmem ▸ hc
      rw [hplain, ← List.append_assoc run] at h
      obtain ⟨p, hreads⟩ := ih sb (run ++ [c]) hrun' h
      refine ⟨p, ?_⟩
      rw [hplain, List.append_assoc [c], ← List.append_assoc run]
      rwa [List.append_assoc sb, List.append_assoc run [c] s, List.singleton_append, ← List.append_assoc sb]
        at hreads
    · have hrest : Reads double ⟨{}, yychar + run.length + (JSONValue.escapeChar c).length +
          ([] ++ JSONValue.escape s ++ ['"'.toNat]).length, rest⟩ ts e := by
        rw [List.nil_append, Nat.add_assoc, Nat.add_assoc, ← List.length_append, ← List.length_append]
        rwa [List.append_assoc, List.append_assoc] at h
      obtain ⟨p, hreads⟩ := ih (sb ++ run ++ [c]) [] nofun hrest
      rw [List.nil_append, List.append_nil, List.append_assoc (sb ++ run), List.singleton_append] at hreads
      refine ⟨p, reads_run hrun ?_ ?_⟩
      · obtain ⟨cs, hcs⟩ := List.head?_eq_some_iff.1 hhead
        rw [hcs]
        exact ⟨_, _, rfl, .inr rfl⟩
      · rw [List.append_assoc (JSONValue.escapeChar c)]
        exact .skip (hlexeme _ _ trivial) hreads

end Run

/-! ## Pieces of texts -/

/-- The tokens of a piece of text, where the text goes on as `P` says. -/
def Lexes (double : Doubles D) (w : List Nat) (tokens : List (Yytoken D)) (P : List Nat → Prop) : Prop :=
  ∀ yychar rest ts e, P rest → Reads double ⟨{}, yychar + w.length, rest⟩ ts e →
    ∃ ts', ts'.map Prod.snd = tokens ∧ Reads double ⟨{}, yychar, w ++ rest⟩ (ts' ++ ts) e

section Lexes
variable {P Q : List Nat → Prop} {tokens tokens' : List (Yytoken D)}

theorem lexes_nil : Lexes double [] [] P := fun _ _ _ _ _ h => ⟨[], rfl, h⟩

theorem Lexes.append (h : Lexes double w tokens P) (h' : Lexes double w' tokens' Q)
    (hfollows : ∀ rest, Q rest → P (w' ++ rest)) : Lexes double (w ++ w') (tokens ++ tokens') Q := by
  intro yychar rest ts e hQ hreads
  rw [List.length_append, ← Nat.add_assoc] at hreads
  obtain ⟨ts₂, hts₂, hreads₂⟩ := h' _ rest ts e hQ hreads
  obtain ⟨ts₁, hts₁, hreads₁⟩ := h yychar (w' ++ rest) (ts₂ ++ ts) e (hfollows rest hQ) hreads₂
  refine ⟨ts₁ ++ ts₂, by rw [List.map_append, hts₁, hts₂], ?_⟩
  rwa [List.append_assoc, List.append_assoc]

theorem Lexes.mono (h : Lexes double w tokens P) (hPQ : ∀ rest, Q rest → P rest) :
    Lexes double w tokens Q := fun yychar rest ts e hQ => h yychar rest ts e (hPQ rest hQ)

/-- A piece that may stand in front of anything. -/
theorem Lexes.then (h : Lexes double w tokens fun _ => True) (h' : Lexes double w' tokens' P) :
    Lexes double (w ++ w') (tokens ++ tokens') P := h.append h' fun _ _ => trivial

theorem Lexeme.lexes {token : Yytoken D} (h : Lexeme double {} w (some token) {} P) :
    Lexes double w [token] P := by
  intro yychar rest ts e hP hreads
  exact ⟨[(yychar, token)], rfl, .token (h yychar rest hP) hreads⟩

theorem lexes_string (s : List Nat) : Lexes double ('"'.toNat :: (JSONValue.escape s ++ ['"'.toNat]))
    [.TYPE_VALUE (.string s)] fun _ => True := by
  intro yychar rest ts e _ hreads
  rw [List.length_cons, Nat.add_comm _ 1, ← Nat.add_assoc] at hreads
  obtain ⟨p, hstring⟩ := reads_string [] [] nofun hreads
  have happend : '"'.toNat :: (JSONValue.escape s ++ ['"'.toNat]) ++ rest =
      ['"'.toNat] ++ (JSONValue.escape s ++ '"'.toNat :: rest) := by simp
  rw [happend]
  exact ⟨[(p, _)], rfl, .skip (lexeme_open [] yychar _ trivial) hstring⟩

end Lexes

/-! ## Numbers and words -/

/-- What comes after a value in a document, or the end of the text. -/
def Delimited (rest : List Nat) : Prop :=
  ∀ c ∈ rest.head?, c = ','.toNat ∨ c = ']'.toNat ∨ c = '}'.toNat

section Numbers
variable {q₁ q₂ : Nat} {sign ds : List Nat}

theorem next_digit {c : Nat} (hnext : zzNext q 3 = q₁) (hc : '0'.toNat ≤ c ∧ c ≤ '9'.toNat) :
    scanner.next q c = some q₁ := by
  have hclass : ∀ c < 58, '0'.toNat ≤ c → zzCMap c = 3 := by decide
  exact scanner_next (by rw [hclass c (Nat.lt_succ_of_le hc.2) hc.1, hnext])

theorem reach_digits (hloop : zzNext q 3 = q) (hds : ∀ c ∈ ds, '0'.toNat ≤ c ∧ c ≤ '9'.toNat) :
    scanner.reach q ds = some q := by
  induction ds with
  | nil => rfl
  | cons c ds ih =>
    rw [Scanner.reach_cons (next_digit hloop (hds c (List.mem_cons_self ..))),
      ih fun c hc => hds c (List.mem_cons_of_mem _ hc)]

theorem Digits.reach (q₁ : Nat) (hds : Digits ds) (hnext : zzNext q 3 = q₁) (hloop : zzNext q₁ 3 = q₁) :
    scanner.reach q ds = some q₁ := by
  obtain ⟨c, ds, rfl⟩ := List.exists_cons_of_ne_nil hds.1
  rw [Scanner.reach_cons (next_digit hnext (hds.2 c (List.mem_cons_self ..))),
    reach_digits hloop fun c hc => hds.2 c (List.mem_cons_of_mem _ hc)]

theorem reach_signed (q₁ q₂ : Nat) (hsign : Sign sign) (hds : Digits ds) (hminus : scanner.next q '-'.toNat = some q₁)
    (hnext : zzNext q 3 = q₂) (hnext₁ : zzNext q₁ 3 = q₂) (hloop : zzNext q₂ 3 = q₂) :
    scanner.reach q (sign ++ ds) = some q₂ := by
  obtain rfl | rfl := hsign
  · exact hds.reach q₂ hnext hloop
  · rw [List.singleton_append, Scanner.reach_cons hminus, hds.reach q₂ hnext₁ hloop]

set_option maxRecDepth 2000 in
theorem IsDecimal.reach (h : IsDecimal w) : scanner.reach 0 w = some 33 ∨ scanner.reach 0 w = some 35 := by
  cases h with
  | @plain sign whole frac hsign hwhole hfrac =>
    left
    have hpoint : scanner.next 4 '.'.toNat = some 19 := rfl
    rw [Scanner.reach_append, reach_signed 3 4 hsign hwhole rfl rfl rfl rfl, Option.bind_some,
      Scanner.reach_cons hpoint, hfrac.reach 33 rfl rfl]
  | @exponent sign whole frac sign' ds hsign hwhole hfrac hsign' hds =>
    right
    have hpoint : scanner.next 4 '.'.toNat = some 19 := rfl
    have hletter : scanner.next 33 'E'.toNat = some 20 := rfl
    have hexponent : scanner.reach 20 (sign' ++ ds) = some 35 :=
      reach_signed 34 35 hsign' hds rfl rfl rfl rfl
    rw [Scanner.reach_append, Scanner.reach_append,
      reach_signed 3 4 hsign hwhole rfl rfl rfl rfl, Option.bind_some,
      Scanner.reach_cons hpoint, hfrac.reach 33 rfl rfl, Option.bind_some,
      Scanner.reach_cons hletter, hexponent]

theorem IsDecimal.ne_nil (h : IsDecimal w) : w ≠ [] := by
  cases h <;> simp

set_option maxRecDepth 2000 in
theorem next_delimited : ∀ q ∈ [4, 33, 35], ∀ c ∈ [','.toNat, ']'.toNat, '}'.toNat], scanner.next q c = none := by
  decide

theorem Delimited.next {rest : List Nat} (h : Delimited rest) (hq : q ∈ [4, 33, 35]) :
    ∀ c ∈ rest.head?, scanner.next q c = none := by
  intro c hc
  refine next_delimited q hq c ?_
  rcases h c hc with rfl | rfl | rfl <;> decide

theorem lexeme_double (h : IsDecimal w) {d : D} (hvalue : double.valueOf w = some d) :
    Lexeme double {} w (some (.TYPE_VALUE (.double d))) {} Delimited := by
  have hactions : zzAction 33 = 21 ∧ zzAction 35 = 21 := ⟨rfl, rfl⟩
  obtain hreach | hreach := h.reach
  · refine lexeme hreach rfl h.ne_nil (fun _ hrest => hrest.next (by decide)) fun _ => ?_
    simp only [hactions.1, act, hvalue]
  · refine lexeme hreach rfl h.ne_nil (fun _ hrest => hrest.next (by decide)) fun _ => ?_
    simp only [hactions.2, act, hvalue]

/-- The text of a `long`. -/
theorem units_toString (n : Int64) : ∃ sign ds, Sign sign ∧ Digits ds ∧ units (toString n) = sign ++ ds := by
  have hdigit : ∀ c : Char, c.isDigit → utf16 c = [c.toNat] ∧ '0'.toNat ≤ c.toNat ∧ c.toNat ≤ '9'.toNat := by
    intro c hc
    rw [Char.isDigit, Bool.and_eq_true, decide_eq_true_eq, decide_eq_true_eq] at hc
    have hle : c.toNat ≤ '9'.toNat := hc.2
    refine ⟨?_, hc.1, hle⟩
    rw [utf16, if_pos]
    exact hle.trans_lt (by decide)
  have hunits : ∀ k, Digits ((Nat.toDigits 10 k).flatMap utf16) := by
    intro k
    have hmap : (Nat.toDigits 10 k).flatMap utf16 = (Nat.toDigits 10 k).map Char.toNat := by
      rw [List.map_eq_flatMap]
      exact List.flatMap_congr fun c hc => (hdigit c (Long.isDigit_of_mem hc)).1
    rw [hmap]
    refine ⟨by simp [Nat.toDigits_ne_nil], ?_⟩
    rintro _ hc
    obtain ⟨c, hmem, rfl⟩ := List.mem_map.1 hc
    exact (hdigit c (Long.isDigit_of_mem hmem)).2
  obtain ⟨k, ⟨hlist, -⟩ | ⟨hlist, -⟩⟩ := Long.toList_toString n
  · exact ⟨[], _, .inl rfl, hunits k, by rw [units, hlist, List.nil_append]⟩
  · exact ⟨['-'.toNat], _, .inr rfl, hunits k, by rw [units, hlist, List.flatMap_cons]; rfl⟩

theorem lexeme_long (n : Int64) :
    Lexeme double {} (units (toString n)) (some (.TYPE_VALUE (.long n))) {} Delimited := by
  obtain ⟨sign, ds, hsign, hds, hunits⟩ := units_toString n
  have hreach : scanner.reach 0 (units (toString n)) = some 4 := by
    rw [hunits]
    exact reach_signed 3 4 hsign hds rfl rfl rfl rfl
  refine lexeme hreach rfl ?_ (fun _ hrest => hrest.next (by decide)) fun _ => ?_
  · rw [hunits]
    exact fun hnil => hds.1 (List.append_eq_nil_iff.1 hnil).2
  · have haction : zzAction 4 = 2 := rfl
    simp only [haction, act, characters_units, String.ofList_toList, Long.valueOf_toString]

end Numbers

set_option maxRecDepth 2000 in
theorem lexeme_null : Lexeme double {} (Json.word "null") (some (.TYPE_VALUE .null)) {} fun _ => True :=
  lexeme_closes (q := 40) rfl rfl rfl (by decide) fun _ => rfl

set_option maxRecDepth 2000 in
theorem lexeme_bool (b : Bool) : Lexeme double {} (Json.word (if b then "true" else "false"))
    (some (.TYPE_VALUE (.bool b))) {} fun _ => True := by
  cases b
  · exact lexeme_closes (q := 41) rfl rfl rfl (by decide) fun _ => rfl
  · exact lexeme_closes (q := 41) rfl rfl rfl (by decide) fun _ => rfl

/-! ## Documents -/

theorem lexes_left_brace : Lexes double ['{'.toNat] [.TYPE_LEFT_BRACE] fun _ => True :=
  Lexeme.lexes (lexeme_closes (q := 10) rfl rfl rfl nofun fun _ => rfl)

theorem lexes_right_brace : Lexes double ['}'.toNat] [.TYPE_RIGHT_BRACE] fun _ => True :=
  Lexeme.lexes (lexeme_closes (q := 11) rfl rfl rfl nofun fun _ => rfl)

theorem lexes_left_square : Lexes double ['['.toNat] [.TYPE_LEFT_SQUARE] fun _ => True :=
  Lexeme.lexes (lexeme_closes (q := 12) rfl rfl rfl nofun fun _ => rfl)

theorem lexes_right_square : Lexes double [']'.toNat] [.TYPE_RIGHT_SQUARE] fun _ => True :=
  Lexeme.lexes (lexeme_closes (q := 13) rfl rfl rfl nofun fun _ => rfl)

theorem lexes_comma : Lexes double [','.toNat] [.TYPE_COMMA] fun _ => True :=
  Lexeme.lexes (lexeme_closes (q := 14) rfl rfl rfl nofun fun _ => rfl)

theorem lexes_colon : Lexes double [':'.toNat] [.TYPE_COLON] fun _ => True :=
  Lexeme.lexes (lexeme_closes (q := 15) rfl rfl rfl nofun fun _ => rfl)

theorem lexes_scalar (hdouble : double.Faithful) (v : Scalar D) :
    Lexes double (JSONValue.scalarText double v) [.TYPE_VALUE (v.printed double)] Delimited := by
  cases v with
  | null => exact (Lexeme.lexes lexeme_null).mono fun _ _ => trivial
  | bool b => exact (Lexeme.lexes (lexeme_bool b)).mono fun _ _ => trivial
  | long n => exact Lexeme.lexes (lexeme_long n)
  | string s => exact (lexes_string s).mono fun _ _ => trivial
  | double d =>
    change Lexes double (if _ then _ else _) [.TYPE_VALUE (if _ then _ else _)] _
    by_cases hfinite : double.isInfinite d ∨ double.isNaN d
    · rw [if_pos hfinite, if_pos hfinite]
      exact (Lexeme.lexes lexeme_null).mono fun _ _ => trivial
    · rw [if_neg hfinite, if_neg hfinite]
      have hinfinite := Bool.eq_false_iff.2 fun h => hfinite (.inl h)
      have hnan := Bool.eq_false_iff.2 fun h => hfinite (.inr h)
      exact Lexeme.lexes (lexeme_double (hdouble.isDecimal hinfinite hnan)
        (hdouble.valueOf_toString hinfinite hnan))

theorem delimited_cons {c : Nat} (rest : List Nat) (h : c = ','.toNat ∨ c = ']'.toNat ∨ c = '}'.toNat) :
    Delimited (c :: rest) := by
  rintro _ ⟨⟩
  exact h

theorem delimited_members {rest : List Nat} (map : List (List Nat × Document D)) (h : Delimited rest) :
    Delimited (JSONObject.toJSONString double false map ++ rest) := by
  cases map with
  | nil => exact h
  | cons p map =>
    rw [JSONObject.toJSONString]
    exact delimited_cons _ (.inl rfl)

theorem delimited_elements {rest : List Nat} (list : List (Document D)) (h : Delimited rest) :
    Delimited (JSONArray.toJSONString double false list ++ rest) := by
  cases list with
  | nil => exact h
  | cons value list =>
    rw [JSONArray.toJSONString]
    exact delimited_cons _ (.inl rfl)

/-- A comma in front of all but the first. -/
theorem lexes_first (double : Doubles D) (first : Bool) :
    Lexes double (if first then [] else [','.toNat]) (if first then [] else [.TYPE_COMMA]) fun _ => True := by
  cases first
  · exact lexes_comma
  · exact lexes_nil

mutual

/-- The text of a document has the tokens of the document. -/
theorem lexes_toJSONString (hdouble : double.Faithful) : ∀ d : Document D, ∃ tokens,
    Value tokens (printed double d) ∧ Lexes double (toJSONString double d) tokens Delimited
  | .scalar v => ⟨_, .scalar _, by
      rw [toJSONString]
      exact lexes_scalar hdouble v⟩
  | .object map => by
    obtain ⟨tokens, hmembers, hlexes⟩ := lexes_members hdouble true map
    refine ⟨_, .object hmembers, ?_⟩
    rw [toJSONString]
    exact lexes_left_brace.then (hlexes.append (lexes_right_brace.mono fun _ _ => trivial)
      fun rest _ => delimited_cons rest (.inr (.inr rfl)))
  | .array list => by
    obtain ⟨tokens, helements, hlexes⟩ := lexes_elements hdouble true list
    refine ⟨_, .array helements, ?_⟩
    rw [toJSONString]
    exact lexes_left_square.then (hlexes.append (lexes_right_square.mono fun _ _ => trivial)
      fun rest _ => delimited_cons rest (.inr (.inl rfl)))

theorem lexes_members (hdouble : double.Faithful) (first : Bool) : ∀ map : List (List Nat × Document D),
    ∃ tokens, Members tokens (printedMembers double map) ∧
      Lexes double (JSONObject.toJSONString double first map) tokens Delimited
  | [] => ⟨[], .nil, lexes_nil⟩
  | (key, value) :: iter => by
    obtain ⟨tokens, hvalue, hlexes⟩ := lexes_toJSONString hdouble value
    obtain ⟨tokens', hmembers, hlexes'⟩ := lexes_members hdouble false iter
    have hkey : Lexes double ('"'.toNat :: (JSONValue.escape key ++ ['"'.toNat, ':'.toNat]))
        [.TYPE_VALUE (.string key), .TYPE_COLON] fun _ => True := by
      have hcolon : Lexes double _ _ _ := (lexes_string key).then lexes_colon
      rwa [List.cons_append, List.append_assoc] at hcolon
    have hmember := ((lexes_first double first).then hkey).then
      (hlexes.append hlexes' fun _ => delimited_members iter)
    refine ⟨_, ?_, by rw [JSONObject.toJSONString, List.append_assoc]; exact hmember⟩
    cases first with
    | true => exact .member key 1 hvalue hmembers
    | false => exact .comma (.member key 1 hvalue hmembers)

theorem lexes_elements (hdouble : double.Faithful) (first : Bool) : ∀ list : List (Document D),
    ∃ tokens, Elements tokens (printedElements double list) ∧
      Lexes double (JSONArray.toJSONString double first list) tokens Delimited
  | [] => ⟨[], .nil, lexes_nil⟩
  | value :: iter => by
    obtain ⟨tokens, hvalue, hlexes⟩ := lexes_toJSONString hdouble value
    obtain ⟨tokens', helements, hlexes'⟩ := lexes_elements hdouble false iter
    have helement := (lexes_first double first).then
      (hlexes.append hlexes' fun _ => delimited_elements iter)
    refine ⟨_, ?_, by rw [JSONArray.toJSONString, List.append_assoc]; exact helement⟩
    cases first with
    | true => exact show Elements (tokens ++ tokens') _ from .element hvalue helements
    | false => exact .comma (show Elements (tokens ++ tokens') _ from .element hvalue helements)

end

/-- A number that is written as 0.5, and no others. -/
def half : Doubles Unit where
  valueOf s := if s = Json.word "0.5" then some () else none
  toString _ := Json.word "0.5"
  isInfinite _ := false
  isNaN _ := false

theorem half_faithful : half.Faithful where
  isDecimal _ _ := @IsDecimal.plain [] ['0'.toNat] ['5'.toNat] (.inl rfl) ⟨nofun, by decide⟩ ⟨nofun, by decide⟩
  valueOf_toString _ _ := rfl

/-- **The text of a document is that of the document.** -/
theorem textOf_toJSONString (hdouble : double.Faithful) (d : Document D) :
    TextOf double (toJSONString double d) (printed double d) := by
  obtain ⟨tokens, hvalue, hlexes⟩ := lexes_toJSONString hdouble d
  have heof : Reads double ⟨{}, 0 + (toJSONString double d).length, []⟩ [] (.eof _) :=
    .eof (Text.round_eq_none_iff.2 rfl)
  obtain ⟨ts, rfl, hreads⟩ := hlexes 0 [] [] _ nofun heof
  rw [List.append_nil, List.append_nil] at hreads
  exact ⟨ts, _, hreads, hvalue⟩

/-- `{"a\"":[0.5,null]}` -/
theorem textOf_toJSONString_half :
    TextOf half (toJSONString half (.object [([97, 34], .array [.scalar (.double ()), .scalar .null])]))
      (printed half (.object [([97, 34], .array [.scalar (.double ()), .scalar .null])])) :=
  textOf_toJSONString half_faithful _

namespace JSONValue

theorem newJSONParser_fits : 0 < (newJSONParser : JSONParser D).lexer.zzBuffer.length := by
  rw [newJSONParser, List.length_replicate]
  exact Nat.succ_pos _

theorem parseWithException_parsed (double : Doubles D) {text : List Nat} (hsize : text.length < 2 ^ 30) :
    Parsed double text (parseWithException double text) :=
  (JSONParser.parse_spec double newJSONParser (StringReader text) newJSONParser_fits hsize).1

theorem parse_textOf {text : List Nat} {d : Document D} (htext : TextOf double text d)
    (hsize : text.length < 2 ^ 30) :
    ∃ v h, parse double text = .ok (v, h) ∧ Doc.Holds h 0 h.length v d := by
  obtain ⟨v, h, hparse, hholds⟩ := (parseWithException_parsed double hsize).of_textOf htext
  refine ⟨v, h, ?_, hholds⟩
  unfold parse
  rw [hparse]

end JSONValue

/-- **A document that is written is read back.** -/
theorem parse_toJSONString (hdouble : double.Faithful) (d : Document D)
    (hsize : (toJSONString double d).length < 2 ^ 30) :
    ∃ v h, JSONValue.parse double (toJSONString double d) = .ok (v, h) ∧
      Doc.Holds h 0 h.length v (printed double d) :=
  JSONValue.parse_textOf (textOf_toJSONString hdouble d) hsize

theorem parse_toJSONString_half : ∃ v h,
    JSONValue.parse half (toJSONString half (.object [([97, 34], .array [.scalar (.double ()), .scalar .null])])) =
      .ok (v, h) ∧ Doc.Holds h 0 h.length v
        (printed half (.object [([97, 34], .array [.scalar (.double ()), .scalar .null])])) :=
  parse_toJSONString half_faithful _ (by decide)

end BaseService.Notify.JSON
