import BaseService.Data.Json
import BaseService.Java

/-!
# `JsonUtil.quote`

Strings are lists of UTF-16 units, shorter than `2 ^ 30`: the capacity `len * 2` is an `int`.

* `escape_cases` : what one unit becomes;
* `quoteLoop` : the loop over the units with its buffer of 1030; `quote_eq` : it fits;
* `readString_quoted` : the string is read from what `quote` writes;
* `quoted_units` : what `quote` writes for a string of characters is one.
-/

namespace BaseService.Notify.JsonUtil
open Json (readString hexValue)

/-- The last four digits of `"000" + Integer.toHexString(c)`. -/
def hex (c : Nat) : List Nat :=
  let t := units ("000" ++ String.ofList (Nat.toDigits 16 c))
  t.drop (t.length - 4)

/-- What the unit `c` after the unit `b` puts into the buffer. -/
def escape (b c : Nat) : List Nat :=
  if c = '\\'.toNat ∨ c = '"'.toNat then ['\\'.toNat, c]
  else if c = '/'.toNat then
    if b = '<'.toNat then ['\\'.toNat, c] else [c]
  else if c < ' '.toNat then
    if c = 8 then ['\\'.toNat, 'b'.toNat]
    else if c = '\t'.toNat then ['\\'.toNat, 't'.toNat]
    else if c = '\n'.toNat then ['\\'.toNat, 'n'.toNat]
    else if c = 12 then ['\\'.toNat, 'f'.toNat]
    else if c = '\r'.toNat then ['\\'.toNat, 'r'.toNat]
    else '\\'.toNat :: 'u'.toNat :: hex c
  else [c]

/-- The loop, with `sb`, what is in the buffer, and the unit before. -/
def quoteLoop (sb buffer : List Nat) (c : Nat) : List Nat → Outcome (List Nat)
  | [] => .ok (sb ++ buffer)
  | each :: chars =>
    let flushed := if 1024 < buffer.length then (sb ++ buffer, []) else (sb, buffer)
    let buffer := flushed.2 ++ escape c each
    if 1030 < buffer.length then .error .indexOutOfBounds
    else quoteLoop flushed.1 buffer each chars

def quote (string : List Nat) : Outcome (List Nat) := do
  let sb ← quoteLoop ['"'.toNat] [] 0 string
  .ok (sb ++ ['"'.toNat])

/-! ## The buffer -/

/-- All units, each after the one before. -/
def quoted (b : Nat) : List Nat → List Nat
  | [] => []
  | c :: chars => escape b c ++ quoted c chars

theorem hex_values : ∀ c < 32, (hex c).map hexValue = [some 0, some 0, some (c / 16), some (c % 16)] := by
  decide

/-- What one unit puts into the buffer: itself, a backslash and one unit that stands for it, or its
code. -/
theorem escape_cases (b c : Nat) :
    escape b c = [c] ∧ c ≠ '"'.toNat ∧ c ≠ '\\'.toNat ∧ ' '.toNat ≤ c ∨
      (∃ e < 128, escape b c = ['\\'.toNat, e] ∧ e ≠ 'u'.toNat ∧ Json.escaped e = some c) ∨
      c < ' '.toNat ∧ escape b c = '\\'.toNat :: 'u'.toNat :: hex c := by
  by_cases hquote : c = '\\'.toNat ∨ c = '"'.toNat
  · have hescape : escape b c = ['\\'.toNat, c] := if_pos hquote
    refine Or.inr (Or.inl ⟨c, ?_, hescape, ?_⟩)
    · rcases hquote with rfl | rfl <;> decide
    · rcases hquote with rfl | rfl <;> decide
  · obtain ⟨hslash, hq⟩ := not_or.mp hquote
    by_cases hsolidus : c = '/'.toNat
    · have hescape : escape b c = if b = '<'.toNat then ['\\'.toNat, c] else [c] :=
        (if_neg hquote).trans (if_pos hsolidus)
      rw [hescape]
      split
      · exact Or.inr (Or.inl ⟨c, by rw [hsolidus]; decide, rfl, by rw [hsolidus]; decide⟩)
      · exact Or.inl ⟨rfl, hq, hslash, by rw [hsolidus]; decide⟩
    · by_cases hcontrol : c < ' '.toNat
      · have hescape : escape b c = if c = 8 then ['\\'.toNat, 'b'.toNat]
            else if c = '\t'.toNat then ['\\'.toNat, 't'.toNat]
            else if c = '\n'.toNat then ['\\'.toNat, 'n'.toNat]
            else if c = 12 then ['\\'.toNat, 'f'.toNat]
            else if c = '\r'.toNat then ['\\'.toNat, 'r'.toNat]
            else '\\'.toNat :: 'u'.toNat :: hex c :=
          (if_neg hquote).trans ((if_neg hsolidus).trans (if_pos hcontrol))
        right
        rw [hescape]
        split_ifs with hb ht hn hf hr
        · exact Or.inl ⟨'b'.toNat, by decide, rfl, by rw [hb]; decide⟩
        · exact Or.inl ⟨'t'.toNat, by decide, rfl, by rw [ht]; decide⟩
        · exact Or.inl ⟨'n'.toNat, by decide, rfl, by rw [hn]; decide⟩
        · exact Or.inl ⟨'f'.toNat, by decide, rfl, by rw [hf]; decide⟩
        · exact Or.inl ⟨'r'.toNat, by decide, rfl, by rw [hr]; decide⟩
        · exact Or.inr ⟨hcontrol, rfl⟩
      · have hescape : escape b c = [c] :=
          (if_neg hquote).trans ((if_neg hsolidus).trans (if_neg hcontrol))
        exact Or.inl ⟨hescape, hq, hslash, Nat.not_lt.mp hcontrol⟩

theorem escape_length (b c : Nat) : (escape b c).length ≤ 6 := by
  rcases escape_cases b c with ⟨h, -⟩ | ⟨e, -, h, -⟩ | ⟨hc, h⟩
  · rw [h, List.length_singleton]
    omega
  · rw [h, List.length_cons, List.length_singleton]
    omega
  · have hhex : (hex c).length = 4 := by simpa using congrArg List.length (hex_values c hc)
    rw [h, List.length_cons, List.length_cons, hhex]

theorem quoteLoop_eq {sb buffer : List Nat} (h : buffer.length ≤ 1030) (b : Nat)
    (chars : List Nat) : quoteLoop sb buffer b chars = .ok (sb ++ buffer ++ quoted b chars) := by
  induction chars generalizing sb buffer b with
  | nil => rw [quoteLoop, quoted, List.append_nil]
  | cons c chars ih =>
    have hlen := escape_length b c
    rw [quoteLoop]
    by_cases hfull : 1024 < buffer.length
    · simp only [if_pos hfull, List.nil_append]
      rw [if_neg (by omega), ih (by omega), quoted, List.append_assoc _ (escape b c)]
    · have hfits : (buffer ++ escape b c).length ≤ 1030 := by
        rw [List.length_append]
        omega
      simp only [if_neg hfull]
      rw [if_neg (by omega), ih hfits, quoted]
      simp only [List.append_assoc]

/-- **The buffer is never too short.** -/
theorem quote_eq (string : List Nat) :
    quote string = .ok ('"'.toNat :: (quoted 0 string ++ ['"'.toNat])) := by
  rw [quote, quoteLoop_eq (by simp)]
  rfl

/-! ## Reading -/

theorem readString_hex {c : Nat} (h : c < 32) (cs : List Nat) :
    readString ('\\'.toNat :: 'u'.toNat :: hex c ++ cs) =
      (readString cs).map fun p => (c :: p.1, p.2) := by
  have hvalues := hex_values c h
  obtain ⟨h₁, t₁, e, e₁, ht₁⟩ := List.map_eq_cons_iff.mp hvalues
  obtain ⟨h₂, t₂, rfl, e₂, ht₂⟩ := List.map_eq_cons_iff.mp ht₁
  obtain ⟨h₃, t₃, rfl, e₃, ht₃⟩ := List.map_eq_cons_iff.mp ht₂
  obtain ⟨h₄, rfl, e₄⟩ := List.map_eq_singleton_iff.mp ht₃
  have hc : ((0 * 16 + 0) * 16 + c / 16) * 16 + c % 16 = c := by omega
  rw [e]
  exact (Json.readString_hex e₁ e₂ e₃ e₄).trans (by rw [hc]; rfl)

/-- One unit is read from what it puts into the buffer. -/
theorem readString_escape (b c : Nat) (cs : List Nat) :
    readString (escape b c ++ cs) = (readString cs).map fun p => (c :: p.1, p.2) := by
  rcases escape_cases b c with ⟨h, hplain⟩ | ⟨e, -, h, he, hu⟩ | ⟨hcontrol, h⟩
  · rw [h]
    exact Json.readString_cons hplain
  · rw [h]
    exact Json.readString_escaped he hu
  · rw [h]
    exact readString_hex hcontrol cs

theorem readString_quoted (b : Nat) (string rest : List Nat) :
    readString (quoted b string ++ '"'.toNat :: rest) = some (string, rest) := by
  induction string generalizing b with
  | nil => exact Json.readString_end
  | cons c string ih =>
    rw [quoted, List.append_assoc, readString_escape, ih]
    rfl

/-! ## Characters -/

/-- A unit that is not copied becomes units of the Basic Latin block. -/
theorem escape_ascii (b c : Nat) : escape b c = [c] ∨ ∀ u ∈ escape b c, u < 128 := by
  have hhex : ∀ c < 32, ∀ u ∈ hex c, u < 128 := by decide
  rcases escape_cases b c with ⟨h, -⟩ | ⟨e, he, h, -⟩ | ⟨hcontrol, h⟩
  · exact Or.inl h
  · refine Or.inr fun u hu => ?_
    rw [h] at hu
    rcases List.mem_pair.mp hu with rfl | rfl
    · decide
    · exact he
  · refine Or.inr fun u hu => ?_
    rw [h] at hu
    rcases List.mem_cons.mp hu with rfl | hu
    · decide
    rcases List.mem_cons.mp hu with rfl | hu
    · decide
    · exact hhex c hcontrol u hu

/-- A surrogate is copied. -/
theorem escape_surrogate {b c : Nat} (h : 0xD800 ≤ c) : escape b c = [c] := by
  unfold escape
  rw [if_neg (by simp; omega), if_neg (by simp; omega), if_neg (by simp; omega)]

/-- **`quote` keeps a string a string.** -/
theorem quoted_units (b : Nat) (s : String) : ∃ q : String, units q = quoted b (units s) := by
  unfold units
  generalize s.toList = chars
  suffices h : ∃ q : List Char, q.flatMap utf16 = quoted b (chars.flatMap utf16) by
    obtain ⟨q, hq⟩ := h
    exact ⟨String.ofList q, by rw [String.toList_ofList, hq]⟩
  induction chars generalizing b with
  | nil => exact ⟨[], rfl⟩
  | cons c chars ih =>
    rw [List.flatMap_cons]
    by_cases hc : c.toNat < 0x10000
    · obtain ⟨q, hq⟩ := ih c.toNat
      have hunits : utf16 c = [c.toNat] := if_pos hc
      rw [hunits, List.singleton_append, quoted]
      rcases escape_ascii b c.toNat with he | he
      · exact ⟨c :: q, by rw [List.flatMap_cons, hunits, hq, he]⟩
      · obtain ⟨e, he⟩ := exists_units_of_ascii he
        exact ⟨e.toList ++ q, by rw [List.flatMap_append, hq, ← he]; rfl⟩
    · obtain ⟨q, hq⟩ := ih (0xDC00 + (c.toNat - 0x10000) % 0x400)
      have hunits : utf16 c = [0xD800 + (c.toNat - 0x10000) / 0x400,
        0xDC00 + (c.toNat - 0x10000) % 0x400] := if_neg hc
      refine ⟨c :: q, ?_⟩
      rw [List.flatMap_cons, hunits, hq]
      simp only [List.cons_append, List.nil_append, quoted]
      rw [escape_surrogate (by omega), escape_surrogate (by omega)]
      rfl

end BaseService.Notify.JsonUtil
