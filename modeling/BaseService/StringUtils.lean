import BaseService.Java

/-!
# `StringUtils`

The functions of commons-lang the services use, on strings that are not null: `isBlank`,
`replace` of one character, and `split` at a separator, which drops empty tokens.
-/

namespace BaseService.StringUtils

/-- `Character.isWhitespace`: the Unicode space separators but the non-breaking ones, and the
control characters that separate. -/
def isWhitespace (c : Char) : Bool :=
  let n := c.toNat
  (0x09 ≤ n ∧ n ≤ 0x0D) ∨ (0x1C ≤ n ∧ n ≤ 0x20) ∨ n = 0x1680 ∨ n = 0x180E ∨
    (0x2000 ≤ n ∧ n ≤ 0x200A ∧ n ≠ 0x2007) ∨ n = 0x2028 ∨ n = 0x2029 ∨ n = 0x205F ∨ n = 0x3000

def isBlank (str : String) : Bool := str.toList.all isWhitespace

/-- `replace(text, searchString, replacement)` for strings of one character. -/
def replace (text : String) (searchChar replacement : Char) : String :=
  String.ofList (text.toList.map fun c => if c = searchChar then replacement else c)

/-- The tokens of `cs`, of which `token` is already read. -/
def splitWorker (separatorChar : Char) : List Char → List Char → List (List Char)
  | token, [] => if token = [] then [] else [token]
  | token, c :: cs =>
    if c = separatorChar then
      if token = [] then splitWorker separatorChar [] cs
      else token :: splitWorker separatorChar [] cs
    else splitWorker separatorChar (token ++ [c]) cs

def split (str : String) (separatorChar : Char) : List String :=
  (splitWorker separatorChar [] str.toList).map String.ofList

/-! ## Tokens -/

variable {sep : Char}

/-- Characters other than the separator go to the token. -/
theorem splitWorker_append {token cs rest : List Char} (h : sep ∉ cs) :
    splitWorker sep token (cs ++ rest) = splitWorker sep (token ++ cs) rest := by
  induction cs generalizing token with
  | nil => simp
  | cons c cs ih =>
    rw [List.mem_cons, not_or] at h
    rw [List.cons_append, splitWorker, if_neg (Ne.symm h.1), ih h.2, List.append_assoc]
    rfl

/-- No token is empty or contains the separator. -/
theorem splitWorker_mem {token cs t : List Char} (htoken : sep ∉ token)
    (h : t ∈ splitWorker sep token cs) : t ≠ [] ∧ sep ∉ t := by
  induction cs generalizing token with
  | nil =>
    rw [splitWorker] at h
    split at h
    · cases h
    · next hne =>
      rw [List.mem_singleton.mp h]
      exact ⟨hne, htoken⟩
  | cons c cs ih =>
    rw [splitWorker] at h
    split at h
    · split at h
      · exact ih (by simp) h
      · next hne =>
        rcases List.mem_cons.mp h with rfl | h
        · exact ⟨hne, htoken⟩
        · exact ih (by simp) h
    · next hc =>
      refine ih ?_ h
      rw [List.mem_append, not_or, List.mem_singleton]
      exact ⟨htoken, Ne.symm hc⟩

/-- A string without the separator is one token. -/
theorem splitWorker_self {cs : List Char} (hcs : cs ≠ []) (h : sep ∉ cs) :
    splitWorker sep [] cs = [cs] := by
  have happend : splitWorker sep [] (cs ++ []) = splitWorker sep ([] ++ cs) [] := splitWorker_append h
  rw [List.append_nil, List.nil_append] at happend
  rw [happend, splitWorker, if_neg hcs]

theorem split_mem {str t : String} (h : t ∈ split str sep) : t ≠ "" ∧ sep ∉ t.toList := by
  obtain ⟨cs, hcs, rfl⟩ := List.mem_map.mp h
  obtain ⟨hne, hsep⟩ := splitWorker_mem (by simp) hcs
  rw [String.toList_ofList]
  refine ⟨fun he => hne ?_, hsep⟩
  rw [← String.toList_ofList (l := cs), he]
  rfl

/-- A name before the separator is the first token. -/
theorem split_cons {str a b : String} (hstr : str.toList = a.toList ++ sep :: b.toList)
    (ha : a ≠ "" ∧ sep ∉ a.toList) : split str sep = a :: split b sep := by
  have hne : a.toList ≠ [] := fun he => ha.1 (String.toList_inj.mp he)
  unfold split
  rw [hstr, splitWorker_append ha.2, List.nil_append, splitWorker, if_pos rfl, if_neg hne]
  simp only [List.map_cons, String.ofList_toList]

/-- Two names with the separator between them are two tokens. -/
theorem split_pair {str a b : String} (hstr : str.toList = a.toList ++ sep :: b.toList)
    (ha : a ≠ "" ∧ sep ∉ a.toList) (hb : b ≠ "" ∧ sep ∉ b.toList) : split str sep = [a, b] := by
  have hne : b.toList ≠ [] := fun he => hb.1 (String.toList_inj.mp he)
  rw [split_cons hstr ha, split, splitWorker_self hne hb.2]
  simp only [List.map_cons, List.map_nil, String.ofList_toList]

end BaseService.StringUtils
