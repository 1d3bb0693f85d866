import BaseService.Configuration.SmcConfiguration

/-!
# The groups of the properties

* `getPropertiesBySubPrefix` : the group of a sub prefix, looked up under the prefix of that;
* `Grouped`, `Found` : what the map of all properties and the group should contain;
* `getPrefix_getSubPrefix` : a sub prefix has the prefix of its keys;
* `grouped_rebuild` : the map that `properties()` builds has all entries in their places.
-/

namespace BaseService.Configuration
variable {V : Type}

/-- On the map that `properties()` returns. -/
def getPropertiesBySubPrefix (allProperties : Properties V) (subPrefix : String) :
    Option (Data V) :=
  match allProperties (getPrefix subPrefix) with
  | some pro => pro subPrefix
  | none => none

/-- The map has the entries of the data in their places, and no empty groups. -/
structure Grouped (data : Data V) (m : Properties V) : Prop where
  entry (p q key : String) : ((m p).bind fun pro => (pro q).bind fun entries => entries key) =
    if p = getPrefix key ∧ q = getSubPrefix key then data key else none
  group (p q : String) : ((m p).bind fun pro => pro q) ≠ none ↔
    ∃ key, data key ≠ none ∧ getPrefix key = p ∧ getSubPrefix key = q
  groups (p : String) : m p ≠ none ↔ ∃ key, data key ≠ none ∧ getPrefix key = p

/-- The entries with the sub prefix, or null if there are none. -/
def Found (data : Data V) (subPrefix : String) (r : Option (Data V)) : Prop :=
  ∀ entries, r = some entries ↔
    (∃ key, data key ≠ none ∧ getSubPrefix key = subPrefix) ∧
      entries = fun key => if getSubPrefix key = subPrefix then data key else none

/-! ## Sub prefixes -/

/-- Three tokens joined by dots are split again. -/
theorem split_three {a b c : String} (ha : a ≠ "" ∧ '.' ∉ a.toList) (hb : b ≠ "" ∧ '.' ∉ b.toList)
    (hc : c ≠ "" ∧ '.' ∉ c.toList) :
    StringUtils.split (a ++ "." ++ b ++ "." ++ c) '.' = [a, b, c] := by
  have hrest : StringUtils.split (b ++ "." ++ c) '.' = [b, c] :=
    StringUtils.split_pair (by simp) hb hc
  rw [StringUtils.split_cons (b := b ++ "." ++ c) (by simp) ha, hrest]

/-- **The prefix of a sub prefix** is that of every key filed under it. -/
theorem getPrefix_getSubPrefix (key : String) : getPrefix (getSubPrefix key) = getPrefix key := by
  by_cases hlen : (StringUtils.split key '.').length ≤ 3
  · have hsub : getSubPrefix key = key := by
      unfold getSubPrefix
      split
      · next heq =>
        rw [heq] at hlen
        simp only [List.length_cons] at hlen
        omega
      · rfl
    rw [hsub]
  · obtain ⟨a, b, c, d, rest, heq⟩ : ∃ a b c d rest,
        StringUtils.split key '.' = a :: b :: c :: d :: rest := by
      generalize StringUtils.split key '.' = tokens at hlen
      rcases tokens with _ | ⟨a, _ | ⟨b, _ | ⟨c, _ | ⟨d, rest⟩⟩⟩⟩
      case cons.cons.cons.cons => exact ⟨a, b, c, d, rest, rfl⟩
      all_goals exact absurd (by simp) hlen
    have htoken (t : String) (ht : t ∈ [a, b, c]) : t ≠ "" ∧ '.' ∉ t.toList := by
      have hmem : t ∈ StringUtils.split key '.' := by
        rw [heq]
        exact List.mem_append_left (d :: rest) ht
      exact StringUtils.split_mem hmem
    have hsub : getSubPrefix key = a ++ "." ++ b ++ "." ++ c := by
      rw [getSubPrefix, heq]
    have hsplit : StringUtils.split (getSubPrefix key) '.' = [a, b, c] := by
      rw [hsub]
      exact split_three (htoken a (by simp)) (htoken b (by simp)) (htoken c (by simp))
    rw [getPrefix, hsplit, getPrefix, heq]

/-! ## The nested map -/

theorem entriesOf_ne {data : Data V} {p q : String} :
    entriesOf data p q ≠ (fun _ => none) ↔
      ∃ key, data key ≠ none ∧ getPrefix key = p ∧ getSubPrefix key = q := by
  rw [Ne, funext_iff, not_forall]
  refine exists_congr fun key => ?_
  unfold entriesOf
  split
  · next h => simp [h]
  · next h => simp [h]

theorem nest_group (data : Data V) (p q : String) :
    ((nest data p).bind fun pro => pro q) = groupsOf data p q := by
  unfold nest
  split
  · next h => rw [h, Option.bind_none]
  · rfl

theorem groupsOf_ne {data : Data V} {p q : String} :
    groupsOf data p q ≠ none ↔ ∃ key, data key ≠ none ∧ getPrefix key = p ∧ getSubPrefix key = q := by
  rw [← entriesOf_ne, groupsOf]
  split
  · next h => simp [h]
  · next h => simp [h]

theorem nest_ne {data : Data V} {p : String} :
    nest data p ≠ none ↔ ∃ key, data key ≠ none ∧ getPrefix key = p := by
  have hgroups : groupsOf data p ≠ (fun _ => none) ↔ ∃ key, data key ≠ none ∧ getPrefix key = p := by
    rw [Ne, funext_iff, not_forall]
    constructor
    · rintro ⟨q, hq⟩
      obtain ⟨key, hkey, hp, -⟩ := groupsOf_ne.1 hq
      exact ⟨key, hkey, hp⟩
    · rintro ⟨key, hkey, hp⟩
      exact ⟨getSubPrefix key, groupsOf_ne.2 ⟨key, hkey, hp, rfl⟩⟩
  rw [← hgroups, nest]
  split
  · next h => simp [h]
  · next h => simp [h]

theorem grouped_nest (data : Data V) : Grouped data (nest data) := by
  refine ⟨fun p q key => ?_, fun p q => ?_, fun p => nest_ne⟩
  · have hentries : (groupsOf data p q).bind (fun entries => entries key) = entriesOf data p q key := by
      unfold groupsOf
      split
      · next h => rw [h, Option.bind_none]
      · rfl
    rw [← Option.bind_assoc, nest_group, hentries, entriesOf]
    exact if_congr (and_congr eq_comm eq_comm) rfl rfl
  · rw [nest_group]
    exact groupsOf_ne

theorem found_nest (data : Data V) (subPrefix : String) :
    Found data subPrefix (getPropertiesBySubPrefix (nest data) subPrefix) := by
  have hlookup : getPropertiesBySubPrefix (nest data) subPrefix =
      groupsOf data (getPrefix subPrefix) subPrefix := by
    rw [← nest_group, getPropertiesBySubPrefix]
    cases nest data (getPrefix subPrefix) <;> rfl
  -- under its prefix the sub prefix alone decides
  have hplace (key : String) : getPrefix key = getPrefix subPrefix ∧ getSubPrefix key = subPrefix ↔
      getSubPrefix key = subPrefix := by
    refine and_iff_right_of_imp fun h => ?_
    rw [← h, getPrefix_getSubPrefix]
  have hentries : entriesOf data (getPrefix subPrefix) subPrefix =
      fun key => if getSubPrefix key = subPrefix then data key else none := by
    funext key
    exact if_congr (hplace key) rfl rfl
  have hne := @groupsOf_ne V data (getPrefix subPrefix) subPrefix
  simp only [hplace] at hne
  intro entries
  rw [hlookup, ← hne, ← hentries]
  unfold groupsOf
  split
  · simp
  · simp [eq_comm]

/-- **Configuration grouping**, in whatever order the keys come. -/
theorem grouped_rebuild {data : Data V} {keys : List String} (h : Enumerates keys data) :
    Grouped data (rebuild data keys) ∧
      ∀ subPrefix, Found data subPrefix (getPropertiesBySubPrefix (rebuild data keys) subPrefix) := by
  rw [rebuild_eq h]
  exact ⟨grouped_nest data, found_nest data⟩

/-- A key whose group is named by another key. -/
theorem grouped_nested_key :
    Grouped (fun key => if key ∈ ["a.b.c", "a.b.c.d"] then some 1 else none)
        (rebuild (fun key => if key ∈ ["a.b.c", "a.b.c.d"] then some 1 else none)
          ["a.b.c", "a.b.c.d"]) ∧
      ∀ subPrefix, Found (fun key => if key ∈ ["a.b.c", "a.b.c.d"] then some 1 else none) subPrefix
        (getPropertiesBySubPrefix (rebuild
          (fun key => if key ∈ ["a.b.c", "a.b.c.d"] then some 1 else none) ["a.b.c", "a.b.c.d"])
          subPrefix) :=
  grouped_rebuild fun key => by by_cases h : key = "a.b.c" <;> simp [h]

end BaseService.Configuration
