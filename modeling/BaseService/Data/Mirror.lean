import Mathlib

/-!
# A mirror of a set

The changes of a set are announced, additions apart from deletions, and a mirror applies what is
announced, in any order of the two.

* `Mirror`, `Mirror.Step` : the set and its mirror, with the announcements not yet applied;
* `Mirror.Settled` : once each of them is applied, and the last change of an element last, the mirror
  is the set;
* `Mirror.Keeps`, `settled_iff` : the steps that keep it settled;
* `Settled.eq` : with nothing left to apply, the mirror is the set.
-/

namespace BaseService

variable {ι : Type}

@[ext]
structure Mirror (ι : Type) where
  stored : Set ι
  mirrored : Set ι
  /-- The elements with an addition, or a deletion, that the mirror is still to apply. -/
  adding : Set ι
  deleting : Set ι

namespace Mirror

inductive Label (ι : Type)
  | other
  | insert (x : ι)
  | remove (removed announced : Set ι)
  | add (applied rest : Set ι)
  | del (applied rest : Set ι)

inductive Step : Mirror ι → Label ι → Mirror ι → Prop
  | other {m : Mirror ι} : Step m .other m
  | insert {m : Mirror ι} (x : ι) : Step m (.insert x)
      { m with
        stored := Insert.insert x m.stored
        adding := Insert.insert x m.adding }
  | remove {m : Mirror ι} {removed announced : Set ι} : removed ⊆ m.stored →
    Step m (.remove removed announced)
      { m with
        stored := m.stored \ removed
        deleting := m.deleting ∪ announced }
  | add {m : Mirror ι} {applied rest : Set ι} : m.adding = applied ∪ rest →
    Step m (.add applied rest)
      { m with
        mirrored := m.mirrored ∪ applied
        adding := rest }
  | del {m : Mirror ι} {applied rest : Set ι} : m.deleting = applied ∪ rest →
    Step m (.del applied rest)
      { m with
        mirrored := m.mirrored \ applied
        deleting := rest }

/-- An element of the set has an addition outstanding, or is in the mirror with no deletion
outstanding; the other elements the other way round. -/
def Settled (m : Mirror ι) : Prop :=
  ∀ x, (x ∈ m.stored → x ∈ m.adding ∨ x ∉ m.deleting ∧ x ∈ m.mirrored) ∧
    (x ∉ m.stored → x ∈ m.deleting ∨ x ∉ m.adding ∧ x ∉ m.mirrored)

/-- What is removed is announced, and what is announced but stays is still to be added; an addition
that the set agrees with, unless it is announced once more, comes after the deletions; and a deletion
after the additions. -/
def Keeps (m : Mirror ι) : Label ι → Prop
  | .other | .insert _ => True
  | .remove removed announced => ∀ x,
    (x ∈ removed → x ∈ announced ∨ x ∈ m.deleting) ∧
      (x ∈ announced → x ∈ m.stored → x ∉ removed → x ∈ m.adding)
  | .add applied rest => ∀ x ∈ applied, x ∈ m.stored → x ∈ rest ∨ x ∉ m.deleting
  | .del applied rest => ∀ x ∈ applied, x ∉ m.stored → x ∈ rest ∨ x ∉ m.adding

theorem settled_of_eq {m : Mirror ι} (h : m.mirrored = m.stored) (hadding : m.adding = ∅)
    (hdeleting : m.deleting = ∅) : m.Settled := by
  intro x
  simp [h, hadding, hdeleting]

/-- Nothing is outstanding. -/
theorem Settled.eq {m : Mirror ι} (h : m.Settled) (hadding : m.adding = ∅)
    (hdeleting : m.deleting = ∅) : m.mirrored = m.stored := by
  ext x
  have hx := h x
  simp only [hadding, hdeleting, Set.mem_empty_iff_false, false_or, not_false_eq_true,
    true_and] at hx
  exact ⟨fun hm => by_contra fun hs => hx.2 hs hm, hx.1⟩

theorem settled_iff {m m' : Mirror ι} {l : Label ι} (h : m.Settled) (hstep : m.Step l m') :
    m'.Settled ↔ m.Keeps l := by
  cases hstep with
  | other => exact iff_of_true h trivial
  | insert y =>
    refine iff_of_true (fun x => ?_) trivial
    have hx := h x
    simp only [Set.mem_insert_iff]
    by_cases hy : x = y
    · simp [hy]
    · simpa [hy] using hx
  | remove hsub =>
    apply forall_congr'
    intro x
    have hx := h x
    have hr := @hsub x
    simp only [Set.mem_sdiff, Set.mem_union]
    by_cases hs : x ∈ m.stored
    · simp only [hs] at hx ⊢
      grind
    · simp only [hs] at hx hr ⊢
      grind
  | add hadding =>
    apply forall_congr'
    intro x
    have hx := h x
    simp only [hadding, Set.mem_union] at hx ⊢
    grind
  | del hdeleting =>
    apply forall_congr'
    intro x
    have hx := h x
    simp only [hdeleting, Set.mem_union, Set.mem_sdiff] at hx ⊢
    grind

end Mirror

end BaseService
