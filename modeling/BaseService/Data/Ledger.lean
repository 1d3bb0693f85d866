import Mathlib

/-!
# Things lent and returned

* `Ledger` : who has lent each thing, the things by number, and to whom things have been returned;
  `lend`, `giveBack`;
* `Ledger.active` : what a lender has lent and not got back;
* `Ledger.Held` : each thing is either with one holder, or has been returned once; `Held.lend`,
  `Held.giveBack`, `Held.keep` : it stays so;
* `Ledger.Home` : things are returned to their lenders; `active_eq_zero` : if nobody holds anything, no
  lender has anything out.
-/

namespace BaseService
open Function (update)

/-- Of lenders `α`. -/
structure Ledger (α : Type) where
  lenders : List α
  returned : List (Nat × α)

namespace Ledger
variable {α κ : Type}

def empty : Ledger α := ⟨[], []⟩

/-- The new thing has the number `lenders.length`. -/
def lend (l : Ledger α) (a : α) : Ledger α := { l with lenders := l.lenders ++ [a] }

def giveBack (l : Ledger α) (n : Nat) (a : α) : Ledger α := { l with returned := l.returned ++ [(n, a)] }

def active [DecidableEq α] (l : Ledger α) (a : α) : Int :=
  l.lenders.count a - (l.returned.map Prod.snd).count a

/-- The numbers of the things that have been returned. -/
def back (l : Ledger α) : List Nat := l.returned.map Prod.fst

structure Held (l : Ledger α) (holds : κ → Option Nat) : Prop where
  lent : ∀ i n, holds i = some n → n < l.lenders.length ∧ n ∉ l.back
  one : ∀ i j n, holds i = some n → holds j = some n → i = j
  covered : ∀ n < l.lenders.length, n ∈ l.back ∨ ∃ i, holds i = some n
  once : l.back.Nodup
  lt : ∀ n ∈ l.back, n < l.lenders.length

/-- What has been returned has been returned to its lender. -/
def Home (l : Ledger α) : Prop := ∀ e ∈ l.returned, l.lenders[e.1]? = some e.2

variable {l : Ledger α} {holds : κ → Option Nat} {a : α} {n : Nat}

theorem back_giveBack (l : Ledger α) (n : Nat) (a : α) : (l.giveBack n a).back = l.back ++ [n] := by
  simp [back, giveBack]

theorem lenders_lend (h : l.lenders[n]? = some a) (b : α) : (l.lend b).lenders[n]? = some a := by
  rw [lend, List.getElem?_append_left (List.getElem?_eq_some_iff.mp h).1, h]

theorem held_empty : Held (empty : Ledger α) (fun _ : κ => none) := by
  constructor <;> simp [empty, back]

theorem home_empty : Home (empty : Ledger α) := by simp [Home, empty]

theorem Home.lend (h : l.Home) (a : α) : (l.lend a).Home := fun e he => lenders_lend (h e he) a

theorem Home.giveBack (h : l.Home) (hn : l.lenders[n]? = some a) : (l.giveBack n a).Home := by
  intro e he
  rcases List.mem_append.mp he with he | he
  · exact h e he
  · rwa [List.mem_singleton.mp he]

namespace Held
variable [DecidableEq κ] {i : κ}

/-- A holder that still holds the same. -/
theorem keep (h : l.Held holds) : l.Held (update holds i (holds i)) := by
  rwa [Function.update_eq_self]

theorem lend (h : l.Held holds) (hi : holds i = none) (a : α) :
    (l.lend a).Held (update holds i (some l.lenders.length)) := by
  have hlength : (l.lend a).lenders.length = l.lenders.length + 1 := by simp [Ledger.lend]
  have hnew (j : κ) (m : Nat) (hj : update holds i (some l.lenders.length) j = some m) :
      j = i ∧ m = l.lenders.length ∨ j ≠ i ∧ holds j = some m := by
    rw [Function.update_apply] at hj
    split at hj
    · next heq => exact .inl ⟨heq, (Option.some.inj hj).symm⟩
    · next hne => exact .inr ⟨hne, hj⟩
  constructor
  · intro j m hj
    rw [hlength]
    rcases hnew j m hj with ⟨-, rfl⟩ | ⟨-, hj⟩
    · refine ⟨Nat.lt_succ_self _, fun hmem => ?_⟩
      exact absurd (h.lt _ hmem) (lt_irrefl _)
    · obtain ⟨hlt, hback⟩ := h.lent j m hj
      exact ⟨by omega, hback⟩
  · intro j k m hj hk
    rcases hnew j m hj with ⟨hji, hm⟩ | ⟨-, hj'⟩ <;> rcases hnew k m hk with ⟨hki, hm'⟩ | ⟨-, hk'⟩
    · rw [hji, hki]
    · exact absurd (h.lent k m hk').1 (by omega)
    · exact absurd (h.lent j m hj').1 (by omega)
    · exact h.one j k m hj' hk'
  · intro m hm
    rw [hlength] at hm
    by_cases heq : m = l.lenders.length
    · exact .inr ⟨i, by rw [Function.update_self, heq]⟩
    · rcases h.covered m (by omega) with hback | ⟨j, hj⟩
      · exact .inl hback
      · refine .inr ⟨j, ?_⟩
        rw [Function.update_of_ne, hj]
        rintro rfl
        simp [hi] at hj
  · exact h.once
  · intro m hm
    rw [hlength]
    exact Nat.lt_succ_of_lt (h.lt m hm)

theorem giveBack (h : l.Held holds) (hi : holds i = some n) (a : α) :
    (l.giveBack n a).Held (update holds i none) := by
  have hother (j : κ) (m : Nat) (hj : update holds i none j = some m) : j ≠ i ∧ holds j = some m := by
    rw [Function.update_apply] at hj
    split at hj
    · cases hj
    · next hne => exact ⟨hne, hj⟩
  constructor
  · intro j m hj
    obtain ⟨hne, hj⟩ := hother j m hj
    obtain ⟨hlt, hback⟩ := h.lent j m hj
    refine ⟨hlt, ?_⟩
    rw [back_giveBack, List.mem_append, List.mem_singleton, not_or]
    refine ⟨hback, ?_⟩
    rintro rfl
    exact hne (h.one j i m hj hi)
  · exact fun j k m hj hk => h.one j k m (hother j m hj).2 (hother k m hk).2
  · intro m hm
    rw [back_giveBack, List.mem_append, List.mem_singleton]
    rcases h.covered m hm with hback | ⟨j, hj⟩
    · exact .inl (.inl hback)
    · by_cases hij : j = i
      · rw [hij, hi] at hj
        exact .inl (.inr (Option.some.inj hj).symm)
      · refine .inr ⟨j, ?_⟩
        rwa [Function.update_of_ne hij]
  · rw [back_giveBack, ← List.concat_eq_append]
    exact h.once.concat (h.lent i n hi).2
  · intro m hm
    rw [back_giveBack, List.mem_append, List.mem_singleton] at hm
    rcases hm with hm | rfl
    · exact h.lt m hm
    · exact (h.lent i m hi).1

end Held

/-- Nobody holds anything: all has been returned. -/
theorem Held.all_back (h : l.Held holds) (hnone : ∀ i, holds i = none) (hn : n < l.lenders.length) :
    n ∈ l.back := by
  rcases h.covered n hn with hback | ⟨i, hi⟩
  · exact hback
  · simp [hnone i] at hi

/-- Those to whom things have been returned are the lenders, in another order. -/
theorem Held.perm (h : l.Held holds) (hnone : ∀ i, holds i = none) (hhome : l.Home) :
    (l.returned.map Prod.snd).Perm l.lenders := by
  have hback : l.back.Perm (List.range l.lenders.length) := by
    rw [List.perm_ext_iff_of_nodup h.once List.nodup_range]
    intro n
    rw [List.mem_range]
    exact ⟨h.lt n, h.all_back hnone⟩
  have hsnd : (l.returned.map Prod.snd).map some = l.back.map (l.lenders[·]?) := by
    rw [back, List.map_map, List.map_map]
    exact List.map_congr_left fun e he => (hhome e he).symm
  have hlenders : l.lenders.map some = (List.range l.lenders.length).map (l.lenders[·]?) := by
    refine List.ext_getElem? fun n => ?_
    rw [List.getElem?_map, List.getElem?_map]
    by_cases hn : n < l.lenders.length
    · simp [List.getElem?_range hn, List.getElem?_eq_getElem hn]
    · simp [hn]
  have hperm : ((l.returned.map Prod.snd).map some).Perm (l.lenders.map some) := by
    rw [hsnd, hlenders]
    exact hback.map _
  exact (List.map_perm_map_iff (Option.some_injective α)).1 hperm

/-- **No lender has anything out**, if nobody holds anything and all went home. -/
theorem Held.active_eq_zero [DecidableEq α] (h : l.Held holds) (hnone : ∀ i, holds i = none)
    (hhome : l.Home) (a : α) : l.active a = 0 := by
  rw [active, (h.perm hnone hhome).count_eq a]
  omega

end Ledger

end BaseService
