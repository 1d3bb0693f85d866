import BaseService.LocalCache.LruCache

/-!
# The invariants of `LruCache`

* `Table s chains` : every bucket's chain visits `chains i`, each key sits in its own bucket once;
* `Lru s live l₁ l₂` : the two LRU lists hold the `live` items, split by hit count. An item whose
  32-bit hit count has overflowed looks deleted, so that its removal leaves it behind in `l₂` as a
  dead node with null links; live nodes keep exact links in every run;
* `Inv` : both, over the items of the table, with the number of listed items bounded by the
  capacity.

Each operation has one lemma about the tables it keeps and one about the lists it keeps.
-/

namespace BaseService.LocalCache
open Function (update)
open Links

namespace LruCache
variable {K V : Type}

/-! ## The LRU lists -/

structure Lru (s : LruCache K V) (live : Ref → Prop) (l₁ l₂ : List Ref) : Prop where
  list₁ : DList live s.nextLru s.prevLru s.head1 s.tail1 l₁
  list₂ : DList live s.nextLru s.prevLru s.head2 s.tail2 l₂
  size₁ : s.size1 = l₁.length
  size₂ : s.size2 = l₂.length
  once : ∀ r ∈ l₁, live r ∧ s.hitCount r = 1
  twice : ∀ r ∈ l₂, live r → s.hitCount r ≠ 1
  cover : ∀ r, live r → r ∈ l₁ ∨ r ∈ l₂
  keyed : ∀ r, r ∈ l₁ ∨ r ∈ l₂ → r < s.allocated ∧ ∃ k, s.key r = some k
  hit_lt : ∀ r, s.hitCount r < 2 ^ 31
  capacity_lt : s.capacity < 2 ^ 31
  fits : (l₁.length + l₂.length : Int) ≤ max 1 s.capacity

section Lru
variable {s s' : LruCache K V} {live live' : Ref → Prop} {l₁ l₂ : List Ref} {r : Ref}

theorem Lru.disjoint (h : Lru s live l₁ l₂) (h₁ : r ∈ l₁) : r ∉ l₂ :=
  fun h₂ => h.twice r h₂ (h.once r h₁).1 (h.once r h₁).2

theorem Lru.mem₁ (h : Lru s live l₁ l₂) (hr : live r) (hc : s.hitCount r = 1) : r ∈ l₁ :=
  (h.cover r hr).resolve_right (fun h₂ => h.twice r h₂ hr hc)

theorem Lru.mem₂ (h : Lru s live l₁ l₂) (hr : live r) (hc : s.hitCount r ≠ 1) : r ∈ l₂ :=
  (h.cover r hr).resolve_left (fun h₁ => hc (h.once r h₁).2)

theorem Lru.length_lt (h : Lru s live l₁ l₂) : (l₁.length + l₂.length : Int) < 2 ^ 31 := by
  have := h.fits
  have := h.capacity_lt
  omega

theorem Lru.size_eq (h : Lru s live l₁ l₂) : s.size = l₁.length + l₂.length := by
  have hlt := h.length_lt
  rw [size, h.size₁, h.size₂, wrapInt_of_range (by omega) hlt]

/-- Fields the lists do not depend on. -/
theorem Lru.congr (h : Lru s live l₁ l₂) (hn : s'.nextLru = s.nextLru) (hp : s'.prevLru = s.prevLru)
    (hh₁ : s'.head1 = s.head1) (ht₁ : s'.tail1 = s.tail1) (hh₂ : s'.head2 = s.head2)
    (ht₂ : s'.tail2 = s.tail2) (hs₁ : s'.size1 = s.size1) (hs₂ : s'.size2 = s.size2)
    (hc : s'.hitCount = s.hitCount) (hk : s'.key = s.key) (ha : s'.allocated = s.allocated)
    (hcap : s'.capacity = s.capacity) : Lru s' live l₁ l₂ := by
  refine ⟨?_, ?_, ?_, ?_, ?_, ?_, h.cover, ?_, ?_, ?_, ?_⟩
  · rw [hn, hp, hh₁, ht₁]; exact h.list₁
  · rw [hn, hp, hh₂, ht₂]; exact h.list₂
  · rw [hs₁]; exact h.size₁
  · rw [hs₂]; exact h.size₂
  · rw [hc]; exact h.once
  · rw [hc]; exact h.twice
  · rw [ha, hk]; exact h.keyed
  · rw [hc]; exact h.hit_lt
  · rw [hcap]; exact h.capacity_lt
  · rw [hcap]; exact h.fits

/-! ## A hit -/

theorem Lru.promote (h : Lru s live l₁ l₂) (hr : r ∈ l₁) :
    Lru ({ s with hitCount := update s.hitCount r 2 }.promote r) live (l₁.erase r) (r :: l₂) := by
  have hlive := (h.once r hr).1
  have hr₂ := h.disjoint hr
  have hhead : s.head2 ≠ some r := by
    rw [h.list₂.head_eq]
    exact fun e => hr₂ (List.mem_of_mem_head? e)
  have hpos : 0 < l₁.length := List.length_pos_of_mem hr
  have hlen := h.length_lt
  have hmem : ∀ y, y ∈ l₁.erase r → y ∈ l₁ ∧ y ≠ r := fun y hy =>
    ⟨List.mem_of_mem_erase hy, ((List.Nodup.mem_erase_iff h.list₁.nodup).mp hy).1⟩
  constructor
  · refine h.list₁.unlink hr hlive (fun y hy hyr => ?_) (fun y hy hyr => ?_) (fun _ _ _ hl => hl)
    · exact relink_update hyr _ _ _
    · have hne : s.head2 ≠ some y := by
        rw [h.list₂.head_eq]
        exact fun e => h.disjoint hy (List.mem_of_mem_head? e)
      show relink (relink (update s.prevLru r none) _ _) s.head2 (some r) y = _
      rw [relink_of_ne hne]
      exact relink_update hyr _ _ _
  · refine h.list₂.push hr₂ ?_ ?_ (fun y hy => ?_) (fun y hy => ?_) (fun _ _ hl => hl)
    · show relink (update s.nextLru r s.head2) (s.prevLru r) (s.nextLru r) r = s.head2
      rw [relink_of_ne (h.list₁.prev_ne_self hr hlive), Function.update_self]
    · show relink (relink (update s.prevLru r none) (s.nextLru r) (s.prevLru r)) s.head2 (some r) r =
        none
      rw [relink_of_ne hhead, relink_of_ne (h.list₁.next_ne_self hr hlive), Function.update_self]
    · have hyr : y ≠ r := fun e => hr₂ (e ▸ hy)
      exact relink_update_of_ne hyr
        (fun e => h.disjoint (h.list₁.prev_mem hr hlive e) hy) _ _
    · have hyr : y ≠ r := fun e => hr₂ (e ▸ hy)
      exact relink_congr (relink_update_of_ne hyr
        (fun e => h.disjoint (h.list₁.next_mem hr hlive e) hy) _ _) _ _
  · show wrapInt (s.size1 - 1) = _
    rw [h.size₁, wrapInt_of_range (by omega) (by omega), List.length_erase_of_mem hr]
    omega
  · show wrapInt (s.size2 + 1) = _
    rw [h.size₂, wrapInt_of_range (by omega) (by omega), List.length_cons]
    omega
  · intro y hy
    obtain ⟨hy₁, hyr⟩ := hmem y hy
    refine ⟨(h.once y hy₁).1, ?_⟩
    show update s.hitCount r 2 y = 1
    rw [Function.update_of_ne hyr]
    exact (h.once y hy₁).2
  · intro y hy hyl
    show update s.hitCount r 2 y ≠ 1
    by_cases hyr : y = r
    · subst hyr; rw [Function.update_self]; decide
    · rw [Function.update_of_ne hyr]
      exact h.twice y ((List.mem_cons.mp hy).resolve_left hyr) hyl
  · intro y hyl
    by_cases hyr : y = r
    · exact Or.inr (by simp [hyr])
    · rcases h.cover y hyl with hy | hy
      · exact Or.inl ((List.Nodup.mem_erase_iff h.list₁.nodup).mpr ⟨hyr, hy⟩)
      · exact Or.inr (List.mem_cons_of_mem _ hy)
  · intro y hy
    refine h.keyed y ?_
    rcases hy with hy | hy
    · exact Or.inl (hmem y hy).1
    · rcases List.mem_cons.mp hy with rfl | hy
      · exact Or.inl hr
      · exact Or.inr hy
  · intro y
    show update s.hitCount r 2 y < 2 ^ 31
    by_cases hyr : y = r
    · subst hyr; rw [Function.update_self]; decide
    · rw [Function.update_of_ne hyr]; exact h.hit_lt y
  · exact h.capacity_lt
  · have := h.fits
    rw [List.length_erase_of_mem hr, List.length_cons]
    show _ ≤ max 1 s.capacity
    omega

theorem Lru.bump (h : Lru s live l₁ l₂) (hr : r ∈ l₂) {c : Int} (hc : c ≠ 1) (hlt : c < 2 ^ 31) :
    Lru { s with hitCount := update s.hitCount r c } live l₁ l₂ := by
  refine ⟨h.list₁, h.list₂, h.size₁, h.size₂, fun y hy => ?_, fun y hy hyl => ?_, h.cover, h.keyed,
    fun y => ?_, h.capacity_lt, h.fits⟩
  · have hyr : y ≠ r := fun e => h.disjoint hy (e ▸ hr)
    refine ⟨(h.once y hy).1, ?_⟩
    show update s.hitCount r c y = 1
    rw [Function.update_of_ne hyr]
    exact (h.once y hy).2
  · show update s.hitCount r c y ≠ 1
    by_cases hyr : y = r
    · subst hyr; rwa [Function.update_self]
    · rw [Function.update_of_ne hyr]
      exact h.twice y hy hyl
  · show update s.hitCount r c y < 2 ^ 31
    by_cases hyr : y = r
    · subst hyr; rwa [Function.update_self]
    · rw [Function.update_of_ne hyr]
      exact h.hit_lt y

theorem Lru.toFront (h : Lru s live l₁ l₂) (hr : r ∈ l₂) (hl : live r) :
    ∃ s', s.moveToHead r = some s' ∧ Lru s' live l₁ (r :: l₂.erase r) := by
  by_cases hh : s.head2 = some r
  · have hfirst : r :: l₂.erase r = l₂ := by
      rw [h.list₂.head_eq] at hh
      obtain ⟨l, rfl⟩ := List.head?_eq_some_iff.mp hh
      rw [List.erase_cons_head]
    exact ⟨s, by simp [LruCache.moveToHead, hh], by rwa [hfirst]⟩
  · have hp : s.prevLru r ≠ none := fun e => hh ((h.list₂.prev_eq_none_iff hr hl).mp e)
    obtain ⟨p, hp⟩ := Option.ne_none_iff_exists'.mp hp
    obtain ⟨h₀, hh₀⟩ : ∃ h₀, s.head2 = some h₀ := by
      rw [h.list₂.head_eq]
      cases l₂ with
      | nil => simp at hr
      | cons a l => exact ⟨a, rfl⟩
    have hr₁ : r ∉ l₁ := fun e => h.disjoint e hr
    have hpl := h.list₂.prev_mem hr hl hp
    have hrh : r ≠ h₀ := fun e => hh (by rw [hh₀, e])
    have hnr := h.list₂.next_ne_self hr hl
    have hh₀l : h₀ ∈ l₂ := by
      rw [h.list₂.head_eq] at hh₀
      exact List.mem_of_mem_head? hh₀
    refine ⟨{ s with
      nextLru := update (update s.nextLru r (some h₀)) p (s.nextLru r)
      prevLru := relink (update (update s.prevLru r none) h₀ (some r)) (s.nextLru r) (some p)
      head2 := some r
      tail2 := rehead s.tail2 (s.nextLru r) (some p) }, ?_, ?_⟩
    · simp only [LruCache.moveToHead, hp, hh₀, Option.some.injEq, Ne.symm hrh, ↓reduceIte]
    have hperm : (r :: l₂.erase r).Perm l₂ := (List.perm_cons_erase hr).symm
    have hlen : (r :: l₂.erase r).length = l₂.length := hperm.length_eq
    have hmem : ∀ y, y ∈ r :: l₂.erase r ↔ y ∈ l₂ := fun y => hperm.mem_iff
    have h₂ := h.list₂
    rw [hh₀] at h₂
    constructor
    · refine h.list₁.frame (fun y hy => Or.inl ⟨?_, ?_, fun hl => hl⟩)
      · have hyr : y ≠ r := fun e => hr₁ (e ▸ hy)
        have hyp : y ≠ p := fun e => h.disjoint hy (e ▸ hpl)
        show update (update s.nextLru r (some h₀)) p (s.nextLru r) y = _
        rw [Function.update_of_ne hyp, Function.update_of_ne hyr]
      · have hyr : y ≠ r := fun e => hr₁ (e ▸ hy)
        have hyh : y ≠ h₀ := fun e => h.disjoint hy (e ▸ hh₀l)
        have hyn : s.nextLru r ≠ some y := fun e => h.disjoint hy (h.list₂.next_mem hr hl e)
        show relink (update (update s.prevLru r none) h₀ (some r)) (s.nextLru r) (some p) y = _
        rw [relink_of_ne hyn, Function.update_of_ne hyh, Function.update_of_ne hyr]
    · refine h₂.moveToFront hr hl hp ?_ ?_ (fun y hy hyr => ?_) (fun y hy hyr => ?_)
      · have hrp : r ≠ p := fun e => h.list₂.prev_ne_self hr hl (by rw [hp, e])
        show update (update s.nextLru r (some h₀)) p (s.nextLru r) r = _
        rw [Function.update_of_ne hrp, Function.update_self]
      · show relink (update (update s.prevLru r none) h₀ (some r)) (s.nextLru r) (some p) r = _
        rw [relink_of_ne hnr, Function.update_of_ne hrh, Function.update_self]
      · exact relink_update hyr _ (some p) _
      · show relink (update (update s.prevLru r none) h₀ (some r)) (s.nextLru r) (some p) y = _
        by_cases hyh : y = h₀
        · -- the old head is nobody's successor
          subst hyh
          have hne : s.nextLru r ≠ some y := fun e => h₂.next_ne_head hr hl e rfl
          rw [relink_of_ne hne, relink_self, Function.update_self]
        · rw [relink_update hyh, relink_update hyr]
          exact (relink_of_ne (by simpa using Ne.symm hyh)).symm
    · exact h.size₁
    · rw [hlen]; exact h.size₂
    · exact h.once
    · exact fun y hy => h.twice y ((hmem y).mp hy)
    · exact fun y hy => (h.cover y hy).imp_right (hmem y).mpr
    · exact fun y hy => h.keyed y (hy.imp_right (hmem y).mp)
    · exact h.hit_lt
    · exact h.capacity_lt
    · rw [hlen]; exact h.fits

theorem Lru.moveToHead (h : Lru s live l₁ l₂) (hr : r ∈ l₂) (hl : live r) :
    ∃ s' l₂', s.moveToHead r = some s' ∧ Lru s' live l₁ l₂' ∧ l₂'.Perm l₂ := by
  obtain ⟨s', hrun, hlists⟩ := h.toFront hr hl
  exact ⟨s', _, hrun, hlists, (List.perm_cons_erase hr).symm⟩

/-- **A hit keeps the lists** and the items in them. -/
theorem Lru.updateLru (h : Lru s live l₁ l₂) (hl : live r) :
    ∃ s' l₁' l₂', s.updateLru r = some s' ∧ Lru s' live l₁' l₂' ∧
      (l₁' ++ l₂').Perm (l₁ ++ l₂) := by
  unfold LruCache.updateLru
  dsimp only
  split
  swap
  · exact ⟨s, l₁, l₂, rfl, h, List.Perm.refl _⟩
  unfold updateLruImpl
  have h₀ : Lru (s.stamp r) live l₁ l₂ :=
    h.congr rfl rfl rfl rfl rfl rfl rfl rfl rfl rfl rfl rfl
  generalize s.stamp r = s₀ at h₀ ⊢
  dsimp only
  split
  · exact ⟨s₀, l₁, l₂, rfl, h₀, List.Perm.refl _⟩
  · next hpos =>
    split
    · next hone =>
      have hr := h₀.mem₁ hl hone
      rw [hone, show wrapInt (1 + 1) = 2 from by decide]
      refine ⟨_, _, _, rfl, h₀.promote hr, List.perm_middle.trans ?_⟩
      exact (List.perm_cons_erase hr).symm.append_right l₂
    · next hne =>
      have hr := h₀.mem₂ hl hne
      have hlt := h₀.hit_lt r
      have hc : wrapInt (s₀.hitCount r + 1) ≠ 1 ∧ wrapInt (s₀.hitCount r + 1) < 2 ^ 31 := by
        unfold wrapInt
        omega
      obtain ⟨s', l₂', hs', h', hperm⟩ := (h₀.bump hr hc.1 hc.2).moveToHead hr hl
      exact ⟨s', l₁, l₂', hs', h', hperm.append_left l₁⟩

/-! ## A removal -/

/-- The lists without `r`, whose hit count is now `-1`. -/
theorem Lru.shrink {l₁' l₂' : List Ref} (h : Lru s live l₁ l₂)
    (hd₁ : DList (fun x => live x ∧ x ≠ r) s'.nextLru s'.prevLru s'.head1 s'.tail1 l₁')
    (hd₂ : DList (fun x => live x ∧ x ≠ r) s'.nextLru s'.prevLru s'.head2 s'.tail2 l₂')
    (hs₁ : s'.size1 = l₁'.length) (hs₂ : s'.size2 = l₂'.length)
    (hm₁ : ∀ y, y ∈ l₁' ↔ y ∈ l₁ ∧ y ≠ r) (hm₂ : ∀ y ∈ l₂', y ∈ l₂)
    (hm₂' : ∀ y ∈ l₂, y ≠ r → y ∈ l₂') (hc : s'.hitCount = update s.hitCount r (-1))
    (hk : s'.key = s.key) (ha : s'.allocated = s.allocated) (hcap : s'.capacity = s.capacity)
    (hlen : l₁'.length + l₂'.length ≤ l₁.length + l₂.length) :
    Lru s' (fun x => live x ∧ x ≠ r) l₁' l₂' := by
  refine ⟨hd₁, hd₂, hs₁, hs₂, fun y hy => ?_, fun y hy hyl => ?_, fun y hy => ?_, fun y hy => ?_,
    fun y => ?_, ?_, ?_⟩
  · obtain ⟨hy₁, hyr⟩ := (hm₁ y).mp hy
    refine ⟨⟨(h.once y hy₁).1, hyr⟩, ?_⟩
    rw [hc, Function.update_of_ne hyr]
    exact (h.once y hy₁).2
  · rw [hc, Function.update_of_ne hyl.2]
    exact h.twice y (hm₂ y hy) hyl.1
  · rcases h.cover y hy.1 with h' | h'
    · exact Or.inl ((hm₁ y).mpr ⟨h', hy.2⟩)
    · exact Or.inr (hm₂' y h' hy.2)
  · rw [hk, ha]
    exact h.keyed y (hy.imp (fun h' => ((hm₁ y).mp h').1) (hm₂ y))
  · rw [hc]
    by_cases hyr : y = r
    · subst hyr; rw [Function.update_self]; decide
    · rw [Function.update_of_ne hyr]; exact h.hit_lt y
  · rw [hcap]; exact h.capacity_lt
  · have := h.fits
    rw [hcap]
    omega

/-- **Removing a live item from the lists**: it leaves its list, or, if its hit count has
overflowed, stays behind in the used-twice list as a dead node. -/
theorem Lru.removeLruItem_erase (h : Lru s live l₁ l₂) (hl : live r) :
    ∃ l₁' l₂', Lru (s.removeLruItem r) (fun x => live x ∧ x ≠ r) l₁' l₂' ∧
      (0 < s.hitCount r → l₁' = l₁.erase r ∧ l₂' = l₂.erase r) := by
  have hlt := h.length_lt
  unfold LruCache.removeLruItem
  dsimp only
  split
  · next hneg =>
    have hr : r ∈ l₂ := h.mem₂ hl (by omega)
    have hr₁ : ∀ y ∈ l₁, y ≠ r := fun y hy e => h.disjoint hy (e ▸ hr)
    refine ⟨l₁, l₂, ?_, fun hp => absurd hp (by omega)⟩
    refine h.shrink ?_ ?_ h.size₁ h.size₂ (fun y => ⟨fun hy => ⟨hy, hr₁ y hy⟩, And.left⟩)
      (fun _ hy => hy) (fun _ hy _ => hy) rfl rfl rfl rfl le_rfl
    · exact h.list₁.frame (fun y hy => Or.inl ⟨Function.update_of_ne (hr₁ y hy) _ _,
        Function.update_of_ne (hr₁ y hy) _ _, And.left⟩)
    · refine h.list₂.frame (fun y hy => ?_)
      by_cases hyr : y = r
      · subst hyr
        exact Or.inr ⟨fun hl => hl.2 rfl, Function.update_self _ _ _, Function.update_self _ _ _⟩
      · exact Or.inl ⟨Function.update_of_ne hyr _ _, Function.update_of_ne hyr _ _, And.left⟩
  · split
    · next hone =>
      have hr := h.mem₁ hl hone
      have hr₂ := h.disjoint hr
      have hpos := List.length_pos_of_mem hr
      have hlen := List.length_erase_of_mem hr
      refine ⟨l₁.erase r, l₂, ?_, fun _ => ⟨rfl, (List.erase_of_not_mem hr₂).symm⟩⟩
      refine h.shrink ?_ ?_ ?_ h.size₂ (fun y => ?_) (fun _ hy => hy) (fun _ hy _ => hy) rfl rfl
        rfl rfl (by omega)
      · exact h.list₁.unlink hr hl (fun y _ hyr => relink_update hyr _ _ _)
          (fun y _ hyr => relink_update hyr _ _ _) (fun _ _ _ hl => hl.1)
      · refine h.list₂.frame (fun y hy => Or.inl ?_)
        have hyr : y ≠ r := fun e => hr₂ (e ▸ hy)
        exact ⟨relink_update_of_ne hyr (fun e => h.disjoint (h.list₁.prev_mem hr hl e) hy) _ _,
          relink_update_of_ne hyr (fun e => h.disjoint (h.list₁.next_mem hr hl e) hy) _ _,
          And.left⟩
      · show wrapInt (s.size1 - 1) = _
        rw [h.size₁, wrapInt_of_range (by omega) (by omega), hlen]
        omega
      · rw [List.Nodup.mem_erase_iff h.list₁.nodup, and_comm]
    · next hne =>
      have hr := h.mem₂ hl hne
      have hr₁ : ∀ y ∈ l₁, y ≠ r := fun y hy e => h.disjoint hy (e ▸ hr)
      have hpos := List.length_pos_of_mem hr
      have hlen := List.length_erase_of_mem hr
      refine ⟨l₁, l₂.erase r, ?_, fun _ => ⟨(List.erase_of_not_mem fun hr' => hr₁ r hr' rfl).symm, rfl⟩⟩
      refine h.shrink ?_ ?_ h.size₁ ?_ (fun y => ⟨fun hy => ⟨hy, hr₁ y hy⟩, And.left⟩)
        (fun _ => List.mem_of_mem_erase) (fun y hy hyr => ?_) rfl rfl rfl rfl (by omega)
      · refine h.list₁.frame (fun y hy => Or.inl ?_)
        exact ⟨relink_update_of_ne (hr₁ y hy)
            (fun e => h.disjoint hy (h.list₂.prev_mem hr hl e)) _ _,
          relink_update_of_ne (hr₁ y hy) (fun e => h.disjoint hy (h.list₂.next_mem hr hl e)) _ _,
          And.left⟩
      · exact h.list₂.unlink hr hl (fun y _ hyr => relink_update hyr _ _ _)
          (fun y _ hyr => relink_update hyr _ _ _) (fun _ _ _ hl => hl.1)
      · show wrapInt (s.size2 - 1) = _
        rw [h.size₂, wrapInt_of_range (by omega) (by omega), hlen]
        omega
      · exact (List.Nodup.mem_erase_iff h.list₂.nodup).mpr ⟨hyr, hy⟩

theorem Lru.removeLruItem (h : Lru s live l₁ l₂) (hl : live r) :
    ∃ l₁' l₂', Lru (s.removeLruItem r) (fun x => live x ∧ x ≠ r) l₁' l₂' ∧
      (0 < s.hitCount r → (r :: (l₁' ++ l₂')).Perm (l₁ ++ l₂)) := by
  obtain ⟨l₁', l₂', hlists, herase⟩ := h.removeLruItem_erase hl
  refine ⟨l₁', l₂', hlists, fun hpos => ?_⟩
  obtain ⟨rfl, rfl⟩ := herase hpos
  rcases h.cover r hl with hr | hr
  · rw [List.erase_of_not_mem (h.disjoint hr)]
    exact (List.perm_cons_erase hr).symm.append_right l₂
  · rw [List.erase_of_not_mem fun hr₁ => h.disjoint hr₁ hr]
    exact List.perm_middle.symm.trans ((List.perm_cons_erase hr).symm.append_left l₁)

end Lru

end LruCache

end BaseService.LocalCache
