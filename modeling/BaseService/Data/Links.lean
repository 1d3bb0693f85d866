import Mathlib

/-!
# Lists laid out in link maps

A linked list in memory is a map `next : α → Option α` from nodes to their successors.

* `succOf l x`, `predOf l x` : the neighbours of `x` in the list `l`;
* `Chain next o l` : following `next` from `o` visits exactly `l` (a singly linked list);
* `Half live next head l` : `next` agrees with `succOf l` on `l`, except that a node that is no
  longer `live` may have lost its link; `DList` : both directions of a doubly linked list;
* `DList.unlink`, `DList.push`, `DList.kill`, `DList.frame` : taking a live node out, putting a
  new one in front, cutting a node off without unlinking it, and writes elsewhere.
-/

namespace BaseService.Links

variable {α : Type} [DecidableEq α]

/-! ## Neighbours -/

/-- The element after `y` in `l`. -/
def succOf : List α → α → Option α
  | [], _ => none
  | a :: l, y => if a = y then l.head? else succOf l y

/-- The element before `y` in `l`. -/
def predOf (l : List α) (y : α) : Option α := succOf l.reverse y

@[simp] theorem succOf_nil (y : α) : succOf [] y = none := rfl

theorem succOf_cons_self (a : α) (l : List α) : succOf (a :: l) a = l.head? := by simp [succOf]

theorem succOf_cons_ne {a y : α} (l : List α) (h : a ≠ y) : succOf (a :: l) y = succOf l y := by
  simp [succOf, h]

theorem succOf_mem {l : List α} {y z : α} (h : succOf l y = some z) : z ∈ l := by
  induction l with
  | nil => simp at h
  | cons a l ih =>
    by_cases hay : a = y
    · subst hay
      rw [succOf_cons_self] at h
      exact List.mem_cons_of_mem _ (List.mem_of_mem_head? h)
    · rw [succOf_cons_ne l hay] at h
      exact List.mem_cons_of_mem _ (ih h)

theorem succOf_split {pre post : List α} {x : α} (hx : x ∉ pre) :
    succOf (pre ++ x :: post) x = post.head? := by
  induction pre with
  | nil => rw [List.nil_append, succOf_cons_self]
  | cons a pre ih =>
    rw [List.mem_cons, not_or] at hx
    rw [List.cons_append, succOf_cons_ne _ (Ne.symm hx.1), ih hx.2]

theorem predOf_split {pre post : List α} {x : α} (hx : x ∉ post) :
    predOf (pre ++ x :: post) x = pre.getLast? := by
  have hr : (pre ++ x :: post).reverse = post.reverse ++ x :: pre.reverse := by simp
  rw [predOf, hr, succOf_split (by simpa using hx), List.head?_reverse]

/-- In a list without repetition, `x` follows `y` exactly if `y` precedes `x`. -/
theorem succOf_eq_some_iff {l : List α} (hl : l.Nodup) {x y : α} (hx : x ∈ l) :
    succOf l y = some x ↔ predOf l x = some y := by
  obtain ⟨pre, post, rfl⟩ := List.append_of_mem hx
  have hpost : x ∉ post := (List.nodup_cons.mp (List.nodup_append.mp hl).2.1).1
  rw [predOf_split hpost]
  clear hx
  induction pre with
  | nil =>
    rw [List.nil_append]
    refine iff_of_false (fun h => ?_) (by simp)
    by_cases hxy : x = y
    · subst hxy
      rw [succOf_cons_self] at h
      exact hpost (List.mem_of_mem_head? h)
    · rw [succOf_cons_ne _ hxy] at h
      exact hpost (succOf_mem h)
  | cons a pre ih =>
    rw [List.cons_append, List.nodup_cons] at hl
    obtain ⟨ha, hl⟩ := hl
    have ih := ih hl
    by_cases hay : a = y
    · subst hay
      rw [List.cons_append, succOf_cons_self]
      cases pre with
      | nil => simp
      | cons b pre =>
        refine iff_of_false (fun h => ?_) (fun h => ?_)
        · -- `x` would be both the head `b` and a later element
          have hb : b = x := by simpa using h
          subst hb
          rw [List.cons_append, List.nodup_cons] at hl
          exact hl.1 (by simp)
        · rw [List.getLast?_cons_cons] at h
          exact ha (List.mem_append_left _ (List.mem_of_getLast? h))
    · rw [List.cons_append, succOf_cons_ne _ hay]
      refine ih.trans ?_
      cases pre with
      | nil => simp [hay]
      | cons b pre => rw [List.getLast?_cons_cons]

/-! ## Erasing a node -/

theorem head?_erase {l : List α} (hl : l.Nodup) {x : α} :
    (l.erase x).head? = if l.head? = some x then succOf l x else l.head? := by
  cases l with
  | nil => simp
  | cons a l =>
    by_cases hax : a = x
    · subst hax
      simp [succOf_cons_self]
    · have hb : (a == x) = false := by simpa using hax
      simp [hb, hax]

theorem succOf_erase {l : List α} (hl : l.Nodup) {x y : α} (hxy : y ≠ x) :
    succOf (l.erase x) y = if succOf l y = some x then succOf l x else succOf l y := by
  induction l with
  | nil => simp
  | cons a l ih =>
    obtain ⟨ha, hl'⟩ := List.nodup_cons.mp hl
    by_cases hax : a = x
    · subst hax
      have hne : succOf (a :: l) y ≠ some a := by
        rw [succOf_cons_ne _ (Ne.symm hxy)]
        exact fun h => ha (succOf_mem h)
      rw [if_neg hne, List.erase_cons_head, succOf_cons_ne _ (Ne.symm hxy)]
    · have hb : (a == x) = false := by simpa using hax
      rw [List.erase_cons_tail (by simp [hb]), succOf_cons_ne _ hax]
      by_cases hay : a = y
      · subst hay
        rw [succOf_cons_self, succOf_cons_self, head?_erase hl']
      · rw [succOf_cons_ne _ hay, succOf_cons_ne _ hay, ih hl']

theorem reverse_erase {l : List α} (hl : l.Nodup) (x : α) :
    (l.erase x).reverse = l.reverse.erase x := by
  rw [hl.erase_eq_filter, (List.nodup_reverse.mpr hl).erase_eq_filter, List.filter_reverse]

/-! ## Singly linked chains -/

/-- Following `next` from `o` visits exactly `l`. -/
def Chain (next : α → Option α) : Option α → List α → Prop
  | o, [] => o = none
  | o, a :: l => o = some a ∧ Chain next (next a) l

omit [DecidableEq α] in
theorem Chain.head {next : α → Option α} {o : Option α} {l : List α} (h : Chain next o l) :
    o = l.head? := by
  cases l with
  | nil => exact h
  | cons a l => exact h.1

omit [DecidableEq α] in
theorem Chain.frame {next next' : α → Option α} {o : Option α} {l : List α} (h : Chain next o l)
    (hn : ∀ a ∈ l, next' a = next a) : Chain next' o l := by
  induction l generalizing o with
  | nil => exact h
  | cons a l ih =>
    refine ⟨h.1, ?_⟩
    rw [hn a (by simp)]
    exact ih h.2 (fun b hb => hn b (List.mem_cons_of_mem _ hb))

theorem Chain.push {next : α → Option α} {o : Option α} {l : List α} (h : Chain next o l)
    {a : α} (ha : a ∉ l) : Chain (Function.update next a o) (some a) (a :: l) := by
  refine ⟨rfl, ?_⟩
  rw [Function.update_self]
  refine h.frame (fun b hb => Function.update_of_ne (fun e => ha ?_) _ _)
  rwa [← e]

/-- Taking out a node behind `p`. -/
theorem Chain.remove {next : α → Option α} {o : Option α} {pre post : List α} {p x : α}
    (h : Chain next o (pre ++ p :: x :: post)) (hl : (pre ++ p :: x :: post).Nodup) :
    Chain (Function.update next p (next x)) o (pre ++ p :: post) := by
  induction pre generalizing o with
  | nil =>
    obtain ⟨rfl, h2⟩ := h
    obtain ⟨-, h3⟩ := h2
    rw [List.nil_append, List.nodup_cons] at hl
    refine ⟨rfl, ?_⟩
    rw [Function.update_self]
    refine h3.frame (fun b hb => Function.update_of_ne (fun e => hl.1 ?_) _ _)
    rw [← e]
    exact List.mem_cons_of_mem _ hb
  | cons a pre ih =>
    rw [List.cons_append, List.nodup_cons] at hl
    refine ⟨h.1, ?_⟩
    have hap : a ≠ p := fun e => hl.1 (by simp [e])
    rw [Function.update_of_ne hap]
    exact ih h.2 hl.2

/-- Following `next` from a node visits `x`. -/
inductive Visits (next : α → Option α) (x : α) : Option α → Prop
  | here : Visits next x (some x)
  | next {a : α} : Visits next x (next a) → Visits next x (some a)

omit [DecidableEq α] in
theorem Chain.visits_iff {next : α → Option α} {o : Option α} {l : List α} (h : Chain next o l)
    {x : α} : Visits next x o ↔ x ∈ l := by
  induction l generalizing o with
  | nil =>
    rw [show o = none from h]
    constructor
    · intro hv
      cases hv
    · intro hm
      cases hm
  | cons a l ih =>
    obtain ⟨rfl, h⟩ := h
    rw [List.mem_cons, ← ih h]
    constructor
    · intro hv
      cases hv with
      | here => exact Or.inl rfl
      | next hv => exact Or.inr hv
    · rintro (rfl | hv)
      · exact Visits.here
      · exact Visits.next hv

theorem chain_succOf {next : α → Option α} {l : List α} (hl : l.Nodup)
    (hn : ∀ x ∈ l, next x = succOf l x) : Chain next l.head? l := by
  induction l with
  | nil => rfl
  | cons a l ih =>
    obtain ⟨ha, hl⟩ := List.nodup_cons.mp hl
    refine ⟨rfl, ?_⟩
    rw [hn a (by simp), succOf_cons_self]
    refine ih hl (fun x hx => ?_)
    have hax : a ≠ x := fun e => ha (by rwa [e])
    rw [hn x (List.mem_cons_of_mem _ hx), succOf_cons_ne l hax]

/-! ## Doubly linked lists -/

/-- One direction of a doubly linked list: `head` is the first node and `next` the successor map
of `l`. A node that is no longer `live` may have lost its link. -/
structure Half (live : α → Prop) (next : α → Option α) (head : Option α) (l : List α) : Prop where
  nodup : l.Nodup
  head_eq : head = l.head?
  link : ∀ x ∈ l, next x = succOf l x ∨ ¬ live x ∧ next x = none

theorem Half.live_link {live : α → Prop} {next : α → Option α} {head : Option α} {l : List α}
    (h : Half live next head l) {x : α} (hx : x ∈ l) (hlive : live x) : next x = succOf l x :=
  (h.link x hx).resolve_right (fun hn => hn.1 hlive)

/-- `if (p != null) p.next = v; else head = v;`, the link map. -/
def relink (next : α → Option α) (p v : Option α) : α → Option α :=
  match p with
  | some p => Function.update next p v
  | none => next

/-- `if (p != null) p.next = v; else head = v;`, the head. -/
def rehead (head p v : Option α) : Option α :=
  match p with
  | some _ => head
  | none => v

theorem relink_of_ne {next : α → Option α} {p v : Option α} {x : α} (h : p ≠ some x) :
    relink next p v x = next x := by
  cases p with
  | none => rfl
  | some p => exact Function.update_of_ne (fun e => h (by rw [e])) _ _

theorem relink_self (next : α → Option α) (x : α) (v : Option α) :
    relink next (some x) v x = v := Function.update_self _ _ _

/-- Unlinking `x`: its predecessor (or the head) takes over its successor. -/
theorem Half.unlink {live live' : α → Prop} {next next' : α → Option α} {head : Option α}
    {l : List α} (h : Half live next head l) {x : α} (hx : x ∈ l) (hlive : live x)
    (hnext : ∀ y ∈ l, y ≠ x → next' y = relink next (predOf l x) (next x) y)
    (hlive' : ∀ y ∈ l, y ≠ x → live' y → live y) :
    Half live' next' (rehead head (predOf l x) (next x)) (l.erase x) := by
  have hnx := h.live_link hx hlive
  refine ⟨h.nodup.erase x, ?_, fun y hy => ?_⟩
  · rw [head?_erase h.nodup]
    cases hp : predOf l x with
    | none =>
      -- without a predecessor `x` is the head
      have hhead : l.head? = some x := by
        obtain ⟨pre, post, rfl⟩ := List.append_of_mem hx
        have hpost : x ∉ post := (List.nodup_cons.mp (List.nodup_append.mp h.nodup).2.1).1
        rw [predOf_split hpost, List.getLast?_eq_none_iff] at hp
        simp [hp]
      rw [if_pos hhead, rehead, hnx]
    | some p =>
      have hsp := (succOf_eq_some_iff h.nodup hx).mpr hp
      have hhead : l.head? ≠ some x := by
        intro hh
        obtain ⟨t, rfl⟩ : ∃ t, l = x :: t := by
          cases l with
          | nil => simp at hh
          | cons a t => exact ⟨t, by rw [Option.some.inj hh]⟩
        have hxt := (List.nodup_cons.mp h.nodup).1
        by_cases hxp : x = p
        · subst hxp
          rw [succOf_cons_self] at hsp
          exact hxt (List.mem_of_mem_head? hsp)
        · rw [succOf_cons_ne _ hxp] at hsp
          exact hxt (succOf_mem hsp)
      rw [if_neg hhead]
      exact h.head_eq
  · obtain ⟨hyx, hyl⟩ := (List.Nodup.mem_erase_iff h.nodup).mp hy
    rw [hnext y hyl hyx, succOf_erase h.nodup hyx]
    by_cases hp : predOf l x = some y
    · rw [hp, relink_self, if_pos ((succOf_eq_some_iff h.nodup hx).mpr hp)]
      exact Or.inl hnx
    · rw [relink_of_ne hp, if_neg (fun hs => hp ((succOf_eq_some_iff h.nodup hx).mp hs))]
      rcases h.link y hyl with hl | ⟨hd, hn⟩
      · exact Or.inl hl
      · exact Or.inr ⟨fun hl => hd (hlive' y hyl hyx hl), hn⟩

/-- A new first node. -/
theorem Half.cons {live live' : α → Prop} {next next' : α → Option α} {head : Option α}
    {l : List α} (h : Half live next head l) {x : α} (hx : x ∉ l) (hself : next' x = head)
    (hnext : ∀ y ∈ l, next' y = next y) (hlive' : ∀ y ∈ l, live' y → live y) :
    Half live' next' (some x) (x :: l) := by
  refine ⟨List.nodup_cons.mpr ⟨hx, h.nodup⟩, rfl, fun y hy => ?_⟩
  by_cases hyx : y = x
  · subst hyx
    exact Or.inl (by rw [hself, succOf_cons_self, h.head_eq])
  · have hyl : y ∈ l := (List.mem_cons.mp hy).resolve_left hyx
    rw [hnext y hyl, succOf_cons_ne _ (Ne.symm hyx)]
    rcases h.link y hyl with hl | ⟨hd, hn⟩
    · exact Or.inl hl
    · exact Or.inr ⟨fun hl => hd (hlive' y hyl hl), hn⟩

theorem succOf_append_singleton {l : List α} {x y : α} (hl : l.Nodup) (hy : y ∈ l) :
    succOf (l ++ [x]) y = if l.getLast? = some y then some x else succOf l y := by
  obtain ⟨pre, post, rfl⟩ := List.append_of_mem hy
  have hpre : y ∉ pre := fun h => (List.nodup_append.mp hl).2.2 y h y (by simp) rfl
  have hpost : y ∉ post := (List.nodup_cons.mp (List.nodup_append.mp hl).2.1).1
  rw [List.append_assoc, List.cons_append, succOf_split hpre, succOf_split hpre]
  cases post with
  | nil => simp
  | cons b post =>
    have hne : (pre ++ y :: b :: post).getLast? ≠ some y := by
      intro h
      rw [List.getLast?_append_of_ne_nil _ (by simp), List.getLast?_cons_cons] at h
      exact hpost (List.mem_of_getLast? h)
    rw [if_neg hne]
    rfl

/-- A new last node. -/
theorem Half.snoc {live live' : α → Prop} {next next' : α → Option α} {head : Option α}
    {l : List α} (h : Half live next head l) {x : α} (hx : x ∉ l) (hself : next' x = none)
    (hnext : ∀ y ∈ l, next' y = relink next l.getLast? (some x) y)
    (hlive' : ∀ y ∈ l, live' y → live y) :
    Half live' next' (rehead head l.getLast? (some x)) (l ++ [x]) := by
  refine ⟨List.nodup_append.mpr ⟨h.nodup, List.nodup_singleton x, ?_⟩, ?_, fun y hy => ?_⟩
  · rintro a ha b hb rfl
    exact hx ((List.mem_singleton.mp hb) ▸ ha)
  · cases l with
    | nil => rfl
    | cons a l =>
      rw [List.getLast?_cons, rehead, h.head_eq]
      rfl
  · rcases List.mem_append.mp hy with hyl | hyx
    · have hyx : y ≠ x := fun e => hx (e ▸ hyl)
      rw [hnext y hyl, succOf_append_singleton h.nodup hyl]
      by_cases hlast : l.getLast? = some y
      · rw [hlast, relink_self, if_pos rfl]
        exact Or.inl rfl
      · rw [relink_of_ne hlast, if_neg hlast]
        rcases h.link y hyl with hl | ⟨hd, hn⟩
        · exact Or.inl hl
        · exact Or.inr ⟨fun hl => hd (hlive' y hyl hl), hn⟩
    · rw [List.mem_singleton] at hyx
      subst hyx
      rw [succOf_split hx, hself]
      exact Or.inl rfl

/-- Writes that keep the links of the list, and deaths that null them. -/
theorem Half.frame {live live' : α → Prop} {next next' : α → Option α} {head : Option α}
    {l : List α} (h : Half live next head l)
    (hnext : ∀ y ∈ l, next' y = next y ∧ (live' y → live y) ∨ ¬ live' y ∧ next' y = none) :
    Half live' next' head l := by
  refine ⟨h.nodup, h.head_eq, fun y hy => ?_⟩
  rcases hnext y hy with ⟨hn, hl⟩ | hd
  · rw [hn]
    rcases h.link y hy with hk | ⟨hk, hz⟩
    · exact Or.inl hk
    · exact Or.inr ⟨fun hl' => hk (hl hl'), hz⟩
  · exact Or.inr hd

/-- A doubly linked list: `next` from `head`, `prev` from `tail`. -/
structure DList (live : α → Prop) (next prev : α → Option α) (head tail : Option α)
    (l : List α) : Prop where
  fwd : Half live next head l
  bwd : Half live prev tail l.reverse

theorem DList.empty (live : α → Prop) (next prev : α → Option α) :
    DList live next prev none none [] :=
  ⟨⟨List.nodup_nil, rfl, fun _ h => by simp at h⟩, ⟨List.nodup_nil, rfl, fun _ h => by simp at h⟩⟩

section DList
variable {live live' : α → Prop} {next next' prev prev' : α → Option α} {head tail : Option α}
  {l : List α}

theorem DList.nodup (h : DList live next prev head tail l) : l.Nodup := h.fwd.nodup

theorem DList.head_eq (h : DList live next prev head tail l) : head = l.head? := h.fwd.head_eq

/-- A list of live nodes is visited from its head. -/
theorem DList.chain (h : DList live next prev head tail l) (hl : ∀ x ∈ l, live x) :
    Chain next head l := by
  rw [h.fwd.head_eq]
  exact chain_succOf h.fwd.nodup (fun x hx => h.fwd.live_link hx (hl x hx))

theorem DList.tail_eq (h : DList live next prev head tail l) : tail = l.getLast? := by
  rw [h.bwd.head_eq, List.head?_reverse]

theorem DList.next_eq (h : DList live next prev head tail l) {x : α} (hx : x ∈ l) (hl : live x) :
    next x = succOf l x := h.fwd.live_link hx hl

theorem DList.prev_eq (h : DList live next prev head tail l) {x : α} (hx : x ∈ l) (hl : live x) :
    prev x = predOf l x := h.bwd.live_link (List.mem_reverse.mpr hx) hl

theorem predOf_reverse (l : List α) (x : α) : predOf l.reverse x = succOf l x := by
  rw [predOf, List.reverse_reverse]

/-- A live node without a predecessor is the head. -/
theorem DList.prev_eq_none_iff (h : DList live next prev head tail l) {x : α} (hx : x ∈ l)
    (hl : live x) : prev x = none ↔ head = some x := by
  rw [h.prev_eq hx hl, h.head_eq]
  have hnd := h.nodup
  obtain ⟨pre, post, rfl⟩ := List.append_of_mem hx
  have hpost : x ∉ post := (List.nodup_cons.mp (List.nodup_append.mp hnd).2.1).1
  rw [predOf_split hpost, List.getLast?_eq_none_iff]
  cases pre with
  | nil => simp
  | cons a pre =>
    refine iff_of_false (by simp) (fun h => ?_)
    have ha : a = x := by simpa using h
    subst ha
    rw [List.cons_append, List.nodup_cons] at hnd
    exact hnd.1 (by simp)

/-- **Unlinking a live node** through its own links. -/
theorem DList.unlink (h : DList live next prev head tail l) {x : α} (hx : x ∈ l) (hlive : live x)
    (hnext : ∀ y ∈ l, y ≠ x → next' y = relink next (prev x) (next x) y)
    (hprev : ∀ y ∈ l, y ≠ x → prev' y = relink prev (next x) (prev x) y)
    (hlive' : ∀ y ∈ l, y ≠ x → live' y → live y) :
    DList live' next' prev' (rehead head (prev x) (next x)) (rehead tail (next x) (prev x))
      (l.erase x) := by
  have hp := h.prev_eq hx hlive
  have hn := h.next_eq hx hlive
  constructor
  · have : Half live' next' (rehead head (predOf l x) (next x)) (l.erase x) :=
      h.fwd.unlink hx hlive (fun y hy hyx => by rw [hnext y hy hyx, hp]) hlive'
    rwa [← hp] at this
  · have hx' : x ∈ l.reverse := List.mem_reverse.mpr hx
    have : Half live' prev' (rehead tail (predOf l.reverse x) (prev x)) (l.reverse.erase x) :=
      h.bwd.unlink hx' hlive
        (fun y hy hyx => by rw [hprev y (List.mem_reverse.mp hy) hyx, predOf_reverse, hn])
        (fun y hy hyx => hlive' y (List.mem_reverse.mp hy) hyx)
    rwa [predOf_reverse, ← hn, ← reverse_erase h.nodup] at this

/-- **Pushing a node in front.** -/
theorem DList.push (h : DList live next prev head tail l) {x : α} (hx : x ∉ l)
    (hnx : next' x = head) (hpx : prev' x = none) (hnext : ∀ y ∈ l, next' y = next y)
    (hprev : ∀ y ∈ l, prev' y = relink prev head (some x) y)
    (hlive' : ∀ y ∈ l, live' y → live y) :
    DList live' next' prev' (some x) (rehead tail head (some x)) (x :: l) := by
  have hlast : l.reverse.getLast? = head := by rw [List.getLast?_reverse, h.head_eq]
  constructor
  · exact h.fwd.cons hx hnx hnext hlive'
  · have : Half live' prev' (rehead tail l.reverse.getLast? (some x)) (l.reverse ++ [x]) :=
      h.bwd.snoc (fun hm => hx (List.mem_reverse.mp hm)) hpx
        (fun y hy => by rw [hprev y (List.mem_reverse.mp hy), hlast])
        (fun y hy => hlive' y (List.mem_reverse.mp hy))
    rwa [hlast, ← List.reverse_cons] at this

/-- Writes elsewhere, and nodes cut off in place. -/
theorem DList.frame (h : DList live next prev head tail l)
    (hw : ∀ y ∈ l, next' y = next y ∧ prev' y = prev y ∧ (live' y → live y) ∨
      ¬ live' y ∧ next' y = none ∧ prev' y = none) :
    DList live' next' prev' head tail l := by
  constructor
  · refine h.fwd.frame (fun y hy => ?_)
    rcases hw y hy with ⟨hn, -, hl⟩ | ⟨hd, hn, -⟩
    · exact Or.inl ⟨hn, hl⟩
    · exact Or.inr ⟨hd, hn⟩
  · refine h.bwd.frame (fun y hy => ?_)
    rcases hw y (List.mem_reverse.mp hy) with ⟨-, hp, hl⟩ | ⟨hd, -, hp⟩
    · exact Or.inl ⟨hp, hl⟩
    · exact Or.inr ⟨hd, hp⟩

end DList

/-! ## Pointer writes seen from one node -/

theorem relink_congr {m m' : α → Option α} {y : α} (h : m y = m' y) (p v : Option α) :
    relink m p v y = relink m' p v y := by
  cases p with
  | none => exact h
  | some p =>
    by_cases hy : y = p
    · subst hy; rw [relink_self, relink_self]
    · rw [relink_of_ne (by simpa using Ne.symm hy), relink_of_ne (by simpa using Ne.symm hy), h]

theorem relink_update {m : α → Option α} {x y : α} (h : y ≠ x) (u p v : Option α) :
    relink (Function.update m x u) p v y = relink m p v y :=
  relink_congr (Function.update_of_ne h _ _) p v

theorem relink_update_of_ne {m : α → Option α} {x y : α} {p : Option α} (h : y ≠ x)
    (hp : p ≠ some y) (u v : Option α) : relink (Function.update m x u) p v y = m y := by
  rw [relink_update h, relink_of_ne hp]

theorem succOf_ne_self {l : List α} (hl : l.Nodup) (x : α) : succOf l x ≠ some x := by
  intro h
  obtain ⟨pre, post, rfl⟩ := List.append_of_mem (succOf_mem h)
  have hpre : x ∉ pre := fun h => (List.nodup_append.mp hl).2.2 x h x (by simp) rfl
  have hpost : x ∉ post := (List.nodup_cons.mp (List.nodup_append.mp hl).2.1).1
  rw [succOf_split hpre] at h
  exact hpost (List.mem_of_mem_head? h)

theorem predOf_ne_self {l : List α} (hl : l.Nodup) (x : α) : predOf l x ≠ some x :=
  succOf_ne_self (List.nodup_reverse.mpr hl) x

section Neighbours
variable {live : α → Prop} {next prev : α → Option α} {head tail : Option α} {l : List α}
  {r : α} (h : DList live next prev head tail l) (hr : r ∈ l) (hl : live r)
include h hr hl

theorem DList.prev_ne_self : prev r ≠ some r := h.prev_eq hr hl ▸ predOf_ne_self h.nodup r

theorem DList.next_ne_self : next r ≠ some r := h.next_eq hr hl ▸ succOf_ne_self h.nodup r

theorem DList.prev_mem {p : α} (hp : prev r = some p) : p ∈ l := by
  rw [h.prev_eq hr hl] at hp
  exact List.mem_reverse.mp (succOf_mem hp)

theorem DList.next_mem {n : α} (hn : next r = some n) : n ∈ l := by
  rw [h.next_eq hr hl] at hn
  exact succOf_mem hn

/-- The successor of a node is not the head. -/
theorem DList.next_ne_head {n : α} (hn : next r = some n) : head ≠ some n := by
  rw [h.next_eq hr hl] at hn
  rw [h.head_eq]
  intro hh
  obtain ⟨t, rfl⟩ : ∃ t, l = n :: t := by
    cases l with
    | nil => simp at hh
    | cons a t => exact ⟨t, by rw [Option.some.inj hh]⟩
  have hnt := (List.nodup_cons.mp h.nodup).1
  by_cases hnr : n = r
  · subst hnr
    rw [succOf_cons_self] at hn
    exact hnt (List.mem_of_mem_head? hn)
  · rw [succOf_cons_ne _ hnr] at hn
    exact hnt (succOf_mem hn)

end Neighbours

/-- **Moving a live node to the front** is unlinking it and pushing it. -/
theorem DList.moveToFront {live : α → Prop} {next prev next' prev' : α → Option α}
    {tail : Option α} {l : List α} {x p h₀ : α}
    (h : DList live next prev (some h₀) tail l) (hx : x ∈ l) (hl : live x) (hp : prev x = some p)
    (hnx : next' x = some h₀) (hpx : prev' x = none)
    (hnext : ∀ y ∈ l, y ≠ x → next' y = relink next (some p) (next x) y)
    (hprev : ∀ y ∈ l, y ≠ x →
      prev' y = relink (relink prev (next x) (some p)) (some h₀) (some x) y) :
    DList live next' prev' (some x) (rehead tail (next x) (some p)) (x :: l.erase x) := by
  have hu : DList live (relink next (some p) (next x)) (relink prev (next x) (some p)) (some h₀)
      (rehead tail (next x) (some p)) (l.erase x) := by
    have : DList live (relink next (some p) (next x)) (relink prev (next x) (some p))
        (rehead (some h₀) (prev x) (next x)) (rehead tail (next x) (prev x)) (l.erase x) :=
      h.unlink hx hl (fun y _ _ => by rw [hp]) (fun y _ _ => by rw [hp]) (fun _ _ _ h => h)
    rwa [hp] at this
  have hmem : ∀ y ∈ l.erase x, y ∈ l ∧ y ≠ x := fun y hy =>
    ⟨List.mem_of_mem_erase hy, ((List.Nodup.mem_erase_iff h.nodup).mp hy).1⟩
  exact hu.push h.nodup.not_mem_erase hnx hpx (fun y hy => hnext y (hmem y hy).1 (hmem y hy).2)
    (fun y hy => hprev y (hmem y hy).1 (hmem y hy).2) (fun _ _ h => h)

end BaseService.Links
