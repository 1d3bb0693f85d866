import BaseService.Data.Runs

/-!
# A cache in two segments

A new entry goes to the front of the first segment. An entry that is used again goes to the front of the
second one, unless the cache takes it for one that has just been used. When the cache is full, the last
entry of the first segment has to go if that has its half of the capacity, and else the last of the second.

* `Segments`, `Step` : the cache and its calls;
* `Fits`, `step_fits` : each key has one entry, and there are no more than the capacity allows;
* `Scan`, `scan_twice` : calls that use nothing again leave the second segment, if it is not too long;
* `Ahead`, `ahead_run` : what can come ahead of an entry, and what keeps it.
-/

namespace BaseService

structure Segments (K V : Type) where
  once : List (K × V)
  twice : List (K × V)

namespace Segments
variable {K V : Type}

def empty : Segments K V := ⟨[], []⟩

def entries (a : Segments K V) : List (K × V) := a.once ++ a.twice

def size (a : Segments K V) : Nat := a.once.length + a.twice.length

/-- The entry that has to go next. -/
def victim (half : Int) (a : Segments K V) : Option (K × V) :=
  ((if half ≤ a.once.length then a.once.getLast? else none).or a.twice.getLast?).or a.once.getLast?

def insert (a : Segments K V) (k : K) (v : V) : Segments K V := ⟨(k, v) :: a.once, a.twice⟩

variable [DecidableEq K]

/-- The first entry of a key. -/
def find (a : Segments K V) (k : K) : Option (K × V) := a.entries.find? fun p => p.1 = k

def lookup (a : Segments K V) (k : K) : Option V := (a.find k).map Prod.snd

/-- A segment without a key. -/
def without (l : List (K × V)) (k : K) : List (K × V) := l.filter fun p => p.1 ≠ k

def erase (a : Segments K V) (k : K) : Segments K V := ⟨without a.once k, without a.twice k⟩

/-- An entry is used again. -/
def hit (a : Segments K V) (p : K × V) : Segments K V := ⟨without a.once p.1, p :: without a.twice p.1⟩

/-- A segment with a new value for a key. -/
def assign (l : List (K × V)) (k : K) (v : V) : List (K × V) :=
  l.map fun p => if p.1 = k then (k, v) else p

def store (a : Segments K V) (k : K) (v : V) : Segments K V := ⟨assign a.once k v, assign a.twice k v⟩

/-- The victim goes, if there is one. -/
def evict (half : Int) (a : Segments K V) : Segments K V :=
  match a.victim half with
  | none => a
  | some p => a.erase p.1

/-- Room for a new entry. -/
def room (capacity half : Int) (a : Segments K V) : Segments K V :=
  if capacity ≤ a.size then a.evict half else a

inductive Call (K V : Type)
  | get (k : K)
  | put (k : K) (v : V)
  | remove (k : K)
  | clear

def Call.key? : Call K V → Option K
  | get k | put k _ | remove k => some k
  | clear => none

def Call.isPut : Call K V → Bool
  | put .. => true
  | _ => false

/-- The entry stays where it is, or is used again. -/
def Used (a : Segments K V) (p : K × V) (a' : Segments K V) : Prop := a' = a ∨ a' = a.hit p

/-- A call with its answer; a `put` answers the value that is replaced. -/
inductive Step [DecidableEq V] (capacity half : Int) :
    Segments K V → Call K V × Option V → Segments K V → Prop
  | miss {a : Segments K V} {k : K} : a.find k = none → Step capacity half a (.get k, none) a
  | get {a a' : Segments K V} {k : K} {p : K × V} :
    a.find k = some p → Used a p a' → Step capacity half a (.get k, some p.2) a'
  | insert {a : Segments K V} {k : K} {v : V} :
    (a.room capacity half).find k = none →
      Step capacity half a (.put k v, none) ((a.room capacity half).insert k v)
  | put {a a' : Segments K V} {k : K} {v : V} {p : K × V} :
    (a.room capacity half).find k = some p → Used (a.room capacity half) p a' →
      Step capacity half a (.put k v, if v = p.2 then none else some p.2) (a'.store k v)
  | remove {a : Segments K V} {k : K} :
    Step capacity half a (.remove k, a.lookup k) (a.erase k)
  | clear {a : Segments K V} : Step capacity half a (.clear, none) .empty

/-! ## Keys -/

/-- Each key has one entry. -/
def Distinct (a : Segments K V) : Prop := (a.entries.map Prod.fst).Nodup

section
variable {a a' : Segments K V} {k k' : K} {v : V} {p : K × V} {l : List (K × V)}

theorem keys_assign : (assign l k v).map Prod.fst = l.map Prod.fst := by
  rw [assign, List.map_map]
  refine List.map_congr_left fun p _ => ?_
  simp only [Function.comp_apply]
  split
  · next hk => exact hk.symm
  · rfl

theorem without_of_forall (h : ∀ p ∈ l, p.1 ≠ k) : without l k = l :=
  List.filter_eq_self.2 fun p hp => by simpa using h p hp

theorem find_some (h : a.find k = some p) : p ∈ a.entries ∧ p.1 = k :=
  ⟨List.mem_of_find?_eq_some h, by simpa using List.find?_some h⟩

theorem find_none : a.find k = none ↔ ∀ p ∈ a.entries, p.1 ≠ k := by
  rw [find, List.find?_eq_none]
  simp

omit [DecidableEq K] in
theorem entry_unique {l : List (K × V)} (h : (l.map Prod.fst).Nodup) {p q : K × V} (hp : p ∈ l)
    (hq : q ∈ l) (he : p.1 = q.1) : p = q :=
  List.inj_on_of_nodup_map h hp hq he

theorem Distinct.find_eq (h : Distinct a) (hp : p ∈ a.entries) : a.find p.1 = some p := by
  cases hfind : a.find p.1 with
  | none => exact absurd rfl (find_none.1 hfind p hp)
  | some q =>
    obtain ⟨hq, he⟩ := find_some hfind
    rw [entry_unique h hq hp he]

theorem Distinct.lookup_eq_some (h : Distinct a) : a.lookup k = some v ↔ (k, v) ∈ a.entries := by
  constructor
  · intro hlookup
    obtain ⟨p, hfind, rfl⟩ := Option.map_eq_some_iff.1 hlookup
    obtain ⟨hp, rfl⟩ := find_some hfind
    exact hp
  · intro hp
    rw [lookup, h.find_eq hp]
    rfl

omit [DecidableEq K] in
theorem Distinct.once (h : Distinct a) : (a.once.map Prod.fst).Nodup := by
  rw [Distinct, entries, List.map_append] at h
  exact h.of_append_left

omit [DecidableEq K] in
/-- No key is in both segments. -/
theorem Distinct.disjoint (h : Distinct a) {q : K × V} (hp : p ∈ a.once) (hq : q ∈ a.twice) :
    p.1 ≠ q.1 := by
  rw [Distinct, entries, List.map_append, List.nodup_append] at h
  exact h.2.2 _ (List.mem_map_of_mem hp) _ (List.mem_map_of_mem hq)

omit [DecidableEq K] in
theorem victim_mem {half : Int} (h : a.victim half = some p) :
    p ∈ a.once ∧ a.once.getLast? = some p ∨ p ∈ a.twice := by
  rw [victim, Option.or_eq_some_iff, Option.or_eq_some_iff] at h
  rcases h with (h | ⟨-, h⟩) | ⟨-, h⟩
  · split at h
    · exact .inl ⟨List.mem_of_getLast? h, h⟩
    · cases h
  · exact .inr (List.mem_of_getLast? h)
  · exact .inl ⟨List.mem_of_getLast? h, h⟩

/-! ## What fits -/

/-- Each key has one entry, and there are no more than the capacity allows. -/
structure Fits (capacity : Int) (a : Segments K V) : Prop where
  distinct : Distinct a
  size : (a.size : Int) ≤ max 1 capacity

theorem without_sublist : (without l k).Sublist l := List.filter_sublist

theorem without_perm (h : (l.map Prod.fst).Nodup) (hp : p ∈ l) : (p :: without l p.1).Perm l := by
  obtain ⟨l₁, l₂, rfl⟩ := List.append_of_mem hp
  rw [List.map_append, List.map_cons, List.nodup_middle, List.nodup_cons, List.mem_append] at h
  have hleft : without l₁ p.1 = l₁ := without_of_forall fun q hq he =>
    h.1 (.inl (he ▸ List.mem_map_of_mem hq))
  have hright : without l₂ p.1 = l₂ := without_of_forall fun q hq he =>
    h.1 (.inr (he ▸ List.mem_map_of_mem hq))
  have hwithout : without (l₁ ++ p :: l₂) p.1 = without l₁ p.1 ++ without l₂ p.1 := by
    simp [without]
  rw [hwithout, hleft, hright]
  exact List.perm_middle.symm

theorem erase_sublist (a : Segments K V) (k : K) : (a.erase k).entries.Sublist a.entries :=
  without_sublist.append without_sublist

theorem Distinct.erase (h : Distinct a) (k : K) : Distinct (a.erase k) :=
  h.sublist ((erase_sublist a k).map Prod.fst)

omit [DecidableEq K] in
theorem size_eq (a : Segments K V) : a.size = a.entries.length := List.length_append.symm

/-- The entries after a hit. -/
theorem Distinct.hit_perm (h : Distinct a) (hp : p ∈ a.entries) : (a.hit p).entries.Perm a.entries := by
  have happend : without a.entries p.1 = without a.once p.1 ++ without a.twice p.1 :=
    List.filter_append ..
  have hwithout : (a.hit p).entries.Perm (p :: without a.entries p.1) := by
    rw [happend]
    exact List.perm_middle
  exact hwithout.trans (without_perm h hp)

theorem Distinct.hit (h : Distinct a) (hp : p ∈ a.entries) : Distinct (a.hit p) :=
  ((h.hit_perm hp).map Prod.fst).nodup_iff.2 h

theorem Used.perm (hused : Used a p a') (h : Distinct a) (hp : p ∈ a.entries) :
    a'.entries.Perm a.entries := by
  rcases hused with rfl | rfl
  · exact List.Perm.refl _
  · exact h.hit_perm hp

omit [DecidableEq K] in
theorem Fits.perm {capacity : Int} (h : Fits capacity a) (hperm : a'.entries.Perm a.entries) :
    Fits capacity a' where
  distinct := (hperm.map Prod.fst).nodup_iff.2 h.distinct
  size := by
    rw [size_eq, hperm.length_eq, ← size_eq]
    exact h.size

omit [DecidableEq K] in
theorem Fits.sublist {capacity : Int} (h : Fits capacity a) (hsub : a'.entries.Sublist a.entries) :
    Fits capacity a' where
  distinct := h.distinct.sublist (hsub.map Prod.fst)
  size := by
    have hle := hsub.length_le
    have hsize := h.size
    rw [size_eq] at hsize ⊢
    omega

theorem store_keys : (a.store k v).entries.map Prod.fst = a.entries.map Prod.fst := by
  simp only [store, entries, List.map_append, keys_assign]

theorem Fits.store {capacity : Int} (h : Fits capacity a) (k : K) (v : V) :
    Fits capacity (a.store k v) where
  distinct := by
    rw [Distinct, store_keys]
    exact h.distinct
  size := by
    have hlength := congrArg List.length (store_keys (a := a) (k := k) (v := v))
    rw [List.length_map, List.length_map] at hlength
    rw [size_eq, hlength, ← size_eq]
    exact h.size

theorem evict_sublist (half : Int) (a : Segments K V) : (a.evict half).entries.Sublist a.entries := by
  unfold evict
  split
  · exact List.Sublist.refl _
  · exact erase_sublist _ _

omit [DecidableEq K] in
theorem victim_none {half : Int} (h : a.victim half = none) : a.size = 0 := by
  rw [victim, Option.or_eq_none_iff, Option.or_eq_none_iff, List.getLast?_eq_none_iff,
    List.getLast?_eq_none_iff] at h
  rw [size, h.1.2, h.2]
  rfl

omit [DecidableEq K] in
theorem victim_empty (half : Int) (h : a.size = 0) : a.victim half = none := by
  rw [size, Nat.add_eq_zero_iff, List.length_eq_zero_iff, List.length_eq_zero_iff] at h
  rw [victim, h.1, h.2]
  split <;> rfl

theorem evict_empty (half : Int) (h : a.size = 0) : a.evict half = a := by
  rw [evict, victim_empty half h]

theorem Distinct.evict_size (h : Distinct a) (hsize : a.size ≠ 0) (half : Int) :
    (a.evict half).size + 1 = a.size := by
  unfold evict
  split
  · next hvictim => exact absurd (victim_none hvictim) hsize
  · next p hvictim =>
    have hp : p ∈ a.entries := by
      rcases victim_mem hvictim with ⟨hp, -⟩ | hp
      · exact List.mem_append_left _ hp
      · exact List.mem_append_right _ hp
    have hlength := (without_perm h hp).length_eq
    have hentries : (a.erase p.1).entries = without a.entries p.1 := by
      rw [Segments.erase, entries, entries, without, without, without, List.filter_append]
    rw [List.length_cons] at hlength
    rw [size_eq, size_eq, hentries, hlength]

theorem room_sublist {capacity half : Int} (a : Segments K V) :
    (a.room capacity half).entries.Sublist a.entries := by
  unfold room
  split
  · exact evict_sublist half a
  · exact List.Sublist.refl _

/-- There is room. -/
theorem Fits.room_size {capacity : Int} (h : Fits capacity a) (half : Int) :
    ((a.room capacity half).size : Int) + 1 ≤ max 1 capacity := by
  have hsize := h.size
  unfold room
  split
  · by_cases hzero : a.size = 0
    · have hle := (evict_sublist half a).length_le
      rw [← size_eq, ← size_eq] at hle
      omega
    · have hevict := h.distinct.evict_size hzero half
      omega
  · omega

theorem Fits.room {capacity half : Int} (h : Fits capacity a) : Fits capacity (a.room capacity half) :=
  h.sublist (room_sublist a)

theorem Fits.insert {capacity half : Int} (h : Fits capacity a)
    (hnone : (a.room capacity half).find k = none) (v : V) :
    Fits capacity ((a.room capacity half).insert k v) where
  distinct := by
    rw [Distinct, Segments.insert, entries, List.cons_append, List.map_cons, List.nodup_cons]
    refine ⟨fun hk => ?_, h.room.distinct⟩
    obtain ⟨p, hp, he⟩ := List.mem_map.1 hk
    exact find_none.1 hnone p hp he
  size := by
    have hroom : (((a.room capacity half).once.length + (a.room capacity half).twice.length : Nat) : Int) +
        1 ≤ max 1 capacity := h.room_size half
    show (((a.room capacity half).once.length + 1 + (a.room capacity half).twice.length : Nat) : Int) ≤ _
    omega

omit [DecidableEq K] in
theorem fits_empty (capacity : Int) : Fits capacity (empty : Segments K V) where
  distinct := List.nodup_nil
  size := by
    show (0 : Int) ≤ _
    omega

/-- **One call.** -/
theorem step_fits [DecidableEq V] {capacity half : Int} {l : Call K V × Option V} (h : Fits capacity a)
    (hs : Step capacity half a l a') : Fits capacity a' := by
  cases hs with
  | miss => exact h
  | get hfind hused => exact h.perm (hused.perm h.distinct (find_some hfind).1)
  | insert hnone => exact h.insert hnone _
  | put hfind hused =>
    exact (h.room.perm (hused.perm h.room.distinct (find_some hfind).1)).store _ _
  | remove => exact h.sublist (erase_sublist _ _)
  | clear => exact fits_empty capacity

/-! ## Calls that use nothing again -/

/-- Only entries of the second segment are used again, and none of them is removed. -/
def Scan (a : Segments K V) : Call K V → Prop
  | .get k => ∀ p ∈ a.once, p.1 ≠ k
  | .put k _ => a.find k = none
  | .remove k => ∀ p ∈ a.twice, p.1 ≠ k
  | .clear => False

/-- The victim is in the first segment. -/
theorem evict_twice {capacity half : Int} (h : Fits capacity a) (hhalf : 0 < half)
    (hroom : (a.twice.length : Int) + half ≤ capacity) (hfull : capacity ≤ a.size) :
    (a.evict half).twice = a.twice := by
  have hlength : half ≤ a.once.length := by
    rw [size] at hfull
    omega
  obtain ⟨p, hlast⟩ : ∃ p, a.once.getLast? = some p := by
    cases hlast : a.once.getLast? with
    | some p => exact ⟨p, rfl⟩
    | none =>
      rw [List.getLast?_eq_none_iff.1 hlast, List.length_nil] at hlength
      omega
  have hvictim : a.victim half = some p := by
    rw [victim, if_pos hlength, hlast]
    rfl
  unfold evict
  rw [hvictim]
  exact without_of_forall fun q hq he => h.distinct.disjoint (List.mem_of_getLast? hlast) hq he.symm

/-- **A call that uses nothing again** leaves the second segment. -/
theorem scan_step [DecidableEq V] {capacity half : Int} {l : Call K V × Option V} (h : Fits capacity a)
    (hhalf : 0 < half) (hroom : (a.twice.length : Int) + half ≤ capacity) (hscan : Scan a l.1)
    (hs : Step capacity half a l a') : a'.twice.Perm a.twice := by
  have htwice : (a.room capacity half).twice = a.twice := by
    unfold room
    split
    · next hfull => exact evict_twice h hhalf hroom hfull
    · rfl
  cases hs with
  | miss => exact List.Perm.refl _
  | get hfind hused =>
    obtain ⟨hp, rfl⟩ := find_some hfind
    rcases hused with rfl | rfl
    · exact List.Perm.refl _
    · rcases List.mem_append.1 hp with honce | hp
      · exact absurd rfl (hscan _ honce)
      · have hnodup := h.distinct
        rw [Distinct, entries, List.map_append] at hnodup
        exact without_perm hnodup.of_append_right hp
  | insert => exact List.Perm.of_eq htwice
  | put hfind =>
    obtain ⟨hp, rfl⟩ := find_some hfind
    exact absurd rfl (find_none.1 hscan _ ((room_sublist a).subset hp))
  | remove => exact List.Perm.of_eq (without_of_forall hscan)
  | clear => exact hscan.elim

/-- **A scan leaves the second segment**, if that has no more than what the first one leaves to it. -/
theorem scan_twice [DecidableEq V] {capacity half : Int} {ls : List (Call K V × Option V)}
    (h : Fits capacity a) (hhalf : 0 < half) (hroom : (a.twice.length : Int) + half ≤ capacity)
    (hrun : Run (fun a l a' => Step capacity half a l a' ∧ Scan a l.1) a ls a') :
    a'.twice.Perm a.twice := by
  have hkept : Fits capacity a' ∧ a'.twice.Perm a.twice := by
    refine hrun.invariant (I := fun b => Fits capacity b ∧ b.twice.Perm a.twice)
      ⟨h, List.Perm.refl _⟩ ?_
    rintro b l b' ⟨hb, hperm⟩ ⟨hs, hscan⟩
    have hlength := hperm.length_eq
    exact ⟨step_fits hb hs, (scan_step hb hhalf (by omega) hscan hs).trans hperm⟩
  exact hkept.2

/-! ## What comes ahead of an entry -/

/-- In the first segment, at most `n` entries are ahead of that. -/
def Ahead (k : K) (v : V) (n : Nat) (a : Segments K V) : Prop :=
  ∃ pre post, a.once = pre ++ (k, v) :: post ∧ pre.length ≤ n

/-- Another key is taken out. -/
theorem Ahead.without {n : Nat} (h : Ahead k v n a) (hk : k ≠ k') :
    ∃ pre post, without a.once k' = pre ++ (k, v) :: post ∧ pre.length ≤ n := by
  obtain ⟨pre, post, hlist, hn⟩ := h
  refine ⟨Segments.without pre k', Segments.without post k', ?_,
    without_sublist.length_le.trans hn⟩
  rw [hlist]
  simp [Segments.without, hk]

theorem Ahead.used {n : Nat} (h : Ahead k v n a) (hk : k ≠ p.1) (hused : Used a p a') :
    Ahead k v n a' := by
  rcases hused with rfl | rfl
  · exact h
  · exact h.without hk

theorem Ahead.store {n : Nat} (h : Ahead k v n a) (hk : k ≠ k') (v' : V) :
    Ahead k v n (a.store k' v') := by
  obtain ⟨pre, post, hlist, hn⟩ := h
  refine ⟨assign pre k' v', assign post k' v', ?_, ?_⟩
  · rw [Segments.store, hlist]
    simp [assign, hk]
  · rwa [assign, List.length_map]

/-- While less than its half comes before the entry, it is not the victim. -/
theorem Ahead.room {n : Nat} {capacity half : Int} (h : Ahead k v n a) (hfits : Fits capacity a)
    (hn : (n : Int) + 1 < half) (hhalf : half ≤ capacity) : Ahead k v n (a.room capacity half) := by
  unfold Segments.room
  split
  swap
  · exact h
  next hfull =>
  unfold evict
  split
  · exact h
  next p hvictim =>
  refine h.without fun he => ?_
  obtain ⟨pre, post, hlist, hpre⟩ := h
  have hmem : (k, v) ∈ a.once := hlist ▸ List.mem_append_right _ (List.mem_cons_self ..)
  rcases victim_mem hvictim with ⟨hp, hlast⟩ | hp
  · -- the entry is the last of its segment
    obtain rfl := entry_unique hfits.distinct.once hp hmem he.symm
    have hpost : post = [] := by
      cases post with
      | nil => rfl
      | cons q post =>
        rw [hlist, List.getLast?_append, List.getLast?_cons_cons] at hlast
        have hq : (k, v) ∈ q :: post := by
          rw [Option.or_eq_some_iff] at hlast
          rcases hlast with hlast | ⟨hnone, -⟩
          · exact List.mem_of_getLast? hlast
          · cases List.getLast?_eq_none_iff.1 hnone
        have hnodup := hfits.distinct.once
        rw [hlist, List.map_append, List.map_cons] at hnodup
        exact absurd (List.mem_map_of_mem hq) (List.nodup_cons.1 hnodup.of_append_right).1
    have hlength : a.once.length = pre.length + 1 := by
      rw [hlist, hpost, List.length_append]
      rfl
    rw [victim, if_neg (by omega), Option.or_eq_some_iff, Option.or_eq_some_iff] at hvictim
    rcases hvictim with (hnone | ⟨-, htwice⟩) | ⟨hnone, -⟩
    · cases hnone
    · exact hfits.distinct.disjoint hmem (List.mem_of_getLast? htwice) rfl
    · rw [Option.or_eq_none_iff, List.getLast?_eq_none_iff] at hnone
      rw [size, hnone.2, List.length_nil] at hfull
      omega
  · exact hfits.distinct.disjoint hmem hp he

/-- **A call for another key.** -/
theorem ahead_step [DecidableEq V] {n : Nat} {capacity half : Int} {l : Call K V × Option V}
    (hfits : Fits capacity a) (h : Ahead k v n a) (hhalf : half ≤ capacity)
    (hother : l.1.key? ≠ some k) (hclear : l.1 ≠ .clear) (hn : l.1.isPut → (n : Int) + 1 < half)
    (hs : Step capacity half a l a') : Ahead k v (n + if l.1.isPut then 1 else 0) a' := by
  have hne {k' : K} (hkey : l.1.key? = some k') : k ≠ k' := fun he => hother (he ▸ hkey)
  cases hs with
  | miss => exact h
  | get hfind hused =>
    obtain ⟨-, rfl⟩ := find_some hfind
    exact h.used (hne rfl) hused
  | @insert k' v' =>
    obtain ⟨pre, post, hlist, hpre⟩ := h.room hfits (hn rfl) hhalf
    refine ⟨(k', v') :: pre, post, ?_, Nat.succ_le_succ hpre⟩
    rw [Segments.insert, hlist]
    rfl
  | put hfind hused =>
    obtain ⟨-, rfl⟩ := find_some hfind
    obtain ⟨pre, post, hlist, hpre⟩ :=
      ((h.room hfits (hn rfl) hhalf).used (hne rfl) hused).store (hne rfl) _
    exact ⟨pre, post, hlist, Nat.le_succ_of_le hpre⟩
  | remove => exact h.without (hne rfl)
  | clear => exact absurd rfl hclear

/-- **Calls for other keys**: each `put` brings at most one entry ahead, and with fewer than the half of
the capacity the entry stays. -/
theorem ahead_run [DecidableEq V] {n : Nat} {capacity half : Int} {ls : List (Call K V × Option V)}
    (hfits : Fits capacity a) (h : Ahead k v n a) (hhalf : half ≤ capacity)
    (hothers : ∀ l ∈ ls, l.1.key? ≠ some k ∧ l.1 ≠ .clear)
    (hn : (n + ls.countP fun l => l.1.isPut : Nat) < half)
    (hrun : Run (Step capacity half) a ls a') :
    Ahead k v (n + ls.countP fun l => l.1.isPut) a' := by
  have hkept : Fits capacity a' ∧ ((∀ l ∈ ls, l.1.key? ≠ some k ∧ l.1 ≠ .clear) →
      (n + ls.countP fun l => l.1.isPut : Nat) < half →
        Ahead k v (n + ls.countP fun l => l.1.isPut) a') := by
    refine hrun.history (I := fun ls b => Fits capacity b ∧
      ((∀ l ∈ ls, l.1.key? ≠ some k ∧ l.1 ≠ .clear) →
        (n + ls.countP fun l => l.1.isPut : Nat) < half →
          Ahead k v (n + ls.countP fun l => l.1.isPut) b)) ⟨hfits, fun _ _ => h⟩ ?_
    rintro ls b l b' ⟨hb, hahead⟩ hs
    refine ⟨step_fits hb hs, fun hothers hn => ?_⟩
    obtain ⟨hbefore, hlast⟩ := List.forall_mem_append.1 hothers
    obtain ⟨hother, hclear⟩ := hlast l (List.mem_singleton_self _)
    rw [List.countP_append, List.countP_singleton, ← Nat.add_assoc] at hn ⊢
    refine ahead_step hb (hahead hbefore (by omega)) hhalf hother hclear (fun hput => ?_) hs
    rw [hput, if_pos rfl] at hn
    omega
  exact hkept.2 hothers hn

end

end Segments

end BaseService
