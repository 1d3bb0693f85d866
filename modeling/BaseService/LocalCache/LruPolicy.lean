import BaseService.LocalCache.LruSegments

/-!
# What `LruCache` keeps

* `call`, `Overflows` : the calls, and those that hit an item with as many hits as an `int` can hold;
* `Does`, `segments_run` : every run without such a call is one of the segments, with the same answers;
* `scan_resistant` : keys that are read once do not drive out those that have been read again;
* `survives` : what a `put` has stored outlives the other `put`s of half a capacity.
-/

namespace BaseService.LocalCache
open Segments (Call)

namespace LruCache
variable {K V : Type} [DecidableEq K] [HashCode K] [DecidableEq V]

/-- A call with its answer; `clear` has none. -/
def call (s : LruCache K V) : Call K V → Option (LruCache K V × Option V)
  | .get k => s.get k
  | .put k v => s.put k v
  | .remove k => s.remove k
  | .clear => s.clear.map fun s => (s, none)

/-- The call counts a hit of an item that has had `2 ^ 31 - 1`; a `put` makes room first. -/
def Overflows (s : LruCache K V) : Call K V → Prop
  | .get k => s.HitsAt k (2 ^ 31 - 1)
  | .put k _ => ∃ s₁, s.removeLru = some s₁ ∧ s₁.HitsAt k (2 ^ 31 - 1)
  | .remove _ | .clear => False

def Does (s : LruCache K V) (l : Call K V × Option V) (s' : LruCache K V) : Prop :=
  s.call l.1 = some (s', l.2) ∧ ¬ s.Overflows l.1

/-- The segments hold these entries, and no hit count has overflowed. -/
abbrev Divided (s : LruCache K V) (capacity : Int) (a : Segments K V) : Prop :=
  s.Segmented false capacity (2 ^ 31 - 1) a

variable {s s' s₀ : LruCache K V} {capacity : Int} {a : Segments K V} {k : K} {v : V}

/-- **One call** completes, and is one of the segments. -/
theorem call_segmented (h : s.Divided capacity a) (c : Call K V) (hc : ¬ s.Overflows c) :
    ∃ s' o a', s.call c = some (s', o) ∧ Segments.Step capacity (capacity.tdiv 2) a (c, o) a' ∧
      s'.Divided capacity a' := by
  cases c with
  | get k =>
    obtain ⟨s', a', hrun, hstep, hseg⟩ := get_segmented h (by decide) hc
    exact ⟨s', _, a', hrun, hstep, hseg⟩
  | put k v =>
    exact put_segmented h (by decide) (by decide) (fun s₁ hrun hhits => hc ⟨s₁, hrun, hhits⟩) v
  | remove k =>
    obtain ⟨s', hrun, hseg⟩ := remove_segmented h k
    refine ⟨s', _, _, hrun, ?_, hseg⟩
    rw [← h.lookup_eq]
    exact .remove
  | clear =>
    obtain ⟨s', hrun, hseg⟩ := clear_segmented h
    refine ⟨s', none, _, ?_, .clear, hseg⟩
    rw [call, hrun]
    rfl

theorem does_segmented {l : Call K V × Option V} (h : s.Divided capacity a) (hs : s.Does l s') :
    ∃ a', Segments.Step capacity (capacity.tdiv 2) a l a' ∧ s'.Divided capacity a' := by
  obtain ⟨s'', o, a', hrun, hstep, hseg⟩ := call_segmented h l.1 hs.2
  cases hs.1.symm.trans hrun
  exact ⟨a', hstep, hseg⟩

/-- **A run** is one of the segments. -/
theorem does_run {ls : List (Call K V × Option V)} (h : s.Divided capacity a)
    (hrun : Run Does s ls s') :
    ∃ a', Run (Segments.Step capacity (capacity.tdiv 2)) a ls a' ∧ s'.Divided capacity a' := by
  refine hrun.history (I := fun ls s' => ∃ a', Run (Segments.Step capacity (capacity.tdiv 2)) a ls a' ∧
    s'.Divided capacity a') ⟨a, .nil, h⟩ ?_
  rintro ls s l s' ⟨a', hrun, hseg⟩ hs
  obtain ⟨a'', hstep, hseg'⟩ := does_segmented hseg hs
  exact ⟨a'', hrun.snoc hstep, hseg'⟩

omit [DecidableEq K] [DecidableEq V] in
theorem start_segmented (hcap : capacity < 2 ^ 31) {isStatistics : Bool}
    (hnew : new capacity isStatistics = some s₀) : s₀.Divided capacity .empty := by
  have h := new_segmented hcap hnew
  obtain ⟨chains, l₁, l₂, ht, hc, hlists⟩ := h.layout
  exact ⟨⟨chains, l₁, l₂, ht, hc.mono (Nat.zero_le _), hlists⟩, h.isLruTailRemove, h.capacity_eq,
    h.capacity1_eq⟩

/-- **`LruCache` is a cache in two segments**: as long as no hit count overflows, its calls complete, and
what they answer and evict is what the segments do. -/
theorem segments_run (hcap : capacity < 2 ^ 31) {isStatistics : Bool}
    (hnew : new capacity isStatistics = some s₀) {ls : List (Call K V × Option V)}
    (hrun : Run Does s₀ ls s) :
    ∃ a, Run (Segments.Step capacity (capacity.tdiv 2)) .empty ls a ∧ (∀ k, s.lookup k = a.lookup k) ∧
      s.size1 = a.once.length ∧ s.size2 = a.twice.length ∧
      ∀ c, ¬ s.Overflows c → ∃ s' o a', s.call c = some (s', o) ∧
        Segments.Step capacity (capacity.tdiv 2) a (c, o) a' ∧ ∀ k, s'.lookup k = a'.lookup k := by
  obtain ⟨a, hsegments, hseg⟩ := does_run (start_segmented hcap hnew) hrun
  obtain ⟨chains, l₁, l₂, -, hc, h₁, h₂⟩ := hseg.layout
  refine ⟨a, hsegments, fun k => (hseg.lookup_eq k).symm, ?_, ?_, fun c hcall => ?_⟩
  · rw [hc.lists.size₁, h₁.length]
  · rw [hc.lists.size₂, h₂.length]
  · obtain ⟨s', o, a', hs, hstep, hseg'⟩ := call_segmented hseg c hcall
    exact ⟨s', o, a', hs, hstep, fun k => (hseg'.lookup_eq k).symm⟩

/-! ### A cache for four keys -/

namespace Four

/-- `a` is put in and read. -/
def start : LruCache String Nat := (new 4 false).get rfl
def put : LruCache String Nat := ((start.put "a" 1).get rfl).1
def read : LruCache String Nat := ((put.get "a").get rfl).1

omit [DecidableEq V] in
theorem not_hitsAt {s : LruCache K V} {r : Ref} {n : Nat}
    (hfind : s.findItem k s.allocated (s.entries (s.bucket k)) = some (some r)) (hn : s.hitCount r ≠ n) :
    ¬ s.HitsAt k n := by
  rintro ⟨r', hfind', -, hhits⟩
  obtain rfl := Option.some.inj (Option.some.inj (hfind.symm.trans hfind'))
  exact hn hhits

/-- A new key is not hit. -/
theorem does_put {s s' : LruCache String Nat} {k : String} {v : Nat} (hput : s.put k v = some (s', none))
    (hroom : s.removeLru = some s)
    (hnone : s.findItem k s.allocated (s.entries (s.bucket k)) = some none) : s.Does (.put k v, none) s' := by
  refine ⟨hput, ?_⟩
  rintro ⟨s₁, hrun, r, hfind, -⟩
  obtain rfl := Option.some.inj (hroom.symm.trans hrun)
  cases hnone.symm.trans hfind

theorem does_start : start.Does (.put "a" 1, none) put := does_put rfl rfl rfl

theorem does_read : put.Does (.get "a", some 1) read := ⟨rfl, not_hitsAt rfl (by decide)⟩

end Four

theorem segments_run_four :
    ∃ a, Run (Segments.Step 4 (Int.tdiv 4 2)) .empty [(.put "a" 1, none), (.get "a", some 1)] a ∧
      (∀ k, Four.read.lookup k = a.lookup k) ∧ Four.read.size1 = a.once.length ∧
      Four.read.size2 = a.twice.length ∧
      ∀ c, ¬ Four.read.Overflows c → ∃ s' o a', Four.read.call c = some (s', o) ∧
        Segments.Step 4 (Int.tdiv 4 2) a (c, o) a' ∧ ∀ k, s'.lookup k = a'.lookup k :=
  have hcap : (4 : Int) < 2 ^ 31 := by decide
  segments_run hcap rfl ((Run.single Four.does_start).snoc Four.does_read)

/-! ## Scans -/

/-- The key has been read again since it was put in. -/
def ReadAgain (s : LruCache K V) (k : K) : Prop :=
  ∃ r, s.findItem k s.allocated (s.entries (s.bucket k)) = some (some r) ∧ s.hitCount r ≠ 1

/-- The call puts in a new key, or only reads keys that have been read again. -/
def Scans (s : LruCache K V) : Call K V → Prop
  | .get k => s.lookup k = none ∨ s.ReadAgain k
  | .put k _ => s.lookup k = none
  | .remove k => ¬ s.ReadAgain k
  | .clear => False

omit [DecidableEq V] in
theorem Segmented.readAgain_iff {n : Nat} (h : s.Segmented false capacity n a) :
    s.ReadAgain k ↔ ∃ p ∈ a.twice, p.1 = k := by
  obtain ⟨chains, l₁, l₂, ht, hc, h₁, h₂⟩ := h.layout
  constructor
  · rintro ⟨r, hfind, hhits⟩
    have hres := ht.resident_of_findItem hfind
    have hk : s.key r = some k := by
      rw [ht.findItem_eq, Option.some.injEq] at hfind
      simpa using List.find?_some hfind
    obtain ⟨p, hp⟩ := Option.ne_none_iff_exists'.1 (ht.entry_ne_none hres)
    obtain ⟨hkey, -⟩ := entry_eq_some.1 hp
    rw [hk, Option.some.injEq] at hkey
    exact ⟨p, h₂.mem.2 ⟨r, hc.lists.mem₂ hres hhits, hp⟩, hkey.symm⟩
  · rintro ⟨p, hp, rfl⟩
    obtain ⟨r, hr, hp⟩ := h₂.mem.1 hp
    obtain ⟨hk, hv⟩ := entry_eq_some.1 hp
    have hres := hc.listed r hr
    obtain ⟨i, hi⟩ := hres
    have hlookup := ht.lookup_of_mem hi hk
    rw [hv] at hlookup
    obtain ⟨r', hr', hk', hfind⟩ := ht.found hlookup
    obtain rfl := (ht.key_iff ⟨i, hi⟩ hk r' ⟨_, hr'⟩).1 hk'
    exact ⟨r', hfind, hc.lists.twice r' hr ⟨i, hi⟩⟩

omit [DecidableEq V] in
theorem Segmented.scan {n : Nat} (h : s.Segmented false capacity n a) {c : Call K V} (hscans : s.Scans c) :
    Segments.Scan a c := by
  cases c with
  | get k =>
    intro p hp he
    rcases hscans with hnone | hagain
    · exact Segments.find_none.1 (h.find_none.2 hnone) p (List.mem_append_left _ hp) he
    · obtain ⟨q, hq, rfl⟩ := h.readAgain_iff.1 hagain
      exact h.fits.distinct.disjoint hp hq he
  | put k v => exact h.find_none.2 hscans
  | remove k => exact fun p hp he => hscans (h.readAgain_iff.2 ⟨p, hp, he⟩)
  | clear => exact hscans

/-- **Scans**: as long as the keys that have been read again are no more than half of the capacity leaves
them, they keep their values, however many keys are put in that nobody reads again. -/
theorem scan_resistant (hcap : capacity < 2 ^ 31) {isStatistics : Bool}
    (hnew : new capacity isStatistics = some s₀) {ls₀ ls : List (Call K V × Option V)}
    (hrun₀ : Run Does s₀ ls₀ s) (htwo : 2 ≤ capacity) (hsize : s.size2 + capacity.tdiv 2 ≤ capacity)
    (hrun : Run (fun s l s' => Does s l s' ∧ s.Scans l.1) s ls s') (hagain : s.ReadAgain k) :
    s'.lookup k = s.lookup k ∧ s'.ReadAgain k := by
  obtain ⟨a, -, hseg⟩ := does_run (start_segmented hcap hnew) hrun₀
  have hhalf : 0 < capacity.tdiv 2 := by
    rw [Int.tdiv_eq_ediv_of_nonneg (by omega)]
    omega
  have hroom : (a.twice.length : Int) + capacity.tdiv 2 ≤ capacity := by
    obtain ⟨chains, l₁, l₂, -, hc, -, h₂⟩ := hseg.layout
    rwa [← h₂.length, ← hc.lists.size₂]
  obtain ⟨a', hscan, hseg'⟩ : ∃ a', Run (fun a l a' =>
      Segments.Step capacity (capacity.tdiv 2) a l a' ∧ Segments.Scan a l.1) a ls a' ∧
        s'.Divided capacity a' := by
    refine hrun.history (I := fun ls s' => ∃ a', Run (fun a l a' =>
      Segments.Step capacity (capacity.tdiv 2) a l a' ∧ Segments.Scan a l.1) a ls a' ∧
        s'.Divided capacity a') ⟨a, .nil, hseg⟩ ?_
    rintro ls s l s' ⟨a', hrun, hseg⟩ ⟨hs, hscans⟩
    obtain ⟨a'', hstep, hseg'⟩ := does_segmented hseg hs
    exact ⟨a'', hrun.snoc ⟨hstep, hseg.scan hscans⟩, hseg'⟩
  have hperm := Segments.scan_twice hseg.fits hhalf hroom hscan
  obtain ⟨p, hp, rfl⟩ := hseg.readAgain_iff.1 hagain
  have hvalue {b : Segments K V} (hb : b.Distinct) (hp : p ∈ b.twice) : b.lookup p.1 = some p.2 :=
    hb.lookup_eq_some.2 (List.mem_append_right _ hp)
  have hp' := hperm.mem_iff.2 hp
  refine ⟨?_, hseg'.readAgain_iff.2 ⟨p, hp', rfl⟩⟩
  rw [← hseg'.lookup_eq, ← hseg.lookup_eq, hvalue hseg'.fits.distinct hp', hvalue hseg.fits.distinct hp]

theorem scan_resistant_four :
    ∃ s', Four.read.Does (.put "b" 2, none) s' ∧ s'.lookup "a" = Four.read.lookup "a" ∧
      s'.ReadAgain "a" := by
  obtain ⟨s', hput⟩ : ∃ s', Four.read.put "b" 2 = some (s', none) := ⟨_, rfl⟩
  have hdoes : Four.read.Does (.put "b" 2, none) s' := Four.does_put hput rfl rfl
  have hnone : Four.read.lookup "b" = none := rfl
  have hagain : Four.read.ReadAgain "a" := ⟨0, rfl, by decide⟩
  have hcap : (4 : Int) < 2 ^ 31 := by decide
  exact ⟨s', hdoes, scan_resistant hcap rfl ((Run.single Four.does_start).snoc Four.does_read)
    (by decide) (by decide) (Run.single ⟨hdoes, hnone⟩) hagain⟩

/-- **A new key stays** until half of the capacity has been put in after it, however the other keys are
read, put in and removed. -/
theorem survives (hcap : capacity < 2 ^ 31) {isStatistics : Bool}
    (hnew : new capacity isStatistics = some s₀) {ls₀ ls : List (Call K V × Option V)}
    (hrun₀ : Run Does s₀ ls₀ s) (hpos : 0 ≤ capacity) (hnone : s.lookup k = none) {s₁ : LruCache K V}
    {o : Option V} (hput : s.Does (.put k v, o) s₁) (hrun : Run Does s₁ ls s')
    (hothers : ∀ l ∈ ls, l.1.key? ≠ some k ∧ l.1 ≠ .clear)
    (hfew : (ls.countP fun l => l.1.isPut : Nat) < capacity.tdiv 2) : s'.lookup k = some v := by
  obtain ⟨a, -, hseg⟩ := does_run (start_segmented hcap hnew) hrun₀
  obtain ⟨a₁, hstep, hseg₁⟩ := does_segmented hseg hput
  obtain ⟨a', hsegments, hseg'⟩ := does_run hseg₁ hrun
  have hhalf : capacity.tdiv 2 ≤ capacity := by
    rw [Int.tdiv_eq_ediv_of_nonneg hpos]
    omega
  have hahead : Segments.Ahead k v 0 a₁ := by
    cases hstep with
    | insert => exact ⟨[], _, rfl, le_rfl⟩
    | put hfind =>
      obtain ⟨hp, rfl⟩ := Segments.find_some hfind
      exact absurd rfl (Segments.find_none.1 (hseg.find_none.2 hnone) _
        ((Segments.room_sublist a).subset hp))
  have hkept := Segments.ahead_run hseg₁.fits hahead hhalf hothers (by rwa [Nat.zero_add]) hsegments
  obtain ⟨pre, post, hlist, -⟩ := hkept
  rw [← hseg'.lookup_eq, hseg'.fits.distinct.lookup_eq_some, Segments.entries, hlist]
  exact List.mem_append_left _ (List.mem_append_right _ (List.mem_cons_self ..))

theorem survives_four :
    ∃ s', Run Does Four.put [(.put "b" 2, none)] s' ∧ s'.lookup "a" = some 1 := by
  obtain ⟨s', hput⟩ : ∃ s', Four.put.put "b" 2 = some (s', none) := ⟨_, rfl⟩
  have hrun : Run Does Four.put [(.put "b" 2, none)] s' := Run.single (Four.does_put hput rfl rfl)
  have hcap : (4 : Int) < 2 ^ 31 := by decide
  exact ⟨s', hrun, survives hcap rfl .nil (by decide) rfl Four.does_start hrun
    (by simp [Call.key?]) (by decide)⟩

end LruCache

end BaseService.LocalCache
