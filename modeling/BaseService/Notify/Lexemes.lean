import BaseService.Notify.Yylex

/-!
# The lexemes of a text

* `Text` : the text that is left, without a buffer; `Text.round` : its first lexeme;
* `Reads` : the tokens of a text, and how they end;
* `ahead` : what the buffer and the reader hold of the text; `zzRefill_spec` : a refill leaves it;
* `yylex_spec` : **the scanner returns the tokens of the text**, however the reader brings it.
-/

namespace BaseService.Notify.JSON
open Failing (bind_ok bind_error)

variable {D : Type}

/-! ## Refilling -/

namespace Yylex

/-- The text from `zzStartRead` on. -/
def ahead (this : Yylex) : List Nat :=
  (this.zzBuffer.take this.zzEndRead).drop this.zzStartRead ++ this.zzReader.rest

structure Fits (this : Yylex) : Prop where
  nonempty : 0 < this.zzBuffer.length
  start_le : this.zzStartRead ≤ this.zzEndRead
  end_le : this.zzEndRead ≤ this.zzBuffer.length
  eof : this.zzAtEOF = true → this.zzReader.rest = []

/-- What a refill leaves. -/
structure Same (this this' : Yylex) : Prop where
  mode : this'.toMode = this.toMode
  yychar : this'.yychar = this.yychar
  atEOF : this'.zzAtEOF = this.zzAtEOF
  ahead : this'.ahead = this.ahead

theorem Same.refl (this : Yylex) : Same this this := ⟨rfl, rfl, rfl, rfl⟩

variable {this this' this'' : Yylex} {chars rest : List Nat}

theorem Same.trans (h : Same this this') (h' : Same this' this'') : Same this this'' :=
  ⟨h'.mode.trans h.mode, h'.yychar.trans h.yychar, h'.atEOF.trans h.atEOF, h'.ahead.trans h.ahead⟩

theorem makeRoom_start (this : Yylex) : this.makeRoom.zzStartRead = 0 := by
  unfold makeRoom
  split
  · rfl
  · omega

theorem makeRoom_end (this : Yylex) : this.makeRoom.zzEndRead = this.zzEndRead - this.zzStartRead := by
  unfold makeRoom
  split
  · rfl
  · omega

theorem makeRoom_current (this : Yylex) :
    this.makeRoom.zzCurrentPos = this.zzCurrentPos - this.zzStartRead := by
  unfold makeRoom
  split
  · rfl
  · omega

theorem makeRoom_marked (this : Yylex) :
    this.makeRoom.zzMarkedPos = this.zzMarkedPos - this.zzStartRead := by
  unfold makeRoom
  split
  · rfl
  · omega

theorem makeRoom_reader (this : Yylex) : this.makeRoom.zzReader = this.zzReader := by
  unfold makeRoom
  split <;> rfl

theorem makeRoom_length (h : this.Fits) : this.makeRoom.zzBuffer.length = this.zzBuffer.length := by
  unfold makeRoom
  have hstart := h.start_le
  have hend := h.end_le
  split
  · simp only [List.length_append, List.length_drop, List.length_take]
    omega
  · rfl

theorem Fits.makeRoom (h : this.Fits) : this.makeRoom.Fits ∧ Same this this.makeRoom := by
  refine ⟨⟨?_, ?_, ?_, ?_⟩, ?_⟩
  · rw [makeRoom_length h]
    exact h.nonempty
  · rw [makeRoom_start]
    exact Nat.zero_le _
  · rw [makeRoom_length h, makeRoom_end]
    exact (Nat.sub_le _ _).trans h.end_le
  · rw [makeRoom_reader]
    unfold Yylex.makeRoom
    split <;> exact h.eof
  · unfold Yylex.makeRoom
    split
    · refine ⟨rfl, rfl, rfl, ?_⟩
      have hlength : ((this.zzBuffer.take this.zzEndRead).drop this.zzStartRead).length =
          this.zzEndRead - this.zzStartRead := by
        rw [List.length_drop, List.length_take, Nat.min_eq_left h.end_le]
      unfold ahead
      rw [List.take_left' hlength, List.drop_zero]
    · exact Same.refl this

theorem blowUp_spec (h : this.Fits) (hcurrent : this.zzCurrentPos = this.zzEndRead)
    (hsize : this.zzEndRead < 2 ^ 30) : ∃ zzBuffer, (blowUp : Lexing D Unit) this =
        (.ok ⟨⟩, { this with zzBuffer }) ∧ this.zzEndRead < zzBuffer.length ∧
      zzBuffer.take this.zzEndRead = this.zzBuffer.take this.zzEndRead := by
  have hnonempty := h.nonempty
  have hend := h.end_le
  by_cases hfull : this.zzBuffer.length ≤ this.zzCurrentPos
  · refine ⟨this.zzBuffer ++ List.replicate (this.zzCurrentPos * 2 - this.zzBuffer.length) 0, ?_, ?_,
      List.take_append_of_le_length hend⟩
    · have hsmall : ¬ 2 ^ 31 ≤ this.zzCurrentPos * 2 := by omega
      simp only [blowUp, Failing.run_bind, Failing.run_get, hfull, if_true, hsmall, if_false,
        Failing.run_set]
    · rw [List.length_append, List.length_replicate]
      omega
  · refine ⟨this.zzBuffer, ?_, by omega, rfl⟩
    simp only [blowUp, Failing.run_bind, Failing.run_get, hfull, if_false, Failing.run_pure]

/-- Where a position is, from `zzStartRead` on. -/
structure Moved (this this' : Yylex) : Prop where
  current : this'.zzCurrentPos = this'.zzStartRead + (this.zzCurrentPos - this.zzStartRead)
  marked : this'.zzMarkedPos = this'.zzStartRead + (this.zzMarkedPos - this.zzStartRead)

/-- New characters from the reader. -/
theorem fill_spec (chars : List Nat) (zzReader : Reader) (h : this.Fits)
    (hroom : this.zzEndRead + chars.length ≤ this.zzBuffer.length)
    (hchars : chars ++ zzReader.rest = this.zzReader.rest)
    (heof : this.zzAtEOF = false) : ∃ this', (fill chars : Lexing D Unit) { this with zzReader } =
      (.ok ⟨⟩, this') ∧ this'.Fits ∧ Same this this' ∧ this'.zzStartRead = this.zzStartRead ∧
      this'.zzCurrentPos = this.zzCurrentPos ∧ this'.zzMarkedPos = this.zzMarkedPos ∧
      this'.zzEndRead = this.zzEndRead + chars.length := by
  have hstart := h.start_le
  have hend := h.end_le
  have hlength : (this.zzBuffer.take this.zzEndRead).length = this.zzEndRead := by
    rw [List.length_take, Nat.min_eq_left hend]
  have hfill : (fill chars : Lexing D Unit) { this with zzReader } = (.ok ⟨⟩, { this with
      zzReader
      zzBuffer := this.zzBuffer.take this.zzEndRead ++ chars ++
        this.zzBuffer.drop (this.zzEndRead + chars.length)
      zzEndRead := this.zzEndRead + chars.length }) := by
    simp only [fill, Failing.run_bind, Failing.run_get, Nat.not_lt.2 hroom, if_false, Failing.run_set]
  refine ⟨_, hfill, ⟨?_, hstart.trans (Nat.le_add_right _ _), ?_, ?_⟩, ⟨rfl, rfl, rfl, ?_⟩, rfl, rfl, rfl, rfl⟩
  · simp only [List.length_append, hlength, List.length_drop]
    have := h.nonempty
    omega
  · simp only [List.length_append, hlength, List.length_drop]
    omega
  · exact fun hat => absurd hat (by rw [heof]; decide)
  · have htake : (this.zzBuffer.take this.zzEndRead ++ chars).length = this.zzEndRead + chars.length := by
      rw [List.length_append, hlength]
    unfold ahead
    dsimp only
    rw [List.take_left' htake, List.drop_append_of_le_length (by omega), List.append_assoc, hchars]

theorem fetch_spec (h : this.Fits) (hroom : this.zzEndRead < this.zzBuffer.length)
    (heof : this.zzAtEOF = false) : ∃ this', (fetch : Lexing D Bool) this =
      (.ok (decide (this.zzReader.rest = [])), this') ∧ this'.Fits ∧ Same this this' ∧
      this'.zzStartRead = this.zzStartRead ∧ this'.zzCurrentPos = this.zzCurrentPos ∧
      this'.zzMarkedPos = this.zzMarkedPos ∧ (if this.zzReader.rest = [] then
        this'.zzReader.rest = [] ∧ this'.zzEndRead = this.zzEndRead else this.zzEndRead < this'.zzEndRead) := by
  by_cases hrest : this.zzReader.rest = []
  · refine ⟨this, ?_, h, Same.refl this, rfl, rfl, rfl, ?_⟩
    · simp only [fetch, Failing.run_bind, Failing.run_get, Reader.read, hrest, if_true, Failing.run_set,
        Failing.run_pure, decide_true]
    · rw [if_pos hrest]
      exact ⟨hrest, rfl⟩
  · simp only [if_neg hrest, decide_eq_false hrest]
    obtain ⟨c, cs, hcs⟩ := List.exists_cons_of_ne_nil hrest
    have hread : ∃ n, this.zzReader.read (this.zzBuffer.length - this.zzEndRead) =
        (some (this.zzReader.rest.take n), { this.zzReader with
          rest := this.zzReader.rest.drop n, reads := this.zzReader.reads + 1 }) ∧
        n ≤ this.zzBuffer.length - this.zzEndRead :=
      ⟨min (this.zzReader.sizes this.zzReader.reads) (this.zzBuffer.length - this.zzEndRead),
        by rw [Reader.read, if_neg hrest], Nat.min_le_right _ _⟩
    obtain ⟨n, hread, hn⟩ := hread
    cases n with
    | zero =>
      -- a read that brings nothing is followed by one for a single character
      obtain ⟨this', hfill, hfits, hsame, hstart, hcurrent, hmarked, hend⟩ :=
        fill_spec (D := D) [c] { this.zzReader with rest := cs, reads := this.zzReader.reads + 1 }
          h hroom hcs.symm heof
      refine ⟨this', ?_, hfits, hsame, hstart, hcurrent, hmarked, by rw [hend]; exact Nat.lt_succ_self _⟩
      simp only [fetch, Failing.run_bind, Failing.run_get, hread, Failing.run_set, List.take_zero,
        List.drop_zero, Reader.readOne, hcs, List.head?_cons, List.tail_cons, hfill, Failing.run_pure]
    | succ n =>
      have hlength : (this.zzReader.rest.take (n + 1)).length ≤ n + 1 := List.length_take_le ..
      obtain ⟨this', hfill, hfits, hsame, hstart, hcurrent, hmarked, hend⟩ :=
        fill_spec (D := D) (this.zzReader.rest.take (n + 1)) { this.zzReader with
            rest := this.zzReader.rest.drop (n + 1), reads := this.zzReader.reads + 1 }
          h (by omega) (List.take_append_drop ..) heof
      refine ⟨this', ?_, hfits, hsame, hstart, hcurrent, hmarked, ?_⟩
      · rw [hcs, List.take_succ_cons] at hfill hread
        simp only [fetch, Failing.run_bind, Failing.run_get, hread, Failing.run_set, hfill, Failing.run_pure]
      · rw [hend, hcs, List.take_succ_cons, List.length_cons]
        omega

theorem zzRefill_spec (h : this.Fits) (heof : this.zzAtEOF = false)
    (hcurrent : this.zzCurrentPos = this.zzEndRead) (hsize : this.ahead.length < 2 ^ 30) :
    ∃ this', (zzRefill : Lexing D Bool) this = (.ok (decide (this.zzReader.rest = [])), this') ∧
      this'.Fits ∧ Same this this' ∧ Moved this this' ∧ (if this.zzReader.rest = [] then
        this'.zzReader.rest = [] ∧ this'.zzCurrentPos = this'.zzEndRead
        else this'.zzCurrentPos < this'.zzEndRead) := by
  obtain ⟨hfits₁, hsame₁⟩ := h.makeRoom
  have hstart := h.start_le
  have hstart₁ := makeRoom_start this
  have hend₁ := makeRoom_end this
  have hcurrent₁ := makeRoom_current this
  have hmarked₁ := makeRoom_marked this
  have hlength : this.zzEndRead - this.zzStartRead ≤ this.ahead.length := by
    rw [ahead, List.length_append, List.length_drop, List.length_take, Nat.min_eq_left h.end_le]
    exact Nat.le_add_right _ _
  obtain ⟨zzBuffer, hblow, hroom, htake⟩ := blowUp_spec (D := D) hfits₁ (by omega) (by omega)
  have hfits₂ : ({ this.makeRoom with zzBuffer } : Yylex).Fits :=
    ⟨Nat.zero_lt_of_lt hroom, hfits₁.start_le, hroom.le, hfits₁.eof⟩
  have hsame₂ : Same this { this.makeRoom with zzBuffer } := by
    refine hsame₁.trans ⟨rfl, rfl, rfl, ?_⟩
    unfold ahead
    dsimp only
    rw [htake]
  obtain ⟨this', hfetch, hfits', hsame', hstart', hcurrent', hmarked', hend'⟩ :=
    fetch_spec (D := D) hfits₂ hroom (hsame₂.atEOF.trans heof)
  dsimp only at hfetch hstart' hcurrent' hmarked' hend'
  rw [makeRoom_reader] at hend'
  refine ⟨this', ?_, hfits', hsame₂.trans hsame', ⟨by omega, by omega⟩, ?_⟩
  · rw [zzRefill, bind_ok (Failing.run_modify makeRoom this), bind_ok hblow, hfetch, makeRoom_reader]
  · by_cases hrest : this.zzReader.rest = []
    · rw [if_pos hrest] at hend' ⊢
      exact ⟨hend'.1, by omega⟩
    · rw [if_neg hrest] at hend' ⊢
      omega

/-! ## The match -/

/-- The loop has come `n` characters from `zzStartRead` and has marked `k`. -/
structure Stands (this : Yylex) (m : Match) (n k : Nat) : Prop where
  current : m.zzCurrentPosL = this.zzStartRead + n
  marked : m.zzMarkedPosL = this.zzStartRead + k
  marked_le : k ≤ n
  le : this.zzStartRead + n ≤ this.zzEndRead

variable {m : Match} {n k c fuel : Nat}

theorem Fits.length_window (h : this.Fits) :
    ((this.zzBuffer.take this.zzEndRead).drop this.zzStartRead).length =
      this.zzEndRead - this.zzStartRead := by
  rw [List.length_drop, List.length_take, Nat.min_eq_left h.end_le]

/-- A character of the buffer. -/
theorem Fits.ahead_lt (h : this.Fits) (hn : this.zzStartRead + n < this.zzEndRead) :
    this.ahead[n]? = this.zzBuffer[this.zzStartRead + n]? := by
  rw [ahead, List.getElem?_append_left (by rw [h.length_window]; omega), List.getElem?_drop,
    List.getElem?_take_of_lt hn]

/-- The first that is not in the buffer. -/
theorem Fits.ahead_end (h : this.Fits) (hn : this.zzStartRead + n = this.zzEndRead) :
    this.ahead[n]? = this.zzReader.rest.head? := by
  have hlength : ((this.zzBuffer.take this.zzEndRead).drop this.zzStartRead).length = n := by
    rw [h.length_window]
    omega
  rw [ahead, List.getElem?_append_right hlength.le, hlength, Nat.sub_self, List.head?_eq_getElem?]

theorem take_spec (h : this.Fits) (hst : this.Stands m n k)
    (hlt : this.zzStartRead + n < this.zzEndRead) (hc : this.ahead[n]? = some c) :
    (take m : Lexing D _) this = (.ok (some c, { m with zzCurrentPosL := m.zzCurrentPosL + 1 }), this) ∧
      this.Stands { m with zzCurrentPosL := m.zzCurrentPosL + 1 } (n + 1) k := by
  have hget : this.zzBuffer[m.zzCurrentPosL]? = some c := by rw [hst.current, ← h.ahead_lt hlt, hc]
  refine ⟨?_, ⟨?_, hst.marked, hst.marked_le.trans (Nat.le_succ n), hlt⟩⟩
  · simp only [take, Failing.run_bind, Failing.run_get, hget, Failing.run_pure]
  · show m.zzCurrentPosL + 1 = _
    rw [hst.current, Nat.add_assoc]

theorem zzInput_some (h : this.Fits) (hst : this.Stands m n k) (hsize : this.ahead.length < 2 ^ 30)
    (hc : this.ahead[n]? = some c) : ∃ this' m', (zzInput m : Lexing D _) this =
      (.ok (some c, m'), this') ∧ this'.Fits ∧ Same this this' ∧ this'.Stands m' (n + 1) k ∧
      m'.zzState = m.zzState ∧ m'.zzAction = m.zzAction := by
  have hcurrent := hst.current
  have hle := hst.le
  by_cases hlt : this.zzStartRead + n < this.zzEndRead
  · obtain ⟨htake, hst'⟩ := take_spec (D := D) h hst hlt hc
    refine ⟨this, _, ?_, h, Same.refl this, hst', rfl, rfl⟩
    rw [← hcurrent] at hlt
    simp only [zzInput, Failing.run_bind, Failing.run_get, if_pos hlt, htake]
  · have hend : this.zzStartRead + n = this.zzEndRead := by omega
    have hrest : this.zzReader.rest ≠ [] := by
      intro hrest
      rw [h.ahead_end hend, hrest] at hc
      cases hc
    have heof : this.zzAtEOF = false := Bool.eq_false_iff.2 fun hat => hrest (h.eof hat)
    let this₁ : Yylex := { this with zzCurrentPos := m.zzCurrentPosL, zzMarkedPos := m.zzMarkedPosL }
    have hfits₁ : this₁.Fits := ⟨h.nonempty, h.start_le, h.end_le, h.eof⟩
    obtain ⟨this₂, hrefill, hfits₂, hsame₂, hmoved, hend₂⟩ :=
      zzRefill_spec (D := D) hfits₁ heof (hcurrent.trans hend) hsize
    rw [if_neg hrest] at hend₂
    have hst₂ : this₂.Stands { m with
        zzCurrentPosL := this₂.zzCurrentPos, zzMarkedPosL := this₂.zzMarkedPos } n k := by
      have hmarked := hst.marked
      have hcurrent₂ : _ = _ + (m.zzCurrentPosL - this.zzStartRead) := hmoved.current
      have hmarked₂ : _ = _ + (m.zzMarkedPosL - this.zzStartRead) := hmoved.marked
      exact ⟨by dsimp only; omega, by dsimp only; omega, hst.marked_le, by omega⟩
    obtain ⟨htake, hst'⟩ := take_spec (D := D) hfits₂ hst₂ (by rw [← hst₂.current]; exact hend₂)
      (by rw [hsame₂.ahead]; exact hc)
    refine ⟨this₂, _, ?_, hfits₂, ⟨hsame₂.mode, hsame₂.yychar, hsame₂.atEOF, hsame₂.ahead⟩, hst', rfl, rfl⟩
    have hnot : ¬ m.zzCurrentPosL < this.zzEndRead := by omega
    rw [decide_eq_false hrest] at hrefill
    rw [zzInput, bind_ok (Failing.run_get this), if_neg hnot, if_neg (by rw [heof]; decide), takeNew,
      bind_ok (Failing.run_modify _ this), bind_ok hrefill, bind_ok (Failing.run_get _)]
    exact htake

theorem zzInput_none (h : this.Fits) (hst : this.Stands m n k) (hsize : this.ahead.length < 2 ^ 30)
    (hc : this.ahead[n]? = none) : ∃ this' m', (zzInput m : Lexing D _) this =
      (.ok (none, m'), this') ∧ this'.Fits ∧ Same this this' ∧ this'.Stands m' n k ∧
      m'.zzState = m.zzState ∧ m'.zzAction = m.zzAction ∧ this'.zzReader.rest = [] ∧
      (n = 0 → this.zzCurrentPos = this.zzStartRead → this'.zzStartRead = this'.zzCurrentPos) := by
  have hcurrent := hst.current
  have hle := hst.le
  have hend : this.zzStartRead + n = this.zzEndRead := by
    by_contra hne
    have hlt : this.zzStartRead + n < this.zzEndRead := by omega
    rw [h.ahead_lt hlt, List.getElem?_eq_none_iff] at hc
    have := h.end_le
    omega
  have hrest : this.zzReader.rest = [] := by rwa [h.ahead_end hend, List.head?_eq_none_iff] at hc
  have hnot : ¬ m.zzCurrentPosL < this.zzEndRead := by omega
  by_cases heof : this.zzAtEOF = true
  · refine ⟨this, m, ?_, h, Same.refl this, hst, rfl, rfl, hrest, fun _ h => h.symm⟩
    simp only [zzInput, Failing.run_bind, Failing.run_get, if_neg hnot, heof, if_true, Failing.run_pure]
  · rw [Bool.not_eq_true] at heof
    let this₁ : Yylex := { this with zzCurrentPos := m.zzCurrentPosL, zzMarkedPos := m.zzMarkedPosL }
    have hfits₁ : this₁.Fits := ⟨h.nonempty, h.start_le, h.end_le, h.eof⟩
    obtain ⟨this₂, hrefill, hfits₂, hsame₂, hmoved, hend₂⟩ :=
      zzRefill_spec (D := D) hfits₁ heof (hcurrent.trans hend) hsize
    rw [if_pos hrest] at hend₂
    have hcurrent₂ : _ = _ + (m.zzCurrentPosL - this.zzStartRead) := hmoved.current
    have hmarked₂ : _ = _ + (m.zzMarkedPosL - this.zzStartRead) := hmoved.marked
    have hmarked := hst.marked
    refine ⟨this₂, { m with zzCurrentPosL := this₂.zzCurrentPos, zzMarkedPosL := this₂.zzMarkedPos }, ?_,
      hfits₂, ⟨hsame₂.mode, hsame₂.yychar, hsame₂.atEOF, hsame₂.ahead⟩,
      ⟨by dsimp only; omega, by dsimp only; omega, hst.marked_le, by omega⟩, rfl, rfl, hend₂.1, fun _ _ => by omega⟩
    rw [decide_eq_true hrest] at hrefill
    rw [zzInput, bind_ok (Failing.run_get this), if_neg hnot, if_neg (by rw [heof]; decide), takeNew,
      bind_ok (Failing.run_modify _ this), bind_ok hrefill, bind_ok (Failing.run_get _)]
    rfl

/-- The loop marks what the scan of the text marks. -/
theorem zzForAction_spec (fuel : Nat) (h : this.Fits) (hst : this.Stands m n k) (hsize : this.ahead.length < 2 ^ 30)
    (hfuel : this.ahead.length < n + fuel) : ∃ c this' m' n' k', (zzForAction fuel m : Lexing D _) this =
      (.ok (c, m'), this') ∧ this'.Fits ∧ Same this this' ∧ this'.Stands m' n' k' ∧
      scanner.munch (m.zzAction.map (·, k)) n m.zzState (this.ahead.drop n) = m'.zzAction.map (·, k') := by
  induction fuel generalizing this m n k with
  | zero =>
    have hlength := h.length_window
    have hle := hst.le
    have hahead : this.ahead.length = _ := List.length_append ..
    omega
  | succ fuel ih =>
    rw [zzForAction]
    cases hc : this.ahead[n]? with
    | none =>
      obtain ⟨this', m', hinput, hfits, hsame, hst', -, haction, -⟩ := zzInput_none (D := D) h hst hsize hc
      refine ⟨none, this', m', n, k, ?_, hfits, hsame, hst', ?_⟩
      · rw [bind_ok hinput]
        rfl
      · rw [List.drop_eq_nil_of_le (List.getElem?_eq_none_iff.1 hc), haction]
        rfl
    | some c =>
      obtain ⟨this₁, m₁, hinput, hfits₁, hsame₁, hst₁, hstate, haction⟩ :=
        zzInput_some (D := D) h hst hsize hc
      obtain ⟨hlt, hget⟩ := List.getElem?_eq_some_iff.1 hc
      rw [bind_ok hinput, List.drop_eq_getElem_cons hlt, hget, Scanner.munch, ← hstate, ← haction]
      dsimp only
      cases hnext : scanner.next m₁.zzState c with
      | none => exact ⟨some c, this₁, m₁, n + 1, k, rfl, hfits₁, hsame₁, hst₁, rfl⟩
      | some zzState =>
        dsimp only
        by_cases haccepts : scanner.accepts zzState = true
        · rw [if_pos haccepts, if_pos haccepts]
          have hst₂ : this₁.Stands { m₁ with zzState, zzAction := some zzState, zzMarkedPosL := m₁.zzCurrentPosL }
              (n + 1) (n + 1) := ⟨hst₁.current, hst₁.current, le_rfl, hst₁.le⟩
          by_cases hcloses : scanner.closes zzState = true
          · rw [if_pos hcloses, if_pos hcloses]
            exact ⟨some c, this₁, _, n + 1, n + 1, rfl, hfits₁, hsame₁, hst₂, rfl⟩
          · rw [if_neg hcloses, if_neg hcloses]
            obtain ⟨c', this', m', n', k', hloop, hfits, hsame, hst', hmunch⟩ :=
              ih hfits₁ hst₂ (hsame₁.ahead ▸ hsize) (by rw [hsame₁.ahead]; omega)
            rw [hsame₁.ahead] at hmunch
            exact ⟨c', this', m', n', k', hloop, hfits, hsame₁.trans hsame, hst', hmunch⟩
        · rw [if_neg haccepts, if_neg haccepts]
          have hst₂ : this₁.Stands { m₁ with zzState } (n + 1) k :=
            ⟨hst₁.current, hst₁.marked, hst₁.marked_le, hst₁.le⟩
          obtain ⟨c', this', m', n', k', hloop, hfits, hsame, hst', hmunch⟩ :=
            ih hfits₁ hst₂ (hsame₁.ahead ▸ hsize) (by rw [hsame₁.ahead]; omega)
          rw [hsame₁.ahead] at hmunch
          exact ⟨c', this', m', n', k', hloop, hfits, hsame₁.trans hsame, hst', hmunch⟩

end Yylex

/-! ## Texts -/

/-- The text that is left, where it begins, and the mode. -/
structure Text extends Mode where
  yychar : Nat
  rest : List Nat

/-- The first lexeme; `none` at the end of the text. -/
def Text.round (double : Doubles D) (t : Text) :
    Option (Except (Throwable D) (Option (Yytoken D) × Text)) :=
  match scanner.munch none 0 (zzLexState t.zzLexicalState) t.rest with
  | none => none
  | some (zzState, n) =>
    (act double (zzAction zzState) (t.rest.take n) t.yychar t.toMode).map fun r =>
      r.map fun (token, mode) => (token, ⟨mode, t.yychar + n, t.rest.drop n⟩)

inductive Ending (D : Type)
  | eof (position : Nat)
  | thrown (e : Throwable D)

/-- The tokens of a text with their positions, and what comes after them. -/
inductive Reads (double : Doubles D) : Text → List (Nat × Yytoken D) → Ending D → Prop
  | eof {t : Text} : t.round double = none → Reads double t [] (.eof t.yychar)
  | thrown {t : Text} {e : Throwable D} : t.round double = some (.error e) → Reads double t [] (.thrown e)
  | skip {t t' : Text} {ts : List (Nat × Yytoken D)} {e : Ending D} :
    t.round double = some (.ok (none, t')) → Reads double t' ts e → Reads double t ts e
  | token {t t' : Text} {token : Yytoken D} {ts : List (Nat × Yytoken D)} {e : Ending D} :
    t.round double = some (.ok (some token, t')) → Reads double t' ts e →
    Reads double t ((t.yychar, token) :: ts) e

theorem zzLexState_cases (l : Nat) : zzLexState l = 0 ∨ zzLexState l = 1 := by
  rcases l with _ | _ | _ | _ | l
  · exact .inl rfl
  · exact .inl rfl
  · exact .inr rfl
  · exact .inr rfl
  · exact .inl rfl

theorem zzNext_first : ∀ k < 27, (zzNext 0 k ≠ -1 ∧ zzAttribute (zzNext 0 k).toNat &&& 1 = 1) ∧
    zzNext 1 k ≠ -1 ∧ zzAttribute (zzNext 1 k).toNat &&& 1 = 1 := by
  decide

/-- One character is a match. -/
theorem next_first (l c : Nat) : ∃ q, scanner.next (zzLexState l) c = some q ∧ scanner.accepts q = true := by
  obtain ⟨⟨hnext₀, haccepts₀⟩, hnext₁, haccepts₁⟩ := zzNext_first (zzCMap c) (zzCMap_lt c)
  obtain h | h := zzLexState_cases l
  · exact ⟨_, by rw [h]; exact if_neg hnext₀, decide_eq_true haccepts₀⟩
  · exact ⟨_, by rw [h]; exact if_neg hnext₁, decide_eq_true haccepts₁⟩

theorem zzAction_accepts : ∀ q < 45, zzAttribute q &&& 1 = 1 → 1 ≤ zzAction q ∧ zzAction q ≤ 24 := by
  decide

theorem act_isSome (double : Doubles D) {action : Nat} (h₁ : 1 ≤ action) (h₂ : action ≤ 24)
    (yytext : List Nat) (yychar : Nat) (m : Mode) : (act double action yytext yychar m).isSome := by
  interval_cases action <;> rfl

theorem accepts_lt {q : Nat} (h : scanner.accepts q = true) : q < 45 := by
  by_contra hge
  have hsum : (zzAttributePacked.map Prod.fst).sum = 45 := rfl
  have hbit : zzAttribute q &&& 1 = 1 := of_decide_eq_true h
  rw [zzAttribute, zzUnpack_of_le (by omega)] at hbit
  cases hbit

namespace Text
variable {double : Doubles D} {t t' : Text} {r : Except (Throwable D) (Option (Yytoken D) × Text)}

/-- Where the text goes on there is a lexeme. -/
theorem exists_lexeme (double : Doubles D) (hne : t.rest ≠ []) : ∃ zzState n r,
    scanner.munch none 0 (zzLexState t.zzLexicalState) t.rest = some (zzState, n) ∧ 0 < n ∧
      n ≤ t.rest.length ∧ act double (zzAction zzState) (t.rest.take n) t.yychar t.toMode = some r := by
  obtain ⟨c, cs, hcs⟩ := List.exists_cons_of_ne_nil hne
  obtain ⟨q₁, hnext, haccepts⟩ := next_first t.zzLexicalState c
  have hexists : ∃ q n, scanner.Longest (zzLexState t.zzLexicalState) (c :: cs) q n :=
    Scanner.exists_longest hnext haccepts
  obtain ⟨q, n, hlongest⟩ := hexists
  rw [← hcs] at hlongest
  obtain ⟨h₁, h₂⟩ := zzAction_accepts q (accepts_lt hlongest.accepts) (of_decide_eq_true hlongest.accepts)
  obtain ⟨r, hr⟩ := Option.isSome_iff_exists.1
    (act_isSome double h₁ h₂ (t.rest.take n) t.yychar t.toMode)
  exact ⟨q, n, r, Scanner.munch_eq_some_iff.2 hlongest, hlongest.positive, hlongest.le, hr⟩

theorem round_eq_none_iff : t.round double = none ↔ t.rest = [] := by
  constructor
  · intro h
    by_contra hne
    obtain ⟨q, n, r, hmunch, -, -, hact⟩ := exists_lexeme double hne
    rw [round, hmunch] at h
    dsimp only at h
    rw [hact] at h
    cases h
  · intro h
    rw [round, h]
    rfl

theorem round_length {token : Option (Yytoken D)} (h : t.round double = some (.ok (token, t'))) :
    t'.rest.length < t.rest.length := by
  have hne : t.rest ≠ [] := fun hnil => by
    rw [round_eq_none_iff.2 hnil] at h
    cases h
  obtain ⟨q, n, r, hmunch, hpos, hle, hact⟩ := exists_lexeme double hne
  rw [round, hmunch] at h
  dsimp only at h
  rw [hact] at h
  cases r with
  | error e => cases h
  | ok r =>
    cases h
    rw [List.length_drop]
    omega

end Text

theorem exists_reads (double : Doubles D) (t : Text) : ∃ ts e, Reads double t ts e := by
  induction hn : t.rest.length using Nat.strong_induction_on generalizing t with
  | _ n ih =>
    subst hn
    cases hround : t.round double with
    | none => exact ⟨_, _, .eof hround⟩
    | some r =>
      obtain e | ⟨_ | token, t'⟩ := r
      · exact ⟨_, _, .thrown hround⟩
      · obtain ⟨ts, e, h⟩ := ih _ (Text.round_length hround) t' rfl
        exact ⟨ts, e, .skip hround h⟩
      · obtain ⟨ts, e, h⟩ := ih _ (Text.round_length hround) t' rfl
        exact ⟨_, e, .token hround h⟩

theorem Reads.unique {double : Doubles D} {t : Text} {ts ts' : List (Nat × Yytoken D)} {e e' : Ending D}
    (h : Reads double t ts e) (h' : Reads double t ts' e') : ts = ts' ∧ e = e' := by
  induction h generalizing ts' e' with
  | eof hround =>
    cases h' with
    | eof => exact ⟨rfl, rfl⟩
    | thrown hround' | skip hround' | token hround' => cases hround.symm.trans hround'
  | thrown hround =>
    cases h' with
    | thrown hround' =>
      cases hround.symm.trans hround'
      exact ⟨rfl, rfl⟩
    | eof hround' | skip hround' | token hround' => cases hround.symm.trans hround'
  | skip hround h ih =>
    cases h' with
    | skip hround' h' =>
      cases hround.symm.trans hround'
      exact ih h'
    | eof hround' | thrown hround' | token hround' => cases hround.symm.trans hround'
  | token hround h ih =>
    cases h' with
    | token hround' h' =>
      cases hround.symm.trans hround'
      obtain ⟨rfl, rfl⟩ := ih h'
      exact ⟨rfl, rfl⟩
    | eof hround' | thrown hround' | skip hround' => cases hround.symm.trans hround'

namespace Yylex
variable {double : Doubles D} {this : Yylex} {t : Text} {fuel : Nat}

/-- The scanner has the text `t` to read. -/
structure At (this : Yylex) (t : Text) : Prop where
  fits : this.Fits
  marked : this.zzStartRead ≤ this.zzMarkedPos
  marked_le : this.zzMarkedPos ≤ this.zzEndRead
  mode : t.toMode = this.toMode
  yychar : t.yychar = this.yychar + (this.zzMarkedPos - this.zzStartRead)
  rest : t.rest = this.ahead.drop (this.zzMarkedPos - this.zzStartRead)

/-- What a scanner that has the text to read comes to with the outcome of the first lexeme. -/
inductive Rounds (double : Doubles D) (fuel : Nat) (this : Yylex) (t : Text) :
    Option (Except (Throwable D) (Option (Yytoken D) × Text)) → Prop
  | eof {this' : Yylex} : yylex double (fuel + 1) this = (.ok none, this') → this'.At t →
    this'.yychar = t.yychar → Rounds double fuel this t none
  | thrown {this' : Yylex} {e : Throwable D} : yylex double (fuel + 1) this = (.error e, this') →
    this'.Fits → Rounds double fuel this t (some (.error e))
  | skip {this' : Yylex} {t' : Text} : yylex double (fuel + 1) this = yylex double fuel this' →
    this'.At t' → Rounds double fuel this t (some (.ok (none, t')))
  | token {this' : Yylex} {t' : Text} {token : Yytoken D} :
    yylex double (fuel + 1) this = (.ok (some token), this') → this'.At t' → this'.yychar = t.yychar →
    Rounds double fuel this t (some (.ok (some token, t')))

theorem At.next (h : this.At t) : this.next.Fits ∧ this.next.ahead = t.rest := by
  refine ⟨⟨h.fits.nonempty, h.marked_le, h.fits.end_le, h.fits.eof⟩, ?_⟩
  have hmarked := h.marked
  have hle := h.marked_le
  rw [h.rest]
  unfold ahead
  rw [List.drop_append_of_le_length (by rw [h.fits.length_window]; omega), List.drop_drop,
    Nat.add_sub_cancel' hmarked]
  rfl

variable {this₁ this₂ : Yylex} {found : Option Nat × Match}

theorem yylex_thrown {e : Throwable D}
    (hloop : (zzForAction (fuel + 1) this.next.start : Lexing D _) this.next = (.ok found, this₁))
    (hperform : perform double found.1 found.2 this₁ = (.error e, this₂)) :
    yylex double (fuel + 1) this = (.error e, this₂) := by
  rw [yylex, bind_ok (Failing.run_modify next this), bind_ok (Failing.run_get _), bind_ok hloop,
    bind_error hperform]

theorem yylex_performed {returned : Option (Option (Yytoken D))}
    (hloop : (zzForAction (fuel + 1) this.next.start : Lexing D _) this.next = (.ok found, this₁))
    (hperform : perform double found.1 found.2 this₁ = (.ok returned, this₂)) :
    yylex double (fuel + 1) this = match returned with
      | some token => (.ok token, this₂)
      | none => yylex double fuel this₂ := by
  rw [yylex, bind_ok (Failing.run_modify next this), bind_ok (Failing.run_get _), bind_ok hloop,
    bind_ok hperform]
  cases returned with
  | none => rfl
  | some token => rfl

theorem perform_thrown {c : Option Nat} {m : Match} {zzState : Nat} {e : Throwable D}
    (haction : m.zzAction = some zzState)
    (hact : act double (zzAction zzState) ({ this with zzMarkedPos := m.zzMarkedPosL } : Yylex).yytext
      this.yychar this.toMode = some (.error e)) :
    perform double c m this = (.error e, { this with zzMarkedPos := m.zzMarkedPosL }) := by
  rw [perform, bind_ok (Failing.run_modify _ this), bind_ok (Failing.run_get _), haction, Option.bind_some]
  dsimp only at hact ⊢
  rw [hact]
  rfl

theorem perform_found {c : Option Nat} {m : Match} {zzState : Nat} {token : Option (Yytoken D)}
    {mode : Mode} (haction : m.zzAction = some zzState)
    (hact : act double (zzAction zzState) ({ this with zzMarkedPos := m.zzMarkedPosL } : Yylex).yytext
      this.yychar this.toMode = some (.ok (token, mode))) :
    perform double c m this =
      (.ok (token.map some), { this with toMode := mode, zzMarkedPos := m.zzMarkedPosL }) := by
  rw [perform, bind_ok (Failing.run_modify _ this), bind_ok (Failing.run_get _), haction, Option.bind_some]
  dsimp only at hact ⊢
  rw [hact]
  rfl

/-- At the end of the text. -/
theorem yylex_eof (double : Doubles D) (fuel : Nat) (h : this.At t) (hnil : t.rest = []) : ∃ this',
    yylex double (fuel + 1) this = (.ok none, this') ∧ this'.At t ∧ this'.yychar = t.yychar := by
  obtain ⟨hfits, hahead⟩ := h.next
  have hinit : this.next.Stands this.next.start 0 0 := ⟨rfl, rfl, le_rfl, h.marked_le⟩
  have hlength : this.next.ahead.length < 2 ^ 30 := by
    rw [hahead, hnil]
    decide
  obtain ⟨this', m', hinput, hfits', hsame, hst', -, haction, hreader, hstart⟩ :=
    zzInput_none (D := D) hfits hinit hlength (by rw [hahead, hnil]; rfl)
  have hloop : (zzForAction (fuel + 1) this.next.start : Lexing D _) this.next =
      (.ok (none, m'), this') := by
    rw [zzForAction, bind_ok hinput]
    rfl
  have hperform : perform double none m' this' =
      (.ok (some none), { this' with zzMarkedPos := m'.zzMarkedPosL, zzAtEOF := true }) := by
    rw [perform, bind_ok (Failing.run_modify _ this'), bind_ok (Failing.run_get _), haction]
    dsimp only [start, Option.bind_none]
    rw [if_pos ⟨rfl, hstart rfl rfl⟩]
    rfl
  have hmarked := hst'.marked
  have hle := hst'.le
  have hyychar : this'.yychar = t.yychar := by
    rw [hsame.yychar, h.yychar]
    rfl
  refine ⟨_, yylex_performed hloop hperform, ⟨⟨hfits'.nonempty, hfits'.start_le, hfits'.end_le,
    fun _ => hreader⟩, by dsimp only; omega, by dsimp only; omega, ?_, ?_, ?_⟩, hyychar⟩
  · rw [h.mode]
    exact hsame.mode.symm
  · dsimp only
    omega
  · have hahead' : ({ this' with zzMarkedPos := m'.zzMarkedPosL, zzAtEOF := true } : Yylex).ahead = t.rest :=
      hsame.ahead.trans hahead
    rw [hahead', hnil, List.drop_nil]

/-- The text of the match. -/
theorem Fits.yytext {zzMarkedPosL k : Nat} (h : this.Fits) (hmarked : zzMarkedPosL = this.zzStartRead + k)
    (hle : this.zzStartRead + k ≤ this.zzEndRead) :
    ({ this with zzMarkedPos := zzMarkedPosL } : Yylex).yytext = this.ahead.take k := by
  unfold ahead Yylex.yytext
  dsimp only
  rw [List.take_append_of_le_length (by rw [h.length_window]; omega), List.drop_take,
    List.drop_take, List.take_take]
  congr 1
  omega

/-- The scanner behind the match. -/
theorem Fits.behind {zzMarkedPosL k : Nat} (h : this.Fits) (hmarked : zzMarkedPosL = this.zzStartRead + k)
    (hle : this.zzStartRead + k ≤ this.zzEndRead) (hyychar : this.yychar = t.yychar)
    (hahead : this.ahead = t.rest) (mode : Mode) :
    ({ this with toMode := mode, zzMarkedPos := zzMarkedPosL } : Yylex).At
      ⟨mode, t.yychar + k, t.rest.drop k⟩ := by
  have hlength : zzMarkedPosL - this.zzStartRead = k := by
    rw [hmarked, Nat.add_sub_cancel_left]
  refine ⟨⟨h.nonempty, h.start_le, h.end_le, h.eof⟩, hmarked ▸ Nat.le_add_right _ _,
    hmarked ▸ hle, rfl, ?_, ?_⟩
  · dsimp only
    rw [hlength, hyychar]
  · dsimp only
    rw [hlength, ← hahead]
    rfl

theorem yylex_round (double : Doubles D) (h : this.At t) (hsize : t.rest.length < 2 ^ 30) (hfuel : t.rest.length ≤ fuel) :
    Rounds double fuel this t (t.round double) := by
  by_cases hnil : t.rest = []
  · obtain ⟨this', hyylex, hat, hyychar⟩ := yylex_eof double fuel h hnil
    rw [Text.round_eq_none_iff.2 hnil]
    exact .eof hyylex hat hyychar
  · obtain ⟨hfits, hahead⟩ := h.next
    have hinit : this.next.Stands this.next.start 0 0 := ⟨rfl, rfl, le_rfl, h.marked_le⟩
    obtain ⟨q, n, r, hmunch, hpos, hle, hact⟩ := Text.exists_lexeme double hnil
    obtain ⟨c, this', m', n', k', hloop, hfits', hsame, hst', hmarks⟩ :=
      zzForAction_spec (D := D) (fuel + 1) hfits hinit (hahead ▸ hsize) (by rw [hahead]; omega)
    have hstate : this.next.start.zzState = zzLexState t.zzLexicalState := by rw [h.mode]; rfl
    rw [hahead, List.drop_zero, hstate] at hmarks
    change scanner.munch none 0 _ _ = _ at hmarks
    rw [hmunch] at hmarks
    obtain ⟨zzState, haction, hpair⟩ := Option.map_eq_some_iff.1 hmarks.symm
    obtain ⟨rfl, rfl⟩ := Prod.mk.inj hpair
    have hmarked_le : this'.zzStartRead + k' ≤ this'.zzEndRead :=
      (Nat.add_le_add_left hst'.marked_le _).trans hst'.le
    have hahead' : this'.ahead = t.rest := hsame.ahead.trans hahead
    have htext := hfits'.yytext hst'.marked hmarked_le
    rw [hahead'] at htext
    have hyychar : this'.yychar = t.yychar := by
      rw [hsame.yychar, h.yychar]
      rfl
    have hmode : this'.toMode = t.toMode := by
      rw [hsame.mode, h.mode]
      rfl
    have hround : t.round double = some (r.map fun r => (r.1, ⟨r.2, t.yychar + k', t.rest.drop k'⟩)) := by
      rw [Text.round, hmunch]
      dsimp only
      rw [hact]
      rfl
    rw [← htext, ← hyychar, ← hmode] at hact
    rw [hround]
    obtain e | ⟨token, mode⟩ := r
    · exact .thrown (yylex_thrown hloop (perform_thrown haction hact))
        ⟨hfits'.nonempty, hfits'.start_le, hfits'.end_le, hfits'.eof⟩
    · have hat := hfits'.behind hst'.marked hmarked_le hyychar hahead' mode
      cases token with
      | none => exact .skip (yylex_performed hloop (perform_found haction hact)) hat
      | some token => exact .token (yylex_performed hloop (perform_found haction hact)) hat hyychar

/-- **The scanner returns the tokens of the text**, then null, or throws. -/
theorem yylex_spec {ts : List (Nat × Yytoken D)} {e : Ending D} (hreads : Reads double t ts e)
    (h : this.At t) (hsize : t.rest.length < 2 ^ 30) (hfuel : t.rest.length < fuel) :
    match ts, e with
    | (p, token) :: ts, e => ∃ this' t', yylex double fuel this = (.ok (some token), this') ∧
        this'.yychar = p ∧ this'.At t' ∧ t'.rest.length < t.rest.length ∧ Reads double t' ts e
    | [], .eof p => ∃ this', yylex double fuel this = (.ok none, this') ∧ this'.yychar = p ∧ this'.Fits
    | [], .thrown e => ∃ this', yylex double fuel this = (.error e, this') ∧ this'.Fits := by
  obtain ⟨fuel, rfl⟩ := Nat.exists_eq_succ_of_ne_zero (Nat.ne_of_gt (Nat.zero_lt_of_lt hfuel))
  have hround := yylex_round double h hsize (Nat.le_of_lt_succ hfuel)
  induction hreads generalizing this fuel with
  | eof hr =>
    rw [hr] at hround
    cases hround with
    | eof hyylex hat hyychar => exact ⟨_, hyylex, hyychar, hat.fits⟩
  | thrown hr =>
    rw [hr] at hround
    cases hround with
    | thrown hyylex hfits => exact ⟨_, hyylex, hfits⟩
  | @token t t' token ts e hr hreads ih =>
    rw [hr] at hround
    cases hround with
    | token hyylex hat hyychar => exact ⟨_, t', hyylex, hyychar, hat, Text.round_length hr, hreads⟩
  | @skip t t' ts e hr hreads ih =>
    rw [hr] at hround
    have hlt := Text.round_length hr
    cases hround with
    | skip hyylex hat =>
      obtain ⟨fuel, rfl⟩ := Nat.exists_eq_succ_of_ne_zero (n := fuel) (by omega)
      have hspec := ih hat (by omega) fuel (by omega) (yylex_round double hat (by omega) (by omega))
      rw [hyylex]
      rcases ts with _ | ⟨⟨p, token⟩, ts⟩
      · cases e with
        | eof p => exact hspec
        | thrown e => exact hspec
      · obtain ⟨this', t'', hrun, hyychar, hat', hlt', hreads'⟩ := hspec
        exact ⟨this', t'', hrun, hyychar, hat', by omega, hreads'⟩

/-- A scanner that is reset has the new text to read. -/
theorem yyreset_at (hnonempty : 0 < this.zzBuffer.length) (reader : Reader) :
    (this.yyreset reader).At ⟨⟨YYINITIAL, this.sb⟩, 0, reader.rest⟩ where
  fits := ⟨hnonempty, le_rfl, Nat.zero_le _, nofun⟩
  marked := le_rfl
  marked_le := le_rfl
  mode := rfl
  yychar := rfl
  rest := by
    unfold yyreset ahead
    simp only [List.take_zero, List.drop_nil, List.nil_append, Nat.sub_self, List.drop_zero]

end Yylex

/-! ## Outside a string

What has been read of a string before makes no difference. -/

/-- The states that are not about strings. -/
def initialStates : List Nat :=
  [0, 2, 3, 4, 5, 6, 7, 8, 9, 10, 11, 12, 13, 14, 15, 19, 20, 21, 22, 23, 33, 34, 35, 36, 37, 38, 40, 41]

/-- The row of a state in the table. -/
def zzRow (zzState : Nat) : List Int := (zzTrans.drop (zzRowMap.getD zzState 0)).take 27

theorem zzNext_row {zzState k : Nat} (hk : k < 27) :
    zzNext zzState k = -1 ∨ zzNext zzState k ∈ zzRow zzState := by
  unfold zzNext zzRow
  generalize zzRowMap.getD zzState 0 = row
  by_cases hlt : row + k < zzTrans.length
  · right
    have hget : ((zzTrans.drop row).take 27)[k]? = some (zzTrans.getD (row + k) (-1)) := by
      rw [List.getElem?_take_of_lt hk, List.getElem?_drop, List.getElem?_eq_getElem hlt,
        List.getD_eq_getElem _ _ hlt]
    exact List.mem_of_getElem? hget
  · exact .inl (List.getD_eq_default _ _ (not_lt.1 hlt))

set_option maxRecDepth 2000 in
theorem zzRow_initialStates : ∀ q ∈ initialStates, ∀ next ∈ zzRow q,
    next = -1 ∨ next.toNat ∈ initialStates := by
  decide

theorem zzAction_initialStates : ∀ q ∈ initialStates, zzAction q ≤ 10 ∨ 21 ≤ zzAction q ∧ zzAction q ≤ 23 := by
  decide

theorem next_initialStates (q c q' : Nat) (hq : q ∈ initialStates) (h : scanner.next q c = some q') :
    q' ∈ initialStates := by
  have hnext : zzNext q (zzCMap c) = -1 ∨ (zzNext q (zzCMap c)).toNat ∈ initialStates :=
    (zzNext_row (zzCMap_lt c)).elim .inl (zzRow_initialStates q hq _)
  obtain hnone | hmem := hnext
  · cases (if_pos hnone).symm.trans h
  · change ite _ _ _ = _ at h
    split at h
    · cases h
    · exact Option.some.inj h ▸ hmem

/-- The mode with another string, unless a string has begun. -/
def Mode.withString (sb : List Nat) (m : Mode) : Mode :=
  if m.zzLexicalState = YYINITIAL then { m with sb } else m

theorem act_withString {double : Doubles D} {action : Nat} (h : action ≤ 10 ∨ 21 ≤ action ∧ action ≤ 23)
    (yytext : List Nat) (yychar : Nat) (sb sb' : List Nat) :
    act double action yytext yychar ⟨YYINITIAL, sb'⟩ =
      (act double action yytext yychar ⟨YYINITIAL, sb⟩).map fun r =>
        r.map fun p => (p.1, p.2.withString sb') := by
  have hle : action ≤ 23 := by omega
  interval_cases action
  all_goals first
    | rfl
    | omega
    | skip
  -- the numbers, whose texts may have no value
  · cases hval : Long.valueOf (String.ofList (characters yytext)) <;> simp only [act, hval] <;> rfl
  · cases hval : double.valueOf yytext <;> simp only [act, hval] <;> rfl

theorem act_initial {double : Doubles D} {action : Nat} (h : action ≤ 10 ∨ 21 ≤ action ∧ action ≤ 23)
    {yytext : List Nat} {yychar : Nat} {sb : List Nat} {token : Option (Yytoken D)} {mode : Mode}
    (hact : act double action yytext yychar ⟨YYINITIAL, sb⟩ = some (.ok (token, mode))) :
    mode = ⟨YYINITIAL, sb⟩ ∨ token = none ∧ mode = ⟨STRING_BEGIN, []⟩ := by
  have hle : action ≤ 23 := by omega
  interval_cases action
  all_goals first
    | omega
    | cases hact <;> first | exact .inl rfl | exact .inr ⟨rfl, rfl⟩
    | skip
  · cases hval : Long.valueOf (String.ofList (characters yytext)) with
    | none => simp [act, hval] at hact
    | some val =>
      simp only [act, hval] at hact
      cases hact
      exact .inl rfl
  · cases hval : double.valueOf yytext with
    | none => simp [act, hval] at hact
    | some val =>
      simp only [act, hval] at hact
      cases hact
      exact .inl rfl

namespace Text
variable {double : Doubles D} {yychar : Nat} {rest : List Nat}

theorem round_withString (sb sb' : List Nat) :
    round double ⟨⟨YYINITIAL, sb'⟩, yychar, rest⟩ =
      (round double ⟨⟨YYINITIAL, sb⟩, yychar, rest⟩).map fun r =>
        r.map fun p => (p.1, { p.2 with toMode := p.2.toMode.withString sb' }) := by
  unfold round
  dsimp only
  cases hmunch : scanner.munch none 0 (zzLexState YYINITIAL) rest with
  | none => rfl
  | some p =>
    obtain ⟨q, n⟩ := p
    have hq : q ∈ initialStates := Scanner.reach_invariant next_initialStates
      (by decide) (Scanner.munch_eq_some_iff.1 hmunch).reaches
    dsimp only
    rw [act_withString (zzAction_initialStates q hq) _ _ sb sb']
    obtain _ | e | p := act double (zzAction q) (rest.take n) yychar ⟨YYINITIAL, sb⟩ <;> rfl

theorem round_withString_ok {sb : List Nat} {token : Option (Yytoken D)} {t' : Text} (sb' : List Nat)
    (h : round double ⟨⟨YYINITIAL, sb⟩, yychar, rest⟩ = some (.ok (token, t'))) :
    round double ⟨⟨YYINITIAL, sb'⟩, yychar, rest⟩ =
      some (.ok (token, { t' with toMode := t'.toMode.withString sb' })) := by
  rw [round_withString sb sb', h]
  rfl

theorem round_initial {sb : List Nat} {token : Option (Yytoken D)} {t' : Text}
    (h : round double ⟨⟨YYINITIAL, sb⟩, yychar, rest⟩ = some (.ok (token, t'))) :
    t'.toMode = ⟨YYINITIAL, sb⟩ ∨ token = none ∧ t'.toMode = ⟨STRING_BEGIN, []⟩ := by
  unfold round at h
  dsimp only at h
  cases hmunch : scanner.munch none 0 (zzLexState YYINITIAL) rest with
  | none =>
    rw [hmunch] at h
    cases h
  | some p =>
    obtain ⟨q, n⟩ := p
    have hq : q ∈ initialStates := Scanner.reach_invariant next_initialStates
      (by decide) (Scanner.munch_eq_some_iff.1 hmunch).reaches
    rw [hmunch] at h
    dsimp only at h
    obtain ⟨r, hact, hr⟩ := Option.map_eq_some_iff.1 h
    cases r with
    | error e => cases hr
    | ok p =>
      cases hr
      exact act_initial (zzAction_initialStates q hq) hact

end Text

theorem reads_withString {double : Doubles D} {yychar : Nat} {rest sb : List Nat}
    {ts : List (Nat × Yytoken D)} {e : Ending D}
    (h : Reads double ⟨⟨YYINITIAL, sb⟩, yychar, rest⟩ ts e) (sb' : List Nat) :
    Reads double ⟨⟨YYINITIAL, sb'⟩, yychar, rest⟩ ts e := by
  generalize ht : (⟨⟨YYINITIAL, sb⟩, yychar, rest⟩ : Text) = t at h
  induction h generalizing yychar rest with
  | eof hr =>
    subst ht
    refine .eof (t := ⟨⟨YYINITIAL, sb'⟩, yychar, rest⟩) ?_
    rw [Text.round_withString sb sb', hr]
    rfl
  | thrown hr =>
    subst ht
    refine .thrown ?_
    rw [Text.round_withString sb sb', hr]
    rfl
  | @skip t t' ts e hr h ih =>
    subst ht
    obtain ⟨mode, yychar', rest'⟩ := t'
    refine .skip (Text.round_withString_ok sb' hr) ?_
    obtain hmode | ⟨-, hmode⟩ := Text.round_initial hr
    · cases hmode
      exact ih rfl
    · cases hmode
      exact h
  | @token t t' token ts e hr h ih =>
    subst ht
    obtain ⟨mode, yychar', rest'⟩ := t'
    refine .token (t := ⟨⟨YYINITIAL, sb'⟩, yychar, rest⟩) (Text.round_withString_ok sb' hr) ?_
    obtain hmode | ⟨hnone, -⟩ := Text.round_initial hr
    · cases hmode
      exact ih rfl
    · cases hnone

end BaseService.Notify.JSON
