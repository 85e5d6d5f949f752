import LibBinlog.Locality
import LibBinlog.RowsLoop

/-!
# Progress of the row loop

The loop goes on while the cursor, read without its sign, is in front of the end of the event. A
round moves it by the bitmaps and the values of one row and takes it back into 32 bits. Without
columns a round moves nothing, and long values take the cursor back; then only the count of the rows
can end the loop, with a fault.
-/

namespace LibBinlog

open Machine Memory

variable {bl : Binlog} {ev : Mem} {fr : RowsFrame} {p isnull isused : ℤ} {type : UInt8}
  {word i k n : ℕ} {cell : Cell} {evcur evcur' : EventCursor} {st st' : RowsState}

/-! ## How far a row reaches -/

/-- What `value2Cell` steps over: the value, but nothing for a type that has no branch or a decimal
that is rejected. -/
def steppedOver (ev : Mem) (p : ℤ) (type : UInt8) (word : ℕ) : ℕ :=
  if switchType type word = some .newdecimal ∧
      (bin2decimal ev p 128 ((word >>> 8) % 256) (word &&& 0xFF)).1 ≠ .ok then 0
  else (valueSize ev p type word).getD 0

/-- The same for column `i`, which may be NULL or not used. -/
def columnSize (bl : Binlog) (isnull isused : ℤ) (i : ℕ) (evcur : EventCursor) : ℕ :=
  if !isSet evcur.ev isnull i && isSet evcur.ev isused i then
    steppedOver evcur.ev evcur.cur (bl.table.types.getD i 0) (bl.table.metas.getD i 0)
  else 0

/-- The `k` columns from `i` on. -/
def columnsSize (bl : Binlog) (isnull isused : ℤ) : ℕ → ℕ → EventCursor → ℕ
  | 0, _, _ => 0
  | k + 1, i, evcur =>
    let n := columnSize bl isnull isused i evcur
    n + columnsSize bl isnull isused k (i + 1) (evcur.advance n)

/-- A bitmap and the columns of one image. -/
def imageSize (bl : Binlog) (fr : RowsFrame) (isused : ℤ) (evcur : EventCursor) : ℕ :=
  let n := toUInt32 fr.bitlen
  n + columnsSize bl evcur.cur isused fr.nfields 0 (evcur.advance n)

/-- The image of one row, or both. -/
def rowSize (bl : Binlog) (fr : RowsFrame) (evcur : EventCursor) : ℕ :=
  let n := imageSize bl fr fr.isused evcur
  if fr.type = EventType.updateRows then n + imageSize bl fr fr.isused_u (evcur.advance n) else n

/-- The cursor is an `int`. -/
def EventCursor.InInt (evcur : EventCursor) : Prop := evcur.advance 0 = evcur

theorem inInt_advance (evcur : EventCursor) (n : ℕ) : (evcur.advance n).InInt := by
  rw [EventCursor.InInt, EventCursor.advance_advance, Nat.add_zero]

theorem inInt_iff : EventCursor.InInt ⟨ev, p⟩ ↔ -2 ^ 31 ≤ p ∧ p < 2 ^ 31 := by
  have h := @EventCursor.advance_eq_iff ev p 0
  rw [Nat.cast_zero, add_zero] at h
  exact h

theorem inInt_toInt32 (ev : Mem) (x : ℤ) : EventCursor.InInt ⟨ev, toInt32 x⟩ := by
  rw [inInt_iff, toInt32, signed]
  have hlow := Int.le_bmod (x := x) (m := 2 ^ 32) (by norm_num)
  have hhigh := Int.bmod_lt (x := x) (m := 2 ^ 32) (by norm_num)
  omega

/-! ## The cursor behind a row -/

theorem value2Cell_none (h : switchType type word = none) (evcur : EventCursor) :
    value2Cell evcur type word = .ok (.empty, evcur) := by
  rw [switchType] at h
  rw [value2Cell]
  generalize stringType type word = st at h ⊢
  obtain ⟨ty, len⟩ := st
  simp only [h]

theorem steppedOver_of_ne (h : switchType type word ≠ some .newdecimal) :
    steppedOver ev p type word = (valueSize ev p type word).getD 0 :=
  if_neg fun hdec => h hdec.1

theorem newdecimalCell_steps (hcur : evcur.InInt)
    (htype : switchType type word = some .newdecimal)
    (h : newdecimalCell word evcur = .ok (cell, evcur')) :
    evcur' = evcur.advance (steppedOver evcur.ev evcur.cur type word) := by
  rw [newdecimalCell] at h
  rw [steppedOver, valueSize, htype]
  dsimp only at h ⊢
  generalize bin2decimal evcur.ev evcur.cur 128 ((word >>> 8) % 256) (word &&& 0xFF) = read at h ⊢
  obtain ⟨status, d⟩ := read
  split_ifs at h with hword
  cases status with
  | ok =>
    cases h
    rw [if_neg (fun hbad => hbad.2 rfl), if_pos hword]
    rfl
  | truncated | overflow | badNum =>
    cases h
    rw [if_pos ⟨rfl, fun hok => by cases hok⟩]
    exact hcur.symm

theorem enumCell_steps (hcur : evcur.InInt) (htype : switchType type word = some .enum) :
    (enumCell word evcur).2 = evcur.advance (steppedOver evcur.ev evcur.cur type word) := by
  rw [steppedOver_of_ne (by rw [htype]; decide), valueSize, htype]
  dsimp only
  rw [enumCell]
  split
  · next hone => simp only [hone, readUint8, true_or, if_true, Option.getD_some]
  · next htwo => simp only [htwo, readUint16, or_true, if_true, Option.getD_some]
  · next hone htwo =>
    rw [if_neg (not_or.mpr ⟨hone, htwo⟩)]
    exact hcur.symm

theorem blobCell_steps (hcur : evcur.InInt) (htype : switchType type word = some .blob) :
    (blobCell word evcur).2 = evcur.advance (steppedOver evcur.ev evcur.cur type word) := by
  rw [steppedOver_of_ne (by rw [htype]; decide), valueSize, htype]
  dsimp only
  split_ifs with hword
  · exact blobCell_snd hword.1 hword.2 evcur
  · rw [Option.getD_none, hcur, blobCell] <;> omega

/-- The cursor behind a value. -/
theorem value2Cell_steps (hcur : evcur.InInt)
    (h : value2Cell evcur type word = .ok (cell, evcur')) :
    evcur' = evcur.advance (steppedOver evcur.ev evcur.cur type word) := by
  by_cases hdec : switchType type word = some .newdecimal
  · rw [value2Cell_switch hdec (by decide)] at h
    exact newdecimalCell_steps hcur hdec h
  have hsize : steppedOver evcur.ev evcur.cur type word =
      (valueSize evcur.ev evcur.cur type word).getD 0 := steppedOver_of_ne hdec
  cases hty : switchType type word with
  | none =>
    rw [value2Cell_none hty] at h
    cases h
    rw [hsize, valueSize, hty]
    exact hcur.symm
  | some t =>
    rw [valueSize, hty] at hsize
    by_cases hstring : t = .string
    · subst hstring
      rw [value2Cell_string hty] at h
      rw [hsize]
      exact (congrArg Prod.snd (Except.ok.inj h)).symm.trans (stringCell_snd _ _ _)
    rw [value2Cell_switch hty hstring] at h
    cases t with
    | string => exact absurd rfl hstring
    | newdecimal => exact absurd hty hdec
    | enum =>
      exact (congrArg Prod.snd (Except.ok.inj h)).symm.trans (enumCell_steps hcur hty)
    | blob =>
      exact (congrArg Prod.snd (Except.ok.inj h)).symm.trans (blobCell_steps hcur hty)
    | varchar | varString =>
      rw [hsize]
      exact (congrArg Prod.snd (Except.ok.inj h)).symm.trans (stringCell_snd _ _ _)
    | set =>
      rw [hsize]
      change setCell word evcur = .ok (cell, evcur') at h
      rw [setCell] at h
      split_ifs at h
      cases h
      rfl
    | decimal | null | tinyBlob | mediumBlob | longBlob | geometry =>
      rw [hsize]
      exact (congrArg Prod.snd (Except.ok.inj h)).symm.trans hcur.symm
    | tiny | short | long | float | double | timestamp | longlong | int24 | date | time | datetime
    | year | bit | newdate =>
      rw [hsize]
      exact (congrArg Prod.snd (Except.ok.inj h)).symm

theorem readCell_steps (hcur : evcur.InInt)
    (h : readCell bl isnull isused i evcur = .ok (cell, evcur')) :
    evcur' = evcur.advance (columnSize bl isnull isused i evcur) := by
  rw [readCell] at h
  rw [columnSize]
  split_ifs at h ⊢
  · exact value2Cell_steps hcur h
  · cases h
    exact hcur.symm

theorem readCells_steps {cells : BlRow} (hcur : evcur.InInt)
    (h : readCells bl isnull isused k i evcur = .ok (cells, evcur')) :
    evcur' = evcur.advance (columnsSize bl isnull isused k i evcur) := by
  induction k generalizing i evcur cells with
  | zero =>
    cases h
    exact hcur.symm
  | succ k ih =>
    rw [readCells_succ] at h
    cases hcell : readCell bl isnull isused i evcur with
    | error e =>
      rw [hcell] at h
      cases h
    | ok out =>
      obtain ⟨cell, mid⟩ := out
      have hmid := readCell_steps hcur hcell
      rw [hcell] at h
      obtain ⟨⟨rest, last⟩, hrest, hlast⟩ := Calls.map_ok.mp h
      obtain rfl : last = evcur' := congrArg Prod.snd hlast
      dsimp only at hrest
      rw [hmid] at hrest
      rw [ih (inInt_advance _ _) hrest, EventCursor.advance_advance, columnsSize]

/-- A step by a number that is negative or not. -/
theorem step_eq_advance (evcur : EventCursor) (x : ℤ) :
    { evcur with cur := toInt32 (evcur.cur + x) } = evcur.advance (toUInt32 x) := by
  have hcast : ((toUInt32 x : ℕ) : ℤ) = x % ((2 ^ 32 : ℕ) : ℤ) := by
    rw [toUInt32, unsigned, Int.toNat_of_nonneg (Int.emod_nonneg _ (by norm_num))]
    norm_num
  rw [EventCursor.advance, hcast, toInt32, toInt32, signed, signed, add_comm evcur.cur (x % _),
    Int.emod_add_bmod, add_comm x]

theorem readImage_steps {cells : BlRow}
    (h : readImage bl fr isused evcur = .ok (cells, evcur')) :
    evcur' = evcur.advance (imageSize bl fr isused evcur) := by
  rw [readImage, step_eq_advance] at h
  rw [readCells_steps (inInt_advance _ _) h, EventCursor.advance_advance, imageSize]

theorem readRow_steps {new : BlRow} {old : List BlRow}
    (h : readRow bl fr evcur = .ok (new, old, evcur')) :
    evcur' = evcur.advance (rowSize bl fr evcur) := by
  rw [readRow] at h
  rw [rowSize]
  cases hfirst : readImage bl fr fr.isused evcur with
  | error e =>
    rw [hfirst] at h
    cases h
  | ok out =>
    obtain ⟨cells, mid⟩ := out
    have hmid := readImage_steps hfirst
    rw [hfirst] at h
    dsimp only at h ⊢
    split_ifs at h ⊢
    · cases hsecond : readImage bl fr fr.isused_u mid with
      | error e =>
        rw [hsecond] at h
        cases h
      | ok out =>
        obtain ⟨cellsnew, last⟩ := out
        rw [hsecond] at h
        cases h
        rw [readImage_steps hsecond, hmid, EventCursor.advance_advance]
    · cases h
      exact hmid

theorem rowStep_steps (h : rowStep bl fr st = .ok st') :
    st'.evcur = st.evcur.advance (rowSize bl fr st.evcur) := by
  obtain ⟨-, new, old, evcur', hread, rfl⟩ := rowStep_ok.mp h
  exact readRow_steps hread

/-! ## Rounds -/

/-- The states that the loop comes to from `start`. -/
inductive Rounds (bl : Binlog) (fr : RowsFrame) (start : RowsState) : RowsState → Prop
  | start : Rounds bl fr start start
  | round {st st' : RowsState} (hst : Rounds bl fr start st)
    (hin : toUInt32 st.evcur.cur < fr.evlen) (hstep : rowStep bl fr st = .ok st') :
    Rounds bl fr start st'

/-- A round that the loop makes on the event. -/
structure RoundOf (bl : Binlog) (ev : Mem) (fr : RowsFrame) (st st' : RowsState) : Prop where
  reached : ∃ cur : ℕ, rowsFrame bl ev = .ok (fr, cur) ∧
    Rounds bl fr ⟨[], [], 8, ⟨ev, toInt32 cur⟩⟩ st
  inside : toUInt32 st.evcur.cur < fr.evlen
  step : rowStep bl fr st = .ok st'

/-- Every round moves the cursor ahead, and the loop ends. -/
def RowsEnd (bl : Binlog) (ev : Mem) : Prop :=
  (∀ fr st st', RoundOf bl ev fr st st' → st.evcur.cur < st'.evcur.cur) ∧
    parseRowsEvent bl ev ≠ .error .divergence

/-- Every row takes some bytes, and they end in front of `2 ^ 31`. The bytes count without multiples
of `2 ^ 32`. -/
def RowsFit (bl : Binlog) (ev : Mem) : Prop :=
  ∀ fr st st', RoundOf bl ev fr st st' → 0 < rowSize bl fr st.evcur % 2 ^ 32 ∧
    st.evcur.cur + (rowSize bl fr st.evcur % 2 ^ 32 : ℕ) < 2 ^ 31

theorem Rounds.inInt {start : RowsState} (hstart : start.evcur.InInt)
    (h : Rounds bl fr start st) : st.evcur.InInt := by
  induction h with
  | start => exact hstart
  | round hst hin hstep ih =>
    rw [rowStep_steps hstep]
    exact inInt_advance _ _

theorem lt_advance_iff (hcur : evcur.InInt) : evcur.cur < (evcur.advance n).cur ↔
    0 < n % 2 ^ 32 ∧ evcur.cur + (n % 2 ^ 32 : ℕ) < 2 ^ 31 := by
  obtain ⟨hlow, hhigh⟩ := inInt_iff.mp hcur
  have hmod : evcur.advance n = evcur.advance (n % 2 ^ 32) := by
    have hstep := step_eq_advance evcur n
    rw [toUInt32, unsigned] at hstep
    rw [EventCursor.advance, hstep]
    congr 1
  rw [hmod]
  generalize hr : n % 2 ^ 32 = r
  have hlt : r < 2 ^ 32 := hr ▸ Nat.mod_lt n (by norm_num)
  rw [EventCursor.advance_cur]
  by_cases hfits : evcur.cur + (r : ℤ) < 2 ^ 31
  · rw [toInt32_of_range (by omega) hfits]
    omega
  · have hwrap : toInt32 (evcur.cur + r) = evcur.cur + r - 2 ^ 32 := by
      have hshift := Int.sub_bmod_right (evcur.cur + r) (2 ^ 32)
      rw [toInt32, signed, ← hshift, Int.bmod_eq_of_le (by omega) (by omega)]
      norm_num
    rw [hwrap]
    omega

theorem RoundOf.lt_iff (h : RoundOf bl ev fr st st') : st.evcur.cur < st'.evcur.cur ↔
    0 < rowSize bl fr st.evcur % 2 ^ 32 ∧
      st.evcur.cur + (rowSize bl fr st.evcur % 2 ^ 32 : ℕ) < 2 ^ 31 := by
  obtain ⟨cur, -, hrounds⟩ := h.reached
  rw [rowStep_steps h.step]
  exact lt_advance_iff (hrounds.inInt (inInt_toInt32 ev cur))

/-! ## The end of the loop -/

theorem newdecimalCell_error {e : Fault} (h : newdecimalCell word evcur = .error e) :
    e = .memory := by
  rw [newdecimalCell] at h
  split_ifs at h
  · split at h <;> cases h
  · cases h
    rfl

theorem value2Cell_error {e : Fault} (h : value2Cell evcur type word = .error e) :
    e = .memory := by
  cases hty : switchType type word with
  | none =>
    rw [value2Cell_none hty] at h
    cases h
  | some t =>
    by_cases hstring : t = .string
    · subst hstring
      rw [value2Cell_string hty] at h
      cases h
    rw [value2Cell_switch hty hstring] at h
    cases t with
    | newdecimal =>
      rw [value2Cell_decimal] at h
      exact newdecimalCell_error h
    | set =>
      change setCell word evcur = .error e at h
      rw [setCell] at h
      split_ifs at h
      cases h
      rfl
    | string => exact absurd rfl hstring
    | _ => cases h

theorem readCells_error {e : Fault} (h : readCells bl isnull isused k i evcur = .error e) :
    e = .memory := by
  induction k generalizing i evcur with
  | zero => cases h
  | succ k ih =>
    rw [readCells] at h
    split_ifs at h
    · cases hcell : value2Cell evcur (bl.table.types.getD i 0) (bl.table.metas.getD i 0) with
      | error e' =>
        rw [hcell] at h
        cases h
        exact value2Cell_error hcell
      | ok out =>
        rw [hcell] at h
        dsimp only at h
        split at h
        · next hrest =>
          cases h
          exact ih hrest
        · cases h
    · split at h
      · next hrest =>
        cases h
        exact ih hrest
      · cases h

theorem rowStep_error {e : Fault} (h : rowStep bl fr st = .error e) : e = .memory := by
  rw [rowStep] at h
  split at h
  · next himage =>
    cases h
    exact readCells_error himage
  · split_ifs at h
    · split at h
      · next himage =>
        cases h
        exact readCells_error himage
      · cases h
    · cases h
      rfl

/-- The cursors from `cur` on that are in front of the end, negative ones first. -/
def roundsLeft (evlen : ℕ) (cur : ℤ) : ℤ :=
  if 0 ≤ cur then min evlen (2 ^ 31) - cur else evlen - (2 ^ 32 + cur) + 2 ^ 31

theorem toUInt32_cases (hlow : -2 ^ 31 ≤ p) (hhigh : p < 2 ^ 31) :
    (toUInt32 p : ℤ) = if 0 ≤ p then p else 2 ^ 32 + p := by
  split_ifs with hp
  · exact toUInt32_of_range hp (by omega)
  · rw [toUInt32, unsigned]
    omega

theorem roundsLeft_le (evlen : ℕ) (hlow : -2 ^ 31 ≤ p) : roundsLeft evlen p ≤ evlen := by
  rw [roundsLeft]
  split_ifs <;> omega

theorem roundsLeft_lt {evlen : ℕ} {q : ℤ} (hlow : -2 ^ 31 ≤ p) (hhigh : p < 2 ^ 31)
    (hin : toUInt32 p < evlen) (hlt : p < q) : roundsLeft evlen q < roundsLeft evlen p := by
  have hp := toUInt32_cases hlow hhigh
  rw [roundsLeft, roundsLeft]
  split_ifs at hp ⊢ <;> omega

theorem roundsLeft_pos {evlen : ℕ} (hlow : -2 ^ 31 ≤ p) (hhigh : p < 2 ^ 31)
    (hin : toUInt32 p < evlen) : 0 < roundsLeft evlen p := by
  have hp := toUInt32_cases hlow hhigh
  rw [roundsLeft]
  split_ifs at hp ⊢ <;> omega

/-- If every round moves the cursor ahead, there are no more rounds than bytes in the event. -/
theorem rowsLoop_ends (start : RowsState) (fuel : ℕ) (hstart : start.evcur.InInt)
    (hup : ∀ st st', Rounds bl fr start st → toUInt32 st.evcur.cur < fr.evlen →
      rowStep bl fr st = .ok st' → st.evcur.cur < st'.evcur.cur)
    (hst : Rounds bl fr start st) (hfuel : roundsLeft fr.evlen st.evcur.cur < fuel)
    (hpos : 0 < fuel) : rowsLoop bl fr fuel st ≠ .error .divergence := by
  induction fuel generalizing st with
  | zero => exact absurd hpos (Nat.lt_irrefl 0)
  | succ fuel ih =>
    obtain ⟨hlow, hhigh⟩ : -2 ^ 31 ≤ st.evcur.cur ∧ st.evcur.cur < 2 ^ 31 :=
      inInt_iff.mp (hst.inInt hstart)
    rw [rowsLoop]
    split_ifs with hin
    · cases hstep : rowStep bl fr st with
      | error e =>
        cases rowStep_error hstep
        intro hdiverges
        cases hdiverges
      | ok st' =>
        have hless := roundsLeft_lt hlow hhigh hin (hup st st' hst hin hstep)
        have hleft := roundsLeft_pos hlow hhigh hin
        exact ih (hst.round hin hstep) (by push_cast at hfuel; omega) (by push_cast at hfuel; omega)
    · intro hdiverges
      cases hdiverges

theorem rowsFrame_error {e : Fault} (h : rowsFrame bl ev = .error e) : e = .assertion := by
  simp only [rowsFrame] at h
  split_ifs at h <;> cases h <;> rfl

theorem parseRowImages_ends
    (hup : ∀ fr st st', RoundOf bl ev fr st st' → st.evcur.cur < st'.evcur.cur) :
    parseRowImages bl ev ≠ .error .divergence := by
  intro hdiverges
  rw [parseRowImages] at hdiverges
  cases hframe : rowsFrame bl ev with
  | error e =>
    rw [hframe] at hdiverges
    cases rowsFrame_error hframe
    cases hdiverges
  | ok out =>
    obtain ⟨fr, cur⟩ := out
    rw [hframe] at hdiverges
    have hstart := inInt_toInt32 ev cur
    have hends := rowsLoop_ends ⟨[], [], 8, ⟨ev, toInt32 cur⟩⟩ (fr.evlen + 1)
      hstart (fun st st' hst hin hstep => hup fr st st' ⟨⟨cur, hframe, hst⟩, hin, hstep⟩) .start
      (by
        have hle := roundsLeft_le fr.evlen (inInt_iff.mp hstart).1
        push_cast
        omega)
      (Nat.succ_pos _)
    cases hloop : rowsLoop bl fr (fr.evlen + 1) ⟨[], [], 8, ⟨ev, toInt32 cur⟩⟩ with
    | error e =>
      dsimp only at hdiverges
      rw [hloop] at hdiverges
      cases Except.error.inj hdiverges
      exact hends hloop
    | ok st =>
      dsimp only at hdiverges
      rw [hloop] at hdiverges
      cases hdiverges

theorem parseRowsEvent_ends
    (hup : ∀ fr st st', RoundOf bl ev fr st st' → st.evcur.cur < st'.evcur.cur) :
    parseRowsEvent bl ev ≠ .error .divergence := by
  intro hdiverges
  rw [parseRowsEvent] at hdiverges
  cases himages : parseRowImages bl ev with
  | error e =>
    rw [himages] at hdiverges
    cases Except.error.inj hdiverges
    exact parseRowImages_ends hup himages
  | ok out =>
    rw [himages] at hdiverges
    cases hdiverges

/-! ## Which events are read to their end -/

theorem rowsEnd_iff (bl : Binlog) (ev : Mem) : RowsEnd bl ev ↔ RowsFit bl ev := by
  constructor
  · rintro ⟨hup, -⟩ fr st st' hround
    exact hround.lt_iff.mp (hup fr st st' hround)
  · intro hfit
    have hup (fr : RowsFrame) (st st' : RowsState) (hround : RoundOf bl ev fr st st') :
        st.evcur.cur < st'.evcur.cur := hround.lt_iff.mpr (hfit fr st st' hround)
    exact ⟨hup, parseRowsEvent_ends hup⟩

/-- A write event for a table without columns, with one byte behind the column count. -/
def noColumns : Mem :=
  ofBytes ([0, 0, 0, 0, 23, 0, 0, 0, 0, 29, 0, 0, 0] ++ List.replicate 16 0)

theorem noColumns_not_rowsEnd : ¬RowsEnd { Binlog.zero with hdrlen := 19 } noColumns :=
  fun h => h.2 rfl

end LibBinlog
