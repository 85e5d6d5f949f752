import LibBinlog.FileDriver
import LibBinlog.ReadableRows

/-!
# The arrays of rows

The client's array has at least as many slots as the last event had rows. Only that number is kept,
which may be far below the slots there are, so the array is given up sooner than necessary and never
too late. While an event is parsed, its rows are stored in arrays that are doubled; the count of
their slots is an `int`, which cannot be doubled at `2 ^ 30`.
-/

namespace LibBinlog

open Machine Memory

/-! ## The client's array -/

section

variable {σ : Type*} {drv : Driver σ} {bc bc' : BinlogClient σ} {rows : List BinlogRow}

/-- The clients that come about by rows events and calls in any order. The members that are not
the buffer's may be set to anything between two calls, as `fetchOne` sets some of them. -/
inductive ClientReached (drv : Driver σ) : BinlogClient σ → Prop
  | connected {ds : Option (DataSource σ)} {position index : ℕ} {serverid : ℤ}
      {bc : BinlogClient σ}
      (h : connectDataSource drv ds position index serverid = .ok (.ok bc)) : ClientReached drv bc
  | rowsEvent {bc bc' : BinlogClient σ} {rev : RowsEvent} (hbc : ClientReached drv bc)
      (hrev : rev.WellShaped) (h : setRowsEventBuffer bc rev = .ok bc') : ClientReached drv bc'
  | fetched {bc bc' : BinlogClient σ} {row : Option BinlogRow} (hbc : ClientReached drv bc)
      (h : _fetchOne drv bc = .ok (row, bc')) : ClientReached drv bc'
  | others {bc bc' : BinlogClient σ} (hbc : ClientReached drv bc) (hrows : bc'._rows = bc._rows)
      (hlen : bc'._lenRows = bc._lenRows) (hcur : bc'._cur = bc._cur) : ClientReached drv bc'

/-- The rows counted have slots, and no access is to a slot that is not there: an event with any
number of rows can be stored, a row can be fetched, and a call fails only as its events do. -/
structure SlotsKept (drv : Driver σ) (bc : BinlogClient σ) : Prop where
  cur_le : bc._cur ≤ bc._lenRows
  lenRows_le : bc._lenRows ≤ (bc._rows.getD []).length
  stores : ∀ rev : RowsEvent, rev.WellShaped → ∃ bc', setRowsEventBuffer bc rev = .ok bc'
  fetches : ∃ row bc', fetchFromBuffer bc = .ok (row, bc')
  calls : ∀ e, _fetchOne drv bc = .error e → getRowsEvent drv bc = .error e

theorem BufferHolds.congr (h : BufferHolds bc rows) (hrows : bc'._rows = bc._rows)
    (hlen : bc'._lenRows = bc._lenRows) (hcur : bc'._cur = bc._cur) : BufferHolds bc' rows := by
  obtain ⟨hle, hroom, hslots⟩ := h
  constructor
  · rwa [hcur, hlen]
  · rwa [hlen, hrows]
  · rwa [hrows, hlen, hcur]

/-- The buffer is the same while events are looked at. -/
theorem getRowsEvent_buffer {r : Option RowsEvent} (h : getRowsEvent drv bc = .ok (r, bc')) :
    bc'._rows = bc._rows ∧ bc'._lenRows = bc._lenRows ∧ bc'._cur = bc._cur := by
  fun_induction getRowsEvent drv bc with
  | case1 | case2 | case4 | case5 => cases h
  | case3 =>
    cases h
    exact ⟨rfl, rfl, rfl⟩
  | case6 bc ev ds hget rev bc'' hon =>
    cases h
    obtain ⟨bl, ds', rfl, -, -⟩ := onEvent_ok hon
    exact ⟨rfl, rfl, rfl⟩
  | case7 bc ev ds hget bc'' hon ih =>
    obtain ⟨bl, ds', rfl, -, -⟩ := onEvent_ok hon
    exact ih h

/-- A fetch hands out the first row, if there is one. -/
theorem BufferHolds.fetch (h : BufferHolds bc rows) :
    ∃ row bc', fetchFromBuffer bc = .ok (row, bc') ∧ BufferHolds bc' rows.tail := by
  cases rows with
  | nil => exact ⟨none, bc, fetchFromBuffer_nil h, h⟩
  | cons row rows =>
    obtain ⟨hfetch, hrest⟩ := fetchFromBuffer_cons h
    exact ⟨some row, _, hfetch, hrest⟩

/-- What a call comes to: the fault of its events, no event, or a fetch from the array as it was or
as the event has filled it. -/
theorem _fetchOne_cases (h : BufferHolds bc rows) :
    (∃ e, _fetchOne drv bc = .error e ∧ getRowsEvent drv bc = .error e) ∨
      ∃ row bc' rows', _fetchOne drv bc = .ok (row, bc') ∧ BufferHolds bc' rows' := by
  rw [_fetchOne]
  split_ifs with hempty
  · cases hget : getRowsEvent drv bc with
    | error e => exact .inl ⟨e, rfl, rfl⟩
    | ok out =>
      obtain ⟨answer, mid⟩ := out
      obtain ⟨hrows, hlen, hcur⟩ := getRowsEvent_buffer hget
      have hmid : BufferHolds mid rows := h.congr hrows hlen hcur
      right
      cases answer with
      | none => exact ⟨none, _, rows, rfl, hmid.congr rfl rfl rfl⟩
      | some rev =>
        obtain ⟨block, hset, hfilled⟩ := setRowsEventBuffer_ok (getRowsEvent_wellShaped hget) hmid
        have hincr : BufferHolds (BinlogClient.incrIndex
            { mid with _rows := block, _cur := 0, _lenRows := rev.nrows }) rev.binlogRows :=
          hfilled.congr rfl rfl rfl
        obtain ⟨row, last, hfetch, hlast⟩ := hincr.fetch
        refine ⟨row, last, _, ?_, hlast⟩
        simp only [hset]
        exact hfetch
  · have hincr : BufferHolds bc.incrIndex rows := h.congr rfl rfl rfl
    obtain ⟨row, last, hfetch, hlast⟩ := hincr.fetch
    exact .inr ⟨row, last, _, hfetch, hlast⟩

/-- Some rows are buffered in every client that is reached. -/
theorem ClientReached.holds (h : ClientReached drv bc) : ∃ rows, BufferHolds bc rows := by
  induction h with
  | connected h =>
    simp only [connectDataSource] at h
    split at h
    · cases h
    · split at h
      · cases h
      · cases h
      · cases h
        exact ⟨[], le_rfl, le_rfl, rfl⟩
  | rowsEvent _ hrev h ih =>
    obtain ⟨rows, hholds⟩ := ih
    obtain ⟨block, hset, hfilled⟩ := setRowsEventBuffer_ok hrev hholds
    cases hset.symm.trans h
    exact ⟨_, hfilled⟩
  | fetched _ h ih =>
    obtain ⟨rows, hholds⟩ := ih
    obtain ⟨e, hfault, -⟩ | ⟨row, last, rows', hfetch, hlast⟩ := _fetchOne_cases hholds
    · cases hfault.symm.trans h
    · cases hfetch.symm.trans h
      exact ⟨rows', hlast⟩
  | others _ hrows hlen hcur ih =>
    obtain ⟨rows, hholds⟩ := ih
    exact ⟨rows, hholds.congr hrows hlen hcur⟩

theorem slotsKept_of_holds (h : BufferHolds bc rows) : SlotsKept drv bc where
  cur_le := h.cur_le
  lenRows_le := h.lenRows_le
  stores rev hrev := by
    obtain ⟨block, hset, -⟩ := setRowsEventBuffer_ok hrev h
    exact ⟨_, hset⟩
  fetches := by
    obtain ⟨row, bc', hfetch, -⟩ := h.fetch
    exact ⟨row, bc', hfetch⟩
  calls e herror := by
    obtain ⟨e', hfault, hget⟩ | ⟨row, last, rows', hfetch, -⟩ := _fetchOne_cases h
    · cases hfault.symm.trans herror
      exact hget
    · cases hfetch.symm.trans herror

end

/-! ## The arrays of an event -/

section

variable {bl : Binlog} {fr : RowsFrame} {ev : Mem} {n : ℕ} {evcur : EventCursor}
  {st : RowsState}

/-- A store into the arrays: an image of the next row has been read. An update stores into both, at
the same index, and they have the same number of slots. -/
structure StoreOf (bl : Binlog) (ev : Mem) (fr : RowsFrame) (st : RowsState) : Prop where
  reached : ∃ cur : ℕ, rowsFrame bl ev = .ok (fr, cur) ∧
    Rounds bl fr ⟨[], [], 8, ⟨ev, toInt32 cur⟩⟩ st
  inside : toUInt32 st.evcur.cur < fr.evlen
  read : ∃ out, readImage bl fr fr.isused st.evcur = .ok out

def StoresFit (bl : Binlog) (ev : Mem) : Prop :=
  ∀ fr st, StoreOf bl ev fr st → (st.rows.length : ℤ) < (growRows st).totalrows

/-- The cursor behind `n` rows. -/
def rowStart (bl : Binlog) (fr : RowsFrame) (evcur : EventCursor) : ℕ → EventCursor
  | 0 => evcur
  | n + 1 =>
    let evcur := rowStart bl fr evcur n
    evcur.advance (rowSize bl fr evcur)

/-- Behind `n` rows there is another one. -/
structure RowAt (bl : Binlog) (fr : RowsFrame) (evcur : EventCursor) (n : ℕ) : Prop where
  inside : toUInt32 (rowStart bl fr evcur n).cur < fr.evlen
  readable : RowReadable bl fr (rowStart bl fr evcur n)

/-- The event has `2 ^ 30` rows and an image behind them. -/
def ManyRows (bl : Binlog) (ev : Mem) : Prop :=
  ∃ (fr : RowsFrame) (cur : ℕ), rowsFrame bl ev = .ok (fr, cur) ∧
    (∀ n < 2 ^ 30, RowAt bl fr ⟨ev, toInt32 cur⟩ n) ∧
    toUInt32 (rowStart bl fr ⟨ev, toInt32 cur⟩ (2 ^ 30)).cur < fr.evlen ∧
    ImageReadable bl fr fr.isused (rowStart bl fr ⟨ev, toInt32 cur⟩ (2 ^ 30))

theorem Rounds.slots (h : Rounds bl fr ⟨[], [], 8, evcur⟩ st) :
    Slots st.rows.length st.totalrows := by
  induction h with
  | start => exact slots_zero
  | @round st st' hst hin hstep ih =>
    obtain ⟨hroom, new, old, evcur', -, rfl⟩ := rowStep_ok.mp hstep
    have hlt : st.rows.length < 2 ^ 30 := lt_of_le_of_ne ih.le fun heq => ih.full heq hroom
    rw [List.length_append]
    exact (ih.grow hlt).2

/-- The rows read so far stand one behind the other in the event. -/
theorem Rounds.rowAt (h : Rounds bl fr ⟨[], [], 8, evcur⟩ st) :
    st.evcur = rowStart bl fr evcur st.rows.length ∧
      ∀ n < st.rows.length, RowAt bl fr evcur n := by
  induction h with
  | start => exact ⟨rfl, fun n hn => absurd hn n.not_lt_zero⟩
  | @round st st' hst hin hstep ih =>
    obtain ⟨hcur, hrows⟩ := ih
    have hnext := rowStep_steps hstep
    obtain ⟨-, new, old, evcur', hread, rfl⟩ := rowStep_ok.mp hstep
    rw [List.length_append, List.length_singleton]
    refine ⟨hnext.trans (by rw [rowStart, ← hcur]), fun n hn => ?_⟩
    rcases Nat.lt_succ_iff_lt_or_eq.mp hn with hlt | rfl
    · exact hrows n hlt
    · exact ⟨hcur ▸ hin, hcur ▸ readRow_ok_iff.mp ⟨_, hread⟩⟩

/-- Up to `2 ^ 30` rows are stored. -/
theorem rounds_of_rowAt (hn : n ≤ 2 ^ 30) (h : ∀ i < n, RowAt bl fr evcur i) :
    ∃ st, Rounds bl fr ⟨[], [], 8, evcur⟩ st ∧ st.rows.length = n ∧
      st.evcur = rowStart bl fr evcur n := by
  induction n with
  | zero => exact ⟨_, .start, rfl, rfl⟩
  | succ n ih =>
    obtain ⟨st, hst, hlen, hcur⟩ := ih (by omega) fun i hi => h i (by omega)
    obtain ⟨hin, hreadable⟩ := h n (Nat.lt_succ_self n)
    rw [← hcur] at hin hreadable
    obtain ⟨⟨new, old, evcur'⟩, hread⟩ := readRow_ok_iff.mpr hreadable
    obtain ⟨hroom, -⟩ := hst.slots.grow (by omega)
    have hstep := rowStep_ok.mpr ⟨hroom, new, old, evcur', hread, rfl⟩
    refine ⟨_, hst.round hin hstep, by simp [hlen], ?_⟩
    rw [rowStep_steps hstep, hcur, rowStart]

theorem storesFit_iff : StoresFit bl ev ↔ ¬ManyRows bl ev := by
  constructor
  · rintro hfit ⟨fr, cur, hframe, hrows, hin, hreadable⟩
    obtain ⟨st, hst, hlen, hcur⟩ := rounds_of_rowAt le_rfl hrows
    rw [← hcur] at hin hreadable
    exact hst.slots.full hlen
      (hfit fr st ⟨⟨cur, hframe, hst⟩, hin, readImage_ok_iff.mpr hreadable⟩)
  · rintro hfew fr st ⟨⟨cur, hframe, hst⟩, hin, hread⟩
    have hslots := hst.slots
    rcases hslots.le.lt_or_eq with hlt | heq
    · exact (hslots.grow hlt).1
    · obtain ⟨hcur, hrows⟩ := hst.rowAt
      rw [heq] at hcur hrows
      exact absurd ⟨fr, cur, hframe, hrows, hcur ▸ hin, hcur ▸ readImage_ok_iff.mp hread⟩ hfew

/-- The client stays within its array, and an event within its own. -/
def RowArraysKept {σ : Type*} (drv : Driver σ) (bl : Binlog) (ev : Mem) : Prop :=
  (∀ bc, ClientReached drv bc → SlotsKept drv bc) ∧ StoresFit bl ev

/-- The client's array always has the slots. Those of an event have them up to `2 ^ 30` rows. -/
theorem rowArraysKept_iff {σ : Type*} (drv : Driver σ) (bl : Binlog) (ev : Mem) :
    RowArraysKept drv bl ev ↔ ¬ManyRows bl ev := by
  have hclient (bc : BinlogClient σ) (hbc : ClientReached drv bc) : SlotsKept drv bc := by
    obtain ⟨rows, hholds⟩ := hbc.holds
    exact slotsKept_of_holds hholds
  rw [RowArraysKept, storesFit_iff]
  exact and_iff_right hclient

end

/-! ## Too many rows -/

/-- A table with one column, an integer that may be NULL. -/
def oneColumn : Binlog :=
  { Binlog.zero with hdrlen := 19, table := ⟨0, 0, 0, 0, [], [], 1, 0, [3], [1], [0]⟩ }

/-- A write event of `2 ^ 30 + 30` bytes. The last `2 ^ 30 + 1` are the bitmaps of as many rows, in
which the column is NULL. -/
def oneByteRows : Mem := fun p =>
  if p < 29 then
    ofBytes ([0, 0, 0, 0, 23, 0, 0, 0, 0, 30, 0, 0, 64] ++ List.replicate 14 0 ++ [1, 1]) p
  else 1

def oneByteRowsFrame : RowsFrame := ⟨23, 2 ^ 30 + 30, 1, 1, 28, 29⟩

theorem rowsFrame_oneByteRows : rowsFrame oneColumn oneByteRows = .ok (oneByteRowsFrame, 29) := by
  have htable : getUint48 oneByteRows (19 : ℕ) = 0 := rfl
  have hcount : decodeint oneByteRows (toUInt32 ((19 : ℕ) + 8)) = (1, 28) := rfl
  have hevlen : getUint32 oneByteRows 9 = 2 ^ 30 + 30 := by decide
  simp only [rowsFrame, parseHeader, oneColumn, htable, hcount, hevlen, if_true]
  rfl

theorem isSet_oneByteRows {p : ℤ} (h : 29 ≤ p) : isSet oneByteRows p 0 = true := by
  have hbyte : oneByteRows p = 1 := if_neg (by omega)
  rw [isSet, Nat.zero_div, Nat.cast_zero, add_zero, hbyte]
  rfl

theorem rowSize_oneByteRows {p : ℤ} (h : 29 ≤ p) :
    rowSize oneColumn oneByteRowsFrame ⟨oneByteRows, p⟩ = 1 := by
  have hcolumn : columnsSize oneColumn p 28 1 0 (EventCursor.advance ⟨oneByteRows, p⟩ 1) = 0 := by
    rw [columnsSize, columnSize, EventCursor.advance, isSet_oneByteRows h]
    rfl
  rw [rowSize, if_neg (by decide), imageSize]
  exact congrArg (1 + ·) hcolumn

theorem rowStart_oneByteRows {n : ℕ} (h : n ≤ 2 ^ 30) :
    rowStart oneColumn oneByteRowsFrame ⟨oneByteRows, 29⟩ n = ⟨oneByteRows, 29 + n⟩ := by
  induction n with
  | zero => rfl
  | succ n ih =>
    rw [rowStart, ih (by omega), rowSize_oneByteRows (by omega),
      EventCursor.advance_mk (by omega) (by omega)]
    push_cast
    rw [add_assoc]

theorem rowReadable_oneByteRows {p : ℤ} (h : 29 ≤ p) :
    RowReadable oneColumn oneByteRowsFrame ⟨oneByteRows, p⟩ := by
  refine ⟨fun i hi hvalue => ?_, fun hupdate => absurd hupdate (by decide)⟩
  obtain rfl : i = 0 := Nat.lt_one_iff.mp hi
  exact absurd ((isSet_oneByteRows h).symm.trans hvalue.1) (by decide)

theorem rowAt_oneByteRows {n : ℕ} (h : n ≤ 2 ^ 30) :
    RowAt oneColumn oneByteRowsFrame ⟨oneByteRows, 29⟩ n := by
  constructor
  · have hin := toUInt32_of_range (x := 29 + (n : ℤ)) (by omega) (by omega)
    rw [rowStart_oneByteRows h, oneByteRowsFrame]
    dsimp only
    omega
  · rw [rowStart_oneByteRows h]
    exact rowReadable_oneByteRows (by omega)

theorem manyRows_oneByteRows : ManyRows oneColumn oneByteRows :=
  have hlast : RowAt oneColumn oneByteRowsFrame ⟨oneByteRows, 29⟩ (2 ^ 30) :=
    rowAt_oneByteRows le_rfl
  ⟨oneByteRowsFrame, 29, rowsFrame_oneByteRows, fun _ hn => rowAt_oneByteRows hn.le, hlast.inside,
    hlast.readable.1⟩

theorem oneByteRows_overrun : ¬RowArraysKept fileDriver oneColumn oneByteRows :=
  fun h => storesFit_iff.mp h.2 manyRows_oneByteRows

end LibBinlog
