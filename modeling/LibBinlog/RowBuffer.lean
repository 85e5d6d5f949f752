import LibBinlog.Log
import LibBinlog.RowsLoop
import Mathlib.Data.List.ReduceOption

/-!
# The client's row buffer

`_rows` may have more slots than the `_lenRows` that are in use. `BufferHolds bc rows` says that the
slots from `_cur` on hold `rows`; filling the buffer with an event's rows and fetching from it keep
every access inside the block.
-/

namespace LibBinlog

open Machine Memory

variable {σ : Type*} {bc : BinlogClient σ} {rev : RowsEvent} {bl : Binlog} {ev : Mem}
  {rows : List BinlogRow}

/-! ## The arrays of a rows event -/

/-- `nrows` counts the rows, and an update has as many old rows. -/
structure RowsEvent.WellShaped (rev : RowsEvent) : Prop where
  nrows : rev.nrows = rev.rows.length
  rowsold : rev.rowsold.isSome ↔ rev.type = EventType.updateRows
  length_rowsold : ∀ rowsold, rev.rowsold = some rowsold → rowsold.length = rev.rows.length

theorem rowsLoop_length_rowsold {fr : RowsFrame} {fuel : ℕ} {st st' : RowsState}
    (hfr : fr.type = EventType.updateRows) (hst : st.rowsold.length = st.rows.length)
    (h : rowsLoop bl fr fuel st = .ok st') : st'.rowsold.length = st'.rows.length := by
  induction fuel generalizing st with
  | zero => cases h
  | succ fuel ih =>
    obtain ⟨fuel', hfuel, ⟨-, rfl⟩ | ⟨-, mid, hstep, hloop⟩⟩ := rowsLoop_ok h
    · exact hst
    · cases hfuel
      obtain ⟨-, new, old, cur, hread, rfl⟩ := rowStep_ok.mp hstep
      have hold := length_old hread
      rw [if_pos hfr] at hold
      exact ih (by simp [hst, hold]) hloop

theorem rowsFrame_type {fr : RowsFrame} {cur : ℕ} (h : rowsFrame bl ev = .ok (fr, cur)) :
    fr.type = getEventType ev := by
  simp only [rowsFrame] at h
  split_ifs at h <;> cases h <;> rfl

theorem parseRowsEvent_wellShaped (h : parseRowsEvent bl ev = .ok rev) : rev.WellShaped := by
  obtain ⟨fr, st, himages, rfl⟩ := parseRowsEvent_ok.mp h
  obtain ⟨cur, hframe, hloop⟩ := parseRowImages_ok himages
  have htype : fr.type = (parseHeader bl ev).type := rowsFrame_type hframe
  refine ⟨rfl, ?_, fun rowsold hold => ?_⟩
  · by_cases hupdate : (parseHeader bl ev).type = EventType.updateRows <;> simp [hupdate]
  · simp only at hold
    split_ifs at hold with hupdate
    cases hold
    exact rowsLoop_length_rowsold (htype.trans hupdate) rfl hloop

/-! ## Filling -/

theorem RowsEvent.length_binlogRows (h : rev.WellShaped) :
    rev.binlogRows.length = rev.nrows := by
  rw [binlogRows, h.nrows]
  cases hold : rev.rowsold with
  | none => exact List.length_map _
  | some rowsold => simp [h.length_rowsold rowsold hold]

theorem eventRow_ok (h : rev.WellShaped) {i : ℕ} (hi : i < rev.binlogRows.length) :
    eventRow rev i = .ok rev.binlogRows[i] := by
  have hlen := RowsEvent.length_binlogRows h
  have hrow : i < rev.rows.length := by rw [← h.nrows, ← hlen]; exact hi
  rw [eventRow, List.getElem?_eq_getElem hrow]
  cases hold : rev.rowsold with
  | none =>
    have hne : rev.type ≠ EventType.updateRows := fun he => by
      simpa [hold] using h.rowsold.mpr he
    simp [hne, RowsEvent.binlogRows, hold]
  | some rowsold =>
    have hupdate : rev.type = EventType.updateRows := h.rowsold.mp (by simp [hold])
    have hrow' : i < rowsold.length := by rw [h.length_rowsold rowsold hold]; exact hrow
    simp [hupdate, RowsEvent.binlogRows, hold, List.getElem?_eq_getElem hrow']

/-- Copying puts the rows into the first slots and keeps the others. -/
theorem copyRows_ok (h : rev.WellShaped) (slots : List (Option BinlogRow)) {k i : ℕ}
    (hk : i + k = rev.nrows) (hslots : rev.nrows ≤ slots.length)
    (hdone : slots.take i = (rev.binlogRows.map some).take i) :
    ∃ slots', copyRows rev k i slots = .ok slots' ∧ slots'.length = slots.length ∧
      slots'.take rev.nrows = rev.binlogRows.map some := by
  have hlen := RowsEvent.length_binlogRows h
  induction k generalizing i slots with
  | zero =>
    rw [Nat.add_zero] at hk
    refine ⟨slots, rfl, rfl, ?_⟩
    rw [← hk, hdone, List.take_of_length_le (by rw [List.length_map]; omega)]
  | succ k ih =>
    have hi : i < rev.binlogRows.length := by omega
    have hi' : i < slots.length := by omega
    obtain ⟨slots', hcopy, hlen', htake⟩ := ih
      (slots.set i (some rev.binlogRows[i])) (i := i + 1) (by omega) (by simpa using hslots) (by
        rw [List.take_add_one, List.take_set_of_le le_rfl, hdone, List.getElem?_set_self hi',
          List.take_add_one, List.getElem?_map, List.getElem?_eq_getElem hi]
        rfl)
    refine ⟨slots', ?_, by simpa using hlen', htake⟩
    rw [copyRows, eventRow_ok h hi]
    simp only [if_pos hi']
    exact hcopy

/-- The block and the counters hold the rows that are still to be fetched. -/
structure BufferHolds (bc : BinlogClient σ) (rows : List BinlogRow) : Prop where
  cur_le : bc._cur ≤ bc._lenRows
  lenRows_le : bc._lenRows ≤ (bc._rows.getD []).length
  slots : ((bc._rows.getD []).take bc._lenRows).drop bc._cur = rows.map some

theorem BufferHolds.length (h : BufferHolds bc rows) : rows.length = bc._lenRows - bc._cur := by
  have hlen := congrArg List.length h.slots
  have hle := h.lenRows_le
  rw [List.length_drop, List.length_take, List.length_map] at hlen
  omega

/-- The rows that are still to be fetched from the buffer. -/
def BinlogClient.buffered (bc : BinlogClient σ) : List BinlogRow :=
  (((bc._rows.getD []).take bc._lenRows).drop bc._cur).reduceOption

theorem reduceOption_map_some {α : Type*} (l : List α) : (l.map some).reduceOption = l := by
  induction l with
  | nil => rfl
  | cons a l ih => rw [List.map_cons, List.reduceOption_cons_of_some, ih]

theorem BufferHolds.buffered_eq (h : BufferHolds bc rows) : bc.buffered = rows := by
  rw [BinlogClient.buffered, h.slots, reduceOption_map_some]

/-- The buffer after an event: its rows and nothing else. -/
theorem setRowsEventBuffer_ok (h : rev.WellShaped) (hbuf : BufferHolds bc rows) :
    ∃ block, setRowsEventBuffer bc rev =
        .ok { bc with _rows := block, _cur := 0, _lenRows := rev.nrows } ∧
      BufferHolds { bc with _rows := block, _cur := 0, _lenRows := rev.nrows } rev.binlogRows := by
  have hlen := RowsEvent.length_binlogRows h
  have hle := hbuf.lenRows_le
  have hcopy (slots : List (Option BinlogRow)) (hslots : rev.nrows ≤ slots.length) :
      ∃ slots', copyRows rev rev.nrows 0 slots = .ok slots' ∧
        BufferHolds { bc with _rows := some slots', _cur := 0, _lenRows := rev.nrows }
          rev.binlogRows := by
    obtain ⟨slots', hok, hlen', htake⟩ := copyRows_ok h slots (Nat.zero_add _) hslots (by simp)
    exact ⟨slots', hok, Nat.zero_le _, hslots.trans_eq hlen'.symm, htake⟩
  by_cases hgrow : bc._lenRows < rev.nrows
  · obtain ⟨slots', hok, hholds⟩ := hcopy (List.replicate rev.nrows none) (by simp)
    refine ⟨some slots', ?_, hholds⟩
    cases hrows : bc._rows <;> simp [setRowsEventBuffer, hrows, hgrow, hok]
  · cases hrows : bc._rows with
    | none =>
      rw [hrows, Option.getD_none, List.length_nil] at hle
      have hzero : rev.nrows = 0 := by omega
      have hnil : rev.binlogRows = [] := List.eq_nil_of_length_eq_zero (hlen.trans hzero)
      refine ⟨none, by simp [setRowsEventBuffer, hrows, hzero], ?_⟩
      rw [hnil, hzero]
      exact ⟨le_rfl, le_rfl, rfl⟩
    | some slots =>
      rw [hrows, Option.getD_some] at hle
      obtain ⟨slots', hok, hholds⟩ := hcopy slots (by omega)
      exact ⟨some slots', by simp [setRowsEventBuffer, hrows, hgrow, hok], hholds⟩

/-! ## Fetching -/

theorem fetchFromBuffer_cons {row : BinlogRow} (h : BufferHolds bc (row :: rows)) :
    fetchFromBuffer bc = .ok (some row, { bc with _cur := bc._cur + 1 }) ∧
      BufferHolds { bc with _cur := bc._cur + 1 } rows := by
  have hlen := h.length
  have hle := h.lenRows_le
  have hlt : bc._cur < bc._lenRows := by
    rw [List.length_cons] at hlen
    omega
  have hslots := h.slots
  rw [List.drop_eq_getElem_cons (by rw [List.length_take]; omega), List.map_cons,
    List.cons.injEq, List.getElem_take] at hslots
  refine ⟨?_, hlt, hle, hslots.2⟩
  rw [fetchFromBuffer, if_pos hlt]
  cases hrows : bc._rows with
  | none =>
    rw [hrows, Option.getD_none, List.length_nil] at hle
    omega
  | some slots =>
    simp only [hrows, Option.getD_some] at hslots hle
    simp only [List.getElem?_eq_getElem (show bc._cur < slots.length by omega), hslots.1]

theorem fetchFromBuffer_nil (h : BufferHolds bc []) : fetchFromBuffer bc = .ok (none, bc) := by
  have hlen := h.length
  have hle := h.cur_le
  rw [List.length_nil] at hlen
  rw [fetchFromBuffer, if_neg (by omega)]

theorem BufferHolds.nil_iff (h : BufferHolds bc rows) : bc._cur = bc._lenRows ↔ rows = [] := by
  have hlen := h.length
  have hle := h.cur_le
  rw [← List.length_eq_zero_iff]
  omega

end LibBinlog
