import LibBinlog.ClientRefinement
import LibBinlog.OwnedEvents

/-!
# What the client owns

A client owns its own three blocks, the row array, the rows that it has not handed out, and the
blocks of the table map, besides what is lost. Fetching hands a row over to the caller, and
`freeBinlogRow` frees what was handed over. On values the client does all the while what the client
without the memory does.
-/

namespace LibBinlog.Owned

open Machine Memory Ledger

/-! ## Rows of the client -/

namespace HeldBinlogRow

def erase (br : HeldBinlogRow) : BinlogRow where
  nfields := br.nfields
  type := br.type
  created := br.created
  row := br.row.erase
  rowOld := br.rowOld.map HeldRow.erase

def blocks (br : HeldBinlogRow) : Multiset Block :=
  br.row.counted br.nfields.toNat + br.rowOld.elim 0 (HeldRow.counted br.nfields.toNat)

/-- No more cells are counted than there are, and updates alone have old ones. -/
structure Fits (br : HeldBinlogRow) : Prop where
  row : br.nfields.toNat ≤ br.row.cells.length
  update : br.type = EventType.updateRows →
    ∃ old, br.rowOld = some old ∧ br.nfields.toNat ≤ old.cells.length
  single : br.type ≠ EventType.updateRows → br.rowOld = none

end HeldBinlogRow

variable {σ : Type} {bc : HeldClient σ} {br : HeldBinlogRow} {s : Multiset Block}

theorem freeCell_tracks {row : HeldRow} {i : ℕ} (hi : i < row.cells.length) (s : Multiset Block) :
    Tracks (row.cells[i].blocks + s) (freeCell row.cells[i]?) (.ok ()) Unseen fun _ => s := by
  rw [List.getElem?_eq_getElem hi]
  exact freePtr_tracks _ s

/-- The values of the cells from `i` on, as far as they are counted. -/
def countedFrom (n i : ℕ) (row : HeldRow) : Multiset Block :=
  ((row.cells.take n).drop i).flatMap HeldCell.blocks

theorem countedFrom_of_lt {n i : ℕ} {row : HeldRow} (hi : i < n) (hn : n ≤ row.cells.length) :
    countedFrom n i row = row.cells[i].blocks + countedFrom n (i + 1) row := by
  have hlength : i < (row.cells.take n).length := by
    rw [List.length_take_of_le hn]
    exact hi
  rw [countedFrom, List.drop_eq_getElem_cons hlength, List.flatMap_cons, ← Multiset.coe_add,
    List.getElem_take]
  rfl

theorem countedFrom_self {n : ℕ} {row : HeldRow} : countedFrom n n row = 0 := by
  rw [countedFrom, List.drop_of_length_le (List.length_take_le n row.cells)]
  rfl

theorem freeCells_tracks (h : br.Fits) (s : Multiset Block) (k i : ℕ)
    (hk : i + k = br.nfields.toNat) :
    Tracks (countedFrom br.nfields.toNat i br.row +
        br.rowOld.elim 0 (countedFrom br.nfields.toNat i) + s)
      (freeCells br k i) (.ok ()) Unseen fun _ => s := by
  induction k generalizing i with
  | zero =>
    refine tracks_pure _ rfl trivial ?_
    rw [← hk, Nat.add_zero, countedFrom_self]
    cases br.rowOld with
    | none => exact zero_add s
    | some old =>
      rw [Option.elim_some, countedFrom_self]
      exact zero_add s
  | succ k ih =>
    have hi : i < br.nfields.toNat := by omega
    have hrow : i < br.row.cells.length := hi.trans_le h.row
    have hnext := ih (i + 1) (by omega)
    unfold freeCells
    rw [countedFrom_of_lt hi h.row]
    by_cases hupdate : br.type = EventType.updateRows
    · obtain ⟨old, hold, hle⟩ := h.update hupdate
      have holdrow : i < old.cells.length := hi.trans_le hle
      rw [hold, Option.elim_some] at hnext
      rw [if_pos hupdate, hold, Option.elim_some, countedFrom_of_lt hi hle]
      have hblocks : br.row.cells[i].blocks + (old.cells[i].blocks +
          (countedFrom br.nfields.toNat (i + 1) br.row +
            countedFrom br.nfields.toNat (i + 1) old + s)) =
        br.row.cells[i].blocks + countedFrom br.nfields.toNat (i + 1) br.row +
          (old.cells[i].blocks + countedFrom br.nfields.toNat (i + 1) old) + s := by
        abel
      rw [← hblocks]
      apply (freeCell_tracks hrow _).then rfl
      intro _ _
      apply (freeCell_tracks holdrow _).then rfl
      intro _ _
      exact hnext
    · rw [h.single hupdate, Option.elim_none, add_zero] at hnext ⊢
      rw [if_neg hupdate, add_assoc]
      apply (freeCell_tracks hrow _).then rfl
      intro _ _
      exact hnext

/-- A pointer that leads to a row frees this row. -/
theorem freeBinlogRow_tracks {p : RowPtr} (hrow : bc.rowAt p = some br) (h : br.Fits)
    (hp : p.block ∈ s) :
    Tracks (br.blocks + s) (freeBinlogRow bc (some p)) (.ok ()) Unseen fun _ => s := by
  unfold freeBinlogRow
  dsimp only
  apply (tracks_touch _ (Multiset.mem_add.mpr (.inr hp))).then rfl
  intro _ _
  rw [hrow]
  have hcells := freeCells_tracks h
    ({br.row.block} + ((br.rowOld.map HeldRow.block).toList + s)) br.nfields.toNat 0
    (Nat.zero_add _)
  have hblocks : countedFrom br.nfields.toNat 0 br.row +
      br.rowOld.elim 0 (countedFrom br.nfields.toNat 0) +
        ({br.row.block} + ((br.rowOld.map HeldRow.block).toList + s)) = br.blocks + s := by
    rw [HeldBinlogRow.blocks, HeldRow.counted, countedFrom, List.drop_zero]
    cases br.rowOld with
    | none =>
      simp only [Option.elim_none, Option.map_none, Option.toList_none, Multiset.coe_nil]
      abel
    | some old =>
      simp only [Option.elim_some, Option.map_some, Option.toList_some, HeldRow.counted,
        countedFrom, List.drop_zero, Multiset.coe_singleton]
      abel
  rw [hblocks] at hcells
  apply hcells.then rfl
  intro _ _
  apply (tracks_free _ _ _).then rfl
  intro _ _
  split_ifs with hupdate
  · exact freePtr_tracks _ s
  · rw [h.single hupdate]
    exact tracks_pure _ rfl trivial (zero_add s)

/-! ## The rows of an event -/

namespace HeldRowsEvent

/-- The rows as the client keeps them. -/
def binlogRows (ev : HeldRowsEvent) : List HeldBinlogRow :=
  if ev.type = EventType.updateRows then
    List.zipWith (fun row old =>
      ⟨toInt32 ev.nfields, ev.type, toInt32 ev.ts, row, some old⟩) ev.rows ev.rowsold
  else ev.rows.map fun row => ⟨toInt32 ev.nfields, ev.type, toInt32 ev.ts, row, none⟩

theorem length_binlogRows {ev : HeldRowsEvent} (h : ev.Fits) :
    ev.binlogRows.length = ev.nrows := by
  unfold binlogRows
  split_ifs with hupdate
  · rw [List.length_zipWith, h.paired hupdate, min_self, h.nrows]
  · rw [List.length_map, h.nrows]

theorem eventRow_eq {ev : HeldRowsEvent} (h : ev.Fits) {i : ℕ} (hi : i < ev.binlogRows.length) :
    eventRow ev i = .ok ev.binlogRows[i] := by
  have hlength := length_binlogRows h
  have hrow : i < ev.rows.length := by
    rw [← h.nrows, ← hlength]
    exact hi
  unfold eventRow
  rw [List.getElem?_eq_getElem hrow]
  dsimp only
  by_cases hupdate : ev.type = EventType.updateRows
  · have hold : i < ev.rowsold.length := (h.paired hupdate).symm ▸ hrow
    rw [if_pos hupdate, List.getElem?_eq_getElem hold]
    simp only [binlogRows, if_pos hupdate, List.getElem_zipWith]
  · rw [if_neg hupdate]
    simp only [binlogRows, if_neg hupdate, List.getElem_map]

theorem fits_of_mem {ev : HeldRowsEvent} (h : ev.Fits) {br : HeldBinlogRow}
    (hbr : br ∈ ev.binlogRows) : br.Fits := by
  have hcount := toNat_toInt32_le ev.nfields
  unfold binlogRows at hbr
  generalize toInt32 (ev.nfields : ℤ) = n at hcount hbr
  split_ifs at hbr with hupdate
  · obtain ⟨i, hi, rfl⟩ := List.getElem_of_mem hbr
    rw [List.length_zipWith] at hi
    rw [List.getElem_zipWith]
    have hrow := h.counted ev.rows[i] (List.mem_append_left _ (List.getElem_mem _))
    have hold := h.counted ev.rowsold[i] (List.mem_append_right _ (List.getElem_mem _))
    refine ⟨hcount.trans_eq hrow.symm, fun _ => ⟨_, rfl, hcount.trans_eq hold.symm⟩,
      fun hnot => absurd hupdate hnot⟩
  · obtain ⟨row, hrow, rfl⟩ := List.mem_map.mp hbr
    have hlength := h.counted row (List.mem_append_left _ hrow)
    exact ⟨hcount.trans_eq hlength.symm, fun heq => absurd heq hupdate, fun _ => rfl⟩

theorem length_of_mem {ev : HeldRowsEvent} (h : ev.Fits) {br : HeldBinlogRow}
    (hbr : br ∈ ev.binlogRows) : br.row.cells.length = ev.nfields := by
  obtain ⟨i, hi, rfl⟩ := List.getElem_of_mem hbr
  have hrow := eventRow_eq h hi
  unfold eventRow at hrow
  cases hget : ev.rows[i]? with
  | none =>
    rw [hget] at hrow
    cases hrow
  | some row =>
    have hcounted := h.counted row (List.mem_append_left _ (List.mem_of_getElem? hget))
    rw [hget] at hrow
    dsimp only at hrow
    split_ifs at hrow with hupdate
    · cases hold : ev.rowsold[i]? with
      | none =>
        rw [hold] at hrow
        cases hrow
      | some old =>
        rw [hold] at hrow
        rw [← Except.ok.inj hrow]
        exact hcounted
    · rw [← Except.ok.inj hrow]
      exact hcounted

end HeldRowsEvent

/-- Copying puts the rows into the first slots and keeps the others. -/
theorem copyRows_eq {ev : HeldRowsEvent} (h : ev.Fits) {k i : ℕ}
    (slots : List (Option HeldBinlogRow)) (hk : i + k = ev.nrows)
    (hslots : ev.nrows ≤ slots.length)
    (hdone : slots.take i = (ev.binlogRows.map some).take i) :
    copyRows ev k i slots = .ok (ev.binlogRows.map some ++ slots.drop ev.nrows) := by
  have hlength := HeldRowsEvent.length_binlogRows h
  induction k generalizing i slots with
  | zero =>
    rw [Nat.add_zero] at hk
    subst hk
    have hall : (ev.binlogRows.map some).length ≤ ev.nrows := by
      rw [List.length_map, hlength]
    rw [List.take_of_length_le hall] at hdone
    rw [← hdone, List.take_append_drop]
    rfl
  | succ k ih =>
    have hi : i < ev.binlogRows.length := by omega
    have hi' : i < slots.length := by omega
    unfold copyRows
    rw [HeldRowsEvent.eventRow_eq h hi]
    dsimp only
    rw [if_pos hi']
    have hset : (slots.set i (some ev.binlogRows[i])).take (i + 1) =
        (ev.binlogRows.map some).take (i + 1) := by
      rw [List.take_add_one, List.take_set_of_le le_rfl, hdone, List.getElem?_set_self hi',
        List.take_add_one, List.getElem?_map, List.getElem?_eq_getElem hi]
      rfl
    have hrest := ih (slots.set i (some ev.binlogRows[i])) (by omega)
      (by rwa [List.length_set]) hset
    rw [hrest, List.drop_set_of_lt (by omega)]

theorem eventRow_erase (ev : HeldRowsEvent) (i : ℕ) :
    LibBinlog.eventRow ev.erase i = (eventRow ev i).map HeldBinlogRow.erase := by
  unfold LibBinlog.eventRow eventRow
  dsimp only [HeldRowsEvent.erase]
  rw [List.getElem?_map]
  cases ev.rows[i]? with
  | none => rfl
  | some row =>
    dsimp only [Option.map_some]
    split_ifs with hupdate
    · rw [Option.bind_some, List.getElem?_map]
      cases ev.rowsold[i]? with
      | none => rfl
      | some old => simp only [Except.map, HeldBinlogRow.erase, Option.map_some]
    · simp only [Except.map, HeldBinlogRow.erase, Option.map_none]

/-- The slots without their blocks. -/
def eraseSlots (slots : List (Option HeldBinlogRow)) : List (Option BinlogRow) :=
  slots.map (Option.map HeldBinlogRow.erase)

theorem copyRows_erase (ev : HeldRowsEvent) (k i : ℕ) (slots : List (Option HeldBinlogRow)) :
    LibBinlog.copyRows ev.erase k i (eraseSlots slots) =
      (copyRows ev k i slots).map eraseSlots := by
  induction k generalizing i slots with
  | zero => rfl
  | succ k ih =>
    unfold LibBinlog.copyRows copyRows
    rw [eventRow_erase]
    cases eventRow ev i with
    | error e => rfl
    | ok row =>
      have hlength : (eraseSlots slots).length = slots.length := List.length_map _
      have hset : (eraseSlots slots).set i (some row.erase) =
          eraseSlots (slots.set i (some row)) := by
        simp only [eraseSlots, List.map_set, Option.map_some]
      dsimp only [Except.map]
      rw [hlength, hset]
      split_ifs
      · exact ih (i + 1) _
      · rfl

/-! ## The blocks of an event's rows -/

/-- The blocks of some rows that the client keeps. -/
def keptBlocks (rows : List HeldBinlogRow) : Multiset Block := (rows.map HeldBinlogRow.blocks).sum

@[simp] theorem keptBlocks_nil : keptBlocks [] = 0 := rfl

@[simp] theorem keptBlocks_cons (row : HeldBinlogRow) (rows : List HeldBinlogRow) :
    keptBlocks (row :: rows) = row.blocks + keptBlocks rows := List.sum_cons

theorem counted_add_uncounted (n : ℕ) (row : HeldRow) :
    row.counted n + row.uncounted n = row.blocks := by
  rw [HeldRow.counted, HeldRow.blocks, HeldRow.uncounted, add_assoc, Multiset.coe_add,
    ← List.flatMap_append, List.take_append_drop]

theorem keptBlocks_map (n : ℤ) (type : UInt8) (created : ℤ) (rows : List HeldRow) :
    keptBlocks (rows.map fun row => ⟨n, type, created, row, none⟩) +
      rows.flatMap (HeldRow.uncounted n.toNat) = rowBlocks rows := by
  induction rows with
  | nil => rfl
  | cons row rows ih =>
    rw [List.map_cons, keptBlocks_cons, rowBlocks_cons, ← ih,
      ← counted_add_uncounted n.toNat row, List.flatMap_cons, ← Multiset.coe_add,
      HeldBinlogRow.blocks, Option.elim_none]
    abel

theorem keptBlocks_zip (n : ℤ) (type : UInt8) (created : ℤ) {rows olds : List HeldRow}
    (h : olds.length = rows.length) :
    keptBlocks (List.zipWith (fun row old => ⟨n, type, created, row, some old⟩) rows olds) +
        (rows.flatMap (HeldRow.uncounted n.toNat) + olds.flatMap (HeldRow.uncounted n.toNat)) =
      rowBlocks rows + rowBlocks olds := by
  induction rows generalizing olds with
  | nil =>
    rw [List.eq_nil_of_length_eq_zero h]
    rfl
  | cons row rows ih =>
    obtain ⟨old, olds, rfl⟩ := List.exists_cons_of_length_eq_add_one h
    have hrest := ih (Nat.succ.inj h)
    rw [List.zipWith_cons_cons, keptBlocks_cons, rowBlocks_cons, rowBlocks_cons,
      ← counted_add_uncounted n.toNat row, ← counted_add_uncounted n.toNat old, List.flatMap_cons,
      List.flatMap_cons, ← Multiset.coe_add, ← Multiset.coe_add, HeldBinlogRow.blocks,
      Option.elim_some]
    dsimp only
    generalize (rows.flatMap (HeldRow.uncounted n.toNat) : Multiset Block) = u at hrest ⊢
    generalize (olds.flatMap (HeldRow.uncounted n.toNat) : Multiset Block) = u' at hrest ⊢
    generalize keptBlocks _ = kept at hrest ⊢
    calc row.counted n.toNat + old.counted n.toNat + kept +
          (row.uncounted n.toNat + u + (old.uncounted n.toNat + u'))
        = row.counted n.toNat + row.uncounted n.toNat +
            (old.counted n.toNat + old.uncounted n.toNat) + (kept + (u + u')) := by abel
      _ = row.counted n.toNat + row.uncounted n.toNat +
            (old.counted n.toNat + old.uncounted n.toNat) + (rowBlocks rows + rowBlocks olds) := by
          rw [hrest]
      _ = _ := by abel

theorem keptBlocks_binlogRows {ev : HeldRowsEvent} (h : ev.Fits) :
    keptBlocks ev.binlogRows + ev.uncounted = rowBlocks ev.rows + rowBlocks ev.rowsold := by
  unfold HeldRowsEvent.binlogRows
  rw [HeldRowsEvent.uncounted, List.flatMap_append, ← Multiset.coe_add]
  split_ifs with hupdate
  · exact keptBlocks_zip _ _ _ (h.paired hupdate)
  · rw [(h.single hupdate).2, List.flatMap_nil, Multiset.coe_nil, add_zero, rowBlocks_nil, add_zero]
    exact keptBlocks_map _ _ _ _

/-! ## The client -/

namespace HeldClient

def erase (bc : HeldClient σ) : BinlogClient σ where
  _rows := bc._rows.map fun rows => eraseSlots rows.2
  _lenRows := bc._lenRows
  _cur := bc._cur
  _startidx := bc._startidx
  binlog := bc.binlog.erase
  dataSource := bc.dataSource
  err := bc.err
  errstr := bc.errstr

def slots (bc : HeldClient σ) : List (Option HeldBinlogRow) := bc._rows.elim [] Prod.snd

/-- The rows that are still to be fetched. -/
def unfetched (bc : HeldClient σ) : List HeldBinlogRow :=
  ((bc.slots.take bc._lenRows).drop bc._cur).reduceOption

/-- What is allocated once, the table map, and what is lost. -/
def fixedBlocks (bc : HeldClient σ) : Multiset Block :=
  {bc.self} + {bc.source} + {bc.url} + bc.binlog.blocks + bc.lost

def blocks (bc : HeldClient σ) : Multiset Block :=
  bc.fixedBlocks + (bc._rows.map Prod.fst).toList + keptBlocks bc.unfetched

/-- The block and the counters hold the rows that are still to be fetched. -/
structure Holds (bc : HeldClient σ) (rows : List HeldBinlogRow) : Prop where
  cur_le : bc._cur ≤ bc._lenRows
  lenRows_le : bc._lenRows ≤ bc.slots.length
  slots : (bc.slots.take bc._lenRows).drop bc._cur = rows.map some
  fits : ∀ br ∈ rows, br.Fits
  mapped : ∀ br ∈ rows, Mapped bc.binlog br.row.cells.length

theorem Holds.unfetched {rows : List HeldBinlogRow} (h : bc.Holds rows) : bc.unfetched = rows := by
  rw [HeldClient.unfetched, h.slots]
  exact List.filterMap_map.trans List.filterMap_some

theorem Holds.length {rows : List HeldBinlogRow} (h : bc.Holds rows) :
    rows.length = bc._lenRows - bc._cur := by
  have hlength := congrArg List.length h.slots
  have hle := h.lenRows_le
  rw [List.length_drop, List.length_take, List.length_map] at hlength
  omega

end HeldClient

theorem freeArrays_tracks {ev : HeldRowsEvent} (h : ev.Fits) (s : Multiset Block) :
    Tracks ({ev.rowsBlock} + (ev.rowsoldBlock.toList + s)) (freeArrays ev) (.ok ()) Unseen
      fun _ => s := by
  apply (tracks_free _ _ _).then rfl
  intro _ _
  split_ifs with hupdate
  · exact freePtr_tracks _ s
  · rw [(h.single hupdate).1]
    exact tracks_pure _ rfl trivial (zero_add s)

/-- The blocks of a row array, and its slots. -/
abbrev Rows := Option (Block × List (Option HeldBinlogRow))

def Rows.blocks (rows : Rows) : List Block := (rows.map Prod.fst).toList

theorem newRows_tracks (nrows : ℕ) (s : Multiset Block) :
    Tracks s (newRows nrows) (.ok ())
      (fun b _ => ∃ block, b = some (block, List.replicate nrows none))
      fun b => Rows.blocks b + s := by
  apply (tracks_alloc s).then rfl
  intro block _
  exact tracks_pure _ rfl ⟨block, rfl⟩ rfl

theorem firstRows_tracks (bc : HeldClient σ) (nrows : ℕ) (s : Multiset Block) :
    Tracks (Rows.blocks bc._rows + s) (firstRows bc nrows) (.ok ())
      (fun b _ => (bc._lenRows < nrows → b.isSome) ∧ (¬bc._lenRows < nrows → b = bc._rows))
      fun b => Rows.blocks b + s := by
  unfold firstRows
  split_ifs with hfresh
  · obtain ⟨hnone, hgrow⟩ := hfresh
    rw [Option.isNone_iff_eq_none.mp hnone]
    apply (newRows_tracks nrows s).cast (zero_add s).symm
    rintro b - ⟨block, rfl⟩ -
    exact ⟨⟨fun _ => rfl, fun hnot => absurd hgrow hnot⟩, rfl⟩
  · refine tracks_pure _ rfl ⟨fun hgrow => ?_, fun _ => rfl⟩ rfl
    rw [Option.isSome_iff_ne_none]
    intro hnone
    exact hfresh ⟨Option.isNone_iff_eq_none.mpr hnone, hgrow⟩

theorem roomFor_tracks (bc : HeldClient σ) (nrows : ℕ) (s : Multiset Block) :
    Tracks (Rows.blocks bc._rows + s) (roomFor bc nrows) (.ok ())
      (fun b _ => (bc._lenRows < nrows → ∃ block, b = some (block, List.replicate nrows none)) ∧
        (¬bc._lenRows < nrows → b = bc._rows))
      fun b => Rows.blocks b + s := by
  apply (firstRows_tracks bc nrows s).then rfl
  rintro rows ⟨hsome, hkept⟩
  split_ifs with hgrow
  · apply (freePtr_tracks _ s).then rfl
    intro _ _
    apply (newRows_tracks nrows s).cast rfl
    rintro b - hnew -
    exact ⟨⟨fun _ => hnew, fun hnot => absurd hgrow.2 hnot⟩, rfl⟩
  · have hnot : ¬bc._lenRows < nrows := fun hlt => hgrow ⟨hsome hlt, hlt⟩
    exact tracks_pure _ rfl ⟨fun hlt => absurd hlt hnot, fun _ => hkept hnot⟩ rfl

/-- The slots that are filled. -/
def roomSlots (bc : BinlogClient σ) (nrows : ℕ) : Option (List (Option BinlogRow)) :=
  if bc._lenRows < nrows then some (List.replicate nrows none) else bc._rows

theorem setRowsEventBuffer_of_none {bc : BinlogClient σ} {ev : RowsEvent}
    (hroom : roomSlots bc ev.nrows = none) (hzero : ev.nrows = 0) :
    LibBinlog.setRowsEventBuffer bc ev =
      .ok { bc with _rows := none, _cur := 0, _lenRows := 0 } := by
  have hnot : ¬bc._lenRows < ev.nrows := by omega
  rw [roomSlots, if_neg hnot] at hroom
  simp [LibBinlog.setRowsEventBuffer, hroom, hzero]

theorem setRowsEventBuffer_of_some {bc : BinlogClient σ} {ev : RowsEvent}
    {slots slots' : List (Option BinlogRow)} (hroom : roomSlots bc ev.nrows = some slots)
    (hcopy : LibBinlog.copyRows ev ev.nrows 0 slots = .ok slots') :
    LibBinlog.setRowsEventBuffer bc ev =
      .ok { bc with _rows := some slots', _cur := 0, _lenRows := ev.nrows } := by
  unfold roomSlots at hroom
  split_ifs at hroom with hlt
  · cases hroom
    cases hrows : bc._rows <;> simp [LibBinlog.setRowsEventBuffer, hrows, hlt, hcopy]
  · simp [LibBinlog.setRowsEventBuffer, hroom, hlt, hcopy]

/-- The buffer after an event: its rows and nothing else. Without rows the array stays. -/
theorem setRowsEventBuffer_tracks {ev : HeldRowsEvent} (hholds : bc.Holds []) (h : ev.Fits)
    (hmap : Mapped bc.binlog ev.nfields) (s : Multiset Block) :
    Tracks (bc.blocks + ev.blocks + s) (setRowsEventBuffer bc ev)
      (LibBinlog.setRowsEventBuffer bc.erase ev.erase)
      (fun b a => b.erase = a ∧ b.Holds ev.binlogRows ∧ ∃ rows lost,
        b = { bc with _rows := rows, _cur := 0, _lenRows := ev.nrows, lost := lost } ∧
          (ev.binlogRows = [] → rows = bc._rows))
      fun b => b.blocks + s := by
  have hlength := HeldRowsEvent.length_binlogRows h
  have hle := hholds.lenRows_le
  have hbefore : Rows.blocks bc._rows + (bc.fixedBlocks + (ev.blocks + s)) =
      bc.blocks + ev.blocks + s := by
    rw [HeldClient.blocks, hholds.unfetched, keptBlocks_nil, Rows.blocks]
    abel
  rw [← hbefore]
  apply (roomFor_tracks bc ev.nrows _).then rfl
  rintro rows ⟨hgrown, hkept⟩
  have hslots : roomSlots bc.erase ev.nrows = rows.map fun rows => eraseSlots rows.2 := by
    unfold roomSlots
    by_cases hlt : bc._lenRows < ev.nrows
    · obtain ⟨block, rfl⟩ := hgrown hlt
      rw [show bc.erase._lenRows = bc._lenRows from rfl, if_pos hlt]
      simp only [Option.map_some, eraseSlots, List.map_replicate, Option.map_none]
    · rw [hkept hlt, show bc.erase._lenRows = bc._lenRows from rfl, if_neg hlt]
      rfl
  have hroom : ev.nrows ≤ (rows.elim [] Prod.snd).length := by
    by_cases hlt : bc._lenRows < ev.nrows
    · obtain ⟨block, rfl⟩ := hgrown hlt
      exact List.length_replicate.ge
    · rw [hkept hlt]
      exact (not_lt.mp hlt).trans hle
  cases rows with
  | none =>
    have hzero : ev.nrows = 0 := Nat.le_zero.mp hroom
    have hrows : bc._rows = none := by
      have hnot : ¬bc._lenRows < ev.nrows := by omega
      exact (hkept hnot).symm
    have hnil : ev.rows = [] := List.eq_nil_of_length_eq_zero (h.nrows.symm.trans hzero)
    have hold : ev.rowsold = [] := by
      by_cases hupdate : ev.type = EventType.updateRows
      · apply List.eq_nil_of_length_eq_zero
        rw [h.paired hupdate, hnil, List.length_nil]
      · exact (h.single hupdate).2
    have hnone : ev.binlogRows = [] := List.eq_nil_of_length_eq_zero (hlength.trans hzero)
    have hblocks : {ev.rowsBlock} + (ev.rowsoldBlock.toList + (bc.fixedBlocks + s)) =
        Rows.blocks none + (bc.fixedBlocks + (ev.blocks + s)) := by
      rw [HeldRowsEvent.blocks, hnil, hold, rowBlocks_nil]
      simp only [Rows.blocks, Option.map_none, Option.toList_none, Multiset.coe_nil]
      abel
    have hvalue : LibBinlog.setRowsEventBuffer bc.erase ev.erase = _ :=
      setRowsEventBuffer_of_none hslots hzero
    dsimp only
    rw [if_pos hzero, hvalue, ← hblocks]
    apply (freeArrays_tracks h _).then rfl
    intro _ _
    let emptied : HeldClient σ := { bc with _rows := none, _cur := 0, _lenRows := 0 }
    have hempty : emptied.Holds [] :=
      ⟨le_rfl, Nat.zero_le _, rfl, fun br hbr => absurd hbr List.not_mem_nil,
        fun br hbr => absurd hbr List.not_mem_nil⟩
    refine tracks_pure emptied rfl
      ⟨rfl, hnone ▸ hempty, none, bc.lost, by rw [hzero], fun _ => hrows.symm⟩ ?_
    rw [HeldClient.blocks, hempty.unfetched, keptBlocks_nil, add_zero]
    exact congrArg (· + s) (add_zero _).symm
  | some rows =>
    obtain ⟨block, slots⟩ := rows
    have hcopy := copyRows_eq h slots (Nat.zero_add _) hroom rfl
    have hcopied := copyRows_erase ev ev.nrows 0 slots
    rw [hcopy] at hcopied
    have hvalue : LibBinlog.setRowsEventBuffer bc.erase ev.erase = _ :=
      setRowsEventBuffer_of_some hslots hcopied
    dsimp only
    rw [hvalue, hcopy]
    have hblock : block ∈ (Rows.blocks (some (block, slots)) : Multiset Block) +
        (bc.fixedBlocks + (ev.blocks + s)) :=
      Multiset.mem_add.mpr (.inl (Multiset.mem_coe.mpr List.mem_cons_self))
    apply (tracks_touch _ hblock).then rfl
    intro _ _
    apply Tracks.lift_bind
    · intro e he
      cases he
    rintro slots' hslots'
    cases hslots'
    have hkeeps := keptBlocks_binlogRows h
    have hafter : {ev.rowsBlock} + (ev.rowsoldBlock.toList +
        (Rows.blocks (some (block, slots)) + bc.fixedBlocks + keptBlocks ev.binlogRows +
          ev.uncounted + s)) =
        Rows.blocks (some (block, slots)) + (bc.fixedBlocks + (ev.blocks + s)) := by
      rw [HeldRowsEvent.blocks]
      calc _ = {ev.rowsBlock} + ev.rowsoldBlock.toList + Rows.blocks (some (block, slots)) +
            bc.fixedBlocks + (keptBlocks ev.binlogRows + ev.uncounted) + s := by abel
        _ = _ := by rw [hkeeps]; abel
    rw [← hafter]
    apply (freeArrays_tracks h _).then rfl
    intro _ _
    let filled : HeldClient σ := { bc with
      _rows := some (block, ev.binlogRows.map some ++ slots.drop ev.nrows)
      _cur := 0
      _lenRows := ev.nrows
      lost := ev.uncounted ++ bc.lost }
    have hholds' : filled.Holds ev.binlogRows := by
      have hslots : filled.slots = ev.binlogRows.map some ++ slots.drop ev.nrows := rfl
      have hcount : (ev.binlogRows.map some).length = ev.nrows := by rw [List.length_map, hlength]
      refine ⟨Nat.zero_le _, ?_, ?_, fun br hbr => HeldRowsEvent.fits_of_mem h hbr,
        fun br hbr => ?_⟩
      · rw [hslots, List.length_append, hcount]
        exact Nat.le_add_right _ _
      · rw [hslots, List.drop_zero, List.take_left' hcount]
      · rw [HeldRowsEvent.length_of_mem h hbr]
        exact hmap
    refine tracks_pure filled rfl ⟨rfl, hholds', _, _, rfl, fun hnil => ?_⟩ ?_
    · have hzero : ev.nrows = 0 := by rw [← hlength, hnil, List.length_nil]
      rw [hnil, hzero, List.map_nil, List.nil_append, List.drop_zero]
      exact hkept (by omega)
    · rw [HeldClient.blocks, hholds'.unfetched]
      simp only [filled, HeldClient.fixedBlocks, ← Multiset.coe_add, Rows.blocks, Option.map_some]
      abel

end LibBinlog.Owned
