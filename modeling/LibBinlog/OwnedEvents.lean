import LibBinlog.Owned
import LibBinlog.RowBuffer
import Mathlib.Tactic.Abel

/-!
# What parsing an event allocates

The parsers allocate what their results hold, and nothing else: three blocks for a table map, of
which the previous one gives its own back, and for a rows event the row arrays, the cells of the
rows and their values. `rowsevFreeRows` gives the latter back.
-/

namespace LibBinlog.Owned

open Machine Memory Ledger

variable {bl : HeldBinlog} {ev : Mem} {isnull isused : ℤ} {k i : ℕ} {evcur : EventCursor}
  {fr : RowsFrame} {s : Multiset Block}

/-! ## Cells -/

theorem value2Cell_tracks (s : Multiset Block) (evcur : EventCursor) (type : UInt8)
    (metaWord : ℕ) : Tracks s (value2Cell evcur type metaWord)
      (LibBinlog.value2Cell evcur type metaWord) (fun b a => (b.1.cell, b.2) = a)
      fun b => b.1.blocks + s := by
  apply Tracks.lift_bind
  · intro e he
    exact he
  · rintro ⟨cell, evcur'⟩ hcell
    dsimp only
    split_ifs with hvalue
    · apply (tracks_alloc s).then rfl
      intro block _
      exact tracks_pure _ hcell rfl rfl
    · exact tracks_pure _ hcell rfl (zero_add s).symm

theorem touchTable_tracks {table : TableEv × TablePtrs} (htable : bl.table = some table)
    (hs : bl.blocks ≤ s) : Tracks s (touchTable bl) (.ok ()) Unseen fun _ => s := by
  have hblocks : bl.blocks = table.2.blocks := by rw [HeldBinlog.blocks, htable]; rfl
  rw [hblocks] at hs
  have htypes : table.2.types ∈ s := Multiset.mem_of_le hs (by simp [TablePtrs.blocks])
  have hmetas : table.2.metas ∈ s := Multiset.mem_of_le hs (by simp [TablePtrs.blocks])
  unfold touchTable
  rw [htable]
  apply (tracks_touch _ htypes).then rfl
  intro _ _
  exact tracks_touch _ hmetas

/-- Where cells are read a table map has come. -/
def Mapped (bl : HeldBinlog) (n : ℕ) : Prop := n = 0 ∨ ∃ table, bl.table = some table

/-- A table map is only replaced by another one. -/
def HeldBinlog.Keeps (bl bl' : HeldBinlog) : Prop := bl.table.isSome → bl'.table.isSome

theorem Mapped.keeps {bl' : HeldBinlog} {n : ℕ} (h : Mapped bl n) (hkeeps : bl.Keeps bl') :
    Mapped bl' n := by
  obtain hzero | ⟨table, htable⟩ := h
  · exact .inl hzero
  · exact .inr (Option.isSome_iff_exists.mp (hkeeps (htable ▸ rfl)))

theorem readCells_tracks (hmap : Mapped bl k) (hs : bl.blocks ≤ s) (i : ℕ)
    (evcur : EventCursor) : Tracks s (readCells bl isnull isused k i evcur)
      (LibBinlog.readCells bl.erase isnull isused k i evcur)
      (fun b a => (b.1.map HeldCell.cell, b.2) = a ∧ b.1.length = k)
      fun b => b.1.flatMap HeldCell.blocks + s := by
  induction k generalizing i evcur s with
  | zero => exact tracks_pure _ rfl ⟨rfl, rfl⟩ (zero_add s).symm
  | succ k ih =>
    obtain ⟨table, htable⟩ := hmap.resolve_left (Nat.succ_ne_zero k)
    have hmap' : Mapped bl k := .inr ⟨table, htable⟩
    unfold readCells LibBinlog.readCells
    split_ifs with hbits
    · apply (touchTable_tracks htable hs).then rfl
      intro _ _
      apply (value2Cell_tracks s evcur _ _).bind
      · intro e he
        rw [he]
      · rintro ⟨cell, mid⟩ _ rfl hcell
        rw [hcell]
        dsimp only
        have hs' : bl.blocks ≤ cell.blocks + s := hs.trans (Multiset.le_add_left _ _)
        apply (ih hmap' hs' (i + 1) mid).bind
        · intro e he
          rw [he]
        · rintro ⟨cells, evcur'⟩ _ ⟨rfl, hlength⟩ hcells
          rw [hcells]
          dsimp only
          refine tracks_pure _ rfl ⟨rfl, congrArg Nat.succ hlength⟩ ?_
          rw [List.flatMap_cons, ← Multiset.coe_add]
          abel
    · apply (ih hmap' hs (i + 1) evcur).bind
      · intro e he
        rw [he]
      · rintro ⟨cells, evcur'⟩ _ ⟨rfl, hlength⟩ hcells
        rw [hcells]
        exact tracks_pure _ rfl ⟨rfl, congrArg Nat.succ hlength⟩ rfl

theorem readImage_tracks (hmap : Mapped bl fr.nfields) (hs : bl.blocks ≤ s) (isused : ℤ)
    (evcur : EventCursor) : Tracks s (readImage bl fr isused evcur)
      (LibBinlog.readImage bl.erase fr isused evcur)
      (fun b a => (b.1.erase, b.2) = a ∧ b.1.cells.length = fr.nfields)
      fun b => b.1.blocks + s := by
  apply (tracks_alloc s).then rfl
  intro block _
  have hs' : bl.blocks ≤ {block} + s := hs.trans (Multiset.le_add_left _ _)
  apply (readCells_tracks hmap hs' 0 _).bind
  · intro e he
    exact he
  · rintro ⟨cells, evcur'⟩ _ ⟨rfl, hlength⟩ hcells
    refine tracks_pure _ hcells ⟨rfl, hlength⟩ ?_
    rw [HeldRow.blocks]
    abel

/-! ## Rows -/

/-- The blocks of some rows. -/
def rowBlocks (rows : List HeldRow) : Multiset Block := (rows.map HeldRow.blocks).sum

@[simp] theorem rowBlocks_nil : rowBlocks [] = 0 := rfl

@[simp] theorem rowBlocks_cons (row : HeldRow) (rows : List HeldRow) :
    rowBlocks (row :: rows) = row.blocks + rowBlocks rows := List.sum_cons

@[simp] theorem rowBlocks_append (rows rows' : List HeldRow) :
    rowBlocks (rows ++ rows') = rowBlocks rows + rowBlocks rows' := by
  rw [rowBlocks, List.map_append, List.sum_append]
  rfl

namespace RowsState

def erase (st : RowsState) : LibBinlog.RowsState where
  rows := st.rows.map HeldRow.erase
  rowsold := st.rowsold.map HeldRow.erase
  totalrows := st.totalrows
  evcur := st.evcur

def blocks (st : RowsState) : Multiset Block :=
  {st.rowsBlock} + rowBlocks st.rows + st.rowsoldBlock.toList + rowBlocks st.rowsold

/-- All rows have as many cells as the event has columns, and every row of an update has its old
one. -/
structure Fits (st : RowsState) (fr : RowsFrame) : Prop where
  counted : ∀ row ∈ st.rows ++ st.rowsold, row.cells.length = fr.nfields
  paired : fr.type = EventType.updateRows → st.rowsold.length = st.rows.length
  single : fr.type ≠ EventType.updateRows → st.rowsoldBlock = none ∧ st.rowsold = []

end RowsState

theorem freePtr_tracks (ptr : Option Block) (s : Multiset Block) :
    Tracks (ptr.toList + s) (freePtr ptr) (.ok ()) Unseen fun _ => s := by
  cases ptr with
  | none => exact tracks_pure _ rfl trivial (zero_add s)
  | some block => exact tracks_free _ block s

theorem realloc_tracks (ptr : Option Block) (s : Multiset Block) :
    Tracks (ptr.toList + s) (realloc ptr) (.ok ()) Unseen fun b => {b} + s := by
  apply (tracks_alloc _).then rfl
  intro block _
  have hfree := (freePtr_tracks ptr s).frame {block}
  apply (hfree.cast (by abel) fun b a _ _ => ⟨trivial, rfl⟩).then rfl
  intro _ _
  exact tracks_pure _ rfl trivial (add_comm s {block})

theorem growRows_tracks {st : RowsState} (hfits : st.Fits fr) (s : Multiset Block) :
    Tracks (st.blocks + s) (growRows fr st) (.ok (LibBinlog.growRows st.erase))
      (fun b a => b.erase = a ∧ b.Fits fr) fun b => b.blocks + s := by
  unfold growRows LibBinlog.growRows
  have hlength : st.erase.rows.length = st.rows.length := List.length_map _
  rw [hlength]
  show Tracks _ _ (Except.ok (if st.totalrows ≤ st.rows.length then _ else _)) _ _
  have hrows : Tracks (st.blocks + s) (realloc (some st.rowsBlock)) (.ok ()) Unseen
      fun b => {b} + rowBlocks st.rows + st.rowsoldBlock.toList + rowBlocks st.rowsold + s := by
    have hframe := (realloc_tracks (some st.rowsBlock) 0).frame
      (rowBlocks st.rows + st.rowsoldBlock.toList + rowBlocks st.rowsold + s)
    apply hframe.cast
    · simp only [RowsState.blocks, Option.toList, Multiset.coe_singleton]
      abel
    · intro b a _ _
      refine ⟨trivial, ?_⟩
      abel
  split_ifs with hfull hupdate
  · apply hrows.then rfl
    intro rowsBlock _
    have hblocks : {rowsBlock} + rowBlocks st.rows + st.rowsoldBlock.toList +
        rowBlocks st.rowsold + s = st.rowsoldBlock.toList +
          ({rowsBlock} + rowBlocks st.rows + rowBlocks st.rowsold + s) := by
      abel
    rw [hblocks]
    apply (realloc_tracks st.rowsoldBlock _).then rfl
    intro rowsoldBlock _
    refine tracks_pure _ rfl
      ⟨rfl, hfits.counted, hfits.paired, fun hnot => absurd hupdate hnot⟩ ?_
    simp only [RowsState.blocks, Option.toList, Multiset.coe_singleton]
    abel
  · apply hrows.then rfl
    intro rowsBlock _
    exact tracks_pure _ rfl ⟨rfl, hfits.counted, hfits.paired, hfits.single⟩ rfl
  · exact tracks_pure _ rfl ⟨rfl, hfits⟩ rfl

theorem rowStep_tracks {st : RowsState} (hmap : Mapped bl fr.nfields) (hs : bl.blocks ≤ s)
    (hfits : st.Fits fr) : Tracks (st.blocks + s) (rowStep bl fr st)
      (LibBinlog.rowStep bl.erase fr st.erase) (fun b a => b.erase = a ∧ b.Fits fr)
      fun b => b.blocks + s := by
  apply (growRows_tracks hfits s).bind
  · intro e he
    cases he
  rintro grown _ ⟨rfl, hfits'⟩ hgrown
  unfold LibBinlog.rowStep
  rw [Except.ok.inj hgrown]
  have hs₁ : bl.blocks ≤ grown.blocks + s := hs.trans (Multiset.le_add_left _ _)
  apply (readImage_tracks hmap hs₁ fr.isused grown.evcur).bind
  · intro e he
    dsimp only [RowsState.erase]
    rw [he]
  rintro ⟨cells, evcur⟩ _ ⟨rfl, hcount⟩ hcells
  have hlength : grown.erase.rows.length = grown.rows.length := List.length_map _
  dsimp only
  rw [show grown.erase.evcur = grown.evcur from rfl, hcells]
  dsimp only
  rw [hlength, show grown.erase.totalrows = grown.totalrows from rfl]
  split_ifs with hroom hupdate
  · have hs₂ : bl.blocks ≤ cells.blocks + (grown.blocks + s) :=
      hs₁.trans (Multiset.le_add_left _ _)
    apply (readImage_tracks hmap hs₂ fr.isused_u evcur).bind
    · intro e he
      rw [he]
    rintro ⟨cellsnew, evcur'⟩ _ ⟨rfl, hcountnew⟩ hcellsnew
    rw [hcellsnew]
    refine tracks_pure _ rfl ⟨?_, ?_, fun _ => ?_, fun hnot => absurd hupdate hnot⟩ ?_
    · simp only [RowsState.erase, List.map_append, List.map_cons, List.map_nil]
    · intro row hrow
      have hcounted := hfits'.counted row
      simp only [List.mem_append, List.mem_singleton] at hrow hcounted
      obtain (hold | rfl) | hold | rfl := hrow
      · exact hcounted (.inl hold)
      · exact hcountnew
      · exact hcounted (.inr hold)
      · exact hcount
    · rw [List.length_append, List.length_append, hfits'.paired hupdate]
      rfl
    · simp only [RowsState.blocks, rowBlocks_append, rowBlocks_cons, rowBlocks_nil]
      abel
  · refine tracks_pure _ rfl ⟨?_, ?_, fun heq => absurd heq hupdate, hfits'.single⟩ ?_
    · simp only [RowsState.erase, List.map_append, List.map_cons, List.map_nil]
    · intro row hrow
      have hcounted := hfits'.counted row
      simp only [List.mem_append, List.mem_singleton] at hrow hcounted
      obtain (hold | rfl) | hold := hrow
      · exact hcounted (.inl hold)
      · exact hcount
      · exact hcounted (.inr hold)
    · simp only [RowsState.blocks, rowBlocks_append, rowBlocks_cons, rowBlocks_nil]
      abel
  · exact tracks_throw _ rfl

theorem rowsLoop_tracks (hmap : Mapped bl fr.nfields) (hs : bl.blocks ≤ s) (fuel : ℕ)
    {st : RowsState} (hfits : st.Fits fr) : Tracks (st.blocks + s) (rowsLoop bl fr fuel st)
      (LibBinlog.rowsLoop bl.erase fr fuel st.erase) (fun b a => b.erase = a ∧ b.Fits fr)
      fun b => b.blocks + s := by
  induction fuel generalizing st with
  | zero => exact tracks_throw _ rfl
  | succ fuel ih =>
    unfold rowsLoop LibBinlog.rowsLoop
    rw [show st.erase.evcur = st.evcur from rfl]
    split_ifs
    · apply (rowStep_tracks hmap hs hfits).bind
      · intro e he
        rw [he]
      · rintro st' _ ⟨rfl, hfits'⟩ hst'
        rw [hst']
        exact ih hfits'
    · exact tracks_pure _ rfl ⟨rfl, hfits⟩ rfl

/-! ## Events -/

namespace HeldRowsEvent

def erase (ev : HeldRowsEvent) : RowsEvent where
  type := ev.type
  ts := ev.ts
  nextpos := ev.nextpos
  serverid := ev.serverid
  tableid := ev.tableid
  nfields := ev.nfields
  nrows := ev.nrows
  rows := ev.rows.map HeldRow.erase
  rowsold := if ev.type = EventType.updateRows then some (ev.rowsold.map HeldRow.erase) else none

def blocks (ev : HeldRowsEvent) : Multiset Block :=
  {ev.rowsBlock} + rowBlocks ev.rows + ev.rowsoldBlock.toList + rowBlocks ev.rowsold

/-- The counts are those of the arrays. -/
structure Fits (ev : HeldRowsEvent) : Prop where
  nrows : ev.nrows = ev.rows.length
  counted : ∀ row ∈ ev.rows ++ ev.rowsold, row.cells.length = ev.nfields
  paired : ev.type = EventType.updateRows → ev.rowsold.length = ev.rows.length
  single : ev.type ≠ EventType.updateRows → ev.rowsoldBlock = none ∧ ev.rowsold = []

end HeldRowsEvent

/-- Before the first table map an event has no columns. -/
theorem rowsFrame_mapped {cur : ℕ} (h : rowsFrame bl.erase ev = .ok (fr, cur)) :
    Mapped bl fr.nfields := by
  cases htable : bl.table with
  | some table => exact .inr ⟨table, htable⟩
  | none =>
    left
    have hzero : bl.erase.table.nfields = 0 := by
      rw [HeldBinlog.erase, htable]
      rfl
    unfold rowsFrame at h
    dsimp only at h
    rw [hzero] at h
    split_ifs at h with htableid hnfields
    all_goals
      have hcount : _ = fr.nfields := congrArg (fun p => p.1.nfields) (Except.ok.inj h)
      exact hcount.symm.trans hnfields

theorem allocOld_tracks (type : UInt8) (s : Multiset Block) :
    Tracks s (allocOld type) (.ok ()) (fun b _ => type ≠ EventType.updateRows → b = none)
      fun b => b.toList + s := by
  unfold allocOld
  split_ifs with hupdate
  · apply (tracks_alloc _).then rfl
    intro block _
    exact tracks_pure _ rfl (fun hnot => absurd hupdate hnot) rfl
  · exact tracks_pure _ rfl (fun _ => rfl) (zero_add _).symm

theorem parseRowsEvent_tracks (hs : bl.blocks ≤ s) (ev : Mem) :
    Tracks s (parseRowsEvent bl ev) (LibBinlog.parseRowsEvent bl.erase ev)
      (fun b a => b.erase = a ∧ b.Fits ∧ Mapped bl b.nfields) fun b => b.blocks + s := by
  unfold parseRowsEvent LibBinlog.parseRowsEvent
  dsimp only
  apply Tracks.lift_bind
  · intro e he
    rw [parseRowImages, he]
  rintro ⟨fr, cur⟩ hframe
  have htype : fr.type = (parseHeader bl.erase ev).type := rowsFrame_type hframe
  have hmap := rowsFrame_mapped hframe
  have himages : parseRowImages bl.erase ev =
      (LibBinlog.rowsLoop bl.erase fr (fr.evlen + 1) ⟨[], [], 8, ⟨ev, toInt32 cur⟩⟩).map
        fun st => (fr, st) := by
    rw [parseRowImages, hframe]
  rw [himages]
  generalize (⟨ev, toInt32 cur⟩ : EventCursor) = evcur
  apply (tracks_alloc s).then rfl
  intro rowsBlock _
  apply (allocOld_tracks _ _).then rfl
  intro rowsoldBlock hnone
  let st : RowsState := ⟨[], rowsBlock, [], rowsoldBlock, 8, evcur⟩
  have hfits : st.Fits fr :=
    ⟨fun row hrow => absurd hrow List.not_mem_nil, fun _ => rfl,
      fun hnot => ⟨hnone (htype ▸ hnot), rfl⟩⟩
  have hstart : (⟨[], [], 8, evcur⟩ : LibBinlog.RowsState) = st.erase := rfl
  have hblocks : ↑rowsoldBlock.toList + ({rowsBlock} + s) = st.blocks + s := by
    simp only [st, RowsState.blocks, rowBlocks_nil]
    abel
  rw [hblocks]
  apply (rowsLoop_tracks hmap hs (fr.evlen + 1) hfits).bind
  · intro e he
    rw [hstart, he]
    rfl
  · rintro st' _ ⟨rfl, hfits'⟩ hst'
    rw [hstart, hst']
    refine tracks_pure _ rfl
      ⟨?_, ⟨rfl, hfits'.counted, htype ▸ hfits'.paired, htype ▸ hfits'.single⟩, hmap⟩ rfl
    simp only [HeldRowsEvent.erase, RowsState.erase, List.length_map, HeldBinlog.erase]

theorem tblevFreeTableRes_tracks (bl : HeldBinlog) (s : Multiset Block) :
    Tracks (bl.blocks + s) (tblevFreeTableRes bl) (.ok ()) Unseen fun _ => s := by
  unfold tblevFreeTableRes HeldBinlog.blocks
  cases bl.table with
  | none => exact tracks_pure _ rfl trivial (zero_add s)
  | some table =>
    obtain ⟨tbl, p⟩ := table
    have hblocks : TablePtrs.blocks p + s = {p.metas} + ({p.types} + ({p.canbenull} + s)) := by
      simp only [TablePtrs.blocks, Multiset.insert_eq_cons, ← Multiset.singleton_add]
      abel
    dsimp only [Option.elim]
    rw [hblocks]
    apply (tracks_free _ _ _).then rfl
    intro _ _
    apply (tracks_free _ _ _).then rfl
    intro _ _
    exact tracks_free _ _ _

/-- A table map takes the place of the previous one. -/
theorem parseTableMapEvent_tracks (bl : HeldBinlog) (ev : Mem) (s : Multiset Block) :
    Tracks (bl.blocks + s) (parseTableMapEvent bl ev) (LibBinlog.parseTableMapEvent bl.erase ev)
      (fun b a => b.1 = a) fun b => b.2.blocks + s := by
  apply (tblevFreeTableRes_tracks bl s).then rfl
  intro _ _
  apply (tracks_alloc s).then rfl
  intro types _
  apply (tracks_alloc _).then rfl
  intro canbenull _
  apply Tracks.lift_bind
  · intro e he
    exact he
  intro tbl htbl
  apply (tracks_alloc _).then rfl
  intro metas _
  refine tracks_pure _ htbl rfl ?_
  simp only [TablePtrs.blocks, Multiset.insert_eq_cons, ← Multiset.singleton_add]
  abel

/-! ## Freeing the rows of an event -/

theorem freeValues_tracks {row : HeldRow} (s : Multiset Block) (k i : ℕ)
    (h : i + k = row.cells.length) :
    Tracks ((row.cells.drop i).flatMap HeldCell.blocks + s) (freeValues row k i) (.ok ()) Unseen
      fun _ => s := by
  induction k generalizing i with
  | zero =>
    have hnil : row.cells.drop i = [] := List.drop_of_length_le (by omega)
    rw [hnil]
    exact tracks_pure _ rfl trivial (zero_add s)
  | succ k ih =>
    have hi : i < row.cells.length := by omega
    unfold freeValues
    rw [List.drop_eq_getElem_cons hi, List.flatMap_cons, List.getElem?_eq_getElem hi,
      ← Multiset.coe_add, add_assoc]
    apply (freePtr_tracks _ _).then rfl
    intro _ _
    exact ih (i + 1) (by omega)

theorem freeRows_tracks {rows : List HeldRow} {nfields : ℕ} (s : Multiset Block) (k i : ℕ)
    (hcounted : ∀ row ∈ rows, row.cells.length = nfields) (h : i + k = rows.length) :
    Tracks (rowBlocks (rows.drop i) + s) (freeRows nfields rows k i) (.ok ()) Unseen
      fun _ => s := by
  induction k generalizing i with
  | zero =>
    have hnil : rows.drop i = [] := List.drop_of_length_le (by omega)
    rw [hnil]
    exact tracks_pure _ rfl trivial (zero_add s)
  | succ k ih =>
    have hi : i < rows.length := by omega
    have hlength : 0 + nfields = rows[i].cells.length := by
      rw [hcounted _ (List.getElem_mem hi), Nat.zero_add]
    unfold freeRows
    rw [List.drop_eq_getElem_cons hi, rowBlocks_cons, List.getElem?_eq_getElem hi]
    have hvalues := freeValues_tracks ({rows[i].block} + (rowBlocks (rows.drop (i + 1)) + s))
      nfields 0 hlength
    have hblocks : (rows[i].cells.drop 0).flatMap HeldCell.blocks +
        ({rows[i].block} + (rowBlocks (rows.drop (i + 1)) + s)) =
          rows[i].blocks + rowBlocks (rows.drop (i + 1)) + s := by
      rw [HeldRow.blocks, List.drop_zero]
      abel
    rw [hblocks] at hvalues
    apply hvalues.then rfl
    intro _ _
    apply (tracks_free _ _ _).then rfl
    intro _ _
    exact ih (i + 1) (by omega)

theorem rowsevFreeRows_tracks {rowsev : HeldRowsEvent} (h : rowsev.Fits) (s : Multiset Block) :
    Tracks (rowsev.blocks + s) (rowsevFreeRows rowsev) (.ok ()) Unseen fun _ => s := by
  have hnew : ∀ row ∈ rowsev.rows, row.cells.length = rowsev.nfields :=
    fun row hrow => h.counted row (List.mem_append_left _ hrow)
  have hold : ∀ row ∈ rowsev.rowsold, row.cells.length = rowsev.nfields :=
    fun row hrow => h.counted row (List.mem_append_right _ hrow)
  have hrows := freeRows_tracks
    ({rowsev.rowsBlock} + (rowBlocks rowsev.rowsold + (rowsev.rowsoldBlock.toList + s)))
    rowsev.nrows 0 hnew ((Nat.zero_add _).trans h.nrows)
  have hblocks : rowBlocks (rowsev.rows.drop 0) +
      ({rowsev.rowsBlock} + (rowBlocks rowsev.rowsold + (rowsev.rowsoldBlock.toList + s))) =
        rowsev.blocks + s := by
    rw [HeldRowsEvent.blocks, List.drop_zero]
    abel
  rw [hblocks] at hrows
  apply hrows.then rfl
  intro _ _
  apply (tracks_free _ _ _).then rfl
  intro _ _
  split_ifs with hupdate
  · have hlength : 0 + rowsev.nrows = rowsev.rowsold.length := by
      rw [h.paired hupdate, h.nrows, Nat.zero_add]
    apply (freeRows_tracks (rowsev.rowsoldBlock.toList + s) rowsev.nrows 0 hold hlength).then rfl
    intro _ _
    exact freePtr_tracks _ _
  · obtain ⟨hblock, hnil⟩ := h.single hupdate
    refine tracks_pure _ rfl trivial ?_
    rw [hblock, hnil, rowBlocks_nil, zero_add]
    exact zero_add s

/-- All that the parser allocates for an event, `rowsevFreeRows` frees, each block once, whatever
else is allocated. -/
theorem parseRowsEvent_freed (bl : HeldBinlog) (ev : Mem) (s : Multiset Block) :
    Tracks (bl.blocks + s) (do
      let rowsev ← parseRowsEvent bl ev
      rowsevFreeRows rowsev
      pure rowsev) (LibBinlog.parseRowsEvent bl.erase ev) (fun b a => b.erase = a)
      fun _ => bl.blocks + s := by
  apply (parseRowsEvent_tracks (Multiset.le_add_right bl.blocks s) ev).bind
  · intro e he
    exact he
  rintro rowsev _ ⟨rfl, hfits, -⟩ hparse
  apply (rowsevFreeRows_tracks hfits (bl.blocks + s)).then rfl
  intro _ _
  exact tracks_pure _ hparse rfl rfl

end LibBinlog.Owned
