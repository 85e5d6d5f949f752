import LibBinlog.Client
import LibBinlog.Lib.Ledger

/-!
# The client and its memory

The functions of the client once more, with what they allocate and free. A row that is handed out is
an entry of the client's row array, and the block of its cells and the blocks of the cells' values
are its own. Blocks are touched where a pointer is followed that was kept from an earlier call.

`realloc` is taken to move the block. What an event leaves allocated that no pointer leads to is
written down in `lost`.
-/

namespace LibBinlog.Owned

open Machine Memory Ledger

/-- `free`, which does nothing for the null pointer. -/
def freePtr : Option Block → HeapM Fault Unit
  | none => pure ()
  | some b => free .memory b

/-! ## Cells and rows -/

/-- A cell, with the block of its value. -/
structure HeldCell where
  cell : Cell
  value : Option Block

def HeldCell.blocks (c : HeldCell) : List Block := c.value.toList

/-- The cells of a row, and the block they are in. -/
structure HeldRow where
  cells : List HeldCell
  block : Block

namespace HeldRow

def erase (row : HeldRow) : BlRow := row.cells.map HeldCell.cell

def blocks (row : HeldRow) : Multiset Block := {row.block} + row.cells.flatMap HeldCell.blocks

/-- The block of the cells, and the values of the first `n`. -/
def counted (n : ℕ) (row : HeldRow) : Multiset Block :=
  {row.block} + (row.cells.take n).flatMap HeldCell.blocks

def uncounted (n : ℕ) (row : HeldRow) : List Block := (row.cells.drop n).flatMap HeldCell.blocks

end HeldRow

/-- A value that stays the null pointer has no block. -/
def value2Cell (evcur : EventCursor) (type : UInt8) (metaWord : ℕ) :
    HeapM Fault (HeldCell × EventCursor) := do
  let (cell, evcur) ← liftM (LibBinlog.value2Cell evcur type metaWord)
  if cell.value.isSome then
    let value ← alloc
    pure (⟨cell, some value⟩, evcur)
  else pure (⟨cell, none⟩, evcur)

/-! ## Table maps -/

/-- The blocks of a table map. -/
structure TablePtrs where
  metas : Block
  types : Block
  canbenull : Block

def TablePtrs.blocks (p : TablePtrs) : Multiset Block := {p.metas, p.types, p.canbenull}

/-- Until the first table map the pointers are null, and all other members zero. -/
structure HeldBinlog where
  blver : ℕ
  hdrlen : ℕ
  masterid : ℕ
  server : List UInt8
  posthdr : List UInt8
  table : Option (TableEv × TablePtrs)

namespace HeldBinlog

def erase (bl : HeldBinlog) : Binlog where
  blver := bl.blver
  hdrlen := bl.hdrlen
  masterid := bl.masterid
  server := bl.server
  posthdr := bl.posthdr
  table := (bl.table.map Prod.fst).getD Binlog.zero.table

def blocks (bl : HeldBinlog) : Multiset Block := bl.table.elim 0 fun table => table.2.blocks

/-- `memset(bl, 0, sizeof(Binlog))`. -/
def zero : HeldBinlog := ⟨0, 0, 0, List.replicate 50 0, List.replicate 29 0, none⟩

end HeldBinlog

def parseFDE (bl : HeldBinlog) (ev : Mem) : Except Fault HeldBinlog :=
  (LibBinlog.parseFDE bl.erase ev).map fun fde => { bl with
    blver := fde.blver
    hdrlen := fde.hdrlen
    masterid := fde.masterid
    server := fde.server
    posthdr := fde.posthdr }

def tblevFreeTableRes (bl : HeldBinlog) : HeapM Fault Unit :=
  match bl.table with
  | none => pure ()
  | some (_, p) => do
    free .memory p.metas
    free .memory p.types
    free .memory p.canbenull

def parseTableMapEvent (bl : HeldBinlog) (ev : Mem) : HeapM Fault (TableEv × TablePtrs) := do
  tblevFreeTableRes bl
  let types ← alloc
  let canbenull ← alloc
  let tbl ← liftM (LibBinlog.parseTableMapEvent bl.erase ev)
  let metas ← alloc
  pure (tbl, ⟨metas, types, canbenull⟩)

/-! ## Rows events -/

/-- The types and the metadata of a column are read. -/
def touchTable (bl : HeldBinlog) : HeapM Fault Unit :=
  match bl.table with
  | none => throw .memory
  | some (_, p) => do
    touch .memory p.types
    touch .memory p.metas

def readCells (bl : HeldBinlog) (isnull isused : ℤ) :
    ℕ → ℕ → EventCursor → HeapM Fault (List HeldCell × EventCursor)
  | 0, _, evcur => pure ([], evcur)
  | k + 1, i, evcur =>
    if !isSet evcur.ev isnull i && isSet evcur.ev isused i then do
      touchTable bl
      let (cell, evcur) ←
        value2Cell evcur (bl.erase.table.types.getD i 0) (bl.erase.table.metas.getD i 0)
      let (cells, evcur) ← readCells bl isnull isused k (i + 1) evcur
      pure (cell :: cells, evcur)
    else do
      let (cells, evcur) ← readCells bl isnull isused k (i + 1) evcur
      pure (⟨.empty, none⟩ :: cells, evcur)

def readImage (bl : HeldBinlog) (fr : RowsFrame) (isused : ℤ) (evcur : EventCursor) :
    HeapM Fault (HeldRow × EventCursor) := do
  let block ← alloc
  let (cells, evcur) ← readCells bl evcur.cur isused fr.nfields 0
    { evcur with cur := toInt32 (evcur.cur + fr.bitlen) }
  pure (⟨cells, block⟩, evcur)

/-- The row arrays and the rows in them; the second array is there for updates only. -/
structure RowsState where
  rows : List HeldRow
  rowsBlock : Block
  rowsold : List HeldRow
  rowsoldBlock : Option Block
  totalrows : ℤ
  evcur : EventCursor

def realloc (ptr : Option Block) : HeapM Fault Block := do
  let block ← alloc
  freePtr ptr
  pure block

def growRows (fr : RowsFrame) (st : RowsState) : HeapM Fault RowsState :=
  if st.totalrows ≤ st.rows.length then do
    let rowsBlock ← realloc (some st.rowsBlock)
    let st := { st with rowsBlock := rowsBlock, totalrows := toInt32 (st.totalrows * 2) }
    if fr.type = EventType.updateRows then
      let rowsoldBlock ← realloc st.rowsoldBlock
      pure { st with rowsoldBlock := some rowsoldBlock }
    else pure st
  else pure st

def rowStep (bl : HeldBinlog) (fr : RowsFrame) (st : RowsState) : HeapM Fault RowsState := do
  let st ← growRows fr st
  let (cells, evcur) ← readImage bl fr fr.isused st.evcur
  if (st.rows.length : ℤ) < st.totalrows then
    if fr.type = EventType.updateRows then
      let (cellsnew, evcur) ← readImage bl fr fr.isused_u evcur
      pure { st with
        rows := st.rows ++ [cellsnew]
        rowsold := st.rowsold ++ [cells]
        evcur := evcur }
    else pure { st with rows := st.rows ++ [cells], evcur := evcur }
  else throw .memory

def rowsLoop (bl : HeldBinlog) (fr : RowsFrame) : ℕ → RowsState → HeapM Fault RowsState
  | 0, _ => throw .divergence
  | fuel + 1, st =>
    if toUInt32 st.evcur.cur < fr.evlen then do
      let st ← rowStep bl fr st
      rowsLoop bl fr fuel st
    else pure st

structure HeldRowsEvent where
  type : UInt8
  ts : ℕ
  nextpos : ℕ
  serverid : ℕ
  tableid : ℕ
  nfields : ℕ
  nrows : ℕ
  rows : List HeldRow
  rowsBlock : Block
  rowsold : List HeldRow
  rowsoldBlock : Option Block

def allocOld (type : UInt8) : HeapM Fault (Option Block) :=
  if type = EventType.updateRows then do
    let block ← alloc
    pure (some block)
  else pure none

def parseRowsEvent (bl : HeldBinlog) (ev : Mem) : HeapM Fault HeldRowsEvent := do
  let hdr := parseHeader bl.erase ev
  let (fr, cur) ← liftM (rowsFrame bl.erase ev)
  let rowsBlock ← alloc
  let rowsoldBlock ← allocOld hdr.type
  let st ← rowsLoop bl fr (fr.evlen + 1)
    ⟨[], rowsBlock, [], rowsoldBlock, 8, ⟨ev, toInt32 cur⟩⟩
  pure {
    type := hdr.type
    ts := hdr.ts
    nextpos := hdr.nextpos
    serverid := hdr.serverid
    tableid := getUint48 ev bl.hdrlen
    nfields := fr.nfields
    nrows := st.rows.length
    rows := st.rows
    rowsBlock := st.rowsBlock
    rowsold := st.rowsold
    rowsoldBlock := st.rowsoldBlock }

/-- The values of a row from cell `i` on, `k` of them. -/
def freeValues (row : HeldRow) : ℕ → ℕ → HeapM Fault Unit
  | 0, _ => pure ()
  | k + 1, i =>
    match row.cells[i]? with
    | none => throw .memory
    | some c => do
      freePtr c.value
      freeValues row k (i + 1)

/-- The rows of an array from `i` on, `k` of them. -/
def freeRows (nfields : ℕ) (rows : List HeldRow) : ℕ → ℕ → HeapM Fault Unit
  | 0, _ => pure ()
  | k + 1, i =>
    match rows[i]? with
    | none => throw .memory
    | some row => do
      freeValues row nfields 0
      free .memory row.block
      freeRows nfields rows k (i + 1)

def rowsevFreeRows (rowsev : HeldRowsEvent) : HeapM Fault Unit := do
  freeRows rowsev.nfields rowsev.rows rowsev.nrows 0
  free .memory rowsev.rowsBlock
  if rowsev.type = EventType.updateRows then
    freeRows rowsev.nfields rowsev.rowsold rowsev.nrows 0
    freePtr rowsev.rowsoldBlock
  else pure ()

/-! ## The client -/

structure HeldBinlogRow where
  nfields : ℤ
  type : UInt8
  created : ℤ
  row : HeldRow
  rowOld : Option HeldRow

/-- What a call of `getEvent` makes of the driver's `newbuf`. -/
inductive NewBuf
  | kept
  | null
  | malloc
  deriving DecidableEq, Repr

/-- A driver that takes a large event to a block of its own. An event that is given has set the
pointer. The other blocks that a call does not free are only counted: nothing leads to them. -/
structure BufferingDriver (σ : Type) extends Driver σ where
  newbuf : DataSource σ → NewBuf
  newbuf_set : ∀ {ds ds' : DataSource σ} {ev : Mem}, getEvent ds = .ok (some ev, ds') →
    newbuf ds ≠ .kept
  lostByConnect : DataSource σ → ℕ
  lostByEvent : DataSource σ → ℕ

/-- `self`, `source` and `url` are the blocks of the client, its data source and the copy of the
address. -/
structure HeldClient (σ : Type) where
  _rows : Option (Block × List (Option HeldBinlogRow))
  _lenRows : ℕ
  _cur : ℕ
  _startidx : ℕ
  binlog : HeldBinlog
  dataSource : DataSource σ
  newbuf : Option Block
  err : ℤ
  errstr : List UInt8
  self : Block
  source : Block
  url : Block
  lost : List Block

variable {σ : Type}

/-- The event is in the driver's array or in a new block. Where none is given, nothing leads to such
a block any more. -/
def getEvent (drv : BufferingDriver σ) (bc : HeldClient σ) :
    HeapM Fault (Option Mem × HeldClient σ) := do
  let (ev, ds) ← liftM (drv.getEvent bc.dataSource)
  let lost ← allocs (drv.lostByEvent bc.dataSource)
  let lost := lost ++ bc.lost
  match drv.newbuf bc.dataSource with
  | .kept => pure (ev, { bc with dataSource := ds, lost := lost })
  | .null => pure (ev, { bc with dataSource := ds, newbuf := none, lost := lost })
  | .malloc => do
    let block ← alloc
    pure (ev, { bc with
      dataSource := ds
      newbuf := some block
      lost := if ev.isSome then lost else block :: lost })

/-- `freeEventFromFile` and `freeEventFromServer`. -/
def freeEvent (bc : HeldClient σ) : HeapM Fault Unit := freePtr bc.newbuf

/-- The round of `getRowsEvent` up to `dsFreeEvent`. -/
def onEvent (bc : HeldClient σ) (ev : Mem) : HeapM Fault (Option HeldRowsEvent × HeldClient σ) := do
  let evtype := getEventType ev
  let bl ← liftM (if evtype = EventType.formatDescription then parseFDE bc.binlog ev
    else .ok bc.binlog)
  if evtype = EventType.tableMap then
    let (tblev, ptrs) ← parseTableMapEvent bl ev
    pure (none, { bc with
      binlog := { bl with table := some (tblev, ptrs) }
      dataSource := { bc.dataSource with
        position := toUInt32 (tblev.nextpos - tblev.evlen)
        index := 0 } })
  else if evtype = EventType.writeRows ∨ evtype = EventType.updateRows ∨
      evtype = EventType.deleteRows then
    let rev ← parseRowsEvent bl ev
    pure (some rev, { bc with binlog := bl })
  else if evtype = EventType.rotate then
    let rotate ← liftM (parseRotateEvent bl.erase ev)
    pure (none, { bc with
      binlog := bl
      dataSource := { bc.dataSource with
        position := toUInt32 rotate.position
        logfile := cstring rotate.fileName } })
  else pure (none, { bc with binlog := bl })

/-- No more rounds are needed than there are events left, and one for the end. -/
def getRowsEventRounds (drv : BufferingDriver σ) :
    ℕ → HeldClient σ → HeapM Fault (Option HeldRowsEvent × HeldClient σ)
  | 0, _ => throw .divergence
  | rounds + 1, bc => do
    let (ev, bc) ← getEvent drv bc
    match ev with
    | none =>
      match sprintf255 bc.dataSource.errstr with
      | none => throw .memory
      | some text =>
        if text.length < errorSize then pure (none, { bc with err := 1, errstr := text })
        else throw .memory
    | some ev => do
      let (rev, bc) ← onEvent bc ev
      freeEvent bc
      match rev with
      | some rev => pure (some rev, bc)
      | none => getRowsEventRounds drv rounds bc

def getRowsEvent (drv : BufferingDriver σ) (bc : HeldClient σ) :
    HeapM Fault (Option HeldRowsEvent × HeldClient σ) :=
  getRowsEventRounds drv (drv.unread bc.dataSource.driver + 1) bc

/-! ## The row buffer -/

def eventRow (ev : HeldRowsEvent) (i : ℕ) : Except Fault HeldBinlogRow :=
  match ev.rows[i]? with
  | none => .error .memory
  | some cells =>
    if ev.type = EventType.updateRows then
      match ev.rowsold[i]? with
      | none => .error .memory
      | some cellsold => .ok ⟨toInt32 ev.nfields, ev.type, toInt32 ev.ts, cells, some cellsold⟩
    else .ok ⟨toInt32 ev.nfields, ev.type, toInt32 ev.ts, cells, none⟩

def copyRows (ev : HeldRowsEvent) :
    ℕ → ℕ → List (Option HeldBinlogRow) → Except Fault (List (Option HeldBinlogRow))
  | 0, _, slots => .ok slots
  | k + 1, i, slots =>
    match eventRow ev i with
    | .error e => .error e
    | .ok row =>
      if i < slots.length then copyRows ev k (i + 1) (slots.set i (some row))
      else .error .memory

/-- The values of cells that an `int` does not count. -/
def HeldRowsEvent.uncounted (ev : HeldRowsEvent) : List Block :=
  (ev.rows ++ ev.rowsold).flatMap (HeldRow.uncounted (toInt32 ev.nfields).toNat)

def freeArrays (ev : HeldRowsEvent) : HeapM Fault Unit := do
  free .memory ev.rowsBlock
  if ev.type = EventType.updateRows then freePtr ev.rowsoldBlock else pure ()

def newRows (nrows : ℕ) : HeapM Fault (Option (Block × List (Option HeldBinlogRow))) := do
  let block ← alloc
  pure (some (block, List.replicate nrows none))

/-- The array before the first event. -/
def firstRows (bc : HeldClient σ) (nrows : ℕ) :
    HeapM Fault (Option (Block × List (Option HeldBinlogRow))) :=
  if bc._rows.isNone ∧ bc._lenRows < nrows then newRows nrows else pure bc._rows

/-- The row array, with room for so many rows. -/
def roomFor (bc : HeldClient σ) (nrows : ℕ) :
    HeapM Fault (Option (Block × List (Option HeldBinlogRow))) := do
  let rows ← firstRows bc nrows
  if rows.isSome ∧ bc._lenRows < nrows then
    freePtr (rows.map Prod.fst)
    newRows nrows
  else pure rows

def setRowsEventBuffer (bc : HeldClient σ) (ev : HeldRowsEvent) :
    HeapM Fault (HeldClient σ) := do
  let rows ← roomFor bc ev.nrows
  match rows with
  | none =>
    if ev.nrows = 0 then do
      freeArrays ev
      pure { bc with _rows := none, _cur := 0, _lenRows := 0 }
    else throw .memory
  | some (block, slots) => do
    touch .memory block
    let slots ← liftM (copyRows ev ev.nrows 0 slots)
    freeArrays ev
    pure { bc with
      _rows := some (block, slots)
      _cur := 0
      _lenRows := ev.nrows
      lost := ev.uncounted ++ bc.lost }

/-- A pointer to an entry of the client's row array. -/
structure RowPtr where
  block : Block
  slot : ℕ
  deriving DecidableEq, Repr

/-- The pointer, and the row that it leads to at this time. -/
def fetchFromBuffer (bc : HeldClient σ) :
    Except Fault (Option (RowPtr × HeldBinlogRow) × HeldClient σ) :=
  if bc._cur < bc._lenRows then
    match bc._rows with
    | none => .error .memory
    | some (block, slots) =>
      match slots[bc._cur]? with
      | some (some row) => .ok (some (⟨block, bc._cur⟩, row), { bc with _cur := bc._cur + 1 })
      | _ => .error .memory
  else .ok (none, bc)

/-! ## Fetching and freeing -/

def HeldClient.rowAt (bc : HeldClient σ) (p : RowPtr) : Option HeldBinlogRow :=
  match bc._rows with
  | none => none
  | some (block, slots) => if block = p.block then slots[p.slot]?.join else none

def freeCell : Option HeldCell → HeapM Fault Unit
  | none => throw .memory
  | some c => freePtr c.value

/-- The cells from `i` on, `k` of them. -/
def freeCells (br : HeldBinlogRow) : ℕ → ℕ → HeapM Fault Unit
  | 0, _ => pure ()
  | k + 1, i => do
    freeCell br.row.cells[i]?
    if br.type = EventType.updateRows then freeCell (br.rowOld.bind (·.cells[i]?)) else pure ()
    freeCells br k (i + 1)

def freeBinlogRow (bc : HeldClient σ) : Option RowPtr → HeapM Fault Unit
  | none => pure ()
  | some p => do
    touch .memory p.block
    match bc.rowAt p with
    | none => throw .memory
    | some br => do
      freeCells br br.nfields.toNat 0
      free .memory br.row.block
      if br.type = EventType.updateRows then freePtr (br.rowOld.map HeldRow.block) else pure ()

def HeldClient.incrIndex (bc : HeldClient σ) : HeldClient σ :=
  { bc with dataSource := { bc.dataSource with index := toUInt32 (bc.dataSource.index + 1) } }

def _fetchOne (drv : BufferingDriver σ) (bc : HeldClient σ) :
    HeapM Fault (Option (RowPtr × HeldBinlogRow) × HeldClient σ) :=
  if bc._cur = bc._lenRows then do
    let (rowsev, bc) ← getRowsEvent drv bc
    match rowsev with
    | none => pure (none, { bc with
        errstr := snprintfErr bc.dataSource.errstr
        dataSource := { bc.dataSource with index := 0 } })
    | some rowsev => do
      let bc ← setRowsEventBuffer bc rowsev
      liftM (fetchFromBuffer bc.incrIndex)
  else liftM (fetchFromBuffer bc.incrIndex)

/-- The rows that are skipped are freed. -/
def skipRows (drv : BufferingDriver σ) (start : ℕ) :
    ℕ → HeldClient σ → HeapM Fault (Bool × HeldClient σ)
  | 0, bc => pure (false, bc)
  | k + 1, bc => do
    let oldpos := bc.dataSource.position
    let (row, bc) ← _fetchOne drv bc
    freeBinlogRow bc (row.map Prod.fst)
    if oldpos ≠ bc.dataSource.position then
      pure (true, { bc with
        _startidx := k
        errstr := snprintfErr (impossibleIndex start oldpos)
        err := 1 })
    else skipRows drv start k { bc with _startidx := k }

def fetchOne (drv : BufferingDriver σ) (bc : HeldClient σ) :
    HeapM Fault (Option (RowPtr × HeldBinlogRow) × HeldClient σ) := do
  let (moved, bc) ← skipRows drv bc._startidx bc._startidx bc
  if moved then pure (none, bc) else _fetchOne drv bc

/-- A client that is not connected does not keep its data source. -/
structure FailedClient where
  errstr : List UInt8
  self : Block
  lost : List Block

def connectDataSource (drv : BufferingDriver σ) (ds : Option (DataSource σ)) (position index : ℕ)
    (serverid : ℤ) : HeapM Fault (Except FailedClient (HeldClient σ)) := do
  let self ← alloc
  let source ← alloc
  match ds with
  | none => pure (.error ⟨snprintfErr (ascii "Unknow  datasource"), self, [source]⟩)
  | some ds => do
    let url ← alloc
    let asked := { ds with position := position, index := 0, serverid := serverid }
    let (connected, ds) ← liftM (drv.connect asked)
    let lost ← allocs (drv.lostByConnect asked)
    if connected then pure (.ok {
        _rows := none
        _lenRows := 0
        _cur := 0
        _startidx := index
        binlog := .zero
        dataSource := ds
        newbuf := none
        err := 0
        errstr := []
        self := self
        source := source
        url := url
        lost := lost })
    else pure (.error ⟨snprintfErr ds.errstr, self, url :: source :: lost⟩)

def freeBinlogClient : Except FailedClient (HeldClient σ) → HeapM Fault Unit
  | .error failed => free .memory failed.self
  | .ok bc => do
    free .memory bc.url
    free .memory bc.source
    freePtr (bc._rows.map Prod.fst)
    free .memory bc.self

end LibBinlog.Owned
