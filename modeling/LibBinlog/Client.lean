import LibBinlog.Lib.Printf
import LibBinlog.ParseEvent

/-!
# The client of `libbinlog.c`

A client takes events from a data source until one carries rows, copies the rows into its buffer and
hands them out one by one, keeping position and index of the row in the data source. The data source
is any driver that has only finitely many events left to give at any time.

Freeing events, cells and rows leaves nothing behind that the model could see and is left out, and
so is the URL, which only selects the driver.
-/

namespace LibBinlog

open Machine Memory

/-- The common fields of a data source, and its driver's own. -/
structure DataSource (σ : Type*) where
  logfile : List UInt8
  position : ℕ
  index : ℕ
  serverid : ℤ
  driver : σ
  errstr : List UInt8

/-- `connect` and `getEvent` of a data source. `unread` bounds the events that are left. -/
structure Driver (σ : Type*) where
  connect : DataSource σ → Except Fault (Bool × DataSource σ)
  getEvent : DataSource σ → Except Fault (Option Mem × DataSource σ)
  unread : σ → ℕ
  unread_lt : ∀ {ds ds' : DataSource σ} {ev : Mem}, getEvent ds = .ok (some ev, ds') →
    unread ds'.driver < unread ds.driver

structure BinlogRow where
  nfields : ℤ
  type : UInt8
  created : ℤ
  row : BlRow
  rowOld : Option BlRow
  deriving DecidableEq, Repr

/-- `_rows` is the allocated block, `none` for the null pointer; a slot is `none` until it is
filled. `_startidx` is an `int` that is only counted down to zero, with wrap-around from an index of
`2 ^ 31` on, and kept as the rounds it has left. -/
structure BinlogClient (σ : Type*) where
  _rows : Option (List (Option BinlogRow))
  _lenRows : ℕ
  _cur : ℕ
  _startidx : ℕ
  binlog : Binlog
  dataSource : DataSource σ
  err : ℤ
  errstr : List UInt8

def errorSize : ℕ := 256

def eventBufSize : ℕ := 1024 * 4

/-- `sprintf` with the text itself as the format and 255 as the one argument; `none` where the text
has a directive that is undefined for it. -/
def sprintf255 (fmt : List UInt8) : Option (List UInt8) := Printf.sprintf fmt 255

example : sprintf255 (ascii "disk 95% used") = some (ascii "disk 95255sed") := by decide

/-- `snprintf` into an error text. -/
def snprintfErr (text : List UInt8) : List UInt8 := text.take (errorSize - 1)

variable {σ : Type*}

/-- The round of `getRowsEvent` for one event, `some` if it carries rows. -/
def onEvent (bc : BinlogClient σ) (ev : Mem) :
    Except Fault (Option RowsEvent × BinlogClient σ) :=
  let evtype := getEventType ev
  match if evtype = EventType.formatDescription then parseFDE bc.binlog ev else .ok bc.binlog with
  | .error e => .error e
  | .ok bl =>
    if evtype = EventType.tableMap then
      match parseTableMapEvent bl ev with
      | .error e => .error e
      | .ok tblev => .ok (none, { bc with
          binlog := { bl with table := tblev }
          dataSource := { bc.dataSource with
            position := toUInt32 (tblev.nextpos - tblev.evlen)
            index := 0 } })
    else if evtype = EventType.writeRows ∨ evtype = EventType.updateRows ∨
        evtype = EventType.deleteRows then
      match parseRowsEvent bl ev with
      | .error e => .error e
      | .ok rev => .ok (some rev, { bc with binlog := bl })
    else if evtype = EventType.rotate then
      match parseRotateEvent bl ev with
      | .error e => .error e
      | .ok rotate => .ok (none, { bc with
          binlog := bl
          dataSource := { bc.dataSource with
            position := toUInt32 rotate.position
            logfile := cstring rotate.fileName } })
    else .ok (none, { bc with binlog := bl })

/-- What a round changes: the table state and the data source's coordinates. Rows are those of the
event. -/
theorem onEvent_ok {bc bc' : BinlogClient σ} {ev : Mem} {r : Option RowsEvent}
    (h : onEvent bc ev = .ok (r, bc')) : ∃ bl ds,
      bc' = { bc with binlog := bl, dataSource := ds } ∧
        (ds.driver = bc.dataSource.driver ∧ ds.errstr = bc.dataSource.errstr) ∧
        ∀ rev, r = some rev → parseRowsEvent bl ev = .ok rev := by
  simp only [onEvent] at h
  split at h
  · cases h
  · split_ifs at h
    · split at h <;> cases h
      exact ⟨_, _, rfl, ⟨rfl, rfl⟩, nofun⟩
    · split at h
      · cases h
      · next hparse =>
        cases h
        exact ⟨_, _, rfl, ⟨rfl, rfl⟩, fun rev hrev => Option.some.inj hrev ▸ hparse⟩
    · split at h <;> cases h
      exact ⟨_, _, rfl, ⟨rfl, rfl⟩, nofun⟩
    · cases h
      exact ⟨_, _, rfl, ⟨rfl, rfl⟩, nofun⟩

theorem onEvent_source {bc bc' : BinlogClient σ} {ev : Mem} {r : Option RowsEvent}
    (h : onEvent bc ev = .ok (r, bc')) : bc'.dataSource.driver = bc.dataSource.driver ∧
      bc'.dataSource.errstr = bc.dataSource.errstr := by
  obtain ⟨bl, ds, rfl, hsource, -⟩ := onEvent_ok h
  exact hsource

theorem onEvent_driver {bc bc' : BinlogClient σ} {ev : Mem} {r : Option RowsEvent}
    (h : onEvent bc ev = .ok (r, bc')) : bc'.dataSource.driver = bc.dataSource.driver :=
  (onEvent_source h).1

/-- The next event with rows, or `none` when the source has no event to give. -/
def getRowsEvent (drv : Driver σ) (bc : BinlogClient σ) :
    Except Fault (Option RowsEvent × BinlogClient σ) :=
  match _hget : drv.getEvent bc.dataSource with
  | .error e => .error e
  | .ok (none, ds) =>
    match sprintf255 ds.errstr with
    | none => .error .memory
    | some text =>
      if text.length < errorSize then
        .ok (none, { bc with dataSource := ds, err := 1, errstr := text })
      else .error .memory
  | .ok (some ev, ds) =>
    match _hon : onEvent { bc with dataSource := ds } ev with
    | .error e => .error e
    | .ok (some rev, bc') => .ok (some rev, bc')
    | .ok (none, bc') => getRowsEvent drv bc'
termination_by drv.unread bc.dataSource.driver
decreasing_by
  rw [onEvent_driver _hon]
  exact drv.unread_lt _hget

/-! ## The row buffer -/

def eventRow (ev : RowsEvent) (i : ℕ) : Except Fault BinlogRow :=
  match ev.rows[i]? with
  | none => .error .memory
  | some cells =>
    if ev.type = EventType.updateRows then
      match ev.rowsold.bind (·[i]?) with
      | none => .error .memory
      | some cellsold => .ok ⟨toInt32 ev.nfields, ev.type, toInt32 ev.ts, cells, some cellsold⟩
    else .ok ⟨toInt32 ev.nfields, ev.type, toInt32 ev.ts, cells, none⟩

/-- Copies the `k` rows from `i` on. -/
def copyRows (ev : RowsEvent) :
    ℕ → ℕ → List (Option BinlogRow) → Except Fault (List (Option BinlogRow))
  | 0, _, slots => .ok slots
  | k + 1, i, slots =>
    match eventRow ev i with
    | .error e => .error e
    | .ok row =>
      if i < slots.length then copyRows ev k (i + 1) (slots.set i (some row))
      else .error .memory

def setRowsEventBuffer (bc : BinlogClient σ) (ev : RowsEvent) : Except Fault (BinlogClient σ) :=
  let fresh := some (List.replicate ev.nrows none)
  let block := if bc._rows.isNone ∧ bc._lenRows < ev.nrows then fresh else bc._rows
  let block := if block.isSome ∧ bc._lenRows < ev.nrows then fresh else block
  match block with
  | none =>
    if ev.nrows = 0 then .ok { bc with _rows := none, _cur := 0, _lenRows := 0 }
    else .error .memory
  | some slots =>
    match copyRows ev ev.nrows 0 slots with
    | .error e => .error e
    | .ok slots => .ok { bc with _rows := some slots, _cur := 0, _lenRows := ev.nrows }

def fetchFromBuffer (bc : BinlogClient σ) :
    Except Fault (Option BinlogRow × BinlogClient σ) :=
  if bc._cur < bc._lenRows then
    match bc._rows with
    | none => .error .memory
    | some slots =>
      match slots[bc._cur]? with
      | some (some row) => .ok (some row, { bc with _cur := bc._cur + 1 })
      | _ => .error .memory
  else .ok (none, bc)

/-! ## Fetching -/

def BinlogClient.incrIndex (bc : BinlogClient σ) : BinlogClient σ :=
  { bc with dataSource := { bc.dataSource with index := toUInt32 (bc.dataSource.index + 1) } }

def _fetchOne (drv : Driver σ) (bc : BinlogClient σ) :
    Except Fault (Option BinlogRow × BinlogClient σ) :=
  if bc._cur = bc._lenRows then
    match getRowsEvent drv bc with
    | .error e => .error e
    | .ok (none, bc) => .ok (none, { bc with
        errstr := snprintfErr bc.dataSource.errstr
        dataSource := { bc.dataSource with index := 0 } })
    | .ok (some rowsev, bc) =>
      match setRowsEventBuffer bc rowsev with
      | .error e => .error e
      | .ok bc => fetchFromBuffer bc.incrIndex
  else fetchFromBuffer bc.incrIndex

def impossibleIndex (start oldpos : ℕ) : List UInt8 :=
  ascii "Impossible index " ++ signedText (toInt32 start) ++ ascii " at position " ++
    signedText (toInt32 oldpos)

/-- The skip loop of `fetchOne`; `true` if it gave up because the position moved. -/
def skipRows (drv : Driver σ) (start : ℕ) :
    ℕ → BinlogClient σ → Except Fault (Bool × BinlogClient σ)
  | 0, bc => .ok (false, bc)
  | k + 1, bc =>
    let oldpos := bc.dataSource.position
    match _fetchOne drv bc with
    | .error e => .error e
    | .ok (_row, bc) =>
      if oldpos ≠ bc.dataSource.position then
        .ok (true, { bc with
          _startidx := k
          errstr := snprintfErr (impossibleIndex start oldpos)
          err := 1 })
      else skipRows drv start k { bc with _startidx := k }

def fetchOne (drv : Driver σ) (bc : BinlogClient σ) :
    Except Fault (Option BinlogRow × BinlogClient σ) :=
  match skipRows drv bc._startidx bc._startidx bc with
  | .error e => .error e
  | .ok (true, bc) => .ok (none, bc)
  | .ok (false, bc) => _fetchOne drv bc

/-- A client of the data source `ds` that the URL names, `none` for an unknown scheme. Of a client
that could not be connected only the error text is kept. -/
def connectDataSource (drv : Driver σ) (ds : Option (DataSource σ)) (position index : ℕ)
    (serverid : ℤ) : Except Fault (Except (List UInt8) (BinlogClient σ)) :=
  match ds with
  | none => .ok (.error (snprintfErr (ascii "Unknow  datasource")))
  | some ds =>
    match drv.connect { ds with position := position, index := 0, serverid := serverid } with
    | .error e => .error e
    | .ok (false, ds) => .ok (.error (snprintfErr ds.errstr))
    | .ok (true, ds) => .ok (.ok {
        _rows := none
        _lenRows := 0
        _cur := 0
        _startidx := index
        binlog := .zero
        dataSource := ds
        err := 0
        errstr := [] })

end LibBinlog
