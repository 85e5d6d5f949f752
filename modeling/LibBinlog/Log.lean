import LibBinlog.Client

/-!
# Logs and their readers

A log as its readers see it: a list of events with the content the parsers find in them. A reader
walks along the log with the table map it saw last, its coordinates and the rows it has buffered; it
is what the client is meant to be, without memory blocks, bytes or a driver.
-/

namespace LibBinlog

open Machine Memory

/-- What a table-map event says about the rows events under its id, and where it stands. -/
structure TableMap where
  tableid : ℕ
  nfields : ℤ
  types : List UInt8
  metas : List ℕ
  nextpos : ℕ
  evlen : ℕ
  deriving DecidableEq

def TableEv.content (t : TableEv) : TableMap :=
  ⟨t.tableid, t.nfields, t.types, t.metas, t.nextpos, t.evlen⟩

inductive LogEvent
  | formatDescription (hdrlen : ℕ)
  | tableMap (tm : TableMap)
  | rows (tableid : ℕ) (rev : RowsEvent)
  | rotate (rot : RotateEvent)
  | unrelated

/-- What earlier events have fixed for the later ones: the header length, and the table maps, latest
first. -/
structure History where
  hdrlen : ℕ
  maps : List TableMap

namespace History

def start : History := ⟨0, []⟩

def after (hist : History) : LogEvent → History
  | .formatDescription hdrlen => { hist with hdrlen := hdrlen }
  | .tableMap tm => { hist with maps := tm :: hist.maps }
  | _ => hist

/-- The latest table map with this id. -/
def governing (hist : History) (tableid : ℕ) : Option TableMap :=
  hist.maps.find? fun tm => tm.tableid = tableid

end History

def IsRowsType (type : UInt8) : Prop :=
  type = EventType.writeRows ∨ type = EventType.updateRows ∨ type = EventType.deleteRows

/-- The bytes `e` are an event with this content: from any memory in which they stand the parsers
read it, a rows event with the columns of the table map that governs it. -/
def Reads (hist : History) (e : List UInt8) : LogEvent → Prop
  | .formatDescription hdrlen => ∀ ev, Holds ev 0 e →
    getEventType ev = EventType.formatDescription ∧
      ∀ bl, ∃ bl', parseFDE bl ev = .ok bl' ∧ bl'.hdrlen = hdrlen ∧ bl'.table = bl.table
  | .tableMap tm => ∀ ev, Holds ev 0 e → getEventType ev = EventType.tableMap ∧
    ∀ bl, bl.hdrlen = hist.hdrlen →
      ∃ tbl, parseTableMapEvent bl ev = .ok tbl ∧ tbl.content = tm
  | .rows tableid rev => ∃ tm, hist.governing tableid = some tm ∧ ∀ ev, Holds ev 0 e →
    IsRowsType (getEventType ev) ∧ getUint48 ev hist.hdrlen = tableid ∧
      ∀ bl, bl.hdrlen = hist.hdrlen → bl.table.content = tm → parseRowsEvent bl ev = .ok rev
  | .rotate rot => ∀ ev, Holds ev 0 e → getEventType ev = EventType.rotate ∧
    ∀ bl, bl.hdrlen = hist.hdrlen → parseRotateEvent bl ev = .ok rot
  | .unrelated => ∀ ev, Holds ev 0 e → ¬IsRowsType (getEventType ev) ∧
    getEventType ev ≠ EventType.formatDescription ∧ getEventType ev ≠ EventType.tableMap ∧
      getEventType ev ≠ EventType.rotate

/-- A stream of events read one after the other. -/
def ReadsAll : History → List (List UInt8) → List LogEvent → Prop
  | _, [], [] => True
  | hist, e :: stream, le :: log => Reads hist e le ∧ ReadsAll (hist.after le) stream log
  | _, _, _ => False

/-- The rows of an event as `fetchOne` hands them out. -/
def RowsEvent.binlogRows (rev : RowsEvent) : List BinlogRow :=
  match rev.rowsold with
  | none => rev.rows.map fun cells =>
    ⟨toInt32 rev.nfields, rev.type, toInt32 rev.ts, cells, none⟩
  | some rowsold => List.zipWith (fun cells old =>
    ⟨toInt32 rev.nfields, rev.type, toInt32 rev.ts, cells, some old⟩) rev.rows rowsold

namespace LogEvent

def rowsEvent : LogEvent → Option RowsEvent
  | rows _ rev => some rev
  | _ => none

def binlogRows : LogEvent → List BinlogRow
  | rows _ rev => rev.binlogRows
  | _ => []

end LogEvent

/-! ## Readers -/

/-- The table map seen last and the data source's public coordinates. -/
structure Coords where
  slot : Option TableMap
  logfile : List UInt8
  position : ℕ
  index : ℕ

namespace Coords

def after (c : Coords) : LogEvent → Coords
  | .tableMap tm =>
    { c with slot := some tm, position := toUInt32 (tm.nextpos - tm.evlen), index := 0 }
  | .rotate rot =>
    { c with position := toUInt32 rot.position, logfile := cstring rot.fileName }
  | _ => c

def incrIndex (c : Coords) : Coords := { c with index := toUInt32 (c.index + 1) }

end Coords

/-- Walks to the next rows event, which must be one of the table map seen last. -/
def pull : List LogEvent → Coords → Except Fault (Option RowsEvent × List LogEvent × Coords)
  | [], c => .ok (none, [], c)
  | .rows tableid rev :: log, c =>
    if c.slot.map TableMap.tableid = some tableid then .ok (some rev, log, c)
    else .error .assertion
  | le :: log, c => pull log (c.after le)

structure Reader where
  coords : Coords
  rest : List LogEvent
  buffer : List BinlogRow
  startidx : ℕ
  err : ℤ

namespace Reader

def getRowsEvent (r : Reader) : Except Fault (Option RowsEvent × Reader) :=
  match pull r.rest r.coords with
  | .error e => .error e
  | .ok (none, log, c) => .ok (none, { r with rest := log, coords := c, err := 1 })
  | .ok (some rev, log, c) => .ok (some rev, { r with rest := log, coords := c })

/-- Hands out the next row of the buffer. -/
def take (r : Reader) (rows : List BinlogRow) : Option BinlogRow × Reader :=
  (rows.head?, { r with buffer := rows.tail, coords := r.coords.incrIndex })

def _fetchOne (r : Reader) : Except Fault (Option BinlogRow × Reader) :=
  match r.buffer with
  | row :: rows => .ok (r.take (row :: rows))
  | [] =>
    match r.getRowsEvent with
    | .error e => .error e
    | .ok (none, r) => .ok (none, { r with coords := { r.coords with index := 0 } })
    | .ok (some rev, r) => .ok (r.take rev.binlogRows)

/-- Drops `k` rows, unless the position moves on the way. -/
def skipRows : ℕ → Reader → Except Fault (Bool × Reader)
  | 0, r => .ok (false, r)
  | k + 1, r =>
    match r._fetchOne with
    | .error e => .error e
    | .ok (_row, r') =>
      if r.coords.position ≠ r'.coords.position then
        .ok (true, { r' with startidx := k, err := 1 })
      else skipRows k { r' with startidx := k }

def fetchOne (r : Reader) : Except Fault (Option BinlogRow × Reader) :=
  match skipRows r.startidx r with
  | .error e => .error e
  | .ok (true, r) => .ok (none, r)
  | .ok (false, r) => r._fetchOne

end Reader

end LibBinlog
