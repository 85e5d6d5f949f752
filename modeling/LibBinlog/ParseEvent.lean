import LibBinlog.LogEvent

/-!
# Event parsers

The parsers of `logevent.c`, from the fixed header to the row images of a rows event. Offsets into
an event are `uint32_t` and wrap; the row cursor is an `int`. The row arrays are allocated blocks
with a slot count, and a store past the last slot is a fault.

`rowsLoop` is given one round more than the event has bytes. What a round reads depends on the
cursor alone, and it is entered only below the event length, so a loop that needs more rounds has
come back to an earlier cursor. From there it stores the same rows again and again, until their
count passes `2 ^ 30` and a store faults; `divergence` stands for that.
-/

namespace LibBinlog

open Machine Memory

def logEventHeaderLen : ℕ := 19

def eventTypeOffset : ℕ := 4

namespace EventType

def rotate : UInt8 := 4

def formatDescription : UInt8 := 15

def tableMap : UInt8 := 19

def writeRows : UInt8 := 23

def updateRows : UInt8 := 24

def deleteRows : UInt8 := 25

end EventType

structure Header where
  ts : ℕ
  type : UInt8
  serverid : ℕ
  evlen : ℕ
  nextpos : ℕ
  flags : ℕ
  extralen : ℕ

structure TableEv where
  ts : ℕ
  serverid : ℕ
  nextpos : ℕ
  evlen : ℕ
  dbname : List UInt8
  tblname : List UInt8
  nfields : ℤ
  tableid : ℕ
  types : List UInt8
  canbenull : List UInt8
  metas : List ℕ

structure Binlog where
  blver : ℕ
  hdrlen : ℕ
  masterid : ℕ
  server : List UInt8
  posthdr : List UInt8
  table : TableEv

/-- `memset(bl, 0, sizeof(Binlog))`. -/
def Binlog.zero : Binlog where
  blver := 0
  hdrlen := 0
  masterid := 0
  server := List.replicate 50 0
  posthdr := List.replicate 29 0
  table := ⟨0, 0, 0, 0, [], [], 0, 0, [], [], []⟩

abbrev BlRow := List Cell

/-- `rowsold` is the null pointer unless the event is an update. -/
structure RowsEvent where
  type : UInt8
  ts : ℕ
  nextpos : ℕ
  serverid : ℕ
  tableid : ℕ
  nfields : ℕ
  nrows : ℕ
  rows : List BlRow
  rowsold : Option (List BlRow)
  deriving DecidableEq, Repr

structure RotateEvent where
  position : ℕ
  fileName : List UInt8
  deriving DecidableEq, Repr

def getEventType (ev : Mem) : UInt8 := ev eventTypeOffset

def parseHeader (bl : Binlog) (ev : Mem) : Header where
  ts := getUint32 ev 0
  type := ev 4
  serverid := getUint32 ev 5
  evlen := getUint32 ev 9
  nextpos := getUint32 ev 13
  flags := getUint16 ev 17
  extralen := unsigned 8 (bl.hdrlen - 19)

/-- The fixed part of a format description event takes 76 bytes. -/
def parseFDE (bl : Binlog) (ev : Mem) : Except Fault Binlog :=
  let evlen := toInt32 (getUint32 ev 9)
  if unsigned 64 (evlen - 76) ≤ 29 then
    .ok { bl with
      blver := getUint16 ev 19
      hdrlen := getUint8 ev 75
      masterid := getUint32 ev 5
      server := slice ev 21 50
      posthdr := slice ev 76 29 }
  else .error .assertion

/-- `strcpy` into an array of 256 characters. -/
def strcpy256 (ev : Mem) (p : ℤ) : Except Fault (List UInt8) :=
  let str := cstring (slice ev p 256)
  if str.length < 256 then .ok str else .error .memory

def parseTableMapEvent (bl : Binlog) (ev : Mem) : Except Fault TableEv :=
  let rawfix := bl.hdrlen
  let dbname := toUInt32 (rawfix + 8)
  let tblname := toUInt32 (dbname + getUint8 ev dbname + 1 + 1)
  let cur := toUInt32 (tblname + getUint8 ev tblname + 1 + 1)
  let (count, cur) := decodeint ev cur
  let nfields := toUInt32 count
  let types := slice ev cur nfields
  let (_metalen, cur) := decodeint ev (toUInt32 (cur + nfields))
  let metadata := cur
  let canbenull := slice ev (toUInt32 (cur + nfields)) nfields
  match strcpy256 ev (dbname + 1), strcpy256 ev (tblname + 1) with
  | .ok db, .ok tbl =>
    .ok {
      ts := getUint32 ev 0
      serverid := getUint32 ev 5
      nextpos := getUint32 ev 13
      evlen := getUint32 ev 9
      dbname := db
      tblname := tbl
      nfields := toInt32 nfields
      tableid := getUint48 ev rawfix
      types := types
      canbenull := canbenull
      metas := decodeMetadata (toInt32 nfields) types ev metadata }
  | _, _ => .error .memory

/-- The name takes the rest of the event and a zero, in an array of 256 characters. -/
def parseRotateEvent (bl : Binlog) (ev : Mem) : Except Fault RotateEvent :=
  let cur := toUInt32 (bl.hdrlen + 8)
  let left := toUInt32 (getUint32 ev 9 - cur)
  if left < 256 then .ok ⟨getUint64 ev bl.hdrlen, slice ev cur left⟩ else .error .memory

/-! ## Rows events -/

/-- The columns from `i` on of one row image, `k` of them. -/
def readCells (bl : Binlog) (isnull isused : ℤ) :
    ℕ → ℕ → EventCursor → Except Fault (BlRow × EventCursor)
  | 0, _, evcur => .ok ([], evcur)
  | k + 1, i, evcur =>
    if !isSet evcur.ev isnull i && isSet evcur.ev isused i then
      match value2Cell evcur (bl.table.types.getD i 0) (bl.table.metas.getD i 0) with
      | .error e => .error e
      | .ok (cell, evcur) =>
        match readCells bl isnull isused k (i + 1) evcur with
        | .error e => .error e
        | .ok (cells, evcur) => .ok (cell :: cells, evcur)
    else
      match readCells bl isnull isused k (i + 1) evcur with
      | .error e => .error e
      | .ok (cells, evcur) => .ok (.empty :: cells, evcur)

/-- What `parseRowsEvent` has fixed when it enters its row loop. -/
structure RowsFrame where
  type : UInt8
  evlen : ℕ
  nfields : ℕ
  bitlen : ℤ
  isused : ℤ
  isused_u : ℤ

/-- `rows` and `rowsold` are the filled slots, `totalrows` the `int` that counts all slots. -/
structure RowsState where
  rows : List BlRow
  rowsold : List BlRow
  totalrows : ℤ
  evcur : EventCursor

/-- The NULL bitmap at the cursor, then the cells it announces. -/
def readImage (bl : Binlog) (fr : RowsFrame) (isused : ℤ) (evcur : EventCursor) :
    Except Fault (BlRow × EventCursor) :=
  readCells bl evcur.cur isused fr.nfields 0
    { evcur with cur := toInt32 (evcur.cur + fr.bitlen) }

/-- Doubles the arrays when they are full. A negative count asks for more than can be allocated and
leaves a null pointer. -/
def growRows (st : RowsState) : RowsState :=
  if st.totalrows ≤ st.rows.length then { st with totalrows := toInt32 (st.totalrows * 2) } else st

def rowStep (bl : Binlog) (fr : RowsFrame) (st : RowsState) : Except Fault RowsState :=
  let st := growRows st
  match readImage bl fr fr.isused st.evcur with
  | .error e => .error e
  | .ok (cells, evcur) =>
    if (st.rows.length : ℤ) < st.totalrows then
      if fr.type = EventType.updateRows then
        match readImage bl fr fr.isused_u evcur with
        | .error e => .error e
        | .ok (cellsnew, evcur) =>
          .ok ⟨st.rows ++ [cellsnew], st.rowsold ++ [cells], st.totalrows, evcur⟩
      else .ok ⟨st.rows ++ [cells], st.rowsold, st.totalrows, evcur⟩
    else .error .memory

def rowsLoop (bl : Binlog) (fr : RowsFrame) : ℕ → RowsState → Except Fault RowsState
  | 0, _ => .error .divergence
  | fuel + 1, st =>
    if toUInt32 st.evcur.cur < fr.evlen then
      match rowStep bl fr st with
      | .error e => .error e
      | .ok st => rowsLoop bl fr fuel st
    else .ok st

/-- The frame and the cursor at which the row images begin, after the two assertions. -/
def rowsFrame (bl : Binlog) (ev : Mem) : Except Fault (RowsFrame × ℕ) :=
  let hdr := parseHeader bl ev
  if getUint48 ev bl.hdrlen = bl.table.tableid then
    let (count, cur) := decodeint ev (toUInt32 (bl.hdrlen + 8))
    let nfields := toUInt32 count
    if nfields = toUInt32 bl.table.nfields then
      let bitlen := (toInt32 (toUInt32 (nfields + 7))).tdiv 8
      let isused := cur
      let cur := toUInt32 (cur + bitlen)
      let isused_u := cur
      let cur := if hdr.type = EventType.updateRows then toUInt32 (cur + bitlen) else cur
      .ok (⟨hdr.type, hdr.evlen, nfields, bitlen, isused, isused_u⟩, cur)
    else .error .assertion
  else .error .assertion

/-- The row loop of an event, with the cursor it stops at. -/
def parseRowImages (bl : Binlog) (ev : Mem) : Except Fault (RowsFrame × RowsState) :=
  match rowsFrame bl ev with
  | .error e => .error e
  | .ok (fr, cur) =>
    (rowsLoop bl fr (fr.evlen + 1) ⟨[], [], 8, ⟨ev, toInt32 cur⟩⟩).map fun st => (fr, st)

def parseRowsEvent (bl : Binlog) (ev : Mem) : Except Fault RowsEvent :=
  let hdr := parseHeader bl ev
  match parseRowImages bl ev with
  | .error e => .error e
  | .ok (fr, st) =>
    .ok {
      type := hdr.type
      ts := hdr.ts
      nextpos := hdr.nextpos
      serverid := hdr.serverid
      tableid := getUint48 ev bl.hdrlen
      nfields := fr.nfields
      nrows := st.rows.length
      rows := st.rows
      rowsold := if hdr.type = EventType.updateRows then some st.rowsold else none }

end LibBinlog
