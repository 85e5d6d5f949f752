import LibBinlog.FullImages
import LibBinlog.Log

/-!
# Encoded events as events of a log

The layouts of the format description and the rotate event, and for each kind of event that the
client looks into: bytes laid out as the master writes them read as the log event with their
content.
-/

namespace LibBinlog

open Machine Memory

variable {hist : History} {bl : Binlog} {ev : Mem}

theorem getEventType_of_holds {h : EventHeader} {body : List UInt8}
    (hev : Holds ev 0 (eventBytes h body)) (hlen : (eventBytes h body).length < 2 ^ 32) :
    getEventType ev = h.type := (headerRead_of_holds hev hlen).1.type

/-! ## Format description -/

structure FormatDescriptionEvent where
  header : EventHeader
  blver : ℕ
  server : List UInt8
  created : ℕ
  hdrlen : ℕ
  posthdr : List UInt8
  type_eq : header.type = EventType.formatDescription
  extra_eq : header.extra = []
  length_server : server.length = 50
  hdrlen_lt : hdrlen < 256
  length_posthdr : posthdr.length ≤ 29

namespace FormatDescriptionEvent

variable (e : FormatDescriptionEvent)

def body : List UInt8 :=
  leBytes 2 e.blver ++ (e.server ++ (leBytes 4 e.created ++ ([UInt8.ofNat e.hdrlen] ++ e.posthdr)))

def bytes : List UInt8 := eventBytes e.header e.body

theorem hdrlen_header : e.header.hdrlen = 19 := by
  rw [EventHeader.hdrlen, e.extra_eq]
  rfl

theorem length_bytes : e.bytes.length = 76 + e.posthdr.length := by
  simp only [bytes, length_eventBytes, e.hdrlen_header, body, List.length_append, length_leBytes,
    e.length_server, List.length_singleton]
  omega

theorem reads : Reads hist e.bytes (.formatDescription e.hdrlen) := by
  intro ev hev
  have hpost := e.length_posthdr
  have hlen := e.length_bytes
  have hshort : e.bytes.length < 2 ^ 32 := by omega
  obtain ⟨hread, hbody⟩ := headerRead_of_holds hev hshort
  refine ⟨(getEventType_of_holds hev hshort).trans e.type_eq, fun bl => ?_⟩
  have hlenByte : ev 75 = UInt8.ofNat e.hdrlen := by
    rw [e.hdrlen_header] at hbody
    have hserver := hbody.next (k := 21) (by simp)
    have hcreated := hserver.next (k := 71) (by rw [e.length_server])
    have hbyte := hcreated.next (k := 75) (by simp)
    exact (holds_cons.mp hbyte).1
  have hhdrlen : getUint8 ev 75 = e.hdrlen := by
    rw [getUint8, hlenByte, UInt8.toNat_ofNat', Nat.mod_eq_of_lt e.hdrlen_lt]
  have hevlen : toInt32 (getUint32 ev 9) = 76 + e.posthdr.length := by
    rw [hread.evlen, show (eventBytes e.header e.body).length = _ from hlen,
      toInt32_of_range (by omega) (by omega)]
    push_cast
    rfl
  have hfits : unsigned 64 (toInt32 (getUint32 ev 9) - 76) ≤ 29 := by
    rw [hevlen, add_sub_cancel_left, unsigned]
    omega
  simp only [parseFDE, if_pos hfits]
  exact ⟨_, rfl, hhdrlen, rfl⟩

end FormatDescriptionEvent

/-! ## Rotate -/

structure RotateLogEvent where
  header : EventHeader
  position : ℕ
  fileName : List UInt8
  type_eq : header.type = EventType.rotate
  position_lt : position < 2 ^ 64
  length_fileName : fileName.length < 256

namespace RotateLogEvent

variable (e : RotateLogEvent)

def bytes : List UInt8 := eventBytes e.header (leBytes 8 e.position ++ e.fileName)

theorem reads (hhdr : hist.hdrlen = e.header.hdrlen) :
    Reads hist e.bytes (.rotate ⟨e.position, e.fileName⟩) := by
  intro ev hev
  have hname := e.length_fileName
  have hhdrlen := e.header.hdrlen_lt
  have hlen : e.bytes.length = e.header.hdrlen + 8 + e.fileName.length := by
    rw [bytes, length_eventBytes, List.length_append, length_leBytes, add_assoc]
  have hshort : e.bytes.length < 2 ^ 32 := by omega
  obtain ⟨hread, hbody⟩ := headerRead_of_holds hev hshort
  refine ⟨(getEventType_of_holds hev hshort).trans e.type_eq, fun bl hbl => ?_⟩
  have hpos : getUint64 ev e.header.hdrlen = e.position :=
    hbody.left.leNat_slice (by simpa using e.position_lt)
  have hcur : toUInt32 ((e.header.hdrlen : ℤ) + 8) = e.header.hdrlen + 8 :=
    toUInt32_eq (by push_cast; rfl) (by omega)
  have hleft : toUInt32 ((getUint32 ev 9 : ℤ) - (e.header.hdrlen + 8 : ℕ)) = e.fileName.length := by
    refine toUInt32_eq ?_ (by omega)
    rw [hread.evlen, show (eventBytes e.header _).length = _ from hlen]
    push_cast
    ring
  have hrest : Holds ev (e.header.hdrlen + 8 : ℕ) e.fileName := hbody.next (by simp)
  simp only [parseRotateEvent, hbl, hhdr, hpos, hcur, hleft, if_pos hname]
  rw [hrest.slice_eq rfl]

end RotateLogEvent

/-! ## Table maps and rows -/

def TableMapFields.content (e : TableMapFields) : TableMap where
  tableid := e.tableid
  nfields := e.columns.length
  types := e.columns.map ColumnDef.type
  metas := e.columns.map ColumnDef.word
  nextpos := e.header.nextpos
  evlen := e.bytes.length

theorem TableMapEvent.reads (e : TableMapEvent) (htype : e.header.type = EventType.tableMap)
    (hhdr : hist.hdrlen = e.header.hdrlen) : Reads hist e.bytes (.tableMap e.content) := by
  intro ev hev
  have hsize : e.bytes.length < 2 ^ 32 := e.size_lt.trans (by norm_num)
  exact ⟨(getEventType_of_holds hev hsize).trans htype, fun bl hbl =>
    ⟨e.table ev, parseTableMapEvent_of_holds e (hbl.trans hhdr) hev, rfl⟩⟩

namespace RowsImageEvent

variable {cols : List ColumnDef}

/-- What a parser that reads the event as it was written returns. -/
def decoded (r : RowsImageEvent cols) : RowsEvent where
  type := r.header.type
  ts := r.header.ts
  nextpos := r.header.nextpos
  serverid := r.header.serverid
  tableid := r.tableid
  nfields := cols.length
  nrows := r.body.nrows
  rows := r.body.rows
  rowsold := r.body.rowsold

theorem isRowsType (r : RowsImageEvent cols) : IsRowsType r.header.type := by
  have hfits := r.fits
  cases hbody : r.body with
  | single used images =>
    rw [hbody] at hfits
    exact hfits.imp_right .inr
  | pairs used usedAfter images =>
    rw [hbody] at hfits
    exact .inr (.inl hfits)

theorem parse_of_readBack {r : RowsImageEvent cols} (htable : TableFits bl.table r.tableid cols)
    (hbl : bl.hdrlen = r.header.hdrlen) (hev : Holds ev 0 r.bytes) (h : r.ReadBack bl ev) :
    parseRowsEvent bl ev = .ok r.decoded := by
  obtain ⟨out, fr, st, hparse, himages, hnrows, hrows, hrowsold, -⟩ := h
  obtain ⟨hread, -, hframe⟩ := rowsFrame_of_holds r htable hbl hev
  obtain ⟨fr', st', himages', rfl⟩ := parseRowsEvent_ok.mp hparse
  obtain ⟨cur, hframe', -⟩ := parseRowImages_ok himages'
  obtain ⟨rfl, -⟩ := Prod.mk.inj (Except.ok.inj (hframe.symm.trans hframe'))
  have hid : getUint48 ev bl.hdrlen = r.tableid := by
    have hbody := (headerRead_of_holds hev (r.size_lt.trans (by norm_num))).2
    rw [getUint48_eq, hbl]
    exact hbody.left.leNat_slice (by simpa using r.tableid_lt)
  rw [hparse, decoded]
  refine congrArg Except.ok ?_
  rw [RowsEvent.mk.injEq]
  exact ⟨hread.type, hread.ts, hread.nextpos, hread.serverid, hid, rfl, hnrows, hrows, hrowsold⟩

/-- An event with all columns, under the table map that governs it. -/
theorem reads {e : TableMapEvent} (r : RowsImageEvent e.columns)
    (hgov : hist.governing r.tableid = some e.content) (hhdr : hist.hdrlen = r.header.hdrlen)
    (hn : 0 < e.columns.length) (hused : r.body.AllUsed) (hrows : r.body.nrows ≤ 2 ^ 30) :
    Reads hist r.bytes (.rows r.tableid r.decoded) := by
  have hid : e.tableid = r.tableid := by
    have hfound := List.find?_some (p := fun tm : TableMap => decide (tm.tableid = r.tableid)) hgov
    exact of_decide_eq_true hfound
  have hsize : r.bytes.length < 2 ^ 32 := r.size_lt.trans (by norm_num)
  refine ⟨e.content, hgov, fun ev hev => ?_⟩
  obtain ⟨hread, hbody⟩ := headerRead_of_holds hev hsize
  have htype : getEventType ev = r.header.type := getEventType_of_holds hev hsize
  refine ⟨htype ▸ r.isRowsType, ?_, fun bl hbl hcontent => ?_⟩
  · rw [hhdr, getUint48_eq]
    exact hbody.left.leNat_slice (by simpa using r.tableid_lt)
  · have htable : TableFits bl.table r.tableid e.columns := by
      simp only [TableEv.content, TableMapFields.content, TableMap.mk.injEq] at hcontent
      obtain ⟨htid, hnfields, htypes, hmetas, -, -⟩ := hcontent
      exact ⟨htid.trans hid, hnfields, htypes, hmetas, e.length_columns_lt⟩
    exact parse_of_readBack htable (hbl.trans hhdr) hev
      ((readBack_iff_of_allUsed htable (hbl.trans hhdr) hev hn hused).mpr hrows)

end RowsImageEvent

end LibBinlog
