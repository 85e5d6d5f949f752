import LibBinlog.ReaderRuns
import LibBinlog.RowBuffer

/-!
# The client refines the reader

A client whose source delivers a stream of bytes that reads as a log does call by call what the
reader of that log does: the same answers and the same faults. The relation between the two says
what is left in the source, which table map the parser state holds, and which rows are buffered.
-/

namespace LibBinlog

open Machine Memory Calls

variable {σ : Type*} {drv : Driver σ}

/-- `getEvent` leaves the coordinates alone. -/
def DataSource.SameCoords (ds ds' : DataSource σ) : Prop :=
  ds'.logfile = ds.logfile ∧ ds'.position = ds.position ∧ ds'.index = ds.index

/-- Where the source's text, used as a format, prints without harm. -/
def Printable (text : List UInt8) : Prop :=
  ∃ printed, sprintf255 text = some printed ∧ printed.length < errorSize

theorem Printable.of_plain {text : List UInt8} (hplain : 37 ∉ text)
    (hlen : text.length < errorSize) : Printable text :=
  ⟨text, Printf.sprintf_plain hplain 255, hlen⟩

/-- A reading of driver states, with the error text: a state that delivers a stream gives its events
one by one, each somewhere in memory, and then none. -/
structure Feed (drv : Driver σ) where
  Delivers : List (List UInt8) → σ → List UInt8 → Prop
  next : ∀ {e : List UInt8} {stream : List (List UInt8)} {ds : DataSource σ},
    Delivers (e :: stream) ds.driver ds.errstr → ∃ ev ds', drv.getEvent ds = .ok (some ev, ds') ∧
      Holds ev 0 e ∧ Delivers stream ds'.driver ds'.errstr ∧ ds.SameCoords ds'
  last : ∀ {ds : DataSource σ}, Delivers [] ds.driver ds.errstr →
    ∃ ds', drv.getEvent ds = .ok (none, ds') ∧ Delivers [] ds'.driver ds'.errstr ∧
      ds.SameCoords ds' ∧ Printable ds'.errstr

/-! ## One event -/

variable {bc bc' : BinlogClient σ} {ev : Mem} {ds : DataSource σ}

theorem getRowsEvent_end {text : List UInt8} (h : drv.getEvent bc.dataSource = .ok (none, ds))
    (htext : sprintf255 ds.errstr = some text) (hlen : text.length < errorSize) :
    getRowsEvent drv bc =
      .ok (none, { bc with dataSource := ds, err := 1, errstr := text }) := by
  rw [getRowsEvent]
  split
  · simp_all
  · simp_all
  · simp_all

theorem getRowsEvent_fault {e : Fault} (h : drv.getEvent bc.dataSource = .ok (some ev, ds))
    (hon : onEvent { bc with dataSource := ds } ev = .error e) :
    getRowsEvent drv bc = .error e := by
  rw [getRowsEvent]
  split
  · simp_all
  · simp_all
  · split <;> simp_all

theorem getRowsEvent_rows {rev : RowsEvent}
    (h : drv.getEvent bc.dataSource = .ok (some ev, ds))
    (hon : onEvent { bc with dataSource := ds } ev = .ok (some rev, bc')) :
    getRowsEvent drv bc = .ok (some rev, bc') := by
  rw [getRowsEvent]
  split
  · simp_all
  · simp_all
  · split <;> simp_all

theorem getRowsEvent_next (h : drv.getEvent bc.dataSource = .ok (some ev, ds))
    (hon : onEvent { bc with dataSource := ds } ev = .ok (none, bc')) :
    getRowsEvent drv bc = getRowsEvent drv bc' := by
  rw [getRowsEvent]
  split
  · simp_all
  · simp_all
  · split <;> simp_all

/-- The parser state after the events of a history. -/
structure Parses (bl : Binlog) (hist : History) (slot : Option TableMap) : Prop where
  hdrlen : bl.hdrlen = hist.hdrlen
  slot_eq : slot = hist.maps.head?
  table : ∀ tm, slot = some tm → bl.table.content = tm

structure AtCoords (ds : DataSource σ) (c : Coords) : Prop where
  logfile : ds.logfile = c.logfile
  position : ds.position = c.position
  index : ds.index = c.index

theorem AtCoords.congr {ds' : DataSource σ} {c : Coords} (h : AtCoords ds c)
    (hds : ds.SameCoords ds') : AtCoords ds' c :=
  ⟨hds.1.trans h.logfile, hds.2.1.trans h.position, hds.2.2.trans h.index⟩

variable {hist : History} {e : List UInt8} {le : LogEvent} {c : Coords}

theorem parseRowsEvent_of_id_ne {bl : Binlog} (h : getUint48 ev bl.hdrlen ≠ bl.table.tableid) :
    parseRowsEvent bl ev = .error .assertion := by
  have hframe : rowsFrame bl ev = .error .assertion := by
    simp only [rowsFrame]
    rw [if_neg h]
  rw [parseRowsEvent, parseRowImages, hframe]

theorem onEvent_rows (bc : BinlogClient σ) {tableid : ℕ} {rev : RowsEvent}
    (hreads : Reads hist e (.rows tableid rev))
    (hev : Holds ev 0 e) (hbl : Parses bc.binlog hist c.slot) : onEvent bc ev =
      if c.slot.map TableMap.tableid = some tableid then .ok (some rev, bc)
      else .error .assertion := by
  obtain ⟨tm, hgov, hread⟩ := hreads
  obtain ⟨htype, hid, hparse⟩ := hread ev hev
  have hnotFDE : getEventType ev ≠ EventType.formatDescription := by
    rcases htype with h | h | h <;> rw [h] <;> decide
  have hnotMap : getEventType ev ≠ EventType.tableMap := by
    rcases htype with h | h | h <;> rw [h] <;> decide
  rw [IsRowsType] at htype
  simp only [onEvent, if_neg hnotFDE, if_neg hnotMap, if_pos htype]
  rw [History.governing] at hgov
  cases hmaps : hist.maps with
  | nil => simp [hmaps] at hgov
  | cons head maps =>
    have hslot : c.slot = some head := by rw [hbl.slot_eq, hmaps]; rfl
    have htable := hbl.table head hslot
    by_cases hhead : head.tableid = tableid
    · have htm : head = tm := by simpa [hmaps, hhead] using hgov
      rw [hparse bc.binlog hbl.hdrlen (htable.trans htm)]
      simp [hslot, hhead]
    · have hne : getUint48 ev bc.binlog.hdrlen ≠ bc.binlog.table.tableid := by
        rw [hbl.hdrlen, hid, show bc.binlog.table.tableid = head.tableid from
          congrArg TableMap.tableid htable]
        exact fun he => hhead he.symm
      rw [parseRowsEvent_of_id_ne hne]
      simp [hslot, hhead]

/-- An event without rows only moves the parser state and the coordinates. -/
theorem onEvent_other (bc : BinlogClient σ) (hreads : Reads hist e le)
    (hrows : le.rowsEvent = none) (hev : Holds ev 0 e) (hbl : Parses bc.binlog hist c.slot)
    (hc : AtCoords bc.dataSource c) :
    ∃ bl ds, onEvent bc ev = .ok (none, { bc with binlog := bl, dataSource := ds }) ∧
      Parses bl (hist.after le) (c.after le).slot ∧ AtCoords ds (c.after le) ∧
      ds.driver = bc.dataSource.driver ∧ ds.errstr = bc.dataSource.errstr := by
  cases le with
  | formatDescription hdrlen =>
    obtain ⟨htype, hparse⟩ := hreads ev hev
    obtain ⟨bl, hbl', hlen, htable⟩ := hparse bc.binlog
    refine ⟨bl, bc.dataSource, ?_, ⟨hlen, hbl.slot_eq, ?_⟩, hc, rfl, rfl⟩
    · simp only [onEvent, htype, if_true, hbl']
      rfl
    · rw [htable]
      exact hbl.table
  | tableMap tm =>
    obtain ⟨htype, hparse⟩ := hreads ev hev
    obtain ⟨tbl, htbl, hcontent⟩ := hparse bc.binlog hbl.hdrlen
    have hnotFDE : EventType.tableMap ≠ EventType.formatDescription := by decide
    refine ⟨{ bc.binlog with table := tbl },
      { bc.dataSource with position := toUInt32 (tbl.nextpos - tbl.evlen), index := 0 },
      ?_, ⟨hbl.hdrlen, rfl, ?_⟩, ⟨hc.logfile, ?_, rfl⟩, rfl, rfl⟩
    · simp only [onEvent, htype, if_neg hnotFDE, if_true, htbl]
    · rintro _ ⟨⟩
      exact hcontent
    · rw [← hcontent]
      rfl
  | rows tableid rev => cases hrows
  | rotate rot =>
    obtain ⟨htype, hparse⟩ := hreads ev hev
    have hnotRows : ¬IsRowsType EventType.rotate := by
      rw [IsRowsType]
      decide
    have hnotFDE : EventType.rotate ≠ EventType.formatDescription := by decide
    have hnotMap : EventType.rotate ≠ EventType.tableMap := by decide
    rw [IsRowsType] at hnotRows
    refine ⟨bc.binlog, { bc.dataSource with
      position := toUInt32 rot.position, logfile := cstring rot.fileName }, ?_, hbl,
      ⟨rfl, rfl, hc.index⟩, rfl, rfl⟩
    simp only [onEvent, htype, if_neg hnotFDE, if_neg hnotMap, if_neg hnotRows, if_true,
      hparse bc.binlog hbl.hdrlen]
  | unrelated =>
    obtain ⟨hnotRows, hnotFDE, hnotMap, hnotRotate⟩ := hreads ev hev
    rw [IsRowsType] at hnotRows
    refine ⟨bc.binlog, bc.dataSource, ?_, hbl, hc, rfl, rfl⟩
    simp only [onEvent, if_neg hnotFDE, if_neg hnotMap, if_neg hnotRows, if_neg hnotRotate]

theorem getRowsEvent_wellShaped {rev : RowsEvent} (h : getRowsEvent drv bc = .ok (some rev, bc')) :
    rev.WellShaped := by
  fun_induction getRowsEvent drv bc with
  | case1 | case2 | case3 | case4 | case5 => cases h
  | case6 bc ev ds hget rev' bc'' hon =>
    cases h
    obtain ⟨bl, ds', -, -, hparse⟩ := onEvent_ok hon
    exact parseRowsEvent_wellShaped (hparse rev rfl)
  | case7 bc ev ds hget bc'' hon ih => exact ih h

/-- The memory of a decodable rows event and a table state to decode it with. -/
theorem Reads.parsed {tableid : ℕ} {rev : RowsEvent} (h : Reads hist e (.rows tableid rev)) :
    ∃ bl ev, Holds ev 0 e ∧ parseRowsEvent bl ev = .ok rev := by
  obtain ⟨tm, -, hread⟩ := h
  obtain ⟨-, -, hparse⟩ := hread (ofBytes e) (holds_ofBytes e)
  let bl : Binlog := { Binlog.zero with
    hdrlen := hist.hdrlen
    table := ⟨0, 0, tm.nextpos, tm.evlen, [], [], tm.nfields, tm.tableid, tm.types, [], tm.metas⟩ }
  exact ⟨bl, ofBytes e, holds_ofBytes e, hparse bl rfl rfl⟩

/-! ## The simulation -/

/-- The client stands where the reader stands, with the reader's log still in its source. -/
structure Represents (feed : Feed drv) (bc : BinlogClient σ) (r : Reader) : Prop where
  source : ∃ stream hist, feed.Delivers stream bc.dataSource.driver bc.dataSource.errstr ∧
    ReadsAll hist stream r.rest ∧ Parses bc.binlog hist r.coords.slot
  coords : AtCoords bc.dataSource r.coords
  buffer : BufferHolds bc r.buffer
  startidx : bc._startidx = r.startidx
  err : bc.err = r.err

variable {feed : Feed drv} {log : List LogEvent}

theorem getRowsEvent_simulates :
    Simulates (Represents feed) (getRowsEvent drv) Reader.getRowsEvent := by
  rintro bc ⟨c, log, buffer, startidx, err⟩ h
  induction log generalizing bc c with
  | nil =>
    obtain ⟨stream, hist, hfeed, hlog, hbl⟩ := h.source
    cases stream with
    | cons e stream => exact hlog.elim
    | nil =>
      obtain ⟨ds, hget, hfeed', hsame, text, htext, hlen⟩ := feed.last hfeed
      rw [getRowsEvent_end hget htext hlen]
      exact ⟨rfl, ⟨[], hist, hfeed', trivial, hbl⟩, h.coords.congr hsame,
        ⟨h.buffer.cur_le, h.buffer.lenRows_le, h.buffer.slots⟩, h.startidx, rfl⟩
  | cons le log ih =>
    obtain ⟨stream, hist, hfeed, hlog, hbl⟩ := h.source
    cases stream with
    | nil => exact hlog.elim
    | cons e stream =>
      obtain ⟨hreads, hrest⟩ := hlog
      obtain ⟨ev, ds, hget, hev, hfeed', hsame⟩ := feed.next hfeed
      have hbuf : BufferHolds { bc with dataSource := ds } buffer :=
        ⟨h.buffer.cur_le, h.buffer.lenRows_le, h.buffer.slots⟩
      cases hrows : le.rowsEvent with
      | none =>
        obtain ⟨bl, ds', hon, hbl', hc', hdriver, herrstr⟩ := onEvent_other
          { bc with dataSource := ds } hreads hrows hev hbl (h.coords.congr hsame)
        rw [getRowsEvent_next hget hon, Reader.getRowsEvent, pull_other hrows]
        refine ih _ _ ⟨⟨stream, hist.after le, ?_, hrest, hbl'⟩, hc', ?_, h.startidx, h.err⟩
        · rw [hdriver, herrstr]
          exact hfeed'
        · exact ⟨h.buffer.cur_le, h.buffer.lenRows_le, h.buffer.slots⟩
      | some rev =>
        obtain ⟨tableid, rfl⟩ := eq_rows_of_rowsEvent hrows
        have hon := onEvent_rows { bc with dataSource := ds } hreads hev hbl
        rw [Reader.getRowsEvent, pull]
        split_ifs at hon ⊢ with hslot
        · rw [getRowsEvent_rows hget hon]
          refine ⟨rfl, ?_⟩
          exact ⟨⟨stream, hist, hfeed', hrest, hbl⟩, h.coords.congr hsame, hbuf, h.startidx, h.err⟩
        · rw [getRowsEvent_fault hget hon]
          exact rfl

theorem Represents.incrIndex {r : Reader} (h : Represents feed bc r) :
    Represents feed bc.incrIndex { r with coords := r.coords.incrIndex } :=
  ⟨h.source, ⟨h.coords.logfile, h.coords.position, by
    rw [BinlogClient.incrIndex, Coords.incrIndex]
    simp only [h.coords.index]⟩,
    ⟨h.buffer.cur_le, h.buffer.lenRows_le, h.buffer.slots⟩, h.startidx, h.err⟩

/-- Fetching from a buffer that holds the reader's rows. -/
theorem fetchFromBuffer_agree {r : Reader} (h : Represents feed bc r) :
    Agree (Represents feed) (fetchFromBuffer bc.incrIndex) (.ok (r.take r.buffer)) := by
  have hnext := h.incrIndex
  cases hbuffer : r.buffer with
  | nil =>
    have hempty := hnext.buffer
    simp only [hbuffer] at hempty
    rw [fetchFromBuffer_nil hempty]
    refine ⟨rfl, ?_⟩
    exact ⟨hnext.source, hnext.coords, hempty, h.startidx, h.err⟩
  | cons row rows =>
    have hrow := hnext.buffer
    simp only [hbuffer] at hrow
    obtain ⟨hfetch, hrest⟩ := fetchFromBuffer_cons hrow
    rw [hfetch]
    refine ⟨rfl, ?_⟩
    exact ⟨hnext.source, hnext.coords, hrest, h.startidx, h.err⟩

theorem _fetchOne_simulates : Simulates (Represents feed) (_fetchOne drv) Reader._fetchOne := by
  intro bc r h
  have hempty := h.buffer.nil_iff
  rw [_fetchOne, Reader._fetchOne]
  cases hbuffer : r.buffer with
  | cons row rows =>
    rw [if_neg (by rw [hempty, hbuffer]; exact List.cons_ne_nil row rows)]
    simpa only [hbuffer] using fetchFromBuffer_agree h
  | nil =>
    rw [if_pos (hempty.mpr hbuffer)]
    have hpull := getRowsEvent_simulates bc r h
    cases hclient : getRowsEvent drv bc with
    | error e =>
      cases hreader : r.getRowsEvent with
      | error e' => simpa only [hclient, hreader, agree_error] using hpull
      | ok out => rw [hclient, hreader] at hpull; exact hpull.elim
    | ok out =>
      obtain ⟨answer, bc'⟩ := out
      obtain ⟨r', hreader, h'⟩ := hpull.ok_left hclient
      rw [hreader]
      cases answer with
      | none =>
        refine ⟨rfl, ?_⟩
        exact ⟨h'.source, ⟨h'.coords.logfile, h'.coords.position, rfl⟩,
          ⟨h'.buffer.cur_le, h'.buffer.lenRows_le, h'.buffer.slots⟩, h'.startidx, h'.err⟩
      | some rev =>
        obtain ⟨block, hset, hholds⟩ :=
          setRowsEventBuffer_ok (getRowsEvent_wellShaped hclient) h'.buffer
        simp only [hset]
        exact fetchFromBuffer_agree (r := { r' with buffer := rev.binlogRows })
          ⟨h'.source, ⟨h'.coords.logfile, h'.coords.position, h'.coords.index⟩, hholds,
            h'.startidx, h'.err⟩

theorem skipRows_simulates (start k : ℕ) {r : Reader} (h : Represents feed bc r) :
    Agree (Represents feed) (skipRows drv start k bc) (Reader.skipRows k r) := by
  induction k generalizing bc r with
  | zero => exact ⟨rfl, h⟩
  | succ k ih =>
    have hfetch := _fetchOne_simulates bc r h
    rw [skipRows, Reader.skipRows]
    cases hclient : _fetchOne drv bc with
    | error e =>
      cases hreader : r._fetchOne with
      | error e' => simpa only [hclient, hreader, agree_error] using hfetch
      | ok out => rw [hclient, hreader] at hfetch; exact hfetch.elim
    | ok out =>
      obtain ⟨row, bc'⟩ := out
      obtain ⟨r', hreader, h'⟩ := hfetch.ok_left hclient
      simp only [hreader, h.coords.position, h'.coords.position]
      split_ifs with hmoved
      · refine ⟨rfl, ?_⟩
        exact ⟨h'.source, h'.coords, ⟨h'.buffer.cur_le, h'.buffer.lenRows_le, h'.buffer.slots⟩,
          rfl, rfl⟩
      · exact ih ⟨h'.source, h'.coords,
          ⟨h'.buffer.cur_le, h'.buffer.lenRows_le, h'.buffer.slots⟩, rfl, h'.err⟩

theorem fetchOne_simulates : Simulates (Represents feed) (fetchOne drv) Reader.fetchOne := by
  intro bc r h
  have hskip := skipRows_simulates r.startidx r.startidx h
  rw [fetchOne, Reader.fetchOne, h.startidx]
  cases hclient : skipRows drv r.startidx r.startidx bc with
  | error e =>
    cases hreader : Reader.skipRows r.startidx r with
    | error e' => simpa only [hclient, hreader, agree_error] using hskip
    | ok out => rw [hclient, hreader] at hskip; exact hskip.elim
  | ok out =>
    obtain ⟨moved, bc'⟩ := out
    obtain ⟨r', hreader, h'⟩ := hskip.ok_left hclient
    simp only [hreader]
    cases moved with
    | true => exact ⟨rfl, h'⟩
    | false => exact _fetchOne_simulates bc' r' h'

/-! ## A fresh client -/

/-- A reader at the start of a log, with these coordinates. -/
def Reader.fresh (c : Coords) (startidx : ℕ) (log : List LogEvent) : Reader :=
  ⟨c, log, [], startidx, 0⟩

/-- The data source's coordinates before any table map. -/
def DataSource.coords (ds : DataSource σ) : Coords := ⟨none, ds.logfile, ds.position, ds.index⟩

/-- A client as `connectDataSource` leaves it. -/
structure Fresh (bc : BinlogClient σ) (startidx : ℕ) : Prop where
  _rows : bc._rows = none
  _lenRows : bc._lenRows = 0
  _cur : bc._cur = 0
  _startidx : bc._startidx = startidx
  binlog : bc.binlog = .zero
  err : bc.err = 0

theorem connectDataSource_ok {ds : DataSource σ} {position index : ℕ} {serverid : ℤ}
    (h : connectDataSource drv (some ds) position index serverid = .ok (.ok bc)) :
    Fresh bc index ∧
      drv.connect { ds with position := position, index := 0, serverid := serverid } =
        .ok (true, bc.dataSource) := by
  simp only [connectDataSource] at h
  split at h
  · cases h
  · cases h
  · rename_i hconn
    cases h
    exact ⟨⟨rfl, rfl, rfl, rfl, rfl, rfl⟩, hconn⟩

/-- A fresh client whose source delivers a stream that reads as a log stands at its start. -/
theorem represents_fresh {stream : List (List UInt8)} {startidx : ℕ} (h : Fresh bc startidx)
    (hfeed : feed.Delivers stream bc.dataSource.driver bc.dataSource.errstr)
    (hlog : ReadsAll .start stream log) :
    Represents feed bc (.fresh bc.dataSource.coords startidx log) where
  source := ⟨stream, .start, hfeed, hlog, by rw [h.binlog]; rfl, rfl, nofun⟩
  coords := ⟨rfl, rfl, rfl⟩
  buffer := by
    refine ⟨?_, ?_, ?_⟩
    · rw [h._cur, h._lenRows]
    · rw [h._lenRows]
      exact Nat.zero_le _
    · simp [h._rows, h._lenRows, Reader.fresh]
  startidx := h._startidx
  err := h.err

end LibBinlog
