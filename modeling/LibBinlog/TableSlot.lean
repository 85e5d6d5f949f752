import LibBinlog.EncodedEvents
import LibBinlog.FileDriver

/-!
# One slot for the table map

The client keeps the table map it read last, whatever its id. Over a whole stream its rows events
are decoded with the table maps that govern them exactly if the last map in front of each is its
own; otherwise the assertion on the table id ends the run.
-/

namespace LibBinlog

open Machine Memory Calls

variable {σ : Type*} {drv : Driver σ} {feed : Feed drv} {bc : BinlogClient σ} {ds : DataSource σ}
  {stream : List (List UInt8)} {log : List LogEvent} {position index : ℕ} {serverid : ℤ}

/-- The rows events of a log come out of `getRowsEvent` in order. -/
def DecodesAll (drv : Driver σ) (bc : BinlogClient σ) (log : List LogEvent) : Prop :=
  ∃ bc', calls (getRowsEvent drv) (log.filterMap LogEvent.rowsEvent).length bc =
    .ok ((log.filterMap LogEvent.rowsEvent).map some, bc')

theorem Represents.decodesAll_iff {r : Reader} (h : Represents feed bc r) :
    DecodesAll drv bc r.rest ↔ LastMapGoverns r.coords.slot r.rest := by
  have hagree := getRowsEvent_simulates.calls (r.rest.filterMap LogEvent.rowsEvent).length bc r h
  rw [← getRowsEvent_calls_iff]
  constructor
  · rintro ⟨bc', hclient⟩
    obtain ⟨r', hreader, -⟩ := hagree.ok_left hclient
    exact ⟨r', hreader⟩
  · rintro ⟨r', hreader⟩
    obtain ⟨bc', hclient, -⟩ := hagree.ok_right hreader
    exact ⟨bc', hclient⟩

theorem Fresh.decodesAll_iff (h : Fresh bc index)
    (hfeed : feed.Delivers stream bc.dataSource.driver bc.dataSource.errstr)
    (hlog : ReadsAll .start stream log) : DecodesAll drv bc log ↔ LastMapGoverns none log :=
  (represents_fresh h hfeed hlog).decodesAll_iff

/-- A client decodes each rows event with the latest table map under the event's id, and no
assertion fails, exactly if no other table map stands between the two. -/
theorem getRowsEvent_decodesAll_iff
    (hconn : connectDataSource drv (some ds) position index serverid = .ok (.ok bc))
    (hfeed : feed.Delivers stream bc.dataSource.driver bc.dataSource.errstr)
    (hlog : ReadsAll .start stream log) : DecodesAll drv bc log ↔ LastMapGoverns none log :=
  (connectDataSource_ok hconn).1.decodesAll_iff hfeed hlog

/-! ## Two tables in one statement -/

def sampleFDE : FormatDescriptionEvent where
  header := sampleHeader EventType.formatDescription 80 (by decide)
  blver := 4
  server := List.replicate 50 0
  created := 1000
  hdrlen := 19
  posthdr := []
  type_eq := rfl
  extra_eq := rfl
  length_server := rfl
  hdrlen_lt := by decide
  length_posthdr := by decide

/-- The same columns under another table id. -/
def otherTableMap : TableMapEvent where
  toTableMapFields := { sampleTableMap.toTableMapFields with tableid := 8, tableid_lt := by decide }
  size_lt := by decide

/-- The sample table map where it ends at `nextpos`. -/
def placedTableMap (nextpos : ℕ) (h : nextpos < 2 ^ 32) : TableMapEvent where
  toTableMapFields := { sampleTableMap.toTableMapFields with
    header := sampleHeader EventType.tableMap nextpos h }
  size_lt := by
    have hbody : sampleTableMap.body.length = 23 := by decide
    rw [TableMapFields.bytes, length_eventBytes]
    exact (Nat.add_lt_add_left (hbody.trans_lt (by norm_num)) _).trans
      (by decide : 19 + 100 < 2 ^ 31)

/-- The log event of an insert of `n` rows into the sample table. -/
def nullRowsEvent (n : ℕ) (hn : n < 2 ^ 31 - 29) : LogEvent := .rows 7 (nullRows n hn).decoded

theorem nullRows_reads {hist : History} (hhdr : hist.hdrlen = 19)
    (hgov : hist.governing 7 = some sampleTableMap.content) (n : ℕ) (hn : n ≤ 2 ^ 30) :
    Reads hist (nullRows n (by omega)).bytes (nullRowsEvent n (by omega)) :=
  (nullRows n (by omega)).reads hgov hhdr (by decide) (nullRows_allUsed n)
    (by rw [nrows_nullRows]; exact hn)

def sampleStream : List (List UInt8) :=
  [sampleFDE.bytes, sampleTableMap.bytes, (nullRows 1 (by decide)).bytes]

def sampleLog : List LogEvent :=
  [.formatDescription 19, .tableMap sampleTableMap.content, nullRowsEvent 1 (by decide)]

theorem sampleLog_reads : ReadsAll .start sampleStream sampleLog :=
  ⟨sampleFDE.reads, sampleTableMap.reads rfl rfl, nullRows_reads rfl rfl 1 (by norm_num), trivial⟩

theorem sized_sampleStream : ∀ e ∈ sampleStream, Sized e := by
  intro e he
  simp only [sampleStream, List.mem_cons, List.not_mem_nil, or_false] at he
  rcases he with rfl | rfl | rfl
  · exact sized_eventBytes (by rw [← FormatDescriptionEvent.bytes, sampleFDE.length_bytes]; decide)
  · exact sized_eventBytes sampleTableMap.size_lt
  · exact sized_eventBytes (nullRows 1 (by decide)).size_lt

def sampleMagic : List UInt8 := [254, 98, 105, 110]

/-- A data source for a file of events. -/
def sampleFile (stream : List (List UInt8)) : DataSource FileSource :=
  dsInitWithFile (some (fileBytes sampleMagic stream)) (ascii "binlog.000001") fun _ _ => 0

theorem getRowsEvent_decodesAll_sample : ∃ bc,
    connectDataSource fileDriver (some (sampleFile sampleStream)) 4 0 1 = .ok (.ok bc) ∧
      DecodesAll fileDriver bc sampleLog := by
  obtain ⟨bc, hconn, hfeed, -⟩ := connectDataSource_file sampleMagic
    (ascii "binlog.000001") rfl sized_sampleStream (fun _ _ => 0) 4 0 1
  exact ⟨bc, hconn, (getRowsEvent_decodesAll_iff hconn hfeed sampleLog_reads).mpr
    ⟨rfl, trivial⟩⟩

/-- Two table maps, and then the rows of the first. -/
def twoTablesStream : List (List UInt8) :=
  [sampleFDE.bytes, sampleTableMap.bytes, otherTableMap.bytes, (nullRows 1 (by decide)).bytes]

def twoTablesLog : List LogEvent :=
  [.formatDescription 19, .tableMap sampleTableMap.content, .tableMap otherTableMap.content,
    nullRowsEvent 1 (by decide)]

theorem twoTablesLog_reads : ReadsAll .start twoTablesStream twoTablesLog :=
  ⟨sampleFDE.reads, sampleTableMap.reads rfl rfl, otherTableMap.reads rfl rfl,
    nullRows_reads rfl rfl 1 (by norm_num), trivial⟩

theorem sized_twoTablesStream : ∀ e ∈ twoTablesStream, Sized e := by
  intro e he
  have hsample := sized_sampleStream e
  simp only [twoTablesStream, sampleStream, List.mem_cons, List.not_mem_nil, or_false]
    at he hsample
  rcases he with h | h | rfl | h
  · exact hsample (.inl h)
  · exact hsample (.inr (.inl h))
  · exact sized_eventBytes otherTableMap.size_lt
  · exact hsample (.inr (.inr h))

theorem twoTables_not_decodesAll : ReadsAll .start twoTablesStream twoTablesLog ∧ ∃ bc,
    connectDataSource fileDriver (some (sampleFile twoTablesStream)) 4 0 1 = .ok (.ok bc) ∧
      ¬DecodesAll fileDriver bc twoTablesLog := by
  obtain ⟨bc, hconn, hfeed, -⟩ := connectDataSource_file sampleMagic
    (ascii "binlog.000001") rfl sized_twoTablesStream (fun _ _ => 0) 4 0 1
  refine ⟨twoTablesLog_reads, bc, hconn, fun hdecodes => ?_⟩
  obtain ⟨hslot, -⟩ := ((connectDataSource_ok hconn).1.decodesAll_iff hfeed
    twoTablesLog_reads).mp hdecodes
  exact absurd hslot (by decide)

end LibBinlog
