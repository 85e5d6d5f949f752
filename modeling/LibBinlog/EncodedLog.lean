import LibBinlog.EncodedEvents
import LibBinlog.EndSignal

/-!
# Encoded logs

A master's log as a list of events in its own terms: what it says about tables and rows, and the
bytes that it writes. Where each rows event stands behind the table map of its table, has all
columns and at least one row, the bytes read as a log whose readers miss nothing.
-/

namespace LibBinlog

open Machine Memory Calls

/-- An event of a type that the client does not look into. -/
structure OtherEvent where
  header : EventHeader
  body : List UInt8
  notRows : ¬IsRowsType header.type
  ne_formatDescription : header.type ≠ EventType.formatDescription
  ne_tableMap : header.type ≠ EventType.tableMap
  ne_rotate : header.type ≠ EventType.rotate
  size_lt : (eventBytes header body).length < 2 ^ 31

inductive EncodedEvent
  | formatDescription (e : FormatDescriptionEvent)
  | tableMap (e : TableMapEvent)
  | rows (e : TableMapEvent) (r : RowsImageEvent e.columns)
  | rotate (e : RotateLogEvent)
  | other (e : OtherEvent)

namespace EncodedEvent

def bytes : EncodedEvent → List UInt8
  | formatDescription e => e.bytes
  | tableMap e => e.bytes
  | rows _ r => r.bytes
  | rotate e => e.bytes
  | other e => eventBytes e.header e.body

def logEvent : EncodedEvent → LogEvent
  | formatDescription e => .formatDescription e.hdrlen
  | tableMap e => .tableMap e.content
  | rows _ r => .rows r.tableid r.decoded
  | rotate e => .rotate ⟨e.position, e.fileName⟩
  | other _ => .unrelated

/-- Headers have the length that the format description has announced, and a rows event is one of
the table described last. -/
def Follows (hist : History) : EncodedEvent → Prop
  | formatDescription _ => True
  | tableMap e => e.header.type = EventType.tableMap ∧ hist.hdrlen = e.header.hdrlen
  | rows e r => hist.hdrlen = r.header.hdrlen ∧ hist.maps.head? = some e.content ∧
      r.tableid = e.tableid ∧ 0 < e.columns.length ∧ r.body.AllUsed ∧ 0 < r.body.nrows ∧
      r.body.nrows ≤ 2 ^ 30
  | rotate e => hist.hdrlen = e.header.hdrlen
  | other _ => True

/-- The rows of an event as the master has them. -/
def binlogRows (e : EncodedEvent) : List BinlogRow := e.logEvent.binlogRows

variable {hist : History} {e : EncodedEvent}

theorem reads (h : e.Follows hist) : Reads hist e.bytes e.logEvent := by
  cases e with
  | formatDescription e => exact e.reads
  | tableMap e => exact e.reads h.1 h.2
  | rows e r =>
    obtain ⟨hhdr, hlast, hid, hcols, hused, -, hrows⟩ := h
    have hgov : hist.governing r.tableid = some e.content := by
      obtain ⟨maps, hmaps⟩ : ∃ maps, hist.maps = e.content :: maps := by
        cases hm : hist.maps with
        | nil => simp [hm] at hlast
        | cons tm maps => exact ⟨maps, by simpa [hm] using hlast⟩
      have hcontent : e.content.tableid = r.tableid := hid.symm
      rw [History.governing, hmaps, List.find?_cons_of_pos (by simpa using hcontent)]
    exact r.reads hgov hhdr hcols hused hrows
  | rotate e => exact e.reads h
  | other e =>
    intro ev hev
    rw [getEventType_of_holds hev (e.size_lt.trans (by norm_num))]
    exact ⟨e.notRows, e.ne_formatDescription, e.ne_tableMap, e.ne_rotate⟩

theorem sized (e : EncodedEvent) : Sized e.bytes := by
  cases e with
  | formatDescription e =>
    have hlen := e.length_bytes
    have hpost := e.length_posthdr
    exact sized_eventBytes (show e.bytes.length < 2 ^ 31 by omega)
  | tableMap e => exact sized_eventBytes e.size_lt
  | rows e r => exact sized_eventBytes r.size_lt
  | rotate e =>
    refine sized_eventBytes ?_
    have hname := e.length_fileName
    have hhdrlen := e.header.hdrlen_lt
    rw [length_eventBytes, List.length_append, length_leBytes]
    omega
  | other e => exact sized_eventBytes e.size_lt

end EncodedEvent

/-- Every event follows those in front of it. -/
def ValidLog : History → List EncodedEvent → Prop
  | _, [] => True
  | hist, e :: log => e.Follows hist ∧ ValidLog (hist.after e.logEvent) log

/-- The log of the events. -/
def logOf (log : List EncodedEvent) : List LogEvent := log.map EncodedEvent.logEvent

def streamOf (log : List EncodedEvent) : List (List UInt8) := log.map EncodedEvent.bytes

def rowsOf (log : List EncodedEvent) : List BinlogRow := log.flatMap EncodedEvent.binlogRows

theorem flatMap_logOf (log : List EncodedEvent) :
    (logOf log).flatMap LogEvent.binlogRows = rowsOf log := by
  rw [logOf, List.flatMap_map]
  rfl

theorem sized_streamOf (log : List EncodedEvent) : ∀ e ∈ streamOf log, Sized e := by
  intro e he
  obtain ⟨event, -, rfl⟩ := List.mem_map.mp he
  exact event.sized

variable {hist : History} {log : List EncodedEvent} {slot : Option TableMap}

theorem ValidLog.readsAll (h : ValidLog hist log) : ReadsAll hist (streamOf log) (logOf log) := by
  induction log generalizing hist with
  | nil => trivial
  | cons e log ih => exact ⟨EncodedEvent.reads h.1, ih h.2⟩

theorem ValidLog.lastMapGoverns (h : ValidLog hist log) (hslot : slot = hist.maps.head?) :
    LastMapGoverns slot (logOf log) := by
  subst hslot
  induction log generalizing hist with
  | nil => trivial
  | cons e log ih =>
    obtain ⟨hfollows, hrest⟩ := h
    cases e with
    | formatDescription e =>
      show LastMapGoverns (hist.after (.formatDescription e.hdrlen)).maps.head? (logOf log)
      exact ih hrest
    | tableMap e => exact ih hrest
    | rows e r =>
      obtain ⟨-, hlast, hid, -⟩ := hfollows
      refine ⟨?_, ih hrest⟩
      rw [hlast, hid]
      rfl
    | rotate e => exact ih hrest
    | other e => exact ih hrest

/-- An event has as many rows as it was written with. -/
theorem RowsImageEvent.length_binlogRows {cols : List ColumnDef} (r : RowsImageEvent cols) :
    r.decoded.binlogRows.length = r.body.nrows := by
  cases hbody : r.body with
  | single used images =>
    simp [RowsImageEvent.decoded, RowsEvent.binlogRows, hbody, RowsBody.rows, RowsBody.rowsold,
      RowsBody.nrows]
  | pairs used usedAfter images =>
    simp [RowsImageEvent.decoded, RowsEvent.binlogRows, hbody, RowsBody.rows, RowsBody.rowsold,
      RowsBody.nrows]

theorem ValidLog.endHonest (h : ValidLog hist log) (hslot : slot = hist.maps.head?) :
    EndHonest slot (logOf log) := by
  subst hslot
  induction log generalizing hist with
  | nil => trivial
  | cons e log ih =>
    obtain ⟨hfollows, hrest⟩ := h
    cases e with
    | formatDescription e =>
      show EndHonest (hist.after (.formatDescription e.hdrlen)).maps.head? (logOf log)
      exact ih hrest
    | tableMap e => exact ih hrest
    | rows e r =>
      obtain ⟨-, hlast, hid, -, -, hpos, -⟩ := hfollows
      have hown : (hist.maps.head?).map TableMap.tableid = some r.tableid := by
        rw [hlast, hid]
        rfl
      have hrows : r.decoded.binlogRows ≠ [] := by
        apply List.ne_nil_of_length_pos
        rw [r.length_binlogRows]
        exact hpos
      show EndHonest _ (.rows r.tableid r.decoded :: logOf log)
      rw [EndHonest, if_pos hown]
      exact ⟨hrows, ih hrest⟩
    | rotate e => exact ih hrest
    | other e => exact ih hrest

/-- A format description, a table map and an insert of one row. -/
def sampleEvents : List EncodedEvent :=
  [.formatDescription sampleFDE, .tableMap sampleTableMap,
    .rows sampleTableMap (nullRows 1 oneRow_lt)]

theorem sampleEvents_valid : ValidLog .start sampleEvents := by
  have hrows := nrows_nullRows 1 oneRow_lt
  refine ⟨trivial, ⟨rfl, rfl⟩, ⟨rfl, rfl, rfl, by decide, nullRows_allUsed 1, ?_, ?_⟩, trivial⟩
  · rw [hrows]
    exact Nat.one_pos
  · rw [hrows]
    exact Nat.one_le_two_pow

/-! ## Fetching a whole log -/

section

variable {r : Reader} {row : BinlogRow} {rows : List BinlogRow}

/-- A reader that will hand out these rows and no others. -/
structure Reader.Holds (r : Reader) (rows : List BinlogRow) (err : ℤ) : Prop where
  honest : r.OnHonestLog
  governed : LastMapGoverns r.coords.slot r.rest
  pending : r.pending = rows
  err_eq : r.err = err

theorem Reader.err_fetchOne {r r' : Reader} (h : r._fetchOne = .ok (some row, r')) :
    r'.err = r.err := by
  obtain ⟨row', rows', -, -, rfl⟩ | ⟨log, c, -, -, hnone, -⟩ | ⟨rev, log, c, -, -, -, rfl⟩ :=
    Reader._fetchOne_ok.mp h
  · rfl
  · cases hnone
  · rfl

/-- One call gives the first of the rows, and NULL with the error set if there is none. -/
theorem Reader.Holds.fetchOne {err : ℤ} (h : r.Holds rows err) : ∃ answer r',
    r.fetchOne = .ok (answer, r') ∧ answer = rows.head? ∧
      r'.Holds rows.tail (if rows = [] then 1 else err) := by
  obtain ⟨answer, r', hfetch, hgov⟩ := Reader.fetchOne_ok h.governed
  have hpending := Reader.pending_fetchOne hfetch
  rw [h.pending] at hpending
  refine ⟨answer, r', (h.honest.fetchOne_eq).trans hfetch, ?_, h.honest.step hfetch, hgov, ?_, ?_⟩
  · cases answer with
    | some row => rw [hpending]; rfl
    | none =>
      have hnone := (h.honest.fetchOne_none hfetch).2.1
      rw [h.pending] at hnone
      rw [hnone]
      rfl
  · cases answer with
    | some row => rw [hpending]; rfl
    | none =>
      have hnone := (h.honest.fetchOne_none hfetch).2.1
      rw [h.pending] at hnone
      rw [hnone] at hpending ⊢
      exact hpending.symm
  · cases answer with
    | some row =>
      have hne : rows ≠ [] := by
        rw [hpending]
        exact List.cons_ne_nil _ _
      rw [if_neg hne, Reader.err_fetchOne hfetch, h.err_eq]
    | none =>
      obtain ⟨-, hnone, herr, -⟩ := h.honest.fetchOne_none hfetch
      rw [h.pending] at hnone
      rw [if_pos hnone, herr]

end

variable {σ : Type*} {drv : Driver σ} {feed : Feed drv} {bc : BinlogClient σ}

/-- However many calls there are, the first ones give the rows in order and all others NULL, and the
error is set from the first NULL on. -/
def FetchesAll (drv : Driver σ) (bc : BinlogClient σ) (rows : List BinlogRow) : Prop :=
  ∀ n, ∃ answers bc', calls (fetchOne drv) n bc = .ok (answers, bc') ∧
    (∀ i (hi : i < answers.length), answers[i] = rows[i]?) ∧ (bc'.err = 0 ↔ n ≤ rows.length)

theorem Represents.fetchesAll {r : Reader} {rows : List BinlogRow} (h : Represents feed bc r)
    (hr : r.Holds rows 0) : FetchesAll drv bc rows := by
  let At (rows : List BinlogRow) (err : ℤ) (bc : BinlogClient σ) : Prop :=
    ∃ r : Reader, Represents feed bc r ∧ r.Holds rows err
  have hstep : ∀ rows err bc, At rows err bc → ∃ bc', fetchOne drv bc = .ok (rows.head?, bc') ∧
      At rows.tail (if rows = [] then 1 else err) bc' := by
    rintro rows err bc ⟨r, hrep, hholds⟩
    obtain ⟨answer, r', hreader, rfl, hholds'⟩ := hholds.fetchOne
    obtain ⟨bc', hclient, hrep'⟩ := (fetchOne_simulates bc r hrep).ok_right hreader
    exact ⟨bc', hclient, r', hrep', hholds'⟩
  intro n
  obtain ⟨answers, bc', hcalls, hrows, hleft, hdone⟩ :=
    calls_of_items (f := fetchOne drv) (I := fun rows => At rows 0) (J := At [] 1)
      (fun row rows bc hat => hstep (row :: rows) 0 bc hat) (fun bc hat => hstep [] 0 bc hat)
      (fun bc hat => hstep [] 1 bc hat) ⟨r, h, hr⟩ n
  refine ⟨answers, bc', hcalls, hrows, ?_⟩
  by_cases hn : n ≤ rows.length
  · obtain ⟨r', hrep', hholds'⟩ := hleft hn
    exact iff_of_true (hrep'.err.trans hholds'.err_eq) hn
  · obtain ⟨r', hrep', hholds'⟩ := hdone (not_le.mp hn)
    refine iff_of_false (fun hzero => ?_) hn
    rw [hrep'.err, hholds'.err_eq] at hzero
    exact one_ne_zero hzero

/-- A client whose source delivers the bytes of a valid log fetches its rows. -/
theorem Fresh.fetchesAll (h : Fresh bc 0) (hvalid : ValidLog .start log)
    (hfeed : feed.Delivers (streamOf log) bc.dataSource.driver bc.dataSource.errstr) :
    FetchesAll drv bc (rowsOf log) := by
  refine (represents_fresh h hfeed hvalid.readsAll).fetchesAll ⟨⟨rfl, ?_⟩, ?_, ?_, rfl⟩
  · exact hvalid.endHonest rfl
  · exact hvalid.lastMapGoverns rfl
  · exact flatMap_logOf log

end LibBinlog
