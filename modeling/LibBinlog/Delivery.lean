import LibBinlog.TableSlot

/-!
# Rows in stream order

What `fetchOne` has handed out after any number of calls is a prefix of the rows of the stream, the
rest of them is in the client's buffer and in the events its source has still to give, and each row
carries the type, time and column count of its own event.
-/

namespace LibBinlog

open Machine Memory Calls

variable {σ : Type*} {drv : Driver σ} {feed : Feed drv} {bc : BinlogClient σ} {ds : DataSource σ}
  {stream : List (List UInt8)} {log : List LogEvent} {position : ℕ} {serverid : ℤ}
  {hist : History} {e : List UInt8} {rev : RowsEvent}

/-! ## The events of a log are well shaped -/

theorem Reads.wellShaped {tableid : ℕ} (h : Reads hist e (.rows tableid rev)) :
    rev.WellShaped := by
  obtain ⟨bl, ev, -, hparse⟩ := h.parsed
  exact parseRowsEvent_wellShaped hparse

theorem ReadsAll.wellShaped (h : ReadsAll hist stream log)
    (hrev : rev ∈ log.filterMap LogEvent.rowsEvent) : rev.WellShaped := by
  induction log generalizing hist stream with
  | nil => contradiction
  | cons le log ih =>
    cases stream with
    | nil => exact h.elim
    | cons e stream =>
      obtain ⟨hreads, hrest⟩ := h
      cases hrows : le.rowsEvent with
      | none =>
        rw [List.filterMap_cons_none hrows] at hrev
        exact ih hrest hrev
      | some rev' =>
        rw [List.filterMap_cons_some hrows, List.mem_cons] at hrev
        rcases hrev with rfl | hrev
        · obtain ⟨tableid, rfl⟩ := eq_rows_of_rowsEvent hrows
          exact hreads.wellShaped
        · exact ih hrest hrev

/-- Row `j` of an event, with the image before it for an update. -/
structure RowOf (rev : RowsEvent) (j : ℕ) (row : BinlogRow) : Prop where
  nfields : row.nfields = toInt32 rev.nfields
  type : row.type = rev.type
  created : row.created = toInt32 rev.ts
  row_eq : rev.rows[j]? = some row.row
  rowOld_eq : row.rowOld = rev.rowsold.bind (·[j]?)
  rowOld_isSome : row.rowOld.isSome ↔ rev.type = EventType.updateRows

theorem RowsEvent.rowOf (h : rev.WellShaped) {j : ℕ} {row : BinlogRow}
    (hrow : rev.binlogRows[j]? = some row) : RowOf rev j row := by
  have hupdate := h.rowsold
  cases hold : rev.rowsold with
  | none =>
    rw [binlogRows, hold] at hrow
    rw [hold] at hupdate
    obtain ⟨cells, hcells, hmk⟩ := Option.map_eq_some_iff.mp (List.getElem?_map.symm.trans hrow)
    subst hmk
    refine ⟨?_, rfl, ?_, hcells, ?_, hupdate⟩
    · dsimp only
    · dsimp only
    · rw [hold]
      rfl
  | some rowsold =>
    rw [binlogRows, hold] at hrow
    rw [hold] at hupdate
    obtain ⟨cells, old, hcells, hcellsold, hmk⟩ := List.getElem?_zipWith_eq_some.mp hrow
    subst hmk
    refine ⟨?_, rfl, ?_, hcells, ?_, hupdate⟩
    · dsimp only
    · dsimp only
    · rw [hold]
      exact hcellsold.symm

/-! ## The order of the rows -/

/-- `rows` are still to be handed out: the rows left in the client's buffer, and those of the events
at the end of the log that its source has not given yet. -/
def YetToCome (feed : Feed drv) (log : List LogEvent) (bc : BinlogClient σ)
    (rows : List BinlogRow) : Prop :=
  ∃ hist stream rest, feed.Delivers stream bc.dataSource.driver bc.dataSource.errstr ∧
    ReadsAll hist stream rest ∧ rest <:+ log ∧
      rows = bc.buffered ++ rest.flatMap LogEvent.binlogRows

theorem Represents.pending {r : Reader} (h : Represents feed bc r) (hrest : r.rest <:+ log) :
    YetToCome feed log bc r.pending := by
  obtain ⟨stream, hist, hfeed, hlog, -⟩ := h.source
  refine ⟨hist, stream, r.rest, hfeed, hlog, hrest, ?_⟩
  rw [h.buffer.buffered_eq, Reader.pending]

/-- Rows handed out and rows pending make up what was pending before. -/
theorem Represents.reduceOption_append {r : Reader} (h : Represents feed bc r)
    (hidx : r.startidx = 0) {n : ℕ} {answers : List (Option BinlogRow)} {bc' : BinlogClient σ}
    (hcalls : calls (fetchOne drv) n bc = .ok (answers, bc')) :
    ∃ rows, YetToCome feed r.rest bc' rows ∧ r.pending = answers.reduceOption ++ rows := by
  obtain ⟨r', hreader, hrep'⟩ := (fetchOne_simulates.calls n bc r h).ok_left hcalls
  obtain ⟨hpending, hrest, -⟩ := Reader.pending_calls hidx hreader
  exact ⟨r'.pending, hrep'.pending hrest, hpending⟩

theorem Represents.reduceOption_prefix {r : Reader} (h : Represents feed bc r)
    (hidx : r.startidx = 0) {n : ℕ} {answers : List (Option BinlogRow)} {bc' : BinlogClient σ}
    (hcalls : calls (fetchOne drv) n bc = .ok (answers, bc')) :
    answers.reduceOption <+: r.pending := by
  obtain ⟨rows, -, hsplit⟩ := h.reduceOption_append hidx hcalls
  rw [hsplit]
  exact List.prefix_append _ rows

theorem Represents.calls_ok {r : Reader} (h : Represents feed bc r) (hidx : r.startidx = 0)
    (hgov : LastMapGoverns r.coords.slot r.rest) (n : ℕ) :
    ∃ answers bc', calls (fetchOne drv) n bc = .ok (answers, bc') := by
  obtain ⟨answers, r', hreader⟩ := Reader.calls_ok hidx hgov n
  obtain ⟨bc', hclient, -⟩ := (fetchOne_simulates.calls n bc r h).ok_right hreader
  exact ⟨answers, bc', hclient⟩

/-- Some number of calls leaves nothing pending. -/
theorem Represents.calls_all {c : Coords} (h : Represents feed bc ⟨c, log, [], 0, 0⟩)
    (hgov : LastMapGoverns c.slot log) : ∃ n answers bc',
      calls (fetchOne drv) n bc = .ok (answers, bc') ∧
        answers.reduceOption = log.flatMap LogEvent.binlogRows := by
  obtain ⟨n, answers, r', hreader, hrows⟩ := Reader.runsDry log c [] 0 hgov
  obtain ⟨bc', hclient, -⟩ := (fetchOne_simulates.calls n bc _ h).ok_right hreader
  exact ⟨n, answers, bc', hclient, hrows⟩

/-- Over any number of calls a client that starts at index 0 hands out the rows of its stream in
order, from the first one on, and those not handed out yet are pending: what is left in its buffer
and then what its source has still to give. Unless a rows event follows the table map of another
table, it returns from every call, and some number of calls hands out all rows. Every row says what
its own event says. -/
theorem fetchOne_inOrder
    (hconn : connectDataSource drv (some ds) position 0 serverid = .ok (.ok bc))
    (hfeed : feed.Delivers stream bc.dataSource.driver bc.dataSource.errstr)
    (hlog : ReadsAll .start stream log) :
    (∀ n answers bc', calls (fetchOne drv) n bc = .ok (answers, bc') →
      answers.reduceOption <+: log.flatMap LogEvent.binlogRows ∧
        ∃ rows, YetToCome feed log bc' rows ∧
          log.flatMap LogEvent.binlogRows = answers.reduceOption ++ rows) ∧
    (LastMapGoverns none log →
      (∀ n, ∃ answers bc', calls (fetchOne drv) n bc = .ok (answers, bc')) ∧
        ∃ n answers bc', calls (fetchOne drv) n bc = .ok (answers, bc') ∧
          answers.reduceOption = log.flatMap LogEvent.binlogRows) ∧
    ∀ rev ∈ log.filterMap LogEvent.rowsEvent, rev.binlogRows.length = rev.nrows ∧
      ∀ j row, rev.binlogRows[j]? = some row → RowOf rev j row := by
  have hrep := represents_fresh (connectDataSource_ok hconn).1 hfeed hlog
  refine ⟨fun n answers bc' hcalls => ?_, fun hgov => ?_, fun rev hrev => ?_⟩
  · exact ⟨hrep.reduceOption_prefix rfl hcalls, hrep.reduceOption_append rfl hcalls⟩
  · exact ⟨fun n => hrep.calls_ok rfl hgov n, hrep.calls_all hgov⟩
  · have hshape := hlog.wellShaped hrev
    exact ⟨RowsEvent.length_binlogRows hshape, fun j row hrow => RowsEvent.rowOf hshape hrow⟩

theorem fetchOne_inOrder_sample : ∃ bc,
    connectDataSource fileDriver (some (sampleFile sampleStream)) 4 0 1 = .ok (.ok bc) ∧
      (∀ n answers bc', calls (fetchOne fileDriver) n bc = .ok (answers, bc') →
        answers.reduceOption <+: sampleLog.flatMap LogEvent.binlogRows) ∧
      (∀ n, ∃ answers bc', calls (fetchOne fileDriver) n bc = .ok (answers, bc')) ∧
      ∃ n answers bc', calls (fetchOne fileDriver) n bc = .ok (answers, bc') ∧
        answers.reduceOption = sampleLog.flatMap LogEvent.binlogRows := by
  obtain ⟨bc, hconn, hfeed, -⟩ := connectDataSource_file sampleMagic
    (ascii "binlog.000001") rfl sized_sampleStream (fun _ _ => 0) 4 0 1
  obtain ⟨hrowsInOrder, hreturns, -⟩ := fetchOne_inOrder hconn hfeed sampleLog_reads
  obtain ⟨hok, hall⟩ := hreturns ⟨rfl, trivial⟩
  exact ⟨bc, hconn, fun n answers bc' hcalls => (hrowsInOrder n answers bc' hcalls).1, hok, hall⟩

end LibBinlog
