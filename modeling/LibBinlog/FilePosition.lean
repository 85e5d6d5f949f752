import LibBinlog.EndSignal
import Mathlib.Data.List.Flatten

/-!
# The start position of a file

A file source is asked to start at a position and gives the file from its first event on. Its client
therefore hands out every row of the file, and these are the rows behind the position only if there
are none before it.
-/

namespace LibBinlog

open Machine Memory Calls

variable {σ : Type*} {drv : Driver σ} {feed : Feed drv} {bc bc₄ : BinlogClient σ}
  {stream : List (List UInt8)} {log : List LogEvent} {index : ℕ} {rows : List BinlogRow}

/-! ## The rows of a file and where their table maps start -/

/-- The rows of one event, with the offset of the table map that governs it. -/
structure GovernedRows where
  start : ℕ
  rows : List BinlogRow

/-- The rows events of a log whose events stand one behind the other from `pos` on. `maps` are the
table maps so far, id and offset, latest first; a rows event of a log that reads has one. -/
def governedRows : List (ℕ × ℕ) → ℕ → List (List UInt8) → List LogEvent → List GovernedRows
  | maps, pos, e :: stream, .tableMap tm :: log =>
    governedRows ((tm.tableid, pos) :: maps) (pos + e.length) stream log
  | maps, pos, e :: stream, .rows tableid rev :: log =>
    ⟨(maps.lookup tableid).getD 0, rev.binlogRows⟩ ::
      governedRows maps (pos + e.length) stream log
  | maps, pos, e :: stream, _ :: log => governedRows maps (pos + e.length) stream log
  | _, _, _, _ => []

/-- The rows whose table map starts at `position` or behind it. -/
def rowsFrom (position : ℕ) (governed : List GovernedRows) : List BinlogRow :=
  (governed.filter fun g => position ≤ g.start).flatMap GovernedRows.rows

theorem governedRows_rows {hist : History} (maps : List (ℕ × ℕ)) (pos : ℕ)
    (h : ReadsAll hist stream log) :
    (governedRows maps pos stream log).flatMap GovernedRows.rows =
      log.flatMap LogEvent.binlogRows := by
  induction log generalizing hist maps pos stream with
  | nil =>
    cases stream with
    | nil => rfl
    | cons e stream => rfl
  | cons le log ih =>
    cases stream with
    | nil => exact h.elim
    | cons e stream =>
      cases le with
      | tableMap tm => exact ih _ _ h.2
      | rows tableid rev =>
        rw [governedRows, List.flatMap_cons, List.flatMap_cons, ih _ _ h.2]
        rfl
      | formatDescription hdrlen => exact ih _ _ h.2
      | rotate rot => exact ih _ _ h.2
      | unrelated => exact ih _ _ h.2

theorem rowsFrom_sublist (position : ℕ) (governed : List GovernedRows) :
    (rowsFrom position governed).Sublist (governed.flatMap GovernedRows.rows) :=
  List.filter_sublist.flatMap _

theorem rowsFrom_eq_iff (position : ℕ) (governed : List GovernedRows) :
    rowsFrom position governed = governed.flatMap GovernedRows.rows ↔
      ∀ g ∈ governed, g.start < position → g.rows = [] := by
  induction governed with
  | nil => simp [rowsFrom]
  | cons g governed ih =>
    have hsub := (rowsFrom_sublist position governed).length_le
    rw [List.forall_mem_cons, ← ih]
    by_cases hfrom : position ≤ g.start
    · have hcons : rowsFrom position (g :: governed) = g.rows ++ rowsFrom position governed := by
        rw [rowsFrom, List.filter_cons_of_pos (by simpa using hfrom), List.flatMap_cons]
        rfl
      rw [hcons, List.flatMap_cons, List.append_cancel_left_eq]
      simp [hfrom]
    · have hcons : rowsFrom position (g :: governed) = rowsFrom position governed := by
        rw [rowsFrom, List.filter_cons_of_neg (by simpa using hfrom)]
        rfl
      rw [hcons, List.flatMap_cons]
      constructor
      · intro h
        have hlen := congrArg List.length h
        rw [List.length_append] at hlen
        have hnil : g.rows = [] := List.eq_nil_of_length_eq_zero (by omega)
        rw [hnil, List.nil_append] at h
        exact ⟨fun _ => hnil, h⟩
      · rintro ⟨hnil, h⟩
        rw [hnil (by omega), List.nil_append, h]

/-! ## What a client gives -/

/-- The client returns from every call, what it has handed out is always a beginning of `rows`, and
at some time it is all of them. -/
structure GivesExactly (drv : Driver σ) (bc : BinlogClient σ) (rows : List BinlogRow) : Prop where
  inOrder : ∀ n, ∃ answers bc', calls (fetchOne drv) n bc = .ok (answers, bc') ∧
    answers.reduceOption <+: rows
  complete : ∃ n answers bc', calls (fetchOne drv) n bc = .ok (answers, bc') ∧
    answers.reduceOption = rows

theorem Represents.givesExactly_iff {c : Coords}
    (h : Represents feed bc ⟨c, log, [], 0, 0⟩) : GivesExactly drv bc rows ↔
      LastMapGoverns c.slot log ∧ rows = log.flatMap LogEvent.binlogRows := by
  constructor
  · intro hgives
    have hgov : LastMapGoverns c.slot log := by
      apply Reader.lastMapGoverns_of_calls log c [] 0
      intro n
      obtain ⟨answers, bc', hclient, -⟩ := hgives.inOrder n
      obtain ⟨r', hreader, -⟩ := (fetchOne_simulates.calls n bc _ h).ok_left hclient
      exact ⟨answers, r', hreader⟩
    refine ⟨hgov, ?_⟩
    -- all rows come out at some time, and no more than `rows` ever do
    obtain ⟨n, answers, r', hreader, hall⟩ := Reader.runsDry log c [] 0 hgov
    obtain ⟨bc', hclient, -⟩ := (fetchOne_simulates.calls n bc _ h).ok_right hreader
    obtain ⟨answers', bc'', hclient', hle⟩ := hgives.inOrder n
    obtain ⟨rfl, -⟩ := Prod.mk.inj (Except.ok.inj (hclient.symm.trans hclient'))
    obtain ⟨m, more, last, hmore, heq⟩ := hgives.complete
    have hge := h.reduceOption_prefix rfl hmore
    rw [heq] at hge
    rw [hall] at hle
    exact hge.eq_of_length_le hle.length_le
  · rintro ⟨hgov, rfl⟩
    refine ⟨fun n => ?_, ?_⟩
    · obtain ⟨answers, bc', hclient⟩ := h.calls_ok rfl hgov n
      exact ⟨answers, bc', hclient, h.reduceOption_prefix rfl hclient⟩
    · obtain ⟨n, answers, r', hreader, hall⟩ := Reader.runsDry log c [] 0 hgov
      obtain ⟨bc', hclient, -⟩ := (fetchOne_simulates.calls n bc _ h).ok_right hreader
      exact ⟨n, answers, bc', hclient, hall⟩

/-- A client opened at `position` gives the rows from there on, and one opened at the start of the
file gives the same rows from there on. -/
structure HonoursPosition (drv : Driver σ) (bc bc₄ : BinlogClient σ) (position : ℕ)
    (governed : List GovernedRows) : Prop where
  rows : GivesExactly drv bc (rowsFrom position governed)
  same : ∃ before, GivesExactly drv bc₄ (before ++ rowsFrom position governed)

theorem Fresh.honoursPosition_iff (position : ℕ) (h : Fresh bc 0) (h₄ : Fresh bc₄ 0)
    (hfeed : feed.Delivers stream bc.dataSource.driver bc.dataSource.errstr)
    (hfeed₄ : feed.Delivers stream bc₄.dataSource.driver bc₄.dataSource.errstr)
    (hlog : ReadsAll .start stream log) :
    HonoursPosition drv bc bc₄ position (governedRows [] 4 stream log) ↔
      LastMapGoverns none log ∧
        ∀ g ∈ governedRows [] 4 stream log, g.start < position → g.rows = [] := by
  have hiff (rows : List BinlogRow) : GivesExactly drv bc rows ↔ _ :=
    (represents_fresh h hfeed hlog).givesExactly_iff
  have hiff₄ (rows : List BinlogRow) : GivesExactly drv bc₄ rows ↔ _ :=
    (represents_fresh h₄ hfeed₄ hlog).givesExactly_iff
  have hall := governedRows_rows [] 4 hlog
  constructor
  · rintro ⟨hrows, -⟩
    obtain ⟨hgov, heq⟩ := (hiff _).mp hrows
    exact ⟨hgov, (rowsFrom_eq_iff position _).mp (heq.trans hall.symm)⟩
  · rintro ⟨hgov, hbefore⟩
    have heq := ((rowsFrom_eq_iff position _).mpr hbefore).trans hall
    exact ⟨(hiff _).mpr ⟨hgov, heq⟩, [], (hiff₄ _).mpr ⟨hgov, heq⟩⟩

/-- A client of a binlog file gives the rows whose table map starts at its position or behind it,
exactly if no rows event has rows whose table map starts before it; and no rows event may follow the
table map of another table. -/
theorem fileDriver_honoursPosition_iff {magic logfile : List UInt8} {malloc : ℕ → Mem}
    {position : ℕ} {serverid : ℤ} {bc bc₄ : BinlogClient FileSource} (hmagic : magic.length = 4)
    (hsized : ∀ e ∈ stream, Sized e) (hlog : ReadsAll .start stream log)
    (hconn : connectDataSource fileDriver
      (some (dsInitWithFile (some (fileBytes magic stream)) logfile malloc)) position 0 serverid =
        .ok (.ok bc))
    (hconn₄ : connectDataSource fileDriver
      (some (dsInitWithFile (some (fileBytes magic stream)) logfile malloc)) 4 0 serverid =
        .ok (.ok bc₄)) :
    HonoursPosition fileDriver bc bc₄ position (governedRows [] 4 stream log) ↔
      LastMapGoverns none log ∧
        ∀ g ∈ governedRows [] 4 stream log, g.start < position → g.rows = [] := by
  obtain ⟨bc', hbc', hfeed, -⟩ :=
    connectDataSource_file magic logfile hmagic hsized malloc position 0 serverid
  obtain ⟨bc₄', hbc₄', hfeed₄, -⟩ :=
    connectDataSource_file magic logfile hmagic hsized malloc 4 0 serverid
  obtain rfl := Except.ok.inj (Except.ok.inj (hconn.symm.trans hbc'))
  obtain rfl := Except.ok.inj (Except.ok.inj (hconn₄.symm.trans hbc₄'))
  exact Fresh.honoursPosition_iff position (connectDataSource_ok hconn).1
    (connectDataSource_ok hconn₄).1 hfeed hfeed₄ hlog

/-! ## A file with two table maps -/

/-- One row of the sample table, in an event that ends at 152. -/
def placedRow : RowsImageEvent sampleTableMap.columns where
  toRowsFields := { nullRowsFields 1 with
    header := sampleHeader EventType.writeRows 152 (by decide) }
  size_lt := by decide

/-- Format description at 4, table map at 80, a row at 122 and the next table map at 152. -/
def placedStream : List (List UInt8) :=
  [sampleFDE.bytes, (placedTableMap 122 (by decide)).bytes, placedRow.bytes,
    (placedTableMap 194 (by decide)).bytes]

def placedLog : List LogEvent :=
  [.formatDescription 19, .tableMap (placedTableMap 122 (by decide)).content,
    .rows 7 placedRow.decoded, .tableMap (placedTableMap 194 (by decide)).content]

theorem placedLog_reads : ReadsAll .start placedStream placedLog :=
  ⟨sampleFDE.reads, (placedTableMap 122 (by decide)).reads rfl rfl,
    RowsImageEvent.reads (e := placedTableMap 122 (by decide)) placedRow rfl rfl (by decide)
      (nullRows_allUsed 1) (by decide),
    (placedTableMap 194 (by decide)).reads rfl rfl, trivial⟩

theorem sized_placedStream : ∀ e ∈ placedStream, Sized e := by
  intro e he
  simp only [placedStream, List.mem_cons, List.not_mem_nil, or_false] at he
  rcases he with rfl | rfl | rfl | rfl
  · exact sized_sampleStream _ List.mem_cons_self
  · exact sized_eventBytes (placedTableMap 122 (by decide)).size_lt
  · exact sized_eventBytes placedRow.size_lt
  · exact sized_eventBytes (placedTableMap 194 (by decide)).size_lt

theorem length_placedRow : placedRow.decoded.binlogRows.length = 1 :=
  nrows_decoded_nullRows 1 (by decide)

theorem governedRows_placed : governedRows [] 4 placedStream placedLog =
    [⟨80, placedRow.decoded.binlogRows⟩] := rfl

/-- At 80, the first table map, the client gives the row. -/
theorem fileDriver_honoursPosition_sample : ∃ bc bc₄,
    connectDataSource fileDriver (some (sampleFile placedStream)) 80 0 1 = .ok (.ok bc) ∧
      connectDataSource fileDriver (some (sampleFile placedStream)) 4 0 1 = .ok (.ok bc₄) ∧
      HonoursPosition fileDriver bc bc₄ 80 (governedRows [] 4 placedStream placedLog) := by
  obtain ⟨bc, hconn, -⟩ := connectDataSource_file sampleMagic (ascii "binlog.000001") rfl
    sized_placedStream (fun _ _ => 0) 80 0 1
  obtain ⟨bc₄, hconn₄, -⟩ := connectDataSource_file sampleMagic (ascii "binlog.000001") rfl
    sized_placedStream (fun _ _ => 0) 4 0 1
  refine ⟨bc, bc₄, hconn, hconn₄,
    (fileDriver_honoursPosition_iff rfl sized_placedStream placedLog_reads hconn hconn₄).mpr
      ⟨⟨rfl, trivial⟩, ?_⟩⟩
  rw [governedRows_placed]
  rintro g hg hbefore
  obtain rfl := List.mem_singleton.mp hg
  exact absurd hbefore (lt_irrefl _)

/-- At 152, the second table map, it gives the row before it. -/
theorem placedStream_not_honoursPosition :
    (ReadsAll .start placedStream placedLog ∧ ∀ e ∈ placedStream, Sized e) ∧
    4 + (placedStream.take 3).flatten.length = 152 ∧ ∃ bc bc₄,
      connectDataSource fileDriver (some (sampleFile placedStream)) 152 0 1 = .ok (.ok bc) ∧
      connectDataSource fileDriver (some (sampleFile placedStream)) 4 0 1 = .ok (.ok bc₄) ∧
      rowsFrom 152 (governedRows [] 4 placedStream placedLog) = [] ∧
      ¬HonoursPosition fileDriver bc bc₄ 152 (governedRows [] 4 placedStream placedLog) := by
  obtain ⟨bc, hconn, hfeed, -⟩ := connectDataSource_file sampleMagic (ascii "binlog.000001") rfl
    sized_placedStream (fun _ _ => 0) 152 0 1
  obtain ⟨bc₄, hconn₄, hfeed₄, -⟩ := connectDataSource_file sampleMagic (ascii "binlog.000001") rfl
    sized_placedStream (fun _ _ => 0) 4 0 1
  refine ⟨⟨placedLog_reads, sized_placedStream⟩, by decide +kernel, bc, bc₄, hconn, hconn₄, ?_,
    fun hhonours => ?_⟩
  · rw [governedRows_placed]
    rfl
  · obtain ⟨-, hnone⟩ := (Fresh.honoursPosition_iff 152 (connectDataSource_ok hconn).1
      (connectDataSource_ok hconn₄).1 hfeed hfeed₄ placedLog_reads).mp hhonours
    rw [governedRows_placed] at hnone
    have hnil : placedRow.decoded.binlogRows = [] := hnone _ List.mem_cons_self (by norm_num)
    have hlen := length_placedRow
    rw [hnil] at hlen
    cases hlen

end LibBinlog
