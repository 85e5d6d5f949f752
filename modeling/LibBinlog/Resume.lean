import LibBinlog.EndSignal
import LibBinlog.Replay

/-!
# Resuming at the coordinates of a row

A client that is connected at the coordinates another client had after a row goes on with what the
other one was still to give. Its source, opened at the offset of a table map, has to give a format
description and then the log from that table map on.
-/

namespace LibBinlog

open Machine Memory Calls

variable {σ : Type*} {drv : Driver σ} {feed : Feed drv} {bc bc' : BinlogClient σ}
  {ds : DataSource σ}
  {plog after : List PlacedEvent} {pe : PlacedEvent} {tm : TableMap} {fde : List UInt8}
  {hist : History} {position index hdrlen k : ℕ} {serverid : ℤ}

/-- The header length that the events before have fixed. -/
def hdrlenAfter (before : List PlacedEvent) : ℕ :=
  ((before.map PlacedEvent.event).foldl History.after .start).hdrlen

/-- Opened where a table map stands, the source gives a format description and the log from there
on. `source` is the data source for a log file. -/
def Serves (feed : Feed drv) (source : List UInt8 → DataSource σ) (serverid : ℤ)
    (plog : List PlacedEvent) : Prop :=
  ∀ before pe tm after, plog = before ++ pe :: after → pe.event = .tableMap tm → ∃ ds fde,
    drv.connect { source pe.file with position := pe.start, index := 0, serverid := serverid } =
        .ok (true, ds) ∧
      ds.logfile = pe.file ∧ ds.position = pe.start ∧ ds.index = 0 ∧
      Reads .start fde (.formatDescription (hdrlenAfter before)) ∧
      feed.Delivers (fde :: (pe :: after).map PlacedEvent.bytes) ds.driver ds.errstr

/-! ## The first two events -/

theorem _fetchOne_congr (hcur : bc._cur = bc._lenRows) (hcur' : bc'._cur = bc'._lenRows)
    (h : getRowsEvent drv bc = getRowsEvent drv bc') : _fetchOne drv bc = _fetchOne drv bc' := by
  rw [_fetchOne, _fetchOne, if_pos hcur, if_pos hcur', h]

theorem skipRows_congr {start : ℕ} (h : _fetchOne drv bc = _fetchOne drv bc')
    (hpos : bc.dataSource.position = bc'.dataSource.position) :
    skipRows drv start (k + 1) bc = skipRows drv start (k + 1) bc' := by
  rw [skipRows, skipRows, h, hpos]

theorem fetchOne_congr (h : _fetchOne drv bc = _fetchOne drv bc')
    (hpos : bc.dataSource.position = bc'.dataSource.position)
    (hidx : bc._startidx = bc'._startidx) :
    fetchOne drv bc = fetchOne drv bc' := by
  rw [fetchOne, fetchOne, hidx]
  cases bc'._startidx with
  | zero => exact h
  | succ k => rw [skipRows_congr h hpos]

/-- The skip loop of the next call runs to its end and does not report an impossible index. -/
def KeepsSkipping (drv : Driver σ) (bc : BinlogClient σ) : Prop :=
  ∃ bc', skipRows drv bc._startidx bc._startidx bc = .ok (false, bc')

theorem keepsSkipping_congr (h : _fetchOne drv bc = _fetchOne drv bc')
    (hpos : bc.dataSource.position = bc'.dataSource.position) (hidx : bc._startidx = bc'._startidx)
    (hkeeps : KeepsSkipping drv bc') : KeepsSkipping drv bc := by
  rw [KeepsSkipping, hidx]
  rw [KeepsSkipping] at hkeeps
  cases hk : bc'._startidx with
  | zero => exact ⟨bc, rfl⟩
  | succ k =>
    rw [hk] at hkeeps
    rw [skipRows_congr h hpos]
    exact hkeeps

theorem Represents.keepsSkipping {r : Reader} (h : Represents feed bc r) (hr : r.KeepsSkipping) :
    KeepsSkipping drv bc := by
  obtain ⟨r', hskip⟩ := hr
  obtain ⟨bc', hskip', -⟩ := (skipRows_simulates r.startidx r.startidx h).ok_right hskip
  exact ⟨bc', by rw [h.startidx, hskip']⟩

/-- The client that a data source makes once it is connected. -/
theorem connectDataSource_of_connect (position index : ℕ) {ds' : DataSource σ}
    (h : drv.connect { ds with position := position, index := 0, serverid := serverid } =
      .ok (true, ds')) :
    connectDataSource drv (some ds) position index serverid = .ok (.ok
        ⟨none, 0, 0, index, .zero, ds', 0, []⟩) ∧
      Fresh (σ := σ) ⟨none, 0, 0, index, .zero, ds', 0, []⟩ index := by
  refine ⟨?_, rfl, rfl, rfl, rfl, rfl, rfl⟩
  simp only [connectDataSource, h]

/-- A fresh client whose source starts at a table map does what it does once it has read that. -/
theorem Fresh.behind (h : Fresh bc k) (hevent : pe.event = .tableMap tm)
    (hafter : Coords.after ⟨none, pe.file, pe.start, 0⟩ pe.event =
      ⟨some tm, pe.file, pe.start, 0⟩)
    (hlogfile : bc.dataSource.logfile = pe.file) (hposition : bc.dataSource.position = pe.start)
    (hindex : bc.dataSource.index = 0) (hfde : Reads .start fde (.formatDescription hist.hdrlen))
    (hreads : ReadsAll hist ((pe :: after).map PlacedEvent.bytes)
      ((pe :: after).map PlacedEvent.event))
    (hfeed : feed.Delivers (fde :: (pe :: after).map PlacedEvent.bytes) bc.dataSource.driver
      bc.dataSource.errstr) :
    ∃ bc', Represents feed bc' (.behind pe tm k after) ∧
      _fetchOne drv bc = _fetchOne drv bc' ∧
      bc.dataSource.position = bc'.dataSource.position ∧ bc._startidx = bc'._startidx := by
  obtain ⟨hmap, hrest⟩ := hreads
  rw [hevent] at hmap hafter hrest
  have hstart : Parses bc.binlog .start none := by
    rw [h.binlog]
    exact ⟨rfl, rfl, nofun⟩
  -- the format description fixes the header length
  obtain ⟨ev, ds, hget, hev, hfeed', hsame⟩ := feed.next hfeed
  obtain ⟨bl, ds', hon, hparses, hcoords, hdriver, herrstr⟩ := onEvent_other
    { bc with dataSource := ds } (c := ⟨none, pe.file, pe.start, 0⟩) hfde rfl hev hstart
    (AtCoords.congr ⟨hlogfile, hposition, hindex⟩ hsame)
  rw [← hdriver, ← herrstr, List.map_cons] at hfeed'
  -- the table map is the last of its history, whatever came before
  have hmap' : Reads ⟨hist.hdrlen, []⟩ pe.bytes (.tableMap tm) := hmap
  obtain ⟨ev', ds'', hget', hev', hfeed'', hsame'⟩ := feed.next hfeed'
  obtain ⟨bl', ds₃, hon', hparses', hcoords', hdriver', herrstr'⟩ := onEvent_other
    { bc with binlog := bl, dataSource := ds'' } hmap' rfl hev' hparses
    (hcoords.congr hsame')
  rw [← hdriver', ← herrstr'] at hfeed''
  have hbehind : AtCoords ds₃ ⟨some tm, pe.file, pe.start, 0⟩ := by
    rw [← hafter]
    exact hcoords'
  have hcur : bc._cur = bc._lenRows := h._cur.trans h._lenRows.symm
  refine ⟨{ bc with binlog := bl', dataSource := ds₃ }, ⟨⟨after.map PlacedEvent.bytes,
    hist.after (.tableMap tm), hfeed'', hrest, hparses'.hdrlen, rfl, hparses'.table⟩, hbehind, ?_,
    h._startidx, h.err⟩, _fetchOne_congr hcur hcur ?_, hposition.trans hbehind.position.symm, rfl⟩
  · exact ⟨hcur.le, by simp [h._lenRows], by simp [h._rows, Reader.behind]⟩
  · rw [getRowsEvent_next hget hon]
    exact getRowsEvent_next hget' hon'

/-! ## The law -/

/-- If no table map has too many rows behind it for the index, then after a row a new client at the
coordinates that the data source shows gives what the first one gives from its next call on,
whatever that is, and it never finds its index impossible. -/
theorem fetchOne_resumes {source : List UInt8 → DataSource σ} {n : ℕ}
    {answers : List (Option BinlogRow)} {row : BinlogRow}
    (hconn : connectDataSource drv (some ds) position index serverid = .ok (.ok bc))
    (hfeed : feed.Delivers (plog.map PlacedEvent.bytes) bc.dataSource.driver bc.dataSource.errstr)
    (hlog : ReadsAll .start (plog.map PlacedEvent.bytes) (plog.map PlacedEvent.event))
    (hlaid : LaidOut bc.dataSource.logfile plog)
    (hrotate : NoRotateInside (plog.map PlacedEvent.event))
    (hfits : IndexFits (plog.map PlacedEvent.event))
    (hserves : Serves feed source serverid plog)
    (hcalls : calls (fetchOne drv) n bc = .ok (answers ++ [some row], bc')) :
    ∃ bc₂, connectDataSource drv (some (source bc'.dataSource.logfile)) bc'.dataSource.position
        bc'.dataSource.index serverid = .ok (.ok bc₂) ∧
      (∀ m, (calls (fetchOne drv) m bc₂).map Prod.fst =
        (calls (fetchOne drv) m bc').map Prod.fst) ∧
      Always (fetchOne drv) (KeepsSkipping drv) bc₂ := by
  have hrep := represents_fresh (connectDataSource_ok hconn).1 hfeed hlog
  obtain ⟨r', hreader, hrep'⟩ := (fetchOne_simulates.calls n bc _ hrep).ok_left hcalls
  have hwell : WellPlaced plog := ⟨hlog.start_lt hlaid, hfits, hrotate⟩
  have hunmapped : Unmapped plog (.fresh bc.dataSource.coords index (plog.map PlacedEvent.event)) :=
    ⟨rfl, rfl, rfl, hlaid⟩
  obtain ⟨⟨before, pe, tm, mid, rest, hreplay⟩, hidx⟩ := hunmapped.replayable hwell hreader
  obtain ⟨hanswers, hkeeps⟩ := hreplay.resumes hidx
  obtain ⟨ds₂, fde, hconn₂, hlogfile, hposition, hindex, hfde, hfeed₂⟩ :=
    hserves before pe tm (mid ++ rest) hreplay.plog_eq hreplay.event_eq
  have hsuffix := hlog
  rw [hreplay.plog_eq] at hsuffix hlaid
  have hat := hlaid.drop (c := bc.dataSource.coords)
  have hfile := hat
  rw [LaidOut, hreplay.event_eq] at hfile
  rw [← hfile.1] at hat
  have hstart := hwell.start_lt pe (by rw [hreplay.plog_eq]; simp) tm hreplay.event_eq
  obtain ⟨hafter, -⟩ := hat.after_tableMap (c := ⟨none, pe.file, pe.start, 0⟩) hreplay.event_eq
    hstart
  have hfresh := connectDataSource_of_connect _ r'.coords.index hconn₂
  obtain ⟨bc₃, hrep₃, hfetch, hposition', hidx'⟩ := hfresh.2.behind hreplay.event_eq hafter
    hlogfile hposition hindex hfde hsuffix.drop hfeed₂
  have hfirst := fetchOne_congr hfetch hposition' hidx'
  rw [hrep'.coords.logfile, hrep'.coords.position, hrep'.coords.index, hreplay.logfile_eq,
    hreplay.position_eq]
  refine ⟨_, hfresh.1, fun m => ?_, ?_⟩
  · cases m with
    | zero => rfl
    | succ m =>
      rw [calls_succ_congr hfirst, (fetchOne_simulates.calls (m + 1) bc₃ _ hrep₃).answers, hanswers,
        (fetchOne_simulates.calls (m + 1) bc' r' hrep').answers]
  · have hkeeps₃ : Always (fetchOne drv) (KeepsSkipping drv) bc₃ :=
      fetchOne_simulates.always (fun _ _ hrel hskips => hrel.keepsSkipping hskips) hrep₃ hkeeps
    obtain ⟨hnow, hlater⟩ := always_iff.mp hkeeps₃
    refine always_iff.mpr ⟨keepsSkipping_congr hfetch hposition' hidx' hnow, ?_⟩
    rw [hfirst]
    exact hlater

/-! ## A master with a log -/

/-- A source that gives, from the place where it is opened, a format description and the events of a
placed log. -/
def masterDriver (fde : List UInt8) (plog : List PlacedEvent) : Driver (List (List UInt8)) where
  connect ds := .ok (true, { ds with driver := fde :: (plog.dropWhile fun pe =>
    ¬(pe.file = ds.logfile ∧ pe.start = ds.position)).map PlacedEvent.bytes })
  getEvent ds :=
    match ds.driver with
    | [] => .ok (none, ds)
    | e :: stream => .ok (some (ofBytes e), { ds with driver := stream })
  unread := List.length
  unread_lt := by
    rintro ⟨logfile, position, index, serverid, stream, errstr⟩ ds' ev h
    cases stream with
    | nil => simp at h
    | cons e stream =>
      simp only [Except.ok.injEq, Prod.mk.injEq] at h
      obtain ⟨-, rfl⟩ := h
      exact Nat.lt_succ_self _

def masterFeed (fde : List UInt8) (plog : List PlacedEvent) : Feed (masterDriver fde plog) where
  Delivers stream src errstr := src = stream ∧ Printable errstr
  next := by
    rintro e stream ⟨logfile, position, index, serverid, src, errstr⟩ ⟨rfl, herr⟩
    exact ⟨ofBytes e, _, rfl, holds_ofBytes e, ⟨rfl, herr⟩, rfl, rfl, rfl⟩
  last := by
    rintro ⟨logfile, position, index, serverid, src, errstr⟩ ⟨rfl, herr⟩
    exact ⟨_, rfl, ⟨rfl, herr⟩, ⟨rfl, rfl, rfl⟩, herr⟩

theorem noRotateInside_of_not_mem {log : List LogEvent} (h : ∀ rot, .rotate rot ∉ log) :
    NoRotateInside log := by
  rintro before tm mid tableid rev after rfl - - rot hmem
  exact h rot (by simp [hmem])

def sampleName : List UInt8 := ascii "binlog.000001"

/-- A table map and two rows behind it. -/
def samplePlaced : List PlacedEvent :=
  [⟨sampleName, 4, sampleFDE.bytes, .formatDescription 19⟩,
    ⟨sampleName, 158, sampleTableMap.bytes, .tableMap sampleTableMap.content⟩,
    ⟨sampleName, 200, (nullRows 2 (by decide)).bytes, nullRowsEvent 2 (by decide)⟩]

def sampleMaster (logfile : List UInt8) : DataSource (List (List UInt8)) :=
  ⟨logfile, 4, 0, 0, [], []⟩

theorem samplePlaced_reads : ReadsAll .start (samplePlaced.map PlacedEvent.bytes)
    (samplePlaced.map PlacedEvent.event) :=
  ⟨sampleFDE.reads, sampleTableMap.reads rfl rfl, nullRows_reads rfl rfl 2 (by norm_num), trivial⟩

theorem samplePlaced_laidOut : LaidOut sampleName samplePlaced := ⟨rfl, by decide, trivial⟩

theorem samplePlaced_indexFits : IndexFits (samplePlaced.map PlacedEvent.event) := by
  intro before tm after hsplit
  rcases before with _ | ⟨x, _ | ⟨y, _ | ⟨z, before⟩⟩⟩
  · cases hsplit
  · cases hsplit
    decide +kernel
  · cases hsplit
  · simp [samplePlaced] at hsplit

theorem samplePlaced_serves : Serves (masterFeed sampleFDE.bytes samplePlaced) sampleMaster 1
    samplePlaced := by
  intro before pe tm after hplog hevent
  rcases before with _ | ⟨x, _ | ⟨y, _ | ⟨z, before⟩⟩⟩
  · cases hplog
    cases hevent
  · cases hplog
    exact ⟨_, sampleFDE.bytes, rfl, rfl, rfl, rfl, sampleFDE.reads, rfl, .nil⟩
  · cases hplog
    cases hevent
  · simp [samplePlaced] at hplog

/-- The master opened at the table map. -/
def sampleOpened : DataSource (List (List UInt8)) :=
  ⟨sampleName, 158, 0, 1, samplePlaced.map PlacedEvent.bytes, []⟩

theorem samplePlaced_honest : EndHonest none (samplePlaced.map PlacedEvent.event) := by
  have hrows := nrows_decoded_nullRows 2 (by decide)
  exact ⟨List.ne_nil_of_length_pos (Nat.two_pos.trans_eq hrows.symm), trivial⟩

theorem fetchOne_resumes_sample : ∃ bc bc' row,
    connectDataSource (masterDriver sampleFDE.bytes samplePlaced) (some (sampleMaster sampleName))
        158 0 1 = .ok (.ok bc) ∧
      calls (fetchOne (masterDriver sampleFDE.bytes samplePlaced)) 1 bc = .ok ([some row], bc') ∧
      ∃ bc₂, connectDataSource (masterDriver sampleFDE.bytes samplePlaced)
          (some (sampleMaster bc'.dataSource.logfile)) bc'.dataSource.position
          bc'.dataSource.index 1 = .ok (.ok bc₂) ∧
        ∀ m, (calls (fetchOne (masterDriver sampleFDE.bytes samplePlaced)) m bc₂).map Prod.fst =
          (calls (fetchOne (masterDriver sampleFDE.bytes samplePlaced)) m bc').map Prod.fst := by
  have hmaster : (masterDriver sampleFDE.bytes samplePlaced).connect
      { sampleMaster sampleName with position := 158, index := 0, serverid := 1 } =
        .ok (true, sampleOpened) := rfl
  obtain ⟨hconn, hfresh⟩ := connectDataSource_of_connect 158 0 hmaster
  have hfeed : (masterFeed sampleFDE.bytes samplePlaced).Delivers
      (samplePlaced.map PlacedEvent.bytes) sampleOpened.driver sampleOpened.errstr := ⟨rfl, .nil⟩
  have hrep := represents_fresh hfresh hfeed samplePlaced_reads
  have hsignals := hrep.signalsEnd ⟨rfl, samplePlaced_honest⟩
  obtain ⟨row, bc', hfirst⟩ := hsignals.row (by decide)
  have hcalls : calls (fetchOne (masterDriver sampleFDE.bytes samplePlaced)) 1 _ =
      .ok ([] ++ [some row], bc') := calls_one hfirst
  obtain ⟨bc₂, hconn₂, hanswers, -⟩ := fetchOne_resumes hconn hfeed samplePlaced_reads
    samplePlaced_laidOut (noRotateInside_of_not_mem (by simp [samplePlaced, nullRowsEvent]))
    samplePlaced_indexFits samplePlaced_serves hcalls
  exact ⟨_, bc', row, hconn, calls_one hfirst, bc₂, hconn₂, hanswers⟩

/-! ## Too many rows for the index -/

theorem incrIndex_iterate {c : Coords} (n : ℕ) (h : c.index < 2 ^ 32) :
    Coords.incrIndex^[n] c = { c with index := (c.index + n) % 2 ^ 32 } := by
  induction n with
  | zero => rw [Function.iterate_zero, id, add_zero, Nat.mod_eq_of_lt h]
  | succ n ih =>
    rw [Function.iterate_succ_apply', ih, Coords.incrIndex]
    simp only [toUInt32, unsigned, Coords.mk.injEq, true_and]
    omega

namespace Reader

/-- Further events bring rows and change no coordinate. -/
structure AmongRows (r : Reader) : Prop where
  honest : r.OnHonestLog
  rows : ∀ le ∈ r.rest, le.rowsEvent ≠ none

theorem AmongRows.next {r r' : Reader} {row : BinlogRow} (h : r.AmongRows)
    (hf : r._fetchOne = .ok (some row, r')) :
    r'.AmongRows ∧ r'.coords = r.coords.incrIndex ∧
      r.pending.length = r'.pending.length + 1 := by
  have hlength : r.pending.length = r'.pending.length + 1 := by
    rw [pending_fetchOne hf, Option.toList_some, List.length_append, List.length_singleton,
      add_comm]
  have hhonest := h.honest.step hf
  obtain ⟨row', rows, -, -, rfl⟩ | ⟨log, c, -, -, hnone, -⟩ | ⟨rev, log, c, -, hpull, -, rfl⟩ :=
    _fetchOne_ok.mp hf
  · exact ⟨⟨hhonest, h.rows⟩, rfl, hlength⟩
  · cases hnone
  · obtain ⟨others, tableid, hrest, hothers, rfl, -⟩ := pull_some_iff.mp hpull
    -- nothing but rows stands in front of the rows
    obtain rfl : others = [] := by
      refine List.eq_nil_iff_forall_not_mem.mpr fun le hle => ?_
      exact h.rows le (by rw [hrest]; exact List.mem_append_left _ hle) (hothers le hle)
    refine ⟨⟨hhonest, fun le hle => h.rows le ?_⟩, rfl, hlength⟩
    rw [hrest]
    exact List.mem_cons_of_mem _ hle

/-- As long as there are rows, every call brings one and adds one to the index. -/
theorem AmongRows.run {r : Reader} (h : r.AmongRows) {n k : ℕ} (hn : r.pending.length = n + k) :
    ∃ (rows : List BinlogRow) (r' : Reader), calls fetchOne n r = .ok (rows.map some, r') ∧
      r'.AmongRows ∧ r'.coords = Coords.incrIndex^[n] r.coords ∧ r'.pending.length = k := by
  induction n generalizing r with
  | zero => exact ⟨[], r, rfl, h, rfl, hn.trans (Nat.zero_add k)⟩
  | succ n ih =>
    have hpending : r.pending ≠ [] := List.ne_nil_of_length_pos (by omega)
    obtain ⟨row, mid, hf⟩ := h.honest.fetchOne_some hpending
    obtain ⟨hmid, hcoords, hlength⟩ := h.next hf
    obtain ⟨rows, r', hcalls, hr', hcoords', hlength'⟩ := ih hmid (by omega)
    rw [← h.honest.fetchOne_eq] at hf
    refine ⟨row :: rows, r', calls_succ_ok.mpr ⟨_, mid, _, hf, hcalls, rfl⟩, hr', ?_, hlength'⟩
    rw [hcoords', hcoords, Function.iterate_succ_apply]

end Reader

/-- A client that is among rows hands out all of them and then gives none. -/
theorem Represents.runsOut {r₀ r : Reader} (h : Represents feed bc r₀)
    (hfirst : r₀.fetchOne = r.fetchOne) (hr : r.AmongRows) {n : ℕ}
    (hn : r.pending.length = n + 1) : ∃ answers row bc' r',
      calls (fetchOne drv) (n + 1) bc = .ok (answers ++ [some row], bc') ∧
        Represents feed bc' r' ∧ r'.coords = Coords.incrIndex^[n + 1] r.coords ∧
        ∀ row' q, fetchOne drv bc' ≠ .ok (some row', q) := by
  obtain ⟨rows, r', hreader, hr', hcoords, hdry⟩ := hr.run (k := 0) (hn.trans (add_zero _).symm)
  rw [← calls_succ_congr hfirst] at hreader
  obtain ⟨bc', hclient, hrep'⟩ := (fetchOne_simulates.calls (n + 1) bc r₀ h).ok_right hreader
  have hne : rows ≠ [] := by
    rintro rfl
    cases length_calls hreader
  obtain ⟨front, row, rfl⟩ := (List.eq_nil_or_concat' rows).resolve_left hne
  rw [List.map_append, List.map_singleton] at hclient
  refine ⟨_, row, bc', r', hclient, hrep', hcoords, fun row' q hnext => ?_⟩
  obtain ⟨q', hq', -⟩ := (fetchOne_simulates bc' r' hrep').ok_left hnext
  rw [hr'.honest.fetchOne_eq] at hq'
  have hlength := (hr'.next hq').2.2
  omega

/-- A table map and four events of `n` rows behind it. -/
def longPlaced (n : ℕ) (hn : n < 2 ^ 31 - 29) : List PlacedEvent :=
  [⟨sampleName, 4, sampleFDE.bytes, .formatDescription 19⟩,
    ⟨sampleName, 158, sampleTableMap.bytes, .tableMap sampleTableMap.content⟩,
    ⟨sampleName, 200, (nullRows n hn).bytes, nullRowsEvent n hn⟩,
    ⟨sampleName, 229 + n, (nullRows n hn).bytes, nullRowsEvent n hn⟩,
    ⟨sampleName, 258 + 2 * n, (nullRows n hn).bytes, nullRowsEvent n hn⟩,
    ⟨sampleName, 287 + 3 * n, (nullRows n hn).bytes, nullRowsEvent n hn⟩]

section Long

variable {n : ℕ} (hn : n < 2 ^ 31 - 29)

theorem longPlaced_reads (hle : n ≤ 2 ^ 30) : ReadsAll .start
    ((longPlaced n hn).map PlacedEvent.bytes) ((longPlaced n hn).map PlacedEvent.event) :=
  ⟨sampleFDE.reads, sampleTableMap.reads rfl rfl, nullRows_reads rfl rfl n hle,
    nullRows_reads rfl rfl n hle, nullRows_reads rfl rfl n hle, nullRows_reads rfl rfl n hle,
    trivial⟩

theorem longPlaced_laidOut : LaidOut sampleName (longPlaced n hn) := ⟨rfl, by decide, trivial⟩

theorem longPlaced_serves : Serves (masterFeed sampleFDE.bytes (longPlaced n hn)) sampleMaster 1
    (longPlaced n hn) := by
  intro before pe tm after hplog hevent
  rcases before with _ | ⟨x, _ | ⟨y, before⟩⟩
  · cases hplog
    cases hevent
  · cases hplog
    exact ⟨_, sampleFDE.bytes, rfl, rfl, rfl, rfl, sampleFDE.reads, rfl, .nil⟩
  · have hmem : pe ∈ (longPlaced n hn).drop 2 := by rw [hplog]; simp
    simp only [longPlaced, List.drop_succ_cons, List.drop_zero, List.mem_cons, List.not_mem_nil,
      or_false] at hmem
    obtain rfl | rfl | rfl | rfl := hmem <;> cases hevent

/-- What the master gives when it is opened at the table map. -/
def longOpened : DataSource (List (List UInt8)) :=
  ⟨sampleName, 158, 0, 1, (longPlaced n hn).map PlacedEvent.bytes, []⟩

/-- The reader of these events, behind the table map. -/
def longReader : Reader :=
  .behind ⟨sampleName, 158, sampleTableMap.bytes, .tableMap sampleTableMap.content⟩
    sampleTableMap.content 0 ((longPlaced n hn).drop 2)

theorem longReader_amongRows (hpos : 0 < n) : (longReader hn).AmongRows := by
  have hrows : (nullRows n hn).decoded.binlogRows ≠ [] :=
    List.ne_nil_of_length_pos (hpos.trans_eq (nrows_decoded_nullRows n hn).symm)
  refine ⟨⟨rfl, ?_⟩, ?_⟩
  · exact ⟨hrows, hrows, hrows, hrows, trivial⟩
  · simp [longReader, Reader.behind, longPlaced, nullRowsEvent, LogEvent.rowsEvent]

theorem length_pending_longReader : (longReader hn).pending.length = 4 * n := by
  have hrows := nrows_decoded_nullRows n hn
  simp only [longReader, Reader.behind, Reader.pending, longPlaced, nullRowsEvent,
    List.drop_succ_cons, List.drop_zero, List.map_cons, List.map_nil, List.flatMap_cons,
    List.flatMap_nil, LogEvent.binlogRows, List.nil_append, List.append_nil, List.length_append,
    hrows]
  omega

theorem longReader_fetchOne : (Reader.fresh (longOpened hn).coords 0
    ((longPlaced n hn).map PlacedEvent.event)).fetchOne = (longReader hn).fetchOne :=
  (Reader.fetchOne_other _ _ rfl 0).trans (Reader.fetchOne_other _ _ rfl 0)

end Long

/-- With `2 ^ 32` rows behind a table map, the index after the last one is that of the table map
itself. -/
theorem longPlaced_not_resumes : ∃ n hn, n = 2 ^ 30 ∧
    ReadsAll .start ((longPlaced n hn).map PlacedEvent.bytes)
      ((longPlaced n hn).map PlacedEvent.event) ∧
    LaidOut sampleName (longPlaced n hn) ∧
    NoRotateInside ((longPlaced n hn).map PlacedEvent.event) ∧
    Serves (masterFeed sampleFDE.bytes (longPlaced n hn)) sampleMaster 1 (longPlaced n hn) ∧
    ∃ bc, connectDataSource (masterDriver sampleFDE.bytes (longPlaced n hn))
        (some (sampleMaster sampleName)) 158 0 1 = .ok (.ok bc) ∧
      ∃ answers row bc', calls (fetchOne (masterDriver sampleFDE.bytes (longPlaced n hn))) (4 * n)
          bc = .ok (answers ++ [some row], bc') ∧
        ¬∃ bc₂, connectDataSource (masterDriver sampleFDE.bytes (longPlaced n hn))
            (some (sampleMaster bc'.dataSource.logfile)) bc'.dataSource.position
            bc'.dataSource.index 1 = .ok (.ok bc₂) ∧
          ∀ m, (calls (fetchOne (masterDriver sampleFDE.bytes (longPlaced n hn))) m bc₂).map
              Prod.fst =
            (calls (fetchOne (masterDriver sampleFDE.bytes (longPlaced n hn))) m bc').map
              Prod.fst := by
  obtain ⟨n, hn⟩ : ∃ n : ℕ, n = 2 ^ 30 := ⟨_, rfl⟩
  have hlt : n < 2 ^ 31 - 29 := by omega
  have hmaster : (masterDriver sampleFDE.bytes (longPlaced n hlt)).connect
      { sampleMaster sampleName with position := 158, index := 0, serverid := 1 } =
        .ok (true, longOpened hlt) := rfl
  obtain ⟨hconn, hfresh⟩ := connectDataSource_of_connect 158 0 hmaster
  have hfeed : (masterFeed sampleFDE.bytes (longPlaced n hlt)).Delivers
      ((longPlaced n hlt).map PlacedEvent.bytes) (longOpened hlt).driver (longOpened hlt).errstr :=
    ⟨rfl, .nil⟩
  have hreads := longPlaced_reads hlt hn.le
  have hrep := represents_fresh hfresh hfeed hreads
  have hamong := longReader_amongRows hlt (by omega)
  have hpending := length_pending_longReader hlt
  have hfirst := longReader_fetchOne hlt
  obtain ⟨m, hm⟩ : ∃ m, 4 * n = m + 1 := ⟨4 * n - 1, by omega⟩
  rw [hm] at hpending
  obtain ⟨answers, row, bc', r', hclient, hrep', hcoords, hnone⟩ :=
    hrep.runsOut hfirst hamong hpending
  -- the index is zero again
  have hwrap : (0 + (m + 1)) % 2 ^ 32 = 0 := by rw [← hm, hn]; norm_num
  rw [incrIndex_iterate (m + 1) (Nat.two_pow_pos 32)] at hcoords
  have hindex : bc'.dataSource.index = 0 := by
    rw [hrep'.coords.index, hcoords]
    exact hwrap
  have hposition : bc'.dataSource.position = 158 := by
    rw [hrep'.coords.position, hcoords]
    rfl
  have hlogfile : bc'.dataSource.logfile = sampleName := by
    rw [hrep'.coords.logfile, hcoords]
    rfl
  refine ⟨n, hlt, hn, hreads, longPlaced_laidOut hlt, noRotateInside_of_not_mem
    (by simp [longPlaced, nullRowsEvent]), longPlaced_serves hlt, _, hconn, answers, row, bc',
    hm ▸ hclient, ?_⟩
  rintro ⟨bc₂, hconn₂, hsame⟩
  rw [hlogfile, hposition, hindex, hconn] at hconn₂
  cases hconn₂
  -- the second client begins with the first row, and the first one has none left
  obtain ⟨row₁, q, hrow⟩ := hamong.honest.fetchOne_some (List.ne_nil_of_length_pos (by omega))
  rw [← hamong.honest.fetchOne_eq, ← hfirst] at hrow
  obtain ⟨bc₁, hrow', -⟩ := (fetchOne_simulates _ _ hrep).ok_right hrow
  have hanswers := hsame 1
  rw [calls_one hrow', eq_comm] at hanswers
  obtain ⟨⟨as, bc₃⟩, hcalls, has⟩ := map_ok.mp hanswers
  obtain ⟨answer, bc₄, as', hfetch, -, hcons⟩ := calls_succ_ok.mp hcalls
  obtain ⟨rfl, -⟩ := List.cons.inj (has.symm.trans hcons)
  exact hnone row₁ bc₄ hfetch

end LibBinlog
