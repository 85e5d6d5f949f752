import LibBinlog.EndCoords

/-!
# Start indices behind the last row

A client connected with an index skips that many rows, and notices that the index is wrong when the
position has moved between two of them, or when its source has no more events. An event without rows
takes a round of the skip loop like a row, and the first rows of another file may stand at the same
offset; then the client goes on with rows that were never meant.
-/

namespace LibBinlog

open Machine Memory Calls

variable {σ : Type*} {drv : Driver σ} {feed : Feed drv} {bc : BinlogClient σ} {ds : DataSource σ}
  {plog before after : List PlacedEvent} {pe : PlacedEvent} {tm : TableMap} {c c' : Coords}
  {log : List LogEvent}

/-! ## The rows of a log -/

/-- A row, or a rows event that has none: the offset that the last table-map or rotate event before
it names, and whether the last table map is its own. -/
structure RowSlot where
  position : ℕ
  ofLastMap : Bool
  deriving DecidableEq

variable {slot : RowSlot} {rest : List RowSlot}

def rowSlots : Coords → List LogEvent → List RowSlot
  | _, [] => []
  | c, .rows tableid rev :: log =>
    List.replicate (max 1 rev.binlogRows.length)
      ⟨c.position, c.slot.map TableMap.tableid = some tableid⟩ ++ rowSlots c log
  | c, le :: log => rowSlots (c.after le) log

/-- The rows at `position`, up to the first at another one, are fewer than `index`, or the log has
no more than `index` rows; and these rows and the one behind them are of the last table map. -/
def IndexPastRows (position index : ℕ) (slots : List RowSlot) : Prop :=
  ((slots.takeWhile (·.position = position)).length < index ∨ slots.length ≤ index) ∧
    ∀ slot ∈ slots.take ((slots.takeWhile (·.position = position)).length + 1),
      slot.ofLastMap = true

theorem indexPastRows_nil (position index : ℕ) : IndexPastRows position index [] :=
  ⟨.inr (Nat.zero_le index), nofun⟩

/-- The first row at the position: one row less to skip. -/
theorem indexPastRows_cons {position index : ℕ} (h : slot.position = position) :
    IndexPastRows position (index + 1) (slot :: rest) ↔
      slot.ofLastMap = true ∧ IndexPastRows position index rest := by
  unfold IndexPastRows
  rw [List.takeWhile_cons_of_pos (by simpa using h), List.length_cons, List.length_cons,
    List.take_succ_cons, List.forall_mem_cons, Nat.add_lt_add_iff_right, Nat.add_le_add_iff_right]
  exact and_left_comm

theorem indexPastRows_cons_of_ne {position index : ℕ} (h : slot.position ≠ position) :
    IndexPastRows position (index + 1) (slot :: rest) ↔ slot.ofLastMap = true := by
  unfold IndexPastRows
  rw [List.takeWhile_cons_of_neg (by simpa using h)]
  simp

theorem not_indexPastRows_zero {position : ℕ} : ¬IndexPastRows position 0 (slot :: rest) := by
  rintro ⟨hlt | hle, -⟩
  · exact absurd hlt (Nat.not_lt_zero _)
  · exact absurd hle (Nat.not_succ_le_zero _)

theorem rowSlots_other {le : LogEvent} (h : le.rowsEvent = none) :
    rowSlots c (le :: log) = rowSlots (c.after le) log := by
  cases le <;> first | rfl | cases h

/-- Only position and table map of the coordinates matter. -/
theorem rowSlots_congr (hslot : c.slot = c'.slot) (hposition : c.position = c'.position) :
    rowSlots c log = rowSlots c' log := by
  induction log generalizing c c' with
  | nil => rfl
  | cons le log ih =>
    cases le with
    | formatDescription | unrelated => exact ih hslot hposition
    | tableMap tm => exact ih rfl rfl
    | rotate rot => exact ih hslot rfl
    | rows tableid rev => rw [rowSlots, rowSlots, hslot, hposition, ih hslot hposition]

theorem pull_of_rowSlots_nil (h : rowSlots c log = []) : ∃ c', pull log c = .ok (none, [], c') := by
  induction log generalizing c with
  | nil => exact ⟨c, rfl⟩
  | cons le log ih =>
    cases hrows : le.rowsEvent with
    | none =>
      rw [rowSlots_other hrows] at h
      rw [pull_other hrows]
      exact ih h
    | some rev =>
      obtain ⟨tableid, rfl⟩ := eq_rows_of_rowsEvent hrows
      rw [rowSlots, List.append_eq_nil_iff, List.replicate_eq_nil_iff] at h
      omega

/-- The event of the first row slot, if it is of the last table map, else a fault. -/
theorem pull_of_rowSlots_cons (h : rowSlots c log = slot :: rest) :
    (slot.ofLastMap = true ∧ ∃ rev log' c', pull log c = .ok (some rev, log', c') ∧
      c'.position = slot.position ∧
      rest = List.replicate rev.binlogRows.tail.length ⟨c'.position, true⟩ ++ rowSlots c' log') ∨
    slot.ofLastMap = false ∧ pull log c = .error .assertion := by
  induction log generalizing c with
  | nil => cases h
  | cons le log ih =>
    cases hrows : le.rowsEvent with
    | none =>
      rw [rowSlots_other hrows] at h
      rw [pull_other hrows]
      exact ih h
    | some rev =>
      obtain ⟨tableid, rfl⟩ := eq_rows_of_rowsEvent hrows
      have hlen : max 1 rev.binlogRows.length = rev.binlogRows.tail.length + 1 := by
        rw [List.length_tail]
        omega
      rw [rowSlots, hlen, List.replicate_succ, List.cons_append, List.cons.injEq] at h
      obtain ⟨rfl, rfl⟩ := h
      by_cases hmap : c.slot.map TableMap.tableid = some tableid
      · refine .inl ⟨decide_eq_true hmap, rev, log, c, by rw [pull, if_pos hmap], rfl, ?_⟩
        rw [decide_eq_true hmap]
      · exact .inr ⟨decide_eq_false hmap, by rw [pull, if_neg hmap]⟩

/-- The events of one table map: its own, each with rows. -/
structure Governed (tableid : ℕ) (mid : List LogEvent) : Prop where
  unmarked : ∀ le ∈ mid, le.isMark = false
  rows : ∀ id rev, .rows id rev ∈ mid → id = tableid ∧ rev.binlogRows ≠ []

theorem rowSlots_of_governed {tableid : ℕ} {mid : List LogEvent}
    (hslot : c.slot.map TableMap.tableid = some tableid) (hmid : Governed tableid mid) :
    rowSlots c (mid ++ log) =
      List.replicate (mid.flatMap LogEvent.binlogRows).length ⟨c.position, true⟩ ++
        rowSlots c log := by
  induction mid with
  | nil => rfl
  | cons le mid ih =>
    have hrest := ih ⟨fun le' h => hmid.unmarked le' (List.mem_cons_of_mem le h),
      fun id rev h => hmid.rows id rev (List.mem_cons_of_mem le h)⟩
    have hmark := hmid.unmarked le List.mem_cons_self
    rw [List.cons_append, List.flatMap_cons, List.length_append]
    cases le with
    | formatDescription | unrelated =>
      rw [rowSlots_other rfl, binlogRows_other rfl, List.length_nil, Nat.zero_add]
      exact hrest
    | tableMap | rotate => cases hmark
    | rows id rev =>
      obtain ⟨rfl, hne⟩ := hmid.rows id rev List.mem_cons_self
      have hpos : 0 < rev.binlogRows.length := List.length_pos_of_ne_nil hne
      rw [rowSlots, hrest, max_eq_right hpos, decide_eq_true hslot, List.replicate_add,
        List.append_assoc]
      rfl

/-- Where the table map's rows events all have rows and the rows behind them stand at another
offset, every index above the number of its rows is past them. -/
theorem indexPastRows_of_governed {tableid index : ℕ} {mid : List LogEvent}
    (hslot : c.slot.map TableMap.tableid = some tableid) (hmid : Governed tableid mid)
    (hnext : ∀ slot ∈ (rowSlots c log).head?, slot.position ≠ c.position ∧ slot.ofLastMap = true)
    (hlt : (mid.flatMap LogEvent.binlogRows).length < index) :
    IndexPastRows c.position index (rowSlots c (mid ++ log)) := by
  rw [rowSlots_of_governed hslot hmid]
  generalize (mid.flatMap LogEvent.binlogRows).length = m at hlt
  obtain ⟨k, rfl⟩ := Nat.exists_eq_add_of_lt hlt
  induction m with
  | zero =>
    rw [List.replicate_zero, List.nil_append, Nat.zero_add]
    cases hslots : rowSlots c log with
    | nil => exact indexPastRows_nil _ _
    | cons slot rest =>
      obtain ⟨hne, hmap⟩ := hnext slot (by rw [hslots]; rfl)
      exact (indexPastRows_cons_of_ne hne).mpr hmap
  | succ m ih =>
    have hsum : m + 1 + k + 1 = (m + k + 1) + 1 := by omega
    rw [List.replicate_succ, List.cons_append, hsum]
    exact (indexPastRows_cons rfl).mpr ⟨rfl, ih (by omega)⟩

/-! ## One round takes one slot -/

namespace Reader

variable {r : Reader}

/-- The rows of the buffer, and those of the rest of the log. -/
def slots (r : Reader) : List RowSlot :=
  List.replicate r.buffer.length ⟨r.coords.position, true⟩ ++ rowSlots r.coords r.rest

theorem _fetchOne_of_slots_nil (h : r.slots = []) : ∃ r', r._fetchOne = .ok (none, r') ∧
    r'.slots = [] ∧ r'.err = 1 := by
  obtain ⟨hbuffer, hrest⟩ := List.append_eq_nil_iff.mp h
  rw [List.replicate_eq_nil_iff, List.length_eq_zero_iff] at hbuffer
  obtain ⟨c', hpull⟩ := pull_of_rowSlots_nil hrest
  refine ⟨_, _fetchOne_ok.mpr (.inr (.inl ⟨_, _, hbuffer, hpull, rfl, rfl⟩)), ?_, rfl⟩
  rw [slots, hbuffer]
  rfl

theorem _fetchOne_of_slots_cons (h : r.slots = slot :: rest) :
    (slot.ofLastMap = true ∧ ∃ answer r', r._fetchOne = .ok (answer, r') ∧ r'.slots = rest ∧
      r'.coords.position = slot.position ∧ r'.err = r.err) ∨
    slot.ofLastMap = false ∧ ∃ e, r._fetchOne = .error e := by
  cases hbuffer : r.buffer with
  | cons row rows =>
    rw [Reader.slots, hbuffer, List.length_cons, List.replicate_succ, List.cons_append,
      List.cons.injEq] at h
    obtain ⟨rfl, rfl⟩ := h
    refine .inl ⟨rfl, _, _, _fetchOne_ok.mpr (.inl ⟨row, rows, hbuffer, rfl, rfl⟩), ?_, rfl, rfl⟩
    rw [Reader.slots]
    exact congrArg _ (rowSlots_congr rfl rfl)
  | nil =>
    rw [Reader.slots, hbuffer] at h
    obtain ⟨hmap, rev, log, c, hpull, hposition, rfl⟩ | ⟨hmap, hpull⟩ := pull_of_rowSlots_cons h
    · refine .inl ⟨hmap, _, _, _fetchOne_ok.mpr (.inr (.inr ⟨rev, log, c, hbuffer, hpull, rfl,
        rfl⟩)), ?_, hposition, rfl⟩
      rw [Reader.slots]
      exact congrArg _ (rowSlots_congr rfl rfl)
    · exact .inr ⟨hmap, _, _fetchOne_error.mpr ⟨hbuffer, hpull⟩⟩

/-! ## The skip loop -/

/-- Skips `k` rows, as far as that goes, and fetches the next. -/
def fetchAfter (k : ℕ) (r : Reader) : Except Fault (Option BinlogRow × Reader) :=
  match skipRows k r with
  | .error e => .error e
  | .ok (true, r) => .ok (none, r)
  | .ok (false, r) => r._fetchOne

/-- The call returns no row and leaves an error. -/
def Reports (k : ℕ) (r : Reader) : Prop := ∃ r', fetchAfter k r = .ok (none, r') ∧ r'.err ≠ 0

theorem reports_succ {k : ℕ} {answer : Option BinlogRow} {r' : Reader}
    (h : r._fetchOne = .ok (answer, r')) :
    Reports (k + 1) r ↔
      r.coords.position ≠ r'.coords.position ∨ Reports k { r' with startidx := k } := by
  unfold Reports fetchAfter
  rw [skipRows, h]
  dsimp only
  by_cases hmoved : r.coords.position ≠ r'.coords.position
  · rw [if_pos hmoved]
    exact iff_of_true ⟨_, rfl, one_ne_zero⟩ (.inl hmoved)
  · rw [if_neg hmoved]
    simp [hmoved]

theorem not_reports_of_error {k : ℕ} {e : Fault} (h : r._fetchOne = .error e) :
    ¬Reports k r := by
  rintro ⟨r', hfetch, -⟩
  unfold fetchAfter at hfetch
  cases k with
  | zero =>
    rw [skipRows] at hfetch
    dsimp only at hfetch
    rw [h] at hfetch
    cases hfetch
  | succ k =>
    simp only [skipRows, h] at hfetch
    cases hfetch

theorem reports_of_slots_nil {k : ℕ} (h : r.slots = []) : Reports k r := by
  induction k generalizing r with
  | zero =>
    obtain ⟨r', hfetch, -, herr⟩ := _fetchOne_of_slots_nil h
    exact ⟨r', hfetch, by rw [herr]; exact one_ne_zero⟩
  | succ k ih =>
    obtain ⟨r', hfetch, hslots, -⟩ := _fetchOne_of_slots_nil h
    exact (reports_succ hfetch).mpr (.inr (ih hslots))

theorem reports_iff {k : ℕ} (herr : r.err = 0) :
    Reports k r ↔ IndexPastRows r.coords.position k r.slots := by
  induction k generalizing r with
  | zero =>
    cases hslots : r.slots with
    | nil => exact iff_of_true (reports_of_slots_nil hslots) (indexPastRows_nil _ _)
    | cons slot slots =>
      refine iff_of_false ?_ not_indexPastRows_zero
      obtain ⟨-, answer, r', hfetch, -, -, hsame⟩ | ⟨-, e, hfault⟩ := _fetchOne_of_slots_cons hslots
      · rintro ⟨q, hq, hne⟩
        obtain ⟨-, rfl⟩ := Prod.mk.inj (Except.ok.inj (hfetch.symm.trans hq))
        exact hne (hsame.trans herr)
      · exact not_reports_of_error hfault
  | succ k ih =>
    cases hslots : r.slots with
    | nil => exact iff_of_true (reports_of_slots_nil hslots) (indexPastRows_nil _ _)
    | cons slot slots =>
      obtain ⟨hmap, answer, r', hfetch, hrest, hposition, hsame⟩ | ⟨hmap, e, hfault⟩ :=
        _fetchOne_of_slots_cons hslots
      · rw [reports_succ hfetch, hposition]
        by_cases hpos : slot.position = r.coords.position
        · have hnext : Reports k { r' with startidx := k } ↔
              IndexPastRows r'.coords.position k r'.slots := ih (hsame.trans herr)
          rw [indexPastRows_cons hpos, hnext, hrest, hposition, hpos]
          simp [hmap]
        · rw [indexPastRows_cons_of_ne hpos]
          exact iff_of_true (.inl (Ne.symm hpos)) hmap
      · refine iff_of_false (not_reports_of_error hfault) fun h => ?_
        rw [h.2 slot List.mem_cons_self] at hmap
        cases hmap

end Reader

/-! ## Clients -/

/-- The first call returns no row and leaves an error. -/
def ReportsIndex (drv : Driver σ) (bc : BinlogClient σ) : Prop :=
  ∃ bc', fetchOne drv bc = .ok (none, bc') ∧ bc'.err ≠ 0

theorem Represents.reportsIndex_iff {r : Reader} (h : Represents feed bc r) (herr : r.err = 0) :
    ReportsIndex drv bc ↔ IndexPastRows r.coords.position r.startidx r.slots := by
  have hagree := fetchOne_simulates bc r h
  rw [← Reader.reports_iff herr]
  constructor
  · rintro ⟨bc', hclient, hne⟩
    obtain ⟨r', hreader, h'⟩ := hagree.ok_left hclient
    exact ⟨r', hreader, by rwa [← h'.err]⟩
  · rintro ⟨r', hreader, hne⟩
    obtain ⟨bc', hclient, h'⟩ := hagree.ok_right hreader
    exact ⟨bc', hclient, by rwa [h'.err]⟩

/-- A client connected at a table map, in terms of the reader behind it. -/
theorem connected_behind {source : List UInt8 → DataSource σ} {first : List UInt8}
    {index : ℕ} {serverid : ℤ}
    (hlog : ReadsAll .start (plog.map PlacedEvent.bytes) (plog.map PlacedEvent.event))
    (hlaid : LaidOut first plog) (hserves : Serves feed source serverid plog)
    (hplog : plog = before ++ pe :: after) (hevent : pe.event = .tableMap tm)
    (hconn : connectDataSource drv (some (source pe.file)) pe.start index serverid = .ok (.ok bc)) :
    ∃ bc', Represents feed bc' (.behind pe tm index after) ∧
      fetchOne drv bc = fetchOne drv bc' := by
  obtain ⟨ds, fde, hconnect, hlogfile, hposition, hindex, hfde, hfeed⟩ :=
    hserves before pe tm after hplog hevent
  obtain ⟨hfresh, hconnect'⟩ := connectDataSource_ok hconn
  obtain ⟨-, rfl⟩ := Prod.mk.inj (Except.ok.inj (hconnect.symm.trans hconnect'))
  have hstart := hlog.start_lt hlaid pe (by rw [hplog]; simp) tm hevent
  rw [hplog] at hlog hlaid
  have hat := hlaid.drop (c := ⟨none, first, 0, 0⟩)
  have hfile := hat
  rw [LaidOut, hevent] at hfile
  rw [← hfile.1] at hat
  obtain ⟨hafter, -⟩ := hat.after_tableMap (c := ⟨none, pe.file, pe.start, 0⟩) hevent hstart
  obtain ⟨bc', hrep, hfetch, hpos, hidx⟩ := hfresh.behind hevent hafter hlogfile hposition hindex
    hfde hlog.drop hfeed
  exact ⟨bc', hrep, fetchOne_congr hfetch hpos hidx⟩

/-- A client connected at a table map with a start index gives no row and an error, exactly if the
rows at that offset, those without any counted as one, are too few for the index. -/
theorem fetchOne_reportsIndex_iff {source : List UInt8 → DataSource σ} {first : List UInt8}
    {index : ℕ} {serverid : ℤ}
    (hlog : ReadsAll .start (plog.map PlacedEvent.bytes) (plog.map PlacedEvent.event))
    (hlaid : LaidOut first plog) (hserves : Serves feed source serverid plog)
    (hplog : plog = before ++ pe :: after) (hevent : pe.event = .tableMap tm)
    (hconn : connectDataSource drv (some (source pe.file)) pe.start index serverid = .ok (.ok bc)) :
    ReportsIndex drv bc ↔ IndexPastRows pe.start index
      (rowSlots ⟨some tm, pe.file, pe.start, 0⟩ (after.map PlacedEvent.event)) := by
  obtain ⟨bc', hrep, hfetch⟩ := connected_behind hlog hlaid hserves hplog hevent hconn
  rw [ReportsIndex, hfetch]
  exact hrep.reportsIndex_iff rfl

/-- Three rows are too many for the sample, which has two. -/
theorem fetchOne_reportsIndex_sample : ∃ bc,
    connectDataSource (masterDriver sampleFDE.bytes samplePlaced) (some (sampleMaster sampleName))
        158 3 1 = .ok (.ok bc) ∧
      ReportsIndex (masterDriver sampleFDE.bytes samplePlaced) bc := by
  have hmaster : (masterDriver sampleFDE.bytes samplePlaced).connect
      { sampleMaster sampleName with position := 158, index := 0, serverid := 1 } =
        .ok (true, sampleOpened) := rfl
  obtain ⟨hconn, -⟩ := connectDataSource_of_connect 158 3 hmaster
  have hslots : rowSlots ⟨some sampleTableMap.content, sampleName, 158, 0⟩
      [nullRowsEvent 2 (by decide)] = [⟨158, true⟩, ⟨158, true⟩] := by decide +kernel
  have hpast : IndexPastRows 158 3 [⟨158, true⟩, ⟨158, true⟩] := ⟨.inr (by decide), by decide⟩
  exact ⟨_, hconn, (fetchOne_reportsIndex_iff samplePlaced_reads samplePlaced_laidOut
    samplePlaced_serves (List.take_append_drop 1 samplePlaced).symm rfl hconn).mpr
      (hslots ▸ hpast)⟩

/-! ## The same offset in the next file -/

def sampleRotate : RotateLogEvent where
  header := sampleHeader EventType.rotate 0 (by decide)
  position := 4
  fileName := ascii "binlog.000002"
  type_eq := rfl
  position_lt := by decide
  length_fileName := by decide

/-- A table map with one row, and in the next file one at the same offset with two. -/
def rotatedPlaced : List PlacedEvent :=
  [⟨sampleName, 4, sampleFDE.bytes, .formatDescription 19⟩,
    ⟨sampleName, 158, sampleTableMap.bytes, .tableMap sampleTableMap.content⟩,
    ⟨sampleName, 200, (nullRows 1 oneRow_lt).bytes, nullRowsEvent 1 oneRow_lt⟩,
    ⟨sampleName, 230, sampleRotate.bytes, .rotate ⟨4, ascii "binlog.000002"⟩⟩,
    ⟨ascii "binlog.000002", 158, sampleTableMap.bytes, .tableMap sampleTableMap.content⟩,
    ⟨ascii "binlog.000002", 200, (nullRows 2 twoRows_lt).bytes, nullRowsEvent 2 twoRows_lt⟩]

theorem rotatedPlaced_reads : ReadsAll .start (rotatedPlaced.map PlacedEvent.bytes)
    (rotatedPlaced.map PlacedEvent.event) :=
  ⟨sampleFDE.reads, sampleTableMap.reads rfl rfl, nullRows_reads rfl rfl 1 (by norm_num),
    sampleRotate.reads rfl, sampleTableMap.reads rfl rfl, nullRows_reads rfl rfl 2 (by norm_num),
    trivial⟩

theorem rotatedPlaced_laidOut : LaidOut sampleName rotatedPlaced :=
  ⟨rfl, by decide, by decide, by decide, trivial⟩

theorem rotatedPlaced_serves : Serves (masterFeed sampleFDE.bytes rotatedPlaced) sampleMaster 1
    rotatedPlaced := by
  intro before pe tm after hplog hevent
  rcases before with _ | ⟨x, _ | ⟨y, _ | ⟨z, _ | ⟨u, _ | ⟨v, _ | ⟨w, before⟩⟩⟩⟩⟩⟩
  · cases hplog
    cases hevent
  · cases hplog
    exact ⟨_, sampleFDE.bytes, rfl, rfl, rfl, rfl, sampleFDE.reads, rfl, .nil⟩
  · cases hplog
    cases hevent
  · cases hplog
    cases hevent
  · cases hplog
    exact ⟨_, sampleFDE.bytes, rfl, rfl, rfl, rfl, sampleFDE.reads, rfl, .nil⟩
  · cases hplog
    cases hevent
  · simp [rotatedPlaced] at hplog

/-- The table map has one row. With the index 2 the client skips this row and the first one of the
next file, and gives the second. -/
theorem rotatedPlaced_not_reportsIndex :
    (ReadsAll .start (rotatedPlaced.map PlacedEvent.bytes) (rotatedPlaced.map PlacedEvent.event) ∧
      LaidOut sampleName rotatedPlaced ∧
      Serves (masterFeed sampleFDE.bytes rotatedPlaced) sampleMaster 1 rotatedPlaced) ∧
    (nullRows 1 (by decide)).decoded.binlogRows.length = 1 ∧ ∃ bc bc' row,
      connectDataSource (masterDriver sampleFDE.bytes rotatedPlaced)
          (some (sampleMaster sampleName)) 158 2 1 = .ok (.ok bc) ∧
        fetchOne (masterDriver sampleFDE.bytes rotatedPlaced) bc = .ok (some row, bc') ∧
        ¬ReportsIndex (masterDriver sampleFDE.bytes rotatedPlaced) bc := by
  have hmaster : (masterDriver sampleFDE.bytes rotatedPlaced).connect
      { sampleMaster sampleName with position := 158, index := 0, serverid := 1 } =
        .ok (true, { sampleOpened with driver := rotatedPlaced.map PlacedEvent.bytes }) := rfl
  obtain ⟨hconn, -⟩ := connectDataSource_of_connect 158 2 hmaster
  obtain ⟨bc', hrep, hfetch⟩ := connected_behind rotatedPlaced_reads rotatedPlaced_laidOut
    rotatedPlaced_serves (List.take_append_drop 1 rotatedPlaced).symm rfl hconn
  obtain ⟨row, r', hreader⟩ : ∃ row r', Reader.fetchOne (.behind
      ⟨sampleName, 158, sampleTableMap.bytes, .tableMap sampleTableMap.content⟩
      sampleTableMap.content 2 (rotatedPlaced.drop 2)) = .ok (some row, r') := ⟨_, _, rfl⟩
  obtain ⟨bc'', hclient, -⟩ := (fetchOne_simulates bc' _ hrep).ok_right hreader
  refine ⟨⟨rotatedPlaced_reads, rotatedPlaced_laidOut, rotatedPlaced_serves⟩,
    nrows_decoded_nullRows 1 (by decide), _, bc'', row, hconn, hfetch.trans hclient, ?_⟩
  rintro ⟨q, hnone, -⟩
  rw [hfetch, hclient] at hnone
  cases hnone

end LibBinlog
