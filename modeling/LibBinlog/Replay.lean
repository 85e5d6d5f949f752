import LibBinlog.PlacedLog

/-!
# Replaying from a table map

A reader's coordinates name a table map and count the calls made since. A second reader that starts
behind that table map and drops as many rows ends up where the first one stands: with the same
coordinates, the same rest of the log and the same buffered rows. The count starts anew at each
table map, and no other coordinate changes until the next one.
-/

namespace LibBinlog

open Machine Calls

namespace Reader

variable {r r' q q' : Reader} {k : ℕ} {answer : Option BinlogRow}

/-- Apart from the pending skips and the error. -/
structure Same (r q : Reader) : Prop where
  coords : r.coords = q.coords
  rest : r.rest = q.rest
  buffer : r.buffer = q.buffer

theorem Same.refl (r : Reader) : r.Same r := ⟨rfl, rfl, rfl⟩

theorem Same.symm (h : r.Same q) : q.Same r := ⟨h.coords.symm, h.rest.symm, h.buffer.symm⟩

theorem Same.trans (h : r.Same q) (h' : q.Same q') : r.Same q' :=
  ⟨h.coords.trans h'.coords, h.rest.trans h'.rest, h.buffer.trans h'.buffer⟩

theorem _fetchOne_same : Simulates Same _fetchOne _fetchOne := by
  rintro ⟨c, rest, buffer, startidx, err⟩ ⟨c', rest', buffer', startidx', err'⟩ ⟨hc, hrest, hbuf⟩
  cases hc
  cases hrest
  cases hbuf
  cases buffer with
  | cons row rows => exact ⟨rfl, rfl, rfl, rfl⟩
  | nil =>
    cases hpull : pull rest c with
    | error e => simp [_fetchOne, getRowsEvent, hpull]
    | ok out =>
      obtain ⟨answer, log, c'⟩ := out
      cases answer <;> simp only [_fetchOne, getRowsEvent, hpull] <;> exact ⟨rfl, rfl, rfl, rfl⟩

/-! ## The skip loop -/

theorem skipRows_succ_ok : skipRows (k + 1) r = .ok (false, r') ↔ ∃ answer mid,
    r._fetchOne = .ok (answer, mid) ∧ mid.coords.position = r.coords.position ∧
      skipRows k { mid with startidx := k } = .ok (false, r') := by
  rw [skipRows]
  cases hf : r._fetchOne with
  | error e => simp
  | ok out =>
    obtain ⟨answer, mid⟩ := out
    by_cases hpos : r.coords.position = mid.coords.position <;> simp [hpos, eq_comm]

theorem skipRows_startidx (h : skipRows k r = .ok (false, r')) (hidx : r.startidx = k) :
    r'.startidx = 0 := by
  induction k generalizing r with
  | zero =>
    cases h
    exact hidx
  | succ k ih =>
    obtain ⟨answer, mid, -, -, hrest⟩ := skipRows_succ_ok.mp h
    exact ih hrest rfl

theorem skipRows_same (h : skipRows k r = .ok (false, r')) (hrq : r.Same q) :
    ∃ q', skipRows k q = .ok (false, q') ∧ r'.Same q' := by
  induction k generalizing r q with
  | zero =>
    cases h
    exact ⟨q, rfl, hrq⟩
  | succ k ih =>
    obtain ⟨answer, mid, hf, hpos, hrest⟩ := skipRows_succ_ok.mp h
    obtain ⟨mid', hf', hmid⟩ := (_fetchOne_same r q hrq).ok_left hf
    obtain ⟨q', hskip, hsame⟩ := ih hrest (q := { mid' with startidx := k })
      ⟨hmid.coords, hmid.rest, hmid.buffer⟩
    refine ⟨q', skipRows_succ_ok.mpr ⟨answer, mid', hf', ?_, hskip⟩, hsame⟩
    rw [← hmid.coords, ← hrq.coords]
    exact hpos

/-- One more row is dropped at the end of the loop as well as at its start. -/
theorem skipRows_snoc (h : skipRows k r = .ok (false, q)) (hf : q._fetchOne = .ok (answer, q'))
    (hpos : q'.coords.position = q.coords.position) :
    ∃ r', skipRows (k + 1) r = .ok (false, r') ∧ r'.Same q' := by
  induction k generalizing r with
  | zero =>
    cases h
    exact ⟨_, skipRows_succ_ok.mpr ⟨answer, q', hf, hpos, rfl⟩, rfl, rfl, rfl⟩
  | succ k ih =>
    obtain ⟨answer', mid, hf', hpos', hrest⟩ := skipRows_succ_ok.mp h
    obtain ⟨r', hskip, hsame⟩ := ih hrest
    obtain ⟨r'', hskip', hsame'⟩ := skipRows_same hskip (q := { mid with startidx := k + 1 })
      ⟨rfl, rfl, rfl⟩
    exact ⟨r'', skipRows_succ_ok.mpr ⟨answer', mid, hf', hpos', hskip'⟩,
      hsame'.symm.trans hsame⟩

end Reader

/-! ## Walking to rows -/

variable {log log' : List LogEvent} {c c' : Coords} {rev : RowsEvent}

theorem pull_some_iff : pull log c = .ok (some rev, log', c') ↔ ∃ others tableid,
    log = others ++ .rows tableid rev :: log' ∧ (∀ le ∈ others, le.rowsEvent = none) ∧
      c' = c.afterAll others ∧ c'.slot.map TableMap.tableid = some tableid := by
  induction log generalizing c with
  | nil => simp [pull]
  | cons le log ih =>
    cases hrows : le.rowsEvent with
    | none =>
      rw [pull_other hrows, ih]
      constructor
      · rintro ⟨others, tableid, rfl, hothers, rfl, hslot⟩
        exact ⟨le :: others, tableid, rfl, List.forall_mem_cons.mpr ⟨hrows, hothers⟩, rfl, hslot⟩
      · rintro ⟨others, tableid, hlog, hothers, rfl, hslot⟩
        cases others with
        | nil =>
          rw [List.nil_append, List.cons.injEq] at hlog
          rw [hlog.1] at hrows
          cases hrows
        | cons le' others =>
          rw [List.cons_append, List.cons.injEq] at hlog
          obtain ⟨rfl, rfl⟩ := hlog
          exact ⟨others, tableid, rfl, (List.forall_mem_cons.mp hothers).2, rfl, hslot⟩
    | some rev' =>
      obtain ⟨tableid', rfl⟩ := eq_rows_of_rowsEvent hrows
      rw [pull]
      constructor
      · intro h
        split_ifs at h with hslot
        cases h
        exact ⟨[], tableid', rfl, List.forall_mem_nil _, rfl, hslot⟩
      · rintro ⟨others, tableid, hlog, hothers, rfl, hslot⟩
        cases others with
        | nil =>
          rw [List.nil_append, List.cons.injEq, LogEvent.rows.injEq] at hlog
          obtain ⟨⟨rfl, rfl⟩, rfl⟩ := hlog
          exact if_pos hslot
        | cons le' others =>
          rw [List.cons_append, List.cons.injEq] at hlog
          have hle := hothers le' List.mem_cons_self
          rw [← hlog.1] at hle
          cases hle

theorem afterAll_slot (h : ∀ le ∈ log, le.isTableMap = false) : (c.afterAll log).slot = c.slot := by
  induction log generalizing c with
  | nil => rfl
  | cons le log ih =>
    rw [List.forall_mem_cons] at h
    rw [afterAll_cons]
    refine (ih h.2).trans ?_
    cases le with
    | tableMap tm => exact absurd h.1.symm Bool.false_ne_true
    | formatDescription | rows | rotate | unrelated => rfl

theorem afterAll_slot_last {front behind : List PlacedEvent} {pe : PlacedEvent} {tm : TableMap}
    (hevent : pe.event = .tableMap tm) (h : ∀ pe' ∈ behind, pe'.event.isTableMap = false) :
    (c.afterAll ((front ++ pe :: behind).map PlacedEvent.event)).slot = some tm := by
  rw [List.map_append, List.map_cons, Coords.afterAll, List.foldl_append, List.foldl_cons]
  refine (afterAll_slot (List.forall_mem_map.mpr h)).trans ?_
  rw [hevent]
  rfl

theorem LogEvent.isTableMap_iff {le : LogEvent} :
    le.isTableMap = true ↔ ∃ tm, le = .tableMap tm := by
  cases le <;> simp [isTableMap]

theorem LogEvent.quiet_of {le : LogEvent} (hrows : le.rowsEvent = none)
    (hmap : le.isTableMap = false)
    (hrotate : ∀ rot, le ≠ .rotate rot) : le.Quiet := by
  cases le with
  | formatDescription | unrelated => trivial
  | tableMap tm => cases hmap
  | rows tableid rev => cases hrows
  | rotate rot => exact hrotate rot rfl

/-! ## The invariant -/

/-- What is asked of a placed log: positions and indices have room for it, and a table map and the
rows events it governs stand in one file. -/
structure WellPlaced (plog : List PlacedEvent) : Prop where
  start_lt : ∀ pe ∈ plog, ∀ tm, pe.event = .tableMap tm → pe.start < 2 ^ 32
  indexFits : IndexFits (plog.map PlacedEvent.event)
  noRotate : NoRotateInside (plog.map PlacedEvent.event)

/-- A reader right behind the table map that `pe` places. -/
def Reader.behind (pe : PlacedEvent) (tm : TableMap) (startidx : ℕ) (rest : List PlacedEvent) :
    Reader :=
  ⟨⟨some tm, pe.file, pe.start, 0⟩, rest.map PlacedEvent.event, [], startidx, 0⟩

/-- The reader `r` has last read the table map at `pe`, with the events `mid` behind it, and its
coordinates lead a new reader to the same place. -/
structure ReplayAt (plog before : List PlacedEvent) (pe : PlacedEvent) (tm : TableMap)
    (mid rest : List PlacedEvent) (r : Reader) : Prop where
  plog_eq : plog = before ++ pe :: (mid ++ rest)
  event_eq : pe.event = .tableMap tm
  mid_eq : ∀ pe' ∈ mid, pe'.event.isTableMap = false
  rest_eq : r.rest = rest.map PlacedEvent.event
  slot_eq : r.coords.slot = some tm
  logfile_eq : r.coords.logfile = pe.file
  position_eq : r.coords.position = pe.start
  laidOut : LaidOut pe.file rest
  index_le : r.coords.index + r.buffer.length ≤ lastIndex (mid.map PlacedEvent.event)
  replay : ∃ q, Reader.skipRows r.coords.index (.behind pe tm 0 (mid ++ rest)) = .ok (false, q) ∧
    q.Same r

variable {plog before mid rest others done : List PlacedEvent} {pe prow : PlacedEvent}
  {tm : TableMap} {tableid : ℕ} {r r' : Reader} {answer : Option BinlogRow}

/-- The events between a table map and rows it governs change no coordinates. -/
theorem WellPlaced.quiet (h : WellPlaced plog)
    (hplog : plog = before ++ pe :: (mid ++ prow :: rest)) (hevent : pe.event = .tableMap tm)
    (hrow : prow.event = .rows tableid rev) (hid : tm.tableid = tableid)
    (hmaps : ∀ pe' ∈ mid, pe'.event.isTableMap = false) {pe' : PlacedEvent} (hpe' : pe' ∈ mid)
    (hrows : pe'.event.rowsEvent = none) : pe'.event.Quiet := by
  refine LogEvent.quiet_of hrows (hmaps pe' hpe') fun rot hrot => ?_
  refine h.noRotate (before.map PlacedEvent.event) tm (mid.map PlacedEvent.event) tableid rev
    (rest.map PlacedEvent.event) ?_ hid ?_ rot (List.mem_map.mpr ⟨pe', hpe', hrot⟩)
  · simp [hplog, hevent, hrow]
  · intro tm' hmem
    obtain ⟨pe'', hpe'', htm'⟩ := List.mem_map.mp hmem
    have hmap := hmaps pe'' hpe''
    rw [htm'] at hmap
    cases hmap

/-- An index that only counts rows of this table map fits. -/
theorem WellPlaced.index_lt (h : WellPlaced plog) (hplog : plog = before ++ pe :: (mid ++ rest))
    (hevent : pe.event = .tableMap tm) (hmid : ∀ pe' ∈ mid, pe'.event.isTableMap = false) :
    lastIndex (mid.map PlacedEvent.event) < 2 ^ 32 := by
  have hfits := h.indexFits (before.map PlacedEvent.event) tm ((mid ++ rest).map PlacedEvent.event)
    (by simp [hplog, hevent])
  rw [List.map_append, lastIndex_append (List.forall_mem_map.mpr hmid)] at hfits
  omega

/-- One more rows event: this call, and the rows that are left. -/
theorem lastIndex_rows (hmid : ∀ pe' ∈ mid, pe'.event.isTableMap = false)
    (hrow : prow.event = .rows tableid rev) :
    lastIndex (mid.map PlacedEvent.event) + 1 + rev.binlogRows.tail.length ≤
      lastIndex ((mid ++ [prow]).map PlacedEvent.event) := by
  rw [List.map_append, lastIndex_append (List.forall_mem_map.mpr hmid), List.map_singleton, hrow,
    lastIndex, lastIndex, List.length_tail]
  omega

/-- Rows behind a new table map: the count starts anew with this call. -/
theorem WellPlaced.replayAt (h : WellPlaced plog) (done before rest : List PlacedEvent) {c : Coords}
    (hplog : plog = done ++ (before ++ pe :: (mid ++ prow :: rest)))
    (hlaid : LaidOut c.logfile (before ++ pe :: (mid ++ prow :: rest)))
    (hevent : pe.event = .tableMap tm) (hmaps : ∀ pe' ∈ mid, pe'.event.isTableMap = false)
    (hrows : ∀ pe' ∈ mid, pe'.event.rowsEvent = none) (hrow : prow.event = .rows tableid rev)
    (hid : tm.tableid = tableid) (startidx : ℕ) (err : ℤ) :
    ReplayAt plog (done ++ before) pe tm (mid ++ [prow]) rest
      ⟨(c.afterAll ((before ++ pe :: mid).map PlacedEvent.event)).incrIndex,
        rest.map PlacedEvent.event, rev.binlogRows.tail, startidx, err⟩ := by
  have hplog' : plog = (done ++ before) ++ pe :: (mid ++ prow :: rest) := by
    rw [hplog, List.append_assoc]
  have hquiet : ∀ pe' ∈ mid, pe'.event.Quiet := fun pe' hpe' =>
    h.quiet hplog' hevent hrow hid hmaps hpe' (hrows pe' hpe')
  have hstart := h.start_lt pe (by rw [hplog]; simp) tm hevent
  obtain ⟨hafter, hbehind⟩ := hlaid.drop.after_tableMap hevent hstart
  have hcoords : c.afterAll ((before ++ pe :: mid).map PlacedEvent.event) =
      ⟨some tm, pe.file, pe.start, 0⟩ := by
    rw [List.map_append, List.map_cons, Coords.afterAll, List.foldl_append, List.foldl_cons]
    refine Eq.trans ?_ hafter
    exact afterAll_quiet (List.forall_mem_map.mpr hquiet)
  have hindex : toUInt32 (((0 : ℕ) : ℤ) + 1) = 1 := toUInt32_natCast (n := 1) (by norm_num)
  have hmaps' : ∀ pe' ∈ mid ++ [prow], pe'.event.isTableMap = false := by
    rw [List.forall_mem_append, List.forall_mem_singleton, hrow]
    exact ⟨hmaps, rfl⟩
  rw [hcoords]
  refine ⟨by rw [hplog']; simp, hevent, hmaps', rfl, rfl, rfl, rfl, ?_, ?_, ?_⟩
  · exact hbehind.behind_rows hquiet hrow
  · have hrows := lastIndex_rows hmaps hrow
    simp only [Coords.incrIndex, hindex]
    omega
  · have hpull : pull ((mid ++ [prow] ++ rest).map PlacedEvent.event)
        ⟨some tm, pe.file, pe.start, 0⟩ =
          .ok (some rev, rest.map PlacedEvent.event, ⟨some tm, pe.file, pe.start, 0⟩) := by
      refine pull_some_iff.mpr ⟨mid.map PlacedEvent.event, tableid, by simp [hrow],
        List.forall_mem_map.mpr hrows, ?_, by rw [Option.map_some, hid]⟩
      exact (afterAll_quiet (List.forall_mem_map.mpr hquiet)).symm
    have hfetch : (Reader.behind pe tm 0 (mid ++ [prow] ++ rest))._fetchOne =
        .ok (rev.binlogRows.head?, ⟨Coords.incrIndex ⟨some tm, pe.file, pe.start, 0⟩,
          rest.map PlacedEvent.event, rev.binlogRows.tail, 0, 0⟩) :=
      Reader._fetchOne_ok.mpr (.inr (.inr ⟨rev, _, _, rfl, hpull, rfl, rfl⟩))
    simp only [Coords.incrIndex, hindex]
    refine ⟨_, Reader.skipRows_succ_ok.mpr ⟨_, _, hfetch, rfl, rfl⟩, ?_, rfl, rfl⟩
    simp only [Coords.incrIndex, hindex]

/-- The log is at its end, and nothing is buffered. -/
def Reader.Ended (r : Reader) : Prop := r.rest = [] ∧ r.buffer = []

theorem ReplayAt.replay_succ (h : ReplayAt plog before pe tm mid rest r)
    (hf : r._fetchOne = .ok (answer, r')) (hpos : r'.coords.position = r.coords.position)
    (hindex : r'.coords.index = r.coords.index + 1) :
    ∃ q, Reader.skipRows r'.coords.index (.behind pe tm 0 (mid ++ rest)) = .ok (false, q) ∧
      q.Same r' := by
  obtain ⟨q, hskip, hsame⟩ := h.replay
  obtain ⟨q', hf', hsame'⟩ := (Reader._fetchOne_same q r hsame).ok_right hf
  rw [hindex]
  obtain ⟨q'', hskip', hsame''⟩ := Reader.skipRows_snoc hskip hf' (by
    rw [hsame'.coords, hpos, hsame.coords])
  exact ⟨q'', hskip', hsame''.trans hsame'⟩

theorem toUInt32_succ {n : ℕ} (h : n + 1 < 2 ^ 32) : toUInt32 ((n : ℤ) + 1) = n + 1 :=
  toUInt32_eq (by push_cast; rfl) h

theorem ReplayAt.quiet (hwell : WellPlaced plog)
    (h : ReplayAt plog before pe tm mid (others ++ prow :: rest) r)
    (hmaps : ∀ pe' ∈ others, pe'.event.isTableMap = false)
    (hrows : ∀ pe' ∈ others, pe'.event.rowsEvent = none) (hrow : prow.event = .rows tableid rev)
    (hid : tm.tableid = tableid) : ∀ pe' ∈ others, pe'.event.Quiet := by
  have hplog : plog = before ++ pe :: ((mid ++ others) ++ prow :: rest) := by
    rw [h.plog_eq, List.append_assoc]
  have hall : ∀ pe' ∈ mid ++ others, pe'.event.isTableMap = false := fun pe' hpe' =>
    (List.mem_append.mp hpe').elim (h.mid_eq pe') (hmaps pe')
  exact fun pe' hpe' => hwell.quiet hplog h.event_eq hrow hid hall
    (List.mem_append_right mid hpe') (hrows pe' hpe')

/-- Further rows behind the same table map. -/
theorem ReplayAt.more (hwell : WellPlaced plog)
    (h : ReplayAt plog before pe tm mid (others ++ prow :: rest) r)
    (hmaps : ∀ pe' ∈ others, pe'.event.isTableMap = false)
    (hquiet : ∀ pe' ∈ others, pe'.event.Quiet) (hrow : prow.event = .rows tableid rev)
    (hf : r._fetchOne = .ok (answer, { r with
      coords := r.coords.incrIndex, rest := rest.map PlacedEvent.event,
      buffer := rev.binlogRows.tail })) :
    ReplayAt plog before pe tm (mid ++ others ++ [prow]) rest { r with
      coords := r.coords.incrIndex, rest := rest.map PlacedEvent.event,
      buffer := rev.binlogRows.tail } := by
  have hsplit : mid ++ others ++ [prow] ++ rest = mid ++ (others ++ prow :: rest) := by simp
  have hplog : plog = before ++ pe :: (mid ++ others ++ [prow] ++ rest) := by
    rw [h.plog_eq, hsplit]
  have hothers : ∀ pe' ∈ mid ++ others, pe'.event.isTableMap = false :=
    List.forall_mem_append.mpr ⟨h.mid_eq, hmaps⟩
  have hall : ∀ pe' ∈ mid ++ others ++ [prow], pe'.event.isTableMap = false := by
    rw [List.forall_mem_append, List.forall_mem_singleton, hrow]
    exact ⟨hothers, rfl⟩
  have hlt := hwell.index_lt hplog h.event_eq hall
  have hrows := lastIndex_rows hothers hrow
  have hindex := h.index_le
  have hmid : lastIndex (mid.map PlacedEvent.event) ≤
      lastIndex ((mid ++ others).map PlacedEvent.event) := by
    rw [List.map_append, lastIndex_append (List.forall_mem_map.mpr h.mid_eq)]
    exact Nat.le_add_right _ _
  have hnext : r.coords.incrIndex.index = r.coords.index + 1 := toUInt32_succ (by omega)
  refine ⟨hplog, h.event_eq, hall, rfl, h.slot_eq, h.logfile_eq, h.position_eq,
    h.laidOut.behind_rows hquiet hrow, ?_, ?_⟩
  · simp only [hnext]
    omega
  · rw [hsplit]
    exact h.replay_succ hf rfl hnext

/-- A buffered row. -/
theorem ReplayAt.buffered (hwell : WellPlaced plog)
    (h : ReplayAt plog before pe tm mid rest r) {row : BinlogRow}
    {rows : List BinlogRow} (hbuffer : r.buffer = row :: rows)
    (hf : r._fetchOne = .ok (answer, { r with buffer := rows, coords := r.coords.incrIndex })) :
    ReplayAt plog before pe tm mid rest
      { r with buffer := rows, coords := r.coords.incrIndex } := by
  have hlt := hwell.index_lt h.plog_eq h.event_eq h.mid_eq
  have hindex := h.index_le
  rw [hbuffer, List.length_cons] at hindex
  have hnext : r.coords.incrIndex.index = r.coords.index + 1 := toUInt32_succ (by omega)
  refine ⟨h.plog_eq, h.event_eq, h.mid_eq, h.rest_eq, h.slot_eq, h.logfile_eq, h.position_eq,
    h.laidOut, ?_, h.replay_succ hf rfl hnext⟩
  simp only [hnext]
  omega

/-! ## Every run -/

/-- No table map has been read yet. -/
structure Unmapped (plog : List PlacedEvent) (r : Reader) : Prop where
  slot_eq : r.coords.slot = none
  buffer_eq : r.buffer = []
  rest_eq : r.rest = plog.map PlacedEvent.event
  laidOut : LaidOut r.coords.logfile plog

def Replayable (plog : List PlacedEvent) (r : Reader) : Prop :=
  ∃ before pe tm mid rest, ReplayAt plog before pe tm mid rest r

/-- What holds of a reader in every state it reaches. -/
def Follows (plog : List PlacedEvent) (r : Reader) : Prop :=
  Unmapped plog r ∨ Replayable plog r ∨ r.Ended

theorem Follows.congr (h : Follows plog r) (hsame : r.Same r') : Follows plog r' := by
  obtain h | ⟨before, pe, tm, mid, rest, h⟩ | h := h
  · exact .inl ⟨hsame.coords ▸ h.slot_eq, hsame.buffer ▸ h.buffer_eq, hsame.rest ▸ h.rest_eq,
      hsame.coords ▸ h.laidOut⟩
  · obtain ⟨q, hskip, hq⟩ := h.replay
    exact .inr (.inl ⟨before, pe, tm, mid, rest, h.plog_eq, h.event_eq, h.mid_eq,
      hsame.rest ▸ h.rest_eq, hsame.coords ▸ h.slot_eq, hsame.coords ▸ h.logfile_eq,
      hsame.coords ▸ h.position_eq, h.laidOut, hsame.coords ▸ hsame.buffer ▸ h.index_le, q,
      hsame.coords ▸ hskip, hq.trans hsame⟩)
  · exact .inr (.inr ⟨hsame.rest ▸ h.1, hsame.buffer ▸ h.2⟩)

/-- The events in front of the next rows, and where a last table map stands among them. -/
theorem split_placed {log : List LogEvent} (h : rest.map PlacedEvent.event = log) {others tail}
    (hlog : log = others ++ LogEvent.rows tableid rev :: tail)
    (hrows : ∀ le ∈ others, le.rowsEvent = none) : ∃ pes prow rest', rest = pes ++ prow :: rest' ∧
      pes.map PlacedEvent.event = others ∧ prow.event = .rows tableid rev ∧
        rest'.map PlacedEvent.event = tail ∧ ∀ pe ∈ pes, pe.event.rowsEvent = none := by
  rw [hlog] at h
  obtain ⟨pes, tail', rfl, hpes, htail⟩ := List.map_eq_append_iff.mp h
  obtain ⟨prow, rest', rfl, hrow, hrest⟩ := List.map_eq_cons_iff.mp htail
  refine ⟨pes, prow, rest', rfl, hpes, hrow, hrest, fun pe hpe => hrows _ ?_⟩
  rw [← hpes]
  exact List.mem_map_of_mem hpe

theorem Follows.step (hwell : WellPlaced plog) (h : Follows plog r)
    (hf : r._fetchOne = .ok (answer, r')) : Replayable plog r' ∨ (answer = none ∧ r'.Ended) := by
  obtain ⟨row, rows, hbuffer, rfl, rfl⟩ | ⟨log, c, hbuffer, hpull, rfl, rfl⟩ |
    ⟨rev, log, c, hbuffer, hpull, rfl, rfl⟩ := Reader._fetchOne_ok.mp hf
  · obtain h | ⟨before, pe, tm, mid, rest, h⟩ | h := h
    · exact absurd (hbuffer.symm.trans h.buffer_eq) (List.cons_ne_nil row rows)
    · exact .inl ⟨before, pe, tm, mid, rest, h.buffered hwell hbuffer hf⟩
    · exact absurd (hbuffer.symm.trans h.2) (List.cons_ne_nil row rows)
  · exact .inr ⟨rfl, (pull_none hpull).1, hbuffer⟩
  · obtain ⟨others, tableid, hlog, hothers, rfl, hslot⟩ := pull_some_iff.mp hpull
    obtain h | ⟨before, pe, tm, mid, rest, h⟩ | h := h
    · obtain ⟨pes, prow, rest, rfl, rfl, hrow, rfl, hrows⟩ :=
        split_placed h.rest_eq.symm hlog hothers
      obtain hnone | ⟨front, pe, behind, rfl, hmap, hbehind⟩ :=
        exists_last (fun pe : PlacedEvent => pe.event.isTableMap) pes
      · rw [afterAll_slot (List.forall_mem_map.mpr hnone), h.slot_eq] at hslot
        cases hslot
      · obtain ⟨tm, hevent⟩ := LogEvent.isTableMap_iff.mp hmap
        rw [afterAll_slot_last hevent hbehind] at hslot
        exact .inl ⟨_, _, _, _, _, hwell.replayAt [] front rest (by simp)
          (by simpa using h.laidOut) hevent hbehind (fun pe' hpe' => hrows pe' (by simp [hpe']))
          hrow (Option.some_inj.mp hslot) r.startidx r.err⟩
    · obtain ⟨pes, prow, rest, rfl, rfl, hrow, rfl, hrows⟩ :=
        split_placed h.rest_eq.symm hlog hothers
      obtain hnone | ⟨front, pe', behind, rfl, hmap, hbehind⟩ :=
        exists_last (fun pe : PlacedEvent => pe.event.isTableMap) pes
      · have hid : tm.tableid = tableid := by
          rw [afterAll_slot (List.forall_mem_map.mpr hnone), h.slot_eq] at hslot
          exact Option.some_inj.mp hslot
        have hquiet := h.quiet hwell hnone hrows hrow hid
        rw [afterAll_quiet (List.forall_mem_map.mpr hquiet)] at hf ⊢
        exact .inl ⟨_, _, _, _, _, h.more hwell hnone hquiet hrow hf⟩
      · obtain ⟨tm', hevent⟩ := LogEvent.isTableMap_iff.mp hmap
        rw [afterAll_slot_last hevent hbehind] at hslot
        exact .inl ⟨_, _, _, _, _, hwell.replayAt (before ++ pe :: mid) front rest (c := r.coords)
          (by rw [h.plog_eq]; simp) (by simpa [h.logfile_eq] using h.laidOut) hevent hbehind
          (fun pe'' hpe'' => hrows pe'' (by simp [hpe''])) hrow (Option.some_inj.mp hslot)
          r.startidx r.err⟩
    · rw [h.1] at hlog
      simp at hlog

theorem Follows.next (hwell : WellPlaced plog) (h : Follows plog r)
    (hf : r._fetchOne = .ok (answer, r')) : Follows plog r' :=
  (h.step hwell hf).elim (fun h => .inr (.inl h)) fun h => .inr (.inr h.2)

namespace Reader

theorem fetchOne_ok_iff : r.fetchOne = .ok (answer, r') ↔
    (skipRows r.startidx r = .ok (true, r') ∧ answer = none) ∨
      ∃ mid, skipRows r.startidx r = .ok (false, mid) ∧ mid._fetchOne = .ok (answer, r') := by
  rw [fetchOne]
  cases hskip : skipRows r.startidx r with
  | error e => simp
  | ok out =>
    obtain ⟨moved, mid⟩ := out
    cases moved <;> simp [and_comm, eq_comm]

section Invariants

variable {moved : Bool} {P : Reader → Prop} (hcongr : ∀ r r', r.Same r' → P r → P r')
  (hstep : ∀ r answer r', P r → r._fetchOne = .ok (answer, r') → P r')

include hcongr hstep

theorem skipRows_invariant {k : ℕ} (h : P r) (hskip : skipRows k r = .ok (moved, r')) : P r' := by
  induction k generalizing r with
  | zero =>
    cases hskip
    exact h
  | succ k ih =>
    rw [skipRows] at hskip
    cases hf : r._fetchOne with
    | error e => simp [hf] at hskip
    | ok out =>
      obtain ⟨answer, mid⟩ := out
      have hmid := hstep r answer mid h hf
      simp only [hf] at hskip
      split_ifs at hskip with hpos
      · cases hskip
        exact hcongr mid _ ⟨rfl, rfl, rfl⟩ hmid
      · exact ih (r := { mid with startidx := k }) (hcongr mid _ ⟨rfl, rfl, rfl⟩ hmid) hskip

/-- What single rows preserve, a call preserves. -/
theorem fetchOne_invariant (h : P r) (hf : r.fetchOne = .ok (answer, r')) : P r' := by
  obtain ⟨hskip, rfl⟩ | ⟨mid, hskip, hfetch⟩ := fetchOne_ok_iff.mp hf
  · exact skipRows_invariant hcongr hstep h hskip
  · exact hstep mid answer r' (skipRows_invariant hcongr hstep h hskip) hfetch

/-- A call that gives a row has skipped what it had to. -/
theorem fetchOne_row {row : BinlogRow} (h : P r) (hf : r.fetchOne = .ok (some row, r')) :
    ∃ mid, P mid ∧ mid._fetchOne = .ok (some row, r') ∧ r'.startidx = 0 := by
  obtain ⟨-, hnone⟩ | ⟨mid, hskip, hfetch⟩ := fetchOne_ok_iff.mp hf
  · cases hnone
  · exact ⟨mid, skipRows_invariant hcongr hstep h hskip, hfetch,
      (startidx_fetchOne hfetch).trans (skipRows_startidx hskip rfl)⟩

end Invariants

end Reader

/-- A run whose last call gives a row leaves coordinates that lead back to where it stands. -/
theorem Unmapped.replayable (hwell : WellPlaced plog) (h : Unmapped plog r) {n : ℕ}
    {answers : List (Option BinlogRow)} {row : BinlogRow}
    (hcalls : calls Reader.fetchOne n r = .ok (answers ++ [some row], r')) :
    Replayable plog r' ∧ r'.startidx = 0 := by
  cases n with
  | zero => simp at hcalls
  | succ n =>
    obtain ⟨answers', mid, answer, hrun, hlast, heq⟩ := calls_snoc_ok.mp hcalls
    obtain ⟨-, hanswer⟩ := List.append_inj' heq rfl
    rw [← List.singleton_inj.mp hanswer] at hlast
    have hcongr : ∀ r r', r.Same r' → Follows plog r → Follows plog r' := fun _ _ hs h => h.congr hs
    have hnext : ∀ r a r', Follows plog r → r._fetchOne = .ok (a, r') → Follows plog r' :=
      fun _ _ _ h hf => h.next hwell hf
    have hmid : Follows plog mid := calls_invariant
      (fun _ _ _ hr hf => Reader.fetchOne_invariant hcongr hnext hr hf) (.inl h) hrun
    obtain ⟨q, hq, hfetch, hidx⟩ := Reader.fetchOne_row hcongr hnext hmid hlast
    obtain hreplay | ⟨hnone, -⟩ := hq.step hwell hfetch
    · exact ⟨hreplay, hidx⟩
    · cases hnone

/-! ## Resuming -/

namespace Reader

/-- The same reader, with no rows left to skip. -/
def SameIdle (r q : Reader) : Prop := r.Same q ∧ r.startidx = 0 ∧ q.startidx = 0

theorem fetchOne_sameIdle : Simulates SameIdle fetchOne fetchOne := by
  rintro r q ⟨hsame, hr, hq⟩
  rw [fetchOne_of_startidx hr, fetchOne_of_startidx hq]
  have hstep := _fetchOne_same r q hsame
  cases hf : r._fetchOne with
  | error e =>
    cases hf' : q._fetchOne with
    | error e' => rwa [hf, hf'] at hstep
    | ok out => rw [hf, hf'] at hstep; exact hstep.elim
  | ok out =>
    obtain ⟨answer, r'⟩ := out
    obtain ⟨q', hf', hsame'⟩ := hstep.ok_left hf
    rw [hf']
    exact ⟨rfl, hsame', (startidx_fetchOne hf).trans hr, (startidx_fetchOne hf').trans hq⟩

/-- The skip loop of the next call runs to its end. -/
def KeepsSkipping (r : Reader) : Prop := ∃ r', skipRows r.startidx r = .ok (false, r')

theorem keepsSkipping_of_startidx (h : r.startidx = 0) : Always fetchOne KeepsSkipping r := by
  refine always_of_invariant (I := fun r => r.startidx = 0) (fun r a r' hr hf => ?_)
    (fun r hr => ⟨r, by rw [hr]; rfl⟩) h
  rw [fetchOne_of_startidx hr] at hf
  exact (startidx_fetchOne hf).trans hr

end Reader

/-- The second reader answers like the first, call by call, and its skip loop never gives up. -/
theorem ReplayAt.resumes (h : ReplayAt plog before pe tm mid rest r) (hidx : r.startidx = 0) :
    (∀ m, (calls Reader.fetchOne m (.behind pe tm r.coords.index (mid ++ rest))).map Prod.fst =
      (calls Reader.fetchOne m r).map Prod.fst) ∧
    Always Reader.fetchOne Reader.KeepsSkipping (.behind pe tm r.coords.index (mid ++ rest)) := by
  obtain ⟨q, hskip, hsame⟩ := h.replay
  obtain ⟨q', hskip', hsame'⟩ := Reader.skipRows_same hskip
    (q := .behind pe tm r.coords.index (mid ++ rest)) ⟨rfl, rfl, rfl⟩
  have hidx' : q'.startidx = 0 := Reader.skipRows_startidx hskip' rfl
  have hfirst : (Reader.behind pe tm r.coords.index (mid ++ rest)).fetchOne = q'.fetchOne := by
    rw [Reader.fetchOne_of_startidx hidx', Reader.fetchOne,
      show (Reader.behind pe tm r.coords.index (mid ++ rest)).startidx = r.coords.index from rfl,
      hskip']
  constructor
  · intro m
    cases m with
    | zero => rfl
    | succ m =>
      rw [calls_succ_congr hfirst]
      exact (Reader.fetchOne_sameIdle.calls (m + 1) q' r
        ⟨hsame'.symm.trans hsame, hidx', hidx⟩).answers
  · refine always_iff.mpr ⟨⟨q', hskip'⟩, fun answer r' hf => ?_⟩
    rw [hfirst, Reader.fetchOne_of_startidx hidx'] at hf
    exact Reader.keepsSkipping_of_startidx ((Reader.startidx_fetchOne hf).trans hidx')

end LibBinlog
