import LibBinlog.Delivery

/-!
# NULL at the end and before it

`fetchOne` gives NULL when its source has no event to give, and also when the rows event it has just
taken brings no rows. The first kind sets the error, the second looks like an end and is none. A
client signals the end only at the end exactly if every rows event it gets to has rows.
-/

namespace LibBinlog

open Machine Memory Calls

variable {σ : Type*} {drv : Driver σ} {feed : Feed drv} {bc : BinlogClient σ} {ds : DataSource σ}
  {stream : List (List UInt8)} {log log' : List LogEvent} {position index : ℕ} {serverid : ℤ}
  {le : LogEvent} {c c' : Coords} {rev : RowsEvent} {r r' : Reader}

/-- Every rows event has rows, up to the first one that follows the table map of another table; from
that one on there are no rows. -/
def EndHonest : Option TableMap → List LogEvent → Prop
  | _, [] => True
  | slot, .rows tableid rev :: log =>
    if slot.map TableMap.tableid = some tableid then rev.binlogRows ≠ [] ∧ EndHonest slot log
    else rev.binlogRows = [] ∧ log.flatMap LogEvent.binlogRows = []
  | _, .tableMap tm :: log => EndHonest (some tm) log
  | slot, _ :: log => EndHonest slot log

theorem endHonest_other (h : le.rowsEvent = none) :
    EndHonest c.slot (le :: log) ↔ EndHonest (c.after le).slot log := by
  cases le <;> first | exact Iff.rfl | cases h

theorem EndHonest.pull_some (h : EndHonest c.slot log)
    (hpull : pull log c = .ok (some rev, log', c')) :
    rev.binlogRows ≠ [] ∧ EndHonest c'.slot log' := by
  induction log generalizing c with
  | nil => cases hpull
  | cons le log ih =>
    cases hrows : le.rowsEvent with
    | none =>
      rw [pull_other hrows] at hpull
      exact ih ((endHonest_other hrows).mp h) hpull
    | some rev' =>
      obtain ⟨tableid, rfl⟩ := eq_rows_of_rowsEvent hrows
      rw [pull] at hpull
      rw [EndHonest] at h
      split_ifs at hpull h
      cases hpull
      exact h

theorem EndHonest.pull_error {e : Fault} (h : EndHonest c.slot log)
    (hpull : pull log c = .error e) : log.flatMap LogEvent.binlogRows = [] := by
  induction log generalizing c with
  | nil => rfl
  | cons le log ih =>
    cases hrows : le.rowsEvent with
    | none =>
      rw [pull_other hrows] at hpull
      rw [List.flatMap_cons, binlogRows_other hrows]
      exact ih ((endHonest_other hrows).mp h) hpull
    | some rev' =>
      obtain ⟨tableid, rfl⟩ := eq_rows_of_rowsEvent hrows
      rw [pull] at hpull
      rw [EndHonest] at h
      split_ifs at hpull h
      rw [List.flatMap_cons, show (LogEvent.rows tableid rev').binlogRows = [] from h.1, h.2]
      rfl

namespace Reader

/-- NULL comes with an error, and no row is held back. -/
structure SignalsEnd (r : Reader) : Prop where
  err : ∀ r', r.fetchOne = .ok (none, r') → r'.err ≠ 0
  row : r.pending ≠ [] → ∃ row r', r.fetchOne = .ok (some row, r')

/-- A reader with an honest log stays one. -/
def OnHonestLog (r : Reader) : Prop := r.startidx = 0 ∧ EndHonest r.coords.slot r.rest

theorem OnHonestLog.fetchOne_eq (h : r.OnHonestLog) : r.fetchOne = r._fetchOne :=
  fetchOne_of_startidx h.1

theorem OnHonestLog.step {answer : Option BinlogRow} (h : r.OnHonestLog)
    (hf : r._fetchOne = .ok (answer, r')) : r'.OnHonestLog := by
  refine ⟨(startidx_fetchOne hf).trans h.1, ?_⟩
  obtain ⟨row, rows, -, -, rfl⟩ | ⟨log, c, -, hpull, -, rfl⟩ | ⟨rev, log, c, -, hpull, -, rfl⟩ :=
    _fetchOne_ok.mp hf
  · exact h.2
  · obtain ⟨rfl, -⟩ := pull_none hpull
    trivial
  · exact (h.2.pull_some hpull).2

theorem OnHonestLog.fetchOne_none (h : r.OnHonestLog) (hf : r._fetchOne = .ok (none, r')) :
    r.buffer = [] ∧ r.pending = [] ∧ r'.err = 1 ∧ ∃ r'', r.getRowsEvent = .ok (none, r'') := by
  obtain ⟨row, rows, -, hnone, -⟩ | ⟨log, c, hbuffer, hpull, -, rfl⟩ |
    ⟨rev, log, c, -, hpull, hnone, -⟩ := _fetchOne_ok.mp hf
  · cases hnone
  · refine ⟨hbuffer, ?_, rfl, _, by rw [getRowsEvent, hpull]⟩
    rw [pending, hbuffer, (pull_none hpull).2]
    rfl
  · exact absurd (List.head?_eq_none_iff.mp hnone.symm) (h.2.pull_some hpull).1

theorem OnHonestLog.fetchOne_some (h : r.OnHonestLog) (hpending : r.pending ≠ []) :
    ∃ row r', r._fetchOne = .ok (some row, r') := by
  cases hf : r._fetchOne with
  | error e =>
    obtain ⟨hbuffer, hpull⟩ := _fetchOne_error.mp hf
    exact absurd (by rw [pending, hbuffer, h.2.pull_error hpull]; rfl) hpending
  | ok out =>
    obtain ⟨answer, r'⟩ := out
    cases answer with
    | some row => exact ⟨row, r', rfl⟩
    | none => exact absurd (h.fetchOne_none hf).2.1 hpending

theorem OnHonestLog.signalsEnd (h : r.OnHonestLog) : r.SignalsEnd where
  err r' hf := by
    rw [h.fetchOne_eq] at hf
    rw [(h.fetchOne_none hf).2.2.1]
    exact one_ne_zero
  row hpending := by
    rw [h.fetchOne_eq]
    exact h.fetchOne_some hpending

/-- A log that is not honest shows: some call gives NULL without an error, or no row although there
are some. -/
theorem endHonest_of_signalsEnd (log : List LogEvent) (c : Coords) (buffer : List BinlogRow)
    (h : Always fetchOne SignalsEnd ⟨c, log, buffer, 0, 0⟩) : EndHonest c.slot log := by
  induction log generalizing c buffer with
  | nil => trivial
  | cons le log ih =>
    induction buffer generalizing c with
    | cons row rows ihbuffer =>
      exact ihbuffer c.incrIndex ((always_iff.mp h).2 (some row) _ rfl)
    | nil =>
      cases hrows : le.rowsEvent with
      | none =>
        have hnext := fetchOne_other c log hrows 0
        have hpending := pending_other c log hrows 0
        obtain ⟨hsignals, hrest⟩ := always_iff.mp h
        refine (endHonest_other hrows).mpr (ih (c.after le) [] (always_iff.mpr ⟨⟨?_, ?_⟩, ?_⟩))
        · rw [← hnext]
          exact hsignals.err
        · rw [← hnext, ← hpending]
          exact hsignals.row
        · rw [← hnext]
          exact hrest
      | some rev =>
        obtain ⟨tableid, rfl⟩ := eq_rows_of_rowsEvent hrows
        obtain ⟨hsignals, hrest⟩ := always_iff.mp h
        rw [fetchOne_of_startidx rfl] at hrest
        rw [EndHonest]
        split_ifs with hslot
        · have hf : _fetchOne ⟨c, .rows tableid rev :: log, [], 0, 0⟩ =
              .ok (rev.binlogRows.head?, ⟨c.incrIndex, log, rev.binlogRows.tail, 0, 0⟩) :=
            _fetchOne_ok.mpr (.inr (.inr ⟨rev, log, c, rfl, by rw [pull, if_pos hslot], rfl, rfl⟩))
          refine ⟨fun hempty => ?_, ih c.incrIndex _ (hrest _ _ hf)⟩
          rw [hempty, List.head?_nil] at hf
          exact hsignals.err _ ((fetchOne_of_startidx rfl).trans hf) rfl
        · have hf : _fetchOne ⟨c, .rows tableid rev :: log, [], 0, 0⟩ = .error .assertion :=
            _fetchOne_error.mpr ⟨rfl, by rw [pull, if_neg hslot]⟩
          by_contra hsome
          obtain ⟨row, r', hrow⟩ := hsignals.row fun hnil =>
            hsome (List.append_eq_nil_iff.mp hnil)
          rw [fetchOne_of_startidx rfl, hf] at hrow
          cases hrow

theorem signalsEnd_iff (log : List LogEvent) (c : Coords) :
    Always fetchOne SignalsEnd ⟨c, log, [], 0, 0⟩ ↔ EndHonest c.slot log := by
  refine ⟨endHonest_of_signalsEnd log c [], fun h => ?_⟩
  exact always_of_invariant (I := OnHonestLog)
    (fun r a r' hr hf => hr.step (by rwa [← hr.fetchOne_eq])) (fun r hr => hr.signalsEnd) ⟨rfl, h⟩

end Reader

/-! ## Clients -/

/-- The loop of `getRowsEvent` comes to a call of `getEvent` that gives NULL. -/
inductive AsksInVain (drv : Driver σ) : BinlogClient σ → Prop
  | asks {bc : BinlogClient σ} {ds : DataSource σ}
      (hget : drv.getEvent bc.dataSource = .ok (none, ds)) : AsksInVain drv bc
  | skips {bc bc' : BinlogClient σ} {ds : DataSource σ} {ev : Mem}
      (hget : drv.getEvent bc.dataSource = .ok (some ev, ds))
      (hon : onEvent { bc with dataSource := ds } ev = .ok (none, bc'))
      (hrest : AsksInVain drv bc') : AsksInVain drv bc

theorem asksInVain_of_getRowsEvent {bc' : BinlogClient σ}
    (h : getRowsEvent drv bc = .ok (none, bc')) : AsksInVain drv bc := by
  fun_induction getRowsEvent drv bc with
  | case1 | case2 | case4 | case5 | case6 => cases h
  | case3 bc ds hget => exact .asks hget
  | case7 bc ev ds hget bc'' hon ih => exact .skips hget hon (ih h)

/-- `fetchOne` gives NULL only after `getEvent` has given NULL in the same call, and then sets the
error; and it gives a row while the source has one that was not delivered. -/
structure SignalsEnd (drv : Driver σ) (bc : BinlogClient σ) (pending : ℕ) : Prop where
  asked : ∀ bc', fetchOne drv bc = .ok (none, bc') →
    (bc._cur = bc._lenRows ∧ AsksInVain drv bc) ∧ bc'.err ≠ 0
  row : 0 < pending → ∃ row bc', fetchOne drv bc = .ok (some row, bc')

theorem Represents.signalsEnd (h : Represents feed bc r) (hr : r.OnHonestLog) :
    SignalsEnd drv bc r.pending.length where
  asked bc' hf := by
    obtain ⟨r', hreader, h'⟩ := (fetchOne_simulates bc r h).ok_left hf
    have herr := hr.signalsEnd.err r' hreader
    rw [hr.fetchOne_eq] at hreader
    obtain ⟨hbuffer, -, -, r'', hget⟩ := hr.fetchOne_none hreader
    obtain ⟨bc'', hclient, -⟩ := (getRowsEvent_simulates bc r h).ok_right hget
    exact ⟨⟨h.buffer.nil_iff.mpr hbuffer, asksInVain_of_getRowsEvent hclient⟩, h'.err ▸ herr⟩
  row hpending := by
    obtain ⟨row, r', hreader⟩ := hr.signalsEnd.row (List.ne_nil_of_length_pos hpending)
    obtain ⟨bc', hclient, -⟩ := (fetchOne_simulates bc r h).ok_right hreader
    exact ⟨row, bc', hclient⟩

theorem Represents.reader_signalsEnd (h : Represents feed bc r)
    (hsignals : SignalsEnd drv bc r.pending.length) : r.SignalsEnd where
  err r' hreader := by
    obtain ⟨bc', hclient, h'⟩ := (fetchOne_simulates bc r h).ok_right hreader
    exact h'.err ▸ (hsignals.asked bc' hclient).2
  row hpending := by
    obtain ⟨row, bc', hclient⟩ := hsignals.row (List.length_pos_iff.mpr hpending)
    obtain ⟨r', hreader, -⟩ := (fetchOne_simulates bc r h).ok_left hclient
    exact ⟨row, r', hreader⟩

/-- A client on an honest log without foreign table maps hands out every row, and then NULL for want
of events. -/
theorem Represents.runsDry {c : Coords} {log : List LogEvent}
    (h : Represents feed bc ⟨c, log, [], 0, 0⟩) (hhonest : EndHonest c.slot log)
    (hgov : LastMapGoverns c.slot log) : ∃ n answers bc' bc'',
      calls (fetchOne drv) n bc = .ok (answers, bc') ∧
      answers.reduceOption = log.flatMap LogEvent.binlogRows ∧
      fetchOne drv bc' = .ok (none, bc'') ∧ AsksInVain drv bc' := by
  obtain ⟨n, answers, r', hreader, hrows⟩ := Reader.runsDry log c [] 0 hgov
  obtain ⟨bc', hclient, h'⟩ := (fetchOne_simulates.calls n bc _ h).ok_right hreader
  obtain ⟨hpending, -, hidx⟩ := Reader.pending_calls rfl hreader
  rw [hrows, List.self_eq_append_right] at hpending
  have hr' : r'.OnHonestLog := calls_invariant (P := Reader.OnHonestLog)
    (fun r a r'' hr hf => hr.step (by rwa [← hr.fetchOne_eq])) ⟨rfl, hhonest⟩ hreader
  obtain ⟨answers', r'', hnext⟩ := Reader.calls_ok (r := ⟨c, log, [], 0, 0⟩) rfl hgov (n + 1)
  obtain ⟨as, mid, answer, hrun, hlast, -⟩ := calls_snoc_ok.mp hnext
  obtain ⟨-, rfl⟩ := Prod.mk.inj (Except.ok.inj (hreader.symm.trans hrun))
  have hnone : answer = none := by
    rw [Reader.fetchOne_of_startidx hidx] at hlast
    have hsplit := Reader.pending_fetchOne hlast
    rw [hpending] at hsplit
    cases answer with
    | none => rfl
    | some row => cases hsplit
  rw [hnone] at hlast
  obtain ⟨bc'', hnull, -⟩ := (fetchOne_simulates bc' r' h').ok_right hlast
  exact ⟨n, answers, bc', bc'', hclient, hrows, hnull, ((h'.signalsEnd hr').asked bc'' hnull).1.2⟩

/-- In every state that a client reaches, with the rows of the log that it has not delivered. -/
def AlwaysSignalsEnd (drv : Driver σ) (bc : BinlogClient σ) (log : List LogEvent) : Prop :=
  ∀ n answers bc', calls (fetchOne drv) n bc = .ok (answers, bc') → SignalsEnd drv bc'
    ((log.flatMap LogEvent.binlogRows).length - answers.reduceOption.length)

theorem Fresh.alwaysSignalsEnd_iff (h : Fresh bc 0)
    (hfeed : feed.Delivers stream bc.dataSource.driver bc.dataSource.errstr)
    (hlog : ReadsAll .start stream log) : AlwaysSignalsEnd drv bc log ↔ EndHonest none log := by
  have hrep := represents_fresh h hfeed hlog
  have hpending {n answers r'} (hc : calls Reader.fetchOne n (.fresh bc.dataSource.coords 0 log) =
      .ok (answers, r')) : (log.flatMap LogEvent.binlogRows).length - answers.reduceOption.length =
        r'.pending.length := by
    have hrows : log.flatMap LogEvent.binlogRows = answers.reduceOption ++ r'.pending :=
      (Reader.pending_calls rfl hc).1
    rw [hrows, List.length_append, Nat.add_sub_cancel_left]
  refine Iff.trans ?_ (Reader.signalsEnd_iff log bc.dataSource.coords)
  constructor
  · intro hclient n answers r' hc
    obtain ⟨bc', hc', h'⟩ := (fetchOne_simulates.calls n bc _ hrep).ok_right hc
    exact h'.reader_signalsEnd (hpending hc ▸ hclient n answers bc' hc')
  · intro hreader n answers bc' hc
    obtain ⟨r', hc', h'⟩ := (fetchOne_simulates.calls n bc _ hrep).ok_left hc
    have hhonest := (Reader.signalsEnd_iff log bc.dataSource.coords).mp hreader
    have hr' : r'.OnHonestLog := calls_invariant (P := Reader.OnHonestLog)
      (fun r a r'' hr hf => hr.step (by rwa [← hr.fetchOne_eq])) ⟨rfl, hhonest⟩ hc'
    exact hpending hc' ▸ h'.signalsEnd hr'

/-- A client that starts at index 0 signals the end only at the end, in every state it reaches,
exactly if the log is honest about it. -/
theorem fetchOne_alwaysSignalsEnd_iff
    (hconn : connectDataSource drv (some ds) position 0 serverid = .ok (.ok bc))
    (hfeed : feed.Delivers stream bc.dataSource.driver bc.dataSource.errstr)
    (hlog : ReadsAll .start stream log) : AlwaysSignalsEnd drv bc log ↔ EndHonest none log :=
  (connectDataSource_ok hconn).1.alwaysSignalsEnd_iff hfeed hlog

theorem nrows_decoded_nullRows (n : ℕ) (hn : n < 2 ^ 31 - 29) :
    (nullRows n hn).decoded.binlogRows.length = n := by
  simp [RowsImageEvent.decoded, RowsEvent.binlogRows, nullRows, nullRowsFields, RowsBody.rows,
    RowsBody.rowsold]

theorem fetchOne_alwaysSignalsEnd_sample : ∃ bc,
    connectDataSource fileDriver (some (sampleFile sampleStream)) 4 0 1 = .ok (.ok bc) ∧
      AlwaysSignalsEnd fileDriver bc sampleLog := by
  obtain ⟨bc, hconn, hfeed, -⟩ := connectDataSource_file sampleMagic
    (ascii "binlog.000001") rfl sized_sampleStream (fun _ _ => 0) 4 0 1
  have hrows := nrows_decoded_nullRows 1 (by decide)
  refine ⟨bc, hconn, (fetchOne_alwaysSignalsEnd_iff hconn hfeed sampleLog_reads).mpr ?_⟩
  exact ⟨List.ne_nil_of_length_pos (Nat.one_pos.trans_eq hrows.symm), trivial⟩

/-- A rows event without rows, and one with a row behind it. -/
def emptyFirstStream : List (List UInt8) :=
  [sampleFDE.bytes, sampleTableMap.bytes, (nullRows 0 (by decide)).bytes,
    (nullRows 1 oneRow_lt).bytes]

def emptyFirstLog : List LogEvent :=
  [.formatDescription 19, .tableMap sampleTableMap.content, nullRowsEvent 0 (by decide),
    nullRowsEvent 1 oneRow_lt]

theorem emptyFirstLog_reads : ReadsAll .start emptyFirstStream emptyFirstLog :=
  ⟨sampleFDE.reads, sampleTableMap.reads rfl rfl, nullRows_reads rfl rfl 0 (by norm_num),
    nullRows_reads rfl rfl 1 (by norm_num), trivial⟩

theorem sized_emptyFirstStream : ∀ e ∈ emptyFirstStream, Sized e := by
  intro e he
  have hsample := sized_sampleStream e
  simp only [emptyFirstStream, sampleStream, List.mem_cons, List.not_mem_nil, or_false]
    at he hsample
  rcases he with h | h | rfl | h
  · exact hsample (.inl h)
  · exact hsample (.inr (.inl h))
  · exact sized_eventBytes (nullRows 0 (by decide)).size_lt
  · exact hsample (.inr (.inr h))

theorem emptyFirst_not_alwaysSignalsEnd : ReadsAll .start emptyFirstStream emptyFirstLog ∧ ∃ bc,
    connectDataSource fileDriver (some (sampleFile emptyFirstStream)) 4 0 1 = .ok (.ok bc) ∧
      ¬AlwaysSignalsEnd fileDriver bc emptyFirstLog := by
  obtain ⟨bc, hconn, hfeed, -⟩ := connectDataSource_file sampleMagic
    (ascii "binlog.000001") rfl sized_emptyFirstStream (fun _ _ => 0) 4 0 1
  refine ⟨emptyFirstLog_reads, bc, hconn, fun hsignals => ?_⟩
  obtain ⟨hrows, -⟩ := ((connectDataSource_ok hconn).1.alwaysSignalsEnd_iff hfeed
    emptyFirstLog_reads).mp hsignals
  exact hrows (List.eq_nil_of_length_eq_zero (nrows_decoded_nullRows 0 (by decide)))

end LibBinlog
