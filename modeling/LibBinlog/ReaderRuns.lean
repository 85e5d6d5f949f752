import LibBinlog.Lib.Calls
import LibBinlog.Log

/-!
# Runs of a reader

What a reader has still to hand out is its buffer and the rows of the rest of its log. A call takes
at most the first of these rows, whatever events stand in between, and a reader whose log keeps each
rows event behind its own table map never stops with a fault.
-/

namespace LibBinlog

open Machine Calls

variable {r r' : Reader} {log log' : List LogEvent} {c c' : Coords} {le : LogEvent}
  {rev : RowsEvent}

/-- The last table map in front of each rows event, whatever its id, carries the event's id. -/
def LastMapGoverns : Option TableMap → List LogEvent → Prop
  | _, [] => True
  | slot, .rows tableid _ :: log =>
    slot.map TableMap.tableid = some tableid ∧ LastMapGoverns slot log
  | _, .tableMap tm :: log => LastMapGoverns (some tm) log
  | slot, _ :: log => LastMapGoverns slot log

theorem pull_other (h : le.rowsEvent = none) : pull (le :: log) c = pull log (c.after le) := by
  cases le <;> first | rfl | cases h

theorem lastMapGoverns_other (h : le.rowsEvent = none) :
    LastMapGoverns c.slot (le :: log) ↔ LastMapGoverns (c.after le).slot log := by
  cases le <;> first | exact Iff.rfl | cases h

theorem binlogRows_other (h : le.rowsEvent = none) : le.binlogRows = [] := by
  cases le <;> first | rfl | cases h

theorem eq_rows_of_rowsEvent (h : le.rowsEvent = some rev) : ∃ tableid, le = .rows tableid rev := by
  cases le <;> cases h
  exact ⟨_, rfl⟩

theorem pull_none (h : pull log c = .ok (none, log', c')) :
    log' = [] ∧ log.flatMap LogEvent.binlogRows = [] := by
  induction log generalizing c with
  | nil =>
    cases h
    exact ⟨rfl, rfl⟩
  | cons le log ih =>
    cases hrows : le.rowsEvent with
    | none =>
      rw [pull_other hrows] at h
      rw [List.flatMap_cons, binlogRows_other hrows]
      exact ih h
    | some rev =>
      obtain ⟨tableid, rfl⟩ := eq_rows_of_rowsEvent hrows
      rw [pull] at h
      split_ifs at h
      cases h

theorem pull_some (h : pull log c = .ok (some rev, log', c')) :
    log.flatMap LogEvent.binlogRows = rev.binlogRows ++ log'.flatMap LogEvent.binlogRows := by
  induction log generalizing c with
  | nil => cases h
  | cons le log ih =>
    cases hrows : le.rowsEvent with
    | none =>
      rw [pull_other hrows] at h
      rw [List.flatMap_cons, binlogRows_other hrows]
      exact ih h
    | some rev' =>
      obtain ⟨tableid, rfl⟩ := eq_rows_of_rowsEvent hrows
      rw [pull] at h
      split_ifs at h
      cases h
      rfl

theorem pull_suffix {answer : Option RowsEvent} (h : pull log c = .ok (answer, log', c')) :
    log' <:+ log := by
  induction log generalizing c with
  | nil =>
    cases h
    exact List.suffix_rfl
  | cons le log ih =>
    cases hrows : le.rowsEvent with
    | none =>
      rw [pull_other hrows] at h
      exact (ih h).trans (List.suffix_cons le log)
    | some rev =>
      obtain ⟨tableid, rfl⟩ := eq_rows_of_rowsEvent hrows
      rw [pull] at h
      split_ifs at h
      cases h
      exact List.suffix_cons _ _

theorem pull_ok (h : LastMapGoverns c.slot log) : ∃ answer log' c',
    pull log c = .ok (answer, log', c') ∧ LastMapGoverns c'.slot log' := by
  induction log generalizing c with
  | nil => exact ⟨none, [], c, rfl, trivial⟩
  | cons le log ih =>
    cases hrows : le.rowsEvent with
    | none =>
      rw [pull_other hrows]
      exact ih ((lastMapGoverns_other hrows).mp h)
    | some rev =>
      obtain ⟨tableid, rfl⟩ := eq_rows_of_rowsEvent hrows
      exact ⟨some rev, log, c, by rw [pull, if_pos h.1], h.2⟩

/-! ## Rows events in order -/

theorem getRowsEvent_calls_iff (r : Reader) :
    (∃ r', calls Reader.getRowsEvent (r.rest.filterMap LogEvent.rowsEvent).length r =
      .ok ((r.rest.filterMap LogEvent.rowsEvent).map some, r')) ↔
      LastMapGoverns r.coords.slot r.rest := by
  obtain ⟨c, log, buffer, startidx, err⟩ := r
  induction log generalizing c with
  | nil => exact ⟨fun _ => trivial, fun _ => ⟨_, rfl⟩⟩
  | cons le log ih =>
    cases hrows : le.rowsEvent with
    | none =>
      have hnext : Reader.getRowsEvent ⟨c, le :: log, buffer, startidx, err⟩ =
          Reader.getRowsEvent ⟨c.after le, log, buffer, startidx, err⟩ := by
        rw [Reader.getRowsEvent, pull_other hrows]
        rfl
      rw [List.filterMap_cons_none hrows, lastMapGoverns_other hrows, ← ih]
      cases (log.filterMap LogEvent.rowsEvent) with
      | nil => exact ⟨fun _ => ⟨_, rfl⟩, fun _ => ⟨_, rfl⟩⟩
      | cons rev revs =>
        simp only [List.length_cons, calls_succ_ok, hnext]
    | some rev =>
      obtain ⟨tableid, rfl⟩ := eq_rows_of_rowsEvent hrows
      rw [List.filterMap_cons_some hrows, List.length_cons, LastMapGoverns, ← ih]
      simp only [List.map_cons, calls_succ_ok, Reader.getRowsEvent, pull]
      split_ifs with hslot
      · simp [hslot]
      · simp [hslot]

/-! ## Rows in order -/

namespace Reader

/-- The rows that are still to be handed out. -/
def pending (r : Reader) : List BinlogRow := r.buffer ++ r.rest.flatMap LogEvent.binlogRows

/-- What one call can do: hand out a buffered row, find the end of the log, or refill the buffer. -/
theorem _fetchOne_ok {answer : Option BinlogRow} : r._fetchOne = .ok (answer, r') ↔
    (∃ row rows, r.buffer = row :: rows ∧ answer = some row ∧
      r' = { r with buffer := rows, coords := r.coords.incrIndex }) ∨
    (∃ log c, r.buffer = [] ∧ pull r.rest r.coords = .ok (none, log, c) ∧ answer = none ∧
      r' = { r with rest := log, coords := { c with index := 0 }, err := 1 }) ∨
    ∃ rev log c, r.buffer = [] ∧ pull r.rest r.coords = .ok (some rev, log, c) ∧
      answer = rev.binlogRows.head? ∧
      r' = { r with rest := log, coords := c.incrIndex, buffer := rev.binlogRows.tail } := by
  obtain ⟨c, rest, buffer, startidx, err⟩ := r
  cases buffer with
  | cons row rows => simp [_fetchOne, take, eq_comm]
  | nil =>
    cases hpull : pull rest c with
    | error e => simp [_fetchOne, getRowsEvent, hpull]
    | ok out =>
      obtain ⟨answer', log, c'⟩ := out
      cases answer' <;> simp [_fetchOne, getRowsEvent, hpull, take, eq_comm]

theorem _fetchOne_error {e : Fault} :
    r._fetchOne = .error e ↔ r.buffer = [] ∧ pull r.rest r.coords = .error e := by
  obtain ⟨c, rest, buffer, startidx, err⟩ := r
  cases buffer with
  | cons row rows => simp [_fetchOne]
  | nil =>
    cases hpull : pull rest c with
    | error e' => simp [_fetchOne, getRowsEvent, hpull]
    | ok out =>
      obtain ⟨answer, log, c'⟩ := out
      cases answer <;> simp [_fetchOne, getRowsEvent, hpull]

/-- A call hands out the first pending row or none at all. -/
theorem pending_fetchOne {answer : Option BinlogRow} (h : r._fetchOne = .ok (answer, r')) :
    r.pending = answer.toList ++ r'.pending := by
  obtain ⟨row, rows, hbuffer, rfl, rfl⟩ | ⟨log, c, hbuffer, hpull, rfl, rfl⟩ |
    ⟨rev, log, c, hbuffer, hpull, rfl, rfl⟩ := _fetchOne_ok.mp h
  · rw [pending, hbuffer]
    rfl
  · obtain ⟨rfl, hnone⟩ := pull_none hpull
    rw [pending, pending, hbuffer, hnone]
    rfl
  · rw [pending, pending, hbuffer, pull_some hpull]
    cases rev.binlogRows <;> rfl

theorem fetchOne_of_startidx (h : r.startidx = 0) : r.fetchOne = r._fetchOne := by
  rw [fetchOne, h]
  rfl

theorem startidx_fetchOne {answer : Option BinlogRow} (h : r._fetchOne = .ok (answer, r')) :
    r'.startidx = r.startidx := by
  obtain ⟨row, rows, -, -, rfl⟩ | ⟨log, c, -, -, -, rfl⟩ | ⟨rev, log, c, -, -, -, rfl⟩ :=
    _fetchOne_ok.mp h <;> rfl

theorem rest_fetchOne {answer : Option BinlogRow} (h : r._fetchOne = .ok (answer, r')) :
    r'.rest <:+ r.rest := by
  obtain ⟨row, rows, -, -, rfl⟩ | ⟨log, c, -, hpull, -, rfl⟩ | ⟨rev, log, c, -, hpull, -, rfl⟩ :=
    _fetchOne_ok.mp h
  · exact List.suffix_rfl
  · exact pull_suffix hpull
  · exact pull_suffix hpull

/-- Nothing is lost, repeated or reordered over any number of calls. -/
theorem pending_calls (hr : r.startidx = 0) {n : ℕ} {answers : List (Option BinlogRow)}
    (h : calls fetchOne n r = .ok (answers, r')) :
    r.pending = answers.reduceOption ++ r'.pending ∧ r'.rest <:+ r.rest ∧ r'.startidx = 0 := by
  induction n generalizing r answers with
  | zero =>
    cases h
    exact ⟨rfl, List.suffix_rfl, hr⟩
  | succ n ih =>
    obtain ⟨answer, mid, rest, hfetch, hcalls, rfl⟩ := calls_succ_ok.mp h
    rw [fetchOne_of_startidx hr] at hfetch
    obtain ⟨hrest, hsuffix, hidx⟩ := ih ((startidx_fetchOne hfetch).trans hr) hcalls
    refine ⟨?_, hsuffix.trans (rest_fetchOne hfetch), hidx⟩
    rw [pending_fetchOne hfetch, hrest]
    cases answer <;> rfl

theorem fetchOne_ok (h : LastMapGoverns r.coords.slot r.rest) : ∃ answer r',
    r._fetchOne = .ok (answer, r') ∧ LastMapGoverns r'.coords.slot r'.rest := by
  cases hbuffer : r.buffer with
  | cons row rows =>
    exact ⟨_, _, _fetchOne_ok.mpr (.inl ⟨row, rows, hbuffer, rfl, rfl⟩), h⟩
  | nil =>
    obtain ⟨answer, log, c, hpull, hgov⟩ := pull_ok h
    cases answer with
    | none =>
      exact ⟨_, _, _fetchOne_ok.mpr (.inr (.inl ⟨log, c, hbuffer, hpull, rfl, rfl⟩)), hgov⟩
    | some rev =>
      exact ⟨_, _, _fetchOne_ok.mpr (.inr (.inr ⟨rev, log, c, hbuffer, hpull, rfl, rfl⟩)), hgov⟩

theorem calls_ok (hr : r.startidx = 0) (h : LastMapGoverns r.coords.slot r.rest) (n : ℕ) :
    ∃ answers r', calls fetchOne n r = .ok (answers, r') := by
  induction n generalizing r with
  | zero => exact ⟨[], r, rfl⟩
  | succ n ih =>
    obtain ⟨answer, mid, hfetch, hgov⟩ := fetchOne_ok h
    obtain ⟨answers, r', hcalls⟩ := ih ((startidx_fetchOne hfetch).trans hr) hgov
    rw [← fetchOne_of_startidx hr] at hfetch
    exact ⟨answer :: answers, r', calls_succ_ok.mpr ⟨answer, mid, answers, hfetch, hcalls, rfl⟩⟩

/-- With an empty buffer, an event without rows is passed over. -/
theorem fetchOne_other (c : Coords) (log : List LogEvent) (h : le.rowsEvent = none) (err : ℤ) :
    fetchOne ⟨c, le :: log, [], 0, err⟩ = fetchOne ⟨c.after le, log, [], 0, err⟩ := by
  rw [fetchOne_of_startidx rfl, fetchOne_of_startidx rfl, _fetchOne, _fetchOne]
  simp only [getRowsEvent, pull_other h]

theorem pending_other (c : Coords) (log : List LogEvent) (h : le.rowsEvent = none) (err : ℤ) :
    pending ⟨c, le :: log, [], 0, err⟩ = pending ⟨c.after le, log, [], 0, err⟩ := by
  simp only [pending, List.flatMap_cons, binlogRows_other h, List.nil_append]

/-- A reader that returns from every call never meets a rows event of another table map. -/
theorem lastMapGoverns_of_calls (log : List LogEvent) (c : Coords) (buffer : List BinlogRow)
    (err : ℤ)
    (h : ∀ n, ∃ answers r', calls fetchOne n ⟨c, log, buffer, 0, err⟩ = .ok (answers, r')) :
    LastMapGoverns c.slot log := by
  have hnext {r q : Reader} {answer : Option BinlogRow} (hf : r.fetchOne = .ok (answer, q))
      (hr : ∀ n, ∃ answers r', calls fetchOne n r = .ok (answers, r')) (n : ℕ) :
      ∃ answers r', calls fetchOne n q = .ok (answers, r') := by
    obtain ⟨answers, r', hcalls⟩ := hr (n + 1)
    obtain ⟨answer', q', answers', hf', hrest, -⟩ := calls_succ_ok.mp hcalls
    obtain ⟨-, rfl⟩ := Prod.mk.inj (Except.ok.inj (hf.symm.trans hf'))
    exact ⟨answers', r', hrest⟩
  induction log generalizing c buffer with
  | nil => trivial
  | cons le log ih =>
    induction buffer generalizing c with
    | cons row rows ihbuffer => exact ihbuffer c.incrIndex (hnext rfl h)
    | nil =>
      cases hrows : le.rowsEvent with
      | none =>
        refine (lastMapGoverns_other hrows).mpr (ih (c.after le) [] fun n => ?_)
        cases n with
        | zero => exact ⟨[], _, rfl⟩
        | succ n =>
          obtain ⟨answers, r', hcalls⟩ := h (n + 1)
          exact ⟨answers, r', (calls_succ_congr (fetchOne_other c log hrows err)).symm.trans hcalls⟩
      | some rev =>
        obtain ⟨tableid, rfl⟩ := eq_rows_of_rowsEvent hrows
        have hslot : c.slot.map TableMap.tableid = some tableid := by
          by_contra hslot
          have hfault : fetchOne ⟨c, .rows tableid rev :: log, [], 0, err⟩ = .error .assertion :=
            (fetchOne_of_startidx rfl).trans
              (_fetchOne_error.mpr ⟨rfl, by rw [pull, if_neg hslot]⟩)
          obtain ⟨answers, r', hcalls⟩ := h 1
          rw [calls, hfault] at hcalls
          cases hcalls
        have hf : fetchOne ⟨c, .rows tableid rev :: log, [], 0, err⟩ =
            .ok (rev.binlogRows.head?, ⟨c.incrIndex, log, rev.binlogRows.tail, 0, err⟩) :=
          (fetchOne_of_startidx rfl).trans (_fetchOne_ok.mpr
            (.inr (.inr ⟨rev, log, c, rfl, by rw [pull, if_pos hslot], rfl, rfl⟩)))
        exact ⟨hslot, ih c.incrIndex _ (hnext hf h)⟩

/-- Some number of calls hands out all pending rows. -/
def RunsDry (r : Reader) : Prop :=
  ∃ n answers r', calls fetchOne n r = .ok (answers, r') ∧ answers.reduceOption = r.pending

theorem runsDry_of_fetchOne (hr : r.startidx = 0) {answer : Option BinlogRow}
    (hf : r._fetchOne = .ok (answer, r')) (h : r'.RunsDry) : r.RunsDry := by
  obtain ⟨n, answers, q, hcalls, hrows⟩ := h
  refine ⟨n + 1, answer :: answers, q, calls_succ_ok.mpr
    ⟨answer, r', answers, (fetchOne_of_startidx hr).trans hf, hcalls, rfl⟩, ?_⟩
  rw [pending_fetchOne hf, ← hrows]
  cases answer <;> rfl

theorem runsDry (log : List LogEvent) (c : Coords) (buffer : List BinlogRow) (err : ℤ)
    (h : LastMapGoverns c.slot log) : RunsDry ⟨c, log, buffer, 0, err⟩ := by
  induction log generalizing c buffer with
  | nil =>
    induction buffer generalizing c with
    | nil => exact ⟨0, [], _, rfl, rfl⟩
    | cons row rows ih => exact runsDry_of_fetchOne rfl rfl (ih c.incrIndex h)
  | cons le log ih =>
    induction buffer generalizing c with
    | cons row rows ihbuffer => exact runsDry_of_fetchOne rfl rfl (ihbuffer c.incrIndex h)
    | nil =>
      cases hrows : le.rowsEvent with
      | none =>
        obtain ⟨n, answers, q, hcalls, hdry⟩ :=
          ih (c.after le) [] ((lastMapGoverns_other hrows).mp h)
        have hpending := pending_other c log hrows err
        cases n with
        | zero =>
          cases hcalls
          exact ⟨0, [], _, rfl, hdry.trans hpending.symm⟩
        | succ n =>
          exact ⟨n + 1, answers, q,
            (calls_succ_congr (fetchOne_other c log hrows err)).trans hcalls,
            hdry.trans hpending.symm⟩
      | some rev =>
        obtain ⟨tableid, rfl⟩ := eq_rows_of_rowsEvent hrows
        have hf : _fetchOne ⟨c, .rows tableid rev :: log, [], 0, err⟩ =
            .ok (rev.binlogRows.head?, ⟨c.incrIndex, log, rev.binlogRows.tail, 0, err⟩) :=
          _fetchOne_ok.mpr (.inr (.inr ⟨rev, log, c, rfl, by rw [pull, if_pos h.1], rfl, rfl⟩))
        exact runsDry_of_fetchOne rfl hf (ih c.incrIndex _ h.2)

end Reader

end LibBinlog
