import LibBinlog.FileDriver

/-!
# Logs placed in files

Events of a log with the file and offset they start at. An index of 32 bits has to count the rows
behind each table map.
-/

namespace LibBinlog

open Machine Memory

variable {hist : History} {e : List UInt8}

/-! ## Placed events -/

structure PlacedEvent where
  file : List UInt8
  start : ℕ
  bytes : List UInt8
  event : LogEvent

namespace LogEvent

/-- Neither rows nor anything that moves a reader's coordinates. -/
def Quiet : LogEvent → Prop
  | formatDescription _ | unrelated => True
  | _ => False

def isTableMap : LogEvent → Bool
  | tableMap _ => true
  | _ => false

end LogEvent

/-- A table map lies in the file that the last rotate event has named, the first one in `file`, and
its `nextpos` is the offset behind it. Where other events lie does not matter. -/
def LaidOut : List UInt8 → List PlacedEvent → Prop
  | _, [] => True
  | file, pe :: rest =>
    match pe.event with
    | .tableMap tm => pe.file = file ∧ tm.nextpos = pe.start + tm.evlen ∧ LaidOut file rest
    | .rotate rot => LaidOut (cstring rot.fileName) rest
    | _ => LaidOut file rest

/-- The index that the rows in front of the next table map lead to. An event without rows counts as
one row. -/
def lastIndex : List LogEvent → ℕ
  | [] => 0
  | .tableMap _ :: _ => 0
  | .rows _ rev :: log => max 1 rev.binlogRows.length + lastIndex log
  | _ :: log => lastIndex log

/-- Behind each table map there are fewer than `2 ^ 32` rows. -/
def IndexFits (log : List LogEvent) : Prop :=
  ∀ before tm after, log = before ++ .tableMap tm :: after → lastIndex after < 2 ^ 32

/-- Between a table map and the rows events it governs there is no rotate event. -/
def NoRotateInside (log : List LogEvent) : Prop :=
  ∀ before tm mid tableid rev after,
    log = before ++ .tableMap tm :: (mid ++ .rows tableid rev :: after) → tm.tableid = tableid →
      (∀ tm', .tableMap tm' ∈ mid → tm'.tableid ≠ tableid) → ∀ rot, .rotate rot ∉ mid

variable {file : List UInt8} {pe : PlacedEvent} {pes rest : List PlacedEvent} {c : Coords}
  {log log' : List LogEvent}

theorem lastIndex_append (h : ∀ le ∈ log, le.isTableMap = false) :
    lastIndex (log ++ log') = lastIndex log + lastIndex log' := by
  induction log with
  | nil => rw [List.nil_append, lastIndex, zero_add]
  | cons le log ih =>
    obtain ⟨hle, hlog⟩ := List.forall_mem_cons.mp h
    cases le with
    | tableMap tm => cases hle
    | rows tableid rev => rw [List.cons_append, lastIndex, lastIndex, ih hlog, add_assoc]
    | formatDescription | rotate | unrelated => exact ih hlog

/-- Coordinates after several events. -/
def Coords.afterAll (c : Coords) (log : List LogEvent) : Coords := log.foldl Coords.after c

theorem afterAll_cons {le : LogEvent} {log : List LogEvent} :
    c.afterAll (le :: log) = (c.after le).afterAll log := rfl

/-- The file that the next event lies in is the one the coordinates name. -/
theorem LaidOut.drop (h : LaidOut c.logfile (pes ++ rest)) :
    LaidOut (c.afterAll (pes.map PlacedEvent.event)).logfile rest := by
  induction pes generalizing c with
  | nil => exact h
  | cons pe pes ih =>
    rw [List.cons_append, LaidOut] at h
    rw [List.map_cons, afterAll_cons]
    cases hevent : pe.event with
    | tableMap tm => rw [hevent] at h; exact ih h.2.2
    | rows tableid rev => rw [hevent] at h; exact ih h
    | rotate rot => rw [hevent] at h; exact ih h
    | formatDescription hdrlen => rw [hevent] at h; exact ih h
    | unrelated => rw [hevent] at h; exact ih h

theorem afterAll_quiet {log : List LogEvent} (hquiet : ∀ le ∈ log, le.Quiet) :
    c.afterAll log = c := by
  induction log with
  | nil => rfl
  | cons le log ih =>
    have hle := hquiet le List.mem_cons_self
    rw [afterAll_cons]
    cases le with
    | formatDescription | unrelated => exact ih fun le h => hquiet le (List.mem_cons_of_mem _ h)
    | tableMap | rows | rotate => exact hle.elim

/-- Rows, and quiet events in front of them, lie in the file of what follows. -/
theorem LaidOut.behind_rows {prow : PlacedEvent} {tableid : ℕ} {rev : RowsEvent}
    (hquiet : ∀ pe ∈ pes, pe.event.Quiet) (hrow : prow.event = .rows tableid rev)
    (h : LaidOut file (pes ++ prow :: rest)) : LaidOut file rest := by
  have hdrop := LaidOut.drop (c := ⟨none, file, 0, 0⟩) h
  rw [afterAll_quiet (List.forall_mem_map.mpr hquiet), LaidOut, hrow] at hdrop
  exact hdrop

/-- The coordinates a table map gives are the place where it stands. -/
theorem LaidOut.after_tableMap {tm : TableMap} (hevent : pe.event = .tableMap tm)
    (hstart : pe.start < 2 ^ 32) (h : LaidOut c.logfile (pe :: rest)) :
    c.after pe.event = ⟨some tm, pe.file, pe.start, 0⟩ ∧ LaidOut pe.file rest := by
  rw [LaidOut, hevent] at h
  obtain ⟨hfile, hnext, hrest⟩ := h
  have hposition : toUInt32 ((tm.nextpos : ℤ) - tm.evlen) = pe.start :=
    toUInt32_eq (by rw [hnext]; push_cast; ring) hstart
  rw [hevent, Coords.after, hposition, hfile]
  exact ⟨rfl, hrest⟩

theorem Reads.nextpos_lt {tm : TableMap} (h : Reads hist e (.tableMap tm)) :
    tm.nextpos < 2 ^ 32 := by
  obtain ⟨-, hparse⟩ := h (ofBytes e) (holds_ofBytes e)
  obtain ⟨tbl, htbl, rfl⟩ := hparse { Binlog.zero with hdrlen := hist.hdrlen } rfl
  simp only [parseTableMapEvent] at htbl
  split at htbl <;> cases htbl
  exact getUint32_lt _ _

/-- A table map starts below the 32 bits of its `nextpos`. -/
theorem ReadsAll.start_lt {plog : List PlacedEvent}
    (h : ReadsAll hist (plog.map PlacedEvent.bytes) (plog.map PlacedEvent.event))
    (hlaid : LaidOut file plog) : ∀ pe ∈ plog, ∀ tm, pe.event = .tableMap tm →
      pe.start < 2 ^ 32 := by
  induction plog generalizing hist file with
  | nil => exact nofun
  | cons pe plog ih =>
    obtain ⟨hreads, hrest⟩ := h
    rw [LaidOut] at hlaid
    rw [List.forall_mem_cons]
    cases hevent : pe.event with
    | tableMap tm =>
      rw [hevent] at hlaid hreads
      refine ⟨fun tm' htm' => ?_, ih hrest hlaid.2.2⟩
      have hnext := hreads.nextpos_lt
      rw [hlaid.2.1] at hnext
      omega
    | formatDescription hdrlen => rw [hevent] at hlaid; exact ⟨nofun, ih hrest hlaid⟩
    | rows tableid rev => rw [hevent] at hlaid; exact ⟨nofun, ih hrest hlaid⟩
    | rotate rot => rw [hevent] at hlaid; exact ⟨nofun, ih hrest hlaid⟩
    | unrelated => rw [hevent] at hlaid; exact ⟨nofun, ih hrest hlaid⟩

/-- A list has a last element of a kind, or none at all. -/
theorem exists_last {α : Type*} (p : α → Bool) (l : List α) :
    (∀ a ∈ l, p a = false) ∨
      ∃ before a after, l = before ++ a :: after ∧ p a = true ∧ ∀ b ∈ after, p b = false := by
  induction l with
  | nil => exact .inl nofun
  | cons a l ih =>
    obtain hnone | ⟨before, b, after, rfl, hb, hafter⟩ := ih
    · cases ha : p a with
      | true => exact .inr ⟨[], a, l, rfl, ha, hnone⟩
      | false => exact .inl (List.forall_mem_cons.mpr ⟨ha, hnone⟩)
    · exact .inr ⟨a :: before, b, after, rfl, hb, hafter⟩

theorem ReadsAll.drop {hist : History}
    (h : ReadsAll hist ((pes ++ rest).map PlacedEvent.bytes)
      ((pes ++ rest).map PlacedEvent.event)) :
    ReadsAll ((pes.map PlacedEvent.event).foldl History.after hist) (rest.map PlacedEvent.bytes)
      (rest.map PlacedEvent.event) := by
  induction pes generalizing hist with
  | nil => exact h
  | cons pe pes ih => exact ih h.2

end LibBinlog
