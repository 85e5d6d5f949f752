import LibBinlog.Resume
import Mathlib.Data.List.ReduceOption

/-!
# Coordinates at the end of the source

When the source has no event to give, `_fetchOne` sets the index to zero. The position still is that
of the last table map or of the place a rotate event named, so the coordinates lead back behind the
rows that were handed out exactly if there were none since.
-/

namespace LibBinlog

open Machine Memory Calls

variable {σ : Type*} {drv : Driver σ} {feed : Feed drv} {bc bc' bc'' : BinlogClient σ}
  {ds : DataSource σ} {log log' done : List LogEvent} {c c' c₀ : Coords} {r r' : Reader}
  {answer : Option BinlogRow} {le : LogEvent}

/-- Does the event set the position? -/
def LogEvent.isMark : LogEvent → Bool
  | tableMap _ | rotate _ => true
  | _ => false

/-- No rows behind the last event that sets the position. -/
def NothingSinceMark (log : List LogEvent) : Prop :=
  ∀ before tableid rev after, log = before ++ .rows tableid rev :: after →
    (∀ le ∈ after, le.isMark = false) → rev.binlogRows = []

/-- The coordinates without the index. -/
def Coords.place (c : Coords) : Option TableMap × List UInt8 × ℕ := (c.slot, c.logfile, c.position)

theorem place_afterAll (h : c.place = c'.place) :
    (c.afterAll log).place = (c'.afterAll log).place := by
  induction log generalizing c c' with
  | nil => exact h
  | cons le log ih =>
    rw [afterAll_cons, afterAll_cons]
    refine ih ?_
    simp only [Coords.place, Prod.mk.injEq] at h
    cases le <;> simp [Coords.after, Coords.place, h]

theorem afterAll_unmarked (h : ∀ le ∈ log, le.isMark = false) : c.afterAll log = c := by
  induction log with
  | nil => rfl
  | cons le log ih =>
    obtain ⟨hle, hrest⟩ := List.forall_mem_cons.mp h
    rw [afterAll_cons]
    cases le with
    | tableMap | rotate => cases hle
    | formatDescription | rows | unrelated => exact ih hrest

theorem afterAll_append : c.afterAll (log ++ log') = (c.afterAll log).afterAll log' :=
  List.foldl_append

theorem afterAll_slot_ne_none (h : c.slot ≠ none) : (c.afterAll log).slot ≠ none := by
  induction log generalizing c with
  | nil => exact h
  | cons le log ih =>
    rw [afterAll_cons]
    refine ih ?_
    cases le with
    | tableMap tm => exact Option.some_ne_none tm
    | formatDescription | rows | rotate | unrelated => exact h

theorem pull_none_coords (h : pull log c = .ok (none, log', c')) : c' = c.afterAll log := by
  induction log generalizing c with
  | nil =>
    cases h
    rfl
  | cons le log ih =>
    cases hrows : le.rowsEvent with
    | none =>
      rw [pull_other hrows] at h
      exact ih h
    | some rev =>
      obtain ⟨tableid, rfl⟩ := eq_rows_of_rowsEvent hrows
      rw [pull] at h
      split_ifs at h
      cases h

/-! ## Where a reader stands -/

/-- A reader's place is the one that the events it has left behind lead to. -/
structure Walked (c₀ : Coords) (log : List LogEvent) (r : Reader) : Prop where
  walked : ∃ done, log = done ++ r.rest ∧ r.coords.place = (c₀.afterAll done).place
  buffer_eq : r.coords.slot = none → r.buffer = []

theorem Walked.step (h : Walked c₀ log r) (hf : r._fetchOne = .ok (answer, r')) :
    Walked c₀ log r' := by
  obtain ⟨done, hlog, hplace⟩ := h.walked
  obtain ⟨row, rows, hbuffer, rfl, rfl⟩ | ⟨rest, c, hbuffer, hpull, rfl, rfl⟩ |
    ⟨rev, rest, c, hbuffer, hpull, rfl, rfl⟩ := Reader._fetchOne_ok.mp hf
  · refine ⟨⟨done, hlog, hplace⟩, fun hslot => ?_⟩
    rw [h.buffer_eq hslot] at hbuffer
    cases hbuffer
  · obtain ⟨rfl, -⟩ := pull_none hpull
    obtain rfl := pull_none_coords hpull
    refine ⟨⟨log, by simp, ?_⟩, fun _ => hbuffer⟩
    rw [hlog, afterAll_append]
    exact place_afterAll hplace
  · obtain ⟨others, tableid, hrest, -, rfl, hslot⟩ := pull_some_iff.mp hpull
    refine ⟨⟨done ++ (others ++ [.rows tableid rev]), by simp [hlog, hrest], ?_⟩, fun hnone => ?_⟩
    · rw [afterAll_append, afterAll_append]
      exact place_afterAll hplace
    · rw [show (r.coords.afterAll others).slot = none from hnone] at hslot
      cases hslot

theorem Walked.slot_of_row {row : BinlogRow} (h : Walked c₀ log r)
    (hf : r._fetchOne = .ok (some row, r')) : r'.coords.slot ≠ none := by
  obtain ⟨row', rows, hbuffer, -, rfl⟩ | ⟨rest, c, -, -, hnone, -⟩ |
    ⟨rev, rest, c, -, hpull, -, rfl⟩ := Reader._fetchOne_ok.mp hf
  · intro hslot
    rw [h.buffer_eq hslot] at hbuffer
    cases hbuffer
  · cases hnone
  · obtain ⟨others, tableid, -, -, -, hslot⟩ := pull_some_iff.mp hpull
    intro hnone
    rw [show c.slot = none from hnone] at hslot
    cases hslot

theorem slot_step (h : r.coords.slot ≠ none) (hf : r._fetchOne = .ok (answer, r')) :
    r'.coords.slot ≠ none := by
  obtain ⟨row, rows, -, -, rfl⟩ | ⟨rest, c, -, hpull, -, rfl⟩ | ⟨rev, rest, c, -, hpull, -, rfl⟩ :=
    Reader._fetchOne_ok.mp hf
  · exact h
  · obtain rfl := pull_none_coords hpull
    exact afterAll_slot_ne_none h
  · obtain ⟨others, tableid, -, -, rfl, -⟩ := pull_some_iff.mp hpull
    exact afterAll_slot_ne_none h

/-- A reader that has handed out a row. -/
structure HasDelivered (c₀ : Coords) (log : List LogEvent) (r : Reader) : Prop where
  walked : Walked c₀ log r
  slot : r.coords.slot ≠ none
  startidx : r.startidx = 0

theorem Walked.hasDelivered (h : Walked c₀ log r) {n : ℕ} {answers : List (Option BinlogRow)}
    {row : BinlogRow} (hrow : some row ∈ answers)
    (hcalls : calls Reader.fetchOne n r = .ok (answers, r')) : HasDelivered c₀ log r' := by
  have hcongr : ∀ r r', r.Same r' → Walked c₀ log r → Walked c₀ log r' := fun r r' hs h => by
    refine ⟨?_, fun hslot => ?_⟩
    · rw [← hs.coords, ← hs.rest]
      exact h.walked
    · rw [← hs.coords] at hslot
      rw [← hs.buffer]
      exact h.buffer_eq hslot
  have hstep : ∀ r a r', Walked c₀ log r → r._fetchOne = .ok (a, r') → Walked c₀ log r' :=
    fun _ _ _ h hf => h.step hf
  obtain ⟨m, k, as₁, as₂, mid, q, hfront, hfetch, hback⟩ := calls_of_mem hrow hcalls
  have hmid : Walked c₀ log mid := calls_invariant
    (fun _ _ _ hr hf => Reader.fetchOne_invariant hcongr hstep hr hf) h hfront
  obtain ⟨p, hp, hfetch', hidx⟩ := Reader.fetchOne_row hcongr hstep hmid hfetch
  refine calls_invariant (P := HasDelivered c₀ log) (fun r a r' hr hf => ?_)
    ⟨hp.step hfetch', hp.slot_of_row hfetch', hidx⟩ hback
  rw [Reader.fetchOne_of_startidx hr.startidx] at hf
  exact ⟨hr.walked.step hf, slot_step hr.slot hf,
    (Reader.startidx_fetchOne hf).trans hr.startidx⟩

/-- At the end of its log the reader's place is where the last mark leads, with the index zero. -/
theorem HasDelivered.atEnd (h : HasDelivered c₀ log r)
    (hf : r._fetchOne = .ok (none, r')) (hget : ∀ rev q, r.getRowsEvent ≠ .ok (some rev, q)) :
    r'.coords.place = (c₀.afterAll log).place ∧ r'.coords.index = 0 ∧
      (c₀.afterAll log).slot ≠ none := by
  obtain ⟨row, rows, -, hnone, -⟩ | ⟨rest, c, hbuffer, hpull, -, rfl⟩ |
    ⟨rev, rest, c, -, hpull, -, -⟩ := Reader._fetchOne_ok.mp hf
  · cases hnone
  · obtain ⟨done, hlog, hplace⟩ := h.walked.walked
    have hc := pull_none_coords hpull
    have hplace' : c.place = (c₀.afterAll log).place := by
      rw [hc, hlog, afterAll_append]
      exact place_afterAll hplace
    refine ⟨hplace', rfl, ?_⟩
    rw [← show c.slot = (c₀.afterAll log).slot from congrArg Prod.fst hplace', hc]
    exact afterAll_slot_ne_none h.slot
  · exact absurd (by rw [Reader.getRowsEvent, hpull]) (hget rev _)

/-! ## What the coordinates denote -/

variable {plog before after : List PlacedEvent} {pe : PlacedEvent} {position index : ℕ}
  {serverid : ℤ}

/-- A reader that starts at the coordinates reads the events `after`: from a table map on, or behind
a rotate event that names the place. -/
inductive StandsAt (ds : DataSource σ) : List PlacedEvent → List PlacedEvent → Prop
  | tableMap {pe : PlacedEvent} {tm : TableMap} (before after : List PlacedEvent)
      (hevent : pe.event = .tableMap tm) (hlogfile : ds.logfile = pe.file)
      (hposition : ds.position = pe.start) : StandsAt ds before (pe :: after)
  | rotate {pe : PlacedEvent} {rot : RotateEvent} (before after : List PlacedEvent)
      (hevent : pe.event = .rotate rot) (hlogfile : ds.logfile = cstring rot.fileName)
      (hposition : ds.position = rot.position) : StandsAt ds (before ++ [pe]) after

/-- Once all rows of a log have been handed out, the coordinates denote the next one: the index
skips exactly the rows that there are from the position on. -/
def Denotes (plog : List PlacedEvent) (ds : DataSource σ) : Prop :=
  ∃ before after, plog = before ++ after ∧ StandsAt ds before after ∧
    ds.index = (after.flatMap fun pe => pe.event.binlogRows).length

/-- Rotate events name positions of 32 bits. -/
def RotatesFit (plog : List PlacedEvent) : Prop :=
  ∀ pe ∈ plog, ∀ rot, pe.event = .rotate rot → rot.position < 2 ^ 32

theorem LaidOut.after_mark (h : LaidOut c.logfile (pe :: after)) (hmark : pe.event.isMark = true)
    (hstart : ∀ tm, pe.event = .tableMap tm → pe.start < 2 ^ 32)
    (hrotate : ∀ rot, pe.event = .rotate rot → rot.position < 2 ^ 32)
    (before : List PlacedEvent) (hlogfile : ds.logfile = (c.after pe.event).logfile)
    (hposition : ds.position = (c.after pe.event).position) :
    ∃ front back, before ++ pe :: after = front ++ back ∧ StandsAt ds front back ∧
      (back.flatMap fun pe => pe.event.binlogRows) =
        after.flatMap fun pe => pe.event.binlogRows := by
  cases hevent : pe.event with
  | tableMap tm =>
    obtain ⟨hafter, -⟩ := h.after_tableMap hevent (hstart tm hevent)
    rw [hafter] at hlogfile hposition
    refine ⟨before, pe :: after, rfl, .tableMap before after hevent hlogfile hposition, ?_⟩
    rw [List.flatMap_cons, hevent]
    rfl
  | rotate rot =>
    rw [hevent] at hlogfile hposition
    refine ⟨before ++ [pe], after, by simp, .rotate before after hevent hlogfile ?_, rfl⟩
    exact hposition.trans (toUInt32_natCast (hrotate rot hevent))
  | formatDescription | rows | unrelated =>
    rw [hevent] at hmark
    cases hmark

theorem StandsAt.rows_after (h : StandsAt ds before after) {front back : List LogEvent}
    {tableid : ℕ} {rev : RowsEvent}
    (hsplit : (before ++ after).map PlacedEvent.event = front ++ .rows tableid rev :: back)
    (hback : ∀ le ∈ back, le.isMark = false) :
    .rows tableid rev ∈ after.map PlacedEvent.event := by
  rw [List.map_append] at hsplit
  obtain ⟨rest, -, hrest⟩ | ⟨rest, hbefore, hafter⟩ := List.append_eq_append_iff.mp hsplit
  · rw [hrest]
    simp
  cases rest with
  | nil =>
    rw [← show _ = after.map PlacedEvent.event from hafter]
    exact List.mem_cons_self
  | cons le rest =>
    rw [List.cons_append, List.cons.injEq] at hafter
    obtain ⟨rfl, rfl⟩ := hafter
    -- a mark behind the rows would stand in `back`
    cases h with
    | tableMap before after hevent hlogfile hposition =>
      have hmark := hback _ (List.mem_append_right rest List.mem_cons_self)
      rw [hevent] at hmark
      cases hmark
    | rotate before after hevent hlogfile hposition =>
      rw [List.map_append, List.map_singleton, hevent] at hbefore
      obtain rfl | ⟨rest', last, rfl⟩ := List.eq_nil_or_concat' rest
      · obtain ⟨-, hlast⟩ := List.append_inj' hbefore rfl
        cases hlast
      · rw [← List.cons_append, ← List.append_assoc] at hbefore
        obtain ⟨-, hlast⟩ := List.append_inj' hbefore rfl
        have hmark := hback last (by simp)
        rw [← List.singleton_inj.mp hlast] at hmark
        cases hmark

theorem length_flatMap_binlogRows_eq_zero :
    (after.flatMap fun pe => pe.event.binlogRows).length = 0 ↔
      ∀ le ∈ after.map PlacedEvent.event, le.binlogRows = [] := by
  rw [List.length_eq_zero_iff, List.flatMap_eq_nil_iff, List.forall_mem_map]

/-- Coordinates with index zero at the last mark of a log denote the next row exactly if there are
no rows behind that mark. -/
theorem denotes_iff (hlaid : LaidOut c₀.logfile plog)
    (hstart : ∀ pe ∈ plog, ∀ tm, pe.event = .tableMap tm → pe.start < 2 ^ 32)
    (hrotates : RotatesFit plog) (hslot : c₀.slot = none)
    (hmapped : (c₀.afterAll (plog.map PlacedEvent.event)).slot ≠ none)
    (hlogfile : ds.logfile = (c₀.afterAll (plog.map PlacedEvent.event)).logfile)
    (hposition : ds.position = (c₀.afterAll (plog.map PlacedEvent.event)).position)
    (hindex : ds.index = 0) :
    Denotes plog ds ↔ NothingSinceMark (plog.map PlacedEvent.event) := by
  constructor
  · rintro ⟨before, after, rfl, hstands, hcount⟩ front tableid rev back hsplit hback
    rw [hindex, eq_comm, length_flatMap_binlogRows_eq_zero] at hcount
    exact hcount _ (hstands.rows_after hsplit hback)
  · intro hnothing
    obtain hnone | ⟨before, pe, after, rfl, hmark, hafter⟩ :=
      exists_last (fun pe : PlacedEvent => pe.event.isMark) plog
    · exact absurd (by rw [afterAll_unmarked (List.forall_mem_map.mpr hnone), hslot]) hmapped
    have hat := hlaid.drop
    have hpe : pe ∈ before ++ pe :: after := List.mem_append_right before List.mem_cons_self
    rw [List.map_append, List.map_cons, afterAll_append, afterAll_cons,
      afterAll_unmarked (List.forall_mem_map.mpr hafter)] at hlogfile hposition
    obtain ⟨front, back, hsplit, hstands, hrows⟩ := hat.after_mark hmark (hstart pe hpe)
      (hrotates pe hpe) before hlogfile hposition
    refine ⟨front, back, hsplit, hstands, ?_⟩
    rw [hindex, hrows, eq_comm, length_flatMap_binlogRows_eq_zero]
    intro le hle
    cases hevent : le.rowsEvent with
    | none => exact binlogRows_other hevent
    | some rev =>
      obtain ⟨tableid, rfl⟩ := eq_rows_of_rowsEvent hevent
      obtain ⟨mid, back', hmid⟩ := List.append_of_mem hle
      refine hnothing ((before.map PlacedEvent.event) ++ pe.event :: mid) tableid rev back'
        (by simp [hmid]) fun le' hle' => ?_
      have hmem : le' ∈ after.map PlacedEvent.event := by
        rw [hmid]
        exact List.mem_append_right mid (List.mem_cons_of_mem _ hle')
      obtain ⟨pe', hpe', rfl⟩ := List.mem_map.mp hmem
      exact hafter pe' hpe'

/-! ## Clients -/

theorem AsksInVain.not_rows (h : AsksInVain drv bc) (rev : RowsEvent) (bc' : BinlogClient σ) :
    getRowsEvent drv bc ≠ .ok (some rev, bc') := by
  induction h with
  | asks hget =>
    rw [getRowsEvent]
    split
    · simp
    · split
      · simp
      · split <;> simp
    · simp_all
  | skips hget hon hrest ih =>
    rw [getRowsEvent_next hget hon]
    exact ih

theorem Fresh.denotes_iff {n : ℕ} {answers : List (Option BinlogRow)} {row : BinlogRow}
    (hfresh : Fresh bc index)
    (hfeed : feed.Delivers (plog.map PlacedEvent.bytes) bc.dataSource.driver bc.dataSource.errstr)
    (hlog : ReadsAll .start (plog.map PlacedEvent.bytes) (plog.map PlacedEvent.event))
    (hlaid : LaidOut bc.dataSource.logfile plog) (hrotates : RotatesFit plog)
    (hcalls : calls (fetchOne drv) n bc = .ok (answers, bc')) (hrow : some row ∈ answers)
    (hnull : fetchOne drv bc' = .ok (none, bc'')) (hasks : AsksInVain drv bc') :
    Denotes plog bc''.dataSource ↔ NothingSinceMark (plog.map PlacedEvent.event) := by
  have hrep := represents_fresh hfresh hfeed hlog
  obtain ⟨r', hreader, hrep'⟩ := (fetchOne_simulates.calls n bc _ hrep).ok_left hcalls
  obtain ⟨r'', hnull', hrep''⟩ := (fetchOne_simulates bc' r' hrep').ok_left hnull
  have hstart : Walked bc.dataSource.coords (plog.map PlacedEvent.event)
      (.fresh bc.dataSource.coords index (plog.map PlacedEvent.event)) :=
    ⟨⟨[], rfl, rfl⟩, fun _ => rfl⟩
  have hdelivered := hstart.hasDelivered hrow hreader
  rw [Reader.fetchOne_of_startidx hdelivered.startidx] at hnull'
  have hget : ∀ rev q, r'.getRowsEvent ≠ .ok (some rev, q) := fun rev q hrev => by
    obtain ⟨bc₃, hclient, -⟩ := (getRowsEvent_simulates bc' r' hrep').ok_right hrev
    exact hasks.not_rows rev bc₃ hclient
  obtain ⟨hplace, hindex, hslot⟩ := hdelivered.atEnd hnull' hget
  rw [Coords.place, Coords.place, Prod.mk.injEq, Prod.mk.injEq] at hplace
  exact LibBinlog.denotes_iff hlaid (hlog.start_lt hlaid) hrotates rfl hslot
    (hrep''.coords.logfile.trans hplace.2.1) (hrep''.coords.position.trans hplace.2.2)
    (hrep''.coords.index.trans hindex)

/-- When a client has handed out rows and then gets no event from its source, its coordinates denote
the first row that was not delivered exactly if no rows came behind the last table map or rotate
event. -/
theorem fetchOne_denotes_iff {n : ℕ} {answers : List (Option BinlogRow)} {row : BinlogRow}
    (hconn : connectDataSource drv (some ds) position index serverid = .ok (.ok bc))
    (hfeed : feed.Delivers (plog.map PlacedEvent.bytes) bc.dataSource.driver bc.dataSource.errstr)
    (hlog : ReadsAll .start (plog.map PlacedEvent.bytes) (plog.map PlacedEvent.event))
    (hlaid : LaidOut bc.dataSource.logfile plog) (hrotates : RotatesFit plog)
    (hcalls : calls (fetchOne drv) n bc = .ok (answers, bc')) (hrow : some row ∈ answers)
    (hnull : fetchOne drv bc' = .ok (none, bc'')) (hasks : AsksInVain drv bc') :
    Denotes plog bc''.dataSource ↔ NothingSinceMark (plog.map PlacedEvent.event) :=
  (connectDataSource_ok hconn).1.denotes_iff hfeed hlog hlaid hrotates hcalls hrow hnull hasks

/-- The client of a master that is opened at the sample's table map. -/
theorem master_runsDry (plog : List PlacedEvent)
    (hopened : (masterDriver sampleFDE.bytes plog).connect
      { sampleMaster sampleName with position := 158, index := 0, serverid := 1 } =
        .ok (true, { sampleOpened with driver := plog.map PlacedEvent.bytes }))
    (hreads : ReadsAll .start (plog.map PlacedEvent.bytes) (plog.map PlacedEvent.event))
    (hhonest : EndHonest none (plog.map PlacedEvent.event))
    (hgov : LastMapGoverns none (plog.map PlacedEvent.event))
    (hrows : 0 < ((plog.map PlacedEvent.event).flatMap LogEvent.binlogRows).length) :
    ∃ bc n answers bc' bc'' row, connectDataSource (masterDriver sampleFDE.bytes plog)
        (some (sampleMaster sampleName)) 158 0 1 = .ok (.ok bc) ∧
      bc.dataSource = { sampleOpened with driver := plog.map PlacedEvent.bytes } ∧
      calls (fetchOne (masterDriver sampleFDE.bytes plog)) n bc = .ok (answers, bc') ∧
      some row ∈ answers ∧
      fetchOne (masterDriver sampleFDE.bytes plog) bc' = .ok (none, bc'') ∧
      AsksInVain (masterDriver sampleFDE.bytes plog) bc' := by
  obtain ⟨hconn, hfresh⟩ := connectDataSource_of_connect 158 0 hopened
  have hfeed : (masterFeed sampleFDE.bytes plog).Delivers (plog.map PlacedEvent.bytes)
      (plog.map PlacedEvent.bytes) sampleOpened.errstr := ⟨rfl, .nil⟩
  have hrep := represents_fresh hfresh hfeed hreads
  obtain ⟨n, answers, bc', bc'', hcalls, hanswers, hnull, hasks⟩ := hrep.runsDry hhonest hgov
  obtain ⟨row, hrow⟩ := List.exists_mem_of_length_pos hrows
  rw [← hanswers] at hrow
  exact ⟨_, n, answers, bc', bc'', row, hconn, rfl, hcalls, List.reduceOption_mem_iff.mp hrow,
    hnull,
    hasks⟩

/-- A further table map of the sample table. -/
def laterTableMap : TableMapEvent := placedTableMap 300 (nullRowsFields 0).header.nextpos_lt

/-- The sample log, and then a table map without rows. -/
def markedPlaced : List PlacedEvent :=
  samplePlaced ++ [⟨sampleName, 258, laterTableMap.bytes, .tableMap laterTableMap.content⟩]

theorem markedPlaced_reads : ReadsAll .start (markedPlaced.map PlacedEvent.bytes)
    (markedPlaced.map PlacedEvent.event) :=
  ⟨sampleFDE.reads, sampleTableMap.reads rfl rfl, nullRows_reads rfl rfl 2 (by norm_num),
    laterTableMap.reads rfl rfl, trivial⟩

theorem markedPlaced_laidOut : LaidOut sampleName markedPlaced :=
  ⟨rfl, by decide, rfl, by decide, trivial⟩

theorem rotatesFit_of_not_mem (h : ∀ rot, .rotate rot ∉ plog.map PlacedEvent.event) :
    RotatesFit plog :=
  fun _ hpe rot hevent => absurd (List.mem_map.mpr ⟨_, hpe, hevent⟩) (h rot)

theorem markedPlaced_nothing : NothingSinceMark (markedPlaced.map PlacedEvent.event) := by
  intro before tableid rev after hsplit hafter
  rcases before with _ | ⟨x, _ | ⟨y, _ | ⟨z, _ | ⟨w, before⟩⟩⟩⟩
  · cases hsplit
  · cases hsplit
  · cases hsplit
    cases hafter _ List.mem_cons_self
  · cases hsplit
  · simp [markedPlaced, samplePlaced] at hsplit

theorem fetchOne_denotes_sample : ∃ bc n answers bc' bc'',
    connectDataSource (masterDriver sampleFDE.bytes markedPlaced) (some (sampleMaster sampleName))
        158 0 1 = .ok (.ok bc) ∧
      calls (fetchOne (masterDriver sampleFDE.bytes markedPlaced)) n bc = .ok (answers, bc') ∧
      fetchOne (masterDriver sampleFDE.bytes markedPlaced) bc' = .ok (none, bc'') ∧
      Denotes markedPlaced bc''.dataSource := by
  have hrows := nrows_decoded_nullRows 2 (by decide)
  obtain ⟨bc, n, answers, bc', bc'', row, hconn, hds, hcalls, hrow, hnull, hasks⟩ :=
    master_runsDry markedPlaced rfl markedPlaced_reads
      ⟨List.ne_nil_of_length_pos (Nat.two_pos.trans_eq hrows.symm), trivial⟩ ⟨rfl, trivial⟩
      (by decide)
  have hfeed : (masterFeed sampleFDE.bytes markedPlaced).Delivers
      (markedPlaced.map PlacedEvent.bytes) bc.dataSource.driver bc.dataSource.errstr := by
    rw [hds]
    exact ⟨rfl, .nil⟩
  exact ⟨bc, n, answers, bc', bc'', hconn, hcalls, hnull, (fetchOne_denotes_iff hconn hfeed
    markedPlaced_reads (by rw [hds]; exact markedPlaced_laidOut)
    (rotatesFit_of_not_mem (by simp [markedPlaced, samplePlaced, nullRowsEvent]))
    hcalls hrow hnull hasks).mpr
      markedPlaced_nothing⟩

/-- With the two rows handed out, the index zero does not skip them. -/
theorem sample_not_denotes : ∃ bc n answers bc' bc'' row,
    connectDataSource (masterDriver sampleFDE.bytes samplePlaced) (some (sampleMaster sampleName))
        158 0 1 = .ok (.ok bc) ∧
      calls (fetchOne (masterDriver sampleFDE.bytes samplePlaced)) n bc = .ok (answers, bc') ∧
      some row ∈ answers ∧
      fetchOne (masterDriver sampleFDE.bytes samplePlaced) bc' = .ok (none, bc'') ∧
      AsksInVain (masterDriver sampleFDE.bytes samplePlaced) bc' ∧
      ¬Denotes samplePlaced bc''.dataSource := by
  have hrows := nrows_decoded_nullRows 2 (by decide)
  obtain ⟨bc, n, answers, bc', bc'', row, hconn, hds, hcalls, hrow, hnull, hasks⟩ :=
    master_runsDry samplePlaced rfl samplePlaced_reads samplePlaced_honest ⟨rfl, trivial⟩
      (by decide)
  have hfeed : (masterFeed sampleFDE.bytes samplePlaced).Delivers
      (samplePlaced.map PlacedEvent.bytes) bc.dataSource.driver bc.dataSource.errstr := by
    rw [hds]
    exact ⟨rfl, .nil⟩
  refine ⟨bc, n, answers, bc', bc'', row, hconn, hcalls, hrow, hnull, hasks, fun hdenotes => ?_⟩
  have hnothing := ((connectDataSource_ok hconn).1.denotes_iff hfeed samplePlaced_reads
    (by rw [hds]; exact samplePlaced_laidOut)
    (rotatesFit_of_not_mem (by simp [samplePlaced, nullRowsEvent])) hcalls hrow hnull hasks).mp
      hdenotes
  have hempty := hnothing [.formatDescription 19, .tableMap sampleTableMap.content] 7
    (nullRows 2 (by decide)).decoded [] rfl (List.forall_mem_nil _)
  rw [hempty] at hrows
  cases hrows

end LibBinlog
