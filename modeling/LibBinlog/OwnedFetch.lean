import LibBinlog.OwnedClient

/-!
# What fetching does to the memory

Every call of the client takes the blocks that it owns to those that it owns afterwards and to those
of the row that it hands over, and does on values what the client without the memory does.
-/

namespace LibBinlog.Owned

open Machine Memory Ledger

variable {σ : Type} {drv : BufferingDriver σ} {bc : HeldClient σ} {s : Multiset Block}

/-! ## Events -/

/-- A new block for an event belongs to this; without an event it is lost. -/
theorem getEvent_tracks (drv : BufferingDriver σ) (bc : HeldClient σ) (s : Multiset Block) :
    Tracks (bc.blocks + s) (getEvent drv bc) (drv.getEvent bc.dataSource)
      (fun b a => b.1 = a.1 ∧ ∃ newbuf lost,
        b.2 = { bc with dataSource := a.2, newbuf := newbuf, lost := lost })
      fun b => b.2.blocks + b.1.elim 0 (fun _ => (b.2.newbuf.toList : Multiset Block)) + s := by
  apply Tracks.lift_bind
  · intro e he
    exact he
  rintro ⟨ev, ds⟩ hget
  apply (tracks_allocs _ _).then rfl
  intro lost _
  have hblocks (newbuf : Option Block) : ↑lost + (bc.blocks + s) =
      { bc with dataSource := ds, newbuf := newbuf, lost := lost ++ bc.lost }.blocks + s := by
    simp only [HeldClient.blocks, HeldClient.fixedBlocks, HeldClient.unfetched, HeldClient.slots,
      ← Multiset.coe_add]
    abel
  dsimp only
  cases hnewbuf : drv.newbuf bc.dataSource with
  | kept =>
    cases ev with
    | some ev => exact absurd hnewbuf (drv.newbuf_set hget)
    | none =>
      refine tracks_pure _ hget ⟨rfl, bc.newbuf, _, rfl⟩ ((hblocks bc.newbuf).trans ?_)
      exact congrArg (· + s) (add_zero _).symm
  | null =>
    refine tracks_pure _ hget ⟨rfl, _, _, rfl⟩ ((hblocks none).trans ?_)
    cases ev <;> exact congrArg (· + s) (add_zero _).symm
  | malloc =>
    apply (tracks_alloc _).then rfl
    intro block _
    refine tracks_pure _ hget ⟨rfl, _, _, rfl⟩ ?_
    rw [hblocks (some block)]
    cases ev with
    | none =>
      simp only [HeldClient.blocks, HeldClient.fixedBlocks, HeldClient.unfetched, HeldClient.slots,
        Option.elim_none, Option.isSome_none, Bool.false_eq_true, if_false, ← Multiset.cons_coe,
        ← Multiset.singleton_add]
      abel
    | some ev =>
      simp only [HeldClient.blocks, HeldClient.fixedBlocks, HeldClient.unfetched, HeldClient.slots,
        Option.elim_some, Option.isSome_some, if_true, Option.toList_some, Multiset.coe_singleton]
      abel

theorem parseFDE_eq (bl : HeldBinlog) (ev : Mem) :
    LibBinlog.parseFDE bl.erase ev = (parseFDE bl ev).map HeldBinlog.erase := by
  unfold parseFDE
  cases hfde : LibBinlog.parseFDE bl.erase ev with
  | error e => rfl
  | ok fde =>
    have htable : fde.table = bl.erase.table := by
      unfold LibBinlog.parseFDE at hfde
      dsimp only at hfde
      split_ifs at hfde
      cases hfde
      rfl
    simp only [Except.map, HeldBinlog.erase] at htable ⊢
    rw [← htable]

theorem parseFDE_table {bl bl' : HeldBinlog} {ev : Mem} (h : parseFDE bl ev = .ok bl') :
    bl'.table = bl.table := by
  obtain ⟨fde, -, rfl⟩ := Calls.map_ok.mp h
  rfl

/-- The parser's state that a round goes on with. -/
theorem binlogFor_eq (bl : HeldBinlog) (ev : Mem) (c : Prop) [Decidable c] :
    (if c then LibBinlog.parseFDE bl.erase ev else .ok bl.erase) =
      (if c then parseFDE bl ev else .ok bl).map HeldBinlog.erase := by
  split_ifs
  · exact parseFDE_eq bl ev
  · rfl

/-- What a round keeps of a client. -/
structure SameBuffer (bc bc' : HeldClient σ) : Prop where
  eq : ∃ bl ds newbuf lost err errstr, bc' = { bc with
    binlog := bl, dataSource := ds, newbuf := newbuf, lost := lost, err := err, errstr := errstr }
  keeps : bc.binlog.Keeps bc'.binlog

theorem SameBuffer.trans {bc₁ bc₂ bc₃ : HeldClient σ} (h : SameBuffer bc₁ bc₂)
    (h' : SameBuffer bc₂ bc₃) : SameBuffer bc₁ bc₃ := by
  have hkeeps : bc₁.binlog.Keeps bc₃.binlog := fun htable => h'.keeps (h.keeps htable)
  obtain ⟨_, _, _, _, _, _, rfl⟩ := h.eq
  obtain ⟨_, _, _, _, _, _, rfl⟩ := h'.eq
  exact ⟨⟨_, _, _, _, _, _, rfl⟩, hkeeps⟩

theorem SameBuffer.holds {bc' : HeldClient σ} {rows : List HeldBinlogRow} (h : SameBuffer bc bc')
    (hholds : bc.Holds rows) : bc'.Holds rows := by
  have hmapped (br : HeldBinlogRow) (hbr : br ∈ rows) :
      Mapped bc'.binlog br.row.cells.length := (hholds.mapped br hbr).keeps h.keeps
  obtain ⟨_, _, _, _, _, _, rfl⟩ := h.eq
  exact ⟨hholds.cur_le, hholds.lenRows_le, hholds.slots, hholds.fits, hmapped⟩

theorem SameBuffer.rows {bc' : HeldClient σ} (h : SameBuffer bc bc') : bc'._rows = bc._rows := by
  obtain ⟨_, _, _, _, _, _, rfl⟩ := h.eq
  rfl

/-- The blocks of a client whose table map is another one. -/
theorem blocks_binlog (bc : HeldClient σ) (bl : HeldBinlog) (ds : DataSource σ) :
    bl.blocks + bc.blocks =
      bc.binlog.blocks + { bc with binlog := bl, dataSource := ds }.blocks := by
  simp only [HeldClient.blocks, HeldClient.fixedBlocks, HeldClient.unfetched, HeldClient.slots]
  abel

theorem binlog_blocks_le (bc : HeldClient σ) : bc.binlog.blocks ≤ bc.blocks := by
  have hswap := blocks_binlog bc .zero bc.dataSource
  rw [show HeldBinlog.zero.blocks = 0 from rfl, zero_add] at hswap
  rw [hswap]
  exact Multiset.le_add_right _ _

/-- A round. Rows that it brings are handed on. -/
theorem onEvent_tracks (bc : HeldClient σ) (ev : Mem) (s : Multiset Block) :
    Tracks (bc.blocks + s) (onEvent bc ev) (LibBinlog.onEvent bc.erase ev)
      (fun b a => b.1.map HeldRowsEvent.erase = a.1 ∧ b.2.erase = a.2 ∧
        (∀ rev, b.1 = some rev → rev.Fits ∧ Mapped b.2.binlog rev.nfields) ∧
        (∃ bl ds, b.2 = { bc with binlog := bl, dataSource := ds } ∧
          ds.driver = bc.dataSource.driver) ∧ bc.binlog.Keeps b.2.binlog)
      fun b => b.2.blocks + b.1.elim 0 HeldRowsEvent.blocks + s := by
  unfold onEvent LibBinlog.onEvent
  dsimp only
  rw [show bc.erase.binlog = bc.binlog.erase from rfl, binlogFor_eq]
  apply Tracks.lift_bind
  · intro e he
    rw [he]
    rfl
  intro bl hbl
  have htable : bl.table = bc.binlog.table := by
    split_ifs at hbl
    · exact parseFDE_table hbl
    · rw [Except.ok.inj hbl]
  have hkeeps : bc.binlog.Keeps bl := fun hsome => htable ▸ hsome
  have hblocks : bl.blocks = bc.binlog.blocks := by rw [HeldBinlog.blocks, htable]; rfl
  have hsame (ds : DataSource σ) :
      { bc with binlog := bl, dataSource := ds }.blocks = bc.blocks := by
    have hswap := blocks_binlog bc bl ds
    rw [hblocks] at hswap
    exact (add_left_cancel hswap).symm
  rw [hbl]
  simp only [Except.map]
  split_ifs with hmap hrows hrotate
  · have hrest : bl.blocks + ({ bc with binlog := .zero }.blocks + s) = bc.blocks + s := by
      have hswap := blocks_binlog bc .zero bc.dataSource
      rw [hblocks, ← add_assoc, ← hswap]
      exact congrArg (· + s) (zero_add _)
    rw [← hrest]
    apply (parseTableMapEvent_tracks bl ev _).bind
    · intro e he
      rw [he]
    rintro ⟨tblev, ptrs⟩ _ rfl htbl
    rw [htbl]
    refine tracks_pure _ rfl
      ⟨rfl, rfl, fun rev hrev => (by cases hrev), ⟨_, _, rfl, rfl⟩, fun _ => rfl⟩ ?_
    have hswap := blocks_binlog { bc with binlog := .zero } { bl with table := some (tblev, ptrs) }
      { bc.dataSource with position := toUInt32 (tblev.nextpos - tblev.evlen), index := 0 }
    rw [show HeldBinlog.zero.blocks = 0 from rfl, zero_add] at hswap
    rw [Option.elim_none, add_zero, ← hswap, ← add_assoc]
    rfl
  · have hle : bl.blocks ≤ bc.blocks + s := by
      rw [hblocks]
      exact (binlog_blocks_le bc).trans (Multiset.le_add_right _ _)
    apply (parseRowsEvent_tracks hle ev).bind
    · intro e he
      rw [he]
    rintro rev _ ⟨rfl, hfits, hmap⟩ hrev
    rw [hrev]
    refine tracks_pure _ rfl
      ⟨rfl, rfl, fun rev' hrev' => Option.some.inj hrev' ▸ ⟨hfits, hmap⟩, ⟨_, _, rfl, rfl⟩,
        hkeeps⟩ ?_
    have hsame' := hsame bc.dataSource
    dsimp only [Option.elim_some] at hsame' ⊢
    rw [hsame']
    abel
  · apply Tracks.lift_bind
    · intro e he
      rw [he]
    intro rotate hrot
    rw [hrot]
    refine tracks_pure _ rfl
      ⟨rfl, rfl, fun rev hrev => (by cases hrev), ⟨_, _, rfl, rfl⟩, hkeeps⟩ ?_
    rw [hsame, Option.elim_none, add_zero]
  · refine tracks_pure _ rfl
      ⟨rfl, rfl, fun rev hrev => (by cases hrev), ⟨bl, bc.dataSource, rfl, rfl⟩, hkeeps⟩ ?_
    rw [Option.elim_none, add_zero]
    exact congrArg (· + s) (hsame bc.dataSource).symm

/-! ## The next event with rows -/

theorem getRowsEvent_of_error {drv : Driver σ} {bc : BinlogClient σ} {e : Fault}
    (h : drv.getEvent bc.dataSource = .error e) : LibBinlog.getRowsEvent drv bc = .error e := by
  rw [LibBinlog.getRowsEvent]
  split <;> simp_all

/-- An error text that does not print is a memory fault. -/
theorem getRowsEvent_of_unprintable {drv : Driver σ} {bc : BinlogClient σ} {ds : DataSource σ}
    (h : drv.getEvent bc.dataSource = .ok (none, ds))
    (htext : ∀ text, sprintf255 ds.errstr = some text → errorSize ≤ text.length) :
    LibBinlog.getRowsEvent drv bc = .error .memory := by
  rw [LibBinlog.getRowsEvent]
  split
  · simp_all
  · next ds' hget =>
    cases h.symm.trans hget
    split
    · rfl
    · next text hprints => exact if_neg (not_lt.mpr (htext text hprints))
  · simp_all

/-- The rounds are enough for all events that are left. -/
theorem getRowsEventRounds_tracks (bc : HeldClient σ) (rounds : ℕ) (s : Multiset Block)
    (hrounds : drv.unread bc.dataSource.driver < rounds) :
    Tracks (bc.blocks + s) (getRowsEventRounds drv rounds bc)
      (LibBinlog.getRowsEvent drv.toDriver bc.erase)
      (fun b a => b.1.map HeldRowsEvent.erase = a.1 ∧ b.2.erase = a.2 ∧
        (∀ rev, b.1 = some rev → rev.Fits ∧ Mapped b.2.binlog rev.nfields) ∧ SameBuffer bc b.2)
      fun b => b.2.blocks + b.1.elim 0 HeldRowsEvent.blocks + s := by
  induction rounds generalizing bc with
  | zero => exact absurd hrounds (Nat.not_lt_zero _)
  | succ rounds ih =>
    unfold getRowsEventRounds
    apply (getEvent_tracks drv bc s).bind
    · intro e he
      exact getRowsEvent_of_error he
    rintro ⟨ev, bc₁⟩ ⟨ev', ds⟩ ⟨hev, newbuf, lost, hbc₁⟩ hget
    dsimp only at hev hbc₁ ⊢
    subst hev
    have hsame₁ : SameBuffer bc bc₁ := by
      rw [hbc₁]
      exact ⟨⟨_, _, _, _, _, _, rfl⟩, id⟩
    have herase₁ : bc₁.erase = { bc.erase with dataSource := ds } := by rw [hbc₁]; rfl
    have hds : bc₁.dataSource = ds := by rw [hbc₁]
    cases ev with
    | none =>
      dsimp only
      rw [hds]
      cases htext : sprintf255 ds.errstr with
      | none =>
        apply tracks_throw
        apply getRowsEvent_of_unprintable hget
        intro text hprints
        rw [htext] at hprints
        cases hprints
      | some text =>
        dsimp only
        split_ifs with hlen
        · refine tracks_pure _ (getRowsEvent_end hget htext hlen)
            ⟨rfl, ?_, fun rev hrev => (by cases hrev), ?_⟩ rfl
          · rw [hbc₁]
            rfl
          · rw [hbc₁]
            exact ⟨⟨_, _, _, _, _, _, rfl⟩, id⟩
        · apply tracks_throw
          apply getRowsEvent_of_unprintable hget
          intro text' hprints
          rw [htext] at hprints
          cases hprints
          exact not_lt.mp hlen
    | some ev =>
      dsimp only [Option.elim_some]
      rw [add_assoc]
      apply (onEvent_tracks bc₁ ev _).bind
      · intro e he
        rw [herase₁] at he
        exact getRowsEvent_fault hget he
      rintro ⟨rev, bc₂⟩ ⟨rev', bc₂'⟩ ⟨hrev, herase₂, hfits, ⟨bl, ds₂, hbc₂, hdriver⟩, hkeeps⟩ hon
      dsimp only at hrev herase₂ hfits hbc₂ hkeeps ⊢
      rw [herase₁] at hon
      have hsame₂ : SameBuffer bc bc₂ :=
        hsame₁.trans ⟨⟨bl, ds₂, _, _, _, _, hbc₂⟩, hkeeps⟩
      have hnewbuf : bc₂.newbuf = bc₁.newbuf := by rw [hbc₂]
      have hblocks : ↑bc₂.newbuf.toList + (bc₂.blocks + rev.elim 0 HeldRowsEvent.blocks + s) =
          bc₂.blocks + rev.elim 0 HeldRowsEvent.blocks + (↑bc₁.newbuf.toList + s) := by
        rw [hnewbuf]
        abel
      rw [← hblocks]
      apply (freePtr_tracks bc₂.newbuf _).then rfl
      intro _ _
      cases rev with
      | some rev =>
        subst hrev
        exact tracks_pure _ (getRowsEvent_rows hget hon) ⟨rfl, herase₂, hfits, hsame₂⟩ rfl
      | none =>
        subst hrev
        have hless : drv.unread bc₂.dataSource.driver < rounds := by
          have hread := drv.unread_lt hget
          have hbc₂driver : bc₂.dataSource.driver = ds.driver := by
            rw [hbc₂, ← hds]
            exact hdriver
          rw [hbc₂driver]
          exact hread.trans_le (Nat.lt_succ_iff.mp hrounds)
        rw [getRowsEvent_next hget hon, ← herase₂, Option.elim_none, add_zero]
        apply (ih bc₂ hless).cast rfl
        rintro b a ⟨hrev, herase, hfits, hsame⟩ -
        exact ⟨⟨hrev, herase, hfits, hsame₂.trans hsame⟩, rfl⟩

theorem getRowsEvent_tracks (bc : HeldClient σ) (s : Multiset Block) :
    Tracks (bc.blocks + s) (getRowsEvent drv bc) (LibBinlog.getRowsEvent drv.toDriver bc.erase)
      (fun b a => b.1.map HeldRowsEvent.erase = a.1 ∧ b.2.erase = a.2 ∧
        (∀ rev, b.1 = some rev → rev.Fits ∧ Mapped b.2.binlog rev.nfields) ∧ SameBuffer bc b.2)
      fun b => b.2.blocks + b.1.elim 0 HeldRowsEvent.blocks + s :=
  getRowsEventRounds_tracks bc _ s (Nat.lt_succ_self _)

/-! ## One row -/

/-- The blocks of a row that is handed over. -/
def answerBlocks (answer : Option (RowPtr × HeldBinlogRow)) : Multiset Block :=
  answer.elim 0 fun row => row.2.blocks

/-- A call's answer and the client after it: on values those of `a`, and the pointer leads to the
row. -/
structure Fetched (b : Option (RowPtr × HeldBinlogRow) × HeldClient σ)
    (a : Option BinlogRow × BinlogClient σ) : Prop where
  row : (b.1.map fun row => row.2.erase) = a.1
  client : b.2.erase = a.2
  holds : ∃ rows, b.2.Holds rows
  leads : ∀ p br, b.1 = some (p, br) → b.2.rowAt p = some br ∧ br.Fits
  mapped : ∀ p br, b.1 = some (p, br) → Mapped b.2.binlog br.row.cells.length

theorem HeldClient.Holds.erase {rows : List HeldBinlogRow} (h : bc.Holds rows) :
    BufferHolds bc.erase (rows.map HeldBinlogRow.erase) := by
  have hslots : bc.erase._rows.getD [] = eraseSlots bc.slots := by
    rw [HeldClient.erase, HeldClient.slots]
    cases bc._rows <;> rfl
  refine ⟨h.cur_le, ?_, ?_⟩
  · rw [hslots, eraseSlots, List.length_map]
    exact h.lenRows_le
  · rw [hslots, eraseSlots, ← List.map_take, ← List.map_drop]
    show List.map _ ((bc.slots.take bc._lenRows).drop bc._cur) = _
    rw [h.slots, List.map_map, List.map_map]
    rfl

theorem fetchFromBuffer_of_nil (h : bc.Holds []) : fetchFromBuffer bc = .ok (none, bc) := by
  have hlength := h.length
  have hle := h.cur_le
  rw [List.length_nil] at hlength
  exact if_neg (by omega)

theorem fetchFromBuffer_of_cons {br : HeldBinlogRow} {rows : List HeldBinlogRow}
    (h : bc.Holds (br :: rows)) : ∃ p,
      fetchFromBuffer bc = .ok (some (p, br), { bc with _cur := bc._cur + 1 }) ∧
        bc.rowAt p = some br ∧ HeldClient.Holds { bc with _cur := bc._cur + 1 } rows := by
  have hlength := h.length
  have hle := h.lenRows_le
  have hlt : bc._cur < bc._lenRows := by
    rw [List.length_cons] at hlength
    omega
  have hslots := h.slots
  rw [List.drop_eq_getElem_cons (by rw [List.length_take]; omega), List.map_cons,
    List.cons.injEq, List.getElem_take] at hslots
  have hget : bc.slots[bc._cur]? = some (some br) := by
    rw [List.getElem?_eq_getElem (hlt.trans_le hle), hslots.1]
  have hholds : HeldClient.Holds { bc with _cur := bc._cur + 1 } rows :=
    ⟨hlt, hle, hslots.2, fun br' hbr' => h.fits br' (List.mem_cons_of_mem _ hbr'),
      fun br' hbr' => h.mapped br' (List.mem_cons_of_mem _ hbr')⟩
  unfold HeldClient.slots at hget
  cases hrows : bc._rows with
  | none =>
    rw [hrows] at hget
    cases hget
  | some array =>
    obtain ⟨block, slots⟩ := array
    rw [hrows] at hget
    refine ⟨⟨block, bc._cur⟩, ?_, ?_, hrows ▸ hholds⟩
    · unfold fetchFromBuffer
      rw [if_pos hlt, hrows]
      dsimp only [Option.elim] at hget ⊢
      rw [hget]
    · unfold HeldClient.rowAt
      rw [hrows]
      dsimp only [Option.elim] at hget ⊢
      rw [if_pos rfl, hget]
      rfl

/-- A row of the buffer is the caller's from now on. -/
theorem fetchFromBuffer_tracks {rows : List HeldBinlogRow} (h : bc.Holds rows)
    (s : Multiset Block) :
    Tracks (bc.blocks + s) (liftM (fetchFromBuffer bc))
      (LibBinlog.fetchFromBuffer bc.erase)
      (fun b a => Fetched b a ∧ bc.binlog.Keeps b.2.binlog ∧ b.2._rows = bc._rows ∧
        (b.1 = none → rows = []))
      fun b => b.2.blocks + answerBlocks b.1 + s := by
  cases rows with
  | nil =>
    have hvalue : LibBinlog.fetchFromBuffer bc.erase = .ok (none, bc.erase) :=
      fetchFromBuffer_nil h.erase
    rw [fetchFromBuffer_of_nil h]
    refine tracks_pure _ hvalue ⟨⟨rfl, rfl, ⟨_, h⟩, fun p br hbr => (by cases hbr),
      fun p br hbr => (by cases hbr)⟩, id, rfl, fun _ => rfl⟩ ?_
    exact congrArg (· + s) (add_zero _).symm
  | cons br rows =>
    obtain ⟨p, hfetch, hleads, hholds⟩ := fetchFromBuffer_of_cons h
    have hvalue := (fetchFromBuffer_cons h.erase).1
    have hfits := h.fits br List.mem_cons_self
    have hmapped := h.mapped br List.mem_cons_self
    rw [hfetch]
    refine tracks_pure _ hvalue
      ⟨⟨rfl, rfl, ⟨_, hholds⟩, fun p' br' hbr' => ?_, fun p' br' hbr' => ?_⟩, id, rfl,
        fun hnone => (by cases hnone)⟩ ?_
    · cases hbr'
      exact ⟨hleads, hfits⟩
    · cases hbr'
      exact hmapped
    · rw [HeldClient.blocks, HeldClient.blocks, h.unfetched, hholds.unfetched, keptBlocks_cons]
      simp only [answerBlocks, Option.elim_some, HeldClient.fixedBlocks]
      abel

/-- The array stays unless a new event brings a row. -/
theorem _fetchOne_tracks {rows : List HeldBinlogRow} (h : bc.Holds rows) (s : Multiset Block) :
    Tracks (bc.blocks + s) (_fetchOne drv bc) (LibBinlog._fetchOne drv.toDriver bc.erase)
      (fun b a => Fetched b a ∧ bc.binlog.Keeps b.2.binlog ∧
        (bc._cur ≠ bc._lenRows ∨ b.1 = none → b.2._rows = bc._rows))
      fun b => b.2.blocks + answerBlocks b.1 + s := by
  have hbuffer {bc' : HeldClient σ} {rows' : List HeldBinlogRow} (h' : bc'.Holds rows') :
      Tracks (bc'.blocks + s) (liftM (fetchFromBuffer bc'.incrIndex))
        (LibBinlog.fetchFromBuffer bc'.erase.incrIndex)
        (fun b a => Fetched b a ∧ bc'.binlog.Keeps b.2.binlog ∧ b.2._rows = bc'._rows ∧
          (b.1 = none → rows' = []))
        fun b => b.2.blocks + answerBlocks b.1 + s := by
    have hmoved : bc'.incrIndex.Holds rows' :=
      ⟨h'.cur_le, h'.lenRows_le, h'.slots, h'.fits, h'.mapped⟩
    exact fetchFromBuffer_tracks hmoved s
  unfold _fetchOne LibBinlog._fetchOne
  rw [show bc.erase._cur = bc._cur from rfl, show bc.erase._lenRows = bc._lenRows from rfl]
  split_ifs with hempty
  · have hnil : rows = [] := by
      apply List.eq_nil_of_length_eq_zero
      rw [h.length, hempty, Nat.sub_self]
    subst hnil
    apply (getRowsEvent_tracks bc s).bind
    · intro e he
      rw [he]
    rintro ⟨rowsev, bc₁⟩ ⟨rowsev', bc₁'⟩ ⟨hrev, herase, hfits, hsame⟩ hget
    dsimp only at hrev herase hfits hsame ⊢
    rw [hget]
    subst hrev herase
    have hholds₁ := hsame.holds h
    cases rowsev with
    | none =>
      refine tracks_pure _ rfl ⟨⟨rfl, rfl, ⟨[], ?_⟩, fun p br hbr => (by cases hbr),
        fun p br hbr => (by cases hbr)⟩, hsame.keeps, fun _ => hsame.rows⟩ rfl
      exact ⟨hholds₁.cur_le, hholds₁.lenRows_le, hholds₁.slots, hholds₁.fits, hholds₁.mapped⟩
    | some rev =>
      dsimp only [Option.map_some, Option.elim_some]
      obtain ⟨hrevFits, hmapped⟩ := hfits rev rfl
      apply (setRowsEventBuffer_tracks hholds₁ hrevFits hmapped s).bind
      · intro e he
        rw [he]
      rintro bc₂ _ ⟨rfl, hholds₂, rows₂, lost₂, hbc₂, hstays⟩ hset
      rw [hset]
      have hbinlog : bc₂.binlog = bc₁.binlog := by rw [hbc₂]
      apply (hbuffer hholds₂).cast rfl
      rintro b a ⟨hfetched, hkeeps, hrows, hnil⟩ -
      rw [hbinlog] at hkeeps
      refine ⟨⟨hfetched, fun htable => hkeeps (hsame.keeps htable), fun hnone => ?_⟩, rfl⟩
      have hnew : bc₂._rows = rows₂ := by rw [hbc₂]
      rw [hrows, hnew, hstays (hnil (hnone.resolve_left (not_not.mpr hempty))), hsame.rows]
  · apply (hbuffer h).cast rfl
    rintro b a ⟨hfetched, hkeeps, hrows, -⟩ -
    exact ⟨⟨hfetched, hkeeps, fun _ => hrows⟩, rfl⟩

/-- A row that was handed over, and that its pointer still leads to, can be freed. -/
theorem freeAnswer_tracks {row : Option (RowPtr × HeldBinlogRow)}
    (hleads : ∀ p br, row = some (p, br) → bc.rowAt p = some br ∧ br.Fits) (s : Multiset Block) :
    Tracks (bc.blocks + answerBlocks row + s) (freeBinlogRow bc (row.map Prod.fst)) (.ok ())
      Unseen fun _ => bc.blocks + s := by
  cases row with
  | none =>
    refine tracks_pure _ rfl trivial ?_
    exact congrArg (· + s) (add_zero _)
  | some row =>
    obtain ⟨p, br⟩ := row
    obtain ⟨hrow, hfits⟩ := hleads p br rfl
    have hp : p.block ∈ bc.blocks + s := by
      have hleads := hrow
      unfold HeldClient.rowAt at hleads
      cases hrows : bc._rows with
      | none =>
        rw [hrows] at hleads
        cases hleads
      | some array =>
        rw [hrows] at hleads
        dsimp only at hleads
        split_ifs at hleads with hblock
        rw [HeldClient.blocks, hrows]
        simp [hblock]
    apply (freeBinlogRow_tracks hrow hfits hp).cast ?_ fun b a _ _ => ⟨trivial, rfl⟩
    rw [answerBlocks, Option.elim_some]
    abel

theorem skipRows_tracks {rows : List HeldBinlogRow} (h : bc.Holds rows) (start k : ℕ)
    (s : Multiset Block) :
    Tracks (bc.blocks + s) (skipRows drv start k bc)
      (LibBinlog.skipRows drv.toDriver start k bc.erase)
      (fun b a => b.1 = a.1 ∧ b.2.erase = a.2 ∧ (∃ rows, b.2.Holds rows) ∧
        bc.binlog.Keeps b.2.binlog ∧ (k = 0 → b.2 = bc)) fun b => b.2.blocks + s := by
  induction k generalizing bc rows with
  | zero => exact tracks_pure _ rfl ⟨rfl, rfl, ⟨rows, h⟩, id, fun _ => rfl⟩ rfl
  | succ k ih =>
    unfold skipRows LibBinlog.skipRows
    dsimp only
    apply (_fetchOne_tracks h s).bind
    · intro e he
      rw [he]
    rintro ⟨row, bc₁⟩ ⟨row', bc₁'⟩ ⟨hfetched, hkeeps₁, -⟩ hfetch
    rw [hfetch]
    apply (freeAnswer_tracks hfetched.leads s).then rfl
    intro _ _
    obtain ⟨rows₁, hholds₁⟩ := hfetched.holds
    have hclient := hfetched.client
    dsimp only at hclient hholds₁ ⊢
    subst hclient
    rw [show bc.erase.dataSource = bc.dataSource from rfl,
      show bc₁.erase.dataSource = bc₁.dataSource from rfl]
    split_ifs with hmoved
    · refine tracks_pure _ rfl ⟨rfl, rfl, ⟨rows₁, ?_⟩, hkeeps₁, fun hk => (by cases hk)⟩ rfl
      exact ⟨hholds₁.cur_le, hholds₁.lenRows_le, hholds₁.slots, hholds₁.fits, hholds₁.mapped⟩
    · have hholds₂ : HeldClient.Holds { bc₁ with _startidx := k } rows₁ :=
        ⟨hholds₁.cur_le, hholds₁.lenRows_le, hholds₁.slots, hholds₁.fits, hholds₁.mapped⟩
      apply (ih hholds₂).cast rfl
      rintro b a ⟨hmoved, herase, hholds, hkeeps, -⟩ -
      exact ⟨⟨hmoved, herase, hholds, fun htable => hkeeps (hkeeps₁ htable),
        fun hk => (by cases hk)⟩, rfl⟩

/-- Does a call of the client, with this answer, fill the array anew? It can when there are rows to
skip, and it does when the answer is the first row of an event. -/
def Refills (bc : BinlogClient σ) (answer : Option BinlogRow) : Prop :=
  bc._startidx ≠ 0 ∨ bc._cur = bc._lenRows ∧ answer ≠ none

instance (bc : BinlogClient σ) (answer : Option BinlogRow) : Decidable (Refills bc answer) :=
  inferInstanceAs (Decidable (_ ∨ _))

/-- The rows that are skipped are freed, the row of the answer is the caller's. -/
theorem fetchOne_tracks {rows : List HeldBinlogRow} (h : bc.Holds rows) (s : Multiset Block) :
    Tracks (bc.blocks + s) (fetchOne drv bc) (LibBinlog.fetchOne drv.toDriver bc.erase)
      (fun b a => Fetched b a ∧ bc.binlog.Keeps b.2.binlog ∧
        (¬Refills bc.erase a.1 → b.2._rows = bc._rows))
      fun b => b.2.blocks + answerBlocks b.1 + s := by
  unfold fetchOne LibBinlog.fetchOne
  apply (skipRows_tracks h bc._startidx bc._startidx s).bind
  · intro e he
    rw [show bc.erase._startidx = bc._startidx from rfl, he]
  rintro ⟨moved, bc₁⟩ ⟨moved', bc₁'⟩ ⟨hmoved, hclient, ⟨rows₁, hholds₁⟩, hkeeps₁, hskipped⟩ hskip
  dsimp only at hmoved hclient hholds₁ hskipped ⊢
  subst hmoved hclient
  rw [show bc.erase._startidx = bc._startidx from rfl, hskip]
  cases moved with
  | true =>
    refine tracks_pure _ rfl ⟨⟨rfl, rfl, ⟨rows₁, hholds₁⟩, fun p br hbr => (by cases hbr),
      fun p br hbr => (by cases hbr)⟩, hkeeps₁, ?_⟩ ?_
    · intro hstays
      have hstart : bc._startidx = 0 := not_not.mp fun hne => hstays (.inl hne)
      rw [hskipped hstart]
    · exact congrArg (· + s) (add_zero _).symm
  | false =>
    apply (_fetchOne_tracks hholds₁ s).cast rfl
    rintro b a ⟨hfetched, hkeeps, hrows⟩ -
    refine ⟨⟨hfetched, fun htable => hkeeps (hkeeps₁ htable), fun hstays => ?_⟩, rfl⟩
    have hstart : bc._startidx = 0 := not_not.mp fun hne => hstays (.inl hne)
    rw [hskipped hstart] at hrows
    apply hrows
    by_cases hcur : bc._cur = bc._lenRows
    · have hnone : a.1 = none := not_not.mp fun hne => hstays (.inr ⟨hcur, hne⟩)
      exact .inr (Option.map_eq_none_iff.mp (hfetched.row.trans hnone))
    · exact .inl hcur

end LibBinlog.Owned
