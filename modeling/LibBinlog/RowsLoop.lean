import LibBinlog.Lib.Calls
import LibBinlog.RowImages
import Mathlib.Algebra.Order.BigOperators.Group.List

/-!
# The row loop

One round of `parseRowsEvent` reads the image or the pair of images of one row and stores it behind
the rows read so far. The slots are doubled in an `int`, which the round after `2 ^ 30` rows
overflows. A run of the loop is read back row by row, in both directions: rows whose images agree
are returned, and a run that returns the rows has met images that agree.
-/

namespace LibBinlog

open Machine Memory

variable {bl : Binlog} {fr : RowsFrame} {ev : Mem} {p : ℤ} {n : ℕ} {st st' : RowsState}
  {evcur evcur' : EventCursor}

/-! ## One round -/

/-- The images of one row: the cells for `rows`, those for `rowsold` if there are any, and the
cursor. -/
def readRow (bl : Binlog) (fr : RowsFrame) (evcur : EventCursor) :
    Except Fault (BlRow × List BlRow × EventCursor) :=
  match readImage bl fr fr.isused evcur with
  | .error e => .error e
  | .ok (cells, evcur) =>
    if fr.type = EventType.updateRows then
      match readImage bl fr fr.isused_u evcur with
      | .error e => .error e
      | .ok (cellsnew, evcur) => .ok (cellsnew, [cells], evcur)
    else .ok (cells, [], evcur)

theorem readRow_single {new : BlRow} (h : fr.type ≠ EventType.updateRows) :
    readRow bl fr evcur = .ok (new, [], evcur') ↔
      readImage bl fr fr.isused evcur = .ok (new, evcur') := by
  rw [readRow]
  cases readImage bl fr fr.isused evcur with
  | error e => simp
  | ok out => simp [h, Prod.ext_iff]

theorem readRow_pair {new old : BlRow} (h : fr.type = EventType.updateRows) :
    readRow bl fr evcur = .ok (new, [old], evcur') ↔
      ∃ mid, readImage bl fr fr.isused evcur = .ok (old, mid) ∧
        readImage bl fr fr.isused_u mid = .ok (new, evcur') := by
  rw [readRow]
  cases readImage bl fr fr.isused evcur with
  | error e => simp
  | ok out =>
    obtain ⟨cells, mid⟩ := out
    simp only [if_pos h, Except.ok.injEq, Prod.mk.injEq]
    cases hnew : readImage bl fr fr.isused_u mid with
    | error e =>
      simp only [reduceCtorEq, false_iff, not_exists, not_and]
      rintro mid' ⟨-, rfl⟩
      simp [hnew]
    | ok out' =>
      simp only [Except.ok.injEq, Prod.mk.injEq, List.cons.injEq, and_true]
      constructor
      · rintro ⟨rfl, rfl, rfl⟩
        exact ⟨mid, ⟨rfl, rfl⟩, hnew⟩
      · rintro ⟨mid', ⟨rfl, rfl⟩, hmid⟩
        rw [hnew] at hmid
        cases hmid
        exact ⟨rfl, rfl, rfl⟩

@[simp] theorem growRows_rows (st : RowsState) : (growRows st).rows = st.rows := by
  rw [growRows]
  split_ifs <;> rfl

@[simp] theorem growRows_rowsold (st : RowsState) : (growRows st).rowsold = st.rowsold := by
  rw [growRows]
  split_ifs <;> rfl

@[simp] theorem growRows_evcur (st : RowsState) : (growRows st).evcur = st.evcur := by
  rw [growRows]
  split_ifs <;> rfl

theorem rowStep_ok : rowStep bl fr st = .ok st' ↔ (st.rows.length : ℤ) < (growRows st).totalrows ∧
    ∃ new old evcur', readRow bl fr st.evcur = .ok (new, old, evcur') ∧
      st' = ⟨st.rows ++ [new], st.rowsold ++ old, (growRows st).totalrows, evcur'⟩ := by
  simp only [rowStep, readRow, growRows_rows, growRows_rowsold, growRows_evcur]
  cases readImage bl fr fr.isused st.evcur with
  | error e => simp
  | ok out =>
    obtain ⟨cells, mid⟩ := out
    by_cases hroom : (st.rows.length : ℤ) < (growRows st).totalrows
    · simp only [hroom, if_true, true_and]
      by_cases hupdate : fr.type = EventType.updateRows
      · simp only [if_pos hupdate]
        cases readImage bl fr fr.isused_u mid with
        | error e => simp
        | ok out => simp [eq_comm]
      · simp only [if_neg hupdate]
        simp [eq_comm]
    · simp [hroom]

theorem length_old {new : BlRow} {old : List BlRow}
    (h : readRow bl fr evcur = .ok (new, old, evcur')) :
    old.length = if fr.type = EventType.updateRows then 1 else 0 := by
  rw [readRow] at h
  cases himg : readImage bl fr fr.isused evcur with
  | error e => simp [himg] at h
  | ok out =>
    simp only [himg] at h
    split_ifs at h ⊢ with hupdate
    · cases himg' : readImage bl fr fr.isused_u out.2 with
      | error e => simp [himg'] at h
      | ok out' =>
        simp only [himg', Except.ok.injEq, Prod.mk.injEq] at h
        simp [← h.2.1]
    · simp only [Except.ok.injEq, Prod.mk.injEq] at h
      simp [← h.2.1]

/-! ## The slot count -/

/-- The slot count is a power of two that an `int` holds, and no smaller than the rows stored. -/
def Slots (n : ℕ) (totalrows : ℤ) : Prop :=
  ∃ k ≤ 30, totalrows = (2 ^ k : ℕ) ∧ n ≤ 2 ^ k

theorem slots_zero : Slots 0 8 := ⟨3, by norm_num, by norm_num, by norm_num⟩

theorem Slots.le (h : Slots n st.totalrows) : n ≤ 2 ^ 30 := by
  obtain ⟨k, hk, -, hn⟩ := h
  exact hn.trans (Nat.pow_le_pow_right (by norm_num) hk)

theorem Slots.full (h : Slots st.rows.length st.totalrows) (hn : st.rows.length = 2 ^ 30) :
    ¬(st.rows.length : ℤ) < (growRows st).totalrows := by
  obtain ⟨k, hk, htotal, hle⟩ := h
  have hpow : (2 : ℕ) ^ k = 2 ^ 30 :=
    le_antisymm (Nat.pow_le_pow_right (by norm_num) hk) (hn ▸ hle)
  rw [hpow] at htotal
  have hwrap : toInt32 (((2 ^ 30 : ℕ) : ℤ) * 2) = -2 ^ 31 := by decide
  rw [growRows, if_pos (by omega), hn, htotal]
  simp only [hwrap]
  norm_num

theorem Slots.grow (h : Slots st.rows.length st.totalrows) (hn : st.rows.length < 2 ^ 30) :
    (st.rows.length : ℤ) < (growRows st).totalrows ∧
      Slots (st.rows.length + 1) (growRows st).totalrows := by
  obtain ⟨k, hk, htotal, hle⟩ := h
  by_cases hfull : st.totalrows ≤ st.rows.length
  · have hlt : k < 30 := by
      by_contra hge
      have hk30 : k = 30 := by omega
      rw [hk30] at htotal
      omega
    have hpow : (2 : ℕ) ^ (k + 1) ≤ 2 ^ 30 := Nat.pow_le_pow_right (by norm_num) hlt
    have hsucc : (2 : ℕ) ^ (k + 1) = 2 ^ k * 2 := pow_succ 2 k
    have hpos : 0 < 2 ^ k := Nat.two_pow_pos k
    have hgrown : (growRows st).totalrows = (2 ^ (k + 1) : ℕ) := by
      rw [growRows, if_pos hfull, htotal]
      simp only
      rw [toInt32_of_range (by omega) (by omega), hsucc, Nat.cast_mul, Nat.cast_ofNat]
    rw [hgrown]
    exact ⟨by omega, k + 1, hlt, rfl, by omega⟩
  · rw [growRows, if_neg hfull]
    exact ⟨by omega, k, hk, htotal, by omega⟩

/-! ## Rounds -/

/-- A row as it is encoded, with the cells it means. `taken` is what the loop steps over when it
returns these cells, `Agrees` the condition on the bits at its offset. -/
structure EncodedRow where
  bytes : List UInt8
  new : BlRow
  old : List BlRow
  taken : ℕ
  Agrees : ℤ → Prop

structure RowReads (bl : Binlog) (fr : RowsFrame) (ev : Mem) (row : EncodedRow) : Prop where
  old_eq : row.old.length = if fr.type = EventType.updateRows then 1 else 0
  consumes : ∀ evcur evcur' : EventCursor, evcur.ev = ev →
    readRow bl fr evcur = .ok (row.new, row.old, evcur') → evcur.Moved row.taken evcur'
  reads_iff : row.taken = row.bytes.length → ∀ p : ℤ, 0 ≤ p → p + row.bytes.length < 2 ^ 31 →
    Holds ev p row.bytes → ∀ evcur', readRow bl fr ⟨ev, p⟩ = .ok (row.new, row.old, evcur') ↔
      row.Agrees p ∧ evcur' = ⟨ev, p + row.bytes.length⟩

def rowsBytes (rows : List EncodedRow) : List UInt8 := rows.flatMap EncodedRow.bytes

theorem length_le_rowsBytes {row : EncodedRow} {rows : List EncodedRow} (h : row ∈ rows) :
    row.bytes.length ≤ (rowsBytes rows).length := by
  obtain ⟨before, after, rfl⟩ := List.append_of_mem h
  rw [rowsBytes, List.flatMap_append, List.flatMap_cons, List.length_append, List.length_append]
  omega

theorem length_rows_le {rows : List EncodedRow} (h : ∀ row ∈ rows, 0 < row.bytes.length) :
    rows.length ≤ (rowsBytes rows).length := by
  induction rows with
  | nil => exact Nat.zero_le _
  | cons row rows ih =>
    have hrow := h row List.mem_cons_self
    have hrows := ih fun r hr => h r (List.mem_cons_of_mem row hr)
    rw [rowsBytes, List.flatMap_cons, ← rowsBytes, List.length_append, List.length_cons]
    omega

/-- If no row takes less than its bytes and all together take no more, each takes its bytes. -/
theorem taken_eq_of_sum {rows : List EncodedRow}
    (h : ∀ row ∈ rows, row.bytes.length ≤ row.taken)
    (hsum : (rows.map EncodedRow.taken).sum ≤ (rowsBytes rows).length) :
    ∀ row ∈ rows, row.taken = row.bytes.length := by
  induction rows with
  | nil => exact fun _ hrow => nomatch hrow
  | cons row rows ih =>
    have hrow := h row List.mem_cons_self
    have hrest := fun r hr => h r (List.mem_cons_of_mem row hr)
    have hge : (rowsBytes rows).length ≤ (rows.map EncodedRow.taken).sum := by
      rw [rowsBytes, List.length_flatMap]
      exact List.sum_le_sum hrest
    rw [rowsBytes, List.flatMap_cons, ← rowsBytes, List.length_append, List.map_cons,
      List.sum_cons] at hsum
    intro r hr
    rcases List.mem_cons.mp hr with rfl | hr
    · omega
    · exact ih hrest (by omega) r hr

def RowsAgree : List EncodedRow → ℤ → Prop
  | [], _ => True
  | row :: rows, p => row.Agrees p ∧ RowsAgree rows (p + row.bytes.length)

/-- The state after these rows, with the cursor behind them. -/
def RowsState.Extends (st st' : RowsState) (rows : List EncodedRow) : Prop :=
  st'.rows = st.rows ++ rows.map EncodedRow.new ∧
    st'.rowsold = st.rowsold ++ rows.flatMap EncodedRow.old

variable {row : EncodedRow} {rows : List EncodedRow} {fuel : ℕ}

theorem rowStep_reads (hrow : RowReads bl fr ev row) (htaken : row.taken = row.bytes.length)
    (hslots : Slots st.rows.length st.totalrows) (hn : st.rows.length < 2 ^ 30)
    (hcur : st.evcur = ⟨ev, p⟩) (h0 : 0 ≤ p) (h1 : p + row.bytes.length < 2 ^ 31)
    (hev : Holds ev p row.bytes) (hagree : row.Agrees p) :
    ∃ st', rowStep bl fr st = .ok st' ∧ st.Extends st' [row] ∧
      Slots st'.rows.length st'.totalrows ∧ st'.evcur = ⟨ev, p + row.bytes.length⟩ := by
  obtain ⟨hroom, hgrown⟩ := hslots.grow hn
  have hread := (hrow.reads_iff htaken p h0 h1 hev ⟨ev, p + row.bytes.length⟩).mpr ⟨hagree, rfl⟩
  rw [← hcur] at hread
  refine ⟨_, rowStep_ok.mpr ⟨hroom, _, _, _, hread, rfl⟩, ⟨rfl, by simp⟩, ?_, rfl⟩
  simpa using hgrown

theorem rowsLoop_reads (st : RowsState) (fuel : ℕ) (hrows : ∀ row ∈ rows, RowReads bl fr ev row)
    (htaken : ∀ row ∈ rows, row.taken = row.bytes.length)
    (hpos : ∀ row ∈ rows, 0 < row.bytes.length)
    (hslots : Slots st.rows.length st.totalrows) (hn : st.rows.length + rows.length ≤ 2 ^ 30)
    (hcur : st.evcur = ⟨ev, p⟩) (h0 : 0 ≤ p) (h1 : p + (rowsBytes rows).length ≤ fr.evlen)
    (hevlen : fr.evlen < 2 ^ 31) (hev : Holds ev p (rowsBytes rows)) (hagree : RowsAgree rows p) :
    ∃ st', rowsLoop bl fr (rows.length + fuel) st = rowsLoop bl fr fuel st' ∧
      st.Extends st' rows ∧ Slots st'.rows.length st'.totalrows ∧
      st'.evcur = ⟨ev, p + (rowsBytes rows).length⟩ := by
  induction rows generalizing st p with
  | nil => exact ⟨st, by simp, ⟨by simp, by simp⟩, hslots, by simpa [rowsBytes] using hcur⟩
  | cons row rows ih =>
    have hposrow := hpos row List.mem_cons_self
    rw [rowsBytes, List.flatMap_cons, ← rowsBytes] at h1 hev ⊢
    rw [List.length_append] at h1 ⊢
    rw [List.length_cons] at hn ⊢
    obtain ⟨mid, hstep, hext, hmid, hmidcur⟩ := rowStep_reads (hrows row List.mem_cons_self)
      (htaken row List.mem_cons_self) hslots (by omega) hcur h0 (by omega) hev.left hagree.1
    have hlen : mid.rows.length = st.rows.length + 1 := by rw [hext.1]; simp
    obtain ⟨last, hloop, hext', hlast, hlastcur⟩ := ih _
      (fun r hr => hrows r (List.mem_cons_of_mem row hr))
      (fun r hr => htaken r (List.mem_cons_of_mem row hr))
      (fun r hr => hpos r (List.mem_cons_of_mem row hr)) hmid (by omega) hmidcur (by omega)
      (by push_cast at h1 ⊢; omega) hev.right hagree.2
    have hin : toUInt32 st.evcur.cur < fr.evlen := by
      have hp := toUInt32_of_range (x := p) h0 (by omega)
      simp only [hcur]
      omega
    refine ⟨last, ?_, ⟨?_, ?_⟩, hlast, ?_⟩
    · rw [Nat.add_right_comm, rowsLoop, if_pos hin, hstep]
      exact hloop
    · rw [hext'.1, hext.1]
      simp
    · rw [hext'.2, hext.2]
      simp
    · rw [hlastcur, Nat.cast_add, add_assoc]

theorem rowsLoop_stop (h : ¬toUInt32 st.evcur.cur < fr.evlen) :
    rowsLoop bl fr (fuel + 1) st = .ok st := by
  rw [rowsLoop, if_neg h]

/-! ## Runs that return -/

theorem rowsLoop_ok : rowsLoop bl fr fuel st = .ok st' → ∃ fuel', fuel = fuel' + 1 ∧
    ((¬toUInt32 st.evcur.cur < fr.evlen ∧ st' = st) ∨ (toUInt32 st.evcur.cur < fr.evlen ∧
      ∃ mid, rowStep bl fr st = .ok mid ∧ rowsLoop bl fr fuel' mid = .ok st')) := by
  intro h
  cases fuel with
  | zero => cases h
  | succ fuel =>
    refine ⟨fuel, rfl, ?_⟩
    rw [rowsLoop] at h
    split_ifs at h with hin
    · cases hstep : rowStep bl fr st with
      | error e => simp [hstep] at h
      | ok mid => exact .inr ⟨hin, mid, rfl, by simpa only [hstep] using h⟩
    · exact .inl ⟨hin, (Except.ok.inj h).symm⟩

theorem rowsLoop_extends (h : rowsLoop bl fr fuel st = .ok st') :
    st.rows <+: st'.rows ∧ st.rowsold <+: st'.rowsold := by
  induction fuel generalizing st with
  | zero => cases h
  | succ fuel ih =>
    obtain ⟨fuel', hfuel, ⟨-, rfl⟩ | ⟨-, mid, hstep, hloop⟩⟩ := rowsLoop_ok h
    · exact ⟨List.prefix_rfl, List.prefix_rfl⟩
    · cases hfuel
      obtain ⟨-, new, old, cur, -, rfl⟩ := rowStep_ok.mp hstep
      obtain ⟨hrows, hold⟩ := ih hloop
      exact ⟨(List.prefix_append _ _).trans hrows, (List.prefix_append _ _).trans hold⟩

theorem rowsLoop_rowsold (hfr : fr.type ≠ EventType.updateRows)
    (h : rowsLoop bl fr fuel st = .ok st') : st'.rowsold = st.rowsold := by
  induction fuel generalizing st with
  | zero => cases h
  | succ fuel ih =>
    obtain ⟨fuel', hfuel, ⟨-, rfl⟩ | ⟨-, mid, hstep, hloop⟩⟩ := rowsLoop_ok h
    · rfl
    · cases hfuel
      obtain ⟨-, new, old, cur, hread, rfl⟩ := rowStep_ok.mp hstep
      have hold := length_old hread
      rw [if_neg hfr] at hold
      rw [ih hloop, List.eq_nil_of_length_eq_zero hold, List.append_nil]

/-- A run that returns `row` and `rows` has read `row` first. -/
theorem rowsLoop_cons (h : rowsLoop bl fr fuel st = .ok st')
    (hext : st.Extends st' (row :: rows))
    (hold : row.old.length = if fr.type = EventType.updateRows then 1 else 0) :
    ∃ fuel' mid, toUInt32 st.evcur.cur < fr.evlen ∧ rowStep bl fr st = .ok mid ∧
      readRow bl fr st.evcur = .ok (row.new, row.old, mid.evcur) ∧
      mid.rows.length = st.rows.length + 1 ∧ mid.Extends st' rows ∧
      rowsLoop bl fr fuel' mid = .ok st' := by
  obtain ⟨hrows, hrowsold⟩ := hext
  obtain ⟨fuel', -, ⟨-, rfl⟩ | ⟨hin, mid, hstep, hloop⟩⟩ := rowsLoop_ok h
  · simp at hrows
  · obtain ⟨hroom, new, old, cur, hread, rfl⟩ := rowStep_ok.mp hstep
    obtain ⟨hextends, hextendsold⟩ := rowsLoop_extends hloop
    have hlen : old.length = row.old.length := (length_old hread).trans hold.symm
    rw [hrows, List.map_cons, List.prefix_append_right_inj, List.cons_prefix_cons] at hextends
    rw [hrowsold, List.flatMap_cons, List.prefix_append_right_inj] at hextendsold
    obtain ⟨rest, hrest⟩ := hextendsold
    obtain rfl : new = row.new := hextends.1
    obtain rfl : old = row.old := List.append_inj_left hrest hlen
    refine ⟨fuel', _, hin, hstep, hread, by simp, ⟨?_, ?_⟩, hloop⟩
    · simpa using hrows
    · simpa using hrowsold

theorem rowsLoop_nil (h : rowsLoop bl fr fuel st = .ok st') (hext : st.Extends st' []) :
    st' = st := by
  obtain ⟨fuel', -, ⟨-, rfl⟩ | ⟨-, mid, hstep, hloop⟩⟩ := rowsLoop_ok h
  · rfl
  · obtain ⟨-, new, old, cur, -, rfl⟩ := rowStep_ok.mp hstep
    have hlen := (rowsLoop_extends hloop).1.length_le
    rw [hext.1] at hlen
    simp at hlen

/-- Such a run has stepped over `taken` bytes for each row. -/
theorem rowsLoop_consumes (st : RowsState) (hrows : ∀ row ∈ rows, RowReads bl fr ev row)
    (htaken : ∀ row ∈ rows, row.taken ≤ fr.evlen) (hevlen : fr.evlen < 2 ^ 31)
    (hslots : Slots st.rows.length st.totalrows) (hcur : st.evcur.ev = ev)
    (h : rowsLoop bl fr fuel st = .ok st') (hext : st.Extends st' rows)
    (hend : toUInt32 st'.evcur.cur = fr.evlen) :
    st.rows.length + rows.length ≤ 2 ^ 30 ∧
      toUInt32 st.evcur.cur + (rows.map EncodedRow.taken).sum = fr.evlen := by
  induction rows generalizing st fuel with
  | nil =>
    obtain rfl := rowsLoop_nil h hext
    exact ⟨hslots.le, hend⟩
  | cons row rows ih =>
    have hrow := hrows row List.mem_cons_self
    obtain ⟨fuel', mid, hin, hstep, hread, hlen, hmid, hloop⟩ := rowsLoop_cons h hext hrow.old_eq
    have hmoved := hrow.consumes _ _ hcur hread
    have hbound := htaken row List.mem_cons_self
    have hgrown : Slots mid.rows.length mid.totalrows := by
      obtain ⟨hroom, _, _, _, -, rfl⟩ := rowStep_ok.mp hstep
      have hlt : st.rows.length < 2 ^ 30 := by
        by_contra hge
        exact hslots.full (le_antisymm hslots.le (by omega)) hroom
      simpa using (hslots.grow hlt).2
    obtain ⟨hcount, hsum⟩ := ih _ (fun r hr => hrows r (List.mem_cons_of_mem row hr))
      (fun r hr => htaken r (List.mem_cons_of_mem row hr)) hgrown (hmoved.1.trans hcur) hloop hmid
    rw [hmoved.2, Nat.mod_eq_of_lt (by omega)] at hsum
    rw [List.map_cons, List.sum_cons, List.length_cons]
    omega

/-- If nothing was stepped over but the rows, their bits agree. -/
theorem rowsLoop_agrees (hrows : ∀ row ∈ rows, RowReads bl fr ev row)
    (htaken : ∀ row ∈ rows, row.taken = row.bytes.length) (hcur : st.evcur = ⟨ev, p⟩) (h0 : 0 ≤ p)
    (h1 : p + (rowsBytes rows).length < 2 ^ 31) (hev : Holds ev p (rowsBytes rows))
    (h : rowsLoop bl fr fuel st = .ok st') (hext : st.Extends st' rows) : RowsAgree rows p := by
  induction rows generalizing st fuel p with
  | nil => trivial
  | cons row rows ih =>
    have hrow := hrows row List.mem_cons_self
    obtain ⟨fuel', mid, -, -, hread, -, hmid, hloop⟩ := rowsLoop_cons h hext hrow.old_eq
    rw [rowsBytes, List.flatMap_cons, ← rowsBytes] at h1 hev
    rw [List.length_append] at h1
    rw [hcur] at hread
    obtain ⟨hagree, hmidcur⟩ := (hrow.reads_iff (htaken row List.mem_cons_self) p h0 (by omega)
      hev.left _).mp hread
    exact ⟨hagree, ih (fun r hr => hrows r (List.mem_cons_of_mem row hr))
      (fun r hr => htaken r (List.mem_cons_of_mem row hr)) hmidcur (by omega) (by omega)
      hev.right hloop hmid⟩

/-! ## The whole event -/

theorem parseRowImages_ok {fr : RowsFrame} {st : RowsState}
    (h : parseRowImages bl ev = .ok (fr, st)) : ∃ cur : ℕ, rowsFrame bl ev = .ok (fr, cur) ∧
      rowsLoop bl fr (fr.evlen + 1) ⟨[], [], 8, ⟨ev, toInt32 cur⟩⟩ = .ok st := by
  rw [parseRowImages] at h
  cases hframe : rowsFrame bl ev with
  | error e => simp [hframe] at h
  | ok out =>
    obtain ⟨fr', cur⟩ := out
    simp only [hframe] at h
    obtain ⟨st', hloop, hst⟩ := Calls.map_ok.mp h
    cases hst
    exact ⟨cur, rfl, hloop⟩

theorem parseRowsEvent_ok {out : RowsEvent} : parseRowsEvent bl ev = .ok out ↔
    ∃ fr st, parseRowImages bl ev = .ok (fr, st) ∧ out =
      { type := (parseHeader bl ev).type
        ts := (parseHeader bl ev).ts
        nextpos := (parseHeader bl ev).nextpos
        serverid := (parseHeader bl ev).serverid
        tableid := getUint48 ev bl.hdrlen
        nfields := fr.nfields
        nrows := st.rows.length
        rows := st.rows
        rowsold := if (parseHeader bl ev).type = EventType.updateRows then some st.rowsold
          else none } := by
  rw [parseRowsEvent]
  cases parseRowImages bl ev with
  | error e => simp
  | ok out' =>
    obtain ⟨fr, st⟩ := out'
    simp only [Except.ok.injEq, Prod.mk.injEq]
    constructor
    · rintro rfl
      exact ⟨fr, st, ⟨rfl, rfl⟩, rfl⟩
    · rintro ⟨_, _, ⟨rfl, rfl⟩, rfl⟩
      rfl

end LibBinlog
