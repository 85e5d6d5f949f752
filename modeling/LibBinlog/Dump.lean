import LibBinlog.RowBuffer

/-!
# The dump program

`bldump.c` connects to the source that its argument names and prints every row that it fetches, with
the coordinates of the client at that time, until there is none; `printCell` of `libbinlog.c` prints
a cell. What is printed is a list of bytes.

A value is read from its block, which must be large enough, and a text ends at the first zero of its
block, which must have one. All values that the parser makes are such.
-/

namespace LibBinlog

open Machine Memory

/-- What `%f` prints for the bytes of a `float` and of a `double`. -/
structure FloatText where
  float : List UInt8 → List UInt8
  double : List UInt8 → List UInt8

/-! ## Cells -/

/-- The first `n` bytes of a block. -/
def loadValue (n : ℕ) : Option (List UInt8) → Except Fault (List UInt8)
  | none => .error .memory
  | some block => if n ≤ block.length then .ok (block.take n) else .error .memory

/-- The text that a block begins with. -/
def loadText : Option (List UInt8) → Except Fault (List UInt8)
  | none => .error .memory
  | some block => if 0 ∈ block then .ok (cstring block) else .error .memory

def signedValue (bits : ℕ) (bs : List UInt8) : List UInt8 := signedText (signed bits (leNat bs))

/-- An unsigned value of 32 bits is printed as a signed one, and the two smallest types have no tab
behind them. -/
def printCell (ft : FloatText) (cell : Cell) : Except Fault (List UInt8) :=
  match cell.ctype with
  | .int32 => (loadValue 4 cell.value).map fun bs => signedValue 32 bs ++ ascii "\t"
  | .uint32 => (loadValue 4 cell.value).map fun bs => signedValue 32 bs ++ ascii "\t"
  | .int64 => (loadValue 8 cell.value).map fun bs => signedValue 64 bs ++ ascii "\t"
  | .uint64 => (loadValue 8 cell.value).map fun bs => decimalText (leNat bs) ++ ascii "\t"
  | .int8 => (loadValue 1 cell.value).map fun bs => signedValue 8 bs
  | .int16 => (loadValue 2 cell.value).map fun bs => signedValue 16 bs
  | .float => (loadValue 4 cell.value).map fun bs => ft.float bs ++ ascii "\t"
  | .double => (loadValue 8 cell.value).map fun bs => ft.double bs ++ ascii "\t"
  | .string => (loadText cell.value).map fun bs => bs ++ ascii "\t"
  | .binary => .ok (ascii "BINARY\t")

/-- The bytes that a value needs. -/
def CType.size : CType → ℕ
  | .int8 => 1
  | .int16 => 2
  | .int32 | .uint32 | .float => 4
  | .int64 | .uint64 | .double => 8
  | .string | .binary => 0

/-- A block that holds a value of this type. -/
structure CType.Fits (t : CType) (block : List UInt8) : Prop where
  size : t.size ≤ block.length
  text : t = .string → 0 ∈ block

/-- A cell that is null or can be printed. -/
def Cell.Prints (cell : Cell) : Prop := ∀ block, cell.value = some block → cell.ctype.Fits block

variable {ft : FloatText} {cell : Cell} {block : List UInt8}

theorem loadValue_of_le {n : ℕ} (h : n ≤ block.length) :
    loadValue n (some block) = .ok (block.take n) := if_pos h

theorem loadText_of_mem (h : 0 ∈ block) : loadText (some block) = .ok (cstring block) := if_pos h

theorem printCell_ok (hvalue : cell.value = some block) (h : cell.Prints) :
    ∃ text, printCell ft cell = .ok text := by
  obtain ⟨hsize, htext⟩ := h block hvalue
  unfold printCell
  rw [hvalue]
  cases htype : cell.ctype with
  | string =>
    rw [loadText_of_mem (htext htype)]
    exact ⟨_, rfl⟩
  | binary => exact ⟨_, rfl⟩
  | _ =>
    rw [htype, CType.size] at hsize
    rw [loadValue_of_le hsize]
    exact ⟨_, rfl⟩

/-! ## Cells of the parser -/

variable {mtype : FieldType} {evcur evcur' : EventCursor} {type : UInt8} {metaWord : ℕ}

theorem Cell.prints_empty : Cell.empty.Prints := by
  intro block hblock
  cases hblock

theorem Cell.prints_of_none (h : cell.value = none) : cell.Prints := by
  intro block hblock
  rw [h] at hblock
  cases hblock

theorem intCell_prints {ctype : CType} {n : ℕ} (v : ℤ) (hn : ctype.size ≤ n)
    (hctype : ctype ≠ .string) : (intCell mtype ctype n v).Prints := by
  intro block hblock
  cases hblock
  refine ⟨?_, fun htext => absurd htext hctype⟩
  rw [length_leBytes]
  exact hn

theorem textCell_prints (text : List UInt8) : (textCell mtype text).Prints := by
  intro block hblock
  cases hblock
  exact ⟨Nat.zero_le _, fun _ => List.mem_append_right _ List.mem_cons_self⟩

theorem stringCell_prints (fieldLength : ℕ) (evcur : EventCursor) :
    (stringCell mtype fieldLength evcur).1.Prints := by
  intro block hblock
  cases hblock
  exact ⟨Nat.zero_le _, fun _ => List.mem_append_right _ List.mem_cons_self⟩

theorem rawCell_prints {ctype : CType} {n : ℕ} (evcur : EventCursor) (hn : ctype.size ≤ n)
    (hctype : ctype ≠ .string) : (rawCell mtype ctype n evcur).1.Prints := by
  intro block hblock
  cases hblock
  refine ⟨?_, fun htext => absurd htext hctype⟩
  rw [length_slice]
  exact hn

theorem blobCell_prints (metaWord : ℕ) (evcur : EventCursor) :
    (blobCell metaWord evcur).1.Prints := by
  unfold blobCell
  split
  · exact rawCell_prints _ (Nat.zero_le _) CType.noConfusion
  · exact rawCell_prints _ (Nat.zero_le _) CType.noConfusion
  · exact rawCell_prints _ (Nat.zero_le _) CType.noConfusion
  · exact rawCell_prints _ (Nat.zero_le _) CType.noConfusion
  · exact Cell.prints_of_none rfl

theorem enumCell_prints (metaWord : ℕ) (evcur : EventCursor) :
    (enumCell metaWord evcur).1.Prints := by
  unfold enumCell
  split
  · exact intCell_prints _ le_rfl CType.noConfusion
  · exact intCell_prints _ le_rfl CType.noConfusion
  · exact Cell.prints_of_none rfl

theorem setCell_prints (h : setCell metaWord evcur = .ok (cell, evcur')) : cell.Prints := by
  unfold setCell at h
  dsimp only at h
  split_ifs at h
  cases h
  exact fun block _ => ⟨Nat.zero_le _, fun htext => CType.noConfusion htext⟩

theorem newdecimalCell_prints (h : newdecimalCell metaWord evcur = .ok (cell, evcur')) :
    cell.Prints := by
  unfold newdecimalCell at h
  dsimp only at h
  split_ifs at h
  split at h
  · cases h
    intro block hblock
    cases hblock
    exact ⟨Nat.zero_le _, fun _ => List.mem_append_right _ List.mem_cons_self⟩
  · cases h
    exact Cell.prints_empty

theorem value2Cell_prints (h : value2Cell evcur type metaWord = .ok (cell, evcur')) :
    cell.Prints := by
  unfold value2Cell at h
  dsimp only at h
  cases hkind : FieldType.ofByte (stringType type metaWord).1 with
  | none =>
    rw [hkind] at h
    cases h
    exact Cell.prints_empty
  | some t =>
    rw [hkind] at h
    cases t with
    | long | tiny | short | longlong | int24 | timestamp =>
      cases h
      exact intCell_prints _ le_rfl CType.noConfusion
    | datetime | time | newdate | date | year =>
      cases h
      exact textCell_prints _
    | enum =>
      have hcell : _ = cell := congrArg Prod.fst (Except.ok.inj h)
      exact hcell ▸ enumCell_prints metaWord evcur
    | blob =>
      have hcell : _ = cell := congrArg Prod.fst (Except.ok.inj h)
      exact hcell ▸ blobCell_prints metaWord evcur
    | varchar | varString | string =>
      cases h
      exact stringCell_prints _ _
    | bit | float | double =>
      cases h
      exact rawCell_prints _ (by simp [CType.size]) CType.noConfusion
    | set => exact setCell_prints h
    | newdecimal => exact newdecimalCell_prints h
    | decimal | null | tinyBlob | mediumBlob | longBlob | geometry =>
      cases h
      exact Cell.prints_empty

/-! ## Rows -/

def printField (ft : FloatText) (i : ℕ) (cell : Cell) : Except Fault (List UInt8) :=
  if cell.value.isNone then .ok (ascii "field:" ++ signedText i ++ ascii "\n")
  else printCell ft cell

/-- The fields from `i` on, `k` of them. -/
def printFields (ft : FloatText) (cells : List Cell) : ℕ → ℕ → Except Fault (List UInt8)
  | 0, _ => .ok []
  | k + 1, i =>
    match cells[i]? with
    | none => .error .memory
    | some cell => do
      let text ← printField ft i cell
      let rest ← printFields ft cells k (i + 1)
      .ok (text ++ rest)

def rowKind (type : UInt8) : List UInt8 :=
  if type = EventType.writeRows then ascii "insert "
  else if type = EventType.updateRows then ascii "update "
  else if type = EventType.deleteRows then ascii "delete "
  else []

/-- Where the client stands when it prints a row. -/
structure Place where
  logfile : List UInt8
  position : ℕ
  index : ℕ
  deriving DecidableEq, Repr

def Place.text (p : Place) : List UInt8 :=
  p.logfile ++ ascii " " ++ signedText (toInt32 p.position) ++ ascii " " ++
    signedText (toInt32 p.index)

/-- The old fields of an update stand on a line of their own. -/
def printOld (ft : FloatText) (row : BinlogRow) (p : Place) : Except Fault (List UInt8) :=
  if row.type = EventType.updateRows then
    match row.rowOld with
    | none => if 0 < row.nfields then .error .memory else
      .ok (ascii "uptold:" ++ p.text ++ ascii "\n")
    | some old => do
      let fields ← printFields ft old row.nfields.toNat 0
      .ok (ascii "uptold:" ++ fields ++ p.text ++ ascii "\n")
  else .ok []

def printRow (ft : FloatText) (row : BinlogRow) (p : Place) : Except Fault (List UInt8) := do
  let fields ← printFields ft row.row row.nfields.toNat 0
  let old ← printOld ft row p
  .ok (rowKind row.type ++ fields ++ p.text ++ ascii " " ++ signedText row.created ++
    ascii "\n" ++ old)

/-- No more fields are counted than there are, and all of them can be printed. -/
structure BinlogRow.Prints (row : BinlogRow) : Prop where
  nfields_le : row.nfields.toNat ≤ row.row.length
  cells : ∀ cell ∈ row.row, cell.Prints
  update : row.type = EventType.updateRows → ∃ old, row.rowOld = some old ∧
    row.nfields.toNat ≤ old.length ∧ ∀ cell ∈ old, cell.Prints

theorem printField_ok (ft : FloatText) (i : ℕ) (h : cell.Prints) :
    ∃ text, printField ft i cell = .ok text := by
  unfold printField
  cases hvalue : cell.value with
  | none => exact ⟨_, rfl⟩
  | some block => exact printCell_ok hvalue h

theorem printFields_ok (ft : FloatText) {cells : List Cell} (h : ∀ cell ∈ cells, cell.Prints)
    (k i : ℕ) (hk : i + k ≤ cells.length) : ∃ text, printFields ft cells k i = .ok text := by
  induction k generalizing i with
  | zero => exact ⟨[], rfl⟩
  | succ k ih =>
    have hi : i < cells.length := by omega
    obtain ⟨text, htext⟩ := printField_ok ft i (h _ (List.getElem_mem hi))
    obtain ⟨rest, hrest⟩ := ih (i + 1) (by omega)
    unfold printFields
    rw [List.getElem?_eq_getElem hi]
    dsimp only
    rw [ok_bind htext, ok_bind hrest]
    exact ⟨_, rfl⟩

theorem printRow_ok (ft : FloatText) {row : BinlogRow} (h : row.Prints) (p : Place) :
    ∃ text, printRow ft row p = .ok text := by
  have hold : ∃ text, printOld ft row p = .ok text := by
    unfold printOld
    by_cases hupdate : row.type = EventType.updateRows
    · obtain ⟨old, holdrow, hlength, hprints⟩ := h.update hupdate
      obtain ⟨fields, hfields⟩ := printFields_ok ft hprints row.nfields.toNat 0
        ((Nat.zero_add _).trans_le hlength)
      rw [if_pos hupdate, holdrow]
      dsimp only
      rw [ok_bind hfields]
      exact ⟨_, rfl⟩
    · rw [if_neg hupdate]
      exact ⟨[], rfl⟩
  obtain ⟨fields, hfields⟩ := printFields_ok ft h.cells row.nfields.toNat 0
    ((Nat.zero_add _).trans_le h.nfields_le)
  obtain ⟨old, hold⟩ := hold
  unfold printRow
  rw [ok_bind hfields, ok_bind hold]
  exact ⟨_, rfl⟩

/-! ## Rows of the parser -/

/-- A row image whose cells are as many as the event has columns and can all be printed. -/
structure ImagePrints (n : ℕ) (cells : BlRow) : Prop where
  length : cells.length = n
  cells : ∀ cell ∈ cells, cell.Prints

variable {bl : Binlog} {ev : Mem} {fr : RowsFrame}

theorem readCells_prints {isnull isused : ℤ} {k i : ℕ} {cells : BlRow}
    (h : readCells bl isnull isused k i evcur = .ok (cells, evcur')) : ImagePrints k cells := by
  induction k generalizing i evcur cells with
  | zero =>
    cases h
    exact ⟨rfl, fun cell hcell => absurd hcell List.not_mem_nil⟩
  | succ k ih =>
    have hcons {first : Cell} {rest : BlRow} (hfirst : first.Prints) (hrest : ImagePrints k rest) :
        ImagePrints (k + 1) (first :: rest) := by
      refine ⟨congrArg Nat.succ hrest.length, fun cell hcell => ?_⟩
      obtain rfl | hmem := List.mem_cons.mp hcell
      · exact hfirst
      · exact hrest.cells cell hmem
    unfold readCells at h
    split_ifs at h
    · cases hcell : value2Cell evcur (bl.table.types.getD i 0) (bl.table.metas.getD i 0) with
      | error e =>
        rw [hcell] at h
        cases h
      | ok out =>
        obtain ⟨first, mid⟩ := out
        rw [hcell] at h
        dsimp only at h
        cases hrest : readCells bl isnull isused k (i + 1) mid with
        | error e =>
          rw [hrest] at h
          cases h
        | ok out =>
          rw [hrest] at h
          cases h
          exact hcons (value2Cell_prints hcell) (ih hrest)
    · cases hrest : readCells bl isnull isused k (i + 1) evcur with
      | error e =>
        rw [hrest] at h
        cases h
      | ok out =>
        rw [hrest] at h
        cases h
        exact hcons Cell.prints_empty (ih hrest)

theorem readRow_prints {new : BlRow} {old : List BlRow}
    (h : readRow bl fr evcur = .ok (new, old, evcur')) :
    ImagePrints fr.nfields new ∧ ∀ cells ∈ old, ImagePrints fr.nfields cells := by
  unfold readRow at h
  cases himage : readImage bl fr fr.isused evcur with
  | error e =>
    rw [himage] at h
    cases h
  | ok out =>
    obtain ⟨cells, mid⟩ := out
    have hcells : ImagePrints fr.nfields cells := readCells_prints himage
    rw [himage] at h
    dsimp only at h
    split_ifs at h with hupdate
    · cases hnew : readImage bl fr fr.isused_u mid with
      | error e =>
        rw [hnew] at h
        cases h
      | ok out =>
        rw [hnew] at h
        cases h
        refine ⟨readCells_prints hnew, fun image himage => ?_⟩
        rw [List.mem_singleton.mp himage]
        exact hcells
    · cases h
      exact ⟨hcells, fun image himage => absurd himage List.not_mem_nil⟩

theorem rowsLoop_prints {fuel : ℕ} {st st' : RowsState}
    (hst : ∀ cells ∈ st.rows ++ st.rowsold, ImagePrints fr.nfields cells)
    (h : rowsLoop bl fr fuel st = .ok st') :
    ∀ cells ∈ st'.rows ++ st'.rowsold, ImagePrints fr.nfields cells := by
  induction fuel generalizing st with
  | zero => cases h
  | succ fuel ih =>
    obtain ⟨fuel', hfuel, ⟨-, rfl⟩ | ⟨-, mid, hstep, hloop⟩⟩ := rowsLoop_ok h
    · exact hst
    · cases hfuel
      obtain ⟨-, new, old, cur, hread, rfl⟩ := rowStep_ok.mp hstep
      obtain ⟨hnew, hold⟩ := readRow_prints hread
      apply ih _ hloop
      intro cells hcells
      simp only [List.mem_append, List.mem_singleton] at hcells hst
      obtain (hrow | rfl) | hrow | hrow := hcells
      · exact hst cells (.inl hrow)
      · exact hnew
      · exact hst cells (.inr hrow)
      · exact hold cells hrow

/-- Whatever bytes an event consists of, the rows that come of it can be printed. -/
theorem eventRow_prints {rev : RowsEvent} {i : ℕ} {row : BinlogRow}
    (h : parseRowsEvent bl ev = .ok rev) (hrow : eventRow rev i = .ok row) : row.Prints := by
  obtain ⟨fr, st, himages, rfl⟩ := parseRowsEvent_ok.mp h
  obtain ⟨cur, -, hloop⟩ := parseRowImages_ok himages
  have hprints := rowsLoop_prints (fun cells hcells => absurd hcells List.not_mem_nil) hloop
  have hcount := toNat_toInt32_le fr.nfields
  unfold eventRow at hrow
  dsimp only at hrow
  generalize toInt32 (fr.nfields : ℤ) = n at hcount hrow
  generalize toInt32 ((parseHeader bl ev).ts : ℤ) = created at hrow
  cases hcells : st.rows[i]? with
  | none =>
    rw [hcells] at hrow
    cases hrow
  | some cells =>
    have himage := hprints cells (List.mem_append_left _ (List.mem_of_getElem? hcells))
    rw [hcells] at hrow
    dsimp only at hrow
    by_cases hupdate : (parseHeader bl ev).type = EventType.updateRows
    · rw [if_pos hupdate, if_pos hupdate, Option.bind_some] at hrow
      cases hold : st.rowsold[i]? with
      | none =>
        rw [hold] at hrow
        cases hrow
      | some old =>
        have himage' := hprints old (List.mem_append_right _ (List.mem_of_getElem? hold))
        rw [hold] at hrow
        cases hrow
        exact ⟨hcount.trans_eq himage.length.symm, himage.cells,
          fun _ => ⟨old, rfl, hcount.trans_eq himage'.length.symm, himage'.cells⟩⟩
    · rw [if_neg hupdate] at hrow
      cases hrow
      exact ⟨hcount.trans_eq himage.length.symm, himage.cells, fun heq => absurd heq hupdate⟩

end LibBinlog
