import LibBinlog.ReadBack

/-!
# Rows events with all columns

With every column marked used the NULL bits stand where the parser looks for them, and what is left
of the condition is the number of rows: the slot count of the row arrays, an `int` that is doubled,
overflows when a row comes after `2 ^ 30` others.
-/

namespace LibBinlog

open Machine Memory

variable {cols : List ColumnDef} {used nulls : List UInt8} {entries : List Entry} {ev : Mem} {p : ℤ}
  {i : ℕ}

theorem cellsAgree_of_bits
    (h : ∀ k (hk : k < entries.length), bitAt nulls (i + k) = entries[k].isNull) :
    CellsAgree ev nulls cols entries i p := by
  induction cols generalizing entries i p with
  | nil => trivial
  | cons c cols ih =>
    cases entries with
    | nil => trivial
    | cons e entries =>
      refine ⟨?_, ih fun k hk => ?_⟩
      · have hbit := h 0 (by simp)
        cases e with
        | absent => trivial
        | null => exact .inl hbit
        | value bs => exact hbit
      · rw [add_assoc, Nat.add_comm 1 k]
        exact h (k + 1) (by simpa using hk)

def MarksAll (cols : List ColumnDef) (used : List UInt8) : Prop :=
  ∀ i < cols.length, bitAt used i = true

theorem usedCount_of_marksAll (h : MarksAll cols used) :
    usedCount cols.length used = cols.length := by
  rw [usedCount, List.countP_eq_length.mpr fun i hi => h i (List.mem_range.mp hi),
    List.length_range]

theorem RowImage.agrees_of_marksAll (img : RowImage cols used) (h : MarksAll cols used) :
    img.Agrees ev p := by
  have hlen := img.length_entries
  have hall : img.entries.filter Entry.isUsed = img.entries := by
    refine List.filter_eq_self.mpr fun e he => ?_
    obtain ⟨k, hk, rfl⟩ := List.getElem_of_mem he
    rw [img.isUsed_getElem hk]
    exact h k (hlen ▸ hk)
  have hnulls := img.nulls_eq
  rw [hall, usedCount_of_marksAll h] at hnulls
  refine cellsAgree_of_bits fun k hk => ?_
  have hbit := List.getElem_of_eq hnulls (i := k) (by simpa using hk)
  rw [Nat.zero_add]
  simpa using hbit.symm

theorem rowsAgree_of_forall {rows : List EncodedRow} (h : ∀ row ∈ rows, ∀ p, row.Agrees p) :
    RowsAgree rows p := by
  induction rows generalizing p with
  | nil => trivial
  | cons row rows ih =>
    exact ⟨h row List.mem_cons_self p, ih fun r hr => h r (List.mem_cons_of_mem row hr)⟩

namespace RowsBody

def AllUsed (body : RowsBody cols) : Prop := ∀ used ∈ body.usedMaps, MarksAll cols used

variable {body : RowsBody cols}

theorem AllUsed.widthsMatch (h : body.AllUsed) : body.WidthsMatch := by
  intro used hused
  rw [WidthMatches, usedCount_of_marksAll (h used hused)]

theorem AllUsed.bitsAgree (h : body.AllUsed) : body.BitsAgree ev p := by
  refine rowsAgree_of_forall fun row hrow p => ?_
  cases body with
  | single used images =>
    obtain ⟨img, -, rfl⟩ := List.mem_map.mp hrow
    exact img.agrees_of_marksAll (h used List.mem_cons_self)
  | pairs used usedAfter images =>
    obtain ⟨pair, -, rfl⟩ := List.mem_map.mp hrow
    exact ⟨pair.1.agrees_of_marksAll (h used List.mem_cons_self),
      pair.2.agrees_of_marksAll (h usedAfter (List.mem_cons_of_mem used List.mem_cons_self))⟩

end RowsBody

theorem readBack_iff_of_allUsed {bl : Binlog} {r : RowsImageEvent cols}
    (htable : TableFits bl.table r.tableid cols) (hbl : bl.hdrlen = r.header.hdrlen)
    (hev : Holds ev 0 r.bytes) (hn : 0 < cols.length) (hused : r.body.AllUsed) :
    r.ReadBack bl ev ↔ r.body.nrows ≤ 2 ^ 30 := by
  rw [readBack_iff htable hbl hev hn]
  exact and_iff_left (.inr ⟨hused.widthsMatch, hused.bitsAgree⟩)

/-- A rows event with all columns, read with the table its table-map event left, is read back
exactly if it has at most `2 ^ 30` rows. -/
theorem parseRowsEvent_readBack_iff (e : TableMapEvent) (r : RowsImageEvent e.columns) (bl : Binlog)
    (tev rev : Mem) (tbl : TableEv) (hn : 0 < e.columns.length) (hused : r.body.AllUsed)
    (hid : r.tableid = e.tableid) (hbl : bl.hdrlen = e.header.hdrlen)
    (hbl' : bl.hdrlen = r.header.hdrlen) (htev : Holds tev 0 e.bytes) (hrev : Holds rev 0 r.bytes)
    (htbl : parseTableMapEvent bl tev = .ok tbl) :
    r.ReadBack { bl with table := tbl } rev ↔ r.body.nrows ≤ 2 ^ 30 :=
  readBack_iff_of_allUsed (hid ▸ tableFits_of_holds e hbl htev htbl) hbl' hrev hn hused

/-- A row of the sample table with NULL in all three columns. -/
def nullRow : RowImage sampleTableMap.columns [7] where
  nulls := [7]
  entries := [.null, .null, .null]
  stored := .cons trivial (.cons trivial (.cons trivial .nil))
  used_eq := by decide
  length_nulls := by decide
  nulls_eq := by decide

/-- An insert of `n` such rows. -/
def nullRowsFields (n : ℕ) : RowsFields sampleTableMap.columns where
  header := sampleHeader EventType.writeRows 300 (by decide)
  tableid := 7
  reserved := [1, 0]
  count := [3]
  body := .single [7] (List.replicate n nullRow)
  tableid_lt := sampleId_lt
  length_reserved := length_sampleReserved
  count_encodes := sampleCount_encodes
  length_usedMaps := by
    rintro used ⟨⟩
    · rfl
    · contradiction
  fits := .inl rfl

theorem length_nullRowsFields (n : ℕ) : (nullRowsFields n).bytes.length = 29 + n := by
  have himages : (nullRowsFields n).body.imageBytes.length = n := by
    simp [nullRowsFields, RowsBody.imageBytes, List.length_flatMap, RowImage.bytes, nullRow,
      RowImage.values]
  rw [(nullRowsFields n).length_bytes, himages]
  rfl

def nullRows (n : ℕ) (hn : n < 2 ^ 31 - 29) : RowsImageEvent sampleTableMap.columns where
  toRowsFields := nullRowsFields n
  size_lt := by
    rw [length_nullRowsFields]
    omega

theorem oneRow_lt : 1 < 2 ^ 31 - 29 := by decide

theorem twoRows_lt : 2 < 2 ^ 31 - 29 := by decide

theorem nullRows_allUsed (n : ℕ) : (nullRowsFields n).body.AllUsed := by
  have hall : MarksAll sampleTableMap.columns [7] := by
    unfold MarksAll
    decide
  simpa [RowsBody.AllUsed, nullRowsFields, RowsBody.usedMaps] using hall

/-- The table state after the sample table map. -/
def sampleBinlog : Binlog :=
  { Binlog.zero with hdrlen := 19, table := sampleTableMap.table (ofBytes sampleTableMap.bytes) }

theorem parse_sampleTableMap :
    parseTableMapEvent { Binlog.zero with hdrlen := 19 } (ofBytes sampleTableMap.bytes) =
      .ok sampleBinlog.table :=
  parseTableMapEvent_of_holds sampleTableMap rfl (holds_ofBytes _)

theorem nrows_nullRows (n : ℕ) (hn : n < 2 ^ 31 - 29) : (nullRows n hn).body.nrows = n :=
  List.length_replicate

def tenRows : RowsImageEvent sampleTableMap.columns := nullRows 10 (by norm_num)

theorem parseRowsEvent_readBack_tenRows : tenRows.ReadBack sampleBinlog (ofBytes tenRows.bytes) :=
  (parseRowsEvent_readBack_iff sampleTableMap tenRows { Binlog.zero with hdrlen := 19 }
    (ofBytes sampleTableMap.bytes) (ofBytes tenRows.bytes) sampleBinlog.table (by decide)
    (nullRows_allUsed 10) rfl rfl rfl (holds_ofBytes _) (holds_ofBytes _)
    parse_sampleTableMap).mpr (by rw [tenRows, nrows_nullRows]; norm_num)

def tooManyRows : RowsImageEvent sampleTableMap.columns := nullRows (2 ^ 30 + 1) (by norm_num)

theorem tooManyRows_not_readBack :
    parseTableMapEvent { Binlog.zero with hdrlen := 19 } (ofBytes sampleTableMap.bytes) =
        .ok sampleBinlog.table ∧
      tooManyRows.body.AllUsed ∧
      ¬tooManyRows.ReadBack sampleBinlog (ofBytes tooManyRows.bytes) := by
  refine ⟨parse_sampleTableMap, nullRows_allUsed _, fun hread => ?_⟩
  have htable : TableFits sampleBinlog.table tooManyRows.tableid sampleTableMap.columns :=
    tableFits_of_holds sampleTableMap rfl (holds_ofBytes _) parse_sampleTableMap
  have hle := (readBack_iff_of_allUsed htable rfl (holds_ofBytes _) (by decide)
    (nullRows_allUsed _)).mp hread
  rw [tooManyRows, nrows_nullRows] at hle
  omega

end LibBinlog
