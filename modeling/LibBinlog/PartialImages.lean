import LibBinlog.FullImages

/-!
# Rows events with some columns

With columns missing, an image's NULL bitmap has one bit for each used column, but the parser looks
up the bit at the column's index and steps over a bitmap for all columns. The two readings agree
only for some patterns of used columns and NULLs.
-/

namespace LibBinlog

open Machine Memory

def RowsBody.Partial {cols : List ColumnDef} (body : RowsBody cols) : Prop :=
  ∃ used ∈ body.usedMaps, ∃ i < cols.length, bitAt used i = false

/-- A rows event with columns missing, read with the table its table-map event left, is read back
exactly if it has at most `2 ^ 30` rows and either none at all, or bitmaps of the width for all
columns in which every used column finds its bit at its own index. -/
theorem parseRowsEvent_readBack_partial_iff (e : TableMapEvent) (r : RowsImageEvent e.columns)
    (bl : Binlog) (tev rev : Mem) (tbl : TableEv) (hleaves : r.body.Partial)
    (hid : r.tableid = e.tableid) (hbl : bl.hdrlen = e.header.hdrlen)
    (hbl' : bl.hdrlen = r.header.hdrlen) (htev : Holds tev 0 e.bytes) (hrev : Holds rev 0 r.bytes)
    (htbl : parseTableMapEvent bl tev = .ok tbl) :
    r.ReadBack { bl with table := tbl } rev ↔ r.body.nrows ≤ 2 ^ 30 ∧
      (r.body.nrows = 0 ∨ (r.body.WidthsMatch ∧ r.body.BitsAgree rev r.imagesOffset)) := by
  obtain ⟨used, -, i, hi, -⟩ := hleaves
  exact readBack_iff (hid ▸ tableFits_of_holds e hbl htev htbl) hbl' hrev (by omega)

/-- An insert of one row with these used columns. -/
def oneRowFields (used : List UInt8) (hused : used.length = 1)
    (img : RowImage sampleTableMap.columns used) : RowsFields sampleTableMap.columns :=
  { nullRowsFields 0 with
    body := .single used [img]
    length_usedMaps := by
      rintro used ⟨⟩
      · exact hused
      · contradiction
    fits := (nullRowsFields 0).fits }

theorem stored_long (bs : List UInt8) (h : bs.length = 4) :
    Stored FieldType.long.toByte 0 bs := .fixed .long 0 bs (by rw [h]; rfl)

/-- The first two columns used, the second NULL. -/
def leadingImage : RowImage sampleTableMap.columns [3] where
  nulls := [2]
  entries := [.value [5, 0, 0, 0], .null, .absent]
  stored := .cons (stored_long _ rfl) (.cons trivial (.cons trivial .nil))
  used_eq := by decide
  length_nulls := by decide
  nulls_eq := by decide

def leadingRow : RowsImageEvent sampleTableMap.columns where
  toRowsFields := oneRowFields [3] rfl leadingImage
  size_lt := by decide

theorem leadingRow_widthsMatch : leadingRow.body.WidthsMatch := by
  rintro used ⟨⟩
  · unfold WidthMatches
    decide
  · contradiction

theorem parseRowsEvent_readBack_leadingRow :
    leadingRow.ReadBack sampleBinlog (ofBytes leadingRow.bytes) :=
  (parseRowsEvent_readBack_partial_iff sampleTableMap leadingRow { Binlog.zero with hdrlen := 19 }
    (ofBytes sampleTableMap.bytes) (ofBytes leadingRow.bytes) sampleBinlog.table
    ⟨[3], List.mem_cons_self, 2, by decide, rfl⟩ rfl rfl rfl (holds_ofBytes _) (holds_ofBytes _)
    parse_sampleTableMap).mpr
    ⟨by decide, .inr ⟨leadingRow_widthsMatch, ⟨rfl, .inl rfl, trivial, trivial⟩, trivial⟩⟩

/-- The last two columns used, the first of them NULL. -/
def trailingImage : RowImage sampleTableMap.columns [6] where
  nulls := [1]
  entries := [.absent, .null, .value [1, 65]]
  stored := .cons trivial (.cons trivial
    (.cons (.blob 1 [65] (by decide) (by decide) (by decide)) .nil))
  used_eq := by decide
  length_nulls := by decide
  nulls_eq := by decide

theorem length_trailingUsed : ([6] : List UInt8).length = 1 := rfl

def trailingRow : RowsImageEvent sampleTableMap.columns where
  toRowsFields := oneRowFields [6] length_trailingUsed trailingImage
  size_lt := by decide

theorem trailingRow_not_readBack :
    parseTableMapEvent { Binlog.zero with hdrlen := 19 } (ofBytes sampleTableMap.bytes) =
        .ok sampleBinlog.table ∧
      trailingRow.body.Partial ∧
        ¬trailingRow.ReadBack sampleBinlog (ofBytes trailingRow.bytes) := by
  refine ⟨parse_sampleTableMap, ⟨[6], List.mem_cons_self, 0, by decide, rfl⟩, fun hread => ?_⟩
  have htable : TableFits sampleBinlog.table trailingRow.tableid sampleTableMap.columns :=
    tableFits_of_holds sampleTableMap rfl (holds_ofBytes _) parse_sampleTableMap
  obtain ⟨-, hnone | ⟨-, hbits⟩⟩ := (readBack_iff htable rfl (holds_ofBytes _) (by decide)).mp hread
  · exact absurd hnone (by decide)
  · obtain ⟨⟨-, hbit | hempty, -⟩, -⟩ := hbits
    · exact absurd hbit (by decide)
    · have hcell := congrArg Cell.mtype (congrArg Prod.fst (Except.ok.inj hempty))
      exact absurd hcell nofun

end LibBinlog
