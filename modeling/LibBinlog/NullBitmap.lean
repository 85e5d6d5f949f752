import LibBinlog.TableMapFormat

/-!
# The NULL bitmap of a table-map event

The bitmap of nullable columns stands behind the metadata block. `parseTableMapEvent` goes as many
bytes from the start of that block as the table has columns, not as the block has bytes, and takes a
byte for each column from there. What it keeps is the bitmap for a single column with one byte of
metadata, and else only if the metadata it hits upon looks like the bitmap.
-/

namespace LibBinlog

open Machine Memory

variable {e : TableMapEvent} {ev : Mem} {tbl : TableEv}

/-- Every memory in which the event stands gives this table, so nothing behind the event was read.
Its `canbenull` begins with the NULL bitmap and has the bit of each column. -/
structure KeepsNullBitmap (e : TableMapEvent) (tbl : TableEv) : Prop where
  parsed : ∀ (bl : Binlog) (ev : Mem), bl.hdrlen = e.header.hdrlen → Holds ev 0 e.bytes →
    parseTableMapEvent bl ev = .ok tbl
  bitmap : tbl.canbenull.take ((e.columns.length + 7) / 8) = e.nullable
  nullable : ∀ i < e.columns.length, isSet (ofBytes tbl.canbenull) 0 i = bitAt e.nullable i

namespace TableMapFields

variable (e : TableMapFields)

/-- The table has one column with one byte of metadata, or so much metadata that the bytes taken lie
inside the event, and those of the metadata block among them are the bitmap's. -/
def BitmapFound : Prop :=
  e.columns.length = 1 ∧ e.metadata.length = 1 ∨
    2 * e.columns.length ≤ e.metadata.length + e.nullable.length ∧
      (e.metadata.drop e.columns.length).take e.nullable.length = e.nullable

instance : Decidable e.BitmapFound := inferInstanceAs (Decidable (_ ∨ _))

theorem length_metadata_le : e.metadata.length ≤ 2 * e.columns.length := by
  unfold metadata
  induction e.columns with
  | nil => rfl
  | cons c columns ih =>
    have hwidth : c.metaBytes.length ≤ 2 := by
      rw [ColumnDef.metaBytes, MetaForm.length_bytes]
      cases metaForm c.type <;> simp [MetaForm.width]
    rw [List.flatMap_cons, List.length_append, List.length_cons]
    omega

theorem length_bytes :
    e.bytes.length = e.metadataOffset + (e.metadata.length + e.nullable.length) := by
  have htotal := (length_eventBytes e.header e.body).trans e.length_body
  rw [bytes, htotal, metadataOffset, tail]
  simp only [List.length_append, List.length_map]
  omega

end TableMapFields

theorem holds_metadata (hev : Holds ev 0 e.bytes) :
    Holds ev (e.metadataOffset : ℕ) (e.metadata ++ e.nullable) := by
  have htail := (tailRead_of_holds hev).tail
  have hmetalen := (htail.next rfl).next (k := e.tailOffset + e.count.length + e.columns.length)
    (by simp)
  exact hmetalen.next rfl

/-- What the parser takes, as long as that lies inside the event. -/
theorem canbenull_of_le (hev : Holds ev 0 e.bytes)
    (hle : 2 * e.columns.length ≤ e.metadata.length + e.nullable.length) :
    (e.table ev).canbenull =
      ((e.metadata ++ e.nullable).drop e.columns.length).take e.columns.length := by
  have hlen : (e.metadata ++ e.nullable).length = e.metadata.length + e.nullable.length :=
    List.length_append
  have hsplit := holds_metadata hev
  rw [← List.take_append_drop e.columns.length (e.metadata ++ e.nullable)] at hsplit
  have hrest : Holds ev (e.metadataOffset + e.columns.length : ℕ)
      ((e.metadata ++ e.nullable).drop e.columns.length) :=
    hsplit.next (by rw [List.length_take]; omega)
  rw [← List.take_append_drop e.columns.length (List.drop _ _)] at hrest
  exact hrest.left.slice_eq (by rw [List.length_take, List.length_drop]; omega)

/-- Beyond the event the parser takes what stands there. -/
theorem le_of_table_eq (h : ∀ ev, Holds ev 0 e.bytes → e.table ev = tbl) :
    2 * e.columns.length ≤ e.metadata.length + e.nullable.length := by
  by_contra hgt
  have hfill (x : UInt8) : Holds (store (fun _ => x) 0 e.bytes) 0 e.bytes := holds_store _ _ _
  -- the first byte taken that stands behind the event
  obtain ⟨i, hi, hbehind⟩ : ∃ i < e.columns.length,
      e.bytes.length ≤ e.metadataOffset + e.columns.length + i := by
    rw [e.length_bytes]
    exact ⟨e.columns.length - 1, by omega, by omega⟩
  have hbyte (x : UInt8) : tbl.canbenull.getD i 0 = x := by
    rw [← h _ (hfill x)]
    have hlt : i < (slice (store (fun _ => x) 0 e.bytes)
        (e.metadataOffset + e.columns.length : ℕ) e.columns.length).length := by
      rwa [length_slice]
    rw [TableMapFields.table, List.getD_eq_getElem _ _ hlt, getElem_slice]
    exact store_of_ge _ (by omega)
  exact absurd ((hbyte 0).symm.trans (hbyte 1)) (by decide)

/-- Inside the event, the bytes taken begin with the bitmap exactly where it is found. -/
theorem take_eq_nullable_iff
    (hle : 2 * e.columns.length ≤ e.metadata.length + e.nullable.length) :
    ((e.metadata ++ e.nullable).drop e.columns.length).take e.nullable.length = e.nullable ↔
      e.BitmapFound := by
  have hbitmap := e.length_nullable
  have hmeta := e.length_metadata_le
  unfold TableMapFields.BitmapFound
  by_cases hone : e.columns.length = 1 ∧ e.metadata.length = 1
  · have hdrop : (e.metadata ++ e.nullable).drop e.columns.length = e.nullable := by
      rw [hone.1, ← hone.2, List.drop_left]
    rw [hdrop, List.take_length]
    exact iff_of_true rfl (.inl hone)
  · have henough : e.nullable.length ≤ (e.metadata.drop e.columns.length).length := by
      rw [List.length_drop]
      omega
    rw [List.drop_append_of_le_length (by omega), List.take_append_of_le_length henough]
    constructor
    · exact fun h => .inr ⟨hle, h⟩
    · rintro (h | h)
      · exact absurd h hone
      · exact h.2

theorem KeepsNullBitmap.table_eq (h : KeepsNullBitmap e tbl) (hev : Holds ev 0 e.bytes) :
    e.table ev = tbl := by
  let bl : Binlog := { Binlog.zero with hdrlen := e.header.hdrlen }
  have hparse : parseTableMapEvent bl ev = .ok (e.table ev) := parseTableMapEvent_of_holds e rfl hev
  exact Except.ok.inj (hparse.symm.trans (h.parsed bl ev rfl hev))

theorem isSet_of_take {canbenull bitmap : List UInt8} {n : ℕ} (hlen : bitmap.length = (n + 7) / 8)
    (htake : canbenull.take bitmap.length = bitmap) {i : ℕ} (hi : i < n) :
    isSet (ofBytes canbenull) 0 i = bitAt bitmap i := by
  have hsplit := List.take_append_drop bitmap.length canbenull
  rw [htake] at hsplit
  have hholds : Holds (ofBytes canbenull) 0 (bitmap ++ canbenull.drop bitmap.length) := by
    rw [hsplit]
    exact holds_ofBytes canbenull
  exact hholds.left.testBit (by omega)

/-- A table keeps the NULL bitmap of its event exactly if the parser finds it. -/
theorem keepsNullBitmap_iff (e : TableMapEvent) :
    (∃ tbl, KeepsNullBitmap e tbl) ↔ e.BitmapFound := by
  have hlen := e.length_nullable
  constructor
  · rintro ⟨tbl, hkeeps⟩
    have hle := le_of_table_eq fun ev hev => hkeeps.table_eq hev
    have htake := canbenull_of_le (holds_ofBytes e.bytes) hle
    have hbitmap := hkeeps.bitmap
    rw [hkeeps.table_eq (holds_ofBytes e.bytes)] at htake
    rw [← hlen, htake, List.take_take, min_eq_left (by omega)] at hbitmap
    exact (take_eq_nullable_iff hle).mp hbitmap
  · intro hfound
    have hle : 2 * e.columns.length ≤ e.metadata.length + e.nullable.length := by
      rcases hfound with ⟨hcolumns, hmeta⟩ | ⟨hle, -⟩
      · omega
      · exact hle
    have hsame (ev : Mem) (hev : Holds ev 0 e.bytes) :
        e.table ev = e.table (ofBytes e.bytes) := by
      have hcanbenull := (canbenull_of_le hev hle).trans
        (canbenull_of_le (holds_ofBytes e.bytes) hle).symm
      exact congrArg (fun c => { e.table ev with canbenull := c }) hcanbenull
    have htake : (e.table (ofBytes e.bytes)).canbenull.take e.nullable.length = e.nullable := by
      rw [canbenull_of_le (holds_ofBytes e.bytes) hle, List.take_take, min_eq_left (by omega)]
      exact (take_eq_nullable_iff hle).mpr hfound
    refine ⟨e.table (ofBytes e.bytes), fun bl ev hbl hev => ?_, hlen ▸ htake, fun i hi => ?_⟩
    · rw [parseTableMapEvent_of_holds e hbl hev, hsame ev hev]
    · exact isSet_of_take hlen htake hi

/-- Three columns with three bytes of metadata: all that is taken stands behind the block, and two
of its three bytes behind the event. -/
theorem sampleTableMap_not_keepsNullBitmap : ¬∃ tbl, KeepsNullBitmap sampleTableMap tbl := by
  rintro ⟨tbl, hkeeps⟩
  exact absurd (le_of_table_eq fun ev hev => hkeeps.table_eq hev) (by decide)

end LibBinlog
