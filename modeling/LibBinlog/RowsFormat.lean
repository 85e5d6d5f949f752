import LibBinlog.ColumnFormat
import LibBinlog.TableMapFormat
import Mathlib.Data.List.Forall2

/-!
# Rows events

The layout of a rows event: table id, column count, one bitmap of used columns, a second one for the
after images of an update, and the row images. An image holds one NULL bit for each used column, in
order, and the values of the used columns that are not NULL.
-/

namespace LibBinlog

open Machine Memory

/-- A column's place in a row image. -/
inductive Entry
  | absent
  | null
  | value (bytes : List UInt8)

namespace Entry

@[simp] def isUsed : Entry → Bool
  | absent => false
  | _ => true

@[simp] def isNull : Entry → Bool
  | null => true
  | _ => false

@[simp] def bytes : Entry → List UInt8
  | value bs => bs
  | _ => []

def StoredIn (c : ColumnDef) : Entry → Prop
  | value bs => Stored c.type c.word bs
  | _ => True

/-- The cell of a value is what its own bytes decode to, any other cell is empty. -/
@[simp] def cell (c : ColumnDef) : Entry → Cell
  | value bs => standaloneCell c.type c.word bs
  | _ => .empty

end Entry

def usedCount (n : ℕ) (used : List UInt8) : ℕ := (List.range n).countP (bitAt used)

structure RowImage (cols : List ColumnDef) (used : List UInt8) where
  nulls : List UInt8
  entries : List Entry
  stored : List.Forall₂ Entry.StoredIn cols entries
  used_eq : entries.map Entry.isUsed = (List.range cols.length).map (bitAt used)
  length_nulls : nulls.length = (usedCount cols.length used + 7) / 8
  nulls_eq : (entries.filter Entry.isUsed).map Entry.isNull =
    (List.range (usedCount cols.length used)).map (bitAt nulls)

namespace RowImage

variable {cols : List ColumnDef} {used : List UInt8} (img : RowImage cols used)

def values : List UInt8 := img.entries.flatMap Entry.bytes

def bytes : List UInt8 := img.nulls ++ img.values

def cells : BlRow := List.zipWith Entry.cell cols img.entries

theorem length_entries : img.entries.length = cols.length := img.stored.length_eq.symm

end RowImage

inductive RowsBody (cols : List ColumnDef)
  | single (used : List UInt8) (images : List (RowImage cols used))
  | pairs (used usedAfter : List UInt8)
    (images : List (RowImage cols used × RowImage cols usedAfter))

namespace RowsBody

variable {cols : List ColumnDef}

def usedMaps : RowsBody cols → List (List UInt8)
  | single used _ => [used]
  | pairs used usedAfter _ => [used, usedAfter]

def imageBytes : RowsBody cols → List UInt8
  | single _ images => images.flatMap RowImage.bytes
  | pairs _ _ images => images.flatMap fun pair => pair.1.bytes ++ pair.2.bytes

def nrows : RowsBody cols → ℕ
  | single _ images => images.length
  | pairs _ _ images => images.length

/-- The only image of each row, or the second one of each pair. -/
def rows : RowsBody cols → List BlRow
  | single _ images => images.map RowImage.cells
  | pairs _ _ images => images.map fun pair => pair.2.cells

def rowsold : RowsBody cols → Option (List BlRow)
  | single _ _ => none
  | pairs _ _ images => some (images.map fun pair => pair.1.cells)

def Fits (type : UInt8) : RowsBody cols → Prop
  | single _ _ => type = EventType.writeRows ∨ type = EventType.deleteRows
  | pairs _ _ _ => type = EventType.updateRows

theorem ne_update_of_fits {type : UInt8} {used : List UInt8} {images : List (RowImage cols used)}
    (h : (single used images).Fits type) : type ≠ EventType.updateRows := by
  rcases h with rfl | rfl <;> decide

theorem length_rows (body : RowsBody cols) : body.rows.length = body.nrows := by
  cases body <;> exact List.length_map _

end RowsBody

structure RowsFields (cols : List ColumnDef) where
  header : EventHeader
  tableid : ℕ
  reserved : List UInt8
  count : List UInt8
  body : RowsBody cols
  tableid_lt : tableid < 2 ^ 48
  length_reserved : reserved.length = 2
  count_encodes : LengthEncodes cols.length count
  length_usedMaps : ∀ used ∈ body.usedMaps, used.length = (cols.length + 7) / 8
  fits : body.Fits header.type

namespace RowsFields

variable {cols : List ColumnDef} (r : RowsFields cols)

/-- Everything behind the table id and the reserved bytes. -/
def tail : List UInt8 := r.count ++ (r.body.usedMaps.flatten ++ r.body.imageBytes)

def bytes : List UInt8 := eventBytes r.header (leBytes 6 r.tableid ++ (r.reserved ++ r.tail))

def usedOffset : ℕ := r.header.hdrlen + 8 + r.count.length

def imagesOffset : ℕ := r.usedOffset + r.body.usedMaps.flatten.length

/-- What `parseRowsEvent` has fixed when it reaches the rows of this event. -/
def frame : RowsFrame where
  type := r.header.type
  evlen := r.bytes.length
  nfields := cols.length
  bitlen := ((cols.length + 7) / 8 : ℕ)
  isused := r.usedOffset
  isused_u := (r.usedOffset + (cols.length + 7) / 8 : ℕ)

theorem length_bytes : r.bytes.length = r.imagesOffset + r.body.imageBytes.length := by
  have := r.length_reserved
  simp only [bytes, length_eventBytes, tail, imagesOffset, usedOffset, List.length_append,
    length_leBytes]
  omega

/-- An update has two bitmaps of used columns, the other events one. -/
theorem imagesOffset_eq : r.imagesOffset =
    if r.header.type = EventType.updateRows then
      r.usedOffset + (cols.length + 7) / 8 + (cols.length + 7) / 8
    else r.usedOffset + (cols.length + 7) / 8 := by
  have hmaps := r.length_usedMaps
  have hfits := r.fits
  cases hbody : r.body with
  | single used images =>
    rw [hbody] at hmaps hfits
    have hne : r.header.type ≠ EventType.updateRows := RowsBody.ne_update_of_fits hfits
    have hused : used.length = (cols.length + 7) / 8 := hmaps used List.mem_cons_self
    rw [if_neg hne, imagesOffset, hbody, RowsBody.usedMaps, List.flatten_singleton, hused]
  | pairs used usedAfter images =>
    rw [hbody] at hmaps hfits
    have hused : used.length = (cols.length + 7) / 8 := hmaps used List.mem_cons_self
    have hafter : usedAfter.length = (cols.length + 7) / 8 :=
      hmaps usedAfter (List.mem_cons_of_mem used List.mem_cons_self)
    have hupdate : r.header.type = EventType.updateRows := hfits
    rw [if_pos hupdate, imagesOffset, hbody, RowsBody.usedMaps, List.flatten_cons,
      List.flatten_singleton, List.length_append, hused, hafter, add_assoc]

end RowsFields

/-- A rows event of a table with the columns `cols`. -/
structure RowsImageEvent (cols : List ColumnDef) extends RowsFields cols where
  size_lt : toRowsFields.bytes.length < 2 ^ 31

/-- A table state for the columns `cols` under this id, as `parseTableMapEvent` leaves it. -/
structure TableFits (table : TableEv) (tableid : ℕ) (cols : List ColumnDef) : Prop where
  tableid : table.tableid = tableid
  nfields : table.nfields = cols.length
  types : table.types = cols.map ColumnDef.type
  metas : table.metas = cols.map ColumnDef.word
  length_lt : cols.length + 7 < 2 ^ 31

theorem TableMapEvent.length_columns_lt (e : TableMapEvent) : e.columns.length + 7 < 2 ^ 31 := by
  have hsize := e.size_lt
  have htotal := (length_eventBytes e.header e.body).trans e.length_body
  simp only [TableMapFields.bytes, htotal, TableMapFields.tail, TableMapFields.tailOffset,
    List.length_append, List.length_map] at hsize
  omega

theorem tableFits_of_holds (e : TableMapEvent) {bl : Binlog} {ev : Mem} {tbl : TableEv}
    (hbl : bl.hdrlen = e.header.hdrlen) (hev : Holds ev 0 e.bytes)
    (htbl : parseTableMapEvent bl ev = .ok tbl) : TableFits tbl e.tableid e.columns := by
  rw [parseTableMapEvent_of_holds e hbl hev] at htbl
  cases htbl
  exact ⟨rfl, rfl, rfl, rfl, e.length_columns_lt⟩

/-- The two assertions hold, and the row images are found behind the bitmaps. -/
theorem rowsFrame_of_holds {cols : List ColumnDef} (r : RowsImageEvent cols) {bl : Binlog}
    {ev : Mem} (htable : TableFits bl.table r.tableid cols) (hbl : bl.hdrlen = r.header.hdrlen)
    (hev : Holds ev 0 r.bytes) :
    HeaderRead ev r.header r.bytes.length ∧ Holds ev r.usedOffset
      (r.body.usedMaps.flatten ++ r.body.imageBytes) ∧ rowsFrame bl ev =
      .ok (r.frame, r.imagesOffset) := by
  have hsize := r.size_lt
  obtain ⟨hread, hbody⟩ := headerRead_of_holds hev (hsize.trans (by norm_num))
  have hlen := r.length_bytes
  have hlt := htable.length_lt
  have hid : getUint48 ev bl.hdrlen = r.tableid := by
    rw [getUint48_eq, hbl]
    exact hbody.left.leNat_slice (by simpa using r.tableid_lt)
  have hreserved := hbody.next (k := r.header.hdrlen + 6) (by simp)
  have htail := hreserved.next (k := r.header.hdrlen + 8) (by rw [r.length_reserved])
  have himages := htail.next (k := r.usedOffset) rfl
  refine ⟨hread, himages, ?_⟩
  have hoff : r.imagesOffset ≤ r.bytes.length := by omega
  have hoff' : r.usedOffset + r.body.usedMaps.flatten.length = r.imagesOffset := rfl
  have hoff'' : r.header.hdrlen + 8 + r.count.length = r.usedOffset := rfl
  have h1 : toUInt32 ((bl.hdrlen : ℤ) + 8) = r.header.hdrlen + 8 :=
    toUInt32_eq (by rw [hbl]; push_cast; ring) (by omega)
  have hcount := decodeint_of_lengthEncodes r.count_encodes htail.left (by omega)
  rw [hoff''] at hcount
  have h2 : toUInt32 (cols.length : ℤ) = cols.length := toUInt32_natCast (by omega)
  have h3 : toUInt32 bl.table.nfields = cols.length := by rw [htable.nfields, h2]
  have h4 : (toInt32 (toUInt32 ((cols.length : ℤ) + 7))).tdiv 8 = ((cols.length + 7) / 8 : ℕ) := by
    rw [toUInt32_eq (n := cols.length + 7) (by push_cast; ring) (by omega),
      toInt32_of_range (by omega) (by omega)]
    rfl
  have htype : (parseHeader bl ev).type = r.header.type := hread.type
  have hevlen : (parseHeader bl ev).evlen = r.bytes.length := hread.evlen
  have himages := r.imagesOffset_eq
  have h5 : r.usedOffset + (cols.length + 7) / 8 ≤ r.imagesOffset := by
    rw [himages]
    split_ifs <;> omega
  have h6 : toUInt32 (((r.usedOffset : ℕ) : ℤ) + ((cols.length + 7) / 8 : ℕ)) =
      r.usedOffset + (cols.length + 7) / 8 := toUInt32_eq (by push_cast; ring) (by omega)
  simp only [rowsFrame, hid, htable.tableid, if_true, h1, hcount, h2, h3, h4, htype, hevlen, h6]
  rw [RowsFields.frame]
  rw [himages] at hoff ⊢
  split_ifs at hoff ⊢ with hupdate
  · rw [toUInt32_eq (n := r.usedOffset + (cols.length + 7) / 8 + (cols.length + 7) / 8)
      (by push_cast; ring) (by omega)]
  · rfl

end LibBinlog
