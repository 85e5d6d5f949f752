import LibBinlog.EventFormat

/-!
# Table-map events

The layout of a table-map event: after the header the table id, two reserved bytes, the database and
table names, the column types behind their count, the metadata block behind its length, and the
bitmap of nullable columns. Every offset depends on the fields before it.
-/

namespace LibBinlog

open Machine Memory

/-- How a type's metadata is written in the metadata block. -/
inductive MetaForm
  | absent
  | one
  | bigEndian
  | littleEndian

namespace MetaForm

def width : MetaForm → ℕ
  | absent => 0
  | one => 1
  | bigEndian => 2
  | littleEndian => 2

def bytes : MetaForm → ℕ → List UInt8
  | absent, _ => []
  | one, word => leBytes 1 word
  | bigEndian, word => beBytes 2 word
  | littleEndian, word => leBytes 2 word

@[simp] theorem length_bytes (f : MetaForm) (word : ℕ) : (f.bytes word).length = f.width := by
  cases f <;> simp [bytes, width]

end MetaForm

def metaForm (type : UInt8) : MetaForm :=
  match FieldType.ofByte type with
  | some .tinyBlob | some .blob | some .mediumBlob | some .longBlob | some .float | some .double
  | some .geometry => .one
  | some .string | some .enum | some .set | some .newdecimal => .bigEndian
  | some .varchar | some .bit => .littleEndian
  | _ => .absent

structure ColumnDef where
  type : UInt8
  word : ℕ
  word_lt : word < 256 ^ (metaForm type).width

def ColumnDef.metaBytes (c : ColumnDef) : List UInt8 := (metaForm c.type).bytes c.word

theorem columnMetadata_eq {ev : Mem} {metadata : ℤ} {index : ℕ} (c : ColumnDef)
    (h : Holds ev (metadata + index) c.metaBytes) :
    columnMetadata ev metadata c.type index = (c.word, index + c.metaBytes.length) := by
  obtain ⟨type, word, hword⟩ := c
  simp only [ColumnDef.metaBytes, MetaForm.length_bytes] at h ⊢
  have hone (hw : word < 256) (h : Holds ev (metadata + index) (leBytes 1 word)) :
      getUint8 ev (metadata + index) = word := by
    rw [leBytes, holds_cons] at h
    rw [getUint8, h.1, UInt8.toNat_ofNat']
    omega
  have hlittle (hw : word < 256 ^ 2) (h : Holds ev (metadata + index) (leBytes 2 word)) :
      getUint8 ev (metadata + index) = word % 256 ∧
        getUint8 ev (metadata + (index + 1 : ℕ)) = word / 256 := by
    simp only [leBytes, holds_cons, holds_nil, and_true] at h
    rw [Nat.cast_add_one, ← add_assoc, getUint8, getUint8, h.1, h.2, UInt8.toNat_ofNat',
      UInt8.toNat_ofNat']
    omega
  have hbig (hw : word < 256 ^ 2) (h : Holds ev (metadata + index) (beBytes 2 word)) :
      getUint8 ev (metadata + index) = word / 256 ∧
        getUint8 ev (metadata + (index + 1 : ℕ)) = word % 256 := by
    simp only [beBytes, leBytes, List.reverse_cons, List.reverse_nil, List.nil_append,
      List.cons_append, holds_cons, holds_nil, and_true] at h
    rw [Nat.cast_add_one, ← add_assoc, getUint8, getUint8, h.1, h.2, UInt8.toNat_ofNat',
      UInt8.toNat_ofNat']
    omega
  unfold metaForm at h hword ⊢
  unfold columnMetadata
  cases hty : FieldType.ofByte type with
  | none =>
    simp only [hty, MetaForm.width, pow_zero] at hword ⊢
    rw [Nat.lt_one_iff.mp hword, Nat.add_zero]
  | some t =>
    cases t <;> simp only [hty, MetaForm.width, MetaForm.bytes, pow_zero, pow_one] at h hword ⊢
    all_goals first
      | rw [Nat.lt_one_iff.mp hword, Nat.add_zero]
      | rw [hone hword h]
      | rw [getUint16, h.leNat_slice hword]
      | (obtain ⟨h0, h1⟩ := hbig hword h
         rw [h0, h1, Nat.shiftLeft_eq]
         congr 1
         omega)
      | (obtain ⟨h0, h1⟩ := hlittle hword h
         rw [h0, h1, Nat.shiftLeft_eq]
         congr 1
         omega)

/-- The metadata index stays in step with the columns read so far. -/
theorem decodeMetadataFrom_eq {ev : Mem} {metadata : ℤ} (cols : List ColumnDef) (index : ℕ)
    (h : Holds ev (metadata + index) (cols.flatMap ColumnDef.metaBytes)) :
    decodeMetadataFrom ev metadata (cols.map ColumnDef.type) index = cols.map ColumnDef.word := by
  induction cols generalizing index with
  | nil => rfl
  | cons c cols ih =>
    rw [List.flatMap_cons, holds_append] at h
    have hrest : Holds ev (metadata + (index + c.metaBytes.length : ℕ))
        (cols.flatMap ColumnDef.metaBytes) := by
      rw [Nat.cast_add, ← add_assoc]
      exact h.2
    simp only [List.map_cons, decodeMetadataFrom, columnMetadata_eq c h.1, ih _ hrest]

structure TableMapFields where
  header : EventHeader
  tableid : ℕ
  reserved : List UInt8
  dbname : List UInt8
  tblname : List UInt8
  count : List UInt8
  columns : List ColumnDef
  metalen : List UInt8
  nullable : List UInt8
  tableid_lt : tableid < 2 ^ 48
  length_reserved : reserved.length = 2
  dbname_ne_zero : 0 ∉ dbname
  dbname_le : dbname.length ≤ 255
  tblname_ne_zero : 0 ∉ tblname
  tblname_le : tblname.length ≤ 255
  count_encodes : LengthEncodes columns.length count
  metalen_encodes : LengthEncodes (columns.flatMap ColumnDef.metaBytes).length metalen
  length_nullable : nullable.length = (columns.length + 7) / 8

namespace TableMapFields

variable (e : TableMapFields)

def metadata : List UInt8 := e.columns.flatMap ColumnDef.metaBytes

/-- Everything behind the two names. -/
def tail : List UInt8 :=
  e.count ++ (e.columns.map ColumnDef.type ++ (e.metalen ++ (e.metadata ++ e.nullable)))

def body : List UInt8 :=
  leBytes 6 e.tableid ++ (e.reserved ++
    (UInt8.ofNat e.dbname.length :: (e.dbname ++ [0]) ++
      (UInt8.ofNat e.tblname.length :: (e.tblname ++ [0]) ++ e.tail)))

def bytes : List UInt8 := eventBytes e.header e.body

/-- The offset of the column count. -/
def tailOffset : ℕ := e.header.hdrlen + 8 + (e.dbname.length + 2) + (e.tblname.length + 2)

def metadataOffset : ℕ :=
  e.tailOffset + e.count.length + e.columns.length + e.metalen.length

theorem length_body :
    e.header.hdrlen + e.body.length = e.tailOffset + e.tail.length := by
  have := e.length_reserved
  simp only [body, tailOffset, List.length_append, length_leBytes, List.length_cons,
    List.length_nil]
  omega

/-- What `parseTableMapEvent` makes of the event. The bytes it stores as `canbenull` are those
`nfields` bytes behind the start of the metadata block. -/
def table (ev : Mem) : TableEv where
  ts := e.header.ts
  serverid := e.header.serverid
  nextpos := e.header.nextpos
  evlen := e.bytes.length
  dbname := e.dbname
  tblname := e.tblname
  nfields := e.columns.length
  tableid := e.tableid
  types := e.columns.map ColumnDef.type
  canbenull := slice ev (e.metadataOffset + e.columns.length : ℕ) e.columns.length
  metas := e.columns.map ColumnDef.word

end TableMapFields

/-- A table-map event. The drivers measure events with an `int`, so a longer one is never read. -/
structure TableMapEvent extends TableMapFields where
  size_lt : toTableMapFields.bytes.length < 2 ^ 31

/-- A name behind its length byte: where it ends and what `strcpy` makes of it. -/
theorem holds_name {ev : Mem} {cur : ℕ} {name rest : List UInt8}
    (h : Holds ev cur ((UInt8.ofNat name.length :: (name ++ [0])) ++ rest)) (hz : 0 ∉ name)
    (hlen : name.length ≤ 255) :
    getUint8 ev cur = name.length ∧ strcpy256 ev (cur + 1) = .ok name ∧
      Holds ev (cur + (name.length + 2) : ℕ) rest := by
  obtain ⟨hfirst, hname⟩ := holds_cons.mp h.left
  refine ⟨?_, strcpy256_of_holds hname hz hlen, h.next (by simp)⟩
  rw [getUint8, hfirst, UInt8.toNat_ofNat']
  omega

/-- The fields in front of the column count, and the block that starts there. -/
structure TailRead (e : TableMapEvent) (ev : Mem) : Prop where
  header : HeaderRead ev e.header e.bytes.length
  tableid : getUint48 ev e.header.hdrlen = e.tableid
  dblen : getUint8 ev (e.header.hdrlen + 8 : ℕ) = e.dbname.length
  dbname : strcpy256 ev ((e.header.hdrlen + 8 : ℕ) + 1) = .ok e.dbname
  tbllen : getUint8 ev (e.header.hdrlen + 8 + (e.dbname.length + 2) : ℕ) = e.tblname.length
  tblname : strcpy256 ev ((e.header.hdrlen + 8 + (e.dbname.length + 2) : ℕ) + 1) = .ok e.tblname
  tail : Holds ev e.tailOffset e.tail

theorem tailRead_of_holds {e : TableMapEvent} {ev : Mem} (hev : Holds ev 0 e.bytes) :
    TailRead e ev := by
  obtain ⟨hread, hbody⟩ := headerRead_of_holds hev (e.size_lt.trans (by norm_num))
  have hid : getUint48 ev e.header.hdrlen = e.tableid := by
    rw [getUint48_eq]
    exact hbody.left.leNat_slice (by simpa using e.tableid_lt)
  have hreserved := hbody.next (k := e.header.hdrlen + 6) (by simp)
  have hnames := hreserved.next (k := e.header.hdrlen + 8) (by rw [e.length_reserved])
  obtain ⟨hdblen, hdb, hafter⟩ := holds_name hnames e.dbname_ne_zero e.dbname_le
  obtain ⟨htbllen, htbl, htail⟩ := holds_name hafter e.tblname_ne_zero e.tblname_le
  exact ⟨hread, hid, hdblen, hdb, htbllen, htbl, htail⟩

theorem parseTableMapEvent_of_holds (e : TableMapEvent) {bl : Binlog} {ev : Mem}
    (hbl : bl.hdrlen = e.header.hdrlen) (hev : Holds ev 0 e.bytes) :
    parseTableMapEvent bl ev = .ok (e.table ev) := by
  obtain ⟨hread, hid, hdblen, hdb, htbllen, htbl, htail⟩ := tailRead_of_holds hev
  have hsize := e.size_lt
  have hsizes : e.tailOffset + e.count.length + e.columns.length + e.metalen.length +
      e.metadata.length ≤ e.bytes.length := by
    have htotal := (length_eventBytes e.header e.body).trans e.length_body
    simp only [TableMapFields.bytes, htotal, TableMapFields.tail, List.length_append,
      List.length_map]
    omega
  have htail0 : e.header.hdrlen + 8 + (e.dbname.length + 2) + (e.tblname.length + 2) =
    e.tailOffset := rfl
  have hcount := decodeint_of_lengthEncodes e.count_encodes htail.left (by omega)
  have htypes := htail.next rfl
  have hmetalen := htypes.next (k := e.tailOffset + e.count.length + e.columns.length) (by simp)
  have hlen := decodeint_of_lengthEncodes e.metalen_encodes hmetalen.left (by omega)
  have hmeta : Holds ev (e.metadataOffset : ℕ) e.metadata := (hmetalen.next rfl).left
  have hwords : decodeMetadata e.columns.length (e.columns.map ColumnDef.type) ev
      e.metadataOffset = e.columns.map ColumnDef.word := by
    rw [decodeMetadata, Int.toNat_natCast, List.take_of_length_le (by simp)]
    exact decodeMetadataFrom_eq _ 0 (by rwa [Nat.cast_zero, add_zero])
  have h1 : toUInt32 ((e.header.hdrlen : ℤ) + 8) = e.header.hdrlen + 8 :=
    toUInt32_eq (by push_cast; ring) (by omega)
  have h2 : toUInt32 (((e.header.hdrlen + 8 : ℕ) : ℤ) + e.dbname.length + 1 + 1) =
      e.header.hdrlen + 8 + (e.dbname.length + 2) :=
    toUInt32_eq (by push_cast; ring) (by omega)
  have h3 : toUInt32 (((e.header.hdrlen + 8 + (e.dbname.length + 2) : ℕ) : ℤ) +
      e.tblname.length + 1 + 1) = e.tailOffset :=
    toUInt32_eq (by rw [← htail0]; push_cast; ring) (by omega)
  have h4 : toUInt32 (e.columns.length : ℤ) = e.columns.length := toUInt32_natCast (by omega)
  have h5 : toUInt32 (((e.tailOffset + e.count.length : ℕ) : ℤ) + e.columns.length) =
      e.tailOffset + e.count.length + e.columns.length :=
    toUInt32_eq (by push_cast; ring) (by omega)
  have h6 : toUInt32 ((e.metadataOffset : ℤ) + e.columns.length) =
      e.metadataOffset + e.columns.length :=
    toUInt32_eq (by push_cast; ring) (by rw [TableMapFields.metadataOffset]; omega)
  have h7 : toInt32 (e.columns.length : ℤ) = e.columns.length :=
    toInt32_of_range (by omega) (by omega)
  have htypes' : slice ev (e.tailOffset + e.count.length : ℕ) e.columns.length =
      e.columns.map ColumnDef.type := htypes.left.slice_eq (by simp)
  rw [show e.tailOffset + e.count.length + e.columns.length + e.metalen.length =
    e.metadataOffset from rfl] at hlen
  simp only [parseTableMapEvent, hbl, h1, hdblen, h2, htbllen, h3, hcount, h4, htypes', h5, hlen,
    h6, h7, hdb, htbl, hwords, hid, hread.ts, hread.serverid, hread.evlen, hread.nextpos]
  rfl

/-- A well-formed table-map event is read back field by field, whatever stands behind it in
memory. -/
theorem parseTableMapEvent_reads_fields (e : TableMapEvent) (bl : Binlog) (ev : Mem)
    (hbl : bl.hdrlen = e.header.hdrlen) (hev : Holds ev 0 e.bytes) :
    ∃ tbl : TableEv, parseTableMapEvent bl ev = .ok tbl ∧ tbl.tableid = e.tableid ∧
      tbl.dbname = e.dbname ∧ tbl.tblname = e.tblname ∧ tbl.nfields = e.columns.length ∧
      tbl.types = e.columns.map ColumnDef.type ∧ tbl.metas.length = e.columns.length ∧
      ∀ i : ℕ, tbl.metas[i]? = e.columns[i]?.map ColumnDef.word :=
  ⟨e.table ev, parseTableMapEvent_of_holds e hbl hev, rfl, rfl, rfl, rfl, rfl,
    List.length_map _, fun _ => List.getElem?_map⟩

/-- An integer, a string of at most 300 bytes and a short blob. -/
def sampleColumns : List ColumnDef :=
  [⟨FieldType.long.toByte, 0, by decide⟩, ⟨FieldType.varchar.toByte, 300, by decide⟩,
    ⟨FieldType.blob.toByte, 1, by decide⟩]

def sampleHeader (type : UInt8) (nextpos : ℕ) (h : nextpos < 2 ^ 32) : EventHeader :=
  ⟨1000, type, 1, nextpos, 0, [], by decide, by decide, h, by decide, by decide⟩

theorem sampleId_lt : 7 < 2 ^ 48 := by decide

theorem length_sampleReserved : ([1, 0] : List UInt8).length = 2 := rfl

theorem sampleCount_encodes : LengthEncodes sampleColumns.length [3] := .one 3 (by decide)

/-- Table `t` of database `d` with these columns. -/
def sampleTableMap : TableMapEvent where
  header := sampleHeader EventType.tableMap 200 (by decide)
  tableid := 7
  reserved := [1, 0]
  dbname := ascii "d"
  tblname := ascii "t"
  count := [3]
  columns := sampleColumns
  metalen := [3]
  nullable := [6]
  tableid_lt := sampleId_lt
  length_reserved := length_sampleReserved
  dbname_ne_zero := by decide
  dbname_le := by decide
  tblname_ne_zero := by decide
  tblname_le := by decide
  count_encodes := sampleCount_encodes
  metalen_encodes := .one 3 (by decide)
  length_nullable := rfl
  size_lt := by decide

theorem parseTableMapEvent_reads_fields_sample :
    ∃ tbl : TableEv,
      parseTableMapEvent { Binlog.zero with hdrlen := 19 } (ofBytes sampleTableMap.bytes) =
        .ok tbl ∧ tbl.tableid = 7 ∧ tbl.dbname = ascii "d" ∧ tbl.tblname = ascii "t" ∧
      tbl.nfields = 3 ∧ tbl.types = sampleColumns.map ColumnDef.type ∧
      tbl.metas.length = 3 ∧ ∀ i : ℕ, tbl.metas[i]? = sampleColumns[i]?.map ColumnDef.word :=
  parseTableMapEvent_reads_fields sampleTableMap _ _ rfl (holds_ofBytes _)

end LibBinlog
