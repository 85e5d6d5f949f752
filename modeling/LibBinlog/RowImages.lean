import LibBinlog.RowsFormat

/-!
# Reading one row image

`parseRowsEvent` looks up the NULL bit of a column at the column's own index and steps over one
bitmap as wide as the column count. `CellsAgree` says that the bits found there lead to the cells
the image means; it is exactly the condition under which the image is read back. Whatever the bits
are, an image that gives the right cells has moved the cursor by the bitmap and the values.
-/

namespace LibBinlog

open Machine Memory

variable {bl : Binlog} {ev : Mem} {p isnull isused : ℤ} {i k : ℕ} {evcur evcur' : EventCursor}

/-- One column of the row loop. -/
def readCell (bl : Binlog) (isnull isused : ℤ) (i : ℕ) (evcur : EventCursor) :
    Except Fault (Cell × EventCursor) :=
  if !isSet evcur.ev isnull i && isSet evcur.ev isused i then
    value2Cell evcur (bl.table.types.getD i 0) (bl.table.metas.getD i 0)
  else .ok (.empty, evcur)

theorem readCells_succ : readCells bl isnull isused (k + 1) i evcur =
    (readCell bl isnull isused i evcur).bind fun out =>
      (readCells bl isnull isused k (i + 1) out.2).map fun out' => (out.1 :: out'.1, out'.2) := by
  rw [readCells, readCell]
  split_ifs with h
  · cases value2Cell evcur (bl.table.types.getD i 0) (bl.table.metas.getD i 0) with
    | error e => rfl
    | ok out =>
      simp only [Except.bind]
      cases readCells bl isnull isused k (i + 1) out.2 <;> rfl
  · simp only [Except.bind]
    cases readCells bl isnull isused k (i + 1) evcur <;> rfl

theorem readCells_succ_ok {cell : Cell} {cells : BlRow} :
    readCells bl isnull isused (k + 1) i evcur = .ok (cell :: cells, evcur') ↔
      ∃ mid, readCell bl isnull isused i evcur = .ok (cell, mid) ∧
        readCells bl isnull isused k (i + 1) mid = .ok (cells, evcur') := by
  rw [readCells_succ]
  cases readCell bl isnull isused i evcur with
  | error e => simp [Except.bind]
  | ok out =>
    obtain ⟨cell', mid⟩ := out
    simp only [Except.bind, Except.ok.injEq, Prod.mk.injEq]
    cases hrest : readCells bl isnull isused k (i + 1) mid with
    | error e =>
      simp only [Except.map, reduceCtorEq, false_iff, not_exists, not_and]
      rintro mid' ⟨-, rfl⟩
      simp [hrest]
    | ok out =>
      simp only [Except.map, Except.ok.injEq, Prod.mk.injEq, List.cons.injEq]
      constructor
      · rintro ⟨⟨rfl, rfl⟩, rfl⟩
        exact ⟨mid, ⟨rfl, rfl⟩, hrest⟩
      · rintro ⟨mid', ⟨rfl, rfl⟩, hmid⟩
        rw [hrest] at hmid
        cases hmid
        exact ⟨⟨rfl, rfl⟩, rfl⟩

/-- The NULL bit read at the column's index gives the cell the entry means: a NULL column that is
read as a value must be one whose bytes give the empty cell and move nothing. -/
def Entry.BitAgrees (ev : Mem) (nulls : List UInt8) (c : ColumnDef) (i : ℕ) (p : ℤ) : Entry → Prop
  | absent => True
  | null => bitAt nulls i = true ∨ value2Cell ⟨ev, p⟩ c.type c.word = .ok (.empty, ⟨ev, p⟩)
  | value _ => bitAt nulls i = false

def CellsAgree (ev : Mem) (nulls : List UInt8) : List ColumnDef → List Entry → ℕ → ℤ → Prop
  | c :: cols, e :: entries, i, p =>
    e.BitAgrees ev nulls c i p ∧ CellsAgree ev nulls cols entries (i + 1) (p + e.bytes.length)
  | _, _, _, _ => True

/-- The bitmaps and the table at column `i`, as the layout has them. -/
structure ColumnRead (bl : Binlog) (ev : Mem) (isused : ℤ) (i : ℕ) (c : ColumnDef) (e : Entry) :
    Prop where
  type : bl.table.types.getD i 0 = c.type
  word : bl.table.metas.getD i 0 = c.word
  used : isSet ev isused i = e.isUsed
  stored : e.StoredIn c
  size_lt : e.bytes.length < 2 ^ 31

variable {c : ColumnDef} {e : Entry} {nulls : List UInt8}

theorem readCell_consumes (h : ColumnRead bl evcur.ev isused i c e)
    (hcell : readCell bl isnull isused i evcur = .ok (e.cell c, evcur')) :
    evcur.Moved e.bytes.length evcur' := by
  rw [readCell, h.type, h.word, h.used] at hcell
  split_ifs at hcell with hbit
  · cases e with
    | absent => simp [Entry.isUsed] at hbit
    | null =>
      rw [value2Cell_empty hcell]
      exact .refl _
    | value bs =>
      rw [(Stored.decodes_standalone h.stored h.size_lt).consumes _ _ hcell]
      exact .advance _ _
  · cases e with
    | absent =>
      cases hcell
      exact .refl _
    | null =>
      cases hcell
      exact .refl _
    | value bs =>
      exact absurd (congrArg Prod.fst (Except.ok.inj hcell)).symm
        (Stored.decodes_standalone h.stored h.size_lt).ne_empty

theorem readCell_iff (evcur' : EventCursor) (h : ColumnRead bl ev isused i c e)
    (hnull : isSet ev isnull i = bitAt nulls i) (h0 : 0 ≤ p)
    (h1 : p + e.bytes.length < 2 ^ 31) (hev : Holds ev p e.bytes) :
    readCell bl isnull isused i ⟨ev, p⟩ = .ok (e.cell c, evcur') ↔
      e.BitAgrees ev nulls c i p ∧ evcur' = ⟨ev, p + e.bytes.length⟩ := by
  rw [readCell, h.type, h.word, h.used, hnull]
  cases e with
  | absent => simp [Entry.BitAgrees, eq_comm]
  | null =>
    cases hbit : bitAt nulls i with
    | true => simp [Entry.BitAgrees, hbit, eq_comm]
    | false =>
      simp only [Entry.BitAgrees, hbit, Entry.isUsed, Entry.cell, Entry.bytes, Bool.not_false,
        Bool.and_self, if_true, Bool.false_eq_true, false_or, List.length_nil, Nat.cast_zero,
        add_zero]
      constructor
      · intro he
        have hcur := value2Cell_empty he
        subst hcur
        exact ⟨he, rfl⟩
      · rintro ⟨he, rfl⟩
        exact he
  | value bs =>
    have hdec := Stored.decodes_standalone h.stored h.size_lt
    have hread := hdec.reads ev p h0 h1 hev
    cases hbit : bitAt nulls i with
    | false => simp [Entry.BitAgrees, hbit, hread, eq_comm]
    | true => simp [Entry.BitAgrees, hbit, hdec.ne_empty.symm]

/-! ## The cells of an image -/

variable {pre suf : List ColumnDef} {entries : List Entry}

/-- The bitmaps and the table from the column behind `pre` on. -/
structure ColumnsRead (bl : Binlog) (ev : Mem) (isused : ℤ) (pre suf : List ColumnDef)
    (entries : List Entry) : Prop where
  types : bl.table.types = (pre ++ suf).map ColumnDef.type
  metas : bl.table.metas = (pre ++ suf).map ColumnDef.word
  used : ∀ k (h : k < entries.length), isSet ev isused (pre.length + k) = entries[k].isUsed
  stored : List.Forall₂ Entry.StoredIn suf entries
  size_lt : (entries.flatMap Entry.bytes).length < 2 ^ 31

theorem ColumnsRead.head (h : ColumnsRead bl ev isused pre (c :: suf) (e :: entries)) :
    ColumnRead bl ev isused pre.length c e := by
  have hsize := h.size_lt
  rw [List.flatMap_cons, List.length_append] at hsize
  refine ⟨?_, ?_, h.used 0 (by simp), (List.forall₂_cons.mp h.stored).1, by omega⟩
  · simp [h.types]
  · simp [h.metas]

theorem ColumnsRead.rest (h : ColumnsRead bl ev isused pre (c :: suf) (e :: entries)) :
    ColumnsRead bl ev isused (pre ++ [c]) suf entries := by
  have hsize := h.size_lt
  rw [List.flatMap_cons, List.length_append] at hsize
  refine ⟨by simp [h.types], by simp [h.metas], fun k hk => ?_, (List.forall₂_cons.mp h.stored).2,
    by omega⟩
  have hnext := h.used (k + 1) (by simpa using hk)
  rw [List.length_append, List.length_singleton, add_assoc, Nat.add_comm 1 k]
  exact hnext

theorem readCells_consumes (h : ColumnsRead bl evcur.ev isused pre suf entries)
    (hcells : readCells bl isnull isused suf.length pre.length evcur =
      .ok (List.zipWith Entry.cell suf entries, evcur')) :
    evcur.Moved (entries.flatMap Entry.bytes).length evcur' := by
  induction suf generalizing pre entries evcur with
  | nil =>
    cases h.stored
    cases hcells
    exact .refl _
  | cons c suf ih =>
    obtain ⟨e, entries, -, -, rfl⟩ := List.forall₂_cons_left_iff.mp h.stored
    obtain ⟨mid, hcell, hrest⟩ := readCells_succ_ok.mp hcells
    have hmid := readCell_consumes h.head hcell
    have hnext := h.rest
    rw [← hmid.1] at hnext
    rw [List.flatMap_cons, List.length_append]
    refine hmid.trans (ih hnext ?_)
    rw [List.length_append, List.length_singleton]
    exact hrest

theorem readCells_iff (evcur' : EventCursor) (h : ColumnsRead bl ev isused pre suf entries)
    (hnull : ∀ k, k < suf.length → isSet ev isnull (pre.length + k) = bitAt nulls (pre.length + k))
    (h0 : 0 ≤ p) (h1 : p + (entries.flatMap Entry.bytes).length < 2 ^ 31)
    (hev : Holds ev p (entries.flatMap Entry.bytes)) :
    readCells bl isnull isused suf.length pre.length ⟨ev, p⟩ =
        .ok (List.zipWith Entry.cell suf entries, evcur') ↔
      CellsAgree ev nulls suf entries pre.length p ∧
        evcur' = ⟨ev, p + (entries.flatMap Entry.bytes).length⟩ := by
  induction suf generalizing pre entries p with
  | nil =>
    cases h.stored
    simp [readCells, CellsAgree, eq_comm]
  | cons c suf ih =>
    obtain ⟨e, entries, -, -, rfl⟩ := List.forall₂_cons_left_iff.mp h.stored
    rw [List.flatMap_cons, List.length_append] at h1 ⊢
    rw [List.flatMap_cons, holds_append] at hev
    have hcell (mid : EventCursor) := readCell_iff mid h.head
      (by simpa using hnull 0 (by simp)) h0 (by omega) hev.1
    have hrest := ih h.rest (fun k hk => by
      have := hnull (k + 1) (by simpa using hk)
      rw [List.length_append, List.length_singleton, add_assoc, Nat.add_comm 1 k]
      exact this) (by omega) (by omega) hev.2
    rw [List.length_append, List.length_singleton] at hrest
    rw [List.length_cons, List.zipWith_cons_cons, readCells_succ_ok, CellsAgree]
    constructor
    · rintro ⟨mid, hmid, hcells⟩
      obtain ⟨hbit, rfl⟩ := (hcell mid).mp hmid
      obtain ⟨hagree, rfl⟩ := hrest.mp hcells
      exact ⟨⟨hbit, hagree⟩, by push_cast; rw [add_assoc]⟩
    · rintro ⟨⟨hbit, hagree⟩, rfl⟩
      refine ⟨_, (hcell _).mpr ⟨hbit, rfl⟩, hrest.mpr ⟨hagree, ?_⟩⟩
      push_cast
      rw [add_assoc]

/-! ## A whole image -/

variable {fr : RowsFrame} {cols : List ColumnDef} {used : List UInt8} {img : RowImage cols used}

/-- The used columns fill a bitmap as wide as the one over all columns. -/
def WidthMatches (cols : List ColumnDef) (used : List UInt8) : Prop :=
  (usedCount cols.length used + 7) / 8 = (cols.length + 7) / 8

namespace RowImage

/-- What the row loop steps over for the image. -/
def taken (img : RowImage cols used) : ℕ := (cols.length + 7) / 8 + img.values.length

theorem length_bytes (img : RowImage cols used) :
    img.bytes.length = (usedCount cols.length used + 7) / 8 + img.values.length := by
  rw [bytes, List.length_append, img.length_nulls]

theorem length_le_taken (img : RowImage cols used) : img.bytes.length ≤ img.taken := by
  have hcount : usedCount cols.length used ≤ cols.length :=
    List.countP_le_length.trans_eq List.length_range
  rw [img.length_bytes, taken]
  omega

theorem taken_eq_iff (img : RowImage cols used) :
    img.taken = img.bytes.length ↔ WidthMatches cols used := by
  rw [img.length_bytes, taken, WidthMatches]
  omega

end RowImage

def RowImage.Agrees (img : RowImage cols used) (ev : Mem) (p : ℤ) : Prop :=
  CellsAgree ev img.nulls cols img.entries 0 (p + img.nulls.length)

theorem isSet_of_holds {bitmap : ℤ} {bits : List UInt8} (h : Holds ev bitmap bits)
    (hi : i < 8 * bits.length) : isSet ev bitmap i = bitAt bits i := h.testBit hi

theorem RowImage.isUsed_getElem (img : RowImage cols used) (h : i < img.entries.length) :
    img.entries[i].isUsed = bitAt used i := by
  have hmap := List.getElem_of_eq img.used_eq (i := i) (by simpa using h)
  simpa using hmap

/-- What `parseRowsEvent` has fixed for events of this table. -/
structure FrameReads (bl : Binlog) (fr : RowsFrame) (cols : List ColumnDef) : Prop where
  types : bl.table.types = cols.map ColumnDef.type
  metas : bl.table.metas = cols.map ColumnDef.word
  nfields : fr.nfields = cols.length
  bitlen : fr.bitlen = ((cols.length + 7) / 8 : ℕ)

theorem columnsRead_image (hfr : FrameReads bl fr cols) (hused : Holds ev isused used)
    (hlen : used.length = (cols.length + 7) / 8) (hsize : img.values.length < 2 ^ 31) :
    ColumnsRead bl ev isused [] cols img.entries where
  types := hfr.types
  metas := hfr.metas
  used k h := by
    have hk := img.length_entries
    rw [img.isUsed_getElem h, List.length_nil, Nat.zero_add]
    exact isSet_of_holds hused (by omega)
  stored := img.stored
  size_lt := hsize

theorem readImage_consumes (hfr : FrameReads bl fr cols) (hused : Holds evcur.ev isused used)
    (hlen : used.length = (cols.length + 7) / 8) (hsize : img.values.length < 2 ^ 31)
    (himg : readImage bl fr isused evcur = .ok (img.cells, evcur')) :
    evcur.Moved img.taken evcur' := by
  rw [readImage, hfr.nfields, hfr.bitlen] at himg
  exact (EventCursor.Moved.step _ _ _).trans
    (readCells_consumes (columnsRead_image hfr hused hlen hsize) himg)

theorem readImage_iff (evcur' : EventCursor) (hfr : FrameReads bl fr cols)
    (hused : Holds ev isused used) (hlen : used.length = (cols.length + 7) / 8)
    (hwidth : WidthMatches cols used) (h0 : 0 ≤ p) (h1 : p + img.bytes.length < 2 ^ 31)
    (hev : Holds ev p img.bytes) :
    readImage bl fr isused ⟨ev, p⟩ = .ok (img.cells, evcur') ↔
      img.Agrees ev p ∧ evcur' = ⟨ev, p + img.bytes.length⟩ := by
  have hnulls : img.nulls.length = (cols.length + 7) / 8 := img.length_nulls.trans hwidth
  have hbytes : img.bytes.length = img.nulls.length + img.values.length := List.length_append
  have hsize : img.values.length < 2 ^ 31 := by omega
  have hcells := @readCells_iff bl ev (p + img.nulls.length) p isused img.nulls [] cols
    img.entries evcur' (columnsRead_image hfr hused hlen hsize)
    (fun k hk => isSet_of_holds hev.left (by rw [List.length_nil]; omega)) (by omega)
    (by rw [← RowImage.values]; omega) hev.right
  have hskip : toInt32 (p + fr.bitlen) = p + img.nulls.length := by
    rw [hfr.bitlen, ← hnulls]
    exact toInt32_of_range (by omega) (by omega)
  rw [readImage, hfr.nfields, hskip, RowImage.cells, RowImage.Agrees, hbytes]
  rw [List.length_nil, ← RowImage.values] at hcells
  rw [hcells, Nat.cast_add, add_assoc]

end LibBinlog
