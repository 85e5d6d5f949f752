import LibBinlog.RowsLoop

/-!
# Rows events read back

A rows event whose table is known is read back whole exactly if its rows fit into the row arrays and
either it has no rows, or its NULL bitmaps are as wide as the column count makes them and their bits
stand where the columns' own indices point.
-/

namespace LibBinlog

open Machine Memory

variable {bl : Binlog} {ev : Mem} {cols : List ColumnDef}

namespace RowsBody

/-- The rows with what the loop makes of each. -/
def encoded (ev : Mem) : RowsBody cols → List EncodedRow
  | single _ images => images.map fun img =>
    ⟨img.bytes, img.cells, [], img.taken, img.Agrees ev⟩
  | pairs _ _ images => images.map fun pair =>
    ⟨pair.1.bytes ++ pair.2.bytes, pair.2.cells, [pair.1.cells],
      pair.1.taken + pair.2.taken,
      fun p => pair.1.Agrees ev p ∧ pair.2.Agrees ev (p + pair.1.bytes.length)⟩

def WidthsMatch (body : RowsBody cols) : Prop := ∀ used ∈ body.usedMaps, WidthMatches cols used

/-- In every image, from offset `p` on, the bit at a used column's own index says whether the column
is NULL, or the column is NULL and its place decodes to the empty cell anyway. -/
def BitsAgree (ev : Mem) (body : RowsBody cols) (p : ℤ) : Prop := RowsAgree (body.encoded ev) p

variable (body : RowsBody cols)

@[simp] theorem length_encoded : (body.encoded ev).length = body.nrows := by
  cases body <;> exact List.length_map _

theorem rowsBytes_encoded : rowsBytes (body.encoded ev) = body.imageBytes := by
  cases body <;> simp only [rowsBytes, encoded, imageBytes, List.flatMap_map]

theorem map_new_encoded : (body.encoded ev).map EncodedRow.new = body.rows := by
  cases body <;> simp only [encoded, rows, List.map_map] <;> rfl

theorem length_le_taken : ∀ row ∈ body.encoded ev, row.bytes.length ≤ row.taken := by
  intro row hrow
  cases body with
  | single used images =>
    obtain ⟨img, -, rfl⟩ := List.mem_map.mp hrow
    exact img.length_le_taken
  | pairs used usedAfter images =>
    obtain ⟨pair, -, rfl⟩ := List.mem_map.mp hrow
    exact List.length_append.trans_le
      (Nat.add_le_add pair.1.length_le_taken pair.2.length_le_taken)

theorem taken_pos (hn : 0 < cols.length) : ∀ row ∈ body.encoded ev, 0 < row.taken := by
  intro row hrow
  cases body with
  | single used images =>
    obtain ⟨img, -, rfl⟩ := List.mem_map.mp hrow
    simp only [RowImage.taken]
    omega
  | pairs used usedAfter images =>
    obtain ⟨pair, -, rfl⟩ := List.mem_map.mp hrow
    simp only [RowImage.taken]
    omega

theorem taken_eq (h : body.WidthsMatch) :
    ∀ row ∈ body.encoded ev, row.taken = row.bytes.length := by
  intro row hrow
  cases body with
  | single used images =>
    obtain ⟨img, -, rfl⟩ := List.mem_map.mp hrow
    exact img.taken_eq_iff.mpr (h used List.mem_cons_self)
  | pairs used usedAfter images =>
    obtain ⟨pair, -, rfl⟩ := List.mem_map.mp hrow
    simp only [List.length_append]
    rw [pair.1.taken_eq_iff.mpr (h used List.mem_cons_self),
      pair.2.taken_eq_iff.mpr (h usedAfter (List.mem_cons_of_mem used List.mem_cons_self))]

theorem widthsMatch_of_taken_eq {row : EncodedRow} (hrow : row ∈ body.encoded ev)
    (h : row.taken = row.bytes.length) : body.WidthsMatch := by
  cases body with
  | single used images =>
    obtain ⟨img, -, rfl⟩ := List.mem_map.mp hrow
    have hwidth := img.taken_eq_iff.mp h
    simpa [WidthsMatch, usedMaps] using hwidth
  | pairs used usedAfter images =>
    obtain ⟨pair, -, rfl⟩ := List.mem_map.mp hrow
    have h1 := pair.1.length_le_taken
    have h2 := pair.2.length_le_taken
    simp only [List.length_append] at h
    have hwidth := pair.1.taken_eq_iff.mp (by omega)
    have hwidthAfter := pair.2.taken_eq_iff.mp (by omega)
    simpa [WidthsMatch, usedMaps] using ⟨hwidth, hwidthAfter⟩

theorem flatMap_old_encoded : (body.encoded ev).flatMap EncodedRow.old = body.rowsold.getD [] := by
  cases body with
  | single used images => simp [encoded, rowsold, List.flatMap_map]
  | pairs used usedAfter images =>
    simp only [encoded, rowsold, List.flatMap_map, Option.getD_some]
    exact List.map_eq_flatMap.symm

end RowsBody

namespace RowsFields

variable (r : RowsFields cols)

/-- The parser returns the event's rows, in order and with their cells, and has read the event to
its last byte. -/
def ReadBack (bl : Binlog) (ev : Mem) : Prop :=
  ∃ out fr st, parseRowsEvent bl ev = .ok out ∧ parseRowImages bl ev = .ok (fr, st) ∧
    out.nrows = r.body.nrows ∧ out.rows = r.body.rows ∧ out.rowsold = r.body.rowsold ∧
    st.evcur.cur = r.bytes.length

end RowsFields

theorem RowsImageEvent.rowReads (r : RowsImageEvent cols)
    (htable : TableFits bl.table r.tableid cols)
    (hused : Holds ev r.usedOffset r.body.usedMaps.flatten) :
    ∀ row ∈ r.body.encoded ev, RowReads bl r.frame ev row := by
  have hsize := r.size_lt
  have hfr : FrameReads bl r.frame cols := ⟨htable.types, htable.metas, rfl, rfl⟩
  have hmaps := r.length_usedMaps
  have hfits := r.fits
  have hvalues {row : EncodedRow} (h : row ∈ r.body.encoded ev) :
      row.bytes.length < 2 ^ 31 := by
    have hle := length_le_rowsBytes h
    rw [r.body.rowsBytes_encoded] at hle
    have := r.length_bytes
    omega
  intro row hrow
  have hlt := hvalues hrow
  cases hbody : r.body with
  | single used images =>
    rw [hbody] at hmaps hfits hused hrow
    have hne : r.frame.type ≠ EventType.updateRows := RowsBody.ne_update_of_fits hfits
    have hlen := hmaps used List.mem_cons_self
    rw [RowsBody.usedMaps, List.flatten_singleton] at hused
    obtain ⟨img, -, rfl⟩ := List.mem_map.mp hrow
    simp only [img.length_bytes] at hlt
    refine ⟨(if_neg hne).symm, fun evcur evcur' hcur hread => ?_,
      fun htaken p h0 h1 hev evcur' => ?_⟩
    · rw [readRow_single hne] at hread
      exact readImage_consumes hfr (hcur ▸ hused) hlen (by omega) hread
    · rw [readRow_single hne]
      exact readImage_iff _ hfr hused hlen (img.taken_eq_iff.mp htaken) h0 h1 hev
  | pairs used usedAfter images =>
    rw [hbody] at hmaps hfits hused hrow
    have hupdate : r.frame.type = EventType.updateRows := hfits
    have hlen := hmaps used List.mem_cons_self
    have hlenAfter := hmaps usedAfter (List.mem_cons_of_mem used List.mem_cons_self)
    rw [RowsBody.usedMaps, List.flatten_cons, List.flatten_singleton] at hused
    have husedAfter : Holds ev r.frame.isused_u usedAfter :=
      hused.next (k := r.usedOffset + (cols.length + 7) / 8) (by rw [hlen])
    obtain ⟨pair, -, rfl⟩ := List.mem_map.mp hrow
    simp only [List.length_append, pair.1.length_bytes, pair.2.length_bytes] at hlt
    refine ⟨(if_pos hupdate).symm, fun evcur evcur' hcur hread => ?_,
      fun htaken p h0 h1 hev evcur' => ?_⟩
    · obtain ⟨mid, hold, hnew⟩ := (readRow_pair hupdate).mp hread
      have hmid := readImage_consumes hfr (hcur ▸ hused.left) hlen (by omega) hold
      exact hmid.trans (readImage_consumes hfr ((hmid.1.trans hcur) ▸ husedAfter) hlenAfter
        (by omega) hnew)
    · have hwidths := RowsBody.widthsMatch_of_taken_eq _ hrow htaken
      have hwidth := hwidths used List.mem_cons_self
      have hwidthAfter := hwidths usedAfter (List.mem_cons_of_mem used List.mem_cons_self)
      simp only [List.length_append] at h1 ⊢
      have hold (mid : EventCursor) := readImage_iff mid hfr hused.left hlen hwidth h0
        (by omega) hev.left
      have hnew := readImage_iff evcur' hfr husedAfter hlenAfter hwidthAfter
        (p := p + pair.1.bytes.length) (by omega) (by omega) hev.right
      rw [readRow_pair hupdate]
      constructor
      · rintro ⟨mid, hmid, hlast⟩
        obtain ⟨hagree, rfl⟩ := (hold mid).mp hmid
        obtain ⟨hagree', rfl⟩ := hnew.mp hlast
        exact ⟨⟨hagree, hagree'⟩, by push_cast; rw [add_assoc]⟩
      · rintro ⟨⟨hagree, hagree'⟩, rfl⟩
        refine ⟨_, (hold _).mpr ⟨hagree, rfl⟩, hnew.mpr ⟨hagree', ?_⟩⟩
        push_cast
        rw [add_assoc]

theorem RowsFields.taken_le (r : RowsFields cols) :
    ∀ row ∈ r.body.encoded ev, row.taken ≤ r.bytes.length := by
  have hlen := r.length_bytes
  have hmaps := r.length_usedMaps
  intro row hrow
  have hle := length_le_rowsBytes hrow
  rw [r.body.rowsBytes_encoded] at hle
  have hoff : r.imagesOffset = r.usedOffset + r.body.usedMaps.flatten.length := rfl
  cases hbody : r.body with
  | single used images =>
    rw [hbody] at hmaps hrow hoff
    have hused := hmaps used List.mem_cons_self
    rw [RowsBody.usedMaps, List.flatten_singleton] at hoff
    obtain ⟨img, -, rfl⟩ := List.mem_map.mp hrow
    simp only [RowImage.taken, img.length_bytes] at hle ⊢
    omega
  | pairs used usedAfter images =>
    rw [hbody] at hmaps hrow hoff
    have hused := hmaps used List.mem_cons_self
    have husedAfter := hmaps usedAfter (List.mem_cons_of_mem used List.mem_cons_self)
    rw [RowsBody.usedMaps, List.flatten_cons, List.flatten_singleton, List.length_append] at hoff
    obtain ⟨pair, -, rfl⟩ := List.mem_map.mp hrow
    simp only [RowImage.taken, List.length_append, pair.1.length_bytes, pair.2.length_bytes]
      at hle ⊢
    omega

/-- The state in which the row loop of this event starts. -/
def RowsFields.start (r : RowsFields cols) (ev : Mem) : RowsState :=
  ⟨[], [], 8, ⟨ev, r.imagesOffset⟩⟩

variable {r : RowsImageEvent cols}

theorem parseRowImages_of_holds (htable : TableFits bl.table r.tableid cols)
    (hbl : bl.hdrlen = r.header.hdrlen) (hev : Holds ev 0 r.bytes) :
    parseRowImages bl ev =
      (rowsLoop bl r.frame (r.bytes.length + 1) (r.start ev)).map fun st => (r.frame, st) := by
  obtain ⟨-, -, hframe⟩ := rowsFrame_of_holds r htable hbl hev
  have hsize := r.size_lt
  have hoff : toInt32 (r.imagesOffset : ℤ) = r.imagesOffset :=
    toInt32_of_range (by omega) (by have := r.length_bytes; omega)
  rw [parseRowImages, hframe]
  simp only [hoff]
  rfl

/-- The old rows of a run, as the event reports them. -/
theorem extends_encoded_iff {st : RowsState} {fuel : ℕ}
    (hloop : rowsLoop bl r.frame fuel (r.start ev) = .ok st) :
    (r.start ev).Extends st (r.body.encoded ev) ↔ st.rows = r.body.rows ∧
      (if r.header.type = EventType.updateRows then some st.rowsold else none) =
        r.body.rowsold := by
  rw [RowsState.Extends, r.body.map_new_encoded, r.body.flatMap_old_encoded]
  simp only [RowsFields.start, List.nil_append]
  have hfits := r.fits
  refine and_congr_right fun _ => ?_
  cases hbody : r.body with
  | single used images =>
    rw [hbody] at hfits
    have hne := RowsBody.ne_update_of_fits hfits
    have hnil : st.rowsold = [] := rowsLoop_rowsold hne hloop
    simp [RowsBody.rowsold, hne, hnil]
  | pairs used usedAfter images =>
    rw [hbody] at hfits
    have hupdate : r.header.type = EventType.updateRows := hfits
    simp [RowsBody.rowsold, hupdate]

theorem readBack_iff_rowsLoop (htable : TableFits bl.table r.tableid cols)
    (hbl : bl.hdrlen = r.header.hdrlen) (hev : Holds ev 0 r.bytes) :
    r.ReadBack bl ev ↔ ∃ st, rowsLoop bl r.frame (r.bytes.length + 1) (r.start ev) = .ok st ∧
      (r.start ev).Extends st (r.body.encoded ev) ∧ st.evcur.cur = r.bytes.length := by
  obtain ⟨hread, -, -⟩ := rowsFrame_of_holds r htable hbl hev
  have htype : (parseHeader bl ev).type = r.header.type := hread.type
  have himages := parseRowImages_of_holds htable hbl hev
  rw [RowsFields.ReadBack]
  constructor
  · rintro ⟨out, fr, st, hout, himg, -, hrows, hold, hend⟩
    obtain ⟨fr', st', himg', rfl⟩ := parseRowsEvent_ok.mp hout
    cases himg.symm.trans himg'
    cases hloop : rowsLoop bl r.frame (r.bytes.length + 1) (r.start ev) with
    | error e => simp [himages, hloop, Except.map] at himg
    | ok last =>
      rw [himages, hloop] at himg
      cases himg
      rw [htype] at hold
      exact ⟨_, rfl, (extends_encoded_iff hloop).mpr ⟨hrows, hold⟩, hend⟩
  · rintro ⟨st, hloop, hext, hend⟩
    obtain ⟨hrows, hold⟩ := (extends_encoded_iff hloop).mp hext
    rw [hloop] at himages
    refine ⟨_, _, _, parseRowsEvent_ok.mpr ⟨_, _, himages, rfl⟩, himages, ?_, hrows, ?_, hend⟩
    · rw [hrows, r.body.length_rows]
    · rw [htype]
      exact hold

theorem readBack_iff (htable : TableFits bl.table r.tableid cols)
    (hbl : bl.hdrlen = r.header.hdrlen) (hev : Holds ev 0 r.bytes) (hn : 0 < cols.length) :
    r.ReadBack bl ev ↔ r.body.nrows ≤ 2 ^ 30 ∧
      (r.body.nrows = 0 ∨ (r.body.WidthsMatch ∧ r.body.BitsAgree ev r.imagesOffset)) := by
  obtain ⟨-, hbody, -⟩ := rowsFrame_of_holds r htable hbl hev
  have hsize := r.size_lt
  have hlen := r.length_bytes
  have hrows := r.rowReads htable hbody.left
  have hcount : (r.body.encoded ev).length = r.body.nrows := r.body.length_encoded
  have himages : Holds ev r.imagesOffset (rowsBytes (r.body.encoded ev)) := by
    rw [r.body.rowsBytes_encoded]
    exact hbody.next rfl
  have hbytes : (rowsBytes (r.body.encoded ev)).length = r.body.imageBytes.length := by
    rw [r.body.rowsBytes_encoded]
  have hstart : toUInt32 (r.start ev).evcur.cur = r.imagesOffset :=
    toUInt32_natCast (by omega)
  rw [readBack_iff_rowsLoop htable hbl hev]
  constructor
  · rintro ⟨st, hloop, hext, hend⟩
    have hend' : toUInt32 st.evcur.cur = r.frame.evlen := by
      rw [hend]
      exact toUInt32_natCast (by omega)
    obtain ⟨hle, hsum⟩ := rowsLoop_consumes (r.start ev) hrows r.taken_le hsize
      slots_zero rfl hloop hext hend'
    rw [hcount] at hle
    rw [hstart] at hsum
    have hle' : r.body.nrows ≤ 2 ^ 30 := (Nat.le_add_left _ _).trans hle
    have htaken := taken_eq_of_sum r.body.length_le_taken (by
      rw [hbytes]
      have hevlen : r.frame.evlen = r.bytes.length := rfl
      omega)
    refine ⟨hle', (Nat.eq_zero_or_pos r.body.nrows).imp_right fun hpos => ?_⟩
    obtain ⟨row, hrow⟩ := List.exists_mem_of_length_pos (hcount ▸ hpos)
    exact ⟨r.body.widthsMatch_of_taken_eq hrow (htaken row hrow),
      rowsLoop_agrees hrows htaken rfl (Int.natCast_nonneg _) (by omega) himages hloop hext⟩
  · rintro ⟨hle, hagree⟩
    have hempty (h0 : r.body.nrows = 0) : r.body.encoded ev = [] :=
      List.eq_nil_of_length_eq_zero (hcount.trans h0)
    have htaken : ∀ row ∈ r.body.encoded ev, row.taken = row.bytes.length := by
      rcases hagree with h0 | ⟨hwidths, -⟩
      · simp [hempty h0]
      · exact r.body.taken_eq hwidths
    have hpos : ∀ row ∈ r.body.encoded ev, 0 < row.bytes.length := by
      intro row hrow
      rw [← htaken row hrow]
      exact r.body.taken_pos hn row hrow
    have hbits : RowsAgree (r.body.encoded ev) r.imagesOffset := by
      rcases hagree with h0 | ⟨-, hbits⟩
      · rw [hempty h0]
        trivial
      · exact hbits
    have hfuel := length_rows_le hpos
    obtain ⟨st, hloop, hext, -, hcur⟩ := rowsLoop_reads (r.start ev)
      (r.bytes.length + 1 - r.body.nrows) hrows htaken hpos slots_zero
      (by rw [hcount]; exact (Nat.zero_add _).trans_le hle) rfl (Int.natCast_nonneg _)
      (by show _ ≤ (r.bytes.length : ℤ); omega) hsize himages hbits
    have hend : st.evcur.cur = r.bytes.length := by
      rw [hcur]
      simp only
      omega
    have hstop : ¬toUInt32 st.evcur.cur < r.frame.evlen := by
      rw [hend, toUInt32_natCast (by omega)]
      exact lt_irrefl _
    rw [hcount, Nat.add_sub_cancel' (by omega)] at hloop
    refine ⟨st, hloop.trans ?_, hext, hend⟩
    rw [show r.bytes.length + 1 - r.body.nrows = r.bytes.length - r.body.nrows + 1 by omega]
    exact rowsLoop_stop hstop

end LibBinlog
