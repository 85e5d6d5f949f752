import LibBinlog.ClientRefinement
import LibBinlog.EventFormat

/-!
# The file driver

`filedriver.c` reads a binlog file from its first event on: a header of 19 bytes, then as many bytes
as the length in the header leaves. A file of events whose length fields are right is a source that
delivers these events.

`fread` gives 0 or 1, so the branches for -1 are never taken, and the count of the second call is
not looked at: a body cut short leaves the rest of the block as it was.
-/

namespace LibBinlog

open Machine Memory

/-- `path` is the file's content, `none` if it cannot be opened, and `fp` what is unread. `malloc`
gives the bytes that stand in a new block, which may be others each time. -/
structure FileSource where
  path : Option (List UInt8)
  fp : List UInt8
  buf : Mem
  malloc : ℕ → Mem

/-- The length field of an event. -/
def lengthField (header : List UInt8) : ℕ := leNat ((header.drop 9).take 4)

def getEventFromFile (ds : DataSource FileSource) :
    Except Fault (Option Mem × DataSource FileSource) :=
  let header := ds.driver.fp.take 19
  let rest := ds.driver.fp.drop 19
  if header.length < 19 then .ok (none, { ds with driver := { ds.driver with fp := rest } })
  else
    let len := toInt32 (lengthField header)
    let ev := if eventBufSize < len then ds.driver.malloc rest.length else ds.driver.buf
    let size := if eventBufSize < len then len.toNat else eventBufSize
    let left := unsigned 64 (toInt32 (len - 19))
    let body := rest.take left
    if 19 + body.length ≤ size then
      let ev := store (store ev 0 header) 19 body
      .ok (some ev, { ds with driver := { ds.driver with
        fp := rest.drop left
        buf := if eventBufSize < len then ds.driver.buf else ev } })
    else .error .memory

theorem getEventFromFile_unread {ds ds' : DataSource FileSource} {ev : Mem}
    (h : getEventFromFile ds = .ok (some ev, ds')) :
    ds'.driver.fp.length < ds.driver.fp.length := by
  simp only [getEventFromFile, List.length_take] at h
  split_ifs at h <;>
    simp only [Except.ok.injEq, Prod.mk.injEq, Option.some.injEq, reduceCtorEq, false_and] at h
  all_goals
    obtain ⟨-, rfl⟩ := h
    simp only [List.length_drop]
    omega

/-- The magic number is read but not looked at. -/
def openFile (ds : DataSource FileSource) : Except Fault (Bool × DataSource FileSource) :=
  match ds.driver.path with
  | none => .error .memory
  | some content => .ok (true, { ds with driver := { ds.driver with fp := content.drop 4 } })

def fileDriver : Driver FileSource where
  connect := openFile
  getEvent := getEventFromFile
  unread src := src.fp.length
  unread_lt := getEventFromFile_unread

/-- The data source that a `file` URL gives, from the file it names and the name itself. -/
def dsInitWithFile (path : Option (List UInt8)) (logfile : List UInt8) (malloc : ℕ → Mem) :
    DataSource FileSource where
  logfile := logfile
  position := 4
  index := 0
  serverid := -1
  driver := ⟨path, [], fun _ => 0, malloc⟩
  errstr := []

/-! ## Files of events -/

variable {e : List UInt8} {stream : List (List UInt8)} {ds : DataSource FileSource}

/-- The event's length field is its length, which an `int` can hold. -/
structure Sized (e : List UInt8) : Prop where
  ge : 19 ≤ e.length
  lt : e.length < 2 ^ 31
  eq : lengthField e = e.length

theorem lengthField_take (e : List UInt8) : lengthField (e.take 19) = lengthField e := by
  rw [lengthField, lengthField, List.drop_take, List.take_take]
  rfl

theorem sized_eventBytes {h : EventHeader} {body : List UInt8}
    (hlen : (eventBytes h body).length < 2 ^ 31) : Sized (eventBytes h body) where
  ge := by
    rw [length_eventBytes]
    exact h.hdrlen_ge.trans (Nat.le_add_right _ _)
  lt := hlen
  eq := by
    have hsplit : eventBytes h body = (leBytes 4 h.ts ++ [h.type] ++ leBytes 4 h.serverid) ++
        (leBytes 4 (h.hdrlen + body.length) ++
          (leBytes 4 h.nextpos ++ (leBytes 2 h.flags ++ h.extra) ++ body)) := by
      simp only [eventBytes, EventHeader.bytes, List.append_assoc]
    rw [lengthField, hsplit, List.drop_left' (by simp), List.take_left' (by simp), ← hsplit,
      length_eventBytes, leNat_leBytes_of_lt]
    rw [length_eventBytes] at hlen
    exact hlen.trans (by norm_num)

theorem Printable.nil : Printable [] := .of_plain List.not_mem_nil (by decide)

/-- One event is read whole, whatever follows it in the file. -/
theorem getEventFromFile_of_sized {rest : List UInt8} (he : Sized e)
    (hfp : ds.driver.fp = e ++ rest) : ∃ ev buf,
      getEventFromFile ds =
        .ok (some ev, { ds with driver := { ds.driver with fp := rest, buf := buf } }) ∧
      Holds ev 0 e := by
  have hge := he.ge
  have hlt := he.lt
  have hheader : (e ++ rest).take 19 = e.take 19 := List.take_append_of_le_length hge
  have hrest : (e ++ rest).drop 19 = e.drop 19 ++ rest := List.drop_append_of_le_length hge
  have hlen : (e.take 19).length = 19 := List.length_take_of_le hge
  have hfield : toInt32 (lengthField (e.take 19)) = e.length := by
    rw [lengthField_take, he.eq, toInt32_of_range (by omega) (by omega)]
  have hleft : unsigned 64 (toInt32 ((e.length : ℤ) - 19)) = (e.drop 19).length := by
    rw [toInt32_of_range (by omega) (by omega), unsigned, List.length_drop]
    omega
  have hbody : (e.drop 19 ++ rest).take (e.drop 19).length = e.drop 19 := List.take_left
  have hnext : (e.drop 19 ++ rest).drop (e.drop 19).length = rest := List.drop_left
  have hfits : 19 + (e.drop 19).length ≤
      if (eventBufSize : ℤ) < e.length then (e.length : ℤ).toNat else eventBufSize := by
    rw [List.length_drop]
    split_ifs <;> omega
  have hholds (block : Mem) : Holds (store (store block 0 (e.take 19)) 19 (e.drop 19)) 0 e := by
    have h := holds_store_store block 0 (e.take 19) (e.drop 19)
    rwa [hlen, List.take_append_drop] at h
  let block := if eventBufSize < (e.length : ℤ) then ds.driver.malloc (e.drop 19 ++ rest).length
    else ds.driver.buf
  let ev := store (store block 0 (e.take 19)) 19 (e.drop 19)
  refine ⟨ev, if eventBufSize < (e.length : ℤ) then ds.driver.buf else ev, ?_, hholds block⟩
  simp only [getEventFromFile, hfp, hheader, hrest, hlen, hfield, hleft, hbody, hnext,
    lt_irrefl, if_false, if_pos hfits]
  rfl

theorem getEventFromFile_end (hfp : ds.driver.fp = []) :
    getEventFromFile ds = .ok (none, ds) := by
  obtain ⟨logfile, position, index, serverid, ⟨path, fp, buf, malloc⟩, errstr⟩ := ds
  cases hfp
  rfl

/-- The unread part of the file is a list of events. -/
def fileFeed : Feed fileDriver where
  Delivers stream src errstr :=
    src.fp = stream.flatten ∧ (∀ e ∈ stream, Sized e) ∧ Printable errstr
  next := by
    rintro e stream ds ⟨hfp, hsized, herr⟩
    obtain ⟨ev, buf, hget, hev⟩ :=
      getEventFromFile_of_sized (hsized e List.mem_cons_self) (hfp.trans List.flatten_cons)
    exact ⟨ev, _, hget, hev, ⟨rfl, fun e' he' => hsized e' (List.mem_cons_of_mem e he'), herr⟩,
      rfl, rfl, rfl⟩
  last := by
    rintro ds ⟨hfp, hsized, herr⟩
    exact ⟨ds, getEventFromFile_end hfp, ⟨hfp, hsized, herr⟩, ⟨rfl, rfl, rfl⟩, herr⟩

/-- A binlog file: four bytes and the events. -/
def fileBytes (magic : List UInt8) (stream : List (List UInt8)) : List UInt8 :=
  magic ++ stream.flatten

/-- Whatever the position, a client of a binlog file has all its events before it. -/
theorem connectDataSource_file (magic logfile : List UInt8) (hmagic : magic.length = 4)
    (hsized : ∀ e ∈ stream, Sized e) (malloc : ℕ → Mem) (position index : ℕ) (serverid : ℤ) :
    ∃ bc, connectDataSource fileDriver
        (some (dsInitWithFile (some (fileBytes magic stream)) logfile malloc)) position index
        serverid = .ok (.ok bc) ∧
      fileFeed.Delivers stream bc.dataSource.driver bc.dataSource.errstr ∧
      bc.dataSource.coords = ⟨none, logfile, position, 0⟩ := by
  have hdrop : (fileBytes magic stream).drop 4 = stream.flatten := List.drop_left' hmagic
  exact ⟨_, rfl, ⟨hdrop, hsized, .nil⟩, rfl⟩

end LibBinlog
