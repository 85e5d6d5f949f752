import LibBinlog.MySQL
import LibBinlog.LengthEncoded

/-!
# What the packet readers accept

A reader's outcome depends on how its bytes arrive and, where it goes on with them, on the shape of
the block: the lengths that its length-encoded numbers and its text take up. A block of the wrong
shape ends in the assertion of `readBinary`.
-/

namespace LibBinlog

open Machine Memory Arrivals

variable {m : Mem} {block : Mem} {c : Conn} {len plen pos : ℕ}

/-! ## Bodies -/

theorem readUint8_view (h : pos + 1 ≤ len) (hlen : len < 2 ^ 63) :
    (Vio.view m len pos).readUint8 = .ok ((m pos).toNat, .view m len (pos + 1)) := by
  rw [Vio.readUint8, readUint_view h hlen, leNat_slice_one]

theorem readEncodeLength_bytes (b : LengthBytes) (hm : Holds m pos b.bytes)
    (h : pos + b.width ≤ len) (hlen : len < 2 ^ 63) :
    readEncodeLength (.view m len pos) = .ok (b.value, .view m len (pos + b.width)) := by
  obtain ⟨hfirst, hrest⟩ := holds_cons.mp hm
  have hone : 1 ≤ b.width := one_le_encodedWidth _
  unfold readEncodeLength
  rw [ok_bind (readUint8_view (by omega) hlen), hfirst]
  dsimp only
  rcases b.cases with ⟨hlt, hwidth, hvalue⟩ | ⟨hzero, hwidth, hvalue⟩ |
      ⟨k, hform, hwidth, hk, hvalue⟩
  · rw [if_pos hlt, hwidth, hvalue]
  · rw [hwidth, hvalue]
    rcases hzero with h | h <;> rw [h] <;> rfl
  · have hread : (Vio.view m len (pos + 1)).readUint k =
        .ok (b.value, .view m len (pos + b.width)) := by
      have htaken : slice m (pos + 1 : ℕ) k = b.rest.take k := by
        rw [Nat.cast_succ]
        exact hrest.slice_take hk
      rw [readUint_view (by omega) hlen, htaken, ← hvalue, hwidth, Nat.add_assoc, Nat.add_comm 1]
    rw [← hread]
    rcases hform with ⟨h, rfl⟩ | ⟨h, rfl⟩ | ⟨h, rfl⟩ <;> rw [h] <;> rfl

theorem readEncodeLength_view (h : pos + encodedWidth (m pos).toNat ≤ len) (hlen : len < 2 ^ 63) :
    ∃ n, readEncodeLength (.view m len pos) =
      .ok (n, .view m len (pos + encodedWidth (m pos).toNat)) := by
  have hone := one_le_encodedWidth (m pos).toNat
  let b : LengthBytes :=
    ⟨m pos, slice m (pos + 1) (encodedWidth (m pos).toNat - 1), by rw [length_slice]; omega⟩
  have hrest : Holds m (pos + 1) b.rest := by rw [Holds, length_slice]
  exact ⟨b.value, readEncodeLength_bytes b (holds_cons.mpr ⟨rfl, hrest⟩) h hlen⟩

theorem readEncodeLength_view_short (hpos : pos ≤ len)
    (h : len < pos + encodedWidth (m pos).toNat) (hlen : len < 2 ^ 63) :
    readEncodeLength (.view m len pos) = .error .assertion := by
  unfold readEncodeLength
  by_cases hone : pos + 1 ≤ len
  · rw [ok_bind (readUint8_view hone hlen)]
    dsimp only
    generalize (m pos).toNat = first at h
    unfold encodedWidth at h
    have hwide : ¬first < 251 ∧ first ≠ 251 := by
      split_ifs at h <;> omega
    rw [if_neg hwide.1, if_neg hwide.2]
    split_ifs at h ⊢
    · exact readUint_view_short hone (by omega) hlen
    · exact readUint_view_short hone (by omega) hlen
    · exact readUint_view_short hone (by omega) hlen
    · omega
  · exact error_bind (readUint_view_short hpos (by omega) hlen)

theorem readEncodeLength_first (h : encodedWidth (m (0 : ℕ)).toNat ≤ len) (hlen : len < 2 ^ 63) :
    ∃ n, readEncodeLength (.view m len 0) =
      .ok (n, .view m len (encodedWidth (m (0 : ℕ)).toNat)) := by
  have hle : 0 + encodedWidth (m (0 : ℕ)).toNat ≤ len := by rwa [Nat.zero_add]
  have hread := readEncodeLength_view hle hlen
  rwa [Nat.zero_add] at hread

/-- Where the two numbers of an OK packet end. -/
def okFieldsEnd (m : Mem) : ℕ :=
  encodedWidth (m (0 : ℕ)).toNat + encodedWidth (m (encodedWidth (m (0 : ℕ)).toNat)).toNat

/-- The numbers, and then nothing or at least the status and the warnings. -/
def OkBody (m : Mem) (plen : ℕ) : Prop := okFieldsEnd m = plen ∨ okFieldsEnd m + 4 ≤ plen

instance (m : Mem) (plen : ℕ) : Decidable (OkBody m plen) := inferInstanceAs (Decidable (_ ∨ _))

theorem readOkFields (h : okFieldsEnd m ≤ len) (hlen : len < 2 ^ 63) : ∃ affected insertid,
    readEncodeLength (.view m len 0) =
      .ok (affected, .view m len (encodedWidth (m (0 : ℕ)).toNat)) ∧
    readEncodeLength (.view m len (encodedWidth (m (0 : ℕ)).toNat)) =
      .ok (insertid, .view m len (okFieldsEnd m)) := by
  unfold okFieldsEnd at h ⊢
  obtain ⟨affected, h₁⟩ := readEncodeLength_first ((Nat.le_add_right _ _).trans h) hlen
  obtain ⟨insertid, h₂⟩ := readEncodeLength_view h hlen
  exact ⟨affected, insertid, h₁, h₂⟩

theorem OkPkt.parse_of_okBody (pkt : OkPkt) (h : OkBody m plen) (hlen : plen < 2 ^ 63) :
    ∃ pkt', pkt.parse (.view m plen 0) plen = .ok pkt' ∧ pkt'.message ≠ .wild := by
  have hend : okFieldsEnd m ≤ plen := by
    unfold OkBody at h
    omega
  obtain ⟨affected, insertid, h₁, h₂⟩ := readOkFields hend hlen
  unfold OkPkt.parse
  rw [ok_bind h₁]
  dsimp only
  rw [ok_bind h₂]
  dsimp only
  rw [vioBufferTell_view, unsigned_natCast (by omega)]
  by_cases hmore : okFieldsEnd m = plen
  · exact ⟨_, if_pos hmore, nofun⟩
  · have hroom : okFieldsEnd m + 4 ≤ plen := h.resolve_left hmore
    rw [if_neg hmore, Vio.readUint16, ok_bind (readUint_view (by omega) hlen)]
    dsimp only
    rw [Vio.readUint16, ok_bind (readUint_view (by omega) hlen)]
    dsimp only
    rw [vioBufferTell_view, unsigned_sub (by omega) hlen]
    by_cases hempty : plen - (okFieldsEnd m + 2 + 2) = 0
    · exact ⟨_, if_pos hempty, nofun⟩
    · rw [if_neg hempty, ok_bind (readBinary_view (by omega) hlen)]
      exact ⟨_, rfl, nofun⟩

theorem OkPkt.parse_of_not_okBody (pkt : OkPkt) (h : ¬OkBody m plen) (hlen : plen < 2 ^ 63) :
    pkt.parse (.view m plen 0) plen = .error .assertion := by
  obtain ⟨hne, hlt⟩ := not_or.mp h
  unfold OkPkt.parse
  by_cases hend : okFieldsEnd m ≤ plen
  · obtain ⟨affected, insertid, h₁, h₂⟩ := readOkFields hend hlen
    rw [ok_bind h₁]
    dsimp only
    rw [ok_bind h₂]
    dsimp only
    rw [vioBufferTell_view, unsigned_natCast (by omega), if_neg hne]
    by_cases hstatus : okFieldsEnd m + 2 ≤ plen
    · rw [Vio.readUint16, ok_bind (readUint_view hstatus hlen)]
      exact error_bind (readUint_view_short hstatus (by omega) hlen)
    · exact error_bind (readUint_view_short hend (by omega) hlen)
  · unfold okFieldsEnd at hend
    by_cases hfirst : encodedWidth (m (0 : ℕ)).toNat ≤ plen
    · obtain ⟨affected, h₁⟩ := readEncodeLength_first hfirst hlen
      rw [ok_bind h₁]
      exact error_bind (readEncodeLength_view_short hfirst (by omega) hlen)
    · exact error_bind (readEncodeLength_view_short (Nat.zero_le _) (by omega) hlen)

/-- Where the message of an error packet begins. -/
def messageStart (m : Mem) : ℕ := if m 2 = 35 then 8 else 3

/-- The message of an error packet, null if it has no bytes. -/
def errorMessage (m : Mem) (plen : ℕ) : Pointer :=
  if messageStart m = plen then .null
  else .text (slice m (messageStart m) (plen - messageStart m))

theorem readErrorState (state : List UInt8) (h : messageStart m ≤ len) (hlen : len < 2 ^ 63) :
    ∃ state', (if (m (0 + 2 : ℕ)).toNat = 35 then readBinary (.view m len 3) 5
      else .ok (state, .view m len 3)) = .ok (state', .view m len (messageStart m)) := by
  have hsmarker : (m (0 + 2 : ℕ)).toNat = 35 ↔ m 2 = 35 := by
    rw [← UInt8.toNat_inj]
    rfl
  unfold messageStart at h ⊢
  by_cases hmark : m 2 = 35
  · rw [if_pos hmark] at h ⊢
    rw [if_pos (hsmarker.mpr hmark)]
    exact ⟨_, readBinary_view h hlen⟩
  · rw [if_neg hmark, if_neg (mt hsmarker.mp hmark)]
    exact ⟨state, rfl⟩

theorem ErrorPkt.parse_of_le (pkt : ErrorPkt) (h : messageStart m ≤ plen) (hlen : plen < 2 ^ 31) :
    ∃ pkt', pkt.parse (.view m plen 0) plen = .ok pkt' ∧
      pkt'.message = errorMessage m plen := by
  have h63 : plen < 2 ^ 63 := by omega
  have hthree : 3 ≤ plen := by
    unfold messageStart at h
    split_ifs at h <;> omega
  obtain ⟨state, hstate⟩ := readErrorState pkt.state h h63
  have hleft : toInt32 ((plen : ℤ) - messageStart m) = (plen - messageStart m : ℕ) := by
    rw [toInt32_of_range (by omega) (by omega), Nat.cast_sub h]
  unfold ErrorPkt.parse
  rw [Vio.readUint16, ok_bind (readUint_view (by omega) h63)]
  dsimp only
  rw [ok_bind (readUint8_view (by omega) h63)]
  dsimp only
  rw [ok_bind hstate]
  dsimp only
  rw [vioBufferTell_view, hleft]
  unfold errorMessage
  by_cases hempty : messageStart m = plen
  · rw [if_pos hempty, if_pos (by omega)]
    exact ⟨_, rfl, rfl⟩
  · rw [if_neg hempty, if_neg (by omega), unsigned_natCast (by omega),
      ok_bind (readBinary_view (by omega) h63)]
    exact ⟨_, rfl, rfl⟩

theorem ErrorPkt.parse_of_lt (pkt : ErrorPkt) (h : plen < messageStart m) :
    pkt.parse (.view m plen 0) plen = .error .assertion := by
  have height : plen < 8 := by
    unfold messageStart at h
    split_ifs at h <;> omega
  unfold ErrorPkt.parse
  by_cases htwo : 2 ≤ plen
  · rw [Vio.readUint16, ok_bind (readUint_view (by omega) (by omega))]
    dsimp only
    by_cases hthree : 3 ≤ plen
    · have hmark : m 2 = 35 := by
        by_contra hmark
        rw [messageStart, if_neg hmark] at h
        omega
      have hsmarker : (m (0 + 2 : ℕ)).toNat = 35 := congrArg UInt8.toNat hmark
      rw [ok_bind (readUint8_view (by omega) (by omega))]
      dsimp only
      rw [if_pos hsmarker]
      exact error_bind (readBinary_view_short hthree (by omega) (by omega))
    · exact error_bind (readUint_view_short htwo (by omega) (by omega))
  · exact error_bind (readUint_view_short (Nat.zero_le _) (by omega) (by omega))

theorem EofPkt.parse_of_le (pkt : EofPkt) (h : 4 ≤ plen) (hlen : plen < 2 ^ 63) :
    ∃ pkt', pkt.parse (.view m plen 0) = .ok pkt' := by
  unfold EofPkt.parse
  rw [Vio.readUint16, ok_bind (readUint_view (by omega) hlen)]
  dsimp only
  rw [Vio.readUint16, ok_bind (readUint_view (by omega) hlen)]
  exact ⟨_, rfl⟩

theorem EofPkt.parse_of_lt (pkt : EofPkt) (h : plen < 4) :
    pkt.parse (.view m plen 0) = .error .assertion := by
  unfold EofPkt.parse
  by_cases htwo : 2 ≤ plen
  · rw [Vio.readUint16, ok_bind (readUint_view (by omega) (by omega))]
    exact error_bind (readUint_view_short (by omega) (by omega) (by omega))
  · exact error_bind (readUint_view_short (by omega) (by omega) (by omega))

/-! ## Reading what arrives -/

/-- A header from its bytes, missing ones taken as zero. -/
def headerOf (bytes : List UInt8) : PktHeader :=
  ⟨Int32.ofNat (leNat (slice (ofBytes bytes) (0 : ℕ) 3)), (ofBytes bytes (3 : ℕ)).toNat⟩

theorem readPktHeader_eq (header : PktHeader) (c : Conn) : readPktHeader header c =
    .ok (if (c.reception 4).failed then (.protoErr, header, c.after 4)
      else (.protoOk, headerOf (c.reception 4).items, c.after 4)) := by
  have hread : anetRead c 4 = _ := anetRead_natCast c 4
  rw [readPktHeader, hread]
  dsimp only
  cases hfailed : (c.reception 4).failed with
  | true => simp
  | false =>
    have hcount : ¬((c.reception 4).items.length : ℤ) = -1 := by omega
    simp only [Bool.false_eq_true, if_false, if_neg hcount]
    rw [vioInitWithBuffer_of_lt (by norm_num), Vio.readUint24,
      ok_bind (readUint_view (by norm_num) (by norm_num))]
    dsimp only
    rw [ok_bind (readUint8_view (by norm_num) (by norm_num))]
    rfl

/-- What the header holds after the read of it. -/
def headerAfter (header : PktHeader) (c : Conn) : PktHeader :=
  if (c.reception 4).failed then header else headerOf (c.reception 4).items

theorem readPktHeader_after (header : PktHeader) (c : Conn) :
    ∃ status, readPktHeader header c = .ok (status, headerAfter header c, c.after 4) := by
  rw [readPktHeader_eq, headerAfter]
  split
  · exact ⟨_, rfl⟩
  · exact ⟨_, rfl⟩

/-- A block after the read of `plen` bytes into it. -/
def filled (block : Mem) (c : Conn) (plen : ℕ) : Mem := store block 0 (c.reception plen).items

/-- The reader goes on with the bytes it has: all have come, or a read has failed. -/
def Taken (c : Conn) (plen : ℕ) : Prop := Arrive plen c.incoming ∨ (c.reception plen).failed = true

theorem not_taken (h : ¬Taken c plen) :
    (c.reception plen).failed = false ∧ (c.reception plen).items.length < plen ∧
      (c.after plen).incoming = [] ∧ c.broken = false := by
  obtain ⟨hnot, hfailed⟩ := not_or.mp h
  obtain ⟨harrive, -⟩ | ⟨-, hended⟩ | ⟨-, hfails, -⟩ := c.reception_cases plen
  · exact absurd harrive hnot
  · exact hended
  · exact absurd hfails hfailed

/-- The comparison of the count with the length, both without sign. -/
theorem count_lt_iff (hlen : plen < 2 ^ 63) :
    unsigned 64 (if (c.reception plen).failed then -1
      else ((c.reception plen).items.length : ℤ)) < plen ↔ ¬Taken c plen := by
  have hminus : unsigned 64 (-1) = 2 ^ 64 - 1 := by decide
  obtain ⟨harrive, hfailed, hlength⟩ | ⟨hnot, hfailed, hlt, -⟩ | ⟨-, hfailed, -⟩ :=
    c.reception_cases plen
  · rw [if_neg (by simp [hfailed]), hlength, unsigned_natCast (by omega)]
    exact iff_of_false (lt_irrefl plen) (not_not.mpr (.inl harrive))
  · rw [if_neg (by simp [hfailed]), unsigned_natCast (by omega)]
    exact iff_of_true hlt (not_or.mpr ⟨hnot, by simp [hfailed]⟩)
  · rw [if_pos hfailed, hminus]
    exact iff_of_false (by omega) (not_not.mpr (.inr hfailed))

theorem not_count_lt (h : Taken c plen) (hlen : plen < 2 ^ 63) :
    ¬unsigned 64 (if (c.reception plen).failed then -1
      else ((c.reception plen).items.length : ℤ)) < plen :=
  mt (count_lt_iff hlen).mp (not_not.mpr h)

theorem malloc_of_lt (block : Mem) (h : plen < 2 ^ 31) : malloc block plen = some block :=
  if_pos (by omega)

theorem readBody_eq {nread : ℤ} {bytes : List UInt8} {c' : Conn} (block : Mem)
    (hlen : plen < 2 ^ 31) (hread : anetRead c plen = (nread, bytes, c')) :
    readBody block plen c = if unsigned 64 nread < plen then (none, c')
      else (some (vioInitWithBuffer (store block 0 bytes) plen), c') := by
  have hcount : toInt32 (plen : ℤ) = plen := toInt32_of_range (by omega) (by omega)
  rw [readBody, malloc_of_lt block hlen, hcount, hread]

theorem readBody_of_large (block : Mem) (c : Conn) (hlen : 2 ^ 63 ≤ plen) :
    readBody block plen c = (none, c) := by
  rw [readBody, malloc, if_neg (by omega)]

theorem readBody_of_taken (block : Mem) (h : Taken c plen) (hlen : plen < 2 ^ 31) :
    readBody block plen c = (some (.view (filled block c plen) plen 0), c.after plen) := by
  have hcount := not_count_lt h (by omega)
  rw [readBody_eq block hlen (anetRead_natCast c plen), if_neg hcount,
    vioInitWithBuffer_of_lt (by omega), filled]

theorem readBody_of_not_taken (block : Mem) (h : ¬Taken c plen) (hlen : plen < 2 ^ 31) :
    readBody block plen c = (none, c.after plen) := by
  rw [readBody_eq block hlen (anetRead_natCast c plen), if_pos ((count_lt_iff (by omega)).mpr h)]

theorem readOkPkt_of_not_taken (block : Mem) (pkt : OkPkt) (h : ¬Taken c plen)
    (hlen : plen < 2 ^ 31) : readOkPkt block pkt plen c = .ok (.protoErr, pkt, c.after plen) := by
  rw [readOkPkt, readBody_of_not_taken block h hlen]

theorem readOkPkt_of_okBody (block : Mem) (pkt : OkPkt) (h : Taken c plen)
    (hbody : OkBody (filled block c plen) plen) (hlen : plen < 2 ^ 31) :
    ∃ pkt', readOkPkt block pkt plen c = .ok (.protoOk, pkt', c.after plen) ∧
      pkt'.message ≠ .wild := by
  obtain ⟨pkt', hparse, hmessage⟩ := pkt.parse_of_okBody hbody (by omega)
  refine ⟨pkt', ?_, hmessage⟩
  rw [readOkPkt, readBody_of_taken block h hlen]
  exact ok_bind hparse

theorem readOkPkt_of_not_okBody (block : Mem) (pkt : OkPkt) (h : Taken c plen)
    (hbody : ¬OkBody (filled block c plen) plen) (hlen : plen < 2 ^ 31) :
    readOkPkt block pkt plen c = .error .assertion := by
  rw [readOkPkt, readBody_of_taken block h hlen]
  exact error_bind (pkt.parse_of_not_okBody hbody (by omega))

theorem readErrorPkt_of_not_taken (block : Mem) (pkt : ErrorPkt) (h : ¬Taken c plen)
    (hlen : plen < 2 ^ 31) :
    readErrorPkt block pkt plen c = .ok (.protoErr, pkt, c.after plen) := by
  rw [readErrorPkt, readBody_of_not_taken block h hlen]

theorem readErrorPkt_of_le (block : Mem) (pkt : ErrorPkt) (h : Taken c plen)
    (hbody : messageStart (filled block c plen) ≤ plen) (hlen : plen < 2 ^ 31) :
    ∃ pkt', readErrorPkt block pkt plen c = .ok (.protoOk, pkt', c.after plen) ∧
      pkt'.message = errorMessage (filled block c plen) plen := by
  obtain ⟨pkt', hparse, hmessage⟩ := pkt.parse_of_le hbody hlen
  refine ⟨pkt', ?_, hmessage⟩
  rw [readErrorPkt, readBody_of_taken block h hlen]
  exact ok_bind hparse

theorem readErrorPkt_of_lt (block : Mem) (pkt : ErrorPkt) (h : Taken c plen)
    (hbody : plen < messageStart (filled block c plen)) (hlen : plen < 2 ^ 31) :
    readErrorPkt block pkt plen c = .error .assertion := by
  rw [readErrorPkt, readBody_of_taken block h hlen]
  exact error_bind (pkt.parse_of_lt hbody)

theorem readErrorPkt_of_large (block : Mem) (pkt : ErrorPkt) (hlen : 2 ^ 63 ≤ plen) :
    readErrorPkt block pkt plen c = .ok (.protoErr, pkt, c) := by
  rw [readErrorPkt, readBody_of_large block c hlen]

theorem readEofPkt_of_overflow (eofbuf : Mem) (pkt : EofPkt)
    (h : 4 < (c.reception plen).items.length) (hlen : plen < 2 ^ 31) :
    readEofPkt eofbuf pkt plen c = .error .memory := by
  have hle := c.length_reception_le plen
  rw [readEofPkt, if_neg (by omega), toInt32_of_range (by omega) (by omega), anetRead_natCast]
  exact if_pos h

theorem readEofPkt_of_not_taken (eofbuf : Mem) (pkt : EofPkt) (h : ¬Taken c plen)
    (hfits : (c.reception plen).items.length ≤ 4) (hlen : plen < 2 ^ 31) :
    readEofPkt eofbuf pkt plen c = .ok (.protoErr, pkt, c.after plen) := by
  have hlt := (not_taken h).2.1
  rw [readEofPkt, if_neg (by omega), toInt32_of_range (by omega) (by omega), anetRead_natCast]
  dsimp only
  rw [if_neg (by omega), if_pos ((count_lt_iff (by omega)).mpr h)]

theorem readEofPkt_of_taken (eofbuf : Mem) (pkt : EofPkt) (h : Taken c plen)
    (hfits : (c.reception plen).items.length ≤ 4) (hle : 4 ≤ plen) (hlen : plen < 2 ^ 31) :
    ∃ pkt', readEofPkt eofbuf pkt plen c = .ok (.protoOk, pkt', c.after plen) := by
  have hcount := not_count_lt h (by omega)
  obtain ⟨pkt', hparse⟩ := pkt.parse_of_le (m := filled eofbuf c plen) hle (by omega)
  refine ⟨pkt', ?_⟩
  rw [readEofPkt, if_neg (by omega), toInt32_of_range (by omega) (by omega), anetRead_natCast]
  dsimp only
  rw [if_neg (by omega), if_neg hcount, vioInitWithBuffer_of_lt (by omega)]
  exact ok_bind hparse

theorem readEofPkt_of_lt (eofbuf : Mem) (pkt : EofPkt) (h : Taken c plen) (hpos : 0 < plen)
    (hlt : plen < 4) : readEofPkt eofbuf pkt plen c = .error .assertion := by
  have hcount := not_count_lt h (by omega)
  have hle := c.length_reception_le plen
  rw [readEofPkt, if_neg (by omega), toInt32_of_range (by omega) (by omega), anetRead_natCast]
  dsimp only
  rw [if_neg (by omega), if_neg hcount, vioInitWithBuffer_of_lt (by omega)]
  exact error_bind (pkt.parse_of_lt (m := filled eofbuf c plen) hlt)

/-! ## Markers -/

theorem left_of_pos (hpos : 0 < plen) (hlen : plen < 2 ^ 63) :
    unsigned 64 ((plen : ℤ) - 1) = plen - 1 := by
  have hsub := unsigned_sub hpos hlen
  rwa [Nat.cast_succ, Nat.cast_zero, zero_add] at hsub

theorem left_zero : unsigned 64 (((0 : ℕ) : ℤ) - 1) = 2 ^ 64 - 1 := by
  decide +kernel

variable {b : UInt8} {later : List (Option UInt8)}

theorem anetRead_marker (hc : c.incoming = some b :: later) :
    anetRead c 1 = (1, [b], { c with incoming := later }) := by
  have hread : anetRead c 1 = _ := anetRead_natCast c 1
  have hone : c.incoming = [b].map some ++ later := hc
  have hrec : c.reception 1 = ⟨[b], false, later⟩ := c.reception_whole hone rfl
  rw [hread, Conn.after, hrec]
  rfl

theorem anetRead_nothing (hc : c.incoming = []) :
    anetRead c 1 = (if c.broken then -1 else 0, [], c) := by
  have hread : anetRead c 1 = _ := anetRead_natCast c 1
  have hnone : c.incoming = ([] : List UInt8).map some := hc
  have hrec : c.reception 1 = ⟨[], c.broken, []⟩ := c.reception_ended hnone Nat.zero_lt_one
  rw [hread, Conn.after, hrec, ← hc]
  rfl

theorem anetRead_fails (hc : c.incoming = none :: later) :
    anetRead c 1 = (-1, [], { c with incoming := later }) := by
  have hread : anetRead c 1 = _ := anetRead_natCast c 1
  have hnone : c.incoming = ([] : List UInt8).map some ++ none :: later := hc
  have hrec : c.reception 1 = ⟨[], true, later⟩ := c.reception_failed hnone Nat.zero_lt_one
  rw [hread, Conn.after, hrec]
  rfl

theorem readReplyPkt_of_marker (marker : UInt8) (block : Mem) (pkt : ReplyPkt) (plen : ℕ)
    (hc : c.incoming = some b :: later) : readReplyPkt marker block pkt plen c =
      readMarkedPkt b block pkt (unsigned 64 (plen - 1)) { c with incoming := later } := by
  rw [readReplyPkt, anetRead_marker hc]
  rfl

theorem readReplyPkt_of_end (marker : UInt8) (block : Mem) (pkt : ReplyPkt) (plen : ℕ)
    (hc : c.incoming = []) (hb : c.broken = false) : readReplyPkt marker block pkt plen c =
      readMarkedPkt marker block pkt (unsigned 64 (plen - 1)) c := by
  rw [readReplyPkt, anetRead_nothing hc, hb]
  rfl

theorem readReplyPkt_of_broken (marker : UInt8) (block : Mem) (pkt : ReplyPkt) (plen : ℕ)
    (hc : c.incoming = []) (hb : c.broken = true) :
    readReplyPkt marker block pkt plen c = .ok (.protoErr, pkt, c) := by
  rw [readReplyPkt, anetRead_nothing hc, hb]
  rfl

theorem readReplyPkt_of_failed (marker : UInt8) (block : Mem) (pkt : ReplyPkt) (plen : ℕ)
    (hc : c.incoming = none :: later) : readReplyPkt marker block pkt plen c =
      .ok (.protoErr, pkt, { c with incoming := later }) := by
  rw [readReplyPkt, anetRead_fails hc]
  rfl

end LibBinlog
