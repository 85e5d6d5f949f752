import LibBinlog.PacketReads

/-!
# The server driver

`netdriver.c` takes events from a server: it connects, sends the command for a dump, and hands out
the content of one packet after the other.
-/

namespace LibBinlog

open Machine Memory Arrivals

/-- `peer` is what host and port lead to. The variables that a call finds unset may hold something
else each time. -/
structure NetSource where
  peer : Except (List UInt8) Conn
  user : Option (List UInt8)
  passwd : Option (List UInt8)
  scramble : Scramble
  mysql : MySQL
  buf : Mem
  unset : ℕ → Unset

def NetSource.conn (src : NetSource) : Conn := src.mysql.fd.getD .closed

def NetSource.unread (src : NetSource) : ℕ := src.conn.incoming.length

/-- A data source on this connection, nothing read yet. -/
def sourceOn (c : Conn) : DataSource NetSource where
  logfile := []
  position := 4
  index := 0
  serverid := 0
  driver := ⟨.ok c, none, none, ⟨fun _ => .replicate 20 0, fun _ _ => .replicate 9 0⟩,
    ⟨some c, 0, 0, 0, 0, 0, 0, 0, []⟩, fun _ => 0, fun _ => .zero⟩
  errstr := []

def NetSource.readPacket (src : NetSource) : Except Fault (ℤ × Mem × Option Mem × MySQL) :=
  msaferead (src.unset src.unread) src.mysql src.buf eventBufSize

def getEventFromServer (ds : DataSource NetSource) :
    Except Fault (Option Mem × DataSource NetSource) := do
  let src := ds.driver
  let (nread, buf, newbuf, mysql) ← src.readPacket
  let src := { src with mysql := mysql, buf := buf }
  if nread < 0 then do
    let text ← printedErr mysql.errstr
    .ok (none, { ds with driver := src, errstr := snprintfErr text })
  else if nread = 0 then
    .ok (none, { ds with driver := src, errstr := ascii "Lost connection to master" })
  else .ok (some (newbuf.getD buf), { ds with driver := src })

/-- The position, two zero bytes, the server's id and the name of the file go to an array of 256
bytes. -/
def connectMySQL (ds : DataSource NetSource) : Except Fault (Bool × DataSource NetSource) := do
  let src := ds.driver
  let (connected, mysql) ←
    mconnect src.scramble (src.unset 0) src.mysql src.peer src.user src.passwd none
  if connected = false then do
    let text ← printedErr mysql.errstr
    .ok (false, { ds with driver := { src with mysql := mysql }, errstr := snprintfErr text })
  else
    let args := leBytes 4 ds.position ++ leBytes 2 0 ++ leBytes 4 (toUInt32 ds.serverid) ++
      ds.logfile
    if 256 < args.length then .error .memory
    else do
      let (sent, mysql) ← msendcmd (src.unset 1) mysql cmdBinlogDump args
      if sent = false then do
        let text ← printedErr mysql.errstr
        .ok (false, { ds with driver := { src with mysql := mysql }, errstr := snprintfErr text })
      else .ok (true, { ds with driver := { src with mysql := mysql } })

/-! ## One packet -/

variable {c : Conn} {u : Unset} {mysql : MySQL} {buf newblock : Mem} {blen : ℕ} {plen : Int32}
  {marker b : UInt8} {later : List (Option UInt8)}

theorem msaferead_of_marker (hfd : mysql.fd.getD .closed = c)
    (hc : (c.after 4).incoming = some b :: later) : msaferead u mysql buf blen =
      readMarkedEvent u mysql buf blen (headerAfter u.header c).plen b
        { c.after 4 with incoming := later } := by
  obtain ⟨status, hheader⟩ := readPktHeader_after u.header c
  rw [msaferead, hfd, ok_bind hheader]
  dsimp only
  rw [anetRead_marker hc]
  rfl

theorem msaferead_of_end (hfd : mysql.fd.getD .closed = c) (hc : (c.after 4).incoming = [])
    (hb : c.broken = false) : msaferead u mysql buf blen =
      readMarkedEvent u mysql buf blen (headerAfter u.header c).plen (u.marker 0)
        (c.after 4) := by
  obtain ⟨status, hheader⟩ := readPktHeader_after u.header c
  have hb' : (c.after 4).broken = false := hb
  rw [msaferead, hfd, ok_bind hheader]
  dsimp only
  rw [anetRead_nothing hc, hb']
  rfl

theorem msaferead_of_broken (hfd : mysql.fd.getD .closed = c) (hc : (c.after 4).incoming = [])
    (hb : c.broken = true) :
    ∃ mysql', msaferead u mysql buf blen = .ok (-1, buf, none, mysql') := by
  obtain ⟨status, hheader⟩ := readPktHeader_after u.header c
  have hb' : (c.after 4).broken = true := hb
  rw [msaferead, hfd, ok_bind hheader]
  dsimp only
  rw [anetRead_nothing hc, hb']
  exact ⟨_, rfl⟩

theorem msaferead_of_failed (hfd : mysql.fd.getD .closed = c)
    (hc : (c.after 4).incoming = none :: later) :
    ∃ mysql', msaferead u mysql buf blen = .ok (-1, buf, none, mysql') := by
  obtain ⟨status, hheader⟩ := readPktHeader_after u.header c
  rw [msaferead, hfd, ok_bind hheader]
  dsimp only
  rw [anetRead_fails hc]
  exact ⟨_, rfl⟩

/-- The read of `n` bytes does not fail and brings at least one. -/
def Brings (n : ℕ) (c : Conn) : Prop :=
  (c.reception n).failed = false ∧ (c.reception n).items ≠ []

theorem not_brings_zero : ¬Brings 0 c := by
  rintro ⟨-, hitems⟩
  rw [Conn.reception, receive_zero] at hitems
  exact hitems rfl

theorem not_brings_of_end {n : ℕ} (hc : c.incoming = []) : ¬Brings n c := by
  rintro ⟨-, hitems⟩
  exact hitems (c.reception_end n hc).1

/-- The bytes behind the marker. -/
def contentLength (plen : Int32) : ℕ := (plen.toInt - 1).toNat

theorem contentLength_lt (plen : Int32) : contentLength plen < 2 ^ 31 := by
  have hlt := plen.toInt_lt
  rw [contentLength]
  omega

theorem unsigned_contentLength (h : 0 < plen.toInt) :
    unsigned 64 (plen.toInt - 1) = contentLength plen := by
  have hlt := plen.toInt_lt
  rw [unsigned, Int.emod_eq_of_lt (by omega) (by omega), contentLength]

/-- The result of a content read. -/
def contentCount (n : ℕ) (c : Conn) : ℤ :=
  if (c.reception n).failed then -1 else (c.reception n).items.length

theorem contentCount_pos_iff {n : ℕ} : 0 < contentCount n c ↔ Brings n c := by
  unfold contentCount Brings
  cases (c.reception n).failed with
  | true => simp
  | false => simp [List.length_pos_iff]

/-- The block that the content is read to. -/
def contentBlock (newblock buf : Mem) (blen : ℕ) (plen : Int32) (c : Conn) : Mem :=
  filled (if blen < unsigned 64 plen.toInt then newblock else buf) c (contentLength plen)

theorem readContent_of_pos (newblock : Mem) (mysql : MySQL) (buf : Mem) (blen : ℕ) (c : Conn)
    (hpos : 0 < plen.toInt) : ∃ buf' newbuf,
    readContent newblock mysql buf blen plen (unsigned 64 (plen.toInt - 1)) c =
      (contentCount (contentLength plen) c, buf', newbuf,
        mysql.onRead (contentCount (contentLength plen) c) (c.after (contentLength plen))) ∧
    newbuf.getD buf' = contentBlock newblock buf blen plen c := by
  have hlt := plen.toInt_lt
  have hleft := unsigned_contentLength hpos
  have hlen := contentLength_lt plen
  have hcount : toInt32 (contentLength plen : ℤ) = contentLength plen :=
    toInt32_of_range (by omega) (by omega)
  have hsize : unsigned 64 plen.toInt < 2 ^ 31 := by
    rw [unsigned, Int.emod_eq_of_lt (by omega) (by omega)]
    omega
  rw [readContent, malloc_of_lt newblock hsize, hleft, hcount, anetRead_natCast, contentBlock]
  split
  · exact ⟨_, _, rfl, rfl⟩
  · exact ⟨_, _, rfl, rfl⟩

theorem readContent_of_nonpos (newblock : Mem) (mysql : MySQL) (buf : Mem) (c : Conn)
    (hnonpos : plen.toInt ≤ 0) (hblen : blen < 2 ^ 63) : ∃ buf' newbuf mysql',
      readContent newblock mysql buf blen plen (unsigned 64 (plen.toInt - 1)) c =
        (-1, buf', newbuf, mysql') := by
  have hge := plen.le_toInt
  by_cases hzero : plen.toInt = 0
  · have hminus : toInt32 ((unsigned 64 (0 - 1) : ℕ) : ℤ) = -1 := by decide +kernel
    have hread (c : Conn) : anetRead c (-1) = (-1, [], c) := if_pos (by norm_num)
    have hsmall : ¬blen < unsigned 64 0 := Nat.not_lt_zero blen
    rw [readContent, hzero, hminus, if_neg hsmall, hread]
    exact ⟨_, _, _, rfl⟩
  · have hlarge : 2 ^ 63 ≤ unsigned 64 plen.toInt := by
      rw [unsigned]
      omega
    rw [readContent, if_pos (by omega), malloc, if_neg (by omega)]
    exact ⟨_, _, _, rfl⟩

/-- Behind the marker the read of the content is reached, and brings something. -/
def EventTaken (marker : UInt8) (plen : Int32) (c : Conn) : Prop :=
  1 < plen.toInt ∧ marker ≠ 255 ∧
    if marker = 254 ∧ contentLength plen < 8 then
      4 ≤ contentLength plen ∧ (c.reception (contentLength plen)).items.length ≤ 4 ∧
        Brings (contentLength plen) (c.after (contentLength plen))
    else Brings (contentLength plen) c

theorem not_eventTaken_of_end (hc : c.incoming = []) : ¬EventTaken marker plen c := by
  rintro ⟨-, -, h⟩
  split at h
  · exact not_brings_of_end (c.reception_end _ hc).2 h.2.2
  · exact not_brings_of_end hc h

/-- A result that the caller takes for an event. -/
def Positive (r : Except Fault (ℤ × Mem × Option Mem × MySQL)) : Prop :=
  ∃ nread buf newbuf mysql, r = .ok (nread, buf, newbuf, mysql) ∧ 0 < nread

theorem not_positive_error {e : Fault} : ¬Positive (.error e) := nofun

theorem positive_readContent_iff (hblen : blen < 2 ^ 63) :
    Positive (.ok (readContent newblock mysql buf blen plen (unsigned 64 (plen.toInt - 1)) c)) ↔
      1 < plen.toInt ∧ Brings (contentLength plen) c := by
  by_cases hpos : 0 < plen.toInt
  · obtain ⟨buf', newbuf, hcontent, -⟩ :=
      readContent_of_pos newblock mysql buf blen c hpos
    rw [hcontent]
    have hone : Brings (contentLength plen) c → 1 < plen.toInt := by
      intro hbrings
      by_contra hone
      have hzero : contentLength plen = 0 := by
        rw [contentLength]
        omega
      rw [hzero] at hbrings
      exact not_brings_zero hbrings
    rw [← contentCount_pos_iff] at hone ⊢
    constructor
    · rintro ⟨_, _, _, _, heq, hlt⟩
      cases heq
      exact ⟨hone hlt, hlt⟩
    · rintro ⟨-, hlt⟩
      exact ⟨_, _, _, _, rfl, hlt⟩
  · obtain ⟨buf', newbuf, mysql', hcontent⟩ :=
      readContent_of_nonpos newblock mysql buf c (not_lt.mp hpos) hblen
    rw [hcontent]
    refine iff_of_false ?_ fun h => by omega
    rintro ⟨_, _, _, _, heq, hlt⟩
    cases heq
    contradiction

/-- The body of an EOF packet, and the content read behind it. -/
theorem positive_behind_eof_iff (eofbuf : Mem) (eof : EofPkt) (hpos : 0 < plen.toInt)
    (hblen : blen < 2 ^ 63) :
    Positive (do
      let (_, _eof, c) ← readEofPkt eofbuf eof (contentLength plen) c
      .ok (readContent newblock mysql buf blen plen (contentLength plen) c)) ↔
    1 < plen.toInt ∧ 4 ≤ contentLength plen ∧
      (c.reception (contentLength plen)).items.length ≤ 4 ∧
      Brings (contentLength plen) (c.after (contentLength plen)) := by
  have hlen := contentLength_lt plen
  have hcontent (c : Conn) :
      Positive (.ok (readContent newblock mysql buf blen plen (contentLength plen) c)) ↔
        1 < plen.toInt ∧ Brings (contentLength plen) c := by
    rw [← positive_readContent_iff hblen, unsigned_contentLength hpos]
  by_cases hzero : contentLength plen = 0
  · have hone : ¬1 < plen.toInt := by
      rw [contentLength] at hzero
      omega
    have hread : readEofPkt eofbuf eof (contentLength plen) c = .ok (.protoOk, eof, c) := by
      rw [readEofPkt, if_pos hzero]
    rw [ok_bind hread]
    dsimp only
    rw [hcontent]
    exact iff_of_false (fun h => hone h.1) fun h => hone h.1
  by_cases hfits : (c.reception (contentLength plen)).items.length ≤ 4
  · by_cases htaken : Taken c (contentLength plen)
    · by_cases hfour : 4 ≤ contentLength plen
      · obtain ⟨eof', hread⟩ := readEofPkt_of_taken eofbuf eof htaken hfits hfour hlen
        rw [ok_bind hread]
        dsimp only
        rw [hcontent]
        exact and_congr_right' ⟨fun h => ⟨hfour, hfits, h⟩, fun h => h.2.2⟩
      · rw [error_bind (readEofPkt_of_lt eofbuf eof htaken (by omega) (by omega))]
        exact iff_of_false not_positive_error fun h => hfour h.2.1
    · have hend := (not_taken htaken).2.2.1
      rw [ok_bind (readEofPkt_of_not_taken eofbuf eof htaken hfits hlen)]
      dsimp only
      rw [hcontent]
      exact iff_of_false (fun h => not_brings_of_end hend h.2)
        fun h => not_brings_of_end hend h.2.2.2
  · rw [error_bind (readEofPkt_of_overflow eofbuf eof (by omega) hlen)]
    exact iff_of_false not_positive_error fun h => hfits h.2.2.1

/-- Behind the marker, a call takes an event if the content read is reached and brings something,
and only then. -/
theorem positive_readMarkedEvent_iff (hblen : blen < 2 ^ 63) :
    Positive (readMarkedEvent u mysql buf blen plen marker c) ↔ EventTaken marker plen c := by
  have hlen := contentLength_lt plen
  have hge := plen.le_toInt
  unfold EventTaken readMarkedEvent
  by_cases herr : marker = 255
  · rw [if_pos herr]
    refine iff_of_false ?_ fun h => h.2.1 herr
    rintro ⟨nread, _, _, _, heq, hlt⟩
    obtain ⟨⟨_, err, c'⟩, -, heq⟩ := bind_ok_iff.mp heq
    obtain ⟨errstr, -, heq⟩ := bind_ok_iff.mp heq
    cases heq
    contradiction
  rw [if_neg herr]
  by_cases hpos : 0 < plen.toInt
  · by_cases heof : marker = 254 ∧ contentLength plen < 8
    · rw [unsigned_contentLength hpos, if_pos heof, if_pos heof,
        positive_behind_eof_iff _ _ hpos hblen]
      exact and_congr_right' (and_iff_right herr).symm
    · have hmark : ¬(marker = 254 ∧ unsigned 64 (plen.toInt - 1) < 8) := by
        rwa [unsigned_contentLength hpos]
      rw [if_neg hmark, if_neg heof, positive_readContent_iff hblen]
      exact and_congr_right' (and_iff_right herr).symm
  · have hlarge : ¬(marker = 254 ∧ unsigned 64 (plen.toInt - 1) < 8) := by
      rw [unsigned]
      omega
    rw [if_neg hlarge, positive_readContent_iff hblen]
    exact iff_of_false (fun h => by omega) fun h => by omega

/-- The bytes behind the header end with an event taken. -/
def PacketTaken (header : PktHeader) (c : Conn) : Prop :=
  match (c.after 4).incoming with
  | some b :: later =>
    EventTaken b (headerAfter header c).plen { c.after 4 with incoming := later }
  | _ => False

theorem positive_msaferead_iff (hfd : mysql.fd.getD .closed = c) (hblen : blen < 2 ^ 63) :
    Positive (msaferead u mysql buf blen) ↔ PacketTaken u.header c := by
  unfold PacketTaken
  have hminus {mysql' : MySQL} (h : msaferead u mysql buf blen = .ok (-1, buf, none, mysql')) :
      ¬Positive (msaferead u mysql buf blen) := by
    rw [h]
    rintro ⟨_, _, _, _, heq, hlt⟩
    cases heq
    contradiction
  match hc : (c.after 4).incoming with
  | some b :: later =>
    rw [msaferead_of_marker hfd hc, positive_readMarkedEvent_iff hblen]
  | none :: later =>
    obtain ⟨mysql', hread⟩ := msaferead_of_failed hfd hc
    exact iff_of_false (hminus hread) id
  | [] =>
    cases hb : c.broken with
    | true =>
      obtain ⟨mysql', hread⟩ := msaferead_of_broken hfd hc hb
      exact iff_of_false (hminus hread) id
    | false =>
      rw [msaferead_of_end hfd hc hb, positive_readMarkedEvent_iff hblen]
      exact iff_of_false (not_eventTaken_of_end hc) id

theorem getEventFromServer_some_iff {ds : DataSource NetSource} :
    (∃ ev ds', getEventFromServer ds = .ok (some ev, ds')) ↔
      PacketTaken (ds.driver.unset ds.driver.unread).header ds.driver.conn := by
  have hblen : eventBufSize < 2 ^ 63 := by decide
  have htaken : Positive ds.driver.readPacket ↔ _ := positive_msaferead_iff rfl hblen
  rw [NetSource.conn, ← htaken]
  unfold getEventFromServer
  dsimp only
  constructor
  · rintro ⟨ev, ds', heq⟩
    obtain ⟨⟨nread, buf, newbuf, mysql⟩, hread, heq⟩ := bind_ok_iff.mp heq
    refine ⟨nread, buf, newbuf, mysql, hread, ?_⟩
    dsimp only at heq
    by_contra hnot
    split_ifs at heq
    · obtain ⟨text, -, heq⟩ := bind_ok_iff.mp heq
      cases heq
    · cases heq
    · omega
  · rintro ⟨nread, buf, newbuf, mysql, hread, hlt⟩
    refine ⟨newbuf.getD buf, { ds with driver :=
      { ds.driver with mysql := mysql, buf := buf } }, ?_⟩
    rw [ok_bind hread]
    dsimp only
    rw [if_neg (by omega), if_neg (by omega)]

end LibBinlog
