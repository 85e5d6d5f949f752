import LibBinlog.NetDriver

/-!
# Packet boundaries

A server sends packet after packet, each with its length in front: events, errors and the end of the
dump. A call is to take one of them whole, so that the next call finds a header again. It does so
for every packet but an event without content, which it takes for a lost connection, an error whose
message is empty or leaves no room for its terminator, and an EOF packet with a body: behind this
the content is read once more.
-/

namespace LibBinlog

open Machine Memory Arrivals

/-- What a packet carries behind its marker, with the errors and the end of the dump in the form of
the protocol from 4.1 on. -/
inductive PacketBody
  | event (content : List UInt8)
  | error (errno : Vector UInt8 2) (state : Vector UInt8 5) (message : List UInt8)
  | eof (body : List UInt8) (h : body.length < 8)

namespace PacketBody

def marker : PacketBody → UInt8
  | event _ => 0
  | error _ _ _ => 255
  | eof _ _ => 254

def rest : PacketBody → List UInt8
  | event content => content
  | error errno state message => errno.toList ++ 35 :: (state.toList ++ message)
  | eof body _ => body

end PacketBody

/-- The length field of three bytes has room for the payload. -/
structure Packet where
  seq : UInt8
  body : PacketBody
  fits : 1 + body.rest.length < 2 ^ 24

namespace Packet

def bytes (p : Packet) : List UInt8 :=
  leBytes 3 (1 + p.body.rest.length) ++ [p.seq] ++ p.body.marker :: p.body.rest

/-- What a call is to make of the packet: an event with its content, or no event and an error. -/
def Answered (p : Packet) (answer : Option Mem) (errstr : List UInt8) : Prop :=
  match p.body with
  | .event content => ∃ ev, answer = some ev ∧ Holds ev 0 content
  | .error _ _ message => answer = none ∧ errstr = (cstring message).take 255
  | .eof _ _ => answer = none ∧ errstr ≠ []

/-- The packet does not meet a slip of the reader, with these packets behind it. -/
def Clean (p : Packet) (behind : List Packet) : Prop :=
  match p.body with
  | .event content => content ≠ []
  | .error _ _ message => message ≠ [] ∧ (cstring message).length < 256
  | .eof body _ => body = [] ∨ body.length = 4 ∧ behind = []

end Packet

/-- One call after the other, each answers one packet and leaves the packets behind it. -/
def ReadsPackets : List Packet → DataSource NetSource → Prop
  | [], _ => True
  | p :: ps, ds => ∃ answer ds', getEventFromServer ds = .ok (answer, ds') ∧
      p.Answered answer ds'.errstr ∧
      ds'.driver.conn.incoming = (ps.flatMap Packet.bytes).map some ∧ ReadsPackets ps ds'

/-! ## Header and marker -/

variable {p : Packet} {ps : List Packet} {ds : DataSource NetSource} {c : Conn}
  {later : List (Option UInt8)} {u : Unset} {mysql : MySQL} {buf : Mem} {blen : ℕ}

theorem headerOf_plen {n : ℕ} (seq : UInt8) (hn : n < 2 ^ 24) :
    (headerOf (leBytes 3 n ++ [seq])).plen.toInt = n := by
  have hholds : Holds (ofBytes (leBytes 3 n ++ [seq])) (0 : ℕ) (leBytes 3 n) :=
    (holds_ofBytes _).left
  have hslice := hholds.leNat_slice hn
  rw [headerOf, hslice, Int32.toInt_ofNat_of_lt (by omega)]

/-- The header and the marker of a packet are read, and its rest is left. -/
theorem readPacket_eq {src : NetSource} (hfd : src.mysql.fd = some c)
    (hc : c.incoming = p.bytes.map some ++ later) : ∃ plen : Int32,
      plen.toInt = 1 + p.body.rest.length ∧ src.readPacket =
        readMarkedEvent (src.unset src.unread) src.mysql src.buf eventBufSize plen p.body.marker
          { c with incoming := p.body.rest.map some ++ later } := by
  have hgetD : src.mysql.fd.getD .closed = c := by rw [hfd]; rfl
  have hsplit : c.incoming = (leBytes 3 (1 + p.body.rest.length) ++ [p.seq]).map some ++
      (some p.body.marker :: (p.body.rest.map some ++ later)) := by
    rw [hc, Packet.bytes, List.map_append, List.map_cons, List.append_assoc, List.cons_append]
  have hrec := c.reception_whole (n := 4) hsplit rfl
  have hafter : c.after 4 =
      { c with incoming := some p.body.marker :: (p.body.rest.map some ++ later) } := by
    rw [Conn.after, hrec]
  have hheader (header : PktHeader) : headerAfter header c =
      headerOf (leBytes 3 (1 + p.body.rest.length) ++ [p.seq]) := by
    rw [headerAfter, hrec]
    rfl
  refine ⟨_, headerOf_plen p.seq p.fits, ?_⟩
  rw [NetSource.readPacket, msaferead_of_marker hgetD (congrArg Conn.incoming hafter), hheader,
    hafter]

theorem contentLength_eq {plen : Int32} {n : ℕ} (h : plen.toInt = 1 + n) :
    contentLength plen = n := by
  rw [contentLength]
  omega

theorem left_eq {plen : Int32} {n : ℕ} (h : plen.toInt = 1 + n) :
    unsigned 64 (plen.toInt - 1) = n := by
  rw [unsigned_contentLength (by omega), contentLength_eq h]

/-! ## Behind the marker -/

variable {plen : Int32} {bs : List UInt8}

/-- A read of bytes that all arrive. -/
theorem contentCount_whole (buf : Mem) (hc : c.incoming = bs.map some ++ later) :
    contentCount bs.length c = bs.length ∧ filled buf c bs.length = store buf 0 bs ∧
      c.after bs.length = { c with incoming := later } := by
  have hrec := c.reception_whole hc rfl
  rw [contentCount, filled, Conn.after, hrec]
  exact ⟨rfl, rfl, rfl⟩

theorem taken_whole (hc : c.incoming = bs.map some ++ later) : Taken c bs.length := by
  rw [Taken, hc]
  exact .inl (arrive_append rfl)

theorem readContent_whole (newblock : Mem) (mysql : MySQL) (buf : Mem) (blen : ℕ)
    (hplen : plen.toInt = 1 + bs.length) (hc : c.incoming = bs.map some ++ later) :
    ∃ buf' newbuf, readContent newblock mysql buf blen plen bs.length c =
        ((bs.length : ℤ), buf', newbuf, mysql.onRead bs.length { c with incoming := later }) ∧
      Holds (newbuf.getD buf') 0 bs := by
  obtain ⟨buf', newbuf, hcontent, hblock⟩ :=
    readContent_of_pos newblock mysql buf blen c (by omega : 0 < plen.toInt)
  obtain ⟨hcount, -, hafter⟩ := contentCount_whole buf hc
  rw [left_eq hplen, contentLength_eq hplen, hcount, hafter] at hcontent
  refine ⟨buf', newbuf, hcontent, ?_⟩
  rw [hblock, contentBlock, contentLength_eq hplen, filled, c.reception_whole hc rfl]
  exact holds_store _ _ _

theorem readMarkedEvent_event (u : Unset) (mysql : MySQL) (buf : Mem) (blen : ℕ)
    (hplen : plen.toInt = 1 + bs.length) (hc : c.incoming = bs.map some ++ later) :
    ∃ buf' newbuf, readMarkedEvent u mysql buf blen plen 0 c =
        .ok ((bs.length : ℤ), buf', newbuf, mysql.onRead bs.length { c with incoming := later }) ∧
      Holds (newbuf.getD buf') 0 bs := by
  obtain ⟨buf', newbuf, hcontent, hholds⟩ :=
    readContent_whole (u.block 1) mysql buf blen hplen hc
  refine ⟨buf', newbuf, ?_, hholds⟩
  rw [readMarkedEvent, left_eq hplen, hcontent]
  rfl

/-- The message of an error packet that stands in a block. -/
theorem errorMessage_of_holds {m : Mem} {errno : Vector UInt8 2} {state : Vector UInt8 5}
    {message : List UInt8} (hm : Holds m 0 (errno.toList ++ 35 :: (state.toList ++ message))) :
    messageStart m = 8 ∧
      errorMessage m (8 + message.length) = if message = [] then .null else .text message := by
  obtain ⟨hmark, htail⟩ := holds_cons.mp hm.right
  have htext := htail.right
  simp only [Vector.length_toList] at hmark htext
  have hstart : messageStart m = 8 := if_pos hmark
  refine ⟨hstart, ?_⟩
  rw [errorMessage, hstart]
  by_cases hempty : message = []
  · rw [if_pos hempty, if_pos (by rw [hempty]; rfl)]
  · have hpos : 0 < message.length := List.length_pos_of_ne_nil hempty
    rw [if_neg hempty, if_neg (by omega)]
    exact congrArg Pointer.text (htext.slice_eq (Nat.add_sub_cancel_left 8 _))

/-- An error packet with a message is an error, with as much of the message as there is room for. -/
theorem readMarkedEvent_error (u : Unset) (mysql : MySQL) (buf : Mem) (blen : ℕ)
    {errno : Vector UInt8 2} {state : Vector UInt8 5} {message : List UInt8}
    (hbs : bs = errno.toList ++ 35 :: (state.toList ++ message)) (hlt : bs.length < 2 ^ 31)
    (hplen : plen.toInt = 1 + bs.length) (hc : c.incoming = bs.map some ++ later) :
    readMarkedEvent u mysql buf blen plen 255 c =
      if message = [] then .error .memory
      else .ok (-1, buf, none, { mysql with
        fd := mysql.fd.map fun _ => { c with incoming := later }
        errstr := (cstring message).take 256 }) := by
  obtain ⟨-, hfilled, hafter⟩ := contentCount_whole (u.block 0) hc
  have hlength : bs.length = 8 + message.length := by
    rw [hbs]
    simp only [List.length_append, List.length_cons, Vector.length_toList]
    omega
  obtain ⟨hstart, hmessage⟩ :=
    errorMessage_of_holds (hbs ▸ holds_store (u.block 0) 0 bs :
      Holds (store (u.block 0) 0 bs) 0 (errno.toList ++ 35 :: (state.toList ++ message)))
  obtain ⟨err, hread, herr⟩ := readErrorPkt_of_le (u.block 0)
    { u.reply.err with marker := 255 } (taken_whole hc) (by rw [hfilled, hstart]; omega) hlt
  rw [hfilled, hlength, hmessage] at herr
  rw [hafter] at hread
  rw [readMarkedEvent, left_eq hplen, if_pos rfl, ok_bind hread]
  dsimp only
  rw [herr]
  by_cases hempty : message = []
  · rw [if_pos hempty, if_pos hempty]
    rfl
  · rw [if_neg hempty, if_neg hempty]
    rfl

/-- Behind an EOF packet the content read goes on with the bytes of later packets, unless the body
does not fit the array or the fields. -/
theorem readMarkedEvent_eof (u : Unset) (mysql : MySQL) (buf : Mem) (blen : ℕ)
    (hlt : bs.length < 8) (hplen : plen.toInt = 1 + bs.length)
    (hc : c.incoming = bs.map some ++ later) :
    if bs = [] ∨ bs.length = 4 then
      readMarkedEvent u mysql buf blen plen 254 c =
        .ok (readContent (u.block 1) mysql buf blen plen bs.length { c with incoming := later })
    else ∃ e, readMarkedEvent u mysql buf blen plen 254 c = .error e := by
  obtain ⟨-, -, hafter⟩ := contentCount_whole (u.block 0) hc
  have hitems : (c.reception bs.length).items.length = bs.length := by
    rw [c.reception_whole hc rfl]
  have hmark : (254 : UInt8) ≠ 255 := by decide
  have hread : readMarkedEvent u mysql buf blen plen 254 c =
      readEofPkt (u.block 0) { u.reply.eof with marker := 254 } bs.length c >>= fun taken =>
        .ok (readContent (u.block 1) mysql buf blen plen bs.length taken.2.2) := by
    rw [readMarkedEvent, left_eq hplen, if_neg hmark, if_pos ⟨rfl, hlt⟩]
  rw [hread]
  by_cases hempty : bs = []
  · subst hempty
    have hlater : c.incoming = later := hc
    subst hlater
    rw [if_pos (.inl rfl)]
    rfl
  have hpos : 0 < bs.length := List.length_pos_of_ne_nil hempty
  by_cases hfour : bs.length = 4
  · obtain ⟨eof, heof⟩ := readEofPkt_of_taken (u.block 0) { u.reply.eof with marker := 254 }
      (taken_whole hc) (by omega) (by omega) (by omega)
    rw [if_pos (.inr hfour), ok_bind heof, hafter]
  · rw [if_neg (not_or.mpr ⟨hempty, hfour⟩)]
    by_cases hlarge : 4 < bs.length
    · exact ⟨_, error_bind (readEofPkt_of_overflow _ _ (by omega) (by omega))⟩
    · exact ⟨_, error_bind (readEofPkt_of_lt _ _ (taken_whole hc) hpos (by omega))⟩

/-! ## One call for each kind of packet -/

variable {nread : ℤ} {buf' : Mem} {newbuf : Option Mem} {mysql' : MySQL}

/-- The data source behind a read. -/
def behindRead (ds : DataSource NetSource) (buf : Mem) (mysql : MySQL) (errstr : List UInt8) :
    DataSource NetSource :=
  { ds with driver := { ds.driver with mysql := mysql, buf := buf }, errstr := errstr }

theorem getEventFromServer_of_pos (hread : ds.driver.readPacket = .ok (nread, buf', newbuf, mysql'))
    (hpos : 0 < nread) : getEventFromServer ds =
      .ok (some (newbuf.getD buf'), behindRead ds buf' mysql' ds.errstr) := by
  rw [getEventFromServer, ok_bind hread]
  dsimp only
  rw [if_neg (by omega), if_neg (by omega), behindRead]

theorem getEventFromServer_of_zero (hread : ds.driver.readPacket = .ok (0, buf', newbuf, mysql')) :
    getEventFromServer ds =
      .ok (none, behindRead ds buf' mysql' (ascii "Lost connection to master")) := by
  rw [getEventFromServer, ok_bind hread]
  rfl

theorem getEventFromServer_of_failed
    (hread : ds.driver.readPacket = .ok (-1, buf', newbuf, mysql')) :
    getEventFromServer ds = if mysql'.errstr.length < 256 then
      .ok (none, behindRead ds buf' mysql' (mysql'.errstr.take 255)) else .error .memory := by
  rw [getEventFromServer, ok_bind hread]
  dsimp only
  rw [if_pos (by norm_num)]
  by_cases hfits : mysql'.errstr.length < 256
  · have hprinted : printedErr mysql'.errstr = .ok mysql'.errstr := if_pos hfits
    rw [ok_bind hprinted, if_pos hfits]
    rfl
  · have hprinted : printedErr mysql'.errstr = .error .memory := if_neg hfits
    rw [error_bind hprinted, if_neg hfits]

theorem getEventFromServer_of_error {e : Fault} (hread : ds.driver.readPacket = .error e) :
    getEventFromServer ds = .error e := by
  rw [getEventFromServer, error_bind hread]

theorem conn_behindRead (buf : Mem) (mysql : MySQL) (errstr : List UInt8)
    (hfd : mysql.fd = some c) :
    (behindRead ds buf mysql errstr).driver.conn = c :=
  congrArg (Option.getD · Conn.closed) hfd

theorem onRead_fd (hfd : mysql.fd = some c) (nread : ℤ) (c' : Conn) :
    (mysql.onRead nread c').fd = some c' :=
  congrArg (Option.map fun _ => c') hfd

theorem fd_of_incoming {src : NetSource} (h : src.conn.incoming ≠ []) :
    src.mysql.fd = some src.conn := by
  unfold NetSource.conn at h ⊢
  cases hfd : src.mysql.fd with
  | none =>
    rw [hfd] at h
    exact absurd rfl h
  | some c => rfl

theorem length_bytes (p : Packet) : 5 ≤ p.bytes.length := by
  simp only [Packet.bytes, List.length_append, length_leBytes, List.length_cons, List.length_nil]
  omega

/-- The call answers the packet and leaves what is behind it. -/
def ReadsPacket (p : Packet) (later : List (Option UInt8)) (ds : DataSource NetSource) : Prop :=
  ∃ answer ds', getEventFromServer ds = .ok (answer, ds') ∧ p.Answered answer ds'.errstr ∧
    ds'.driver.conn.incoming = later

theorem fd_of_packet {src : NetSource} (hc : src.conn.incoming = p.bytes.map some ++ later) :
    src.mysql.fd = some src.conn := by
  apply fd_of_incoming
  have hlen := length_bytes p
  intro hnil
  rw [hnil] at hc
  have hzero := congrArg List.length hc
  rw [List.length_append, List.length_map, List.length_nil] at hzero
  omega

theorem not_readsPacket_of_error {e : Fault} (h : getEventFromServer ds = .error e) :
    ¬ReadsPacket p later ds := by
  rintro ⟨answer, ds', heq, -⟩
  rw [h] at heq
  cases heq

theorem readsPacket_event_iff {content : List UInt8} (hbody : p.body = .event content)
    (hc : ds.driver.conn.incoming = p.bytes.map some ++ later) :
    ReadsPacket p later ds ↔ content ≠ [] := by
  have hfd := fd_of_packet hc
  obtain ⟨plen, hplen, hread⟩ := readPacket_eq hfd hc
  rw [hbody] at hplen hread
  obtain ⟨buf', newbuf, hevent, hholds⟩ := readMarkedEvent_event
    (ds.driver.unset ds.driver.unread) ds.driver.mysql ds.driver.buf eventBufSize hplen
    (c := { ds.driver.conn with incoming := content.map some ++ later }) rfl
  have hread := hread.trans hevent
  by_cases hempty : content = []
  · subst hempty
    refine iff_of_false ?_ (fun h => h rfl)
    rintro ⟨answer, ds', heq, hanswer, -⟩
    rw [getEventFromServer_of_zero hread] at heq
    cases heq
    rw [Packet.Answered, hbody] at hanswer
    obtain ⟨ev, hev, -⟩ := hanswer
    cases hev
  · have hpos : (0 : ℤ) < content.length :=
      Int.natCast_pos.mpr (List.length_pos_of_ne_nil hempty)
    refine iff_of_true ⟨_, _, getEventFromServer_of_pos hread hpos, ?_, ?_⟩ hempty
    · rw [Packet.Answered, hbody]
      exact ⟨_, rfl, hholds⟩
    · rw [conn_behindRead _ _ _ (onRead_fd hfd _ _)]

theorem readsPacket_error_iff {errno : Vector UInt8 2} {state : Vector UInt8 5}
    {message : List UInt8} (hbody : p.body = .error errno state message)
    (hc : ds.driver.conn.incoming = p.bytes.map some ++ later) :
    ReadsPacket p later ds ↔ message ≠ [] ∧ (cstring message).length < 256 := by
  have hfd := fd_of_packet hc
  have hfits := p.fits
  obtain ⟨plen, hplen, hread⟩ := readPacket_eq hfd hc
  rw [hbody] at hplen hread hfits
  have hlt31 : (PacketBody.error errno state message).rest.length < 2 ^ 31 := by omega
  have hread := hread.trans (readMarkedEvent_error (ds.driver.unset ds.driver.unread)
    ds.driver.mysql ds.driver.buf eventBufSize
    (c := { ds.driver.conn with
      incoming := (PacketBody.error errno state message).rest.map some ++ later })
    rfl hlt31 hplen rfl)
  by_cases hempty : message = []
  · rw [if_pos hempty] at hread
    exact iff_of_false (not_readsPacket_of_error (getEventFromServer_of_error hread))
      fun h => h.1 hempty
  rw [if_neg hempty] at hread
  have hget := getEventFromServer_of_failed hread
  have hlength : ((cstring message).take 256).length < 256 ↔ (cstring message).length < 256 := by
    rw [List.length_take]
    omega
  by_cases hlt : (cstring message).length < 256
  · rw [if_pos (hlength.mpr hlt)] at hget
    refine iff_of_true ⟨_, _, hget, ?_, ?_⟩ ⟨hempty, hlt⟩
    · rw [Packet.Answered, hbody]
      refine ⟨rfl, ?_⟩
      rw [behindRead, List.take_take]
      rfl
    · rw [conn_behindRead (c := { ds.driver.conn with incoming := later })]
      exact congrArg (Option.map _) hfd
  · rw [if_neg (mt hlength.mp hlt)] at hget
    exact iff_of_false (not_readsPacket_of_error hget) fun h => hlt h.2

theorem contentCount_cases {n : ℕ} (h : contentCount n c ≤ 0) :
    contentCount n c = -1 ∨ contentCount n c = 0 := by
  unfold contentCount at h ⊢
  split_ifs at h ⊢ <;> omega

theorem contentCount_nothing {n : ℕ} (h : n = 0 ∨ c.incoming = []) :
    contentCount n c ≤ 0 ∧ (c.after n).incoming = c.incoming := by
  rcases h with rfl | hend
  · rw [contentCount, Conn.after, Conn.reception, receive_zero]
    exact ⟨le_rfl, rfl⟩
  · obtain ⟨hitems, hafter⟩ := c.reception_end n hend
    rw [contentCount, hitems, hafter, hend]
    refine ⟨?_, rfl⟩
    split_ifs <;> simp

/-- Some bytes more are asked of a line that has ended. -/
theorem contentCount_ended (h : c.incoming = []) (body : List UInt8) :
    contentCount body.length c = if body ≠ [] ∧ c.broken then -1 else 0 := by
  cases body with
  | nil =>
    rw [contentCount, Conn.reception, List.length_nil, receive_zero]
    rfl
  | cons b body =>
    have hnil : c.incoming = ([] : List UInt8).map some := h
    have hrec : c.reception (b :: body).length = ⟨[], c.broken, []⟩ :=
      c.reception_ended hnil (Nat.succ_pos _)
    rw [contentCount, hrec]
    simp

/-- A content read that brings nothing is an error: the stream has ended or is broken. -/
theorem readsPacket_of_nothing {c' : Conn} {newblock : Mem} (hfd : ds.driver.mysql.fd = some c)
    (hbody : ∃ body h, p.body = .eof body h) (hplen : 0 < plen.toInt)
    (hread : ds.driver.readPacket = .ok (readContent newblock ds.driver.mysql ds.driver.buf
      eventBufSize plen (contentLength plen) c'))
    (hcount : contentCount (contentLength plen) c' ≤ 0) :
    ReadsPacket p (c'.after (contentLength plen)).incoming ds := by
  obtain ⟨body, h, hbody⟩ := hbody
  obtain ⟨buf', newbuf, hcontent, -⟩ :=
    readContent_of_pos newblock ds.driver.mysql ds.driver.buf eventBufSize c' hplen
  rw [unsigned_contentLength hplen] at hcontent
  rw [hcontent] at hread
  rcases contentCount_cases hcount with hminus | hzero
  · rw [hminus] at hread
    have hfits : (ds.driver.mysql.onRead (-1)
        (c'.after (contentLength plen))).errstr.length < 256 := c'.reason_lt
    have hget := getEventFromServer_of_failed hread
    rw [if_pos hfits] at hget
    refine ⟨_, _, hget, ?_, congrArg _ (conn_behindRead _ _ _ (onRead_fd hfd _ _))⟩
    rw [Packet.Answered, hbody]
    refine ⟨rfl, fun hnil => c'.reason_ne ?_⟩
    exact (List.take_eq_nil_iff.mp hnil).resolve_left (by norm_num)
  · rw [hzero] at hread
    refine ⟨_, _, getEventFromServer_of_zero hread, ?_,
      congrArg _ (conn_behindRead _ _ _ (onRead_fd hfd _ _))⟩
    rw [Packet.Answered, hbody]
    exact ⟨rfl, by simp [behindRead, ascii]⟩

theorem readsPacket_eof_iff {body bs : List UInt8} {hlt : body.length < 8}
    (hbody : p.body = .eof body hlt)
    (hc : ds.driver.conn.incoming = p.bytes.map some ++ bs.map some)
    (hfour : bs = [] ∨ 4 ≤ bs.length) :
    ReadsPacket p (bs.map some) ds ↔ body = [] ∨ body.length = 4 ∧ bs = [] := by
  have hfd := fd_of_packet hc
  have hbody' : ∃ body h, p.body = .eof body h := ⟨body, hlt, hbody⟩
  obtain ⟨plen, hplen, hread⟩ := readPacket_eq hfd hc
  rw [hbody] at hplen hread
  have hplen : plen.toInt = 1 + (body.length : ℤ) := hplen
  have hlen : contentLength plen = body.length := contentLength_eq hplen
  have heof := readMarkedEvent_eof (ds.driver.unset ds.driver.unread) ds.driver.mysql
    ds.driver.buf eventBufSize hlt hplen
    (c := { ds.driver.conn with incoming := body.map some ++ bs.map some }) rfl
  by_cases hgoes : body = [] ∨ body.length = 4
  · rw [if_pos hgoes] at heof
    have hread := hread.trans heof
    rw [← hlen] at hread
    by_cases hnothing : body = [] ∨ bs = []
    · have hread' : contentLength plen = 0 ∨
          ({ ds.driver.conn with incoming := bs.map some } : Conn).incoming = [] :=
        hnothing.imp (fun h => by rw [hlen, h]; rfl) fun h => by rw [h]; rfl
      obtain ⟨hcount, hafter⟩ := contentCount_nothing hread'
      have hready := readsPacket_of_nothing hfd hbody' (by omega) hread hcount
      rw [hafter] at hready
      exact iff_of_true hready (by tauto)
    · obtain ⟨hne, hbs⟩ := not_or.mp hnothing
      have hfour' : 4 ≤ bs.length := hfour.resolve_left hbs
      have htake : (bs.take 4).length = 4 := List.length_take_of_le hfour'
      have hsplit : ({ ds.driver.conn with incoming := bs.map some } : Conn).incoming =
          (bs.take 4).map some ++ (bs.drop 4).map some := by
        rw [← List.map_append, List.take_append_drop]
      have hlen4 : body.length = (bs.take 4).length := (hgoes.resolve_left hne).trans htake.symm
      rw [hlen4] at hplen
      obtain ⟨buf', newbuf, hcontent, -⟩ := readContent_whole
        ((ds.driver.unset ds.driver.unread).block 1) ds.driver.mysql ds.driver.buf eventBufSize
        hplen hsplit
      rw [hlen, hlen4, hcontent] at hread
      refine iff_of_false ?_ fun h => hnothing (h.imp_right And.right)
      rintro ⟨answer, ds', heq, hanswer, -⟩
      rw [getEventFromServer_of_pos hread (by rw [htake]; norm_num)] at heq
      cases heq
      rw [Packet.Answered, hbody] at hanswer
      cases hanswer.1
  · rw [if_neg hgoes] at heof
    obtain ⟨e, heof⟩ := heof
    exact iff_of_false
      (not_readsPacket_of_error (getEventFromServer_of_error (hread.trans heof)))
      fun h => hgoes (h.imp_right And.left)

/-! ## The whole stream -/

theorem readsPacket_iff (p : Packet) (ps : List Packet)
    (hc : ds.driver.conn.incoming = ((p :: ps).flatMap Packet.bytes).map some) :
    ReadsPacket p ((ps.flatMap Packet.bytes).map some) ds ↔ p.Clean ps := by
  rw [List.flatMap_cons, List.map_append] at hc
  unfold Packet.Clean
  cases hbody : p.body with
  | event content => exact readsPacket_event_iff hbody hc
  | error errno state message => exact readsPacket_error_iff hbody hc
  | eof body hlt =>
    have hnil : ps.flatMap Packet.bytes = [] ↔ ps = [] := by
      cases ps with
      | nil => simp
      | cons q ps =>
        have hlen := length_bytes q
        refine iff_of_false (fun h => ?_) (List.cons_ne_nil q ps)
        rw [(List.append_eq_nil_iff.mp h).1] at hlen
        contradiction
    have hfour : ps.flatMap Packet.bytes = [] ∨ 4 ≤ (ps.flatMap Packet.bytes).length := by
      cases ps with
      | nil => exact .inl rfl
      | cons q ps =>
        have hlen := length_bytes q
        rw [List.flatMap_cons, List.length_append]
        omega
    rw [readsPacket_eof_iff hbody hc hfour, hnil]

/-- The calls go through a stream of packets one by one exactly if none of them meets a slip. -/
theorem readsPackets_iff_clean (ps : List Packet) (ds : DataSource NetSource)
    (hc : ds.driver.conn.incoming = (ps.flatMap Packet.bytes).map some) :
    ReadsPackets ps ds ↔ ∀ before p behind, ps = before ++ p :: behind → p.Clean behind := by
  induction ps generalizing ds with
  | nil =>
    refine iff_of_true trivial fun before p behind h => ?_
    exact absurd h.symm (List.append_ne_nil_of_right_ne_nil _ (List.cons_ne_nil _ _))
  | cons p ps ih =>
    have hp := readsPacket_iff p ps hc
    constructor
    · rintro ⟨answer, ds', hget, hanswer, hrest, hreads⟩ before q behind hsplit
      rcases List.cons_eq_append_iff.mp hsplit with ⟨rfl, heq⟩ | ⟨before', rfl, heq⟩
      · obtain ⟨rfl, rfl⟩ := List.cons.inj heq
        exact hp.mp ⟨answer, ds', hget, hanswer, hrest⟩
      · exact (ih ds' hrest).mp hreads before' q behind heq
    · intro hclean
      obtain ⟨answer, ds', hget, hanswer, hrest⟩ := hp.mpr (hclean [] p ps rfl)
      refine ⟨answer, ds', hget, hanswer, hrest, (ih ds' hrest).mpr fun before q behind h => ?_⟩
      exact hclean (p :: before) q behind (congrArg (p :: ·) h)

/-- The end of a dump as servers from 4.1 on write it, and an event behind it. -/
def eofThenEvent : List Packet :=
  [⟨1, .eof [0, 0, 2, 0] (by decide), by decide⟩, ⟨2, .event [7, 8, 9], by decide⟩]

def eofThenEventConn : Conn :=
  ⟨(eofThenEvent.flatMap Packet.bytes).map some, false, 0, [], ascii "Success", success_ne_nil,
    length_success_lt⟩

theorem readsPackets_iff_clean_sample :
    eofThenEventConn.incoming = (eofThenEvent.flatMap Packet.bytes).map some ∧
      (ReadsPackets eofThenEvent (sourceOn eofThenEventConn) ↔
        ∀ before p behind, eofThenEvent = before ++ p :: behind → p.Clean behind) :=
  ⟨rfl, readsPackets_iff_clean eofThenEvent (sourceOn eofThenEventConn) rfl⟩

/-- The first call hands out the header of the second packet as an event. -/
theorem eofThenEvent_not_readsPackets :
    eofThenEventConn.incoming = (eofThenEvent.flatMap Packet.bytes).map some ∧
      (getEventFromServer (sourceOn eofThenEventConn)).map
        (fun r => r.1.map fun ev => slice ev 0 4) = .ok (some [4, 0, 0, 2]) ∧
      ¬ReadsPackets eofThenEvent (sourceOn eofThenEventConn) := by
  refine ⟨rfl, by decide +kernel, ?_⟩
  rintro ⟨answer, ds', hget, hanswer, hrest, -⟩
  have hclean : Packet.Clean ⟨1, .eof [0, 0, 2, 0] (by decide), by decide⟩
      [⟨2, .event [7, 8, 9], by decide⟩] :=
    (readsPacket_iff _ _ rfl).mp ⟨answer, ds', hget, hanswer, hrest⟩
  obtain hnil | ⟨-, hnil⟩ := hclean
  · cases hnil
  · cases hnil

end LibBinlog
