import LibBinlog.PacketBoundaries
import LibBinlog.EncodedLog

/-!
# The server as a source of events

Every event that the driver hands out takes bytes from the line, so a client may ask a server as it
asks a file. A line that brings event after event and then the end of the dump, in packets, delivers
these events.
-/

namespace LibBinlog

open Machine Memory Arrivals Calls

/-! ## Events take bytes -/

section

variable {c c' : Conn} {count nread : ℤ} {bytes : List UInt8} {mysql mysql' : MySQL}
  {buf buf' newblock : Mem} {newbuf : Option Mem} {blen left : ℕ} {plen : Int32} {u : Unset}

theorem anetRead_unread (h : anetRead c count = (nread, bytes, c')) :
    c'.incoming.length ≤ c.incoming.length ∧
      (0 < nread → c'.incoming.length < c.incoming.length) := by
  have hlength := length_receive c.broken count.toNat c.incoming
  unfold anetRead at h
  split_ifs at h
  · cases h
    exact ⟨le_rfl, fun hpos => by contradiction⟩
  · dsimp only at h
    cases h
    refine ⟨(Nat.le_add_left _ _).trans hlength, fun hpos => ?_⟩
    dsimp only
    split_ifs at hpos
    · contradiction
    · omega

theorem readContent_unread (hfd : mysql.fd.isSome)
    (h : readContent newblock mysql buf blen plen left c = (nread, buf', newbuf, mysql'))
    (hpos : 0 < nread) : ∃ c', mysql'.fd = some c' ∧ c'.incoming.length < c.incoming.length := by
  obtain ⟨c₀, hc₀⟩ := Option.isSome_iff_exists.mp hfd
  rcases hread : anetRead c (toInt32 left) with ⟨count, bytes, c₁⟩
  unfold readContent at h
  rw [hread] at h
  split_ifs at h
  · cases hblock : malloc newblock (unsigned 64 plen.toInt) with
    | none =>
      rw [hblock] at h
      cases h
      exact absurd hpos (by norm_num)
    | some block =>
      rw [hblock] at h
      cases h
      exact ⟨_, onRead_fd hc₀ _ _, (anetRead_unread hread).2 hpos⟩
  · cases h
    exact ⟨_, onRead_fd hc₀ _ _, (anetRead_unread hread).2 hpos⟩

theorem readEofPkt_unread {eofbuf : Mem} {pkt pkt' : EofPkt} {status : Status}
    (h : readEofPkt eofbuf pkt left c = .ok (status, pkt', c')) :
    c'.incoming.length ≤ c.incoming.length := by
  rcases hread : anetRead c (toInt32 left) with ⟨count, bytes, c₁⟩
  unfold readEofPkt at h
  rw [hread] at h
  dsimp only at h
  split_ifs at h
  · cases h
    exact le_rfl
  · cases h
    exact (anetRead_unread hread).1
  · obtain ⟨_, -, h⟩ := bind_ok_iff.mp h
    cases h
    exact (anetRead_unread hread).1

theorem readMarkedEvent_unread {marker : UInt8} (hfd : mysql.fd.isSome)
    (h : readMarkedEvent u mysql buf blen plen marker c = .ok (nread, buf', newbuf, mysql'))
    (hpos : 0 < nread) : ∃ c', mysql'.fd = some c' ∧ c'.incoming.length < c.incoming.length := by
  unfold readMarkedEvent at h
  dsimp only at h
  split_ifs at h
  · obtain ⟨_, -, h⟩ := bind_ok_iff.mp h
    obtain ⟨_, -, h⟩ := bind_ok_iff.mp h
    cases h
    contradiction
  · obtain ⟨⟨status, eof, c₁⟩, heof, h⟩ := bind_ok_iff.mp h
    obtain ⟨c', hc', hlt⟩ := readContent_unread hfd (Except.ok.inj h) hpos
    exact ⟨c', hc', hlt.trans_le (readEofPkt_unread heof)⟩
  · exact readContent_unread hfd (Except.ok.inj h) hpos

theorem msaferead_unread (h : msaferead u mysql buf blen = .ok (nread, buf', newbuf, mysql'))
    (hpos : 0 < nread) : (mysql'.fd.getD .closed).incoming.length <
      (mysql.fd.getD .closed).incoming.length := by
  rcases hmarker : anetRead ((mysql.fd.getD .closed).after 4) 1 with ⟨count, bytes, c₁⟩
  have hheader : ((mysql.fd.getD .closed).after 4).incoming.length ≤
      (mysql.fd.getD .closed).incoming.length :=
    (Nat.le_add_left _ _).trans (length_receive _ 4 _)
  have hless := (anetRead_unread hmarker).1
  obtain ⟨status, hread⟩ := readPktHeader_after u.header (mysql.fd.getD .closed)
  rw [msaferead, ok_bind hread] at h
  dsimp only at h
  rw [hmarker] at h
  dsimp only at h
  split_ifs at h
  · cases h
    contradiction
  · cases hfd : mysql.fd with
    | none =>
      rw [hfd] at hmarker
      have hnothing := anetRead_nothing (c := Conn.closed.after 4) rfl
      rw [show anetRead (Conn.closed.after 4) 1 = _ from hmarker] at hnothing
      cases hnothing
      contradiction
    | some c =>
      rw [hfd] at hheader hless
      obtain ⟨c', hc', hlt⟩ := readMarkedEvent_unread (by rw [hfd]; rfl) h hpos
      rw [hc']
      exact hlt.trans_le (hless.trans hheader)

end

theorem getEventFromServer_unread {ds ds' : DataSource NetSource} {ev : Mem}
    (h : getEventFromServer ds = .ok (some ev, ds')) : ds'.driver.unread < ds.driver.unread := by
  unfold getEventFromServer at h
  obtain ⟨⟨nread, buf, newbuf, mysql⟩, hread, h⟩ := bind_ok_iff.mp h
  dsimp only at h
  split_ifs at h with hneg hzero
  · obtain ⟨text, -, h⟩ := bind_ok_iff.mp h
    cases h
  · cases h
  · cases h
    exact msaferead_unread hread (by omega)

def netDriver : Driver NetSource where
  connect := connectMySQL
  getEvent := getEventFromServer
  unread := NetSource.unread
  unread_lt := getEventFromServer_unread

/-! ## Streams of events -/

variable {src : NetSource} {ds : DataSource NetSource} {p : Packet} {bs later : List UInt8}

/-- An error text that fits and, used as a format, prints without harm. -/
structure Prints (text : List UInt8) : Prop where
  fits : text.length < 256
  printable : Printable text

/-- The source has these bytes before it. A line that ends instead of failing leaves the marker of
the next packet as the variable held it. -/
structure OnLine (src : NetSource) (arriving : List UInt8) : Prop where
  incoming : src.conn.incoming = arriving.map some
  reason : Prints src.conn.reason
  errstr : Prints src.mysql.errstr
  quiet : src.conn.broken = true ∨ ∀ n, (src.unset n).marker 0 ≠ 255

theorem OnLine.behind (h : OnLine src bs) (buf : Mem) {mysql : MySQL} {c : Conn}
    (hfd : mysql.fd.getD .closed = c) (hincoming : c.incoming = later.map some)
    (hbroken : c.broken = src.conn.broken) (hreason : c.reason = src.conn.reason)
    (herrstr : Prints mysql.errstr) : OnLine { src with mysql := mysql, buf := buf } later := by
  subst hfd
  refine ⟨hincoming, ?_, herrstr, ?_⟩
  · exact hreason.symm ▸ h.reason
  · exact h.quiet.imp_left hbroken.trans

theorem prints_onRead {mysql : MySQL} {c : Conn} (nread : ℤ) (h : Prints mysql.errstr)
    (hc : Prints c.reason) : Prints (mysql.onRead nread c).errstr := by
  unfold MySQL.onRead
  dsimp only
  split_ifs
  · exact hc
  · exact h

theorem errstr_onRead {mysql : MySQL} {nread : ℤ} (h : nread ≠ -1) (c : Conn) :
    (mysql.onRead nread c).errstr = mysql.errstr := if_neg h

theorem getD_onRead {mysql : MySQL} {c : Conn} (hfd : mysql.fd = some c) (nread : ℤ) (c' : Conn) :
    (mysql.onRead nread c').fd.getD .closed = c' := by
  rw [onRead_fd hfd]
  rfl

/-- A packet that is the last of a dump: an error or the end of the file. -/
def Packet.IsLast (p : Packet) : Prop :=
  match p.body with
  | .event _ => False
  | .error _ _ message => message ≠ [] ∧ Prints (cstring message)
  | .eof body _ => body = [] ∨ body.length = 4

/-- What comes behind the events: one last packet, or nothing. -/
def EndsDump (last : Option Packet) : Prop := ∀ p, last = some p → p.IsLast

def lastBytes (last : Option Packet) : List UInt8 := last.elim [] Packet.bytes

def lostToMaster : List UInt8 := ascii "Lost connection to master"

theorem prints_lost : Prints lostToMaster := ⟨by decide, .of_plain (by decide) (by decide)⟩

/-- The text that the end of a dump leads to, when `told` is the error text before: of an error
packet its message, of any other end the reason of the read that failed. Of a broken line that
brings nothing more not even the header is read, so the text is the one there was. The read of an
EOF packet's content fails on a broken line, else it brings nothing. -/
def farewell (c : Conn) (told : List UInt8) : Option Packet → List UInt8
  | none => if c.broken then told else c.reason
  | some p =>
    match p.body with
    | .event _ => lostToMaster
    | .error _ _ message => cstring message
    | .eof body _ => if body ≠ [] ∧ c.broken then c.reason else lostToMaster

theorem farewell_congr {c c' : Conn} (hbroken : c'.broken = c.broken)
    (hreason : c'.reason = c.reason) (told : List UInt8) (last : Option Packet) :
    farewell c' told last = farewell c told last := by
  unfold farewell
  rw [hbroken, hreason]

def NetSource.farewell (src : NetSource) (last : Option Packet) : List UInt8 :=
  LibBinlog.farewell src.conn src.mysql.errstr last

theorem farewell_behind (buf : Mem) {mysql : MySQL} {c : Conn} (hfd : mysql.fd.getD .closed = c)
    (hbroken : c.broken = src.conn.broken) (hreason : c.reason = src.conn.reason)
    (herrstr : mysql.errstr = src.mysql.errstr) (last : Option Packet) :
    NetSource.farewell { src with mysql := mysql, buf := buf } last = src.farewell last := by
  have hconn : NetSource.conn { src with mysql := mysql, buf := buf } = c := hfd
  rw [NetSource.farewell, hconn, farewell_congr hbroken hreason, herrstr]
  rfl

/-- The line brings these events, one to a packet, and then this end of the dump. -/
structure Awaits (last : Option Packet) (stream : List (List UInt8)) (src : NetSource) : Prop where
  line : ∃ packets : List Packet, packets.map Packet.body = stream.map PacketBody.event ∧
    OnLine src (packets.flatMap Packet.bytes ++ lastBytes last)
  nonempty : ∀ e ∈ stream, e ≠ []
  ends : EndsDump last

/-- The next call gives none, with this text, and nothing is left on the line. -/
def SignsOff (ds : DataSource NetSource) (text : List UInt8) : Prop :=
  ∃ ds', getEventFromServer ds = .ok (none, ds') ∧ OnLine ds'.driver [] ∧ ds.SameCoords ds' ∧
    ds'.errstr = text ∧ Prints text

theorem signsOff_of_failed {buf : Mem} {newbuf : Option Mem} {mysql : MySQL} {c : Conn}
    {text : List UInt8}
    (h : OnLine ds.driver bs) (hread : ds.driver.readPacket = .ok (-1, buf, newbuf, mysql))
    (hfd : mysql.fd.getD .closed = c) (hincoming : c.incoming = [])
    (hbroken : c.broken = ds.driver.conn.broken) (hreason : c.reason = ds.driver.conn.reason)
    (htext : mysql.errstr = text) (herrstr : Prints text) : SignsOff ds text := by
  subst htext
  have hget := getEventFromServer_of_failed hread
  rw [if_pos herrstr.fits, List.take_of_length_le (Nat.le_of_lt_succ herrstr.fits)] at hget
  exact ⟨_, hget, h.behind buf hfd hincoming hbroken hreason herrstr, ⟨rfl, rfl, rfl⟩, rfl,
    herrstr⟩

theorem signsOff_of_zero {buf : Mem} {newbuf : Option Mem} {mysql : MySQL} {c : Conn}
    (h : OnLine ds.driver bs) (hread : ds.driver.readPacket = .ok (0, buf, newbuf, mysql))
    (hfd : mysql.fd.getD .closed = c) (hincoming : c.incoming = [])
    (hbroken : c.broken = ds.driver.conn.broken) (hreason : c.reason = ds.driver.conn.reason)
    (herrstr : Prints mysql.errstr) : SignsOff ds lostToMaster :=
  ⟨_, getEventFromServer_of_zero hread, h.behind buf hfd hincoming hbroken hreason herrstr,
    ⟨rfl, rfl, rfl⟩, rfl, prints_lost⟩

/-- A header of zeros: the read of the content is refused. -/
theorem readMarkedEvent_of_zero (u : Unset) (mysql : MySQL) (buf : Mem) (c : Conn) {marker : UInt8}
    (hmarker : marker ≠ 255) : readMarkedEvent u mysql buf eventBufSize 0 marker c =
      .ok (-1, store buf 0 [], none, mysql.onRead (-1) c) := by
  have hleft : unsigned 64 ((0 : Int32).toInt - 1) = 2 ^ 64 - 1 := by decide +kernel
  have hcount : toInt32 ((2 ^ 64 - 1 : ℕ) : ℤ) = -1 := by decide +kernel
  have hsmall : ¬eventBufSize < unsigned 64 (0 : Int32).toInt := by decide +kernel
  have hlarge : ¬(marker = 254 ∧ 2 ^ 64 - 1 < 8) := fun h => absurd h.2 (by norm_num)
  have hrefused : anetRead c (-1) = (-1, [], c) := if_pos (by norm_num)
  rw [readMarkedEvent, hleft, if_neg hmarker, if_neg hlarge, readContent, if_neg hsmall, hcount,
    hrefused]

theorem signsOff_of_broken (h : OnLine ds.driver []) (hb : ds.driver.conn.broken = true) :
    SignsOff ds ds.driver.mysql.errstr := by
  have hafter : (ds.driver.conn.after 4).incoming = [] :=
    (Conn.reception_end 4 (show ds.driver.conn.incoming = [] from h.incoming)).2
  obtain ⟨status, hheader⟩ :=
    readPktHeader_after (ds.driver.unset ds.driver.unread).header ds.driver.conn
  have hb' : (ds.driver.conn.after 4).broken = true := hb
  have hread : ds.driver.readPacket = .ok (-1, ds.driver.buf, none,
      { ds.driver.mysql with
        fd := ds.driver.mysql.fd.map fun _ => ds.driver.conn.after 4 }) := by
    rw [NetSource.readPacket, msaferead]
    rw [show ds.driver.mysql.fd.getD .closed = ds.driver.conn from rfl, ok_bind hheader]
    dsimp only
    rw [anetRead_nothing hafter, hb']
    rfl
  cases hfd : ds.driver.mysql.fd with
  | none =>
    rw [hfd] at hread
    exact signsOff_of_failed h hread (c := .closed) rfl rfl
      (by rw [NetSource.conn, hfd]; rfl) (by rw [NetSource.conn, hfd]; rfl) rfl h.errstr
  | some c =>
    rw [hfd] at hread
    exact signsOff_of_failed h hread rfl hafter rfl rfl rfl h.errstr

/-- The header stays empty, and the read of a content of its length is refused. -/
theorem signsOff_of_ended (h : OnLine ds.driver []) (hb : ds.driver.conn.broken = false) :
    SignsOff ds ds.driver.conn.reason := by
  have hafter : (ds.driver.conn.after 4).incoming = [] :=
    (Conn.reception_end 4 (show ds.driver.conn.incoming = [] from h.incoming)).2
  have hmarker : (ds.driver.unset ds.driver.unread).marker 0 ≠ 255 := by
    rcases h.quiet with hbroken | hquiet
    · rw [hb] at hbroken
      cases hbroken
    · exact hquiet _
  have hread : ds.driver.readPacket = .ok (-1, store ds.driver.buf 0 [], none,
      ds.driver.mysql.onRead (-1) (ds.driver.conn.after 4)) := by
    have hrec : ds.driver.conn.reception 4 = ⟨[], false, []⟩ := by
      rw [← hb]
      have hnil : ds.driver.conn.incoming = ([] : List UInt8).map some := h.incoming
      exact ds.driver.conn.reception_ended hnil (by norm_num)
    have hplen (header : PktHeader) : (headerAfter header ds.driver.conn).plen = 0 := by
      rw [headerAfter, hrec]
      rfl
    rw [NetSource.readPacket, msaferead_of_end (c := ds.driver.conn) rfl hafter hb, hplen,
      readMarkedEvent_of_zero _ _ _ _ hmarker]
  cases hfd : ds.driver.mysql.fd with
  | none =>
    rw [NetSource.conn, hfd] at hb
    cases hb
  | some c => exact signsOff_of_failed h hread (getD_onRead hfd _ _) hafter rfl rfl rfl h.reason

/-- Nothing comes any more. -/
theorem signsOff_of_nothing (h : OnLine ds.driver []) :
    SignsOff ds (ds.driver.farewell none) := by
  rw [NetSource.farewell, farewell]
  split_ifs with hb
  · exact signsOff_of_broken h hb
  · exact signsOff_of_ended h (Bool.eq_false_of_not_eq_true hb)

/-- A last packet. -/
theorem signsOff_of_last (h : OnLine ds.driver p.bytes) (hlast : p.IsLast) :
    SignsOff ds (ds.driver.farewell (some p)) := by
  have hc : ds.driver.conn.incoming = p.bytes.map some ++ [] := by
    rw [List.append_nil]
    exact h.incoming
  have hfd := fd_of_packet hc
  obtain ⟨plen, hplen, hread⟩ := readPacket_eq hfd hc
  unfold Packet.IsLast at hlast
  cases hbody : p.body with
  | event content =>
    rw [hbody] at hlast
    exact hlast.elim
  | error errno state message =>
    rw [hbody] at hlast
    obtain ⟨hmessage, hprints⟩ := hlast
    have hfits := p.fits
    rw [hbody] at hplen hread hfits
    have hlt : (PacketBody.error errno state message).rest.length < 2 ^ 31 := by omega
    have herror := readMarkedEvent_error (ds.driver.unset ds.driver.unread) ds.driver.mysql
      ds.driver.buf eventBufSize
      (c := { ds.driver.conn with
        incoming := (PacketBody.error errno state message).rest.map some ++ [] })
      rfl hlt hplen rfl
    rw [if_neg hmessage, List.take_of_length_le hprints.fits.le] at herror
    rw [NetSource.farewell, farewell, hbody]
    refine signsOff_of_failed h (hread.trans herror)
      (c := { ds.driver.conn with incoming := [] }) ?_ rfl rfl rfl rfl hprints
    rw [hfd]
    rfl
  | eof body hlt =>
    rw [hbody] at hlast hplen hread
    have hplen : plen.toInt = 1 + (body.length : ℤ) := hplen
    have heof := readMarkedEvent_eof (ds.driver.unset ds.driver.unread) ds.driver.mysql
      ds.driver.buf eventBufSize hlt hplen
      (c := { ds.driver.conn with incoming := body.map some ++ [] }) rfl
    rw [if_pos hlast] at heof
    let rest : Conn := { ds.driver.conn with incoming := [] }
    have hlength : contentLength plen = body.length := contentLength_eq hplen
    obtain ⟨-, hincoming⟩ := contentCount_nothing (n := contentLength plen) (c := rest) (.inr rfl)
    obtain ⟨buf', newbuf, hcontent, -⟩ := readContent_of_pos
      ((ds.driver.unset ds.driver.unread).block 1) ds.driver.mysql ds.driver.buf eventBufSize rest
      (by omega : 0 < plen.toInt)
    rw [left_eq hplen] at hcontent
    have hread := (hread.trans heof).trans (congrArg Except.ok hcontent)
    have hcount : contentCount (contentLength plen) rest =
        if body ≠ [] ∧ ds.driver.conn.broken then -1 else 0 := by
      rw [hlength]
      exact contentCount_ended rfl body
    rw [hcount] at hread
    rw [NetSource.farewell, farewell, hbody]
    dsimp only
    split_ifs at hread ⊢
    · exact signsOff_of_failed h hread (getD_onRead hfd _ _) hincoming rfl rfl rfl h.reason
    · exact signsOff_of_zero h hread (getD_onRead hfd _ _) hincoming rfl rfl
        (prints_onRead _ h.errstr h.reason)

theorem SignsOff.of_awaits {last : Option Packet} (h : Awaits last [] ds.driver) :
    SignsOff ds (ds.driver.farewell last) := by
  obtain ⟨packets, hbodies, honline⟩ := h.line
  obtain rfl : packets = [] := List.map_eq_nil_iff.mp hbodies
  cases last with
  | none => exact signsOff_of_nothing honline
  | some p =>
    rw [List.flatMap_nil, List.nil_append] at honline
    exact signsOff_of_last honline (h.ends p rfl)

/-- The next event. The dump will end as before. -/
theorem Awaits.next {last : Option Packet} {e : List UInt8} {stream : List (List UInt8)}
    (h : Awaits last (e :: stream) ds.driver) : ∃ ev ds',
      getEventFromServer ds = .ok (some ev, ds') ∧ Holds ev 0 e ∧ Awaits last stream ds'.driver ∧
        ds.SameCoords ds' ∧ ds'.errstr = ds.errstr ∧
          ds'.driver.farewell last = ds.driver.farewell last := by
  obtain ⟨packets, hbodies, honline⟩ := h.line
  cases packets with
  | nil => cases hbodies
  | cons p packets =>
    rw [List.map_cons, List.map_cons, List.cons.injEq] at hbodies
    obtain ⟨hbody, hbodies⟩ := hbodies
    have hincoming : ds.driver.conn.incoming =
        p.bytes.map some ++ (packets.flatMap Packet.bytes ++ lastBytes last).map some := by
      rw [honline.incoming, List.flatMap_cons, List.append_assoc, List.map_append]
    have hfd := fd_of_packet hincoming
    obtain ⟨plen, hplen, hread⟩ := readPacket_eq hfd hincoming
    rw [hbody] at hplen hread
    obtain ⟨buf', newbuf, hevent, hholds⟩ := readMarkedEvent_event
      (ds.driver.unset ds.driver.unread) ds.driver.mysql ds.driver.buf eventBufSize hplen
      (c := { ds.driver.conn with
        incoming := e.map some ++ (packets.flatMap Packet.bytes ++ lastBytes last).map some }) rfl
    have hpos : (0 : ℤ) < e.length :=
      Int.natCast_pos.mpr (List.length_pos_of_ne_nil (h.nonempty e List.mem_cons_self))
    have hread_ne : (e.length : ℤ) ≠ -1 := by omega
    have hget := getEventFromServer_of_pos (hread.trans hevent) hpos
    refine ⟨_, _, hget, hholds, ⟨⟨packets, hbodies, ?_⟩,
      fun e' he' => h.nonempty e' (List.mem_cons_of_mem e he'), h.ends⟩, ⟨rfl, rfl, rfl⟩, rfl, ?_⟩
    · exact honline.behind buf' (getD_onRead hfd _ _) rfl rfl rfl
        (prints_onRead _ honline.errstr honline.reason)
    · refine farewell_behind buf' (getD_onRead hfd _ _) ?_ ?_ ?_ last
      · rfl
      · rfl
      · exact errstr_onRead hread_ne _

/-- Without an answer the events were used up, and the text is how the dump ended. -/
theorem Awaits.of_none {last : Option Packet} {stream : List (List UInt8)}
    {ds' : DataSource NetSource} (h : Awaits last stream ds.driver)
    (hnone : getEventFromServer ds = .ok (none, ds')) :
    ds'.errstr = ds.driver.farewell last ∧ Prints ds'.errstr := by
  cases stream with
  | nil =>
    obtain ⟨ds'', hget, -, -, htext, hprints⟩ := SignsOff.of_awaits h
    cases hnone.symm.trans hget
    exact ⟨htext, htext ▸ hprints⟩
  | cons e stream =>
    obtain ⟨ev, ds'', hget, -⟩ := h.next
    cases hnone.symm.trans hget

/-- The events of a server, and the end of its dump. -/
def netFeed : Feed netDriver where
  Delivers stream src errstr := (∃ last, Awaits last stream src) ∧ Printable errstr
  next := by
    rintro e stream ds ⟨⟨last, hawaits⟩, hprintable⟩
    obtain ⟨ev, ds', hget, hholds, hnext, hsame, herrstr, -⟩ := hawaits.next
    exact ⟨ev, ds', hget, hholds, ⟨⟨last, hnext⟩, herrstr ▸ hprintable⟩, hsame⟩
  last := by
    rintro ds ⟨⟨last, hawaits⟩, -⟩
    obtain ⟨ds', hget, honline, hcoords, htext, hprints⟩ := SignsOff.of_awaits hawaits
    rw [← htext] at hprints
    exact ⟨ds', hget, ⟨⟨none, ⟨[], rfl, honline⟩, nofun, nofun⟩, hprints.printable⟩, hcoords,
      hprints.printable⟩

end LibBinlog
