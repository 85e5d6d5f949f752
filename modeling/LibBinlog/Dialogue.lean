import LibBinlog.AuthBytes
import LibBinlog.DumpCommand
import LibBinlog.HandshakeFields
import LibBinlog.PacketBoundaries

/-!
# Connecting to a server

A server greets the client, accepts its authentication and answers the command for a dump. For the
last answer the client takes any packet that could be an OK packet: a server that goes over to the
events at once loses the first of them. What the client writes in this dialogue, the server reads as
an answer to its own greeting and as the command.
-/

namespace LibBinlog

open Machine Memory Arrivals

/-! ## OK packets -/

/-- A packet that passes for an OK packet. An event has the same marker. -/
def Packet.IsOk (p : Packet) : Prop :=
  ∃ content, p.body = .event content ∧ ∀ m, Holds m 0 content → OkBody m content.length

theorem okFieldsEnd_le (m : Mem) : okFieldsEnd m ≤ 18 := by
  have hwidth (first : ℕ) : encodedWidth first ≤ 9 := by
    unfold encodedWidth
    split_ifs <;> omega
  exact add_le_add (hwidth _) (hwidth _)

/-- The numbers take at most 18 bytes, status and warnings four. -/
theorem Packet.isOk_of_event {p : Packet} {content : List UInt8} (h : p.body = .event content)
    (hlength : 22 ≤ content.length) : p.IsOk := by
  refine ⟨content, h, fun m _ => .inr ?_⟩
  have hle := okFieldsEnd_le m
  omega

/-- An OK packet as a server writes it. -/
structure OkAnswer where
  seq : UInt8
  affected : ℕ
  affectedBytes : List UInt8
  insertid : ℕ
  insertidBytes : List UInt8
  status : UInt16
  warnings : UInt16
  message : List UInt8
  affected_encodes : LengthEncodes affected affectedBytes
  insertid_encodes : LengthEncodes insertid insertidBytes
  fits : message.length < 2 ^ 23

namespace OkAnswer

def content (ok : OkAnswer) : List UInt8 :=
  ok.affectedBytes ++ (ok.insertidBytes ++
    (leBytes 2 ok.status.toNat ++ leBytes 2 ok.warnings.toNat ++ ok.message))

theorem length_encodes {n : ℕ} {bs : List UInt8} (h : LengthEncodes n bs) : bs.length ≤ 9 := by
  cases h with
  | one => exact Nat.one_le_ofNat
  | two => exact Nat.le_of_ble_eq_true rfl
  | three => exact Nat.le_of_ble_eq_true rfl
  | eight => exact Nat.le_of_ble_eq_true rfl

theorem content_fits (ok : OkAnswer) : 1 + ok.content.length < 2 ^ 24 := by
  have haffected := length_encodes ok.affected_encodes
  have hinsertid := length_encodes ok.insertid_encodes
  have hmessage := ok.fits
  simp only [content, List.length_append, length_leBytes]
  omega

def packet (ok : OkAnswer) : Packet := ⟨ok.seq, .event ok.content, ok.content_fits⟩

theorem width_of_encodes {m : Mem} {pos n : ℕ} {bs : List UInt8} (h : LengthEncodes n bs)
    (hm : Holds m pos bs) : encodedWidth (m pos).toNat = bs.length := by
  obtain ⟨b, rfl, -, hwidth⟩ := h.exists_bytes
  rw [(holds_cons.mp hm).1]
  exact hwidth

theorem isOk (ok : OkAnswer) : ok.packet.IsOk := by
  refine ⟨ok.content, rfl, fun m hm => .inr ?_⟩
  have hm₀ : Holds m (0 : ℕ) ok.content := hm
  have haffected := width_of_encodes ok.affected_encodes hm₀.left
  have hinsertid := width_of_encodes ok.insertid_encodes
    (hm₀.next (k := ok.affectedBytes.length) (Nat.zero_add _).symm).left
  rw [okFieldsEnd, haffected, hinsertid]
  simp only [content, List.length_append, length_leBytes]
  omega

end OkAnswer

/-! ## Packets on the line -/

variable {c : Conn} {later : List (Option UInt8)} {p : Packet} {bs : List UInt8} {n : ℕ}
  {seq b : UInt8}

/-- A header whose length counts what is behind it. -/
theorem headerAfter_whole (header : PktHeader) (hn : n < 2 ^ 24)
    (hc : c.incoming = (leBytes 3 n ++ [seq]).map some ++ later) :
    unsigned 64 (headerAfter header c).plen.toInt = n ∧ (headerAfter header c).pnum = seq.toNat ∧
      c.after 4 = { c with incoming := later } := by
  have hrec := c.reception_whole (n := 4) hc rfl
  have hheader : headerAfter header c = headerOf (leBytes 3 n ++ [seq]) := by
    rw [headerAfter, hrec]
    rfl
  refine ⟨?_, ?_, ?_⟩
  · rw [hheader, headerOf_plen seq hn, unsigned_natCast (by omega)]
  · rw [hheader]
    rfl
  · rw [Conn.after, hrec]

/-- A packet on the line is read with as many bytes as are behind its marker. -/
theorem readReply_packet (header : PktHeader) (marker : UInt8) (block : Mem) (reply : ReplyPkt)
    (hc : c.incoming = p.bytes.map some ++ later) (hmarker : p.body.marker = b)
    (hrest : p.body.rest = bs) : readReply header marker block reply c =
      readMarkedPkt b block reply bs.length { c with incoming := bs.map some ++ later } >>=
        fun r => .ok (headerAfter header c, r.2.1, r.2.2) := by
  subst hmarker hrest
  have hfits := p.fits
  rw [Packet.bytes] at hc
  have hsplit : c.incoming = (leBytes 3 (1 + p.body.rest.length) ++ [p.seq]).map some ++
      (some p.body.marker :: (p.body.rest.map some ++ later)) := by
    rw [hc, List.map_append, List.append_assoc]
    rfl
  obtain ⟨hplen, -, hafter⟩ := headerAfter_whole header hfits hsplit
  have hleft : unsigned 64 (((1 + p.body.rest.length : ℕ) : ℤ) - 1) = p.body.rest.length := by
    rw [left_of_pos (by omega) (by omega), Nat.add_sub_cancel_left]
  have hmarked : (c.after 4).incoming = some p.body.marker :: (p.body.rest.map some ++ later) := by
    rw [hafter]
  rw [readReply_eq, hplen, readReplyPkt_of_marker marker block reply _ hmarked, hleft, hafter]

/-- An OK packet is read whole. -/
theorem readReply_ok (header : PktHeader) (marker : UInt8) (block : Mem) (reply : ReplyPkt)
    (hok : p.IsOk) (hc : c.incoming = p.bytes.map some ++ later) : ∃ header' reply',
    readReply header marker block reply c = .ok (header', reply', { c with incoming := later }) ∧
      reply'.isok = true ∧ reply'.iseof = false ∧ tryFreeReply reply' = .ok () := by
  obtain ⟨content, hbody, hshape⟩ := hok
  have hmarker : p.body.marker = 0 := by rw [hbody]; rfl
  have hcontent : p.body.rest = content := by rw [hbody]; rfl
  have hfits : 1 + content.length < 2 ^ 24 := hcontent ▸ p.fits
  let body : Conn := { c with incoming := content.map some ++ later }
  have hrec : body.reception content.length = ⟨content, false, later⟩ :=
    body.reception_whole rfl rfl
  have hfilled : filled block body content.length = store block 0 content := by
    rw [filled, hrec]
  have hrest : body.after content.length = { c with incoming := later } := by
    rw [Conn.after, hrec]
  obtain ⟨ok, hread, hmessage⟩ := readOkPkt_of_okBody block { reply.ok with marker := 0 }
    (taken_whole (c := body) rfl)
    (by rw [hfilled]; exact hshape _ (holds_store block 0 content))
    ((Nat.le_add_left _ 1).trans_lt (hfits.trans (by norm_num)))
  rw [hrest] at hread
  refine ⟨headerAfter header c, { reply with isok := true, iseof := false, ok := ok }, ?_, rfl, rfl,
    free_of_set hmessage⟩
  rw [readReply_packet header marker block reply hc hmarker hcontent, readMarkedPkt, if_pos rfl,
    ok_bind hread]
  rfl

/-- An error packet with a message is read whole as well. -/
theorem readReply_error (header : PktHeader) (marker : UInt8) (block : Mem) (reply : ReplyPkt)
    {errno : Vector UInt8 2} {state : Vector UInt8 5} {message : List UInt8}
    (hbody : p.body = .error errno state message) (hc : c.incoming = p.bytes.map some ++ later) :
    ∃ header' reply', readReply header marker block reply c =
        .ok (header', reply', { c with incoming := later }) ∧
      reply'.isok = false ∧ reply'.iseof = false ∧
      reply'.err.message = if message = [] then .null else .text message := by
  let bs : List UInt8 := errno.toList ++ 35 :: (state.toList ++ message)
  have hlength : bs.length = 8 + message.length := by
    simp only [bs, List.length_append, List.length_cons, Vector.length_toList]
    omega
  have hmarker : p.body.marker = 255 := by rw [hbody]; rfl
  have hrest : p.body.rest = bs := by rw [hbody]; rfl
  have hfits : 1 + bs.length < 2 ^ 24 := hrest ▸ p.fits
  let body : Conn := { c with incoming := bs.map some ++ later }
  have hrec : body.reception bs.length = ⟨bs, false, later⟩ := body.reception_whole rfl rfl
  have hfilled : filled block body bs.length = store block 0 bs := by
    rw [filled, hrec]
  have hafter : body.after bs.length = { c with incoming := later } := by
    rw [Conn.after, hrec]
  obtain ⟨hstart, hmessage⟩ := errorMessage_of_holds (holds_store block 0 bs)
  obtain ⟨err, hread, herr⟩ := readErrorPkt_of_le block { reply.err with marker := 255 }
    (taken_whole (c := body) rfl) (by rw [hfilled, hstart]; omega) (by omega)
  rw [hafter] at hread
  rw [hfilled, hlength, hmessage] at herr
  refine ⟨headerAfter header c, { reply with isok := false, iseof := false, err := err }, ?_, rfl,
    rfl, herr⟩
  have hmark : ¬(255 : UInt8) = 0 := by decide
  rw [readReply_packet header marker block reply hc hmarker hrest, readMarkedPkt, if_neg hmark,
    if_pos rfl, ok_bind hread]
  rfl

/-! ## The dialogue -/

/-- A greeting that the client answers. -/
structure Hello where
  greeting : ServerGreeting
  seq : UInt8
  speaks41 : greeting.capability.toNat.testBit 9 = true

def Hello.bytes (w : Hello) : List UInt8 :=
  leBytes 3 w.greeting.payload.length ++ [w.seq] ++ w.greeting.payload

/-- What a server says before the events of a dump. -/
structure Welcome extends Hello where
  accepted : Packet
  first : Packet
  accepted_ok : accepted.IsOk
  first_ok : first.IsOk

def Welcome.bytes (w : Welcome) : List UInt8 :=
  w.toHello.bytes ++ (w.accepted.bytes ++ w.first.bytes)

/-- The client's answer to a greeting. -/
def ServerGreeting.answer (g : ServerGreeting) (sha1 : List UInt8 → Vector UInt8 20)
    (user : List UInt8) (passwd : Option (List UInt8)) : AuthPkt where
  clientflags := clientFlags
  maxpkt := maxPacketSize
  charset := g.charset.toNat
  user := some user
  saltlen := if passwd.isSome then 20 else 0
  salt := match passwd with
    | none => Vector.replicate 20 0
    | some passwd => cooksalt sha1 g.scramble.toList passwd
  database := none

section

variable {scramble : Scramble} {u : Unset} {mysql : MySQL} {user : List UInt8}
  {passwd : Option (List UInt8)} {handshake : HandshakePkt} {g : ServerGreeting}
  {header : PktHeader}

theorem authPkt_recovered (h : g.Recovered handshake) :
    authPkt scramble handshake (some user) passwd none = g.answer scramble.sha1 user passwd := by
  unfold authPkt ServerGreeting.answer
  dsimp only
  rw [h.charset_eq, h.salt_eq]
  rfl

/-- The authentication packet as it goes over the line, with the 22 bytes that its length counts in
addition. -/
def authBytes (auth : AuthPkt) (user : List UInt8) (pnum : ℕ) : List UInt8 :=
  headerBytes ((auth.content user).length + 22) pnum ++
    (auth.content user ++ List.replicate 22 0)

theorem length_authBytes (auth : AuthPkt) (user : List UInt8) (pnum : ℕ) :
    (authBytes auth user pnum).length = (auth.content user).length + 26 := by
  rw [authBytes, List.length_append, length_headerBytes, List.length_append, List.length_replicate]
  omega

theorem length_content_answer (g : ServerGreeting) (sha1 : List UInt8 → Vector UInt8 20)
    (user : List UInt8) (passwd : Option (List UInt8)) :
    ((g.answer sha1 user passwd).content user).length ≤ 54 + user.length := by
  have hsalt : (g.answer sha1 user passwd).saltlen ≤ 20 := by
    unfold ServerGreeting.answer
    dsimp only
    split_ifs <;> omega
  have hdatabase : (g.answer sha1 user passwd).database = none := rfl
  rw [length_content _ _ hsalt, hdatabase, Option.elim]
  omega

/-- With room on the line, the authentication packet is sent whole. -/
theorem sendAuth_sent {c' : Conn} {status : Status} {auth : AuthPkt} {pnum : ℕ}
    (hread : readHandshakePkt (u.block 0) u.handshake
      (unsigned 64 (headerAfter u.header c).plen.toInt) (c.after 4) = .ok (status, handshake, c'))
    (hpnum : (headerAfter u.header c).pnum = pnum) (haccepts : Acceptable handshake)
    (hsalt : handshake.saltlen ≤ 64) (hfree : tryFreeHandshake handshake = .ok ())
    (hauth : authPkt scramble handshake (some user) passwd none = auth)
    (hlt : (auth.content user).length + 22 < 2 ^ 31)
    (hroom : (authBytes auth user ((pnum + 1) % 256)).length ≤ c'.room) (mysql : MySQL) :
    ∃ header mysql', sendAuth scramble u mysql c (some user) passwd none =
      .ok (some (header, handshake, c'.sent (authBytes auth user ((pnum + 1) % 256))), mysql') ∧
      mysql'.errstr = mysql.errstr := by
  obtain ⟨_, hheader⟩ := readPktHeader_after u.header c
  have huser : auth.user = some user := by
    rw [← hauth]
    rfl
  have hsaltlen := authPkt_saltlen_le scramble handshake (some user) passwd none
  rw [hauth] at hsaltlen
  rw [length_authBytes] at hroom
  have hwritten := writeHeader_whole (c := c') ((auth.content user).length + 22) ((pnum + 1) % 256)
    (by omega)
  have hleft : (c'.sent (headerBytes ((auth.content user).length + 22) ((pnum + 1) % 256))).room =
      c'.room - 4 := by
    rw [Conn.sent, length_headerBytes]
  obtain ⟨hplen, status', hwrite⟩ := writeAuthPkt_sent huser hsaltlen hlt
    (c := c'.sent (headerBytes ((auth.content user).length + 22) ((pnum + 1) % 256)))
    (by rw [hleft]; omega)
  rw [Conn.sent_sent] at hwrite
  unfold sendAuth
  rw [ok_bind hheader]
  dsimp only
  rw [ok_bind hread]
  dsimp only
  rw [if_neg haccepts.1, if_neg (not_not.mpr haccepts.2), if_neg (by omega), hauth, ok_bind hplen,
    hpnum, hwritten]
  dsimp only
  rw [ok_bind hwrite, ok_bind hfree]
  exact ⟨_, _, rfl, rfl⟩

theorem acceptable_of_recovered (h : g.Recovered handshake)
    (hspeaks : g.capability.toNat.testBit 9 = true) : Acceptable handshake := by
  refine ⟨?_, h.protover_eq⟩
  rw [Ne, and_protocol41, h.capacity_eq, hspeaks]
  exact Bool.noConfusion

theorem tryFreeHandshake_recovered (h : g.Recovered handshake) :
    tryFreeHandshake handshake = .ok () := by
  have hplugin : handshake.pluginname ≠ .wild := by
    rw [h.pluginname_eq]
    cases g.pluginname with
    | none => exact Pointer.noConfusion
    | some name => exact Pointer.noConfusion
  rw [tryFreeHandshake, h.mysqlver_eq, ok_bind (free_of_set Pointer.noConfusion),
    free_of_set hplugin]

/-- A greeting is answered. -/
theorem sendAuth_greeted {w : Hello} (mysql : MySQL)
    (hc : c.incoming = w.bytes.map some ++ later) (huser : user.length < 2 ^ 23)
    (hroom : user.length + 80 ≤ c.room) : ∃ header handshake mysql',
    sendAuth scramble u mysql c (some user) passwd none = .ok (some (header, handshake,
      { c with incoming := later }.sent
        (authBytes (w.greeting.answer scramble.sha1 user passwd) user
          ((w.seq.toNat + 1) % 256))), mysql') ∧ mysql'.errstr = mysql.errstr := by
  have hlength := w.greeting.length_payload
  have hfits := w.greeting.fits
  have hsplit : c.incoming =
      (leBytes 3 w.greeting.payload.length ++ [w.seq]).map some ++
        (w.greeting.payload.map some ++ later) := by
    rw [hc, Hello.bytes, List.map_append, List.append_assoc]
  obtain ⟨hplen, hpnum, hafter⟩ := headerAfter_whole u.header (by omega) hsplit
  have hholds := holds_store (u.block 0) 0 w.greeting.payload
  obtain ⟨hversion, hfull⟩ := ServerGreeting.full_payload hholds
  have hrecovered := ServerGreeting.recovered hholds u.handshake
  have hread : readHandshakePkt (u.block 0) u.handshake
      (unsigned 64 (headerAfter u.header c).plen.toInt) (c.after 4) = .ok (.protoOk,
        u.handshake.whole (store (u.block 0) 0 w.greeting.payload) w.greeting.payload.length,
        { c with incoming := later }) := by
    rw [hplen, readHandshakePkt_arrived (u.block 0) u.handshake (by omega)
      (congrArg Conn.incoming hafter), ok_bind (u.handshake.parse_whole hversion hfull (by omega)),
      hafter]
  have hcontent := length_content_answer w.greeting scramble.sha1 user passwd
  have hlt : ((w.greeting.answer scramble.sha1 user passwd).content user).length + 22 < 2 ^ 31 := by
    omega
  have hsaltlen : (u.handshake.whole (store (u.block 0) 0 w.greeting.payload)
      w.greeting.payload.length).saltlen ≤ 64 := hrecovered.saltlen_eq.le.trans (by norm_num)
  have hlength := length_authBytes (w.greeting.answer scramble.sha1 user passwd) user
    ((w.seq.toNat + 1) % 256)
  have hsent := sendAuth_sent hread hpnum
    (acceptable_of_recovered hrecovered w.speaks41) hsaltlen
    (tryFreeHandshake_recovered hrecovered) (authPkt_recovered hrecovered) hlt
    (hlength.le.trans (by dsimp only; omega)) mysql
  obtain ⟨header, mysql', hsend, herrstr⟩ := hsent
  exact ⟨header, _, mysql', hsend, herrstr⟩

/-- The reply to the authentication is taken from the line. -/
theorem finishAuth_ok (scramble : Scramble) (u : Unset) (mysql : MySQL) (header : PktHeader)
    (handshake : HandshakePkt) (passwd : Option (List UInt8)) (hok : p.IsOk)
    (hc : c.incoming = p.bytes.map some ++ later) : ∃ mysql',
    finishAuth scramble u mysql header handshake passwd c = .ok (true, mysql') ∧
      mysql'.fd = some { c with incoming := later } ∧ mysql'.errstr = mysql.errstr := by
  obtain ⟨header', reply, hread, hisok, hiseof, hfree⟩ :=
    readReply_ok header (u.marker 0) (u.block 1) u.reply hok hc
  unfold finishAuth
  rw [ok_bind hread]
  dsimp only
  rw [if_neg (by simp [hiseof]), ok_bind rfl]
  dsimp only
  rw [if_pos hisok, ok_bind hfree]
  exact ⟨_, rfl, rfl, rfl⟩

/-- What the client has written up to the dump. -/
def sentTo (w : Hello) (ds : DataSource NetSource) (user : List UInt8) : List UInt8 :=
  authBytes (w.greeting.answer ds.driver.scramble.sha1 user ds.driver.passwd) user
    ((w.seq.toNat + 1) % 256) ++ dumpPacket ds.position ds.serverid ds.logfile

end

variable {ds : DataSource NetSource} {mysql : MySQL} {user : List UInt8} {w : Welcome}

/-- The way up to the reply to the authentication. -/
theorem connectedTo_greeted {w : Hello} (hpeer : ds.driver.peer = .ok c)
    (huser : ds.driver.user = some user) (hlt : user.length < 2 ^ 23)
    (hc : c.incoming = w.bytes.map some ++ later) (hroom : user.length + 80 ≤ c.room) :
    ∃ header handshake mysql, connectedTo ds =
      finishAuth ds.driver.scramble (ds.driver.unset 0) mysql
        header handshake ds.driver.passwd ({ c with incoming := later }.sent
          (authBytes (w.greeting.answer ds.driver.scramble.sha1 user ds.driver.passwd) user
            ((w.seq.toNat + 1) % 256))) ∧ mysql.errstr = ds.driver.mysql.errstr := by
  have hgreeted : ∃ header handshake mysql', sendAuth ds.driver.scramble (ds.driver.unset 0)
      ds.driver.mysql c (some user) ds.driver.passwd none = .ok (some (header, handshake,
        { c with incoming := later }.sent
          (authBytes (w.greeting.answer ds.driver.scramble.sha1 user ds.driver.passwd) user
            ((w.seq.toNat + 1) % 256))), mysql') ∧ mysql'.errstr = ds.driver.mysql.errstr :=
    sendAuth_greeted ds.driver.mysql hc hlt hroom
  obtain ⟨header, handshake, mysql, hsend, herrstr⟩ := hgreeted
  refine ⟨header, handshake, mysql, ?_, herrstr⟩
  rw [connectedTo, hpeer, huser, mconnect_greeted hsend]

/-- An accepted authentication. -/
theorem connectedTo_accepted {w : Hello} (hpeer : ds.driver.peer = .ok c)
    (huser : ds.driver.user = some user) (hlt : user.length < 2 ^ 23) (hok : p.IsOk)
    (hc : c.incoming = (w.bytes ++ p.bytes).map some ++ later)
    (hroom : user.length + 80 ≤ c.room) : ∃ mysql, connectedTo ds = .ok (true, mysql) ∧
      mysql.fd = some ({ c with incoming := later }.sent
        (authBytes (w.greeting.answer ds.driver.scramble.sha1 user ds.driver.passwd) user
          ((w.seq.toNat + 1) % 256))) ∧ mysql.errstr = ds.driver.mysql.errstr := by
  rw [List.map_append, List.append_assoc] at hc
  obtain ⟨header, handshake, mysql', hgreeted, herrstr⟩ :=
    connectedTo_greeted hpeer huser hlt hc hroom
  let next : Conn := { c with incoming := p.bytes.map some ++ later }.sent
    (authBytes (w.greeting.answer ds.driver.scramble.sha1 user ds.driver.passwd) user
      ((w.seq.toNat + 1) % 256))
  have hnext : next.incoming = p.bytes.map some ++ later := rfl
  obtain ⟨mysql, hfinish, hfd, herr⟩ := finishAuth_ok ds.driver.scramble (ds.driver.unset 0) mysql'
    header handshake ds.driver.passwd hok hnext
  exact ⟨mysql, hgreeted.trans hfinish, hfd, herr.trans herrstr⟩

/-- With room for the command as well, this is sent, and the reply to it is what comes next. -/
theorem connectMySQL_accepted {w : Hello} (hpeer : ds.driver.peer = .ok c)
    (huser : ds.driver.user = some user) (hlt : user.length < 2 ^ 23)
    (hname : ds.logfile.length ≤ 246) (hok : p.IsOk)
    (hc : c.incoming = (w.bytes ++ p.bytes).map some ++ later)
    (hroom : user.length + 350 ≤ c.room) : ∃ mysql,
      connectMySQL ds = awaitDump ds mysql ({ c with incoming := later }.sent
        (sentTo w ds user)) ∧ mysql.errstr = ds.driver.mysql.errstr := by
  obtain ⟨mysql, hconnect, hfd, herrstr⟩ :=
    connectedTo_accepted hpeer huser hlt hok hc (by omega)
  have hleft : (authBytes (w.greeting.answer ds.driver.scramble.sha1 user ds.driver.passwd) user
      ((w.seq.toNat + 1) % 256)).length +
        (dumpPacket ds.position ds.serverid ds.logfile).length ≤ c.room := by
    have hcontent :=
      length_content_answer w.greeting ds.driver.scramble.sha1 user ds.driver.passwd
    rw [length_authBytes, length_dumpPacket]
    omega
  have hdump := sendsDump_of_le hname ds mysql _ rfl rfl rfl hconnect hfd
    (show _ ≤ c.room - _ from Nat.le_sub_of_add_le' hleft)
  rw [Conn.sent_sent] at hdump
  exact ⟨mysql, hdump, herrstr⟩

/-- The reply to the command is taken from the line as well. -/
theorem awaitDump_ok (mysql : MySQL) (hok : p.IsOk) (hc : c.incoming = p.bytes.map some ++ later) :
    awaitDump ds mysql c = .ok (true, { ds with driver := { ds.driver with
      mysql := { mysql with fd := some { c with incoming := later } } } }) := by
  obtain ⟨header, reply, hread, hisok, hiseof, hfree⟩ := readReply_ok (ds.driver.unset 1).header
    ((ds.driver.unset 1).marker 0) ((ds.driver.unset 1).block 0) (ds.driver.unset 1).reply hok hc
  unfold awaitDump
  dsimp only
  rw [ok_bind hread]
  dsimp only
  rw [if_neg (by simp [hisok]), ok_bind hfree]

/-- The client is connected, and all it has written is its answer and the command. -/
theorem connectMySQL_welcomed (hpeer : ds.driver.peer = .ok c)
    (huser : ds.driver.user = some user) (hlt : user.length < 2 ^ 23)
    (hname : ds.logfile.length ≤ 246) (hc : c.incoming = w.bytes.map some ++ later)
    (hroom : user.length + 350 ≤ c.room) : ∃ mysql,
    connectMySQL ds = .ok (true, { ds with driver := { ds.driver with mysql := mysql } }) ∧
      mysql.fd = some ({ c with incoming := later }.sent (sentTo w.toHello ds user)) ∧
      mysql.errstr = ds.driver.mysql.errstr := by
  have hsplit : c.incoming = (w.toHello.bytes ++ w.accepted.bytes).map some ++
      (w.first.bytes.map some ++ later) := by
    rw [hc, Welcome.bytes, ← List.append_assoc, List.map_append, List.append_assoc]
  obtain ⟨mysql, hdump, herrstr⟩ :=
    connectMySQL_accepted hpeer huser hlt hname w.accepted_ok hsplit hroom
  rw [awaitDump_ok mysql w.first_ok (show _ = w.first.bytes.map some ++ later from rfl)] at hdump
  exact ⟨_, hdump, rfl, herrstr⟩

/-! ## What the server reads -/

/-- A packet with its number, and what is behind it. -/
def splitPacket (bs : List UInt8) : Option (UInt8 × List UInt8 × List UInt8) := do
  let (len, bs) ← splitBytes 3 bs
  let (seq, bs) ← splitBytes 1 bs
  let (payload, bs) ← splitBytes (leNat len) bs
  some (UInt8.ofNat (leNat seq), payload, bs)

structure DumpRequest where
  position : ℕ
  flags : ℕ
  serverid : ℕ
  name : List UInt8

def decodeDump (payload : List UInt8) : Option DumpRequest := do
  let (cmd, bs) ← splitBytes 1 payload
  let (position, bs) ← splitBytes 4 bs
  let (flags, bs) ← splitBytes 2 bs
  let (serverid, name) ← splitBytes 4 bs
  if cmd = [cmdBinlogDump] then some ⟨leNat position, leNat flags, leNat serverid, name⟩ else none

/-- The authentication and the command, each with the number of its packet. -/
structure Heard where
  authNumber : UInt8
  auth : AuthFields
  dumpNumber : UInt8
  dump : DumpRequest

/-- What a server makes of all that the client writes. It does not look at what an authentication
packet has behind its fields. -/
def hear (bs : List UInt8) : Option Heard := do
  let (authNumber, payload, bs) ← splitPacket bs
  let (auth, _) ← decodeAuth payload
  let (dumpNumber, payload, bs) ← splitPacket bs
  let dump ← decodeDump payload
  if bs = [] then some ⟨authNumber, auth, dumpNumber, dump⟩ else none

theorem splitPacket_append {payload : List UInt8} (number : UInt8) (h : payload.length < 2 ^ 24)
    (bs : List UInt8) :
    splitPacket (leBytes 3 payload.length ++ [number] ++ payload ++ bs) =
      some (number, payload, bs) := by
  have hlen : leNat (leBytes 3 payload.length) = payload.length := leNat_leBytes_of_lt h
  have hnumber : UInt8.ofNat (leNat [number]) = number := by
    have hone : leNat [number] = number.toNat := by simp [leNat]
    rw [hone, UInt8.ofNat_toNat]
  unfold splitPacket
  simp only [List.append_assoc, Option.bind_eq_bind]
  rw [splitBytes_append (length_leBytes _ _).symm, Option.bind_some,
    splitBytes_append (rfl : 1 = [number].length), Option.bind_some, hlen, splitBytes_append rfl,
    Option.bind_some, hnumber]

theorem decodeDump_payload {position serverid : ℕ} (name : List UInt8)
    (hposition : position < 2 ^ 32)
    (hserverid : serverid < 2 ^ 32) :
    decodeDump ([18] ++ leBytes 4 position ++ [0, 0] ++ leBytes 4 serverid ++ name) =
      some ⟨position, 0, serverid, name⟩ := by
  have hpos : leNat (leBytes 4 position) = position := leNat_leBytes_of_lt hposition
  have hid : leNat (leBytes 4 serverid) = serverid := leNat_leBytes_of_lt hserverid
  unfold decodeDump
  simp only [List.append_assoc, Option.bind_eq_bind]
  rw [splitBytes_append (rfl : 1 = ([18] : List UInt8).length), Option.bind_some,
    splitBytes_append (length_leBytes _ _).symm, Option.bind_some,
    splitBytes_append (rfl : 2 = ([0, 0] : List UInt8).length), Option.bind_some,
    splitBytes_append (length_leBytes _ _).symm, Option.bind_some]
  dsimp only
  have hcmd : ([18] : List UInt8) = [cmdBinlogDump] := rfl
  rw [if_pos hcmd, hpos, hid]
  rfl

theorem ServerGreeting.answer_valid (g : ServerGreeting) (sha1 : List UInt8 → Vector UInt8 20)
    (user : CString) (passwd : Option (List UInt8)) :
    (g.answer sha1 user.bytes passwd).Valid user.bytes := by
  refine ⟨(by decide : clientFlags < 2 ^ 32), (by decide : maxPacketSize < 2 ^ 32),
    g.charset.toNat_lt, ?_, user.zero_notMem, ?_, ?_⟩
  · unfold ServerGreeting.answer
    dsimp only
    split_ifs <;> omega
  · intro database hdatabase
    cases hdatabase
  · exact iff_of_true (by decide : clientFlags &&& Capability.connectWithDb = 0) rfl

/-- The server finds the fields of the answer to its greeting under the next number, and the command
under a new count. -/
theorem hear_sentTo (w : Hello) (ds : DataSource NetSource) (user : CString)
    (hlt : user.bytes.length < 2 ^ 23) (hname : ds.logfile.length ≤ 246)
    (hposition : ds.position < 2 ^ 32) : hear (sentTo w ds user.bytes) = some {
      authNumber := w.seq + 1
      auth := (w.greeting.answer ds.driver.scramble.sha1 user.bytes ds.driver.passwd).fields
        user.bytes
      dumpNumber := 0
      dump := ⟨ds.position, 0, toUInt32 ds.serverid, ds.logfile⟩ } := by
  have hnumber : UInt8.ofNat ((w.seq.toNat + 1) % 256) = w.seq + 1 := by
    apply UInt8.toNat_inj.mp
    rw [UInt8.toNat_ofNat', UInt8.toNat_add, Nat.mod_mod]
    rfl
  let auth := w.greeting.answer ds.driver.scramble.sha1 user.bytes ds.driver.passwd
  have hcontent : (auth.content user.bytes).length ≤ 54 + user.bytes.length :=
    length_content_answer w.greeting ds.driver.scramble.sha1 user.bytes ds.driver.passwd
  have hpadded : (auth.content user.bytes ++ List.replicate 22 0).length =
      (auth.content user.bytes).length + 22 := by
    rw [List.length_append, List.length_replicate]
  have hfirst := splitPacket_append (w.seq + 1)
    (show (auth.content user.bytes ++ List.replicate 22 0).length < 2 ^ 24 by omega)
    (dumpPacket ds.position ds.serverid ds.logfile)
  have hlength : ([18] ++ leBytes 4 ds.position ++ [0, 0] ++ leBytes 4 (toUInt32 ds.serverid) ++
      ds.logfile : List UInt8).length = 11 + ds.logfile.length := by
    simp only [List.length_append, length_leBytes, List.length_cons, List.length_nil]
  have hsecond := splitPacket_append 0 (show ([18] ++ leBytes 4 ds.position ++ [0, 0] ++
    leBytes 4 (toUInt32 ds.serverid) ++ ds.logfile : List UInt8).length < 2 ^ 24 by omega) []
  rw [hlength, List.append_nil] at hsecond
  rw [hpadded, ← hnumber] at hfirst
  have hsent : sentTo w ds user.bytes = leBytes 3 ((auth.content user.bytes).length + 22) ++
      [UInt8.ofNat ((w.seq.toNat + 1) % 256)] ++ (auth.content user.bytes ++ List.replicate 22 0) ++
        dumpPacket ds.position ds.serverid ds.logfile := rfl
  have hdump : dumpPacket ds.position ds.serverid ds.logfile = leBytes 3 (11 + ds.logfile.length) ++
      [0] ++ ([18] ++ leBytes 4 ds.position ++ [0, 0] ++ leBytes 4 (toUInt32 ds.serverid) ++
        ds.logfile) := by
    simp only [dumpPacket, List.append_assoc]
  unfold hear
  simp only [Option.bind_eq_bind]
  rw [hsent, hfirst, Option.bind_some, decodeAuth_content (w.greeting.answer_valid _ user _),
    Option.bind_some, hdump, hsecond, Option.bind_some,
    decodeDump_payload _ hposition (unsigned_lt 32 ds.serverid), Option.bind_some, if_pos rfl,
    hnumber]

/-- A client that is welcomed is connected. The server has then read an answer to its own greeting
that passes its check of the password, and the command for a dump from the position on. -/
theorem connectMySQL_understood {c : Conn} {later : List (Option UInt8)} (w : Welcome)
    (ds : DataSource NetSource) (user : CString) (hpeer : ds.driver.peer = .ok c)
    (huser : ds.driver.user = some user.bytes) (hlt : user.bytes.length < 2 ^ 23)
    (hname : ds.logfile.length ≤ 246) (hposition : ds.position < 2 ^ 32)
    (hc : c.incoming = w.bytes.map some ++ later) (hroom : user.bytes.length + 350 ≤ c.room) :
    ∃ mysql sent heard,
      connectMySQL ds = .ok (true, { ds with driver := { ds.driver with mysql := mysql } }) ∧
      mysql.fd = some ({ c with incoming := later }.sent sent) ∧ hear sent = some heard ∧
      heard.authNumber = w.seq + 1 ∧ heard.auth.user = user.bytes ∧
      (∀ passwd ∈ ds.driver.passwd, ∃ answer : Vector UInt8 20, heard.auth.salt = answer.toList ∧
        Passes ds.driver.scramble.sha1 w.greeting.scramble.toList
          (ds.driver.scramble.sha1 (ds.driver.scramble.sha1 passwd).toList) answer) ∧
      heard.dumpNumber = 0 ∧ heard.dump = ⟨ds.position, 0, toUInt32 ds.serverid, ds.logfile⟩ := by
  obtain ⟨mysql, hconnect, hfd, -⟩ := connectMySQL_welcomed hpeer huser hlt hname hc hroom
  refine ⟨mysql, _, _, hconnect, hfd, hear_sentTo w.toHello ds user hlt hname hposition, rfl, rfl,
    ?_, rfl, rfl⟩
  intro passwd hpasswd
  refine ⟨_, ?_, cooksalt_passes ds.driver.scramble.sha1 w.greeting.scramble.toList passwd⟩
  rw [Option.mem_def.mp hpasswd]
  exact List.take_of_length_le (Vector.length_toList.le)

/-! ## A server that welcomes -/

def sampleGreeting : ServerGreeting where
  version := ascii "5.5"
  version_notMem := by decide
  threadid := 1
  scramble := .replicate 20 7
  capability := 512
  charset := 33
  status := 2
  saltlen := 21
  filler := .replicate 10 0
  pluginname := none
  pluginname_notMem := by simp
  fits := by decide

theorem length_announcement :
    1 + (PacketBody.event (List.replicate 22 0)).rest.length < 2 ^ 24 := by
  decide

/-- The greeting, an OK packet, and a first event of 22 bytes. -/
def sampleWelcome : Welcome where
  greeting := sampleGreeting
  seq := 0
  accepted := OkAnswer.packet {
    seq := 2
    affected := 0
    affectedBytes := [0]
    insertid := 0
    insertidBytes := [0]
    status := 2
    warnings := 0
    message := []
    affected_encodes := .one 0 (by norm_num)
    insertid_encodes := .one 0 (by norm_num)
    fits := by norm_num }
  first := ⟨1, .event (List.replicate 22 0), length_announcement⟩
  speaks41 := by decide
  accepted_ok := OkAnswer.isOk _
  first_ok := Packet.isOk_of_event rfl List.length_replicate.ge

def sampleUser : CString := ⟨ascii "repl", by decide, by decide⟩

/-- A line on which the welcome arrives, with these bytes behind it. -/
def welcomeLine (later : List UInt8) : Conn :=
  { openLine with incoming := sampleWelcome.bytes.map some ++ later.map some }

/-- A data source with the password `secret`, whose server gives these bytes behind the welcome. -/
def sampleServer (later : List UInt8) : DataSource NetSource where
  logfile := ascii "log.000001"
  position := 4
  index := 0
  serverid := 9
  driver := ⟨.ok (welcomeLine later), some sampleUser.bytes, some (ascii "secret"), plainScramble,
    freshClient, fun _ => 0, fun _ => .zero⟩
  errstr := []

theorem connectMySQL_understood_sample : ∃ ds sent heard,
    connectMySQL (sampleServer []) = .ok (true, ds) ∧
      ds.driver.mysql.fd = some ({ welcomeLine [] with incoming := [] }.sent sent) ∧
      hear sent = some heard ∧ heard.auth.user = ascii "repl" ∧
      heard.dump = ⟨4, 0, 9, ascii "log.000001"⟩ := by
  obtain ⟨mysql, sent, heard, hconnect, hfd, hheard, -, huser, -, -, hdump⟩ :=
    connectMySQL_understood sampleWelcome (sampleServer []) sampleUser rfl rfl (by decide)
      (by decide) (by decide) rfl (by decide)
  exact ⟨_, sent, heard, hconnect, hfd, hheard, huser, hdump⟩

end LibBinlog
