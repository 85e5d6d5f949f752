import LibBinlog.NetFeed
import LibBinlog.Owned

/-!
# The two drivers and their blocks

What `filedriver.c` and `netdriver.c` make of `newbuf`, and what they allocate and never free: the
buffer of every error packet, the message of one that comes instead of an event, and the strings of
a greeting that is turned down.
-/

namespace LibBinlog.Owned

open Machine Memory Ledger

/-! ## Files -/

/-- The pointer is set once a header is there. -/
def newbufOfFile (ds : DataSource FileSource) : NewBuf :=
  let header := ds.driver.fp.take 19
  if header.length < 19 then .kept
  else if eventBufSize < toInt32 (lengthField header) then .malloc
  else .null

theorem newbufOfFile_set {ds ds' : DataSource FileSource} {ev : Mem}
    (h : getEventFromFile ds = .ok (some ev, ds')) : newbufOfFile ds ≠ .kept := by
  unfold getEventFromFile at h
  unfold newbufOfFile
  dsimp only at h ⊢
  split_ifs at h ⊢ <;> simp_all

def heldFileDriver : BufferingDriver FileSource where
  toDriver := fileDriver
  newbuf := newbufOfFile
  newbuf_set := newbufOfFile_set
  lostByConnect _ := 0
  lostByEvent _ := 0

/-! ## Servers -/

/-- The header and the marker of the next packet, if they come. -/
def markerOf (u : Unset) (c : Conn) : Option (PktHeader × UInt8 × Conn) :=
  match readPktHeader u.header c with
  | .error _ => none
  | .ok (_, header, c) =>
    let (nread, bytes, c) := anetRead c 1
    if nread = -1 then none else some (header, bytes.headD (u.marker 0), c)

def newbufOfServer (ds : DataSource NetSource) : NewBuf :=
  let src := ds.driver
  let u := src.unset src.unread
  match markerOf u src.conn with
  | none => .kept
  | some (header, marker, _) =>
    if marker = 255 then .kept
    else if eventBufSize < unsigned 64 header.plen.toInt ∧
        (malloc (u.block 1) (unsigned 64 header.plen.toInt)).isSome then .malloc
    else .null

theorem newbufOfServer_set {ds ds' : DataSource NetSource} {ev : Mem}
    (h : getEventFromServer ds = .ok (some ev, ds')) : newbufOfServer ds ≠ .kept := by
  obtain ⟨⟨nread, buf, newbuf, mysql⟩, hread, h⟩ := bind_ok_iff.mp h
  have hpos : ¬nread < 0 := by
    intro hneg
    dsimp only at h
    rw [if_pos hneg] at h
    obtain ⟨text, -, h⟩ := bind_ok_iff.mp h
    cases h
  obtain ⟨⟨status, header, c⟩, hheader, hread⟩ := bind_ok_iff.mp hread
  unfold newbufOfServer markerOf
  dsimp only at hread ⊢
  rw [show ds.driver.conn = ds.driver.mysql.fd.getD .closed from rfl, hheader]
  dsimp only
  split_ifs at hread with hmarker
  · cases hread
    exact absurd (by norm_num) hpos
  · rw [if_neg hmarker]
    dsimp only
    by_cases herror : (anetRead c 1).2.1.headD ((ds.driver.unset ds.driver.unread).marker 0) = 255
    · unfold readMarkedEvent at hread
      dsimp only at hread
      rw [if_pos herror] at hread
      obtain ⟨_, -, hread⟩ := bind_ok_iff.mp hread
      obtain ⟨_, -, hread⟩ := bind_ok_iff.mp hread
      cases hread
      exact absurd (by norm_num) hpos
    · rw [if_neg herror]
      split_ifs <;> exact NewBuf.noConfusion

/-- A string is a block of its own. The packets are read over null pointers, so that only strings
they bring are counted. -/
def stringBlocks : Pointer → ℕ
  | .text _ => 1
  | _ => 0

/-- `readErrorPkt` keeps its buffer, and `msaferead` the message. -/
def lostByEvent (ds : DataSource NetSource) : ℕ :=
  let src := ds.driver
  let u := src.unset src.unread
  match markerOf u src.conn with
  | none => 0
  | some (header, marker, c) =>
    if marker = 255 then
      match readErrorPkt (u.block 0) { u.reply.err with marker := marker, message := .null }
          (unsigned 64 (header.plen.toInt - 1)) c with
      | .ok (.protoOk, err, _) => 1 + stringBlocks err.message
      | _ => 0
    else 0

/-- The message of a reply is freed, the buffer of an error packet is not. -/
def lostByReply (header : PktHeader) (marker : UInt8) (block : Mem) (reply : ReplyPkt) (c : Conn) :
    ℕ :=
  match readPktHeader header c with
  | .error _ => 0
  | .ok (_, header, c) =>
    match readReplyPkt marker block reply (unsigned 64 header.plen.toInt) c with
    | .ok (.protoOk, reply, _) => if reply.isok ∨ reply.iseof then 0 else 1
    | _ => 0

/-- A greeting that cannot be read keeps its buffer, one that is turned down its strings. -/
def lostByGreeting (u : Unset) (c : Conn) (answered : Bool) : ℕ :=
  match readPktHeader u.header c with
  | .error _ => 0
  | .ok (_, header, c) =>
    match readHandshakePkt (u.block 0) { u.handshake with mysqlver := .null, pluginname := .null }
        (unsigned 64 header.plen.toInt) c with
    | .error _ => 0
    | .ok (.protoErr, _, _) => 1
    | .ok (.protoOk, handshake, _) =>
      if answered then 0 else stringBlocks handshake.mysqlver + stringBlocks handshake.pluginname

/-- `mconnect` behind the authentication packet. -/
def lostByAuth (scramble : Scramble) (u : Unset) (header : PktHeader) (handshake : HandshakePkt)
    (passwd : Option (List UInt8)) (c : Conn) : ℕ :=
  match readReply header (u.marker 0) (u.block 1) u.reply c with
  | .error _ => 0
  | .ok (next, reply, c') =>
    if reply.iseof then
      let (_, c') := writeHeader 9 ((next.pnum + 1) % 256) c'
      let (_, c') := anetWrite c' (ofBytes (saltold scramble handshake passwd)) 9
      lostByReply next (u.marker 1) (u.block 2) reply c'
    else lostByReply header (u.marker 0) (u.block 1) u.reply c

def lostByLogin (src : NetSource) : ℕ :=
  match src.peer with
  | .error _ => 0
  | .ok c =>
    let u := src.unset 0
    match sendAuth src.scramble u src.mysql c src.user src.passwd none with
    | .error _ => 0
    | .ok (none, _) => lostByGreeting u c false
    | .ok (some (header, handshake, c'), _) =>
      lostByGreeting u c true + lostByAuth src.scramble u header handshake src.passwd c'

/-- `msendcmd` for the dump. -/
def lostByDump (ds : DataSource NetSource) (mysql : MySQL) : ℕ :=
  let u := ds.driver.unset 1
  match mysql.fd with
  | none => 0
  | some c =>
    let args := leBytes 4 ds.position ++ leBytes 2 0 ++ leBytes 4 (toUInt32 ds.serverid) ++
      ds.logfile
    match writeHeader (args.length + 1) mysql.pnum c with
    | (.protoErr, _) => 0
    | (.protoOk, c) =>
      match writeCmdPkt cmdBinlogDump args (args.length + 1) c with
      | .ok (.protoOk, c) => lostByReply u.header (u.marker 0) (u.block 0) u.reply c
      | _ => 0

def lostByConnect (ds : DataSource NetSource) : ℕ :=
  let src := ds.driver
  lostByLogin src +
    match mconnect src.scramble (src.unset 0) src.mysql src.peer src.user src.passwd none with
    | .ok (true, mysql) => lostByDump ds mysql
    | _ => 0

def heldNetDriver : BufferingDriver NetSource where
  toDriver := netDriver
  newbuf := newbufOfServer
  newbuf_set := newbufOfServer_set
  lostByConnect := lostByConnect
  lostByEvent := lostByEvent

end LibBinlog.Owned
