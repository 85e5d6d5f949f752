import LibBinlog.Client
import LibBinlog.Protocol

/-!
# The client of `mysql.c`

`mconnect` exchanges greeting, authentication and reply, `msendcmd` a command and its reply, and
`msaferead` reads the packets that the server sends for a dump. What a function's own variables and
blocks hold before it stores anything there is a parameter of it, `Unset`.
-/

namespace LibBinlog

open Machine Memory

/-- `fd` is the connection, `none` for the descriptor -1. -/
structure MySQL where
  fd : Option Conn
  scapacity : ℕ
  ccapacity : ℕ
  threadid : ℕ
  maxpkt : ℕ
  status : ℕ
  charset : ℕ
  pnum : ℕ
  errstr : List UInt8

/-- The variables of a function; markers and blocks of the functions it calls, in their order. -/
structure Unset where
  header : PktHeader
  handshake : HandshakePkt
  reply : ReplyPkt
  marker : ℕ → UInt8
  block : ℕ → Mem

/-- All of them happen to hold zeros. -/
def Unset.zero : Unset where
  header := ⟨0, 0⟩
  handshake := ⟨0, .null, 0, 0, fun _ => 0, 0, 0, 0, .null⟩
  reply := ⟨false, false, ⟨0, 0, 0, 0, 0, .null⟩, ⟨0, 0, 0, [], .null⟩, ⟨0, 0, 0⟩⟩
  marker _ := 0
  block _ _ := 0

namespace Capability

def longPassword : ℕ := 1

def longFlag : ℕ := 4

def connectWithDb : ℕ := 8

def protocol41 : ℕ := 512

def secureConnection : ℕ := 32768

end Capability

def maxPacketSize : ℕ := 1024 * 1024 * 16

/-! ## Texts -/

/-- `strncpy` to an error text. A text of 256 bytes has no terminator. -/
def strncpyErr : Pointer → Except Fault (List UInt8)
  | .text bs => .ok ((cstring bs).take errorSize)
  | _ => .error .memory

/-- `%s`. -/
def Pointer.printed : Pointer → Except Fault (List UInt8)
  | .null => .ok (ascii "(null)")
  | .text bs => .ok (cstring bs)
  | .wild => .error .memory

/-- `%s` for an error text. -/
def printedErr (errstr : List UInt8) : Except Fault (List UInt8) :=
  if errstr.length < errorSize then .ok errstr else .error .memory

/-! ## Authentication -/

/-- The digest of `sha1.c`, and the scramble of the old protocol, which computes in floating
point. -/
structure Scramble where
  sha1 : List UInt8 → Vector UInt8 20
  cooksaltOld : List UInt8 → List UInt8 → Vector UInt8 9

def cooksalt (sha1 : List UInt8 → Vector UInt8 20) (salt passwd : List UInt8) :
    Vector UInt8 20 :=
  let hash1 := sha1 passwd
  let hash2 := sha1 hash1.toList
  let hash2 := sha1 (salt ++ hash2.toList)
  Vector.zipWith (· ^^^ ·) hash1 hash2

/-- Strings without their terminators, `none` for the null pointer. -/
structure AuthPkt where
  clientflags : ℕ
  maxpkt : ℕ
  charset : ℕ
  user : Option (List UInt8)
  saltlen : ℕ
  salt : Vector UInt8 20
  database : Option (List UInt8)

def calcAuthPktLen (pkt : AuthPkt) : Except Fault ℕ :=
  match pkt.user with
  | none => .error .memory
  | some user =>
    let plen := 4 + 4 + 1 + 23 + user.length + 1 + 1 + ((ascii "mysql_native_password").length + 1)
    let plen := if pkt.saltlen ≠ 0 then plen + pkt.saltlen else plen
    match pkt.database with
    | none => .ok plen
    | some database => .ok (plen + (database.length + 1))

def writeAuthFields (pkt : AuthPkt) (user : List UInt8) (io : Vio) : Vio :=
  let io := writeBinary io (leBytes 4 pkt.clientflags)
  let io := writeBinary io (leBytes 4 pkt.maxpkt)
  let io := writeBinary io (leBytes 1 pkt.charset)
  let io := writeBinary io (List.replicate 23 0)
  let io := writeBinary io (user ++ [0])
  let io := writeBinary io (leBytes 1 pkt.saltlen)
  let io := if pkt.saltlen ≠ 0 then writeBinary io (pkt.salt.toList.take pkt.saltlen) else io
  match pkt.database with
  | none => io
  | some database => writeBinary io (database ++ [0])

/-- A block that has to be enlarged is no longer where `buf` points to. -/
def writeAuthPkt (pkt : AuthPkt) (plen : ℕ) (c : Conn) : Except Fault (Status × Conn) :=
  match pkt.user with
  | none => .error .memory
  | some user =>
    let io := writeAuthFields pkt user (vioInitWithBuffer (fun _ => 0) plen)
    if io.len = signed 64 plen then
      let (nwrite, c) := anetWrite c io.buf (toInt32 plen)
      .ok (if unsigned 64 nwrite < plen then .protoErr else .protoOk, c)
    else .error .memory

def clientFlags : ℕ :=
  Capability.protocol41 ||| Capability.secureConnection ||| Capability.longPassword |||
    Capability.longFlag

/-- The packet that `mconnect` fills in. A salt longer than its array would be read past its end. -/
def authPkt (scramble : Scramble) (handshake : HandshakePkt)
    (user passwd db : Option (List UInt8)) : AuthPkt :=
  let withDb := db.isSome ∧ handshake.capacity &&& Capability.connectWithDb ≠ 0
  { clientflags := if withDb then clientFlags ||| Capability.connectWithDb else clientFlags
    maxpkt := maxPacketSize
    charset := handshake.charset
    user := user
    saltlen := if passwd.isSome then 20 else 0
    salt := match passwd with
      | none => Vector.replicate 20 0
      | some passwd => cooksalt scramble.sha1 (slice handshake.salt 0 handshake.saltlen) passwd
    database := if withDb then db else none }

/-- `mconnect` up to the authentication packet, with the salt for a second one; `none` where it
gives up on the server's greeting. What becomes of the packet is not looked at. -/
def sendAuth (scramble : Scramble) (u : Unset) (mysql : MySQL) (c : Conn)
    (user passwd db : Option (List UInt8)) :
    Except Fault (Option (PktHeader × HandshakePkt × Conn) × MySQL) := do
  let (_, header, c) ← readPktHeader u.header c
  let mysql := { mysql with fd := some c, pnum := header.pnum }
  let (_, handshake, c) ←
    readHandshakePkt (u.block 0) u.handshake (unsigned 64 header.plen.toInt) c
  let mysql := { mysql with fd := some c }
  if handshake.capacity &&& Capability.protocol41 = 0 then
    .ok (none, { mysql with
      errstr := ascii "Imcompatible protocol,we use CLIENT_PROTOCOL_41" })
  else if handshake.protover ≠ 10 then
    .ok (none, { mysql with
      errstr := ascii "Unsupport protocol version " ++ decimalText handshake.protover })
  else if passwd.isSome ∧ 64 < handshake.saltlen then .error .memory
  else do
    let auth := authPkt scramble handshake user passwd db
    let mysql := { mysql with
      scapacity := handshake.capacity
      status := handshake.status
      pnum := (mysql.pnum + 1) % 256
      maxpkt := maxPacketSize
      ccapacity := clientFlags }
    let plen ← calcAuthPktLen auth
    let (_, c) := writeHeader plen mysql.pnum c
    let (_, c) ← writeAuthPkt auth plen c
    tryFreeHandshake handshake
    .ok (some (header, handshake, c), { mysql with fd := some c })

/-! ## Connecting -/

def mclose (mysql : MySQL) : MySQL :=
  { mysql with
    fd := none
    scapacity := 0
    ccapacity := 0
    threadid := 0
    status := 0
    charset := 0
    pnum := 0 }

/-- The reading of a reply: its header and the packet. -/
def readReply (header : PktHeader) (marker : UInt8) (block : Mem) (reply : ReplyPkt) (c : Conn) :
    Except Fault (PktHeader × ReplyPkt × Conn) := do
  let (_, header, c) ← readPktHeader header c
  let (_, reply, c) ← readReplyPkt marker block reply (unsigned 64 header.plen.toInt) c
  .ok (header, reply, c)

/-- The answer of the old protocol, zeros without a password. -/
def saltold (scramble : Scramble) (handshake : HandshakePkt) : Option (List UInt8) → List UInt8
  | none => List.replicate 9 0
  | some passwd => (scramble.cooksaltOld (slice handshake.salt 0 8) passwd).toList

/-- The rest of `mconnect`: the reply, after an EOF packet the old scramble and another reply, and
what the last of them says. -/
def finishAuth (scramble : Scramble) (u : Unset) (mysql : MySQL) (header : PktHeader)
    (handshake : HandshakePkt) (passwd : Option (List UInt8)) (c : Conn) :
    Except Fault (Bool × MySQL) := do
  let (header, reply, c) ← readReply header (u.marker 0) (u.block 1) u.reply c
  let (header, reply, c) ←
    (if reply.iseof then
      let (_, c) := writeHeader 9 ((header.pnum + 1) % 256) c
      let (_, c) := anetWrite c (ofBytes (saltold scramble handshake passwd)) 9
      readReply header (u.marker 1) (u.block 2) reply c
    else .ok (header, reply, c))
  let mysql := { mysql with fd := some c, pnum := header.pnum }
  if reply.isok then do
    tryFreeReply reply
    .ok (true, { mysql with pnum := 0 })
  else do
    let errstr ← strncpyErr reply.err.message
    tryFreeReply reply
    .ok (false, mclose { mysql with errstr := errstr })

/-- `peer` is the connection that the host and the port lead to, or the text of an error. -/
def mconnect (scramble : Scramble) (u : Unset) (mysql : MySQL) (peer : Except (List UInt8) Conn)
    (user passwd db : Option (List UInt8)) : Except Fault (Bool × MySQL) :=
  match peer with
  | .error text => .ok (false, { mysql with errstr := text })
  | .ok c => do
    let (greeted, mysql) ← sendAuth scramble u mysql c user passwd db
    match greeted with
    | none => .ok (false, mysql)
    | some (header, handshake, c) => finishAuth scramble u mysql header handshake passwd c

/-! ## Commands -/

def cmdBinlogDump : UInt8 := 18

/-- `args` are the bytes of the argument. -/
def writeCmdPkt (cmd : UInt8) (args : List UInt8) (plen : ℕ) (c : Conn) :
    Except Fault (Status × Conn) :=
  let io := vioInitWithBuffer (fun _ => 0) plen
  let io := writeBinary io [cmd]
  let io := writeBinary io args
  if io.len = signed 64 plen then
    let (nwrite, c) := anetWrite c io.buf (toInt32 plen)
    .ok (if nwrite = -1 then .protoErr else .protoOk, c)
  else .error .memory

def msendcmd (u : Unset) (mysql : MySQL) (cmd : UInt8) (args : List UInt8) :
    Except Fault (Bool × MySQL) :=
  match mysql.fd with
  | none => .ok (false, { mysql with
      errstr := ascii "Invalid fd, please connnect to mysql first!" })
  | some c =>
    let plen := args.length + 1
    match writeHeader plen mysql.pnum c with
    | (.protoErr, c) => .ok (false, { mysql with fd := some c })
    | (.protoOk, c) => do
      let (status, c) ← writeCmdPkt cmd args plen c
      if status = .protoErr then .ok (false, { mysql with fd := some c })
      else do
        let (_, reply, c) ← readReply u.header (u.marker 0) (u.block 0) u.reply c
        let mysql := { mysql with fd := some c }
        if reply.isok = false ∧ reply.iseof = false then do
          let text ← reply.err.message.printed
          tryFreeReply reply
          .ok (false, { mysql with errstr := text.take 127 })
        else do
          tryFreeReply reply
          .ok (true, mysql)

/-! ## Reading packets -/

/-- The client behind a read. -/
def MySQL.onRead (mysql : MySQL) (nread : ℤ) (c : Conn) : MySQL :=
  { mysql with
    fd := mysql.fd.map fun _ => c
    errstr := if nread = -1 then c.reason else mysql.errstr }

/-- The content, in the caller's block or, if that is too small, in a new one: the result, the
caller's block, the new one and the client. `read` refuses a null pointer. -/
def readContent (newblock : Mem) (mysql : MySQL) (buf : Mem) (blen : ℕ) (plen : Int32) (left : ℕ)
    (c : Conn) : ℤ × Mem × Option Mem × MySQL :=
  if blen < unsigned 64 plen.toInt then
    match malloc newblock (unsigned 64 plen.toInt) with
    | none => (-1, buf, none, mysql.onRead (-1) c)
    | some newbuf =>
      let (nread, bytes, c) := anetRead c (toInt32 left)
      (nread, buf, some (store newbuf 0 bytes), mysql.onRead nread c)
  else
    let (nread, bytes, c) := anetRead c (toInt32 left)
    (nread, store buf 0 bytes, none, mysql.onRead nread c)

/-- `msaferead` behind the marker. An EOF packet leaves `isok` set, and the read goes on behind
it. -/
def readMarkedEvent (u : Unset) (mysql : MySQL) (buf : Mem) (blen : ℕ) (plen : Int32)
    (marker : UInt8) (c : Conn) : Except Fault (ℤ × Mem × Option Mem × MySQL) :=
  let left := unsigned 64 (plen.toInt - 1)
  if marker = 255 then do
    let (_, err, c) ← readErrorPkt (u.block 0) { u.reply.err with marker := marker } left c
    let errstr ← strncpyErr err.message
    .ok (-1, buf, none, { mysql with fd := mysql.fd.map fun _ => c, errstr := errstr })
  else if marker = 254 ∧ left < 8 then do
    let (_, _eof, c) ← readEofPkt (u.block 0) { u.reply.eof with marker := marker } left c
    .ok (readContent (u.block 1) mysql buf blen plen left c)
  else .ok (readContent (u.block 1) mysql buf blen plen left c)

def msaferead (u : Unset) (mysql : MySQL) (buf : Mem) (blen : ℕ) :
    Except Fault (ℤ × Mem × Option Mem × MySQL) := do
  let (_, header, c) ← readPktHeader u.header (mysql.fd.getD .closed)
  let (nread, bytes, c) := anetRead c 1
  if nread = -1 then .ok (-1, buf, none, { mysql with fd := mysql.fd.map fun _ => c })
  else readMarkedEvent u mysql buf blen header.plen (bytes.headD (u.marker 0)) c

end LibBinlog
