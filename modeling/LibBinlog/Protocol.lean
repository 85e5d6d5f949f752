import LibBinlog.Anet
import LibBinlog.Vio

/-!
# Packets of the client-server protocol

The readers and writers of `protocol.c`. A reader that fails leaves its packet as it was, so what an
unset packet, marker or block holds is a parameter of each of them. The members of the reply's union
are kept apart: none of them is written over a message that is still looked at.
-/

namespace LibBinlog

open Machine Memory

inductive Status
  | protoErr | protoOk
  deriving DecidableEq, Repr

/-- A `char *`: null, the bytes of a block with a zero behind them, or what no one has set. -/
inductive Pointer
  | null
  | text (bs : List UInt8)
  | wild
  deriving DecidableEq, Repr

/-- A new block, whose bytes are not set; a size that no object can have gives the null pointer. -/
def malloc (block : Mem) (size : ℕ) : Option Mem := if size < 2 ^ 63 then some block else none

def free : Pointer → Except Fault Unit
  | .wild => .error .memory
  | _ => .ok ()

/-! ## Headers -/

structure PktHeader where
  plen : Int32
  pnum : ℕ
  deriving DecidableEq, Repr

/-- A header cut short is filled up with zeros; if a read fails it stays as it was. -/
def readPktHeader (header : PktHeader) (c : Conn) : Except Fault (Status × PktHeader × Conn) :=
  let (nread, bytes, c) := anetRead c 4
  if nread = -1 then .ok (.protoErr, header, c)
  else do
    let io := vioInitWithBuffer (store (fun _ => 0) 0 bytes) 4
    let (plen, io) ← io.readUint24
    let (pnum, _io) ← io.readUint8
    .ok (.protoOk, ⟨Int32.ofNat plen, pnum⟩, c)

def writeHeader (plen pnum : ℕ) (c : Conn) : Status × Conn :=
  let buf := store (ofBytes (leBytes 4 plen)) 3 [UInt8.ofNat pnum]
  let (nwrite, c) := anetWrite c buf 4
  (if nwrite = -1 then .protoErr else .protoOk, c)

/-! ## The handshake -/

/-- `salt` is an array of 64 bytes. -/
structure HandshakePkt where
  protover : ℕ
  mysqlver : Pointer
  threadid : ℕ
  saltlen : ℕ
  salt : Mem
  capacity : ℕ
  charset : ℕ
  status : ℕ
  pluginname : Pointer

/-- The fields in the order of the payload. A payload may end behind the first part of the salt or
behind the low half of the capability flags. -/
def HandshakePkt.parse (pkt : HandshakePkt) (io : Vio) (len : ℕ) : Except Fault HandshakePkt := do
  let (protover, io) ← io.readUint8
  let (mysqlver, io) ← readStr io
  let (threadid, io) ← io.readUint32
  let (salt1, io) ← readBinary io 9
  let pkt := { pkt with
    protover := protover
    mysqlver := .text mysqlver
    threadid := threadid
    salt := store pkt.salt 0 (salt1.take 8)
    saltlen := 8 }
  if len ≤ unsigned 64 (vioBufferTell io) then .ok pkt
  else do
    let (capacity, io) ← io.readUint16
    let pkt := { pkt with capacity := capacity }
    if len < unsigned 64 (vioBufferTell io + 16) then .ok pkt
    else do
      let (charset, io) ← io.readUint8
      let (status, io) ← io.readUint16
      let (ucapacity, io) ← io.readUint16
      -- both branches of the test on the salt's length go on with 13 bytes
      let (_saltlen, io) ← io.readUint8
      let (_filler, io) ← readBinary io 10
      let (salt2, io) ← readBinary io 13
      let pkt := { pkt with
        charset := charset
        status := status
        capacity := pkt.capacity ||| toUInt32 (ucapacity <<< 16 : ℕ)
        salt := store pkt.salt pkt.saltlen salt2
        saltlen := pkt.saltlen + 12 }
      if unsigned 64 (vioBufferTell io) < len then do
        let (pluginname, _io) ← readStr io
        .ok { pkt with pluginname := .text pluginname }
      else .ok { pkt with pluginname := .null }

/-- How many bytes have come is not looked at. -/
def readHandshakePkt (block : Mem) (pkt : HandshakePkt) (len : ℕ) (c : Conn) :
    Except Fault (Status × HandshakePkt × Conn) :=
  let (nread, bytes, c) := anetRead c (toInt32 len)
  if nread = -1 then .ok (.protoErr, pkt, c)
  else do
    let pkt ← pkt.parse (vioInitWithBuffer (store block 0 bytes) len) len
    .ok (.protoOk, pkt, c)

def tryFreeHandshake (pkt : HandshakePkt) : Except Fault Unit := do
  free pkt.mysqlver
  free pkt.pluginname

/-! ## Replies -/

structure OkPkt where
  marker : UInt8
  affected : ℕ
  insertid : ℕ
  status : ℕ
  warnings : ℕ
  message : Pointer
  deriving DecidableEq, Repr

structure ErrorPkt where
  marker : UInt8
  errno : ℕ
  smarker : ℕ
  state : List UInt8
  message : Pointer
  deriving DecidableEq, Repr

structure EofPkt where
  marker : UInt8
  warnings : ℕ
  status : ℕ
  deriving DecidableEq, Repr

structure ReplyPkt where
  isok : Bool
  iseof : Bool
  ok : OkPkt
  err : ErrorPkt
  eof : EofPkt
  deriving DecidableEq, Repr

def readEncodeLength (io : Vio) : Except Fault (ℕ × Vio) := do
  let (first, io) ← io.readUint8
  if first < 251 then .ok (first, io)
  else if first = 251 then .ok (0, io)
  else if first = 252 then io.readUint16
  else if first = 253 then io.readUint24
  else if first = 254 then io.readUint64
  else .ok (0, io)

def OkPkt.parse (pkt : OkPkt) (io : Vio) (plen : ℕ) : Except Fault OkPkt := do
  let (affected, io) ← readEncodeLength io
  let (insertid, io) ← readEncodeLength io
  let pkt := { pkt with affected := affected, insertid := insertid }
  if unsigned 64 (vioBufferTell io) = plen then .ok { pkt with message := .null }
  else do
    let (status, io) ← io.readUint16
    let (warnings, io) ← io.readUint16
    let pkt := { pkt with status := status, warnings := warnings }
    let slen := unsigned 64 (plen - vioBufferTell io)
    if slen = 0 then .ok { pkt with message := .null }
    else do
      let (msg, _io) ← readBinary io slen
      .ok { pkt with message := .text msg }

/-- How `readOkPkt` and `readErrorPkt` begin, `none` where they give up. The count is compared
without its sign, so a failed read is no count that is too small. -/
def readBody (block : Mem) (plen : ℕ) (c : Conn) : Option Vio × Conn :=
  match malloc block plen with
  | none => (none, c)
  | some buf =>
    let (nread, bytes, c) := anetRead c (toInt32 plen)
    if unsigned 64 nread < plen then (none, c)
    else (some (vioInitWithBuffer (store buf 0 bytes) plen), c)

def readOkPkt (block : Mem) (pkt : OkPkt) (plen : ℕ) (c : Conn) :
    Except Fault (Status × OkPkt × Conn) :=
  match readBody block plen c with
  | (none, c) => .ok (.protoErr, pkt, c)
  | (some io, c) => do
    let pkt ← pkt.parse io plen
    .ok (.protoOk, pkt, c)

def ErrorPkt.parse (pkt : ErrorPkt) (io : Vio) (plen : ℕ) : Except Fault ErrorPkt := do
  let (errno, io) ← io.readUint16
  let (smarker, io) ← io.readUint8
  let (state, io) ← (if smarker = 35 then readBinary io 5 else .ok (pkt.state, io))
  let pkt := { pkt with errno := errno, smarker := smarker, state := state }
  let left := toInt32 (plen - vioBufferTell io)
  if left = 0 then .ok { pkt with message := .null }
  else do
    let (message, _io) ← readBinary io (unsigned 64 left)
    .ok { pkt with message := .text message }

def readErrorPkt (block : Mem) (pkt : ErrorPkt) (plen : ℕ) (c : Conn) :
    Except Fault (Status × ErrorPkt × Conn) :=
  match readBody block plen c with
  | (none, c) => .ok (.protoErr, pkt, c)
  | (some io, c) => do
    let pkt ← pkt.parse io plen
    .ok (.protoOk, pkt, c)

def EofPkt.parse (pkt : EofPkt) (io : Vio) : Except Fault EofPkt := do
  let (warnings, io) ← io.readUint16
  let (status, _io) ← io.readUint16
  .ok { pkt with warnings := warnings, status := status }

/-- The bytes go to an array of four. -/
def readEofPkt (eofbuf : Mem) (pkt : EofPkt) (plen : ℕ) (c : Conn) :
    Except Fault (Status × EofPkt × Conn) :=
  if plen = 0 then .ok (.protoOk, pkt, c)
  else
    let (nread, bytes, c) := anetRead c (toInt32 plen)
    if 4 < bytes.length then .error .memory
    else if unsigned 64 nread < plen then .ok (.protoErr, pkt, c)
    else do
      let pkt ← pkt.parse (vioInitWithBuffer (store eofbuf 0 bytes) plen)
      .ok (.protoOk, pkt, c)

/-- `readReplyPkt` behind the marker. -/
def readMarkedPkt (marker : UInt8) (block : Mem) (pkt : ReplyPkt) (left : ℕ) (c : Conn) :
    Except Fault (Status × ReplyPkt × Conn) :=
  let pkt := { pkt with isok := false, iseof := false }
  if marker = 0 then do
    let (status, ok, c) ← readOkPkt block { pkt.ok with marker := marker } left c
    .ok (status, { pkt with isok := true, ok := ok }, c)
  else if marker = 255 then do
    let (status, err, c) ← readErrorPkt block { pkt.err with marker := marker } left c
    .ok (status, { pkt with err := err }, c)
  else if marker = 254 ∧ left < 8 then do
    let (status, eof, c) ← readEofPkt block { pkt.eof with marker := marker } left c
    .ok (status, { pkt with iseof := true, eof := eof }, c)
  else .ok (.protoErr, pkt, c)

/-- A marker that does not come, because the stream has ended, is what the variable holds. -/
def readReplyPkt (marker : UInt8) (block : Mem) (pkt : ReplyPkt) (plen : ℕ) (c : Conn) :
    Except Fault (Status × ReplyPkt × Conn) :=
  let (nread, bytes, c) := anetRead c 1
  if nread = -1 then .ok (.protoErr, pkt, c)
  else readMarkedPkt (bytes.headD marker) block pkt (unsigned 64 (plen - 1)) c

def tryFreeReply (pkt : ReplyPkt) : Except Fault Unit :=
  if pkt.iseof then .ok ()
  else if pkt.isok then free pkt.ok.message
  else free pkt.err.message

end LibBinlog
