import LibBinlog.Greeting

/-!
# What the client says of a reply

`mconnect` should return 1 only if the last reply of the authentication has come whole and says OK,
`msendcmd` only for a whole OK or EOF packet, and both 0 for all other streams. But the readers say
OK before they have read, what they return is not looked at, and what they do not set is used as it
is. For whatever the unset variables hold, the functions keep to this exactly on the streams below.
-/

namespace LibBinlog

open Machine Memory Arrivals

/-- A string without its terminator, short enough for the memory of a process. -/
structure CString where
  bytes : List UInt8
  zero_notMem : 0 ∉ bytes
  fits : bytes.length < 2 ^ 56

/-- Arguments of a command, whose length is an `int` and can be increased by one. -/
structure CmdArgs where
  bytes : List UInt8
  fits : bytes.length + 1 < 2 ^ 31

/-- The connection with this stream still to come. -/
def Stream.on (s : Stream) (c : Conn) : Conn :=
  { c with incoming := s.bytes.map some, broken := s.broken }

theorem Stream.carries_on (s : Stream) (c : Conn) : (s.on c).Carries s := ⟨rfl, rfl⟩

/-! ## What is claimed -/

/-- The function returns 1 only if the reply has come, and 0 if it has not. -/
def Tells (come : Prop) (result : Except Fault (Bool × MySQL)) : Prop :=
  (∀ mysql, result = .ok (true, mysql) → come) ∧
    (¬come → ∃ mysql, result = .ok (false, mysql))

theorem tells_iff {come : Prop} {result : Except Fault (Bool × MySQL)} :
    Tells come result ↔ come ∨ ∃ mysql, result = .ok (false, mysql) := by
  constructor
  · rintro ⟨-, hfalse⟩
    exact or_iff_not_imp_left.mpr hfalse
  · rintro (hcome | ⟨mysql, hfalse⟩)
    · exact ⟨fun _ _ => hcome, fun hnot => absurd hcome hnot⟩
    · refine ⟨fun mysql' htrue => ?_, fun _ => ⟨mysql, hfalse⟩⟩
      rw [hfalse] at htrue
      cases htrue

/-- The last reply is the first one or, if that is an EOF packet, the next. -/
def Stream.LastReplyOk (s : Stream) : Prop := s.OkReply ∨ (s.EofReply ∧ s.behind.OkReply)

/-- The authentication packet has been sent, and what then comes ends in an OK packet. -/
def RepliedOk (scramble : Scramble) (u : Unset) (mysql : MySQL) (c : Conn)
    (user passwd db : Option (List UInt8)) : Prop :=
  ∃ header handshake c' mysql' s, sendAuth scramble u mysql c user passwd db =
    .ok (some (header, handshake, c'), mysql') ∧ c'.Carries s ∧ s.LastReplyOk

/-! ## When it holds -/

/-- Nothing is behind a packet that is cut. -/
theorem Stream.complete_of_behind {s : Stream} (h : 4 ≤ s.behind.bytes.length) : s.Complete := by
  rw [Stream.behind, Stream.skip, List.length_drop] at h
  rw [Stream.Complete]
  omega

/-- An error packet with a message. -/
def Stream.CleanError (s : Stream) : Prop :=
  s.ErrorReply ∧ Stream.latestMessage s.payload < s.declared

/-- An EOF packet must be empty or have its four bytes to be read on from. -/
def Stream.AuthAnswered (s : Stream) : Prop :=
  s.LastReplyOk ∨ s.CleanError ∨
    (s.EofReply ∧ (s.declared = 1 ∨ s.declared = 5) ∧ s.behind.CleanError)

/-- Another protocol version, or flags without the protocol of version 4.1. -/
def Refuses (m : Mem) (n : ℕ) : Prop :=
  m 0 ≠ 10 ∨ (versionEnd m n + 13 < n ∧ flagSet m n = false)

def Greets (m : Mem) (n : ℕ) : Prop := m 0 = 10 ∧ flagSet m n = true ∧ FullGreeting m n

/-- For all that may stand in the block behind the bytes that arrive, the greeting is one to refuse,
or a whole one to accept with a proper answer behind it. -/
def GreetedCleanly (s : Stream) (user : Option CString) : Prop :=
  4 ≤ s.bytes.length ∧ (s.Complete ∨ s.broken = false) ∧ ∀ m, Holds m 0 s.payload →
    GreetingShape m s.declared ∧ (Refuses m s.declared ∨
      (Greets m s.declared ∧ user.isSome = true ∧ s.behind.AuthAnswered))

/-- A command that cannot be written is refused before any reply. -/
def CommandAnswered (s : Stream) (c : Conn) (args : CmdArgs) : Prop :=
  c.room < 4 + (args.bytes.length + 1) ∨ s.OkReply ∨ s.EofReply ∨
    (s.ErrorReply ∧ Stream.latestMessage s.payload ≤ s.declared)

/-! ## Replies to the authentication -/

section

variable {scramble : Scramble} {u : Unset} {mysql mysql' : MySQL} {header : PktHeader}
  {handshake : HandshakePkt} {user passwd db : Option (List UInt8)} {c : Conn} {s : Stream}
  {m : Mem} {n : ℕ}

/-- Variables that pass for an accepted greeting and for no reply. -/
def leftover (m : Mem) : Unset where
  header := ⟨1, 0⟩
  handshake := ⟨10, .null, 0, 8, fun _ => 0, 512, 0, 0, .wild⟩
  reply := ⟨false, false, ⟨0, 0, 0, 0, 0, .null⟩, ⟨0, 0, 0, [], .wild⟩, ⟨0, 0, 0⟩⟩
  marker _ := 0
  block i := if i = 0 then m else fun _ => 35

theorem strncpyErr_text {p : Pointer} {text : List UInt8} (h : strncpyErr p = .ok text) :
    p ≠ .wild ∧ p ≠ .null := by
  constructor
  · rintro rfl
    cases h
  · rintro rfl
    cases h

theorem finishAuth_answered {m : Mem} (hc : c.Carries s)
    (h : finishAuth scramble (leftover m) mysql header handshake passwd c = .ok (false, mysql')) :
    s.CleanError ∨ (s.EofReply ∧ (s.declared = 1 ∨ s.declared = 5) ∧ s.behind.CleanError) := by
  unfold finishAuth at h
  obtain ⟨⟨header₁, reply₁, c₁⟩, hfirst, h⟩ := bind_ok_iff.mp h
  obtain ⟨⟨header₂, reply₂, c₂⟩, hsecond, h⟩ := bind_ok_iff.mp h
  dsimp only at hsecond h
  split_ifs at h with hok
  · obtain ⟨_, -, h⟩ := bind_ok_iff.mp h
    cases h
  obtain ⟨text, htext, -⟩ := bind_ok_iff.mp h
  obtain ⟨hset, hnull⟩ := strncpyErr_text htext
  split_ifs at hsecond with heof
  · obtain ⟨hcarries, herr, hsize⟩ := readReply_eof hc rfl hfirst heof
    have hwild : reply₁.err.message = .wild := congrArg ErrorPkt.message herr
    obtain ⟨herror, -, hlt⟩ := readReply_refusal
      ((hcarries.writeHeader _ _).anetWrite _ _) rfl hwild hsecond hset
    obtain ⟨heofreply, hdeclared⟩ := hsize (Stream.complete_of_behind herror.1)
    exact .inr ⟨heofreply, hdeclared, herror, hlt hnull⟩
  · cases hsecond
    obtain ⟨herror, -, hlt⟩ := readReply_refusal hc rfl rfl hfirst hset
    exact .inl ⟨herror, hlt hnull⟩

theorem readReply_of_cleanError (header : PktHeader) (marker : UInt8) (block : Mem)
    (reply : ReplyPkt) (hc : c.Carries s) (h : s.CleanError) :
    ∃ header' reply' c' text, readReply header marker block reply c = .ok (header', reply', c') ∧
      reply'.isok = false ∧ reply'.iseof = false ∧ strncpyErr reply'.err.message = .ok text ∧
      tryFreeReply reply' = .ok () := by
  obtain ⟨header', reply', c', hread, hok, heof, -, hmessage⟩ :=
    readReply_of_error header marker block reply hc h.1 h.2.le
  obtain ⟨bs, htext⟩ := hmessage h.2
  have hcopy : strncpyErr reply'.err.message = .ok ((cstring bs).take errorSize) := by
    rw [htext]
    rfl
  have hfree : tryFreeReply reply' = .ok () := by
    rw [tryFreeReply, if_neg (by simp [heof]), if_neg (by simp [hok]), htext]
    rfl
  exact ⟨header', reply', c', _, hread, hok, heof, hcopy, hfree⟩

theorem finishAuth_of_error (hc : c.Carries s) (h : s.CleanError) :
    ∃ mysql', finishAuth scramble u mysql header handshake passwd c = .ok (false, mysql') := by
  obtain ⟨header₁, reply₁, c₁, text, hread, hok, heof, hcopy, hfree⟩ :=
    readReply_of_cleanError header (u.marker 0) (u.block 1) u.reply hc h
  unfold finishAuth
  rw [ok_bind hread]
  dsimp only
  rw [if_neg (by simp [heof]), ok_bind rfl]
  dsimp only
  rw [if_neg (by simp [hok]), ok_bind hcopy, ok_bind hfree]
  exact ⟨_, rfl⟩

theorem finishAuth_of_eof (hc : c.Carries s) (h : s.EofReply)
    (hsize : s.declared = 1 ∨ s.declared = 5) (herror : s.behind.CleanError) :
    ∃ mysql', finishAuth scramble u mysql header handshake passwd c = .ok (false, mysql') := by
  obtain ⟨header₁, reply₁, c₁, hread₁, heof₁, hcarries⟩ :=
    readReply_of_eof header (u.marker 0) (u.block 1) u.reply hc h hsize
  obtain ⟨header₂, reply₂, c₂, text, hread₂, hok, -, hcopy, hfree⟩ :=
    readReply_of_cleanError header₁ (u.marker 1) (u.block 2) reply₁
      ((hcarries.writeHeader 9 ((header₁.pnum + 1) % 256)).anetWrite
        (ofBytes (saltold scramble handshake passwd)) 9) herror
  unfold finishAuth
  rw [ok_bind hread₁]
  dsimp only
  rw [if_pos heof₁, ok_bind hread₂]
  dsimp only
  rw [if_neg (by simp [hok]), ok_bind hcopy, ok_bind hfree]
  exact ⟨_, rfl⟩

/-! ## The greeting -/

theorem not_accepts_of_refuses {pkt pkt' : HandshakePkt} (h : Parsed m n pkt pkt')
    (hrefuses : Refuses m n) : ¬Acceptable pkt' := by
  rintro ⟨hflag, hprotover⟩
  rcases hrefuses with hversion | ⟨hlen, hclear⟩
  · rw [h.protover_eq] at hprotover
    exact hversion (UInt8.toNat_inj.mp hprotover)
  · have hbit := h.capacity_flag hlen
    rw [hclear] at hbit
    exact hflag ((and_protocol41 _).mpr hbit)

theorem accepts_of_greets {pkt pkt' : HandshakePkt} (h : Parsed m n pkt pkt')
    (hgreets : Greets m n) : Acceptable pkt' := by
  obtain ⟨hversion, hset, hfull⟩ := hgreets
  have hlen := hfull.le
  refine ⟨?_, ?_⟩
  · rw [Ne, and_protocol41, h.capacity_flag (by omega), hset]
    exact Bool.noConfusion
  · rw [h.protover_eq, hversion]
    rfl

/-- A greeting that is parsed over the variables of `leftover` is refused, or accepted whole. -/
theorem refuses_or_greets {block : Mem} {pkt' : HandshakePkt} (hshape : GreetingShape m n)
    (h : Parsed m n (leftover block).handshake pkt')
    (hset : Acceptable pkt' → pkt'.pluginname ≠ .wild) :
    (Refuses m n ∧ ¬Acceptable pkt') ∨ (Greets m n ∧ Acceptable pkt') := by
  by_cases haccepts : Acceptable pkt'
  · have hflag := haccepts.1
    have hprotover := haccepts.2
    have hlen : versionEnd m n + 44 ≤ n := by
      by_contra hlt
      exact hset haccepts (h.pluginname_eq (Nat.lt_of_not_le hlt))
    have hversion : m 0 = 10 := by
      rw [h.protover_eq] at hprotover
      exact UInt8.toNat_inj.mp hprotover
    have hbit := h.capacity_flag (by omega)
    rw [Ne, and_protocol41, hbit, Bool.not_eq_false] at hflag
    exact .inr ⟨⟨hversion, hflag, hshape.full hlen⟩, haccepts⟩
  · refine .inl ⟨?_, haccepts⟩
    by_contra hnot
    obtain ⟨hversion, hflags⟩ := not_or.mp hnot
    refine haccepts ⟨?_, ?_⟩
    · by_cases hfirst : n = versionEnd m n + 13
      · rw [h.capacity_eq hfirst]
        exact (by decide : (512 : ℕ) &&& Capability.protocol41 ≠ 0)
      · have hlen : versionEnd m n + 13 < n := by
          have hlengths := hshape.2
          unfold FullGreeting at hlengths
          omega
        rw [Ne, and_protocol41, h.capacity_flag hlen]
        exact fun hclear => hflags ⟨hlen, hclear⟩
    · rw [h.protover_eq, not_not.mp hversion]
      rfl

/-! ## Up to the authentication packet -/

theorem headerAfter_cut (header : PktHeader) (hc : c.Carries s) (hlt : s.bytes.length < 4) :
    headerAfter header c = if s.broken then header else headerOf s.bytes := by
  rw [headerAfter, hc.reception_eq, decide_eq_true hlt, Bool.true_and,
    List.take_of_length_le hlt.le]

/-- The bytes of the greeting that arrive, or all of them. -/
theorem readGreeting (header : PktHeader) (block : Mem) (pkt : HandshakePkt) (hc : c.Carries s)
    (hfour : 4 ≤ s.bytes.length) (h : s.Complete ∨ s.broken = false) :
    readHandshakePkt block pkt (unsigned 64 (headerAfter header c).plen.toInt) (c.after 4) =
      pkt.parse (.view (store block 0 s.payload) s.declared 0) s.declared >>= fun pkt' =>
        .ok (.protoOk, pkt', (c.after 4).after s.declared) := by
  have hlt := s.declared_lt
  rw [headerAfter_declared header hc hfour]
  apply readHandshakePkt_filled block pkt (hc.after 4) _ (by omega)
  rcases h with hcomplete | hended
  · left
    rw [Stream.skip, List.length_drop]
    unfold Stream.Complete at hcomplete
    omega
  · exact .inr hended

/-- A read that fails leaves a handshake that passes for an accepted one. -/
theorem sendAuth_leftover {block : Mem} {len : ℕ} {s₁ : Stream}
    {r : Option (PktHeader × HandshakePkt × Conn) × MySQL}
    (hr : sendAuth scramble (leftover block) mysql c user passwd db = .ok r)
    (hlen : unsigned 64 (headerAfter (leftover block).header c).plen.toInt = len)
    (hc₁ : (c.after 4).Carries s₁) (hlt : s₁.bytes.length < len) (hb : s₁.broken = true)
    (hn : len < 2 ^ 31) : False := by
  have hread := readHandshakePkt_failed ((leftover block).block 0) (leftover block).handshake hc₁
    hlt hb hn
  rw [← hlen] at hread
  have haccepts : Acceptable (leftover block).handshake :=
    ⟨(by decide : (512 : ℕ) &&& Capability.protocol41 ≠ 0), rfl⟩
  exact (of_sendAuth_accepted hread haccepts hr).2 rfl

/-- A block in which no text ends is no greeting. -/
theorem not_shape_const : ¬GreetingShape (fun _ => 35) n := by
  have hnone : ∀ (p : ℤ) (k : ℕ), 0 ∉ slice (fun _ => 35) p k := by
    intro p k
    induction k generalizing p with
    | zero => exact List.not_mem_nil
    | succ k ih =>
      rw [slice_succ, List.mem_cons, not_or]
      exact ⟨by decide, ih (p + 1)⟩
  exact fun h => hnone _ _ h.1

theorem error_of_readHandshake {r : Option (PktHeader × HandshakePkt × Conn) × MySQL}
    {fault : Fault}
    (hread : readHandshakePkt (u.block 0) u.handshake
      (unsigned 64 (headerAfter u.header c).plen.toInt) (c.after 4) = .error fault) :
    sendAuth scramble u mysql c user passwd db ≠ .ok r := by
  obtain ⟨_, hheader⟩ := readPktHeader_after u.header c
  unfold sendAuth
  rw [ok_bind hheader]
  dsimp only
  rw [error_bind hread]
  exact nofun

theorem four_le_of_sendAuth {r : Option (PktHeader × HandshakePkt × Conn) × MySQL}
    (hc : c.Carries s)
    (hr : sendAuth scramble (leftover fun _ => 35) mysql c user passwd db = .ok r) :
    4 ≤ s.bytes.length := by
  by_contra hshort
  have hlt : s.bytes.length < 4 := Nat.lt_of_not_le hshort
  have hheader := headerAfter_cut (leftover fun _ => 35).header hc hlt
  have hnone : (s.skip 4).bytes = [] := List.drop_of_length_le hlt.le
  cases hb : s.broken with
  | true =>
    have hlen : unsigned 64 (headerAfter (leftover fun _ => 35).header c).plen.toInt = 1 := by
      rw [hheader, hb]
      rfl
    exact sendAuth_leftover hr hlen (hc.after 4) (by rw [hnone]; exact Nat.zero_lt_one) hb
      (by norm_num)
  | false =>
    rw [hb, if_neg Bool.false_ne_true] at hheader
    obtain ⟨hplen, hsmall⟩ := headerOf_plen_lt s.bytes
    rw [← hheader] at hplen
    generalize leNat (slice (ofBytes s.bytes) (0 : ℕ) 3) = len at hplen hsmall
    have hempty : Holds (fun _ => 35) 0 ((s.skip 4).bytes.take len) := by
      rw [hnone, List.take_nil]
      exact holds_nil _ _
    have hblock : store ((leftover fun _ => 35).block 0) 0 ((s.skip 4).bytes.take len) =
        fun _ => 35 := hempty.store_eq
    obtain ⟨fault, hparse⟩ := HandshakePkt.parse_of_not_shape
      (leftover fun _ => 35).handshake (not_shape_const (n := len)) (by omega)
    have hread := readHandshakePkt_filled ((leftover fun _ => 35).block 0)
      (leftover fun _ => 35).handshake (hc.after 4) (.inr hb) (n := len) (by omega)
    rw [hblock, error_bind hparse, ← hplen] at hread
    exact error_of_readHandshake hread hr

/-! ## The whole connection -/

theorem Conn.Carries.unique {s' : Stream} (h : c.Carries s) (h' : c.Carries s') : s = s' := by
  have hbytes : s.bytes = s'.bytes :=
    List.map_injective_iff.mpr (Option.some_injective UInt8)
      (h.incoming_eq.symm.trans h'.incoming_eq)
  have hbroken : s.broken = s'.broken := h.broken_eq.symm.trans h'.broken_eq
  cases s
  cases s'
  cases hbytes
  cases hbroken
  rfl

theorem mconnect_greeted {c' : Conn}
    (h : sendAuth scramble u mysql c user passwd db = .ok (some (header, handshake, c'), mysql')) :
    mconnect scramble u mysql (.ok c) user passwd db =
      finishAuth scramble u mysql' header handshake passwd c' := by
  rw [mconnect, ok_bind h]

theorem mconnect_refused
    (h : sendAuth scramble u mysql c user passwd db = .ok (none, mysql')) :
    mconnect scramble u mysql (.ok c) user passwd db = .ok (false, mysql') := by
  rw [mconnect, ok_bind h]

theorem exists_sendAuth (h : Tells (RepliedOk scramble u mysql c user passwd db)
    (mconnect scramble u mysql (.ok c) user passwd db)) :
    ∃ r, sendAuth scramble u mysql c user passwd db = .ok r := by
  rcases tells_iff.mp h with ⟨_, _, _, _, _, hsend, -, -⟩ | ⟨_, hfalse⟩
  · exact ⟨_, hsend⟩
  · rw [mconnect] at hfalse
    obtain ⟨r, hsend, -⟩ := bind_ok_iff.mp hfalse
    exact ⟨r, hsend⟩

/-- What `readGreeting` leaves to read. -/
theorem carries_behind (hc : c.Carries s) : ((c.after 4).after s.declared).Carries s.behind := by
  have hcarries := (hc.after 4).after s.declared
  rwa [Stream.skip_skip] at hcarries

variable {name : Option CString}

theorem tells_of_greetedCleanly (hc : c.Carries s) (h : GreetedCleanly s name)
    (hname : user = name.map CString.bytes) (hdb : ∀ bs ∈ db, bs.length < 2 ^ 56) :
    Tells (RepliedOk scramble u mysql c user passwd db)
      (mconnect scramble u mysql (.ok c) user passwd db) := by
  obtain ⟨hfour, hwhole, hgreeting⟩ := h
  have hlt := s.declared_lt
  obtain ⟨hshape, hcase⟩ := hgreeting _ (holds_store (u.block 0) 0 s.payload)
  obtain ⟨pkt', hparse, hparsed⟩ := u.handshake.parse_of_shape hshape (by omega)
  have hread := readGreeting u.header (u.block 0) u.handshake hc hfour hwhole
  rw [ok_bind hparse] at hread
  apply tells_iff.mpr
  rcases hcase with hrefuses | ⟨hgreets, hsome, hanswered⟩
  · obtain ⟨mysql', hsend⟩ := sendAuth_refused hread (not_accepts_of_refuses hparsed hrefuses)
    exact .inr ⟨mysql', mconnect_refused hsend⟩
  obtain ⟨text, rfl⟩ := Option.isSome_iff_exists.mp hsome
  have hplugin : pkt'.pluginname ≠ .wild := hparsed.pluginname_ne hgreets.2.2.le
  obtain ⟨header', mysql', c', hsend, hcarries⟩ := sendAuth_accepted hread
    (accepts_of_greets hparsed hgreets) hparsed.saltlen_le hparsed.mysqlver_ne hplugin
    (carries_behind hc) hname text.fits hdb
  rcases hanswered with hok | herror | ⟨heof, hsize, herror⟩
  · exact .inl ⟨_, _, _, _, _, hsend, hcarries, hok⟩
  · rw [mconnect_greeted hsend]
    exact .inr (finishAuth_of_error hcarries herror)
  · rw [mconnect_greeted hsend]
    exact .inr (finishAuth_of_eof hcarries heof hsize herror)

theorem greetedCleanly_of_tells (hc : c.Carries s) (hname : user = name.map CString.bytes)
    (hdb : ∀ bs ∈ db, bs.length < 2 ^ 56)
    (h : ∀ u, Tells (RepliedOk scramble u mysql c user passwd db)
      (mconnect scramble u mysql (.ok c) user passwd db)) : GreetedCleanly s name := by
  have hlt := s.declared_lt
  obtain ⟨r, hr⟩ := exists_sendAuth (h (leftover fun _ => 35))
  have hfour := four_le_of_sendAuth hc hr
  have hwhole : s.Complete ∨ s.broken = false := by
    by_contra hnot
    obtain ⟨hcut, hnotended⟩ := not_or.mp hnot
    have hbroken : s.broken = true := Bool.not_eq_false _ ▸ hnotended
    refine sendAuth_leftover hr (headerAfter_declared _ hc hfour) (hc.after 4) ?_ hbroken
      (by omega)
    rw [Stream.skip, List.length_drop]
    unfold Stream.Complete at hcut
    omega
  refine ⟨hfour, hwhole, fun m hm => ?_⟩
  obtain ⟨r, hr⟩ := exists_sendAuth (h (leftover m))
  have hread := readGreeting (leftover m).header ((leftover m).block 0) (leftover m).handshake
    hc hfour hwhole
  have hblock : store ((leftover m).block 0) 0 s.payload = m := hm.store_eq
  rw [hblock] at hread
  by_cases hshape : GreetingShape m s.declared
  swap
  · obtain ⟨fault, hparse⟩ :=
      (leftover m).handshake.parse_of_not_shape hshape (by omega)
    rw [error_bind hparse] at hread
    exact absurd hr (error_of_readHandshake hread)
  obtain ⟨pkt', hparse, hparsed⟩ := (leftover m).handshake.parse_of_shape hshape (by omega)
  rw [ok_bind hparse] at hread
  refine ⟨hshape, ?_⟩
  obtain ⟨hrefuses, -⟩ | ⟨hgreets, haccepts⟩ := refuses_or_greets hshape hparsed
    fun haccepts => (of_sendAuth_accepted hread haccepts hr).2
  · exact .inl hrefuses
  obtain ⟨hsome, hplugin⟩ := of_sendAuth_accepted hread haccepts hr
  rw [hname, Option.isSome_map] at hsome
  refine .inr ⟨hgreets, hsome, ?_⟩
  obtain ⟨text, rfl⟩ := Option.isSome_iff_exists.mp hsome
  obtain ⟨header', mysql', c', hsend, hcarries⟩ := sendAuth_accepted hread haccepts
    hparsed.saltlen_le hparsed.mysqlver_ne hplugin (carries_behind hc) hname text.fits hdb
  rcases tells_iff.mp (h (leftover m)) with ⟨_, _, c₁, _, t, hsend', ht, hok⟩ | ⟨mysql₁, hfalse⟩
  · rw [hsend] at hsend'
    cases hsend'
    exact .inl (hcarries.unique ht ▸ hok)
  · rw [mconnect_greeted hsend] at hfalse
    exact .inr (finishAuth_answered hcarries hfalse)

/-! ## Replies to a command -/

variable {cmd : UInt8} {args : List UInt8}

theorem Conn.Carries.sent (hc : c.Carries s) (bs : List UInt8) : (c.sent bs).Carries s :=
  ⟨hc.incoming_eq, hc.broken_eq⟩

theorem msendcmd_unsent (hfd : mysql.fd = some c) (h : c.room < 4 + (args.length + 1))
    (hlt : args.length + 1 < 2 ^ 31) :
    ∃ mysql', msendcmd u mysql cmd args = .ok (false, mysql') := by
  unfold msendcmd
  rw [hfd]
  dsimp only
  by_cases hheader : c.room < 4
  · obtain ⟨c', hwrite⟩ := writeHeader_short (args.length + 1) mysql.pnum hheader
    rw [hwrite]
    exact ⟨_, rfl⟩
  · have hroom : (c.sent (headerBytes (args.length + 1) mysql.pnum)).room < args.length + 1 := by
      rw [Conn.sent, length_headerBytes]
      dsimp only
      omega
    obtain ⟨c', hwrite⟩ := writeCmdPkt_short cmd hroom hlt
    rw [writeHeader_whole _ _ (Nat.le_of_not_lt hheader)]
    dsimp only
    rw [ok_bind hwrite]
    exact ⟨_, rfl⟩

/-- What a command sends. -/
def commandBytes (pnum : ℕ) (cmd : UInt8) (args : List UInt8) : List UInt8 :=
  headerBytes (args.length + 1) pnum ++ cmd :: args

theorem msendcmd_sent (cmd : UInt8) (args : List UInt8) (hfd : mysql.fd = some c)
    (h : 4 + (args.length + 1) ≤ c.room) (hlt : args.length + 1 < 2 ^ 31) :
    msendcmd u mysql cmd args =
      (readReply u.header (u.marker 0) (u.block 0) u.reply
        (c.sent (commandBytes mysql.pnum cmd args)) >>= fun r =>
          if r.2.1.isok = false ∧ r.2.1.iseof = false then do
            let text ← r.2.1.err.message.printed
            tryFreeReply r.2.1
            .ok (false, { mysql with fd := some r.2.2, errstr := text.take 127 })
          else do
            tryFreeReply r.2.1
            .ok (true, { mysql with fd := some r.2.2 })) := by
  have hheader : 4 ≤ c.room := by omega
  have hroom : args.length + 1 ≤ (c.sent (headerBytes (args.length + 1) mysql.pnum)).room := by
    rw [Conn.sent, length_headerBytes]
    dsimp only
    omega
  unfold msendcmd
  rw [hfd]
  dsimp only
  rw [writeHeader_whole _ _ hheader]
  dsimp only
  rw [ok_bind (writeCmdPkt_whole cmd hroom hlt), Conn.sent_sent, commandBytes]
  rfl

theorem printed_of_set {p : Pointer} (h : p ≠ .wild) : ∃ text, p.printed = .ok text := by
  cases p with
  | null => exact ⟨_, rfl⟩
  | text bs => exact ⟨_, rfl⟩
  | wild => exact absurd rfl h

theorem set_of_printed {p : Pointer} {text : List UInt8} (h : p.printed = .ok text) :
    p ≠ .wild := by
  rintro rfl
  cases h

theorem msendcmd_tells (hfd : mysql.fd = some c) (hc : c.Carries s)
    (hlt : args.length + 1 < 2 ^ 31) (h : c.room < 4 + (args.length + 1) ∨ s.OkReply ∨ s.EofReply ∨
      (s.ErrorReply ∧ Stream.latestMessage s.payload ≤ s.declared)) :
    Tells (s.OkReply ∨ s.EofReply) (msendcmd u mysql cmd args) := by
  apply tells_iff.mpr
  by_cases hroom : c.room < 4 + (args.length + 1)
  · exact .inr (msendcmd_unsent hfd hroom hlt)
  rcases h with hshort | hok | heof | ⟨herror, hle⟩
  · exact absurd hshort hroom
  · exact .inl (.inl hok)
  · exact .inl (.inr heof)
  obtain ⟨header', reply', c', hread, hok, heof, hset, -⟩ :=
    readReply_of_error u.header (u.marker 0)
    (u.block 0) u.reply (hc.sent (commandBytes mysql.pnum cmd args)) herror hle
  obtain ⟨text, htext⟩ := printed_of_set hset
  have hfree : tryFreeReply reply' = .ok () := by
    rw [tryFreeReply, if_neg (by simp [heof]), if_neg (by simp [hok]), free_of_set hset]
  right
  rw [msendcmd_sent cmd args hfd (Nat.le_of_not_lt hroom) hlt, ok_bind hread]
  dsimp only
  rw [if_pos ⟨hok, heof⟩, ok_bind htext, ok_bind hfree]
  exact ⟨_, rfl⟩

theorem answered_of_msendcmd (hfd : mysql.fd = some c) (hc : c.Carries s)
    (hlt : args.length + 1 < 2 ^ 31)
    (h : ∀ u, Tells (s.OkReply ∨ s.EofReply) (msendcmd u mysql cmd args)) :
    c.room < 4 + (args.length + 1) ∨ s.OkReply ∨ s.EofReply ∨
      (s.ErrorReply ∧ Stream.latestMessage s.payload ≤ s.declared) := by
  by_cases hroom : c.room < 4 + (args.length + 1)
  · exact .inl hroom
  right
  rcases tells_iff.mp (h (leftover fun _ => 35)) with (hok | heof) | ⟨mysql', hfalse⟩
  · exact .inl hok
  · exact .inr (.inl heof)
  rw [msendcmd_sent cmd args hfd (Nat.le_of_not_lt hroom) hlt] at hfalse
  obtain ⟨⟨header', reply', c'⟩, hread, hend⟩ := bind_ok_iff.mp hfalse
  dsimp only at hend
  split_ifs at hend with hreply
  · obtain ⟨text, htext, -⟩ := bind_ok_iff.mp hend
    obtain ⟨herror, hle, -⟩ := readReply_refusal (hc.sent _) rfl rfl hread (set_of_printed htext)
    exact .inr (.inr ⟨herror, hle⟩)
  · obtain ⟨_, -, hend⟩ := bind_ok_iff.mp hend
    cases hend

end

/-! ## What the client says -/

/-- `mconnect` and `msendcmd` say what has come exactly on the streams that greet, refuse and answer
cleanly, whatever the variables hold that they do not set. -/
theorem replies_told_iff (scramble : Scramble) (mysql : MySQL) (s : Stream) (c : Conn)
    (user passwd db : Option CString) (cmd : UInt8) (args : CmdArgs) :
    ((∀ u, Tells
        (RepliedOk scramble u mysql (s.on c) (user.map CString.bytes) (passwd.map CString.bytes)
          (db.map CString.bytes))
        (mconnect scramble u mysql (.ok (s.on c)) (user.map CString.bytes)
          (passwd.map CString.bytes) (db.map CString.bytes))) ↔ GreetedCleanly s user) ∧
      ((∀ u, Tells (s.OkReply ∨ s.EofReply)
        (msendcmd u { mysql with fd := some (s.on c) } cmd args.bytes)) ↔
          CommandAnswered s c args) := by
  have hdb : ∀ bs ∈ db.map CString.bytes, bs.length < 2 ^ 56 := by
    intro bs hbs
    obtain ⟨name, -, rfl⟩ := Option.mem_map.mp hbs
    exact name.fits
  refine ⟨⟨greetedCleanly_of_tells (s.carries_on c) rfl hdb, fun h u => ?_⟩, ⟨?_, fun h u => ?_⟩⟩
  · exact tells_of_greetedCleanly (s.carries_on c) h rfl hdb
  · exact answered_of_msendcmd (c := s.on c) rfl (s.carries_on c) args.fits
  · exact msendcmd_tells (c := s.on c) rfl (s.carries_on c) args.fits h

/-- A connection with room for whatever is written. -/
def openLine : Conn :=
  ⟨[], false, 4096, [], ascii "Success", success_ne_nil, length_success_lt⟩

/-- A greeting of 46 bytes: protocol 10, an empty version text, zeros, and the flag of 4.1. -/
def greetingOnly : Stream :=
  ⟨[46, 0, 0, 0, 10] ++ List.replicate 14 0 ++ [0, 2] ++ List.replicate 29 0, false⟩

/-- The header and the marker of an OK packet of seven bytes. -/
def cutOk : Stream := ⟨[7, 0, 0, 1, 0], false⟩

def plainScramble : Scramble := ⟨fun _ => .replicate 20 0, fun _ _ => .replicate 9 0⟩

def freshClient : MySQL := ⟨none, 0, 0, 0, 0, 0, 0, 0, []⟩

def returns (result : Except Fault (Bool × MySQL)) (b : Bool) : Bool :=
  match result with
  | .ok r => r.1 == b
  | .error _ => false

theorem exists_of_returns {result : Except Fault (Bool × MySQL)} {b : Bool}
    (h : returns result b = true) : ∃ mysql, result = .ok (b, mysql) := by
  rcases result with fault | ⟨b', mysql⟩
  · cases h
  · cases (beq_iff_eq.mp h : b' = b)
    exact ⟨mysql, rfl⟩

/-- Nothing is left behind the greeting. -/
def exhausted (result : Except Fault (Option (PktHeader × HandshakePkt × Conn) × MySQL)) : Bool :=
  match result with
  | .ok (some (_, _, c), _) => c.incoming.isEmpty
  | _ => true

theorem not_repliedOk_of_exhausted {scramble : Scramble} {u : Unset} {mysql : MySQL} {c : Conn}
    {user passwd db : Option (List UInt8)}
    (h : exhausted (sendAuth scramble u mysql c user passwd db) = true) :
    ¬RepliedOk scramble u mysql c user passwd db := by
  rintro ⟨_, _, c', _, s, hsend, hcarries, hok⟩
  rw [hsend] at h
  have hempty : s.bytes = [] := by
    have hnone := List.isEmpty_iff.mp h
    rw [hcarries.incoming_eq] at hnone
    exact List.map_eq_nil_iff.mp hnone
  have hcut : ¬s.Complete := by
    rw [Stream.Complete, hempty, List.length_nil]
    omega
  rcases hok with hok | ⟨heof, -⟩
  · exact hcut hok.1
  · exact hcut heof.1

/-- After a greeting and nothing else, and after a cut OK packet, the client reports success. -/
theorem replies_not_told : ∃ u,
    ¬Tells (RepliedOk plainScramble u freshClient (greetingOnly.on openLine) (some []) none none)
      (mconnect plainScramble u freshClient (.ok (greetingOnly.on openLine)) (some []) none none) ∧
    ¬Tells (cutOk.OkReply ∨ cutOk.EofReply)
      (msendcmd u { freshClient with fd := some (cutOk.on openLine) } cmdBinlogDump []) := by
  have hconnect : returns (mconnect plainScramble .zero freshClient
      (.ok (greetingOnly.on openLine)) (some []) none none) true = true := by decide +kernel
  have hcommand : returns (msendcmd .zero { freshClient with fd := some (cutOk.on openLine) }
      cmdBinlogDump []) true = true := by decide +kernel
  have hexhausted : exhausted (sendAuth plainScramble .zero freshClient (greetingOnly.on openLine)
      (some []) none none) = true := by decide +kernel
  obtain ⟨_, hconnected⟩ := exists_of_returns hconnect
  obtain ⟨_, hsent⟩ := exists_of_returns hcommand
  refine ⟨.zero, fun htells => ?_, fun htells => ?_⟩
  · exact not_repliedOk_of_exhausted hexhausted (htells.1 _ hconnected)
  · exact (by decide : ¬(cutOk.OkReply ∨ cutOk.EofReply)) (htells.1 _ hsent)

end LibBinlog
