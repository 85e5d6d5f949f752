import LibBinlog.PacketReads

/-!
# Replies on a byte stream

What a reply comes to when it is read from a connection that carries some bytes and then ends or
fails. Only an error packet sets the text that a refusal copies, and the packet must have arrived up
to where its message begins.
-/

namespace LibBinlog

open Machine Memory Arrivals

/-- The bytes that arrive before the connection ends or, if it is broken, fails. -/
structure Stream where
  bytes : List UInt8
  broken : Bool

namespace Stream

def skip (s : Stream) (n : ℕ) : Stream := { s with bytes := s.bytes.drop n }

/-- The length in the header of the first packet. -/
def declared (s : Stream) : ℕ := leNat (s.bytes.take 3)

/-- What arrives of the first packet behind its header. -/
def payload (s : Stream) : List UInt8 := (s.bytes.drop 4).take s.declared

def Complete (s : Stream) : Prop := 4 + s.declared ≤ s.bytes.length

def behind (s : Stream) : Stream := s.skip (4 + s.declared)

def OkReply (s : Stream) : Prop := s.Complete ∧ s.payload.head? = some 0

/-- The marker alone may also begin a length, so an EOF packet is told by its size. -/
def EofReply (s : Stream) : Prop :=
  s.Complete ∧ s.payload.head? = some 254 ∧ s.declared ≤ 8

/-- Where the message of an error packet begins: behind marker, number and, if there is one, the
state with its own marker. If that one does not arrive, it is taken to be there. -/
def latestMessage (payload : List UInt8) : ℕ :=
  match payload[3]? with
  | some b => if b = 35 then 9 else 4
  | none => 9

/-- An error packet whose bytes the reader goes on with: all of them, or those before a failure. -/
def ErrorReply (s : Stream) : Prop :=
  4 ≤ s.bytes.length ∧ s.payload.head? = some 255 ∧ (s.Complete ∨ s.broken = true)

instance (s : Stream) : Decidable s.Complete := inferInstanceAs (Decidable (_ ≤ _))

instance (s : Stream) : Decidable s.OkReply := inferInstanceAs (Decidable (_ ∧ _))

instance (s : Stream) : Decidable s.EofReply := inferInstanceAs (Decidable (_ ∧ _))

instance (s : Stream) : Decidable s.ErrorReply := inferInstanceAs (Decidable (_ ∧ _))

variable {s : Stream} {b : UInt8} {rest : List UInt8}

theorem skip_skip (s : Stream) (m n : ℕ) : (s.skip m).skip n = s.skip (m + n) := by
  rw [skip, skip, skip, List.drop_drop]

theorem declared_lt (s : Stream) : s.declared < 2 ^ 24 := by
  have hlt := leNat_lt (s.bytes.take 3)
  have hle : (256 : ℕ) ^ (s.bytes.take 3).length ≤ 256 ^ 3 :=
    Nat.pow_le_pow_right (by norm_num) (List.length_take_le _ _)
  rw [declared]
  omega

theorem payload_of_pos (hs : s.bytes.drop 4 = b :: rest) (hpos : 0 < s.declared) :
    s.payload = b :: rest.take (s.declared - 1) := by
  obtain ⟨n, hn⟩ := Nat.exists_eq_succ_of_ne_zero hpos.ne'
  rw [payload, hs, hn, List.take_succ_cons, Nat.succ_sub_one]

theorem payload_of_zero (hzero : s.declared = 0) : s.payload = [] := by
  rw [payload, hzero, List.take_zero]

/-- A packet that has a first byte has a header, and declares it. -/
theorem exists_of_head (h : s.payload.head? = some b) :
    ∃ rest, s.bytes.drop 4 = b :: rest ∧ 0 < s.declared := by
  have hpos : 0 < s.declared := by
    by_contra hzero
    rw [payload_of_zero (Nat.eq_zero_of_not_pos hzero)] at h
    cases h
  cases hs : s.bytes.drop 4 with
  | nil =>
    rw [payload, hs, List.take_nil] at h
    cases h
  | cons x rest =>
    rw [payload_of_pos hs hpos] at h
    cases h
    exact ⟨rest, rfl, hpos⟩

theorem length_of_drop (hs : s.bytes.drop 4 = b :: rest) :
    s.bytes.length = 5 + rest.length := by
  have hlength := congrArg List.length hs
  rw [List.length_drop, List.length_cons] at hlength
  omega

theorem complete_iff (hs : s.bytes.drop 4 = b :: rest) (hpos : 0 < s.declared) :
    s.Complete ↔ s.declared - 1 ≤ rest.length := by
  rw [Complete, length_of_drop hs]
  omega

end Stream

/-! ## Connections that carry a stream -/

/-- What is left on the connection is the stream. -/
structure Conn.Carries (c : Conn) (s : Stream) : Prop where
  incoming_eq : c.incoming = s.bytes.map some
  broken_eq : c.broken = s.broken

namespace Conn.Carries

variable {c : Conn} {s : Stream} {b : UInt8} {rest : List UInt8}

theorem reception_eq (hc : c.Carries s) (n : ℕ) : c.reception n =
    ⟨s.bytes.take n, decide (s.bytes.length < n) && s.broken, (s.bytes.drop n).map some⟩ := by
  by_cases hlt : s.bytes.length < n
  · rw [reception_ended hc.incoming_eq hlt, hc.broken_eq, List.take_of_length_le hlt.le,
      List.drop_of_length_le hlt.le, decide_eq_true hlt, Bool.true_and, List.map_nil]
  · have hsplit : c.incoming = (s.bytes.take n).map some ++ (s.bytes.drop n).map some := by
      rw [← List.map_append, List.take_append_drop, hc.incoming_eq]
    have hlength : n = (s.bytes.take n).length := by
      rw [List.length_take]
      omega
    rw [reception_whole hsplit hlength, decide_eq_false hlt, Bool.false_and]

theorem after (hc : c.Carries s) (n : ℕ) : (c.after n).Carries (s.skip n) := by
  refine ⟨?_, hc.broken_eq⟩
  rw [Conn.after, hc.reception_eq n]
  rfl

theorem tail (hc : c.Carries s) (hs : s.bytes = b :: rest) :
    Conn.Carries { c with incoming := rest.map some } (s.skip 1) := by
  refine ⟨?_, hc.broken_eq⟩
  rw [Stream.skip, hs]
  rfl

theorem taken_iff (hc : c.Carries s) (n : ℕ) :
    Taken c n ↔ n ≤ s.bytes.length ∨ s.broken = true := by
  have harrive : Arrive n c.incoming ↔ n ≤ s.bytes.length := by
    have htake := takeWhile_isSome_map s.bytes []
    rw [List.append_nil, List.takeWhile_nil, List.append_nil] at htake
    rw [Arrive, hc.incoming_eq, htake, List.length_map]
  rw [Taken, harrive, hc.reception_eq n]
  by_cases hle : n ≤ s.bytes.length
  · exact iff_of_true (.inl hle) (.inl hle)
  · rw [decide_eq_true (Nat.lt_of_not_le hle), Bool.true_and]

theorem filled_eq (hc : c.Carries s) (block : Mem) (n : ℕ) :
    filled block c n = store block 0 (s.bytes.take n) := by
  rw [filled, hc.reception_eq n]

theorem anetWrite (hc : c.Carries s) (buf : Mem) (count : ℤ) :
    (anetWrite c buf count).2.Carries s := by
  unfold LibBinlog.anetWrite
  split
  · exact hc
  · exact ⟨hc.incoming_eq, hc.broken_eq⟩

theorem writeHeader (hc : c.Carries s) (plen pnum : ℕ) :
    (writeHeader plen pnum c).2.Carries s := by
  unfold LibBinlog.writeHeader
  exact hc.anetWrite _ _

end Conn.Carries

/-! ## Reading a reply -/

section

variable {c c' c₁ : Conn} {s : Stream} {b marker : UInt8} {rest : List UInt8} {block : Mem}
  {header header' : PktHeader} {reply reply' : ReplyPkt} {status : Status} {left plen : ℕ}

theorem headerOf_plen_lt (bytes : List UInt8) :
    unsigned 64 (headerOf bytes).plen.toInt = leNat (slice (ofBytes bytes) (0 : ℕ) 3) ∧
      leNat (slice (ofBytes bytes) (0 : ℕ) 3) < 2 ^ 24 := by
  have hlt := leNat_lt (slice (ofBytes bytes) (0 : ℕ) 3)
  rw [length_slice] at hlt
  refine ⟨?_, by omega⟩
  rw [headerOf, Int32.toInt_ofNat_of_lt (by omega), unsigned_natCast (by omega)]

theorem headerAfter_declared (header : PktHeader) (hc : c.Carries s) (h : 4 ≤ s.bytes.length) :
    unsigned 64 (headerAfter header c).plen.toInt = s.declared := by
  have hholds := holds_ofBytes (s.bytes.take 4)
  have hfour : s.bytes.take 4 = s.bytes.take 3 ++ (s.bytes.drop 3).take 1 := by
    rw [← List.take_add]
  have hslice : slice (ofBytes (s.bytes.take 4)) (0 : ℕ) 3 = s.bytes.take 3 := by
    rw [hfour] at hholds ⊢
    apply hholds.left.slice_eq
    rw [List.length_take]
    omega
  have hfailed : (c.reception 4).failed = false := by
    rw [hc.reception_eq, decide_eq_false (by omega), Bool.false_and]
  rw [headerAfter, if_neg (by simp [hfailed]), (headerOf_plen_lt _).1, hc.reception_eq, hslice,
    Stream.declared]

theorem readReply_eq (header : PktHeader) (marker : UInt8) (block : Mem) (reply : ReplyPkt)
    (c : Conn) : readReply header marker block reply c =
      readReplyPkt marker block reply (unsigned 64 (headerAfter header c).plen.toInt)
        (c.after 4) >>= fun r => .ok (headerAfter header c, r.2.1, r.2.2) := by
  obtain ⟨status, hheader⟩ := readPktHeader_after header c
  rw [readReply, ok_bind hheader]

/-- The marker of the reply has arrived. -/
theorem readReply_marked (header : PktHeader) (marker : UInt8) (block : Mem) (reply : ReplyPkt)
    (hc : c.Carries s) (hs : s.bytes.drop 4 = b :: rest) :
    ∃ c₁ : Conn, c₁.Carries (s.skip 5) ∧ readReply header marker block reply c =
      readMarkedPkt b block reply (unsigned 64 (s.declared - 1)) c₁ >>=
        fun r => .ok (headerAfter header c, r.2.1, r.2.2) := by
  have hafter : (c.after 4).Carries (s.skip 4) := hc.after 4
  have hincoming : (c.after 4).incoming = some b :: rest.map some := by
    rw [hafter.incoming_eq, Stream.skip, hs, List.map_cons]
  have hplen := headerAfter_declared header hc (by
    have hlength := Stream.length_of_drop hs
    omega)
  have htail := hafter.tail hs
  rw [Stream.skip_skip] at htail
  refine ⟨_, htail, ?_⟩
  rw [readReply_eq, hplen, readReplyPkt_of_marker marker block reply s.declared hincoming]

/-- No marker arrives. -/
theorem readReply_unmarked (header : PktHeader) (marker : UInt8) (block : Mem) (reply : ReplyPkt)
    (hc : c.Carries s) (hs : s.bytes.drop 4 = []) :
    readReply header marker block reply c = (if s.broken then .ok (.protoErr, reply, c.after 4)
      else readMarkedPkt marker block reply
        (unsigned 64 (unsigned 64 (headerAfter header c).plen.toInt - 1)) (c.after 4)) >>=
          fun r => .ok (headerAfter header c, r.2.1, r.2.2) := by
  have hafter : (c.after 4).Carries (s.skip 4) := hc.after 4
  have hincoming : (c.after 4).incoming = [] := by
    rw [hafter.incoming_eq, Stream.skip, hs, List.map_nil]
  have hbroken : (c.after 4).broken = s.broken := hafter.broken_eq
  rw [readReply_eq]
  cases hb : s.broken with
  | true =>
    rw [readReplyPkt_of_broken marker block reply _ hincoming (hbroken.trans hb)]
    rfl
  | false =>
    rw [readReplyPkt_of_end marker block reply _ hincoming (hbroken.trans hb)]
    rfl

theorem readMarkedPkt_err (hb : b ≠ 255)
    (h : readMarkedPkt b block reply left c = .ok (status, reply', c')) :
    reply'.err = reply.err := by
  unfold readMarkedPkt at h
  dsimp only at h
  rw [if_neg hb] at h
  split_ifs at h
  · obtain ⟨x, -, h⟩ := bind_ok_iff.mp h
    cases h
    rfl
  · obtain ⟨x, -, h⟩ := bind_ok_iff.mp h
    cases h
    rfl
  · cases h
    rfl

theorem readMarkedPkt_iseof (h : readMarkedPkt b block reply left c = .ok (status, reply', c'))
    (heof : reply'.iseof = true) : b = 254 ∧ left < 8 ∧ ∃ pkt status pkt',
      readEofPkt block pkt left c = .ok (status, pkt', c') := by
  unfold readMarkedPkt at h
  dsimp only at h
  split_ifs at h with h0 h255 h254
  · obtain ⟨x, -, h⟩ := bind_ok_iff.mp h
    cases h
    cases heof
  · obtain ⟨x, -, h⟩ := bind_ok_iff.mp h
    cases h
    cases heof
  · obtain ⟨x, hread, h⟩ := bind_ok_iff.mp h
    cases h
    exact ⟨h254.1, h254.2, _, _, _, hread⟩
  · cases h
    cases heof

/-! ## What sets the message of an error -/

theorem messageStart_lt (block : Mem) (b : UInt8) (items : List UInt8) :
    messageStart (store block 0 items) < Stream.latestMessage (b :: items) := by
  have hholds := holds_store block 0 items
  rw [Stream.latestMessage, List.getElem?_cons_succ, messageStart]
  by_cases hlen : 2 < items.length
  · have htwo : store block 0 items 2 = items[2] := hholds.getElem hlen
    rw [List.getElem?_eq_getElem hlen, htwo]
    dsimp only
    split_ifs <;> omega
  · rw [List.getElem?_eq_none (by omega)]
    dsimp only
    split_ifs <;> omega

theorem latestMessage_eq (hblock : block 2 = 35) (b : UInt8) (items : List UInt8) :
    Stream.latestMessage (b :: items) = messageStart (store block 0 items) + 1 := by
  have hholds := holds_store block 0 items
  rw [Stream.latestMessage, List.getElem?_cons_succ, messageStart]
  by_cases hlen : 2 < items.length
  · have htwo : store block 0 items 2 = items[2] := hholds.getElem hlen
    rw [List.getElem?_eq_getElem hlen, htwo]
    dsimp only
    split_ifs <;> rfl
  · have htwo : store block 0 items 2 = block 2 := store_of_ge block (by omega)
    rw [List.getElem?_eq_none (by omega), htwo, if_pos hblock]

theorem readErrorPkt_message {pkt pkt' : ErrorPkt} (hlen : left < 2 ^ 31)
    (h : readErrorPkt block pkt left c = .ok (status, pkt', c')) :
    pkt'.message = pkt.message ∨ (Taken c left ∧ messageStart (filled block c left) ≤ left ∧
      pkt'.message = errorMessage (filled block c left) left) := by
  by_cases htaken : Taken c left
  · by_cases hbody : messageStart (filled block c left) ≤ left
    · obtain ⟨pkt₁, hread, hmessage⟩ := readErrorPkt_of_le block pkt htaken hbody hlen
      rw [hread] at h
      cases h
      exact .inr ⟨htaken, hbody, hmessage⟩
    · rw [readErrorPkt_of_lt block pkt htaken (Nat.lt_of_not_le hbody) hlen] at h
      cases h
  · rw [readErrorPkt_of_not_taken block pkt htaken hlen] at h
    cases h
    exact .inl rfl

/-- The bytes behind the marker, as the reader finds them. -/
theorem filled_payload (block : Mem) (hc : c.Carries (s.skip 5)) (hs : s.bytes.drop 4 = b :: rest)
    (hpos : 0 < s.declared) : ∃ items, s.payload = b :: items ∧
      filled block c (s.declared - 1) = store block 0 items := by
  refine ⟨_, Stream.payload_of_pos hs hpos, ?_⟩
  have hdrop : s.bytes.drop 5 = rest := by
    rw [← List.drop_drop (i := 1), hs, List.drop_one, List.tail_cons]
  rw [hc.filled_eq, Stream.skip, hdrop]

theorem taken_left_iff (hc : c.Carries (s.skip 5)) (hs : s.bytes.drop 4 = b :: rest)
    (hpos : 0 < s.declared) : Taken c (s.declared - 1) ↔ s.Complete ∨ s.broken = true := by
  rw [hc.taken_iff, Stream.complete_iff hs hpos, Stream.skip, List.length_drop,
    Stream.length_of_drop hs, Nat.add_sub_cancel_left]

theorem readMarkedPkt_error (h : readMarkedPkt 255 block reply left c =
    .ok (status, reply', c')) : ∃ pkt : ErrorPkt, pkt.message = reply.err.message ∧
      readErrorPkt block pkt left c = .ok (status, reply'.err, c') := by
  unfold readMarkedPkt at h
  dsimp only at h
  rw [if_neg (by decide), if_pos rfl] at h
  obtain ⟨⟨status, err, c₁⟩, hread, hok⟩ := bind_ok_iff.mp h
  cases hok
  refine ⟨_, ?_, hread⟩
  rfl

/-- A message that no one has set is set by an error packet alone, one that arrives at least up to
where the message begins. -/
theorem readReply_refusal (hc : c.Carries s) (hblock : block 2 = 35)
    (hreply : reply.err.message = .wild)
    (h : readReply header 0 block reply c = .ok (header', reply', c'))
    (hset : reply'.err.message ≠ .wild) :
    s.ErrorReply ∧ Stream.latestMessage s.payload ≤ s.declared ∧
      (reply'.err.message ≠ .null → Stream.latestMessage s.payload < s.declared) := by
  cases hs : s.bytes.drop 4 with
  | nil =>
    rw [readReply_unmarked header 0 block reply hc hs] at h
    obtain ⟨⟨status, reply₁, c₁⟩, hread, hok⟩ := bind_ok_iff.mp h
    cases hok
    cases hb : s.broken with
    | true =>
      rw [hb, if_pos rfl] at hread
      cases hread
      exact absurd hreply hset
    | false =>
      rw [hb, if_neg Bool.false_ne_true] at hread
      have herr := readMarkedPkt_err (by decide) hread
      exact absurd (herr ▸ hreply) hset
  | cons b rest =>
    obtain ⟨c₁, hc₁, hmarked⟩ := readReply_marked header 0 block reply hc hs
    rw [hmarked] at h
    obtain ⟨⟨status, reply₁, c₂⟩, hread, hok⟩ := bind_ok_iff.mp h
    cases hok
    by_cases hb : b = 255
    · subst hb
      obtain ⟨pkt, hpkt, hread⟩ := readMarkedPkt_error hread
      have hwild : pkt.message = .wild := hpkt.trans hreply
      by_cases hzero : s.declared = 0
      · rw [hzero, left_zero, readErrorPkt_of_large block pkt (by norm_num)] at hread
        have herr : pkt = reply₁.err := congrArg (·.2.1) (Except.ok.inj hread)
        exact absurd (herr ▸ hwild) hset
      · have hpos : 0 < s.declared := Nat.pos_of_ne_zero hzero
        have hlt := s.declared_lt
        rw [left_of_pos hpos (by omega)] at hread
        obtain hsame | ⟨htaken, hstart, hmessage⟩ := readErrorPkt_message (by omega) hread
        · exact absurd (hsame.trans hwild) hset
        obtain ⟨items, hpayload, hfilled⟩ := filled_payload block hc₁ hs hpos
        have hlatest := latestMessage_eq hblock 255 items
        rw [hfilled] at hstart hmessage
        have harrived := (taken_left_iff hc₁ hs hpos).mp htaken
        have hlength := Stream.length_of_drop hs
        refine ⟨⟨by omega, by rw [hpayload]; rfl, harrived⟩, by rw [hpayload]; omega, ?_⟩
        intro hnull
        rw [hpayload]
        by_contra hge
        rw [errorMessage, if_pos (by omega)] at hmessage
        exact hnull hmessage
    · have herr := readMarkedPkt_err hb hread
      exact absurd (herr ▸ hreply) hset

/-- What an error packet's message is set to, whatever was there before. -/
theorem readReply_of_error (header : PktHeader) (marker : UInt8) (block : Mem) (reply : ReplyPkt)
    (hc : c.Carries s) (hs : s.ErrorReply) (hle : Stream.latestMessage s.payload ≤ s.declared) :
    ∃ header' reply' c', readReply header marker block reply c = .ok (header', reply', c') ∧
      reply'.isok = false ∧ reply'.iseof = false ∧ reply'.err.message ≠ .wild ∧
      (Stream.latestMessage s.payload < s.declared → ∃ bs, reply'.err.message = .text bs) := by
  obtain ⟨-, hhead, harrived⟩ := hs
  obtain ⟨rest, hdrop, hpos⟩ := Stream.exists_of_head hhead
  obtain ⟨c₁, hc₁, hmarked⟩ := readReply_marked header marker block reply hc hdrop
  obtain ⟨items, hpayload, hfilled⟩ := filled_payload block hc₁ hdrop hpos
  have hlt := s.declared_lt
  have hstart := messageStart_lt block 255 items
  rw [hpayload] at hle ⊢
  obtain ⟨err, hread, hmessage⟩ := readErrorPkt_of_le block { reply.err with marker := 255 }
    ((taken_left_iff hc₁ hdrop hpos).mpr harrived) (by rw [hfilled]; omega) (by omega)
  have hreply : readMarkedPkt 255 block reply (s.declared - 1) c₁ =
      .ok (.protoOk, { reply with isok := false, iseof := false, err := err },
        c₁.after (s.declared - 1)) := by
    unfold readMarkedPkt
    dsimp only
    rw [if_neg (by decide), if_pos rfl, ok_bind hread]
  rw [left_of_pos hpos (by omega), ok_bind hreply] at hmarked
  refine ⟨_, _, _, hmarked, rfl, rfl, ?_, fun hbefore => ?_⟩
  · dsimp only
    rw [hmessage, errorMessage]
    split_ifs <;> exact nofun
  · dsimp only
    rw [hmessage, hfilled, errorMessage, if_neg (by omega)]
    exact ⟨_, rfl⟩

/-! ## What asks for another answer -/

theorem readEofPkt_left {pkt pkt' : EofPkt} (hc : c.Carries s) (hlen : left < 8)
    (h : readEofPkt block pkt left c = .ok (status, pkt', c')) :
    c'.Carries (s.skip left) ∧ (left ≤ s.bytes.length → left = 0 ∨ left = 4) := by
  by_cases hzero : left = 0
  · subst hzero
    rw [readEofPkt, if_pos rfl] at h
    cases h
    exact ⟨⟨hc.incoming_eq, hc.broken_eq⟩, fun _ => .inl rfl⟩
  have hitems : (c.reception left).items.length = min left s.bytes.length := by
    rw [hc.reception_eq, List.length_take]
  by_cases hover : 4 < (c.reception left).items.length
  · rw [readEofPkt_of_overflow block pkt hover (by omega)] at h
    cases h
  have hfits : (c.reception left).items.length ≤ 4 := Nat.le_of_not_lt hover
  by_cases htaken : Taken c left
  · by_cases hfour : 4 ≤ left
    · obtain ⟨pkt₁, hread⟩ := readEofPkt_of_taken block pkt htaken hfits hfour (by omega)
      rw [hread] at h
      cases h
      exact ⟨hc.after left, fun hle => .inr (by omega)⟩
    · rw [readEofPkt_of_lt block pkt htaken (Nat.pos_of_ne_zero hzero) (by omega)] at h
      cases h
  · have hshort := mt (fun hle => (hc.taken_iff left).mpr (.inl hle)) htaken
    rw [readEofPkt_of_not_taken block pkt htaken hfits (by omega)] at h
    cases h
    exact ⟨hc.after left, fun hle => absurd hle hshort⟩

theorem skip_declared (hpos : 0 < s.declared) : (s.skip 5).skip (s.declared - 1) = s.behind := by
  rw [Stream.skip_skip, Stream.behind]
  congr 1
  omega

theorem readReply_eof (hc : c.Carries s) (hreply : reply.iseof = false)
    (h : readReply header 0 block reply c = .ok (header', reply', c'))
    (heof : reply'.iseof = true) : c'.Carries s.behind ∧ reply'.err = reply.err ∧
      (s.Complete → s.EofReply ∧ (s.declared = 1 ∨ s.declared = 5)) := by
  cases hs : s.bytes.drop 4 with
  | nil =>
    rw [readReply_unmarked header 0 block reply hc hs] at h
    obtain ⟨⟨status, reply₁, c₁⟩, hread, hok⟩ := bind_ok_iff.mp h
    cases hok
    split_ifs at hread with hb
    · cases hread
      exact absurd (hreply.symm.trans heof) Bool.false_ne_true
    · exact absurd (readMarkedPkt_iseof hread heof).1 (by decide)
  | cons b rest =>
    obtain ⟨c₁, hc₁, hmarked⟩ := readReply_marked header 0 block reply hc hs
    rw [hmarked] at h
    obtain ⟨⟨status, reply₁, c₂⟩, hread, hok⟩ := bind_ok_iff.mp h
    cases hok
    obtain ⟨rfl, hlt, pkt, status', pkt', heofpkt⟩ := readMarkedPkt_iseof hread heof
    have herr := readMarkedPkt_err (by decide) hread
    have hdeclared := s.declared_lt
    have hpos : 0 < s.declared := by
      by_contra hzero
      rw [Nat.eq_zero_of_not_pos hzero, left_zero] at hlt
      omega
    rw [left_of_pos hpos (by omega)] at hlt heofpkt
    obtain ⟨hcarries, hsize⟩ := readEofPkt_left hc₁ hlt heofpkt
    rw [skip_declared hpos] at hcarries
    refine ⟨hcarries, herr, fun hcomplete => ?_⟩
    have hpayload := Stream.payload_of_pos hs hpos
    have hle : s.declared - 1 ≤ (s.skip 5).bytes.length := by
      rw [Stream.skip, List.length_drop]
      unfold Stream.Complete at hcomplete
      omega
    have hsizes := hsize hle
    exact ⟨⟨hcomplete, by rw [hpayload]; rfl, by omega⟩, by omega⟩

theorem readReply_of_eof (header : PktHeader) (marker : UInt8) (block : Mem) (reply : ReplyPkt)
    (hc : c.Carries s) (hs : s.EofReply) (hsize : s.declared = 1 ∨ s.declared = 5) :
    ∃ header' reply' c', readReply header marker block reply c = .ok (header', reply', c') ∧
      reply'.iseof = true ∧ c'.Carries s.behind := by
  obtain ⟨hcomplete, hhead, -⟩ := hs
  obtain ⟨rest, hdrop, hpos⟩ := Stream.exists_of_head hhead
  obtain ⟨c₁, hc₁, hmarked⟩ := readReply_marked header marker block reply hc hdrop
  have htaken := (taken_left_iff hc₁ hdrop hpos).mpr (.inl hcomplete)
  have hread : ∃ status pkt' c₂, readEofPkt block { reply.eof with marker := 254 }
      (s.declared - 1) c₁ = .ok (status, pkt', c₂) := by
    rcases hsize with hone | hfive
    · rw [hone, readEofPkt, if_pos rfl]
      exact ⟨_, _, _, rfl⟩
    · have hfits := c₁.length_reception_le (s.declared - 1)
      obtain ⟨pkt', h⟩ := readEofPkt_of_taken block { reply.eof with marker := 254 } htaken
        (by omega) (by omega) (by omega)
      exact ⟨_, _, _, h⟩
  obtain ⟨status, pkt', c₂, hread⟩ := hread
  have hcarries := (readEofPkt_left hc₁ (by omega) hread).1
  have hreply : readMarkedPkt 254 block reply (s.declared - 1) c₁ =
      .ok (status, { reply with isok := false, iseof := true, eof := pkt' }, c₂) := by
    unfold readMarkedPkt
    dsimp only
    rw [if_neg (by decide), if_neg (by decide), if_pos ⟨rfl, by omega⟩, ok_bind hread]
  rw [left_of_pos hpos (by omega), ok_bind hreply] at hmarked
  rw [skip_declared hpos] at hcarries
  exact ⟨_, _, _, hmarked, rfl, hcarries⟩

end

end LibBinlog
