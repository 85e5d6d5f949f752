import LibBinlog.NetDriver

/-!
# Packets that are cut short

A reader compares the count of its read with the length without sign, so that a failed read passes
for a whole one, and goes on with what stands in the block. A content read that ends early is not
compared with anything.
-/

namespace LibBinlog

open Machine Memory Arrivals

variable {c : Conn} {plen : ℕ} {block : Mem} {b : UInt8} {later : List (Option UInt8)}

/-- The reader reports success only if the declared bytes have arrived. -/
def NeverCut {α : Type} (read : Except Fault (Status × α × Conn)) (plen : ℕ) (c : Conn) : Prop :=
  ∀ pkt c', read = .ok (.protoOk, pkt, c') → Arrive plen c.incoming

/-- A read fails within the next `plen` bytes. -/
def Breaks (c : Conn) (plen : ℕ) : Prop := (c.reception plen).failed = true

instance (c : Conn) (plen : ℕ) : Decidable (Breaks c plen) := inferInstanceAs (Decidable (_ = _))

/-- The body that a reader finds behind this marker breaks off, and what stands in the block is of
the shape that it expects. -/
def CutBody (marker : UInt8) (block : Mem) (left : ℕ) (c : Conn) : Prop :=
  Breaks c left ∧
    (marker = 0 ∧ OkBody (filled block c left) left ∨
      marker = 255 ∧ messageStart (filled block c left) ≤ left ∨
      marker = 254 ∧ left < 8 ∧ 4 ≤ left ∧ (c.reception left).items.length ≤ 4)

/-- The body of the reply breaks off so, or its one byte does not come and the marker held 254. -/
def CutReply (marker : UInt8) (block : Mem) (plen : ℕ) (c : Conn) : Prop :=
  match c.incoming with
  | [] => c.broken = false ∧ marker = 254 ∧ plen = 1
  | none :: _ => False
  | some b :: later => 0 < plen ∧ CutBody b block (plen - 1) { c with incoming := later }

/-- The packet that the next bytes declare has arrived. -/
def PacketArrives (c : Conn) : Prop :=
  Arrive 4 c.incoming ∧
    Arrive (headerOf (c.reception 4).items).plen.toInt.toNat (c.after 4).incoming

/-! ## Single readers -/

def Accepts {α : Type} (read : Except Fault (Status × α × Conn)) : Prop :=
  ∃ pkt c', read = .ok (.protoOk, pkt, c')

theorem neverCut_iff {α : Type} {read : Except Fault (Status × α × Conn)} {cut : Prop}
    (hcut : cut → ¬Arrive plen c.incoming)
    (hread : ¬Arrive plen c.incoming → (Accepts read ↔ cut)) : NeverCut read plen c ↔ ¬cut := by
  constructor
  · intro hnever h
    obtain ⟨pkt, c', heq⟩ := (hread (hcut h)).mpr h
    exact hcut h (hnever pkt c' heq)
  · intro h pkt c' heq
    by_contra hnot
    exact h ((hread hnot).mp ⟨pkt, c', heq⟩)

theorem Breaks.not_arrive (h : Breaks c plen) : ¬Arrive plen c.incoming := by
  obtain ⟨-, hfailed, -⟩ | ⟨hnot, -⟩ | ⟨hnot, -⟩ := c.reception_cases plen
  · exact absurd h (by simp [Breaks, hfailed])
  · exact hnot
  · exact hnot

theorem taken_iff_breaks (h : ¬Arrive plen c.incoming) : Taken c plen ↔ Breaks c plen :=
  or_iff_right h

theorem not_accepts_error {α : Type} {e : Fault} :
    ¬Accepts (.error e : Except Fault (Status × α × Conn)) := nofun

theorem not_accepts_protoErr {α : Type} {pkt : α} {c' : Conn} :
    ¬Accepts (.ok (.protoErr, pkt, c')) := nofun

theorem accepts_readOkPkt_iff (pkt : OkPkt) (h : ¬Arrive plen c.incoming) (hlen : plen < 2 ^ 31) :
    Accepts (readOkPkt block pkt plen c) ↔
      Breaks c plen ∧ OkBody (filled block c plen) plen := by
  rw [← taken_iff_breaks h]
  by_cases htaken : Taken c plen
  · by_cases hbody : OkBody (filled block c plen) plen
    · obtain ⟨pkt', hread, -⟩ := readOkPkt_of_okBody block pkt htaken hbody hlen
      exact iff_of_true ⟨pkt', _, hread⟩ ⟨htaken, hbody⟩
    · rw [readOkPkt_of_not_okBody block pkt htaken hbody hlen]
      exact iff_of_false not_accepts_error fun h => hbody h.2
  · rw [readOkPkt_of_not_taken block pkt htaken hlen]
    exact iff_of_false not_accepts_protoErr fun h => htaken h.1

theorem accepts_readErrorPkt_iff (pkt : ErrorPkt) (h : ¬Arrive plen c.incoming)
    (hlen : plen < 2 ^ 31) : Accepts (readErrorPkt block pkt plen c) ↔
      Breaks c plen ∧ messageStart (filled block c plen) ≤ plen := by
  rw [← taken_iff_breaks h]
  by_cases htaken : Taken c plen
  · by_cases hbody : messageStart (filled block c plen) ≤ plen
    · obtain ⟨pkt', hread, -⟩ := readErrorPkt_of_le block pkt htaken hbody hlen
      exact iff_of_true ⟨pkt', _, hread⟩ ⟨htaken, hbody⟩
    · rw [readErrorPkt_of_lt block pkt htaken (not_le.mp hbody) hlen]
      exact iff_of_false not_accepts_error fun h => hbody h.2
  · rw [readErrorPkt_of_not_taken block pkt htaken hlen]
    exact iff_of_false not_accepts_protoErr fun h => htaken h.1

theorem accepts_readEofPkt_iff (pkt : EofPkt) (h : ¬Arrive plen c.incoming)
    (hlen : plen < 2 ^ 31) : Accepts (readEofPkt block pkt plen c) ↔
      Breaks c plen ∧ 4 ≤ plen ∧ (c.reception plen).items.length ≤ 4 := by
  have hpos : 0 < plen := Nat.pos_of_ne_zero fun hzero => h (hzero ▸ Nat.zero_le _)
  rw [← taken_iff_breaks h]
  by_cases hfits : (c.reception plen).items.length ≤ 4
  · by_cases htaken : Taken c plen
    · by_cases hfour : 4 ≤ plen
      · obtain ⟨pkt', hread⟩ := readEofPkt_of_taken block pkt htaken hfits hfour hlen
        exact iff_of_true ⟨pkt', _, hread⟩ ⟨htaken, hfour, hfits⟩
      · rw [readEofPkt_of_lt block pkt htaken hpos (not_le.mp hfour)]
        exact iff_of_false not_accepts_error fun h => hfour h.2.1
    · rw [readEofPkt_of_not_taken block pkt htaken hfits hlen]
      exact iff_of_false not_accepts_protoErr fun h => htaken h.1
  · rw [readEofPkt_of_overflow block pkt (not_le.mp hfits) hlen]
    exact iff_of_false not_accepts_error fun h => hfits h.2.2

theorem accepts_bind_iff {α β : Type} {x : Except Fault (Status × α × Conn)}
    {f : Status × α × Conn → Except Fault (Status × β × Conn)}
    (hf : ∀ status pkt c, ∃ pkt', f (status, pkt, c) = .ok (status, pkt', c)) :
    Accepts (x >>= f) ↔ Accepts x := by
  constructor
  · rintro ⟨pkt, c', heq⟩
    obtain ⟨⟨status, pkt', c''⟩, hx, heq⟩ := bind_ok_iff.mp heq
    obtain ⟨pkt'', hf'⟩ := hf status pkt' c''
    cases hf'.symm.trans heq
    exact ⟨pkt', c', hx⟩
  · rintro ⟨pkt, c', hx⟩
    obtain ⟨pkt', hf'⟩ := hf .protoOk pkt c'
    exact ⟨pkt', c', (ok_bind hx).trans hf'⟩

theorem accepts_readMarkedPkt_iff (marker : UInt8) (pkt : ReplyPkt) (h : ¬Arrive plen c.incoming)
    (hlen : plen < 2 ^ 31) : Accepts (readMarkedPkt marker block pkt plen c) ↔
      CutBody marker block plen c := by
  unfold readMarkedPkt CutBody
  by_cases hok : marker = 0
  · subst hok
    rw [if_pos rfl]
    rw [accepts_bind_iff (by exact fun _ _ _ => ⟨_, rfl⟩), accepts_readOkPkt_iff _ h hlen]
    simp
  rw [if_neg hok]
  by_cases herr : marker = 255
  · subst herr
    rw [if_pos rfl]
    rw [accepts_bind_iff (by exact fun _ _ _ => ⟨_, rfl⟩), accepts_readErrorPkt_iff _ h hlen]
    simp
  rw [if_neg herr]
  by_cases heof : marker = 254 ∧ plen < 8
  · rw [if_pos heof]
    rw [accepts_bind_iff (by exact fun _ _ _ => ⟨_, rfl⟩), accepts_readEofPkt_iff _ h hlen]
    simp [heof]
  · rw [if_neg heof]
    refine iff_of_false not_accepts_protoErr ?_
    rintro ⟨-, ⟨h0, -⟩ | ⟨h255, -⟩ | ⟨h254, hlt, -⟩⟩
    · exact hok h0
    · exact herr h255
    · exact heof ⟨h254, hlt⟩

/-- Nothing is left behind the marker: only an EOF packet may be so short. -/
theorem accepts_readMarkedPkt_zero_iff (marker : UInt8) (pkt : ReplyPkt) :
    Accepts (readMarkedPkt marker block pkt 0 c) ↔ marker = 254 := by
  have htaken : Taken c 0 := .inl (Nat.zero_le _)
  unfold readMarkedPkt
  by_cases hok : marker = 0
  · have hbody : ¬OkBody (filled block c 0) 0 := by
      have hone := one_le_encodedWidth (filled block c 0 (0 : ℕ)).toNat
      unfold OkBody okFieldsEnd
      omega
    rw [if_pos hok, error_bind (readOkPkt_of_not_okBody block _ htaken hbody (by norm_num)), hok]
    exact iff_of_false not_accepts_error (by decide)
  rw [if_neg hok]
  by_cases herr : marker = 255
  · have hbody : 0 < messageStart (filled block c 0) := by
      unfold messageStart
      split_ifs <;> omega
    rw [if_pos herr, error_bind (readErrorPkt_of_lt block _ htaken hbody (by norm_num)), herr]
    exact iff_of_false not_accepts_error (by decide)
  rw [if_neg herr]
  by_cases heof : marker = 254
  · rw [if_pos ⟨heof, by norm_num⟩]
    exact iff_of_true ⟨_, _, rfl⟩ heof
  · rw [if_neg fun h => heof h.1]
    exact iff_of_false not_accepts_protoErr heof

theorem arrive_cons_iff (hpos : 0 < plen) :
    Arrive plen (some b :: later) ↔ Arrive (plen - 1) later := by
  have hadd : Arrive ([b].length + (plen - 1)) ([b].map some ++ later) ↔
      Arrive (plen - 1) later := arrive_add_iff rfl
  rw [List.length_singleton, Nat.add_sub_cancel' hpos] at hadd
  exact hadd

theorem CutReply.not_arrive {marker : UInt8} (h : CutReply marker block plen c) :
    ¬Arrive plen c.incoming := by
  unfold CutReply at h
  match hc : c.incoming with
  | [] =>
    rw [hc] at h
    rw [h.2.2]
    exact Nat.not_succ_le_zero 0
  | none :: later =>
    rw [hc] at h
    exact h.elim
  | some b :: later =>
    rw [hc] at h
    rw [arrive_cons_iff h.1]
    exact h.2.1.not_arrive

theorem readReplyPkt_neverCut_iff (marker : UInt8) (block : Mem) (pkt : ReplyPkt)
    (hlen : plen < 2 ^ 31) :
    NeverCut (readReplyPkt marker block pkt plen c) plen c ↔ ¬CutReply marker block plen c := by
  refine neverCut_iff CutReply.not_arrive fun hnot => ?_
  have hpos : 0 < plen := Nat.pos_of_ne_zero fun hzero => hnot (hzero ▸ Nat.zero_le _)
  unfold CutReply
  match hc : c.incoming with
  | [] =>
    cases hb : c.broken with
    | true =>
      rw [readReplyPkt_of_broken marker block pkt plen hc hb]
      exact iff_of_false not_accepts_protoErr fun h => nomatch h.1
    | false =>
      rw [readReplyPkt_of_end marker block pkt plen hc hb, left_of_pos hpos (by omega)]
      by_cases hone : plen = 1
      · rw [hone, accepts_readMarkedPkt_zero_iff]
        exact ⟨fun h => ⟨rfl, h, rfl⟩, fun h => h.2.1⟩
      · have hrest : ¬Arrive (plen - 1) c.incoming := by
          rw [hc, Arrive, List.takeWhile_nil, List.length_nil]
          omega
        have hwhole : ¬Breaks c (plen - 1) := by
          have hnone : c.incoming = ([] : List UInt8).map some := hc
          rw [Breaks, c.reception_ended hnone (by rw [List.length_nil]; omega), hb]
          exact Bool.false_ne_true
        rw [accepts_readMarkedPkt_iff marker pkt hrest (by omega)]
        exact iff_of_false (fun h => hwhole h.1) fun h => hone h.2.2
  | none :: later =>
    rw [readReplyPkt_of_failed marker block pkt plen hc]
    exact iff_of_false not_accepts_protoErr id
  | some b :: later =>
    rw [hc, arrive_cons_iff hpos] at hnot
    rw [readReplyPkt_of_marker marker block pkt plen hc, left_of_pos hpos (by omega),
      accepts_readMarkedPkt_iff b pkt hnot (by omega)]
    exact (and_iff_right hpos).symm

/-! ## Events -/

/-- Behind a marker that is no error's, the content read brings something although the header's read
failed, or ends before the content does; or, behind an EOF packet whose body is read first, although
one of the two reads before it failed. -/
def CutEvent (header : PktHeader) (c : Conn) : Prop :=
  match (c.after 4).incoming with
  | some b :: later =>
    let left := contentLength (headerAfter header c).plen
    let c' : Conn := { c.after 4 with incoming := later }
    b ≠ 255 ∧
      if b = 254 ∧ left < 8 then
        (Breaks c 4 ∨ Breaks c' left) ∧ 4 ≤ left ∧ (c'.reception left).items.length ≤ 4 ∧
          Brings left (c'.after left)
      else Brings left c' ∧ (Breaks c 4 ∨ (c'.reception left).items.length < left)
  | _ => False

theorem Brings.not_arrive_iff (h : Brings plen c) :
    ¬Arrive plen c.incoming ↔ (c.reception plen).items.length < plen := by
  obtain ⟨harrive, -, hlength⟩ | ⟨hnot, -, hlt, -⟩ | ⟨-, hfailed, -⟩ := c.reception_cases plen
  · exact iff_of_false (not_not.mpr harrive) (by omega)
  · exact iff_of_true hnot hlt
  · exact absurd h.1 (by simp [hfailed])

/-- Something comes behind the read of `plen` bytes: it has brought them all or has failed. -/
theorem not_arrive_iff_of_brings_after {n : ℕ} (h : Brings n (c.after plen)) :
    ¬Arrive plen c.incoming ↔ Breaks c plen := by
  have htaken : Taken c plen := by
    by_contra hnot
    exact not_brings_of_end (not_taken hnot).2.2.1 h
  constructor
  · exact fun hnot => htaken.resolve_left hnot
  · exact Breaks.not_arrive

theorem Brings.pos (h : Brings plen c) : 0 < plen :=
  Nat.pos_of_ne_zero fun hzero => not_brings_zero (hzero ▸ h)

/-- With a marker there, the declared packet arrives if the header does and the content does. -/
theorem packetArrives_iff (header : PktHeader) (hc : (c.after 4).incoming = some b :: later)
    (hpos : 0 < contentLength (headerAfter header c).plen) :
    PacketArrives c ↔
      ¬Breaks c 4 ∧ Arrive (contentLength (headerAfter header c).plen) later := by
  unfold PacketArrives
  obtain ⟨harrive, hfailed, -⟩ | ⟨-, -, -, hend, -⟩ | ⟨hnot, hfailed, -⟩ := c.reception_cases 4
  · have hheader : headerAfter header c = headerOf (c.reception 4).items := by
      rw [headerAfter, if_neg (by simp [hfailed])]
    have hbreaks : ¬Breaks c 4 := by simp [Breaks, hfailed]
    rw [hheader, contentLength] at hpos
    have hsucc : (headerOf (c.reception 4).items).plen.toInt.toNat - 1 =
        contentLength (headerOf (c.reception 4).items).plen := by
      rw [contentLength]
      omega
    rw [hheader, hc, arrive_cons_iff (by omega), hsucc]
    exact and_congr (iff_of_true harrive hbreaks) Iff.rfl
  · rw [hend] at hc
    cases hc
  · exact iff_of_false (fun h => hnot h.1) fun h => h.1 hfailed

theorem getEventFromServer_neverCut_iff (ds : DataSource NetSource) :
    (∀ ev ds', getEventFromServer ds = .ok (some ev, ds') → PacketArrives ds.driver.conn) ↔
      ¬CutEvent (ds.driver.unset ds.driver.unread).header ds.driver.conn := by
  have hanswer : (∀ ev ds', getEventFromServer ds = .ok (some ev, ds') →
      PacketArrives ds.driver.conn) ↔
      ¬(PacketTaken (ds.driver.unset ds.driver.unread).header ds.driver.conn ∧
        ¬PacketArrives ds.driver.conn) := by
    rw [← getEventFromServer_some_iff]
    push Not
    exact ⟨fun h ⟨ev, ds', heq⟩ => h ev ds' heq, fun h ev ds' heq => h ⟨ev, ds', heq⟩⟩
  rw [hanswer, not_iff_not]
  generalize (ds.driver.unset ds.driver.unread).header = header
  generalize ds.driver.conn = c
  unfold PacketTaken CutEvent
  match hc : (c.after 4).incoming with
  | [] => exact iff_of_false (fun h => h.1) id
  | none :: later => exact iff_of_false (fun h => h.1) id
  | some b :: later =>
    dsimp only
    have harrives := packetArrives_iff header hc
    unfold EventTaken
    generalize hplen : (headerAfter header c).plen = plen at harrives
    have hone : 0 < contentLength plen → 1 < plen.toInt := by
      intro hpos
      rw [contentLength] at hpos
      omega
    by_cases heof : b = 254 ∧ contentLength plen < 8
    · rw [if_pos heof, if_pos heof]
      constructor
      · rintro ⟨⟨-, hmark, hfour, hfits, hbrings⟩, hnot⟩
        rw [harrives (by omega), not_and_or, not_not,
          not_arrive_iff_of_brings_after hbrings] at hnot
        exact ⟨hmark, hnot, hfour, hfits, hbrings⟩
      · rintro ⟨hmark, hcut, hfour, hfits, hbrings⟩
        rw [harrives (by omega), not_and_or, not_not, not_arrive_iff_of_brings_after hbrings]
        exact ⟨⟨hone (by omega), hmark, hfour, hfits, hbrings⟩, hcut⟩
    · rw [if_neg heof, if_neg heof]
      constructor
      · rintro ⟨⟨-, hmark, hbrings⟩, hnot⟩
        rw [harrives hbrings.pos, not_and_or, not_not, hbrings.not_arrive_iff] at hnot
        exact ⟨hmark, hbrings, hnot⟩
      · rintro ⟨hmark, hbrings, hcut⟩
        rw [harrives hbrings.pos, not_and_or, not_not, hbrings.not_arrive_iff]
        exact ⟨⟨hone hbrings.pos, hmark, hbrings⟩, hcut⟩

/-! ## All of them -/

/-- Each reader takes only whole packets for whole, and the server's source gives only whole events,
exactly if no read fails, and no stream ends, where what stands in the block or comes behind lets it
pass. -/
theorem neverCut_iff_not_cut (block : Mem) (marker : UInt8) (okPkt : OkPkt) (errPkt : ErrorPkt)
    (eofPkt : EofPkt) (reply : ReplyPkt) (c : Conn) (ds : DataSource NetSource)
    (hlen : plen < 2 ^ 24) :
    (NeverCut (readOkPkt block okPkt plen c) plen c ↔
      ¬(Breaks c plen ∧ OkBody (filled block c plen) plen)) ∧
    (NeverCut (readErrorPkt block errPkt plen c) plen c ↔
      ¬(Breaks c plen ∧ messageStart (filled block c plen) ≤ plen)) ∧
    (NeverCut (readEofPkt block eofPkt plen c) plen c ↔
      ¬(Breaks c plen ∧ 4 ≤ plen ∧ (c.reception plen).items.length ≤ 4)) ∧
    (NeverCut (readReplyPkt marker block reply plen c) plen c ↔
      ¬CutReply marker block plen c) ∧
    ((∀ ev ds', getEventFromServer ds = .ok (some ev, ds') → PacketArrives ds.driver.conn) ↔
      ¬CutEvent (ds.driver.unset ds.driver.unread).header ds.driver.conn) := by
  have h31 : plen < 2 ^ 31 := by omega
  refine ⟨?_, ?_, ?_, readReplyPkt_neverCut_iff marker block reply h31,
    getEventFromServer_neverCut_iff ds⟩
  · exact neverCut_iff (fun h => h.1.not_arrive)
      fun hnot => accepts_readOkPkt_iff okPkt hnot h31
  · exact neverCut_iff (fun h => h.1.not_arrive)
      fun hnot => accepts_readErrorPkt_iff errPkt hnot h31
  · exact neverCut_iff (fun h => h.1.not_arrive)
      fun hnot => accepts_readEofPkt_iff eofPkt hnot h31

/-- A connection that is reset at once. -/
def resetConn : Conn := ⟨[], true, 0, [], ascii "Connection reset by peer", by decide, by decide⟩

/-- A header that declares 10 bytes, the marker of an event, and three more bytes. -/
def cutConn : Conn :=
  { resetConn with
    incoming := ([10, 0, 0, 1, 0, 7, 8, 9] : List UInt8).map some
    broken := false }

theorem neverCut_iff_not_cut_reset :
    (2 : ℕ) < 2 ^ 24 ∧
      (NeverCut (readOkPkt (fun _ => 0) Unset.zero.reply.ok 2 resetConn) 2 resetConn ↔
        ¬(Breaks resetConn 2 ∧ OkBody (filled (fun _ => 0) resetConn 2) 2)) :=
  ⟨by norm_num, (neverCut_iff_not_cut (fun _ => 0) 0 Unset.zero.reply.ok Unset.zero.reply.err
    Unset.zero.reply.eof Unset.zero.reply resetConn (sourceOn cutConn) (by norm_num)).1⟩

/-- No byte of the first packet arrives, and four of the second one's ten. -/
theorem reset_and_cut_taken :
    ¬NeverCut (readOkPkt (fun _ => 0) Unset.zero.reply.ok 2 resetConn) 2 resetConn ∧
      (getEventFromServer (sourceOn cutConn)).map
        (fun r => r.1.map fun ev => slice ev 0 3) = .ok (some [7, 8, 9]) ∧
      ¬PacketArrives (sourceOn cutConn).driver.conn := by
  refine ⟨fun hnever => ?_, by decide +kernel, fun h => ?_⟩
  · have hbreaks : Breaks resetConn 2 := by decide
    have hbody : OkBody (filled (fun _ => 0) resetConn 2) 2 := by decide
    obtain ⟨pkt', hread, -⟩ :=
      readOkPkt_of_okBody _ Unset.zero.reply.ok (.inr hbreaks) hbody (by norm_num)
    exact hbreaks.not_arrive (hnever pkt' _ hread)
  · exact absurd h.2 (by decide +kernel)

end LibBinlog
