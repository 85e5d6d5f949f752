import LibBinlog.Lib.Machine
import LibBinlog.Lib.Memory
import Mathlib.Data.List.Induction

/-!
# Input and output on a descriptor

`vioNetRead` and `vioNetWrite` call `read` and `write` until all bytes are through. Each round first
moves the pointer by the last result, which is -1 after a call that is to be repeated, so a repeated
call starts one byte too early.
-/

namespace LibBinlog

open Machine Memory

/-! ## The calls and the loop -/

inductive Errno
  | again
  | wouldBlock
  | other
  deriving DecidableEq

def Errno.Retried (errno : Errno) : Prop := errno = .again ∨ errno = .wouldBlock

instance (errno : Errno) : Decidable errno.Retried := inferInstanceAs (Decidable (_ ∨ _))

/-- What a call of `read` or `write` comes to. It moves no byte only at the end of the stream. -/
inductive CallResult
  | moved (n : ℕ)
  | failed (errno : Errno)

/-- One call of `read` or `write` moves no more than this. -/
def maxTransfer : ℕ := 2 ^ 31 - 4096

variable {σ : Type*} {move : ℤ → ℕ → σ → σ} {size : ℕ} {s : σ}

/-- The loop of both functions: what the calls come to, the pointer into a block of `size` bytes,
the last result, the bytes left and what the calls work on. The result is `none` while a call has
not returned yet. -/
def netLoop (move : ℤ → ℕ → σ → σ) (size : ℕ) :
    List CallResult → ℤ → ℤ → ℕ → σ → Except Fault (Option Bool × σ)
  | [], _, _, len, s => .ok (if 0 < len then none else some true, s)
  | result :: results, buf, nmoved, len, s =>
    if 0 < len then
      let buf := buf + nmoved
      match result with
      | .failed errno =>
        if errno.Retried then netLoop move size results buf (-1) len s else .ok (some false, s)
      | .moved n =>
        let n := min n (min len maxTransfer)
        if 0 < n ∧ (buf < 0 ∨ size < buf + n) then .error .memory
        else
          let s := move buf n s
          let len := len - n
          if n = 0 ∧ 0 < len then .ok (some false, s) else netLoop move size results buf n len s
    else .ok (some true, s)

/-- `read` stores the next bytes of the stream, of which `s.2` have been taken. -/
def readCall (stream : Mem) (p : ℤ) (n : ℕ) (s : Mem × ℕ) : Mem × ℕ :=
  (store s.1 p (slice stream s.2 n), s.2 + n)

def writeCall (buf : Mem) (p : ℤ) (n : ℕ) (out : List UInt8) : List UInt8 := out ++ slice buf p n

def vioNetRead (stream : Mem) (results : List CallResult) (buf : Mem) (len : ℕ) :
    Except Fault (Option Bool × Mem × ℕ) :=
  netLoop (readCall stream) len results 0 0 len (buf, 0)

/-- The result has the bytes written. -/
def vioNetWrite (results : List CallResult) (buf : Mem) (len : ℕ) :
    Except Fault (Option Bool × List UInt8) :=
  netLoop (writeCall buf) len results 0 0 len []

/-! ## Sequences of results -/

namespace CallResult

def Stops : CallResult → Prop
  | .moved n => n = 0
  | .failed errno => ¬errno.Retried

/-- The bytes that a call moves if that many are left. -/
def bytes : CallResult → ℕ
  | .moved n => min n maxTransfer
  | .failed _ => 0

def retry : CallResult → ℕ
  | .moved _ => 0
  | .failed _ => 1

end CallResult

variable {results before after rest : List CallResult} {result : CallResult} {n : ℕ}

def movedBytes (results : List CallResult) : ℕ := (results.map CallResult.bytes).sum

def retries (results : List CallResult) : ℕ := (results.map CallResult.retry).sum

/-- After these results there are bytes left and another call is made. -/
def Pending (len : ℕ) (results : List CallResult) : Prop :=
  (∀ result ∈ results, ¬result.Stops) ∧ movedBytes results < len

/-- The stream ends, or a call fails for good, before all bytes are through. -/
def StopsFirst (len : ℕ) (results : List CallResult) : Prop :=
  ∃ before result after, results = before ++ result :: after ∧ Pending len before ∧ result.Stops

/-- Whenever a call moves bytes, no more calls have been repeated than bytes moved before it, and
none if it moves the last ones. -/
def Undisturbed (len : ℕ) (results : List CallResult) : Prop :=
  ∀ before n after, results = before ++ .moved n :: after → Pending len before → 0 < n →
    retries before ≤ movedBytes before ∧
      (len ≤ movedBytes before + min n maxTransfer → retries before = 0)

/-! ## What is claimed -/

/-- Nothing outside of the block is stored to; 1 is returned only with the next bytes of the stream
in the block, and 0 if the stream ends or a call fails first. -/
def ReadsExactly (len : ℕ) (results : List CallResult) : Prop :=
  ∀ stream buf, ∃ status buf' taken,
    vioNetRead stream results buf len = .ok (status, buf', taken) ∧
    (status = some true → Holds buf' 0 (slice stream 0 len) ∧ taken = len) ∧
    (StopsFirst len results → status = some false)

/-- The same for the bytes of the block, which are written once each and in their order. -/
def WritesExactly (len : ℕ) (results : List CallResult) : Prop :=
  ∀ buf, ∃ status out, vioNetWrite results buf len = .ok (status, out) ∧
    (status = some true → out = slice buf 0 len) ∧ (StopsFirst len results → status = some false)

/-! ## The steps of the loop -/

theorem netLoop_zero (move : ℤ → ℕ → σ → σ) (size : ℕ) (results : List CallResult)
    (buf nmoved : ℤ) (s : σ) : netLoop move size results buf nmoved 0 s = .ok (some true, s) := by
  cases results <;> rfl

theorem netLoop_nil {len : ℕ} (buf nmoved : ℤ) (hlen : 0 < len) :
    netLoop move size [] buf nmoved len s = .ok (none, s) := by
  rw [netLoop, if_pos hlen]

theorem netLoop_retried {len : ℕ} {errno : Errno} (buf nmoved : ℤ) (hlen : 0 < len)
    (h : errno.Retried) : netLoop move size (.failed errno :: rest) buf nmoved len s =
      netLoop move size rest (buf + nmoved) (-1) len s := by
  rw [netLoop, if_pos hlen]
  dsimp only
  rw [if_pos h]

theorem netLoop_stopped {len : ℕ} (rest : List CallResult) (s : σ) (buf nmoved : ℤ)
    (hlen : 0 < len) (h : result.Stops) :
    ∃ s', netLoop move size (result :: rest) buf nmoved len s = .ok (some false, s') := by
  cases result with
  | failed errno =>
    have hretried : ¬errno.Retried := h
    rw [netLoop, if_pos hlen]
    dsimp only
    rw [if_neg hretried]
    exact ⟨_, rfl⟩
  | moved n =>
    cases (h : n = 0)
    rw [netLoop, if_pos hlen]
    dsimp only
    rw [Nat.zero_min, if_neg (by omega), if_pos ⟨rfl, hlen⟩]
    exact ⟨_, rfl⟩

/-- `t` bytes have been moved and `j` calls repeated. -/
theorem netLoop_moved (rest : List CallResult) (s : σ) {t j : ℕ} {buf nmoved : ℤ}
    (hbuf : buf + nmoved = t - j) (ht : t < size) (hn : 0 < n) (hj : j ≤ t) :
    ∃ k, k = min n (min (size - t) maxTransfer) ∧ 0 < k ∧ t + k ≤ size ∧
      netLoop move size (.moved n :: rest) buf nmoved (size - t) s =
        netLoop move size rest (t - j) k (size - (t + k)) (move (t - j) k s) := by
  have hmax : 0 < maxTransfer := by decide
  refine ⟨_, rfl, by omega, by omega, ?_⟩
  rw [netLoop, if_pos (by omega), hbuf]
  dsimp only
  rw [if_neg (by omega), if_neg (by omega), Nat.sub_add_eq]

theorem netLoop_early {t j : ℕ} {buf nmoved : ℤ} (hbuf : buf + nmoved = t - j) (ht : t < size)
    (hn : 0 < n) (hj : t < j) :
    netLoop move size (.moved n :: rest) buf nmoved (size - t) s = .error .memory := by
  have hmax : 0 < maxTransfer := by decide
  rw [netLoop, if_pos (by omega), hbuf]
  dsimp only
  rw [if_pos (by omega)]

/-! ## Whole runs -/

@[simp] theorem movedBytes_nil : movedBytes [] = 0 := rfl

@[simp] theorem retries_nil : retries [] = 0 := rfl

@[simp] theorem movedBytes_cons (result : CallResult) (results : List CallResult) :
    movedBytes (result :: results) = result.bytes + movedBytes results := rfl

@[simp] theorem retries_cons (result : CallResult) (results : List CallResult) :
    retries (result :: results) = result.retry + retries results := rfl

theorem movedBytes_append (before after : List CallResult) :
    movedBytes (before ++ after) = movedBytes before + movedBytes after := by
  rw [movedBytes, List.map_append, List.sum_append]
  rfl

/-- A call that moves bytes comes when more calls than these have been repeated. -/
def Early (t j : ℕ) (results : List CallResult) : Prop :=
  ∃ before n after, results = before ++ .moved n :: after ∧ 0 < n ∧
    t + movedBytes before < j + retries before

theorem Early.cons {t j : ℕ} (h : Early (t + result.bytes) (j + result.retry) results) :
    Early t j (result :: results) := by
  obtain ⟨before, n, after, rfl, hn, hlt⟩ := h
  refine ⟨result :: before, n, after, rfl, hn, ?_⟩
  rw [movedBytes_cons, retries_cons]
  omega

/-- What the moves and the repeated calls keep holds behind any number of results, unless a byte
goes to a place in front of the block. -/
theorem netLoop_run {P : ℕ → ℕ → σ → Prop}
    (hmove : ∀ t j n s, P t j s → j ≤ t → 0 < n → t + n ≤ size → P (t + n) j (move (t - j) n s))
    (hretry : ∀ t j s, t < size → P t j s → P t (j + 1) s) (rest : List CallResult) {t j : ℕ}
    {buf nmoved : ℤ} (hstops : ∀ result ∈ before, ¬result.Stops)
    (hpending : t + movedBytes before < size) (hbuf : buf + nmoved = t - j) (hs : P t j s) :
    (netLoop move size (before ++ rest) buf nmoved (size - t) s = .error .memory ∧
      Early t j before) ∨
    ∃ (buf' nmoved' : ℤ) (s' : σ),
      buf' + nmoved' = (t + movedBytes before : ℕ) - (j + retries before : ℕ) ∧
      P (t + movedBytes before) (j + retries before) s' ∧
      netLoop move size (before ++ rest) buf nmoved (size - t) s =
        netLoop move size rest buf' nmoved' (size - (t + movedBytes before)) s' := by
  induction before generalizing t j buf nmoved s with
  | nil => exact .inr ⟨buf, nmoved, s, hbuf, hs, rfl⟩
  | cons result before ih =>
    have hstops' : ∀ r ∈ before, ¬r.Stops := fun r hr => hstops r (List.mem_cons_of_mem _ hr)
    have hgoes : ¬result.Stops := hstops result List.mem_cons_self
    rw [movedBytes_cons] at hpending
    cases result with
    | failed errno =>
      have hretried : errno.Retried := not_not.mp hgoes
      have hstep : buf + nmoved + -1 = t - (j + 1 : ℕ) := by
        rw [hbuf]
        push_cast
        ring
      rw [List.cons_append, netLoop_retried buf nmoved (by omega) hretried]
      have hbytes : (CallResult.failed errno).bytes = 0 := rfl
      have hone : (CallResult.failed errno).retry = 1 := rfl
      rw [hbytes] at hpending
      rcases ih hstops' (by omega) hstep (hretry t j s (by omega) hs) with ⟨hfault, hearly⟩ | hrun
      · exact .inl ⟨hfault, .cons hearly⟩
      · right
        rw [movedBytes_cons, retries_cons, hbytes, hone, zero_add, ← Nat.add_assoc]
        exact hrun
    | moved n =>
      have hn : 0 < n := Nat.pos_of_ne_zero hgoes
      by_cases hj : j ≤ t
      · obtain ⟨k, hk, hpos, hle, hloop⟩ := netLoop_moved (before ++ rest) s hbuf
          (by omega : t < size) hn hj
        have hbytes : (CallResult.moved n).bytes = k := by
          rw [hk, CallResult.bytes]
          have hfit : (CallResult.moved n).bytes < size - t := by omega
          rw [CallResult.bytes] at hfit
          omega
        have hzero : (CallResult.moved n).retry = 0 := rfl
        have hstep : (t - j : ℤ) + k = (t + k : ℕ) - j := by
          push_cast
          ring
        rw [hbytes] at hpending
        rw [List.cons_append, hloop]
        have hmoved := hmove t j k s hs hj hpos hle
        rcases ih hstops' (by omega) hstep hmoved with ⟨hfault, hearly⟩ | hrun
        · exact .inl ⟨hfault, .cons (by rw [hbytes]; exact hearly)⟩
        · right
          rw [movedBytes_cons, retries_cons, hbytes, hzero, zero_add, ← Nat.add_assoc]
          exact hrun
      · left
        have hlt : t < j := Nat.lt_of_not_le hj
        refine ⟨netLoop_early hbuf (by omega) hn hlt, [], n, before, rfl, hn, ?_⟩
        rw [movedBytes_nil, retries_nil]
        omega

/-- Whether the loop ends, and at which result. -/
theorem results_cases (hsize : 0 < size) (results : List CallResult) :
    Pending size results ∨ StopsFirst size results ∨
      ∃ before n after, results = before ++ .moved n :: after ∧ Pending size before ∧ 0 < n ∧
        size ≤ movedBytes before + min n maxTransfer := by
  induction results using List.reverseRecOn with
  | nil => exact .inl ⟨nofun, hsize⟩
  | append_singleton results result ih =>
    rcases ih with hpending | ⟨before, stop, after, rfl, hpending, hstop⟩ |
        ⟨before, n, after, rfl, hpending, hn, hle⟩
    · by_cases hstop : result.Stops
      · exact .inr (.inl ⟨results, result, [], rfl, hpending, hstop⟩)
      by_cases hlast : size ≤ movedBytes results + result.bytes
      · cases result with
        | failed errno => exact absurd hpending.2 (Nat.not_lt_of_le hlast)
        | moved n =>
          exact .inr (.inr ⟨results, n, [], rfl, hpending, Nat.pos_of_ne_zero hstop, hlast⟩)
      · left
        refine ⟨fun r hr => ?_, ?_⟩
        · rcases List.mem_append.mp hr with hr | hr
          · exact hpending.1 r hr
          · rwa [List.mem_singleton.mp hr]
        · rw [movedBytes_append, movedBytes_cons, movedBytes_nil]
          omega
    · exact .inr (.inl ⟨before, stop, after ++ [result], by simp, hpending, hstop⟩)
    · exact .inr (.inr ⟨before, n, after ++ [result], by simp, hpending, hn, hle⟩)

theorem Pending.left (h : Pending size (before ++ after)) : Pending size before := by
  refine ⟨fun result hresult => h.1 result (List.mem_append_left after hresult), ?_⟩
  have hlt := h.2
  rw [movedBytes_append] at hlt
  omega

theorem Undisturbed.not_early (h : Undisturbed size (before ++ rest))
    (hpending : Pending size before) : ¬Early 0 0 before := by
  rintro ⟨first, n, after, rfl, hn, hlt⟩
  have hsplit : first ++ .moved n :: after ++ rest = first ++ .moved n :: (after ++ rest) := by
    rw [List.append_assoc, List.cons_append]
  have hle := (h first n (after ++ rest) hsplit hpending.left hn).1
  omega

/-- The loop behind results that leave it pending. -/
theorem netLoop_pending {P : ℕ → ℕ → σ → Prop}
    (hmove : ∀ t j n s, P t j s → j ≤ t → 0 < n → t + n ≤ size → P (t + n) j (move (t - j) n s))
    (hretry : ∀ t j s, t < size → P t j s → P t (j + 1) s) (rest : List CallResult)
    (hpending : Pending size before) (hs : P 0 0 s) :
    (netLoop move size (before ++ rest) 0 0 size s = .error .memory ∧ Early 0 0 before) ∨
    ∃ (buf nmoved : ℤ) (s' : σ), buf + nmoved = (movedBytes before : ℕ) - (retries before : ℕ) ∧
      P (movedBytes before) (retries before) s' ∧
      netLoop move size (before ++ rest) 0 0 size s =
        netLoop move size rest buf nmoved (size - movedBytes before) s' := by
  have hbuf : (0 : ℤ) + 0 = (0 : ℕ) - (0 : ℕ) := by simp
  have hrun := netLoop_run hmove hretry rest hpending.1 (by rw [zero_add]; exact hpending.2)
    hbuf hs
  simpa only [zero_add, Nat.sub_zero] using hrun

/-- The call that moves the last bytes. -/
theorem netLoop_last {P : ℕ → ℕ → σ → Prop} (rest : List CallResult)
    (hmove : ∀ t j n s, P t j s → j ≤ t → 0 < n → t + n ≤ size → P (t + n) j (move (t - j) n s))
    {t j : ℕ} {buf nmoved : ℤ} (hbuf : buf + nmoved = t - j) (ht : t < size) (hn : 0 < n)
    (hj : j ≤ t) (hlast : size ≤ t + min n maxTransfer) (hs : P t j s) :
    ∃ s', netLoop move size (.moved n :: rest) buf nmoved (size - t) s = .ok (some true, s') ∧
      P size j s' := by
  obtain ⟨k, hk, hpos, hle, hloop⟩ := netLoop_moved rest s hbuf ht hn hj
  have hsize : t + k = size := by omega
  have hdone := hmove t j k s hs hj hpos hle
  rw [hsize] at hdone hloop
  rw [hloop, Nat.sub_self, netLoop_zero]
  exact ⟨_, rfl, hdone⟩

theorem netLoop_of_undisturbed {P : ℕ → ℕ → σ → Prop}
    (hmove : ∀ t j n s, P t j s → j ≤ t → 0 < n → t + n ≤ size → P (t + n) j (move (t - j) n s))
    (hretry : ∀ t j s, t < size → P t j s → P t (j + 1) s) (h : Undisturbed size results)
    (hs : P 0 0 s) :
    ∃ status s', netLoop move size results 0 0 size s = .ok (status, s') ∧
      (status = some true → P size 0 s') ∧ (StopsFirst size results → status = some false) := by
  rcases Nat.eq_zero_or_pos size with rfl | hsize
  · refine ⟨_, s, netLoop_zero move 0 results 0 0 s, fun _ => hs, ?_⟩
    rintro ⟨_, _, _, -, hpending, -⟩
    exact absurd hpending.2 (Nat.not_lt_zero _)
  by_cases hstops : StopsFirst size results
  · obtain ⟨before, stop, after, rfl, hpending, hstop⟩ := hstops
    rcases netLoop_pending hmove hretry (stop :: after) hpending hs with ⟨-, hearly⟩ |
        ⟨buf, nmoved, s', -, -, hrun⟩
    · exact absurd hearly (h.not_early hpending)
    have hlt := hpending.2
    obtain ⟨s₁, hstopped⟩ := netLoop_stopped after s' buf nmoved
      (Nat.sub_pos_of_lt hlt) hstop
    exact ⟨_, s₁, hrun.trans hstopped, nofun, fun _ => rfl⟩
  rcases results_cases hsize results with hpending | hstops' |
      ⟨before, n, after, rfl, hpending, hn, hlast⟩
  · rcases netLoop_pending hmove hretry [] hpending hs with ⟨-, hearly⟩ |
        ⟨buf, nmoved, s', -, -, hrun⟩
    · rw [← List.append_nil results] at h
      exact absurd hearly (h.not_early hpending)
    have hlt := hpending.2
    rw [List.append_nil, netLoop_nil buf nmoved (Nat.sub_pos_of_lt hlt)] at hrun
    exact ⟨_, s', hrun, nofun, fun hfirst => absurd hfirst hstops⟩
  · exact absurd hstops' hstops
  · obtain ⟨hle, hnone⟩ := h before n after rfl hpending hn
    rcases netLoop_pending hmove hretry (.moved n :: after) hpending hs with ⟨-, hearly⟩ |
        ⟨buf, nmoved, s', hbuf, hs', hrun⟩
    · exact absurd hearly (h.not_early hpending)
    obtain ⟨s₁, hdone, hs₁⟩ := netLoop_last after hmove hbuf hpending.2 hn hle hlast hs'
    rw [hnone hlast] at hs₁
    exact ⟨_, s₁, hrun.trans hdone, fun _ => hs₁, fun hfirst => absurd hfirst hstops⟩

/-- Otherwise a byte goes to a place in front of the block, or 1 is returned after a repeated
call. -/
theorem netLoop_of_disturbed {P : ℕ → ℕ → σ → Prop}
    (hmove : ∀ t j n s, P t j s → j ≤ t → 0 < n → t + n ≤ size → P (t + n) j (move (t - j) n s))
    (hretry : ∀ t j s, t < size → P t j s → P t (j + 1) s) (h : ¬Undisturbed size results)
    (hs : P 0 0 s) :
    netLoop move size results 0 0 size s = .error .memory ∨
      ∃ j s', netLoop move size results 0 0 size s = .ok (some true, s') ∧ 0 < j ∧ 0 < size ∧
        P size j s' := by
  unfold Undisturbed at h
  push Not at h
  obtain ⟨before, n, after, rfl, hpending, hn, hfails⟩ := h
  rcases netLoop_pending hmove hretry (.moved n :: after) hpending hs with ⟨hfault, -⟩ |
      ⟨buf, nmoved, s', hbuf, hs', hrun⟩
  · exact .inl hfault
  by_cases hle : retries before ≤ movedBytes before
  · obtain ⟨hlast, hsome⟩ := hfails hle
    obtain ⟨s₁, hdone, hs₁⟩ := netLoop_last after hmove hbuf hpending.2 hn hle hlast hs'
    have hlt := hpending.2
    exact .inr ⟨_, s₁, hrun.trans hdone, Nat.pos_of_ne_zero hsome, by omega, hs₁⟩
  · exact .inl (hrun.trans (netLoop_early hbuf hpending.2 hn (Nat.lt_of_not_le hle)))

/-! ## The bytes of the block -/

theorem readsExactly_of_undisturbed {len : ℕ} (h : Undisturbed len results) :
    ReadsExactly len results := by
  intro stream buf
  let P (t j : ℕ) (s : Mem × ℕ) : Prop := j = 0 → Holds s.1 0 (slice stream 0 t) ∧ s.2 = t
  have hmove : ∀ t j n s, P t j s → j ≤ t → 0 < n → t + n ≤ len →
      P (t + n) j (readCall stream (t - j) n s) := by
    rintro t j n ⟨b, taken⟩ hs - - - rfl
    obtain ⟨hholds, rfl⟩ := hs rfl
    have hstore := hholds.store_append (slice stream taken n)
    rw [length_slice, zero_add] at hstore
    rw [readCall, Nat.cast_zero, sub_zero, slice_add, zero_add]
    exact ⟨hstore, rfl⟩
  have hretry : ∀ t j s, t < len → P t j s → P t (j + 1) s :=
    fun t j s _ _ hzero => absurd hzero (Nat.succ_ne_zero j)
  obtain ⟨status, ⟨buf', taken⟩, hrun, hdone, hstops⟩ :=
    netLoop_of_undisturbed hmove hretry h (s := (buf, 0)) fun _ => ⟨holds_nil buf 0, rfl⟩
  exact ⟨status, buf', taken, hrun, fun hone => hdone hone rfl, hstops⟩

theorem writesExactly_of_undisturbed {len : ℕ} (h : Undisturbed len results) :
    WritesExactly len results := by
  intro buf
  let P (t j : ℕ) (out : List UInt8) : Prop := j = 0 → out = slice buf 0 t
  have hmove : ∀ t j n out, P t j out → j ≤ t → 0 < n → t + n ≤ len →
      P (t + n) j (writeCall buf (t - j) n out) := by
    rintro t j n out hout - - - rfl
    rw [hout rfl, writeCall, Nat.cast_zero, sub_zero, slice_add, zero_add]
  have hretry : ∀ t j out, t < len → P t j out → P t (j + 1) out :=
    fun t j out _ _ hzero => absurd hzero (Nat.succ_ne_zero j)
  obtain ⟨status, out, hrun, hdone, hstops⟩ :=
    netLoop_of_undisturbed hmove hretry h (s := []) fun _ => rfl
  exact ⟨status, out, hrun, fun hone => hdone hone rfl, hstops⟩

/-- After a repeated call nothing is stored to the last place of the block. -/
theorem not_readsExactly {len : ℕ} (h : ¬Undisturbed len results) : ¬ReadsExactly len results := by
  intro hreads
  obtain ⟨status, buf', taken, hok, hone, -⟩ := hreads (fun _ => 1) (fun _ => 0)
  let P (t j : ℕ) (s : Mem × ℕ) : Prop := t < len ∨ 0 < j → s.1 (len - 1) = 0
  have hmove : ∀ t j n s, P t j s → j ≤ t → 0 < n → t + n ≤ len →
      P (t + n) j (readCall (fun _ => 1) (t - j) n s) := by
    rintro t j n ⟨b, taken⟩ hs hj hn hle hbefore
    rw [readCall]
    dsimp only
    rw [store_of_ge _ (by rw [length_slice]; omega)]
    exact hs (by omega)
  have hretry : ∀ t j s, t < len → P t j s → P t (j + 1) s :=
    fun t j s hlt hs _ => hs (.inl hlt)
  rcases netLoop_of_disturbed hmove hretry h (s := (fun _ => 0, 0)) fun _ => rfl with
    hfault | ⟨j, s', hrun, hj, hlen, hs'⟩
  · cases hok.symm.trans hfault
  · cases hok.symm.trans hrun
    have hlast : buf' (len - 1) = 0 := hs' (.inr hj)
    have hget := (hone rfl).1.getElem (i := len - 1) (by rw [length_slice]; omega)
    rw [getElem_slice, Nat.cast_pred hlen, zero_add, hlast] at hget
    exact absurd hget (by decide)

/-- A block of zeros with a one at its last place. -/
def oneLast (len : ℕ) : Mem := fun i => if i = len - 1 then 1 else 0

/-- After a repeated call the last place of the block is not written. -/
theorem not_writesExactly {len : ℕ} (h : ¬Undisturbed len results) :
    ¬WritesExactly len results := by
  intro hwrites
  obtain ⟨status, out, hok, hone, -⟩ := hwrites (oneLast len)
  let P (t j : ℕ) (out : List UInt8) : Prop := t < len ∨ 0 < j → ∀ b ∈ out, b = 0
  have hmove : ∀ t j n out, P t j out → j ≤ t → 0 < n → t + n ≤ len →
      P (t + n) j (writeCall (oneLast len) (t - j) n out) := by
    intro t j n out hout hj hn hle hbefore b hb
    rcases List.mem_append.mp hb with hb | hb
    · exact hout (by omega) b hb
    · obtain ⟨i, hi, rfl⟩ := List.mem_iff_getElem.mp hb
      rw [length_slice] at hi
      rw [getElem_slice, oneLast, if_neg (by omega)]
  have hretry : ∀ t j out, t < len → P t j out → P t (j + 1) out :=
    fun t j out hlt hout _ => hout (.inl hlt)
  rcases netLoop_of_disturbed hmove hretry h (s := []) (fun _ => nofun) with
    hfault | ⟨j, out', hrun, hj, hlen, hout⟩
  · cases hok.symm.trans hfault
  · cases hok.symm.trans hrun
    have hmem : (1 : UInt8) ∈ out := by
      rw [hone rfl]
      refine List.mem_iff_getElem.mpr ⟨len - 1, by rw [length_slice]; omega, ?_⟩
      rw [getElem_slice, oneLast, if_pos (by omega)]
    exact absurd (hout (.inr hj) 1 hmem) (by decide)

/-! ## When the bytes are the right ones -/

theorem netTransfers_iff (len : ℕ) (results : List CallResult) :
    (ReadsExactly len results ↔ Undisturbed len results) ∧
      (WritesExactly len results ↔ Undisturbed len results) := by
  refine ⟨⟨fun h => ?_, readsExactly_of_undisturbed⟩, ⟨fun h => ?_, writesExactly_of_undisturbed⟩⟩
  · by_contra hnot
    exact not_readsExactly hnot h
  · by_contra hnot
    exact not_writesExactly hnot h

/-- A byte, a call to be repeated, and another byte. -/
theorem interrupted_transfers : ∃ results,
    ¬ReadsExactly 2 results ∧ ¬WritesExactly 2 results := by
  refine ⟨[.moved 1, .failed .again, .moved 1], fun hreads => ?_, fun hwrites => ?_⟩
  · obtain ⟨status, buf', taken, hok, hone, -⟩ := hreads (fun _ => 1) (fun _ => 0)
    cases hok
    exact absurd (hone rfl).1 (by decide)
  · obtain ⟨status, out, hok, hone, -⟩ := hwrites (oneLast 2)
    cases hok
    exact absurd (hone rfl) (by decide)

end LibBinlog
