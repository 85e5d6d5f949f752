import LibBinlog.EncodedLog
import LibBinlog.OwnedDrivers
import LibBinlog.OwnedFetch
import Mathlib.Algebra.Order.BigOperators.Group.Finset
import Mathlib.Data.List.ReduceOption

/-!
# A caller and its rows

A caller fetches rows and frees rows that it was given, in any order. It is careful if it frees no
row twice and none that came before the client last filled its array: up to then the pointers lead
to the rows they were given for. A call that finds no row fills nothing. What a careful caller does
is free of memory faults of its own, and at every time what is allocated is what the client owns and
the rows that the caller has not freed.
-/

namespace LibBinlog.Owned

open Machine Memory Ledger Calls

variable {σ : Type} {drv : BufferingDriver σ}

/-- Rows are counted from the first call on, calls without a row too. -/
inductive Action
  | fetch
  | free (i : ℕ)
  deriving DecidableEq, Repr

/-! ## On values -/

/-- `since` is the first of the answers from the rows that are in the array. -/
structure Caller (σ : Type) where
  client : BinlogClient σ
  answers : List (Option BinlogRow)
  unfreed : Finset ℕ
  since : ℕ

namespace Caller

def start (bc : BinlogClient σ) : Caller σ := ⟨bc, [], ∅, 0⟩

def act (drv : Driver σ) (c : Caller σ) : Action → Except Fault (Caller σ)
  | .fetch => do
    let (row, bc) ← LibBinlog.fetchOne drv c.client
    .ok {
      client := bc
      answers := c.answers ++ [row]
      unfreed := insert c.answers.length c.unfreed
      since := if Refills c.client row then c.answers.length else c.since }
  | .free i => .ok { c with unfreed := c.unfreed.erase i }

def run (drv : Driver σ) : List Action → Caller σ → Except Fault (Caller σ)
  | [], c => .ok c
  | a :: acts, c => do
    let c ← c.act drv a
    run drv acts c

def Permits (c : Caller σ) : Action → Prop
  | .fetch => True
  | .free i => i ∈ c.unfreed ∧ c.since ≤ i

def Careful (drv : Driver σ) : List Action → Caller σ → Prop
  | [], _ => True
  | a :: acts, c => c.Permits a ∧ ∀ c', c.act drv a = .ok c' → Careful drv acts c'

end Caller

/-! ## In memory -/

structure Session (σ : Type) where
  client : HeldClient σ
  answers : List (Option (RowPtr × HeldBinlogRow))
  unfreed : Finset ℕ

namespace Session

def start (bc : HeldClient σ) : Session σ := ⟨bc, [], ∅⟩

def act (drv : BufferingDriver σ) (c : Session σ) : Action → HeapM Fault (Session σ)
  | .fetch => do
    let (row, bc) ← fetchOne drv c.client
    pure {
      client := bc
      answers := c.answers ++ [row]
      unfreed := insert c.answers.length c.unfreed }
  | .free i => do
    freeBinlogRow c.client ((c.answers.getD i none).map Prod.fst)
    pure { c with unfreed := c.unfreed.erase i }

def run (drv : BufferingDriver σ) : List Action → Session σ → HeapM Fault (Session σ)
  | [], c => pure c
  | a :: acts, c => do
    let c ← c.act drv a
    run drv acts c

/-- The rows that the caller has been given and has not freed. -/
def unfreedBlocks (c : Session σ) : Multiset Block :=
  ∑ i ∈ c.unfreed, answerBlocks (c.answers.getD i none)

def blocks (c : Session σ) : Multiset Block := c.client.blocks + c.unfreedBlocks

/-- The session is the caller's on values, and what may be freed is where its pointer leads. -/
structure Matches (b : Session σ) (a : Caller σ) : Prop where
  client : b.client.erase = a.client
  answers : b.answers.map (Option.map fun row => row.2.erase) = a.answers
  unfreed : b.unfreed = a.unfreed
  known : ∀ i ∈ b.unfreed, i < b.answers.length
  holds : ∃ rows, b.client.Holds rows
  leads : ∀ i, a.since ≤ i → ∀ p br, b.answers[i]? = some (some (p, br)) →
    b.client.rowAt p = some br ∧ br.Fits
  mapped : ∀ (i : ℕ) (p : RowPtr) (br : HeldBinlogRow), b.answers[i]? = some (some (p, br)) →
    Mapped b.client.binlog br.row.cells.length

end Session

variable {b : Session σ} {a : Caller σ}

theorem Session.Matches.answer (h : b.Matches a) {i : ℕ} {row : BinlogRow}
    (hrow : a.answers[i]? = some (some row)) :
    ∃ p br, b.answers[i]? = some (some (p, br)) ∧ br.erase = row := by
  rw [← h.answers, List.getElem?_map] at hrow
  obtain ⟨answer, hanswer, hsome⟩ := Option.map_eq_some_iff.mp hrow
  obtain ⟨⟨p, br⟩, rfl, herase⟩ := Option.map_eq_some_iff.mp hsome
  exact ⟨p, br, hanswer, herase⟩

theorem unfreedBlocks_fetch (h : ∀ i ∈ b.unfreed, i < b.answers.length) (bc : HeldClient σ)
    (row : Option (RowPtr × HeldBinlogRow)) :
    Session.unfreedBlocks ⟨bc, b.answers ++ [row], insert b.answers.length b.unfreed⟩ =
      answerBlocks row + b.unfreedBlocks := by
  have hnew : b.answers.length ∉ b.unfreed := fun hmem => lt_irrefl _ (h _ hmem)
  unfold Session.unfreedBlocks
  rw [Finset.sum_insert hnew]
  congr 1
  · simp
  · apply Finset.sum_congr rfl
    intro i hi
    rw [List.getD_append _ _ _ _ (h i hi)]

theorem unfreedBlocks_free {i : ℕ} (hi : i ∈ b.unfreed) :
    answerBlocks (b.answers.getD i none) +
      Session.unfreedBlocks { b with unfreed := b.unfreed.erase i } = b.unfreedBlocks :=
  Finset.add_sum_erase _ _ hi

theorem Session.Matches.fetch (h : b.Matches a) (s : Multiset Block) :
    Tracks (b.blocks + s) (b.act drv .fetch) (a.act drv.toDriver .fetch) Session.Matches
      fun b => b.blocks + s := by
  obtain ⟨rows, hholds⟩ := h.holds
  unfold Session.act Caller.act
  have hblocks : b.client.blocks + (b.unfreedBlocks + s) = b.blocks + s := (add_assoc _ _ _).symm
  rw [← hblocks, ← h.client]
  apply (fetchOne_tracks hholds _).bind
  · intro e he
    rw [he]
    rfl
  rintro ⟨row, bc⟩ ⟨row', bc'⟩ ⟨hfetched, hkeeps, hstays⟩ hfetch
  rw [hfetch]
  have hrow := hfetched.row
  have hclient := hfetched.client
  dsimp only at hrow hclient hkeeps hstays ⊢
  subst hrow hclient
  have hlength : a.answers.length = b.answers.length := by
    rw [← h.answers, List.length_map]
  have hlast {i : ℕ} {row'' : Option (RowPtr × HeldBinlogRow)} (hi : ¬i < b.answers.length)
      (hanswer : (b.answers ++ [row])[i]? = some row'') : row = row'' := by
    have hsome := (List.getElem?_eq_some_iff.mp hanswer).1
    rw [List.length_append, List.length_singleton] at hsome
    have heq : i = b.answers.length := by omega
    rw [heq, List.getElem?_concat_length] at hanswer
    exact Option.some.inj hanswer
  refine tracks_pure _ rfl ⟨rfl, ?_, ?_, ?_, hfetched.holds, ?_, ?_⟩ ?_
  · rw [List.map_append, h.answers]
    rfl
  · rw [hlength, h.unfreed]
  · intro i hi
    rw [List.length_append]
    obtain rfl | hmem := Finset.mem_insert.mp hi
    · exact Nat.lt_succ_self _
    · exact (h.known i hmem).trans_le (Nat.le_add_right _ _)
  · intro i hsince p br hanswer
    dsimp only at hsince hanswer
    by_cases hi : i < b.answers.length
    · -- an older row: the array has not been filled since
      rw [List.getElem?_append_left hi] at hanswer
      split_ifs at hsince with hrefills
      · omega
      · have hleads := h.leads i hsince p br hanswer
        refine ⟨?_, hleads.2⟩
        rw [← hleads.1, HeldClient.rowAt, HeldClient.rowAt, hstays hrefills]
    · exact hfetched.leads p br (hlast hi hanswer)
  · intro i p br hanswer
    dsimp only at hanswer
    by_cases hi : i < b.answers.length
    · rw [List.getElem?_append_left hi] at hanswer
      exact (h.mapped i p br hanswer).keeps hkeeps
    · exact hfetched.mapped p br (hlast hi hanswer)
  · rw [Session.blocks, unfreedBlocks_fetch h.known]
    dsimp only
    abel

theorem Session.Matches.free (h : b.Matches a) {i : ℕ} (hpermits : a.Permits (.free i))
    (s : Multiset Block) :
    Tracks (b.blocks + s) (b.act drv (.free i)) (a.act drv.toDriver (.free i)) Session.Matches
      fun b => b.blocks + s := by
  obtain ⟨hunfreed, hsince⟩ := hpermits
  rw [← h.unfreed] at hunfreed
  have hi := h.known i hunfreed
  have hget : b.answers[i]? = some (b.answers.getD i none) := by
    rw [List.getD_eq_getElem?_getD, List.getElem?_eq_getElem hi]
    rfl
  have hleads (p : RowPtr) (br : HeldBinlogRow) (hrow : b.answers.getD i none = some (p, br)) :
      b.client.rowAt p = some br ∧ br.Fits :=
    h.leads i hsince p br (by rw [hget, hrow])
  unfold Session.act Caller.act
  have hblocks : b.client.blocks + answerBlocks (b.answers.getD i none) +
      (Session.unfreedBlocks { b with unfreed := b.unfreed.erase i } + s) = b.blocks + s := by
    rw [Session.blocks, ← unfreedBlocks_free hunfreed]
    abel
  rw [← hblocks]
  apply (freeAnswer_tracks hleads _).then rfl
  intro _ _
  refine tracks_pure _ rfl ⟨h.client, h.answers, ?_, ?_, h.holds, h.leads, h.mapped⟩ ?_
  · rw [h.unfreed]
  · intro j hj
    exact h.known j (Finset.mem_of_mem_erase hj)
  · exact (add_assoc _ _ _).symm

/-- Every step of a careful caller. -/
theorem Session.Matches.act (h : b.Matches a) {action : Action} (hpermits : a.Permits action)
    (s : Multiset Block) :
    Tracks (b.blocks + s) (b.act drv action) (a.act drv.toDriver action) Session.Matches
      fun b => b.blocks + s := by
  cases action with
  | fetch => exact h.fetch s
  | free i => exact h.free hpermits s

theorem Session.Matches.run (h : b.Matches a) {acts : List Action}
    (hcareful : a.Careful drv.toDriver acts) (s : Multiset Block) :
    Tracks (b.blocks + s) (b.run drv acts) (a.run drv.toDriver acts) Session.Matches
      fun b => b.blocks + s := by
  induction acts generalizing b a with
  | nil => exact tracks_pure _ rfl h rfl
  | cons action acts ih =>
    obtain ⟨hpermits, hrest⟩ := hcareful
    unfold Session.run Caller.run
    apply (h.act hpermits s).bind
    · intro e he
      rw [he]
      rfl
    intro b' a' h' hact
    rw [hact]
    exact ih h' (hrest a' hact)

namespace Session

theorem matches_start {bc : HeldClient σ} (h : bc.Holds []) :
    (start bc).Matches (.start bc.erase) :=
  ⟨rfl, rfl, rfl, fun i hi => absurd hi (Finset.notMem_empty i), ⟨[], h⟩,
    fun i _ p br hbr => (by cases hbr), fun i p br hbr => (by cases hbr)⟩

theorem blocks_start (bc : HeldClient σ) : (start bc).blocks = bc.blocks := add_zero _

end Session

/-! ## The documented use -/

/-- Each row is freed before the next is fetched. -/
def fetchAndFree : ℕ → ℕ → List Action
  | _, 0 => []
  | i, n + 1 => .fetch :: .free i :: fetchAndFree (i + 1) n

theorem act_fetch_ok {drv : Driver σ} {c c' : Caller σ} :
    c.act drv .fetch = .ok c' ↔ ∃ row bc, LibBinlog.fetchOne drv c.client = .ok (row, bc) ∧
      c' = ⟨bc, c.answers ++ [row], insert c.answers.length c.unfreed,
        if Refills c.client row then c.answers.length else c.since⟩ := by
  unfold Caller.act
  cases LibBinlog.fetchOne drv c.client with
  | error e => exact ⟨fun h => (by cases h), fun ⟨_, _, h, _⟩ => (by cases h)⟩
  | ok r =>
    obtain ⟨row, bc⟩ := r
    constructor
    · intro h
      cases h
      exact ⟨row, bc, rfl, rfl⟩
    · rintro ⟨_, _, h, rfl⟩
      cases h
      rfl

/-- It is careful, whatever the source is. -/
theorem careful_fetchAndFree (drv : Driver σ) (n : ℕ) {c : Caller σ}
    (h : c.since ≤ c.answers.length) :
    Caller.Careful drv (fetchAndFree c.answers.length n) c := by
  induction n generalizing c with
  | zero => trivial
  | succ n ih =>
    refine ⟨trivial, fun c' hfetch => ?_⟩
    obtain ⟨row, bc, -, rfl⟩ := act_fetch_ok.mp hfetch
    have hsince : (if Refills c.client row then c.answers.length else c.since) ≤
        c.answers.length := by
      split_ifs
      · exact le_rfl
      · exact h
    refine ⟨⟨Finset.mem_insert_self _ _, hsince⟩, fun c'' hfree => ?_⟩
    cases hfree
    have hlength : (c.answers ++ [row]).length = c.answers.length + 1 := List.length_append
    have hnext := ih (c := ⟨bc, c.answers ++ [row],
      (insert c.answers.length c.unfreed).erase c.answers.length, _⟩)
      (hsince.trans (hlength ▸ Nat.le_succ _))
    rw [← hlength]
    exact hnext

/-- It answers as the calls do, and every row is freed. -/
theorem run_fetchAndFree {drv : Driver σ} {n : ℕ} {c : Caller σ} {answers : List (Option BinlogRow)}
    {bc : BinlogClient σ} (h : calls (LibBinlog.fetchOne drv) n c.client = .ok (answers, bc))
    (hnone : c.unfreed = ∅) :
    ∃ since, Caller.run drv (fetchAndFree c.answers.length n) c =
      .ok ⟨bc, c.answers ++ answers, ∅, since⟩ := by
  induction n generalizing c answers with
  | zero =>
    cases h
    obtain ⟨client, given, unfreed, since⟩ := c
    subst hnone
    exact ⟨since, by rw [List.append_nil]; rfl⟩
  | succ n ih =>
    obtain ⟨row, mid, rows, hfetch, hrest, rfl⟩ := calls_succ_ok.mp h
    have hact := act_fetch_ok.mpr ⟨row, mid, hfetch, rfl⟩
    have hlength : (c.answers ++ [row]).length = c.answers.length + 1 := List.length_append
    have herase : (insert c.answers.length c.unfreed).erase c.answers.length = ∅ := by
      rw [hnone]
      exact Finset.erase_insert (Finset.notMem_empty _)
    obtain ⟨since, hrun⟩ := ih (c := ⟨mid, c.answers ++ [row],
      (insert c.answers.length c.unfreed).erase c.answers.length, _⟩) hrest herase
    refine ⟨since, ?_⟩
    rw [hlength, List.append_assoc] at hrun
    unfold fetchAndFree Caller.run
    rw [hact]
    exact hrun

/-! ## From connecting to closing -/

/-- What a client that was asked for owns. -/
def clientBlocks : Except FailedClient (HeldClient σ) → Multiset Block
  | .error failed => {failed.self} + failed.lost
  | .ok bc => bc.blocks

/-- What is left of it when it is freed. -/
def leftBlocks : Except FailedClient (HeldClient σ) → Multiset Block
  | .error failed => failed.lost
  | .ok bc => bc.binlog.blocks + bc.lost + keptBlocks bc.unfetched

/-- A client on values, or the error text of one that is not connected. -/
def Connected : Except FailedClient (HeldClient σ) →
    Except (List UInt8) (BinlogClient σ) → Prop
  | .error failed, .error text => failed.errstr = text
  | .ok bc, .ok bc' => bc.erase = bc' ∧ bc.Holds []
  | _, _ => False

theorem connectDataSource_tracks (drv : BufferingDriver σ) (ds : Option (DataSource σ))
    (position index : ℕ) (serverid : ℤ) (s : Multiset Block) :
    Tracks s (connectDataSource drv ds position index serverid)
      (LibBinlog.connectDataSource drv.toDriver ds position index serverid) Connected
      fun b => clientBlocks b + s := by
  unfold connectDataSource LibBinlog.connectDataSource
  apply (tracks_alloc s).then rfl
  intro self _
  apply (tracks_alloc _).then rfl
  intro source _
  cases ds with
  | none =>
    refine tracks_pure _ rfl rfl ?_
    simp only [clientBlocks, Multiset.coe_singleton]
    abel
  | some ds =>
    apply (tracks_alloc _).then rfl
    intro url _
    dsimp only
    apply Tracks.lift_bind
    · intro e he
      rw [he]
    rintro ⟨connected, ds'⟩ hconnect
    rw [hconnect]
    apply (tracks_allocs _ _).then rfl
    intro lost _
    cases connected with
    | true =>
      refine tracks_pure _ rfl ⟨rfl, le_rfl, le_rfl, rfl, fun br hbr => ?_, fun br hbr => ?_⟩ ?_
      · cases hbr
      · cases hbr
      · simp only [clientBlocks, HeldClient.blocks, HeldClient.fixedBlocks, HeldClient.unfetched,
          HeldClient.slots, HeldBinlog.blocks, HeldBinlog.zero, Option.elim_none, Option.map_none,
          Option.toList_none, Multiset.coe_nil, List.take_nil, List.drop_nil,
          List.reduceOption_nil, keptBlocks_nil]
        abel
    | false =>
      refine tracks_pure _ rfl rfl ?_
      simp only [clientBlocks, ← Multiset.cons_coe, ← Multiset.singleton_add]
      abel

/-- From connecting on, and whatever a careful caller does, the client in memory does what it does
on values: it faults alike, gives the same rows, and the pointers that may be freed lead to them.
What is allocated at any time is what the client owns and the rows that are not freed. -/
theorem session_accounted (drv : BufferingDriver σ) {ds : Option (DataSource σ)}
    {position index : ℕ} {serverid : ℤ} {bc : BinlogClient σ}
    (hconnect : LibBinlog.connectDataSource drv.toDriver ds position index
      serverid = .ok (.ok bc)) {acts : List Action}
    (hcareful : Caller.Careful drv.toDriver acts (.start bc)) :
    ∃ held heap, connectDataSource drv ds position index serverid .empty = .ok (.ok held, heap) ∧
      held.erase = bc ∧
      (∀ e, Caller.run drv.toDriver acts (.start bc) = .error e →
        Session.run drv acts (.start held) heap = .error e) ∧
      ∀ caller, Caller.run drv.toDriver acts (.start bc) = .ok caller → ∃ session heap',
        Session.run drv acts (.start held) heap = .ok (session, heap') ∧ session.Matches caller ∧
          heap'.live.val = session.client.blocks + session.unfreedBlocks := by
  obtain ⟨client, heap, hrun, hconnected, howns⟩ :=
    (connectDataSource_tracks drv ds position index serverid 0 .empty 0 owns_empty).2 _ hconnect
  cases client with
  | error failed => exact hconnected.elim
  | ok held =>
    obtain ⟨rfl, hholds⟩ := hconnected
    have hstart := Session.matches_start hholds
    have howns' : Owns heap ((Session.start held).blocks + 0 + 0) := by
      rw [Session.blocks_start]
      exact howns
    obtain ⟨hfault, hok⟩ := hstart.run hcareful 0 heap 0 howns'
    refine ⟨held, heap, hrun, rfl, hfault, fun caller hcaller => ?_⟩
    obtain ⟨session, heap', hsession, hmatch, hlive⟩ := hok caller hcaller
    simp only [Owns, add_zero] at hlive
    exact ⟨session, heap', hsession, hmatch, hlive⟩

theorem session_accounted_sample : ∃ bc held heap,
    connectDataSource heldFileDriver (some (dsInitWithFile
      (some (fileBytes sampleMagic (streamOf sampleEvents))) (ascii "log.000001") fun _ _ => 0))
        4 0 9 .empty = .ok (.ok held, heap) ∧ held.erase = bc ∧
      ∃ session heap', Session.run heldFileDriver (fetchAndFree 0 2) (.start held) heap =
        .ok (session, heap') ∧
          heap'.live.val = session.client.blocks + session.unfreedBlocks := by
  obtain ⟨bc, hconnect, hfeed, -⟩ := connectDataSource_file sampleMagic (ascii "log.000001") rfl
    (sized_streamOf sampleEvents) (fun _ _ => 0) 4 0 9
  obtain ⟨answers, bc', hcalls, -⟩ :=
    (connectDataSource_ok hconnect).1.fetchesAll sampleEvents_valid hfeed 2
  obtain ⟨since, hcaller⟩ := run_fetchAndFree (c := .start bc) hcalls rfl
  obtain ⟨held, heap, hrun, herase, -, hok⟩ := session_accounted heldFileDriver hconnect
    (careful_fetchAndFree fileDriver 2 (c := .start bc) le_rfl)
  obtain ⟨session, heap', hsession, -, hlive⟩ := hok _ hcaller
  exact ⟨bc, held, heap, hrun, herase, session, heap', hsession, hlive⟩

theorem freeBinlogClient_tracks (client : Except FailedClient (HeldClient σ))
    (s : Multiset Block) :
    Tracks (clientBlocks client + s) (freeBinlogClient client) (.ok ()) Unseen
      fun _ => leftBlocks client + s := by
  cases client with
  | error failed =>
    have hfree := tracks_free Fault.memory failed.self (failed.lost + s)
    rw [← add_assoc] at hfree
    exact hfree
  | ok bc =>
    have hblocks : clientBlocks (.ok bc) + s =
        {bc.url} + ({bc.source} + ((bc._rows.map Prod.fst).toList + ({bc.self} +
          (leftBlocks (.ok bc) + s)))) := by
      simp only [clientBlocks, leftBlocks, HeldClient.blocks, HeldClient.fixedBlocks]
      abel
    rw [hblocks]
    apply (tracks_free _ _ _).then rfl
    intro _ _
    apply (tracks_free _ _ _).then rfl
    intro _ _
    apply (freePtr_tracks _ _).then rfl
    intro _ _
    exact tracks_free _ _ _

/-- Connects, does what the caller does, and frees the client. -/
def life (drv : BufferingDriver σ) (ds : Option (DataSource σ)) (position index : ℕ)
    (serverid : ℤ) (acts : List Action) : HeapM Fault (Except FailedClient (Session σ)) := do
  let client ← connectDataSource drv ds position index serverid
  match client with
  | .error failed => do
    freeBinlogClient (.error failed : Except FailedClient (HeldClient σ))
    pure (.error failed)
  | .ok bc => do
    let session ← Session.run drv acts (.start bc)
    freeBinlogClient (.ok session.client)
    pure (.ok session)

/-- The same on values, where nothing is freed. -/
def Caller.life (drv : Driver σ) (ds : Option (DataSource σ)) (position index : ℕ)
    (serverid : ℤ) (acts : List Action) : Except Fault (Except (List UInt8) (Caller σ)) := do
  let client ← LibBinlog.connectDataSource drv ds position index serverid
  match client with
  | .error text => .ok (.error text)
  | .ok bc => (Caller.run drv acts (.start bc)).map .ok

/-- Whoever is connected is careful from then on. -/
def CarefulOnce (drv : Driver σ) (ds : Option (DataSource σ)) (position index : ℕ)
    (serverid : ℤ) (acts : List Action) : Prop :=
  ∀ bc, LibBinlog.connectDataSource drv ds position index serverid = .ok (.ok bc) →
    Caller.Careful drv acts (.start bc)

/-- What is never freed: of a failed client its data source, of a client the last table map, the
rows that were not fetched or not freed, and what was lost. -/
def lifeLeaks : Except FailedClient (Session σ) → Multiset Block
  | .error failed => failed.lost
  | .ok session => leftBlocks (.ok session.client) + session.unfreedBlocks

def Lived : Except FailedClient (Session σ) → Except (List UInt8) (Caller σ) → Prop
  | .error failed, .error text => failed.errstr = text
  | .ok session, .ok caller => session.Matches caller
  | _, _ => False

theorem life_tracks (drv : BufferingDriver σ) {ds : Option (DataSource σ)} {position index : ℕ}
    {serverid : ℤ} {acts : List Action}
    (hcareful : CarefulOnce drv.toDriver ds position index serverid acts)
    (s : Multiset Block) :
    Tracks s (life drv ds position index serverid acts)
      (Caller.life drv.toDriver ds position index serverid acts) Lived
      fun b => lifeLeaks b + s := by
  apply (connectDataSource_tracks drv ds position index serverid s).bind
  · intro e he
    unfold Caller.life
    rw [he]
    rfl
  intro client value hconnected hvalue
  unfold Caller.life
  rw [hvalue]
  cases client with
  | error failed =>
    cases value with
    | ok bc' => exact hconnected.elim
    | error text =>
      apply (freeBinlogClient_tracks (.error failed : Except FailedClient (HeldClient σ)) s).then
        rfl
      intro _ _
      exact tracks_pure _ rfl hconnected rfl
  | ok bc =>
    cases value with
    | error text => exact hconnected.elim
    | ok bc' =>
      obtain ⟨rfl, hholds⟩ := hconnected
      have hstart := Session.matches_start hholds
      have hblocks : (Session.start bc).blocks + s = clientBlocks (.ok bc) + s :=
        congrArg (· + s) (Session.blocks_start bc)
      rw [← hblocks]
      apply (hstart.run (hcareful bc.erase hvalue) s).bind
      · intro e he
        exact congrArg (Except.map Except.ok) he
      intro session caller hmatch hrun
      have hfree := freeBinlogClient_tracks (.ok session.client) (session.unfreedBlocks + s)
      rw [← add_assoc] at hfree
      apply hfree.then rfl
      intro _ _
      refine tracks_pure _ (congrArg (Except.map Except.ok) hrun) hmatch ?_
      exact (add_assoc _ _ _).symm

/-- After a careful life nothing is allocated but what `lifeLeaks` says, for a client that could not
be connected too. -/
theorem life_accounted (drv : BufferingDriver σ) {ds : Option (DataSource σ)} {position index : ℕ}
    {serverid : ℤ} {acts : List Action}
    (hcareful : CarefulOnce drv.toDriver ds position index serverid acts) :
    (∀ e, Caller.life drv.toDriver ds position index serverid acts = .error e →
      life drv ds position index serverid acts .empty = .error e) ∧
    ∀ value, Caller.life drv.toDriver ds position index serverid acts = .ok value →
      ∃ result heap, life drv ds position index serverid acts .empty = .ok (result, heap) ∧
        Lived result value ∧ heap.live.val = lifeLeaks result := by
  obtain ⟨hfault, hok⟩ := life_tracks drv hcareful 0 .empty 0 owns_empty
  refine ⟨hfault, fun value hvalue => ?_⟩
  obtain ⟨result, heap, hrun, hlived, howns⟩ := hok value hvalue
  simp only [Owns, add_zero] at howns
  exact ⟨result, heap, hrun, hlived, howns⟩

theorem carefulOnce_fetchAndFree (drv : Driver σ) (ds : Option (DataSource σ))
    (position index : ℕ) (serverid : ℤ) (n : ℕ) :
    CarefulOnce drv ds position index serverid (fetchAndFree 0 n) := by
  intro bc _
  exact careful_fetchAndFree drv n (c := .start bc) le_rfl

/-- Two calls on the sample log give its row and the end. -/
theorem life_sampleEvents : ∃ bc answers since,
    Caller.life fileDriver (some (dsInitWithFile
      (some (fileBytes sampleMagic (streamOf sampleEvents))) (ascii "log.000001") fun _ _ => 0))
        4 0 9 (fetchAndFree 0 2) = .ok (.ok ⟨bc, answers, ∅, since⟩) ∧
      answers[0]? = some (some ((rowsOf sampleEvents).get ⟨0, by decide⟩)) := by
  obtain ⟨bc, hconnect, hfeed, -⟩ := connectDataSource_file sampleMagic (ascii "log.000001") rfl
    (sized_streamOf sampleEvents) (fun _ _ => 0) 4 0 9
  obtain ⟨answers, bc', hcalls, hrows, -⟩ :=
    (connectDataSource_ok hconnect).1.fetchesAll sampleEvents_valid hfeed 2
  obtain ⟨since, hcaller⟩ := run_fetchAndFree (c := .start bc) hcalls rfl
  refine ⟨bc', answers, since, ?_, ?_⟩
  · unfold Caller.life
    rw [hconnect]
    exact congrArg (Except.map Except.ok) hcaller
  · have hlength : answers.length = 2 := length_calls hcalls
    rw [List.getElem?_eq_getElem (by omega), hrows 0 (by omega)]
    rfl

theorem life_accounted_sample : ∃ result heap, life heldFileDriver (some (dsInitWithFile
    (some (fileBytes sampleMagic (streamOf sampleEvents))) (ascii "log.000001") fun _ _ => 0))
      4 0 9 (fetchAndFree 0 2) .empty = .ok (result, heap) ∧ heap.live.val = lifeLeaks result := by
  obtain ⟨bc, answers, since, hlife, -⟩ := life_sampleEvents
  obtain ⟨result, heap, hrun, -, hlive⟩ :=
    (life_accounted heldFileDriver (carefulOnce_fetchAndFree _ _ _ _ _ 2)).2 _ hlife
  exact ⟨result, heap, hrun, hlive⟩

/-! ## What is never freed -/

theorem keptBlocks_eq_zero_iff {rows : List HeldBinlogRow} : keptBlocks rows = 0 ↔ rows = [] := by
  cases rows with
  | nil => exact iff_of_true rfl rfl
  | cons br rows =>
    refine iff_of_false (fun hzero => ?_) (List.cons_ne_nil _ _)
    have hmem : br.row.block ∈ keptBlocks (br :: rows) := by
      simp [HeldBinlogRow.blocks, HeldRow.counted]
    rw [hzero] at hmem
    exact Multiset.notMem_zero _ hmem

theorem answerBlocks_eq_zero_iff {answer : Option (RowPtr × HeldBinlogRow)} :
    answerBlocks answer = 0 ↔ answer = none := by
  cases answer with
  | none => exact iff_of_true rfl rfl
  | some row =>
    have hkept : keptBlocks [row.2] = 0 ↔ [row.2] = [] := keptBlocks_eq_zero_iff
    rw [keptBlocks_cons, keptBlocks_nil, add_zero] at hkept
    refine iff_of_false (fun hzero => ?_) (Option.some_ne_none _)
    exact List.cons_ne_nil _ _ (hkept.mp hzero)

/-- Nobody frees the last table map. A caller that was given a row with a column leaves its three
blocks behind, and these alone if it fetched and freed every row and nothing was lost on the
way. -/
theorem life_leaks_tableMap {ds : Option (DataSource σ)} {position index : ℕ} {serverid : ℤ}
    {acts : List Action} (hcareful : CarefulOnce drv.toDriver ds position index serverid acts)
    {session : Session σ} {heap : Heap}
    (hlife : life drv ds position index serverid acts .empty = .ok (.ok session, heap))
    {i : ℕ} {p : RowPtr} {br : HeldBinlogRow} (hrow : session.answers[i]? = some (some (p, br)))
    (hcolumn : br.row.cells ≠ []) :
    ∃ tblev ptrs, session.client.binlog.table = some (tblev, ptrs) ∧ ptrs.blocks.card = 3 ∧
      ptrs.blocks ≤ heap.live.val ∧
      (heap.live.val = ptrs.blocks ↔ session.client.unfetched = [] ∧ session.client.lost = [] ∧
        ∀ i ∈ session.unfreed, session.answers.getD i none = none) := by
  obtain ⟨hfault, hok⟩ := life_tracks drv hcareful 0 .empty 0 owns_empty
  cases hvalue : Caller.life drv.toDriver ds position index serverid acts with
  | error e =>
    rw [hfault e hvalue] at hlife
    cases hlife
  | ok value =>
    obtain ⟨result, heap', hrun, hlived, howns⟩ := hok value hvalue
    rw [hlife] at hrun
    cases hrun
    cases value with
    | error text => exact hlived.elim
    | ok caller =>
      obtain hzero | ⟨⟨tblev, ptrs⟩, htable⟩ := hlived.mapped i p br hrow
      · exact absurd (List.eq_nil_of_length_eq_zero hzero) hcolumn
      simp only [Owns, lifeLeaks, leftBlocks, HeldBinlog.blocks, htable, Option.elim_some,
        add_zero, add_assoc] at howns
      have hunfreed : session.unfreedBlocks = 0 ↔
          ∀ i ∈ session.unfreed, session.answers.getD i none = none := by
        unfold Session.unfreedBlocks
        rw [Finset.sum_eq_zero_iff]
        exact forall₂_congr fun i _ => answerBlocks_eq_zero_iff
      refine ⟨tblev, ptrs, htable, rfl, howns ▸ Multiset.le_add_right _ _, ?_⟩
      rw [howns, add_eq_left, add_eq_zero, add_eq_zero, Multiset.coe_eq_zero,
        keptBlocks_eq_zero_iff, hunfreed]
      exact and_left_comm

theorem life_leaks_tableMap_sample : ∃ (session : Session FileSource) (heap : Heap)
    (tblev : TableEv) (ptrs : TablePtrs), life heldFileDriver (some (dsInitWithFile
      (some (fileBytes sampleMagic (streamOf sampleEvents))) (ascii "log.000001") fun _ _ => 0))
        4 0 9 (fetchAndFree 0 2) .empty = .ok (.ok session, heap) ∧
      session.client.binlog.table = some (tblev, ptrs) ∧ ptrs.blocks ≤ heap.live.val := by
  obtain ⟨bc, answers, since, hvalue, hfirst⟩ := life_sampleEvents
  have hcareful := carefulOnce_fetchAndFree fileDriver (some (dsInitWithFile
    (some (fileBytes sampleMagic (streamOf sampleEvents))) (ascii "log.000001") fun _ _ => 0))
    4 0 9 2
  obtain ⟨result, heap, hrun, hlived, -⟩ :=
    (life_tracks heldFileDriver hcareful 0 .empty 0 owns_empty).2 _ hvalue
  cases result with
  | error failed => exact hlived.elim
  | ok session =>
    obtain ⟨p, br, hanswer, herase⟩ := hlived.answer hfirst
    have hcolumn : br.row.cells ≠ [] := by
      intro hnil
      have hcells := congrArg BinlogRow.row herase
      rw [HeldBinlogRow.erase, HeldRow.erase, hnil] at hcells
      cases hcells
    obtain ⟨tblev, ptrs, htable, -, hle, -⟩ := life_leaks_tableMap hcareful hrun hanswer hcolumn
    exact ⟨session, heap, tblev, ptrs, hrun, htable, hle⟩

end LibBinlog.Owned
