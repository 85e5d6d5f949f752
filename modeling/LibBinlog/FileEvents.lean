import LibBinlog.FileDriver

/-!
# The events of any file

`splitEvents` takes from a file the events that stand complete at its front; what remains begins
with none. The driver gives just these events and then none, if the remainder is too short for a
header: a remainder that has one is handed out as an event, its missing bytes taken from the block.
-/

namespace LibBinlog

open Machine Memory Calls

variable {e content : List UInt8} {ds : DataSource FileSource}

/-- The complete events at the front of a file, and what remains behind them. -/
def splitEvents (content : List UInt8) : List (List UInt8) × List UInt8 :=
  let evlen := lengthField content
  if _h : 19 ≤ evlen ∧ evlen ≤ content.length then
    (content.take evlen :: (splitEvents (content.drop evlen)).1,
      (splitEvents (content.drop evlen)).2)
  else ([], content)
termination_by content.length
decreasing_by all_goals
  rw [List.length_drop]
  omega

theorem splitEvents_of_complete
    (h : 19 ≤ lengthField content ∧ lengthField content ≤ content.length) :
    splitEvents content = (content.take (lengthField content) ::
      (splitEvents (content.drop (lengthField content))).1,
      (splitEvents (content.drop (lengthField content))).2) := by
  rw [splitEvents]
  exact dif_pos h

theorem splitEvents_of_not
    (h : ¬(19 ≤ lengthField content ∧ lengthField content ≤ content.length)) :
    splitEvents content = ([], content) := by
  rw [splitEvents]
  exact dif_neg h

/-- The calls give these events one after the other, each with its bytes, and then none. -/
def ReadsEvents (evs : List (List UInt8)) (ds : DataSource FileSource) : Prop :=
  Gives getEventFromFile (fun i => Option.Rel (fun e ev => Holds ev 0 e) evs[i]?) ds

theorem readsEvents_cons_iff {evs : List (List UInt8)} :
    ReadsEvents (e :: evs) ds ↔ ∃ ev ds', getEventFromFile ds = .ok (some ev, ds') ∧
      Holds ev 0 e ∧ ReadsEvents evs ds' := by
  unfold ReadsEvents
  rw [gives_iff]
  simp only [List.getElem?_cons_zero, List.getElem?_cons_succ]
  constructor
  · rintro ⟨answer, ds', hget, hrel, hrest⟩
    cases hrel with
    | some hev => exact ⟨_, ds', hget, hev, hrest⟩
  · rintro ⟨ev, ds', hget, hev, hrest⟩
    exact ⟨some ev, ds', hget, .some hev, hrest⟩

theorem readsEvents_nil_iff :
    ReadsEvents [] ds ↔ ∃ ds', getEventFromFile ds = .ok (none, ds') ∧ ReadsEvents [] ds' := by
  unfold ReadsEvents
  rw [gives_iff]
  simp only [List.getElem?_nil]
  constructor
  · rintro ⟨answer, ds', hget, hrel, hrest⟩
    cases hrel
    exact ⟨ds', hget, hrest⟩
  · rintro ⟨ds', hget, hrest⟩
    exact ⟨none, ds', hget, .none, hrest⟩

/-! ## One call -/

/-- Too little is left for a header: none from now on. -/
theorem getEventFromFile_of_short (h : ds.driver.fp.length < 19) :
    getEventFromFile ds = .ok (none, { ds with driver := { ds.driver with fp := [] } }) := by
  have htake : (ds.driver.fp.take 19).length < 19 := by
    rw [List.length_take]
    omega
  simp only [getEventFromFile, if_pos htake, List.drop_eq_nil_of_le h.le]

theorem readsEvents_of_short (h : ds.driver.fp.length < 19) : ReadsEvents [] ds := by
  have hstep : ∀ ds : DataSource FileSource, ds.driver.fp.length < 19 → ∃ answer ds',
      getEventFromFile ds = .ok (answer, ds') ∧
        Option.Rel (fun e ev => Holds ev 0 e) (none : Option (List UInt8)) answer ∧
        ds'.driver.fp.length < 19 := fun ds hds =>
    ⟨none, _, getEventFromFile_of_short hds, .none, by norm_num⟩
  exact gives_of_invariant hstep h

/-- With a header the answer is an event. -/
theorem getEventFromFile_ne_none (h : 19 ≤ ds.driver.fp.length) (ds' : DataSource FileSource) :
    getEventFromFile ds ≠ .ok (none, ds') := by
  have htake : ¬(ds.driver.fp.take 19).length < 19 := by
    rw [List.length_take]
    omega
  simp only [getEventFromFile, if_neg htake]
  intro hnone
  split_ifs at hnone <;> cases hnone

theorem lengthField_lt (e : List UInt8) : lengthField e < 2 ^ 32 := by
  have hle : ((e.drop 9).take 4).length ≤ 4 := List.length_take_le 4 _
  exact (leNat_lt _).trans_le (Nat.pow_le_pow_right (by norm_num) hle)

/-- A length from `2 ^ 31` on is negative as an `int`: the event goes to the small block, which
cannot hold it. -/
theorem getEventFromFile_of_long (h : 2 ^ 31 ≤ lengthField ds.driver.fp)
    (hle : lengthField ds.driver.fp ≤ ds.driver.fp.length) :
    getEventFromFile ds = .error .memory := by
  have hlt := lengthField_lt ds.driver.fp
  have htake : ¬(ds.driver.fp.take 19).length < 19 := by
    rw [List.length_take]
    omega
  have hlen : toInt32 (lengthField ds.driver.fp) = (lengthField ds.driver.fp : ℤ) - 2 ^ 32 := by
    rw [toInt32, signed, Int.bmod_def]
    omega
  have hsmall : ¬(eventBufSize : ℤ) < toInt32 (lengthField ds.driver.fp) := by
    rw [hlen]
    omega
  have hleft : 2 ^ 31 - 19 ≤ unsigned 64 (toInt32 (toInt32 (lengthField ds.driver.fp) - 19)) := by
    rw [hlen, unsigned, toInt32, signed, Int.bmod_def]
    split_ifs <;> omega
  have hbody : ¬19 + ((ds.driver.fp.drop 19).take
      (unsigned 64 (toInt32 (toInt32 (lengthField ds.driver.fp) - 19)))).length ≤ eventBufSize := by
    rw [List.length_take, List.length_drop, eventBufSize]
    omega
  simp only [getEventFromFile, if_neg htake, lengthField_take, if_neg hsmall, if_neg hbody]

/-! ## The whole file -/

theorem sized_take (h : 19 ≤ lengthField content ∧ lengthField content ≤ content.length)
    (hlt : lengthField content < 2 ^ 31) : Sized (content.take (lengthField content)) := by
  have hlen : (content.take (lengthField content)).length = lengthField content :=
    List.length_take_of_le h.2
  refine ⟨by omega, by omega, ?_⟩
  rw [hlen, lengthField, List.drop_take, List.take_take, min_eq_left (by omega)]
  rfl

/-- The calls give the complete events of the file and then none, exactly if each of these has a
length that is an `int` and no header stands behind them. -/
theorem readsEvents_splitEvents_iff (ds : DataSource FileSource) :
    ReadsEvents (splitEvents ds.driver.fp).1 ds ↔
      (∀ e ∈ (splitEvents ds.driver.fp).1, e.length < 2 ^ 31) ∧
        (splitEvents ds.driver.fp).2.length < 19 := by
  generalize hfp : ds.driver.fp = content
  induction content using splitEvents.induct generalizing ds with
  | case1 content evlen hcomplete ih =>
    have hlen : (content.take (lengthField content)).length = lengthField content :=
      List.length_take_of_le hcomplete.2
    rw [splitEvents_of_complete hcomplete, readsEvents_cons_iff, List.forall_mem_cons, hlen]
    by_cases hlt : lengthField content < 2 ^ 31
    · have hsplit : ds.driver.fp =
          content.take (lengthField content) ++ content.drop (lengthField content) := by
        rw [hfp, List.take_append_drop]
      obtain ⟨ev, buf, hget, hev⟩ := getEventFromFile_of_sized (sized_take hcomplete hlt) hsplit
      rw [and_assoc, ← ih { ds with driver := { ds.driver with
        fp := content.drop (lengthField content), buf := buf } } rfl]
      constructor
      · rintro ⟨ev', ds', hget', -, hrest⟩
        obtain ⟨-, rfl⟩ := Prod.mk.inj (Except.ok.inj (hget.symm.trans hget'))
        exact ⟨hlt, hrest⟩
      · rintro ⟨-, hrest⟩
        exact ⟨ev, _, hget, hev, hrest⟩
    · constructor
      · rintro ⟨ev, ds', hget, -⟩
        rw [getEventFromFile_of_long (by rw [hfp]; omega) (by rw [hfp]; exact hcomplete.2)] at hget
        cases hget
      · rintro ⟨⟨hfits, -⟩, -⟩
        exact absurd hfits hlt
  | case2 content evlen hnot =>
    rw [splitEvents_of_not hnot]
    by_cases hshort : content.length < 19
    · exact iff_of_true (readsEvents_of_short (by rwa [hfp])) ⟨by simp, hshort⟩
    · refine iff_of_false (fun hreads => ?_) fun h => hshort h.2
      obtain ⟨ds', hget, -⟩ := readsEvents_nil_iff.mp hreads
      exact getEventFromFile_ne_none (by rw [hfp]; omega) ds' hget

/-- An event of 20 bytes, and the header alone of a second one. -/
def staleBytes : List UInt8 :=
  [0, 0, 0, 0, 2, 0, 0, 0, 0, 20, 0, 0, 0, 0, 0, 0, 0, 0, 0, 65,
    0, 0, 0, 0, 2, 0, 0, 0, 0, 20, 0, 0, 0, 0, 0, 0, 0, 0, 0]

theorem splitEvents_staleBytes :
    splitEvents staleBytes = ([staleBytes.take 20], staleBytes.drop 20) := by
  have hfield : lengthField staleBytes = 20 := by decide
  rw [splitEvents_of_complete (by decide), hfield, splitEvents_of_not (by decide)]

def staleSource : DataSource FileSource :=
  ⟨[], 4, 0, -1, ⟨none, staleBytes, fun _ => 0, fun _ _ => 0⟩, []⟩

/-- The second call hands out the second header, and behind it the last byte of the first event. -/
theorem staleSource_not_readsEvents :
    (calls getEventFromFile 2 staleSource).map
        (fun r => r.1.map (Option.map fun ev => slice ev 0 20)) =
      .ok [some (staleBytes.take 20), some (staleBytes.drop 20 ++ [65])] ∧
    ¬ReadsEvents (splitEvents staleBytes).1 staleSource := by
  refine ⟨by decide +kernel, fun hreads => ?_⟩
  rw [splitEvents_staleBytes, readsEvents_cons_iff] at hreads
  obtain ⟨ev, ds', hget, -, hrest⟩ := hreads
  obtain ⟨ds'', hnone, -⟩ := readsEvents_nil_iff.mp hrest
  have hsized : Sized (staleBytes.take 20) := ⟨by decide, by decide, by decide⟩
  have hsplit : staleSource.driver.fp = staleBytes.take 20 ++ staleBytes.drop 20 :=
    (List.take_append_drop 20 staleBytes).symm
  obtain ⟨ev', buf, hget', -⟩ := getEventFromFile_of_sized hsized hsplit
  obtain ⟨-, rfl⟩ := Prod.mk.inj (Except.ok.inj (hget'.symm.trans hget))
  have hheader : 19 ≤ (staleBytes.drop 20).length := by decide
  exact getEventFromFile_ne_none hheader ds'' hnone

end LibBinlog
