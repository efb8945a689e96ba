/-
Module: Lustre.Llog.FailedAppend
Purpose: Appends whose writes may fail: no error path takes the bit and the count of the new record
  back.
Trusted boundary: the padding is written; a write of the record that fails leaves some of its cells
-/
import Lustre.Llog.Scan

namespace Llog

/-- The append gets as far as the two writes, and one of them fails. -/
def Interrupted (log : LlogHandle) (new : NewRec) (writes : BlobWrites) : Prop :=
  (¬ new.tooBig ∧ ∃ padded, padChunk log new.reclen = .ok padded ∧
    padded.lastIdx < llogBitmapSize - 1) ∧ ¬ (writes.header = 0 ∧ writes.record = 0)

/-- A log on which processing calls the callback on exactly the live records of a journal. -/
def Visits (log : LlogHandle) (journal : Journal) : Prop :=
  ∀ (σ : Type) (cb : LlogCb σ) (stored : Bool) (data : σ), GoesOn cb →
    ∃ scan, llogProcess cb stored log data none = .ok (0, scan) ∧
      scan.data = called cb data journal.live

variable {log : LlogHandle} {new : NewRec} {writes : BlobWrites} {written : Written}

theorem padChunk_header {padded : LlogHandle} {reclen : Nat} (pads : padChunk log reclen = .ok padded) :
    padded.bitmap = log.bitmap ∧ padded.count = log.count := by
  unfold padChunk llogLvfsPad at pads
  split_ifs at pads <;> cases pads <;> exact ⟨rfl, rfl⟩

/-- Only an append that is interrupted depends on its writes. -/
theorem writeRecBlobs_eq (whole : ¬ Interrupted log new writes) :
    llogLvfsWriteRecBlobs log new writes = llogLvfsWriteRec log new := by
  unfold llogLvfsWriteRec llogLvfsWriteRecBlobs
  by_cases big : new.tooBig
  · rw [if_pos big, if_pos big]
  cases pads : padChunk log new.reclen with
  | error fault => rfl
  | ok padded =>
    dsimp only
    by_cases full : padded.lastIdx ≥ llogBitmapSize - 1
    · rw [if_pos full, if_pos full]
    have done : writes.header = 0 ∧ writes.record = 0 := by
      by_contra fails
      exact whole ⟨⟨big, padded, pads, not_le.mp full⟩, fails⟩
    have same : writeNextBlobs padded new writes = writeNextBlobs padded new .done := by
      simp only [writeNextBlobs, BlobWrites.done, done, ne_eq, not_true_eq_false, if_false]
    rw [same]

/-- An append that fails in front of the writes leaves the bitmap and the count. -/
theorem writeRec_failed (done : llogLvfsWriteRec log new = .ok written) (failed : written.rc < 0) :
    written.log.bitmap = log.bitmap ∧ written.log.count = log.count := by
  unfold llogLvfsWriteRec llogLvfsWriteRecBlobs at done
  by_cases big : new.tooBig
  · rw [if_pos big] at done
    cases done
    exact ⟨rfl, rfl⟩
  rw [if_neg big] at done
  cases pads : padChunk log new.reclen with
  | error fault =>
    rw [pads] at done
    cases done
  | ok padded =>
    rw [pads] at done
    dsimp only at done
    split_ifs at done <;> cases done
    · exact padChunk_header pads
    · exact absurd failed (writeNextBlobs_rc padded new).not_gt

/-- What an interrupted append returns, and what it leaves in the header. -/
theorem writeRecBlobs_interrupted (interrupted : Interrupted log new writes)
    (done : llogLvfsWriteRecBlobs log new writes = .ok written) :
    written.rc < 0 ∧ written.log.bitmap ≠ log.bitmap := by
  obtain ⟨⟨small, padded, pads, room⟩, fails⟩ := interrupted
  have errors := writes.errors
  unfold llogLvfsWriteRecBlobs at done
  rw [if_neg small, pads] at done
  dsimp only at done
  rw [if_neg (not_le.mpr room)] at done
  by_cases set : padded.bitmap (padded.lastIdx + 1) = true
  · rw [if_pos set] at done
    cases done
  rw [if_neg set] at done
  cases done
  have bitmap : (writeNextBlobs padded new writes).log.bitmap =
      assignBit padded.bitmap (padded.lastIdx + 1) true := by
    unfold writeNextBlobs
    split
    · rfl
    · split <;> rfl
  refine ⟨?_, fun same => set ?_⟩
  · unfold writeNextBlobs
    split
    · show writes.header < 0
      omega
    · rw [if_pos (by omega)]
      show writes.record < 0
      omega
  · rw [(padChunk_header pads).1, ← same, bitmap]
    exact if_pos rfl

/-- An append with an interrupted write returns an error, and failed appends leave the bitmap and the
count of the header if and only if no write of header or record is interrupted.  On a log that appends
and cancels built, processing behind such an append calls back on exactly the records appended and not
cancelled. -/
theorem failed_append_no_effect_iff (log : LlogHandle) (new : NewRec) (writes : BlobWrites)
    (written : Written) (done : llogLvfsWriteRecBlobs log new writes = .ok written) :
    (Interrupted log new writes → written.rc < 0) ∧
    ((written.rc < 0 → written.log.bitmap = log.bitmap ∧ written.log.count = log.count) ↔
      ¬ Interrupted log new writes) ∧
    ∀ zap ops journal, Run.run logStep (newLog zap, ⟨[], []⟩) ops = .ok (log, journal) →
      log.destroyed = false → (∀ op ∈ ops, op.Roomy) → new.Roomy → ¬ Interrupted log new writes →
      written.rc < 0 → Visits written.log journal := by
  refine ⟨fun interrupted => (writeRecBlobs_interrupted interrupted done).1,
    ⟨fun keeps interrupted => ?_,
      fun whole failed => writeRec_failed (writeRecBlobs_eq whole ▸ done) failed⟩, ?_⟩
  · obtain ⟨failed, bitmap⟩ := writeRecBlobs_interrupted interrupted done
    exact bitmap (keeps failed).1
  · intro zap ops journal ran here roomy roomyNew whole failed
    obtain ⟨state, ran', kept⟩ := run_kept zap roomy
    cases ran.symm.trans ran'
    rw [writeRecBlobs_eq whole] at done
    obtain ⟨state, step, kept⟩ := @logStep_kept _ (.append new) kept roomyNew
    have same : logStep (log, journal) (.append new) = .ok (written.log, journal) := by
      simp [logStep, here, done, failed]
    cases same.symm.trans step
    obtain ⟨chunks, chain, covered, live⟩ := kept.readable
    intro σ cb stored data on
    rw [← live]
    obtain ⟨scan, processed, -, calls⟩ := llogProcess_calls
      (fun data rec _ _ => on data rec.cells) chain data none (by decide) (by decide) covered stored
    exact ⟨scan, processed, calls⟩

/-- Two records, the first of them cancelled. -/
def oneCancelled : List LogOp := [.append (plainRec 0), .append (plainRec 5), .cancel 1 true]

/-- Behind them a record that is too long is refused, and processing visits the second one. -/
theorem failed_append_no_effect_long :
    ((Run.run logStep (newLog false, ⟨[], []⟩) oneCancelled).map fun state =>
        (state.1.destroyed, state.2.live.map LlogRec.index)).toOption = some (false, [2]) ∧
      ∃ log journal, Run.run logStep (newLog false, ⟨[], []⟩) oneCancelled = .ok (log, journal) ∧
        Visits log journal := by
  have built : ((Run.run logStep (newLog false, ⟨[], []⟩) oneCancelled).map fun state =>
      (state.1.destroyed, state.2.live.map LlogRec.index)).toOption = some (false, [2]) := by
    decide +kernel
  have long : (plainRec 1100).tooBig := by decide +kernel
  have roomy : ∀ op ∈ oneCancelled, op.Roomy := by decide +kernel
  obtain ⟨⟨log, journal⟩, ran, -⟩ := run_kept false roomy
  refine ⟨built, log, journal, ran, ?_⟩
  rw [ran] at built
  exact (failed_append_no_effect_iff log (plainRec 1100) ⟨0, eio, 0, by decide⟩ ⟨e2big, log, none⟩
    (if_pos long)).2.2 false oneCancelled journal ran (congrArg Prod.fst (Option.some.inj built)) roomy
    (show (LogOp.append (plainRec 1100)).Roomy by decide +kernel)
    (fun interrupted => interrupted.1.1 long) (show e2big < 0 by decide)

/-- The header of the first append is not written, but its bit and the count are set: a second append
succeeds, and processing fails in front of its record. -/
theorem interrupted_append_hides_records : ∃ first second,
    llogLvfsWriteRecBlobs (newLog false) (plainRec 0) ⟨eio, 0, 0, by decide⟩ = .ok first ∧
      first.rc = eio ∧ first.log.bitmap 1 = true ∧ first.log.count = 2 ∧
      llogLvfsWriteRec first.log (plainRec 5) = .ok second ∧ second.rc = 1 ∧
      ((llogProcess collect true second.log [] none).map fun out => (out.1, out.2.data)).toOption =
        some (enoent, []) :=
  ⟨_, _, rfl, rfl, rfl, rfl, rfl, rfl, by decide +kernel⟩

end Llog
