import SnapshotSql.Proofs.Transaction.History
/-! # What snapshots show -/

namespace SnapshotSql

/-- The transaction is the reader, or it committed as part of the snapshot. -/
def Registry.Shows (r : Registry) (me : TxId) (s : Snapshot) (x : TxId) : Prop :=
  x = me ∨ r.status x = .ended .committed ∧ s.sees x = true

namespace Registry

variable (r : Registry) (me : TxId) (s : Snapshot) (v : Version)

private theorem creatorVerdict_read :
    r.creatorVerdict me s .read v = none ∧ r.Shows me s v.creator ∨
      r.creatorVerdict me s .read v = some .invisible ∧ ¬r.Shows me s v.creator := by
  unfold creatorVerdict Shows
  by_cases hme : v.creator = me
  · simp [hme]
  · rcases hstatus : r.status v.creator with _ | _ | _
    · simp [hme]
    · cases hsees : s.sees v.creator <;> simp [hme]
    · simp [hme]

private theorem deleterVerdict_read :
    r.deleterVerdict me s .read v = .visible ∧ (¬∃ d, v.deleter = some d ∧ r.Shows me s d) ∨
      r.deleterVerdict me s .read v = .invisible ∧ ∃ d, v.deleter = some d ∧ r.Shows me s d := by
  unfold deleterVerdict Shows
  cases v.deleter with
  | none => simp
  | some d =>
    by_cases hme : d = me
    · simp [hme]
    · rcases hstatus : r.status d with _ | _ | _
      · simp [hme, hstatus]
      · cases hsees : s.sees d <;> simp [hme, hstatus, hsees]
      · simp [hme, hstatus]

/-- Reading, a version is never contested, and creator and deleter are judged alike. -/
theorem visibility_read :
    r.visibility me s .read v ≠ .contested ∧
      (r.visibility me s .read v = .visible ↔
        r.Shows me s v.creator ∧ ¬∃ d, v.deleter = some d ∧ r.Shows me s d) := by
  unfold visibility
  rcases r.creatorVerdict_read me s v with ⟨hc, hcreator⟩ | ⟨hc, hcreator⟩
  · rcases r.deleterVerdict_read me s v with ⟨hd, hdeleter⟩ | ⟨hd, hdeleter⟩
    · simp [hc, hd, hcreator, hdeleter]
    · simp [hc, hd, hdeleter]
  · simp [hc, hcreator]

end Registry

namespace Database

variable {db db' : Database} {t : TxHandle} {x : TxId}

/-- The snapshot of a transaction that has just started shows the others that had ended. -/
theorem sees_begun (hx : x ≠ (db.start t).1) (hpos : 0 < x.number) :
    (db.begun t).registry.snapshot.sees x = true ↔
      db.registry.Registered x ∧ db.registry.status x ≠ .active := by
  rw [Registry.snapshot_sees _ hpos]
  cases hn : db.number? t with
  | some me => rw [begun_of_number? hn]
  | none =>
    rw [start_of_none hn] at hx
    rw [registry_begun_of_none hn]
    constructor
    · rintro ⟨hreg, hstatus⟩
      rcases Registry.registered_of_register hreg with hreg | rfl
      · exact ⟨hreg, Registry.status_register hreg ▸ hstatus⟩
      · exact absurd rfl hx
    · rintro ⟨hreg, hstatus⟩
      exact ⟨Registry.registered_register hreg, (Registry.status_register hreg).symm ▸ hstatus⟩

theorem shows_begun {me : TxId} (h : db.Evolves db') (hme : (db.start t).1 = me)
    (hx : db'.registry.Registered x) :
    db'.registry.Shows me (db.begun t).registry.snapshot x ↔ x = me ∨ db.Committed x := by
  subst hme
  unfold Registry.Shows
  by_cases hne : x = (db.start t).1
  · simp [hne]
  · rw [sees_begun hne hx.1]
    refine or_congr_right ?_
    constructor
    · rintro ⟨hlater, hreg, hended⟩
      refine ⟨hreg, ?_⟩
      rcases hstatus : db.registry.status x with _ | how
      · exact absurd hstatus hended
      · rw [← hlater, h.status hreg hstatus]
    · rintro ⟨hreg, hstatus⟩
      exact ⟨h.status hreg hstatus, hreg, by simp [hstatus]⟩

end Database

namespace History

/-- Operation number `k` was a read of the snapshot by `t`, and `s` was the answer. -/
def Returned (h : History) (k : Nat) (t : TxHandle) (s : Snapshot) : Prop :=
  h[k]? = some (.readSnapshot t) ∧ (h.stateAt k).Knows t ∧
    ∃ db, t.readSnapshot.run (h.stateAt k) = .ok s db

/-- The snapshot that `t` read in operation number `k` is that of operation number `m`: the one in
which the transaction started if it pins its snapshot, and otherwise the read itself. -/
def TakenAt (h : History) (t : TxHandle) (k m : Nat) : Prop :=
  if ((h.stateAt k).transaction t).isolation.pinsSnapshot then
    m ≤ k ∧ (h.stateAt m).number? t = none ∧ ((h.stateAt (m + 1)).number? t).isSome
  else m = k

/-- The effects of `x` count for `t` at operation number `m`. -/
def Counts (h : History) (t : TxHandle) (m : Nat) (x : TxId) : Prop :=
  h.final.number? t = some x ∨ h.CommittedBefore x m

variable {h : History} {t : TxHandle} {k m : Nat} {s : Snapshot} {x : TxId}

/-- A transaction started in the operation that gave it its number and snapshot. -/
theorem exists_start (h : History) (k : Nat) {r : TxId × Snapshot}
    (hr : ((h.stateAt k).transaction t).started = some r) :
    ∃ m < k, (h.stateAt m).number? t = none ∧
      ((h.stateAt (m + 1)).transaction t).started = some r ∧ r = (h.stateAt m).start t := by
  induction k with
  | zero => cases hr
  | succ k ih =>
    by_cases hk : ((h.stateAt k).transaction t).started = some r
    · obtain ⟨m, hm, hstart⟩ := ih hk
      exact ⟨m, Nat.lt_succ_of_lt hm, hstart⟩
    · rcases h.started_succ k t with hsame | ⟨_, hstart⟩
      · exact absurd (hsame ▸ hr) hk
      · have hrstart : r = (h.stateAt k).start t := Option.some.inj (hr.symm.trans hstart)
        refine ⟨k, Nat.lt_succ_self k, ?_, hr, hrstart⟩
        cases hn : ((h.stateAt k).transaction t).started with
        | none => rw [Database.number?, hn, Option.map_none]
        | some r' =>
          rw [Database.start_of_started hn] at hrstart
          exact absurd (hrstart ▸ hn) hk

/-- Every snapshot returned was taken at some operation, as the transaction would start there. -/
theorem exists_takenAt (hs : h.Returned k t s) :
    ∃ m ≤ k, h.TakenAt t k m ∧ s = ((h.stateAt m).begun t).registry.snapshot ∧
      ∃ r, ((h.stateAt m).start t).1 = r.1 ∧
        ((h.stateAt (k + 1)).transaction t).started = some r := by
  obtain ⟨hop, hknows, db, hrun⟩ := hs
  cases he : ((h.stateAt k).transaction t).ending with
  | some how =>
    rw [TxHandle.readSnapshot_run_ended he] at hrun
    cases hrun
  | none =>
    have hactive : (h.stateAt k).Active t := ⟨hknows, he⟩
    have hnext : h.stateAt (k + 1) = (h.stateAt k).begun t := by
      rw [stateAt_succ hop, TxOp.perform]
      simp only [TxOp.actor?, hknows, if_true, TxOp.effect, Database.attempt,
        TxHandle.readSnapshot_run hactive]
    have hstarted := Database.started_begun hknows
    rw [← hnext] at hstarted
    rw [TxHandle.readSnapshot_run hactive] at hrun
    unfold TakenAt
    cases hpin : ((h.stateAt k).transaction t).isolation.pinsSnapshot with
    | false =>
      rw [hpin] at hrun
      cases hrun
      exact ⟨k, Nat.le_refl k, rfl, rfl, _, rfl, hstarted⟩
    | true =>
      rw [hpin] at hrun
      cases hrun
      obtain ⟨m, hm, hnone, hsome, hstart⟩ := exists_start h (k + 1) hstarted
      refine ⟨m, Nat.le_of_lt_succ hm, ⟨Nat.le_of_lt_succ hm, hnone, ?_⟩, ?_, _, ?_, hstarted⟩
      · simp [Database.number?, hsome]
      · rw [if_pos rfl, hstart, Database.start_of_none hnone, Database.registry_begun_of_none hnone]
      · rw [hstart]

/-- Whatever happens in between, the snapshots that an active transaction has read decide what it
sees by the history: a version is visible exactly if its creator is the transaction itself or
committed before the snapshot was taken, and its deleter is neither. Nothing is ever contested. -/
theorem visibility_iff_counts (h : History) (t : TxHandle) (k : Nat) (s : Snapshot)
    (ht : h.final.Active t) (hs : h.Returned k t s) :
    ∃ m, h.TakenAt t k m ∧
      ∀ table rid v, h.final.version? table rid = some v →
        ∃ verdict db, (t.visibility s .read v).run h.final = .ok verdict db ∧
          verdict ≠ .contested ∧
          (verdict = .visible ↔
            h.Counts t m v.creator ∧ ¬∃ d, v.deleter = some d ∧ h.Counts t m d) := by
  obtain ⟨m, hmk, htaken, rfl, r, hme, hstarted⟩ := exists_takenAt hs
  have hk : k < h.length := (List.getElem?_eq_some_iff.mp hs.1).1
  have hsound : h.final.Sound := h.stateAt_length ▸ h.sound_stateAt h.length
  have hevolves : (h.stateAt m).Evolves h.final := h.stateAt_length ▸ h.evolves_stateAt (by omega)
  have hfinal : (h.final.transaction t).started = some r := by
    rw [← h.stateAt_length]
    exact (h.evolves_stateAt (j := k + 1) (by omega)).started hstarted
  have hcounts : ∀ x, h.final.registry.Registered x →
      (h.final.registry.Shows r.1 ((h.stateAt m).begun t).registry.snapshot x ↔
        h.Counts t m x) := by
    intro x hx
    rw [Database.shows_begun hevolves hme hx, committed_stateAt, Counts, Database.number?, hfinal,
      Option.map_some, Option.some.injEq, eq_comm]
  refine ⟨m, htaken, ?_⟩
  intro table rid v hv
  refine ⟨_, _, TxHandle.visibility_run ht _ .read v, ?_⟩
  rw [Database.begun_of_started hfinal, Database.start_of_started hfinal]
  obtain ⟨hcontested, hvisible⟩ := h.final.registry.visibility_read r.1
    ((h.stateAt m).begun t).registry.snapshot v
  refine ⟨hcontested, hvisible.trans ?_⟩
  rw [hcounts _ (hsound.creator hv)]
  refine and_congr_right fun _ => not_congr (exists_congr fun d => and_congr_right fun hd => ?_)
  exact hcounts d (hsound.deleter hv hd)

def readAfterCommit : History :=
  [.keepTable ⟨"t", [⟨"n", .integer, true⟩]⟩, .begin .readCommitted, .begin .repeatableRead,
    .insertRow ⟨0⟩ ⟨0⟩ [.integer 1], .commit ⟨0⟩, .readSnapshot ⟨1⟩]

theorem visibility_readAfterCommit :
    readAfterCommit.final.Active ⟨1⟩ ∧ readAfterCommit.Returned 5 ⟨1⟩ ⟨3, [⟨2⟩]⟩ ∧
      ∃ m, readAfterCommit.TakenAt ⟨1⟩ 5 m ∧
        ∀ table rid v, readAfterCommit.final.version? table rid = some v →
          ∃ verdict db,
            (TxHandle.visibility ⟨1⟩ ⟨3, [⟨2⟩]⟩ .read v).run readAfterCommit.final =
              .ok verdict db ∧
            verdict ≠ .contested ∧
            (verdict = .visible ↔ readAfterCommit.Counts ⟨1⟩ m v.creator ∧
              ¬∃ d, v.deleter = some d ∧ readAfterCommit.Counts ⟨1⟩ m d) := by
  have hactive : readAfterCommit.final.Active ⟨1⟩ := ⟨by decide, rfl⟩
  have hreturned : readAfterCommit.Returned 5 ⟨1⟩ ⟨3, [⟨2⟩]⟩ := ⟨rfl, by decide, _, rfl⟩
  exact ⟨hactive, hreturned, visibility_iff_counts _ _ _ _ hactive hreturned⟩

end History

end SnapshotSql
