import SnapshotSql.Proofs.Transaction.SnapshotReads
import Mathlib.Tactic.IntervalCases
/-! # Which versions are contested -/

namespace SnapshotSql

namespace Registry

variable {r : Registry} {me : TxId} {s : Snapshot} {v : Version}

def Blocks (r : Registry) (me : TxId) (s : Snapshot) (d : TxId) : Prop :=
  d ≠ me ∧ (r.status d = .active ∨ r.status d = .ended .committed ∧ s.sees d = false)

private theorem deleterVerdict_write :
    r.deleterVerdict me s .write v = .contested ↔ ∃ d, v.deleter = some d ∧ r.Blocks me s d := by
  unfold deleterVerdict Blocks
  cases v.deleter with
  | none => simp
  | some d =>
    by_cases hme : d = me
    · simp [hme]
    · rcases hstatus : r.status d with _ | _ | _
      · simp [hme, hstatus]
      · cases hsees : s.sees d <;> simp [hme, hstatus, hsees]
      · simp [hme, hstatus]

/-- What a writer finds contested: a version that another transaction is creating, or one that
counts as created and whose deleter is in the way. -/
theorem visibility_write_contested :
    r.visibility me s .write v = .contested ↔
      v.creator ≠ me ∧ r.status v.creator = .active ∨
        (v.creator = me ∨ r.status v.creator = .ended .committed) ∧
          ∃ d, v.deleter = some d ∧ r.Blocks me s d := by
  rw [visibility, ← deleterVerdict_write]
  unfold creatorVerdict
  by_cases hme : v.creator = me
  · simp [hme]
  · rcases hstatus : r.status v.creator with _ | _ | _ <;> simp [hme]

end Registry

namespace History

/-- Another transaction with this number is still active. -/
def Rival (h : History) (t : TxHandle) (x : TxId) : Prop :=
  ∃ u, u ≠ t ∧ h.final.Active u ∧ h.final.number? u = some x

/-- The transaction committed, but not before operation number `m`. -/
def CommittedSince (h : History) (m : Nat) (x : TxId) : Prop :=
  h.CommittedBefore x h.length ∧ ¬h.CommittedBefore x m

variable {h : History} {t : TxHandle} {k m : Nat} {s : Snapshot} {x me : TxId}

theorem committed_final : h.final.Committed x ↔ h.CommittedBefore x h.length := by
  rw [← committed_stateAt, stateAt_length]

theorem sound_final (h : History) : h.final.Sound := h.stateAt_length ▸ h.sound_stateAt h.length

theorem rival_of_active (hme : h.final.number? t = some me) (hne : x ≠ me)
    (hx : h.final.registry.Registered x) (hactive : h.final.registry.status x = .active) :
    h.Rival t x := by
  obtain ⟨u, hu⟩ := (h.stateAt_length ▸ h.assigned_stateAt h.length : h.final.Assigned) x hx
  have hstatus := h.sound_final.status hu
  have hending : (h.final.transaction u).ending = none := by
    rw [hactive, Transaction.status] at hstatus
    cases he : (h.final.transaction u).ending with
    | none => rfl
    | some how =>
      rw [he] at hstatus
      cases hstatus
  refine ⟨u, ?_, ⟨Database.knows_of_number? hu, hending⟩, hu⟩
  rintro rfl
  exact hne (Option.some.inj (hu.symm.trans hme))

theorem not_committed_self (ht : h.final.Active t) (hme : h.final.number? t = some me) :
    ¬h.CommittedBefore me h.length := by
  rw [← committed_final]
  rintro ⟨-, hstatus⟩
  rw [h.sound_final.status hme, Transaction.status, ht.2] at hstatus
  cases hstatus

/-- A snapshot that an active transaction has read shows what had committed when it was taken, and
decides how the transaction sees versions now. -/
theorem exists_shown (ht : h.final.Active t) (hs : h.Returned k t s) :
    ∃ m me, h.TakenAt t k m ∧ h.final.number? t = some me ∧
      (∀ x, h.final.registry.Registered x →
        (h.final.registry.Shows me s x ↔ x = me ∨ h.CommittedBefore x m)) ∧
      ∀ access v, (t.visibility s access v).run h.final =
        .ok (h.final.registry.visibility me s access v) h.final := by
  obtain ⟨m, hmk, htaken, rfl, r, hme, hstarted⟩ := exists_takenAt hs
  have hk : k < h.length := (List.getElem?_eq_some_iff.mp hs.1).1
  have hevolves : (h.stateAt m).Evolves h.final := h.stateAt_length ▸ h.evolves_stateAt (by omega)
  have hfinal : (h.final.transaction t).started = some r := by
    rw [← h.stateAt_length]
    exact (h.evolves_stateAt (j := k + 1) (by omega)).started hstarted
  refine ⟨m, r.1, htaken, by rw [Database.number?, hfinal, Option.map_some], ?_, ?_⟩
  · intro x hx
    rw [Database.shows_begun hevolves hme hx, committed_stateAt]
  · intro access v
    rw [TxHandle.visibility_run ht, Database.begun_of_started hfinal,
      Database.start_of_started hfinal]

/-- Nothing has committed since a snapshot that was taken by the last operation. -/
theorem not_committedSince_last (hs : h.Returned k t s) (hlast : k + 1 = h.length)
    (x : TxId) : ¬h.CommittedSince k x := by
  rintro ⟨hcommitted, hnot⟩
  rw [← hlast, committedBefore_succ] at hcommitted
  rcases hcommitted with hbefore | ⟨u, ⟨hop, -⟩, -⟩
  · exact hnot hbefore
  · cases hs.1.symm.trans hop

/-- The version was created and deleted by transactions that committed since an operation. -/
def LivedSince (h : History) (m : Nat) (v : Version) : Prop :=
  h.CommittedSince m v.creator ∧ ∃ d, v.deleter = some d ∧ h.CommittedSince m d

section Verdict

variable {table : TableId} {rid : RowId} {v : Version}

/-- A contested version is visible for reading, or someone else is at work on it, or its whole life
lies after the snapshot. -/
private theorem contested_only (hme : h.final.number? t = some me)
    (hv : h.final.version? table rid = some v)
    (hshows : ∀ x, h.final.registry.Registered x →
      (h.final.registry.Shows me s x ↔ x = me ∨ h.CommittedBefore x m))
    (hseen : h.final.registry.visibility me s .write v = .contested) :
    h.final.registry.visibility me s .read v = .visible ∨
      (h.Rival t v.creator ∨ ∃ d, v.deleter = some d ∧ h.Rival t d) ∨ h.LivedSince m v := by
  have hcreator := h.sound_final.creator hv
  rcases Registry.visibility_write_contested.mp hseen with
    ⟨hne, hactive⟩ | ⟨hcreated, d, hd, hne, hblocks⟩
  · exact .inr (.inl (.inl (rival_of_active hme hne hcreator hactive)))
  have hdeleter := h.sound_final.deleter hv hd
  rcases hblocks with hactive | ⟨hcommitted, hsees⟩
  · exact .inr (.inl (.inr ⟨d, hd, rival_of_active hme hne hdeleter hactive⟩))
  have hunseen : ¬h.final.registry.Shows me s d := by
    rintro (hd' | ⟨-, hsees'⟩)
    · exact hne hd'
    · rw [hsees] at hsees'
      cases hsees'
  by_cases hshown : h.final.registry.Shows me s v.creator
  · refine .inl ((h.final.registry.visibility_read me s v).2.mpr ⟨hshown, ?_⟩)
    rintro ⟨d', hd', hshows'⟩
    cases hd.symm.trans hd'
    exact hunseen hshows'
  · have hcreated' := hcreated.resolve_left fun hmine => hshown (.inl hmine)
    refine .inr (.inr ⟨⟨committed_final.mp ⟨hcreator, hcreated'⟩, ?_⟩, d, hd,
      committed_final.mp ⟨hdeleter, hcommitted⟩, ?_⟩)
    · exact fun hbefore => hshown ((hshows _ hcreator).mpr (.inr hbefore))
    · exact fun hbefore => hunseen ((hshows _ hdeleter).mpr (.inr hbefore))

/-- Every version whose whole life lies after the snapshot is contested, and invisible to readers. -/
private theorem contested_of_livedSince (ht : h.final.Active t)
    (hme : h.final.number? t = some me) (hv : h.final.version? table rid = some v)
    (hshows : ∀ x, h.final.registry.Registered x →
      (h.final.registry.Shows me s x ↔ x = me ∨ h.CommittedBefore x m))
    (hlived : h.LivedSince m v) :
    h.final.registry.visibility me s .write v = .contested ∧
      h.final.registry.visibility me s .read v ≠ .visible := by
  obtain ⟨hcreated, d, hd, hdeleted⟩ := hlived
  have hunseen : ∀ x, h.final.registry.Registered x → h.CommittedSince m x →
      ¬h.final.registry.Shows me s x := by
    rintro x hx ⟨hcommitted, hnot⟩ hshown
    rcases (hshows x hx).mp hshown with rfl | hbefore
    · exact not_committed_self ht hme hcommitted
    · exact hnot hbefore
  have hnoCreator := hunseen _ (h.sound_final.creator hv) hcreated
  have hnoDeleter := hunseen d (h.sound_final.deleter hv hd) hdeleted
  refine ⟨Registry.visibility_write_contested.mpr (.inr ⟨.inr (committed_final.mpr hcreated.1).2,
    d, hd, fun hmine => hnoDeleter (.inl hmine), .inr ⟨(committed_final.mpr hdeleted.1).2, ?_⟩⟩), ?_⟩
  · by_contra hsees
    exact hnoDeleter (.inr ⟨(committed_final.mpr hdeleted.1).2, by simpa using hsees⟩)
  · intro hvisible
    exact hnoCreator ((h.final.registry.visibility_read me s v).2.mp hvisible).1

end Verdict

/-- A snapshot that is not pinned, and was read by the last operation, shows all that committed. -/
private theorem not_livedSince_fresh (hs : h.Returned k t s) (htaken : h.TakenAt t k m)
    (hlast : k + 1 = h.length)
    (hpins : ((h.stateAt k).transaction t).isolation.pinsSnapshot = false) (v : Version) :
    ¬h.LivedSince m v := by
  simp only [TakenAt, hpins, Bool.false_eq_true, if_false] at htaken
  subst htaken
  exact fun hlived => not_committedSince_last hs hlast _ hlived.1

/-- When an active transaction that has read its snapshot wants to write, a version is contested only
if the transaction would read it, if another active transaction created it or stamped its deletion,
or if it was created and deleted by transactions that committed after the snapshot was taken. The
last happens only under a pinned snapshot, and there every such version is contested. -/
theorem contested_cases (h : History) (t : TxHandle) (k : Nat) (s : Snapshot)
    (ht : h.final.Active t) (hs : h.Returned k t s) (hlast : k + 1 = h.length) :
    ∃ m, h.TakenAt t k m ∧
      ∀ table rid v, h.final.version? table rid = some v →
        ∃ seen shown db, (t.visibility s .write v).run h.final = .ok seen db ∧
          (t.visibility s .read v).run h.final = .ok shown db ∧
          (seen = .contested →
            shown = .visible ∨ (h.Rival t v.creator ∨ ∃ d, v.deleter = some d ∧ h.Rival t d) ∨
              ((h.stateAt k).transaction t).isolation.pinsSnapshot = true ∧ h.LivedSince m v) ∧
          (h.LivedSince m v → seen = .contested ∧ shown ≠ .visible) := by
  obtain ⟨m, me, htaken, hme, hshows, hrun⟩ := exists_shown ht hs
  refine ⟨m, htaken, fun table rid v hv => ⟨_, _, _, hrun .write v, hrun .read v, ?_, ?_⟩⟩
  · intro hseen
    rcases contested_only hme hv hshows hseen with hvisible | hrival | hlived
    · exact .inl hvisible
    · exact .inr (.inl hrival)
    · refine .inr (.inr ⟨?_, hlived⟩)
      by_contra hpins
      exact not_livedSince_fresh hs htaken hlast (by simpa using hpins) v hlived
  · exact contested_of_livedSince ht hme hv hshows

/-- Under repeatable read a transaction starts, two others insert a row and delete it, and the first
one comes back to its snapshot. -/
def passedBy : History :=
  [.keepTable ⟨"t", [⟨"n", .integer, true⟩]⟩, .begin .repeatableRead, .readSnapshot ⟨0⟩,
    .begin .readCommitted, .insertRow ⟨1⟩ ⟨0⟩ [.integer 1], .commit ⟨1⟩,
    .begin .readCommitted, .deleteRow ⟨2⟩ ⟨0⟩ ⟨0⟩, .commit ⟨2⟩, .readSnapshot ⟨0⟩]

theorem contested_cases_passedBy :
    passedBy.final.Active ⟨0⟩ ∧ passedBy.Returned 9 ⟨0⟩ ⟨2, [⟨1⟩]⟩ ∧ 9 + 1 = passedBy.length ∧
      ∃ m, passedBy.TakenAt ⟨0⟩ 9 m ∧
        ∀ table rid v, passedBy.final.version? table rid = some v →
          ∃ seen shown db,
            (TxHandle.visibility ⟨0⟩ ⟨2, [⟨1⟩]⟩ .write v).run passedBy.final = .ok seen db ∧
            (TxHandle.visibility ⟨0⟩ ⟨2, [⟨1⟩]⟩ .read v).run passedBy.final = .ok shown db ∧
            (seen = .contested → shown = .visible ∨
              (passedBy.Rival ⟨0⟩ v.creator ∨ ∃ d, v.deleter = some d ∧ passedBy.Rival ⟨0⟩ d) ∨
                ((passedBy.stateAt 9).transaction ⟨0⟩).isolation.pinsSnapshot = true ∧
                  passedBy.LivedSince m v) ∧
            (passedBy.LivedSince m v → seen = .contested ∧ shown ≠ .visible) := by
  have hactive : passedBy.final.Active ⟨0⟩ := ⟨by decide, rfl⟩
  have hreturned : passedBy.Returned 9 ⟨0⟩ ⟨2, [⟨1⟩]⟩ := ⟨rfl, by decide, _, rfl⟩
  exact ⟨hactive, hreturned, rfl, contested_cases _ _ _ _ hactive hreturned rfl⟩

/-- There the row is contested, although the transaction would not read it and is the only active
one. -/
theorem contested_passedBy :
    ∃ v db, passedBy.final.Active ⟨0⟩ ∧ passedBy.Returned 9 ⟨0⟩ ⟨2, [⟨1⟩]⟩ ∧
      passedBy.final.version? ⟨0⟩ ⟨0⟩ = some v ∧
      (TxHandle.visibility ⟨0⟩ ⟨2, [⟨1⟩]⟩ .write v).run passedBy.final = .ok .contested db ∧
      (TxHandle.visibility ⟨0⟩ ⟨2, [⟨1⟩]⟩ .read v).run passedBy.final = .ok .invisible db ∧
      ¬(passedBy.Rival ⟨0⟩ v.creator ∨ ∃ d, v.deleter = some d ∧ passedBy.Rival ⟨0⟩ d) := by
  have halone : ∀ x, ¬passedBy.Rival ⟨0⟩ x := by
    rintro x ⟨⟨u⟩, hne, ⟨hknows, hending⟩, -⟩
    have hu : u < 3 := hknows
    interval_cases u
    · exact hne rfl
    · cases hending
    · cases hending
  refine ⟨_, _, ⟨by decide, rfl⟩, ⟨rfl, by decide, _, rfl⟩, rfl, rfl, rfl, ?_⟩
  rintro (hrival | ⟨d, -, hrival⟩)
  · exact halone _ hrival
  · exact halone _ hrival

end History

end SnapshotSql
