import SnapshotSql.Proofs.Transaction.Batches
import SnapshotSql.Proofs.Transaction.Sight
/-! # What writes are let through -/

namespace SnapshotSql

/-- How a transaction sees a version for writing, with the snapshot that it would read from. -/
def TxHandle.sight (t : TxHandle) (v : Version) : Action TxError Visibility := do
  let s ← t.readSnapshot
  t.visibility s .write v

namespace Registry

variable {r : Registry} {me : TxId} {v : Version}

theorem deleteVerdict_eq_refuse : r.deleteVerdict me v = .refuse ↔
    v.creator ≠ me ∧ r.status v.creator = .active ∨
      ¬r.Lapsed me v.deleter ∧ v.deleter ≠ some me := by
  unfold deleteVerdict
  by_cases hcreator : v.creator ≠ me ∧ r.status v.creator = .active
  · simp [hcreator]
  · cases hd : v.deleter with
    | none => simp [hcreator, Lapsed]
    | some d =>
      by_cases hme : d = me
      · simp [hcreator, hme]
      · by_cases hstatus : r.status d = .ended .aborted
        · simp [hcreator, hme, hstatus, Lapsed]
        · simp [hcreator, hme, hstatus, Lapsed]

/-- With a creator that was not rolled back and is not under way, a version can be deleted if it is seen,
or if it was deleted before by the same transaction. -/
theorem deleteVerdict_ne_refuse {s : Snapshot} (hcreator : r.status v.creator ≠ .ended .aborted)
    (hown : v.deleter = some me → v.creator = me ∨ r.status v.creator ≠ .active) :
    r.deleteVerdict me v ≠ .refuse ↔
      r.visibility me s .write v = .visible ∨ v.deleter = some me := by
  rw [ne_eq, deleteVerdict_eq_refuse, visibility_write]
  cases hstatus : r.status v.creator with
  | active =>
    rw [hstatus] at hown
    by_cases hme : v.creator = me
    · simp [hme]
      tauto
    · simp [hme]
      tauto
  | ended how =>
    cases how with
    | committed =>
      simp
      tauto
    | aborted => exact absurd hstatus hcreator

theorem deleteVerdict_of_aborted (hcreator : r.status v.creator = .ended .aborted) :
    r.deleteVerdict me v ≠ .refuse ↔ r.Lapsed me v.deleter ∨ v.deleter = some me := by
  rw [ne_eq, deleteVerdict_eq_refuse, hcreator]
  simp
  tauto

theorem visibility_of_aborted {s : Snapshot} {access : Access} (hme : v.creator ≠ me)
    (hcreator : r.status v.creator = .ended .aborted) : r.visibility me s access v = .invisible := by
  simp only [visibility, creatorVerdict, if_neg hme, hcreator, Option.getD_some]

end Registry

namespace Database

/-- Versions were stamped by their creators, or when these were over. -/
def StampedLate (db : Database) : Prop :=
  ∀ {table rid v d}, db.version? table rid = some v → v.deleter = some d →
    v.creator = d ∨ db.registry.status v.creator ≠ .active

variable {db db' : Database} {t : TxHandle} {table : TableId} {rid : RowId} {me : TxId} {v : Version}
  {values : List Value}

private theorem stampedLate_of_evolves (hs : db.Sound) (h : db.StampedLate) (he : db.Evolves db')
    (hversion : ∀ table rid, db'.version? table rid = db.version? table rid) : db'.StampedLate := by
  intro table rid v d hv hd
  rw [hversion] at hv
  refine (h hv hd).imp_right ?_
  intro hover
  cases hstatus : db.registry.status v.creator with
  | active => exact absurd hstatus hover
  | ended how => simp [he.status (hs.creator hv) hstatus]

private theorem stampedLate_write (h : db.StampedLate) (hw : Write me db db') : db'.StampedLate := by
  cases hw with
  | count u => exact h
  | append other values =>
    intro table rid v d hv hd
    rcases version?_appended_cases hv with hold | ⟨_, _, rfl⟩
    · exact h hold hd
    · cases hd
  | @stamp other r w hw hverdict =>
    intro table rid v d hv hd
    rw [version?_stamped] at hv
    obtain ⟨old, hold, rfl⟩ := Option.map_eq_some_iff.mp hv
    by_cases hat : table = other ∧ rid = r
    · obtain ⟨rfl, rfl⟩ := hat
      obtain rfl := Option.some.inj (hold.symm.trans hw)
      rw [if_pos ⟨rfl, rfl⟩] at hd ⊢
      cases hd
      change old.creator = me ∨ db.registry.status old.creator ≠ .active
      by_contra hactive
      rw [not_or, not_not] at hactive
      rw [Registry.deleteVerdict, if_pos hactive] at hverdict
      cases hverdict
    · rw [if_neg hat] at hd ⊢
      exact h hold hd

private theorem stampedLate_change (hs : db.Sound) (h : db.StampedLate) (hc : Change db db') :
    db'.StampedLate := by
  cases hc with
  | begin isolation => exact h
  | layout c hc =>
    exact stampedLate_of_evolves hs h (evolves_change (.layout db c hc)) fun table rid =>
      version?_of_versions_eq hc
  | start ht =>
    exact stampedLate_of_evolves hs h (evolves_change (.start ht)) fun table rid =>
      version?_of_catalog_eq begun_catalog
  | write _ _ hw => exact stampedLate_write h hw

private theorem stampedLate_changes (hs : db.Sound) (h : db.StampedLate) (hc : Changes db db') :
    db'.StampedLate := by
  induction hc with
  | refl => exact h
  | tail hsteps hstep ih => exact stampedLate_change (sound_changes hs hsteps) ih hstep

end Database

namespace History

theorem stampedLate_stateAt (h : History) (k : Nat) : (h.stateAt k).StampedLate := by
  induction k with
  | zero =>
    intro table rid v d hv
    cases hv
  | succ k ih =>
    rcases h.step_cases k with ⟨hchanges, _⟩ | ⟨t, how, ht, hstate, _⟩
    · exact Database.stampedLate_changes (h.sound_stateAt k) ih hchanges
    · rw [hstate]
      exact Database.stampedLate_of_evolves (h.sound_stateAt k) ih
        (Database.evolves_ended (h.sound_stateAt k) ht how)
        fun table rid => Database.version?_of_catalog_eq Database.ended_catalog

end History

namespace Action

variable {ε α : Type} {a : Action ε α} {db db' : Database} {t : TxHandle} {allowed : Prop}
  {done : α → Database → Prop} {r : α}

def Succeeds (a : Action ε α) (db : Database) : Prop := ∃ r db', a.run db = .ok r db'

/-- If the operation fails, then all tables are as they were. -/
def FailsUnnoticed (a : Action ε α) (db : Database) : Prop :=
  ∀ e db', a.run db = .error e db' → db'.catalog = db.catalog

/-- If the operation is allowed, it does its work, and otherwise only its transaction starts. -/
structure Guarded (a : Action ε α) (db : Database) (t : TxHandle) (allowed : Prop)
    (done : α → Database → Prop) : Prop where
  success : allowed → ∃ r db', a.run db = .ok r db' ∧ done r db'
  refusal : ¬allowed → ∃ e, a.run db = .error e (db.begun t)

theorem Guarded.of_run (h : a.Guarded db t allowed done) (hrun : a.run db = .ok r db') :
    allowed ∧ done r db' := by
  by_cases hallowed : allowed
  · obtain ⟨r', db'', hrun', hdone⟩ := h.success hallowed
    rw [hrun] at hrun'
    cases hrun'
    exact ⟨hallowed, hdone⟩
  · obtain ⟨e, hrun'⟩ := h.refusal hallowed
    rw [hrun] at hrun'
    cases hrun'

theorem Guarded.succeeds_iff (h : a.Guarded db t allowed done) : a.Succeeds db ↔ allowed := by
  constructor
  · rintro ⟨r, db', hrun⟩
    exact (h.of_run hrun).1
  · intro hallowed
    obtain ⟨r, db', hrun, _⟩ := h.success hallowed
    exact ⟨r, db', hrun⟩

theorem Guarded.failsUnnoticed (h : a.Guarded db t allowed done) : a.FailsUnnoticed db := by
  intro e db' hrun
  by_cases hallowed : allowed
  · obtain ⟨r, db'', hrun', _⟩ := h.success hallowed
    rw [hrun] at hrun'
    cases hrun'
  · obtain ⟨e', hrun'⟩ := h.refusal hallowed
    rw [hrun] at hrun'
    cases hrun'
    exact Database.begun_catalog

end Action

namespace TxHandle

variable {db : Database} {t : TxHandle} {table : TableId} {rid : RowId} {v : Version}
  {values : List Value}

theorem sight_run (ht : db.Active t) (v : Version) :
    (t.sight v).run db = .ok ((db.reader t).see .write v) (db.begun t) := by
  simp only [sight, EStateM.run_bind, readSnapshot_run ht,
    visibility_run (Database.active_begun ht), Database.begun_begun ht.1, Database.start_begun ht.1]
  rfl

theorem deleteRow_run_begun (ht : db.Active t) (table : TableId) (rid : RowId) :
    (t.deleteRow table rid).run (db.begun t) = (t.deleteRow table rid).run db := by
  rw [deleteRow_run ht, deleteRow_run (Database.active_begun ht),
    Database.version?_of_catalog_eq Database.begun_catalog, Database.begun_begun ht.1,
    Database.start_begun ht.1, Database.begun_catalog]

theorem deleteRow_guarded (hs : db.Sound) (ht : db.Active t) (hv : db.version? table rid = some v) :
    (t.deleteRow table rid).Guarded db t
      ((db.begun t).registry.deleteVerdict (db.start t).1 v ≠ .refuse)
      fun _ db' => (db.begun t).Applied (db.start t).1 table [rid] [] db' where
  success hverdict := by
    have hmay : (db.begun t).MayDelete (db.start t).1 table rid :=
      ⟨v, by rwa [Database.version?_of_catalog_eq Database.begun_catalog], hverdict⟩
    have hrun := deleteRow_applied (Database.sound_change hs (.start ht)) (Database.active_begun ht)
      (Database.number?_begun ht.1) hmay
    rw [deleteRow_run_begun ht] at hrun
    exact ⟨(), hrun⟩
  refusal hverdict := by
    refine ⟨.conflict (db.catalog.tableName table) rid, ?_⟩
    rw [deleteRow_run ht, hv]
    simp only [not_not.mp hverdict]

/-- Unless the verdict is to refuse, an update with values that fit stamps its version and appends them. -/
theorem updateRow_guarded (hs : db.Sound) (ht : db.Active t) (hv : db.version? table rid = some v)
    (hfits : (db.catalog.table table).schema.recordFault? values = none) :
    (t.updateRow table rid values).Guarded db t
      ((db.begun t).registry.deleteVerdict (db.start t).1 v ≠ .refuse)
      fun r db' => r = (db.catalog.table table).nextRid ∧
        (db.begun t).Applied (db.start t).1 table [rid] [values] db' where
  success hverdict := by
    have hmay : (db.begun t).MayDelete (db.start t).1 table rid :=
      ⟨v, by rwa [Database.version?_of_catalog_eq Database.begun_catalog], hverdict⟩
    obtain ⟨db', hrun, happlied⟩ := updateRow_applied (Database.sound_change hs (.start ht))
      (Database.active_begun ht) (Database.number?_begun ht.1) hmay (by rwa [Database.begun_catalog])
    rw [updateRow_run, Database.begun_catalog, hfits, deleteRow_run_begun ht] at hrun
    refine ⟨_, db', ?_, rfl, happlied⟩
    rw [updateRow_run, hfits]
    exact hrun
  refusal hverdict := by
    obtain ⟨e, hrun⟩ := (deleteRow_guarded hs ht hv).refusal hverdict
    rw [updateRow_run, hfits, hrun]
    exact ⟨e, rfl⟩

end TxHandle

namespace Database

variable {db db' : Database} {t : TxHandle} {table : TableId} {rid : RowId} {v : Version}
  {values : List Value}

/-- The versions of a table that a transaction sees for writing. -/
def writable (db : Database) (t : TxHandle) (table : TableId) : List Version :=
  ((db.reader t).versions table).filter ((db.reader t).see .write · = .visible)

theorem status_start (hs : db.Sound) (ht : db.Active t) :
    (db.begun t).registry.status (db.start t).1 = .active := by
  rw [(sound_change hs (.start ht)).status (number?_begun ht.1), Transaction.status, (active_begun ht).2]
  rfl

theorem stampedBy_iff (hs : db.Sound) (hv : db.version? table rid = some v) :
    v.deleter = some (db.start t).1 ↔ db.StampedBy t table rid := by
  constructor
  · intro hd
    exact ⟨v, _, hv, hd, (eq_start_iff (hs.deleter hv hd)).mp rfl⟩
  · rintro ⟨w, x, hw, hx, hme⟩
    rw [hv] at hw
    obtain rfl := Option.some.inj hw
    rw [hx, start_of_number? hme]

/-- The guard lets a transaction through that sees the version, or that has deleted it before. -/
theorem guard_iff (hs : db.Sound) (hlate : db.StampedLate) (hv : db.version? table rid = some v)
    (hcreator : db.registry.status v.creator ≠ .ended .aborted) :
    (db.begun t).registry.deleteVerdict (db.start t).1 v ≠ .refuse ↔
      (db.reader t).see .write v = .visible ∨ db.StampedBy t table rid := by
  rw [← status_begun (hs.creator hv)] at hcreator
  rw [Registry.deleteVerdict_ne_refuse hcreator, stampedBy_iff hs hv]
  · rfl
  · intro hd
    rw [status_begun (hs.creator hv)]
    exact hlate hv hd

/-- The guard does not ask whether the creator was rolled back. -/
theorem guard_iff_of_aborted (hs : db.Sound) (hv : db.version? table rid = some v)
    (hcreator : db.registry.status v.creator = .ended .aborted) (ht : db.Active t) :
    (db.begun t).registry.deleteVerdict (db.start t).1 v ≠ .refuse ↔
      (∀ d, v.deleter = some d → db.registry.status d = .ended .aborted) ∨ db.StampedBy t table rid := by
  rw [← status_begun (hs.creator hv)] at hcreator
  rw [Registry.deleteVerdict_of_aborted hcreator, stampedBy_iff hs hv, Registry.Lapsed]
  refine or_congr_left (forall₂_congr fun d hd => ?_)
  rw [status_begun (hs.deleter hv hd), and_iff_right_iff_imp]
  rintro haborted rfl
  rw [← status_begun (t := t) (hs.deleter hv hd), status_start hs ht] at haborted
  cases haborted

/-- A transaction that replaces a row stops seeing it, and sees the new one instead. -/
theorem writable_applied (hs : db.Sound) (ht : db.Active t) (hv : db.version? table rid = some v)
    (h : (db.begun t).Applied (db.start t).1 table [rid] [values] db') :
    db'.writable t table = (db.writable t table).filter (· ≠ v) ++
      [⟨(db.catalog.table table).nextRid, values, (db.start t).1, none⟩] := by
  have hsee : (db'.reader t).see = (db.reader t).see := by rw [see_writes h.writes, see_begun_self ht.1]
  have hversions : (db'.reader t).versions table =
      ((db.reader t).versions table).map (Version.stampIn (db.start t).1 [rid]) ++
        [⟨(db.catalog.table table).nextRid, values, (db.start t).1, none⟩] := by
    change (db'.catalog.table table).versions.toList = _
    rw [h.catalog, begun_catalog, Catalog.table_modify_self (Catalog.lt_size_of_version? hv)]
    rfl
  have hnew : (db.reader t).see .write
      ⟨(db.catalog.table table).nextRid, values, (db.start t).1, none⟩ = .visible :=
    Registry.visibility_write.mpr ⟨.inl rfl, nofun⟩
  have hrid : ∀ w ∈ (db.reader t).versions table, w.rid = rid ↔ w = v := by
    intro w hw
    constructor
    · intro hrid
      exact Option.some.inj ((version?_rid hs hw).symm.trans (hrid ▸ hv))
    · rintro rfl
      exact hs.rid hv
  have hsees : ∀ w ∈ (db.reader t).versions table,
      (db.reader t).see .write (w.stampIn (db.start t).1 [rid]) = .visible ↔
        (db.reader t).see .write w = .visible ∧ w ≠ v := by
    intro w hw
    by_cases hwv : w = v
    · rw [Version.stampIn_of_mem (List.mem_singleton.mpr ((hrid w hw).mpr hwv))]
      refine ⟨fun hvisible => ?_, fun hne => absurd hwv hne.2⟩
      exact absurd rfl ((Registry.visibility_write.mp hvisible).2 _ rfl).1
    · rw [Version.stampIn_of_notMem fun h => hwv ((hrid w hw).mp (List.mem_singleton.mp h))]
      exact ⟨fun hvisible => ⟨hvisible, hwv⟩, And.left⟩
  have hkept : ∀ w ∈ (db.writable t table).filter (· ≠ v), w.stampIn (db.start t).1 [rid] = w := by
    intro w hw
    obtain ⟨hseen, hne⟩ := List.mem_filter.mp hw
    refine Version.stampIn_of_notMem fun h => of_decide_eq_true hne ?_
    exact (hrid w (List.mem_filter.mp hseen).1).mp (List.mem_singleton.mp h)
  have hold : (((db.reader t).versions table).map (Version.stampIn (db.start t).1 [rid])).filter
      ((db.reader t).see .write · = .visible) = (db.writable t table).filter (· ≠ v) := by
    have hfilter : ((db.reader t).versions table).filter
        (fun w => (db.reader t).see .write (w.stampIn (db.start t).1 [rid]) = .visible) =
          (db.writable t table).filter (· ≠ v) := by
      rw [writable, List.filter_filter]
      refine List.filter_congr fun w hw => ?_
      rw [decide_eq_decide.mpr (hsees w hw), Bool.decide_and, Bool.and_comm]
    rw [List.filter_map]
    refine (congrArg (List.map _) hfilter).trans ?_
    rw [List.map_congr_left hkept, List.map_id']
  rw [writable, hversions, hsee, List.filter_append, hold]
  simp [hnew]

end Database

namespace History

/-- A row whose creator was not rolled back can be deleted and replaced by the transactions that see it for
writing, and by the one that has deleted it already. Replacing a row that the transaction has not deleted
before exchanges it for one other among those that the transaction sees. -/
theorem writes_guarded (h : History) (k : Nat) {t : TxHandle} {table : TableId} {rid : RowId}
    {v : Version} {values : List Value} (ht : (h.stateAt k).Active t)
    (hv : (h.stateAt k).version? table rid = some v)
    (hfits : ((h.stateAt k).catalog.table table).schema.recordFault? values = none) :
    (t.deleteRow table rid).FailsUnnoticed (h.stateAt k) ∧
    (t.updateRow table rid values).FailsUnnoticed (h.stateAt k) ∧
    ∃ seen, (t.sight v).run (h.stateAt k) = .ok seen ((h.stateAt k).begun t) ∧
      ((h.stateAt k).registry.status v.creator ≠ .ended .aborted →
        ((t.deleteRow table rid).Succeeds (h.stateAt k) ↔
          seen = .visible ∨ (h.stateAt k).StampedBy t table rid) ∧
        ((t.updateRow table rid values).Succeeds (h.stateAt k) ↔
          seen = .visible ∨ (h.stateAt k).StampedBy t table rid) ∧
        ∀ r db', (t.updateRow table rid values).run (h.stateAt k) = .ok r db' →
          ¬(h.stateAt k).StampedBy t table rid →
          v ∈ (h.stateAt k).writable t table ∧
          ∃ x, db'.number? t = some x ∧
            (h.stateAt k).Rewrites x table [v] [values] db' ∧
            db'.writable t table =
              ((h.stateAt k).writable t table).filter (· ≠ v) ++ [⟨r, values, x, none⟩]) := by
  have hs := h.sound_stateAt k
  have hlate : (h.stateAt k).StampedLate := h.stampedLate_stateAt k
  generalize h.stateAt k = db at *
  have hdelete := TxHandle.deleteRow_guarded hs ht hv
  have hupdate := TxHandle.updateRow_guarded hs ht hv hfits
  refine ⟨hdelete.failsUnnoticed, hupdate.failsUnnoticed, (db.reader t).see .write v,
    TxHandle.sight_run ht v, fun hcreator => ?_⟩
  have hguard := Database.guard_iff (t := t) hs hlate hv hcreator
  refine ⟨hdelete.succeeds_iff.trans hguard, hupdate.succeeds_iff.trans hguard, ?_⟩
  intro r db' hrun hfirst
  obtain ⟨hverdict, rfl, happlied⟩ := hupdate.of_run hrun
  have hseen := (hguard.mp hverdict).resolve_right hfirst
  have hfound : ∀ w ∈ [v], ∃ rid, db.version? table rid = some w := by
    intro w hw
    exact ⟨rid, List.mem_singleton.mp hw ▸ hv⟩
  have hrewrites : db.Rewrites (db.start t).1 table [v] [values] db' := by
    apply Database.rewrites_of_applied hs (Catalog.lt_size_of_version? hv) hfound
    rwa [List.map_singleton, hs.rid hv]
  exact ⟨List.mem_filter.mpr ⟨Database.mem_versions.mpr ⟨rid, hv⟩, decide_eq_true hseen⟩, _,
    Database.number?_applied (Database.number?_begun ht.1) happlied, hrewrites,
    Database.writable_applied hs ht hv happlied⟩

def replaceCommitted : History :=
  [.createTable "t" [⟨"n", .integer, true⟩], .begin .readCommitted, .begin .repeatableRead,
    .insertRow ⟨0⟩ ⟨0⟩ [.integer 1], .commit ⟨0⟩]

theorem writes_guarded_replaceCommitted :
    (TxHandle.updateRow ⟨1⟩ ⟨0⟩ ⟨0⟩ [.integer 2]).Succeeds replaceCommitted.final ∧
      ∀ r db', (TxHandle.updateRow ⟨1⟩ ⟨0⟩ ⟨0⟩ [.integer 2]).run replaceCommitted.final = .ok r db' →
        ∃ x, db'.number? ⟨1⟩ = some x ∧ db'.writable ⟨1⟩ ⟨0⟩ = [⟨r, [.integer 2], x, none⟩] := by
  have hactive : (replaceCommitted.stateAt 5).Active ⟨1⟩ := ⟨by decide, rfl⟩
  have hstored : (replaceCommitted.stateAt 5).version? ⟨0⟩ ⟨0⟩ =
      some ⟨⟨0⟩, [.integer 1], ⟨1⟩, none⟩ := rfl
  have hfits : ((replaceCommitted.stateAt 5).catalog.table ⟨0⟩).schema.recordFault? [.integer 2] =
      none := rfl
  obtain ⟨_, _, seen, hseen, hrest⟩ := writes_guarded replaceCommitted 5 hactive hstored hfits
  obtain ⟨_, hupdate, hreplaced⟩ := hrest (by decide)
  cases hseen
  refine ⟨hupdate.mpr (.inl rfl), fun r db' hrun => ?_⟩
  have hfirst : ¬(replaceCommitted.stateAt 5).StampedBy ⟨1⟩ ⟨0⟩ ⟨0⟩ := by
    rintro ⟨v, x, _, _, hx⟩
    cases hx
  obtain ⟨_, x, hx, _, hwritable⟩ := hreplaced r db' hrun hfirst
  exact ⟨x, hx, hwritable⟩

def deleteOwn : History :=
  [.createTable "t" [⟨"n", .integer, true⟩], .begin .readCommitted,
    .insertRow ⟨0⟩ ⟨0⟩ [.integer 1], .deleteRow ⟨0⟩ ⟨0⟩ ⟨0⟩]

/-- It no longer sees the row, but can delete and replace it again. -/
theorem succeeds_deleteOwn : ¬∀ (h : History) (k : Nat) (t : TxHandle) (table : TableId) (rid : RowId)
    (v : Version), (h.stateAt k).Active t → (h.stateAt k).version? table rid = some v →
      ((t.deleteRow table rid).Succeeds (h.stateAt k) ↔
        ∃ db', (t.sight v).run (h.stateAt k) = .ok .visible db') := by
  intro hall
  have hactive : (deleteOwn.stateAt 4).Active ⟨0⟩ := ⟨by decide, rfl⟩
  obtain ⟨db', hsight⟩ := (hall deleteOwn 4 ⟨0⟩ ⟨0⟩ ⟨0⟩ ⟨⟨0⟩, [.integer 1], ⟨1⟩, some ⟨1⟩⟩ hactive rfl).mp
    ⟨(), _, rfl⟩
  cases hsight

/-- A version whose creator was rolled back is seen by nobody, but can be deleted until one that is not
rolled back deletes it. -/
theorem deletes_of_aborted (h : History) (k : Nat) {t : TxHandle} {table : TableId} {rid : RowId}
    {v : Version} (ht : (h.stateAt k).Active t) (hv : (h.stateAt k).version? table rid = some v)
    (hcreator : (h.stateAt k).registry.status v.creator = .ended .aborted) :
    (t.sight v).run (h.stateAt k) = .ok .invisible ((h.stateAt k).begun t) ∧
    ((t.deleteRow table rid).Succeeds (h.stateAt k) ↔
      (∀ d, v.deleter = some d → (h.stateAt k).registry.status d = .ended .aborted) ∨
        (h.stateAt k).StampedBy t table rid) := by
  have hs := h.sound_stateAt k
  generalize h.stateAt k = db at *
  refine ⟨?_, ?_⟩
  · have haborted : (db.begun t).registry.status v.creator = .ended .aborted := by
      rwa [Database.status_begun (hs.creator hv)]
    have hme : v.creator ≠ (db.start t).1 := fun heq => by
      rw [heq, Database.status_start hs ht] at haborted
      cases haborted
    rw [TxHandle.sight_run ht]
    exact congrArg (EStateM.Result.ok · _) (Registry.visibility_of_aborted hme haborted)
  · exact (TxHandle.deleteRow_guarded hs ht hv).succeeds_iff.trans
      (Database.guard_iff_of_aborted hs hv hcreator ht)

def insertRolledBack : History :=
  [.createTable "t" [⟨"n", .integer, true⟩], .begin .readCommitted, .begin .readCommitted,
    .insertRow ⟨0⟩ ⟨0⟩ [.integer 1], .rollback ⟨0⟩]

theorem deletes_of_aborted_insertRolledBack :
    (∃ db', (TxHandle.sight ⟨1⟩ ⟨⟨0⟩, [.integer 1], ⟨1⟩, none⟩).run insertRolledBack.final =
      .ok .invisible db') ∧
    (TxHandle.deleteRow ⟨1⟩ ⟨0⟩ ⟨0⟩).Succeeds insertRolledBack.final := by
  have hactive : (insertRolledBack.stateAt 5).Active ⟨1⟩ := ⟨by decide, rfl⟩
  have hstored : (insertRolledBack.stateAt 5).version? ⟨0⟩ ⟨0⟩ =
      some ⟨⟨0⟩, [.integer 1], ⟨1⟩, none⟩ := rfl
  obtain ⟨hsight, hdelete⟩ := deletes_of_aborted insertRolledBack 5 hactive hstored (by decide)
  exact ⟨⟨_, hsight⟩, hdelete.mpr (.inl nofun)⟩

end History

end SnapshotSql
