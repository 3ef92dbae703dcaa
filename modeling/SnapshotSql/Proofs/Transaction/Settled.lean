import SnapshotSql.Proofs.Transaction.Batches
import SnapshotSql.Proofs.Transaction.Lasting
/-! # One transaction at a time -/

namespace SnapshotSql

namespace Database

/-- No transaction is in progress. -/
def Settled (db : Database) : Prop := db.registry.active = []

instance (db : Database) : Decidable db.Settled := inferInstanceAs (Decidable (_ = _))

def committed (db : Database) (x : TxId) : Bool :=
  x.number ≠ 0 && x.number ≤ db.registry.statuses.size && db.registry.status x = .ended .committed

/-- The versions of a table that count for everybody, in the order of their slots. -/
def live (db : Database) (table : TableId) : List Version :=
  (db.catalog.table table).versions.toList.filter (Version.countsFor db.committed)

def liveRows (db : Database) (table : TableId) : List (List Value) :=
  (db.live table).map (·.values)

variable {db db' : Database} {t : TxHandle} {table id : TableId} {x : TxId} {how : Ending}
  {rids : List RowId} {rows : List (List Value)} {v : Version}

/-- The rows are what a reader comes to for whom the committed transactions count. -/
theorem values_rowsFor (p : TxId → Bool) (db : Database) (table : TableId) :
    (db.rowsFor p table).map (·.values) =
      ((db.catalog.table table).versions.toList.filter (Version.countsFor p)).map (·.values) := by
  rw [rowsFor, List.map_filterMap, ← List.filterMap_eq_map, ← List.filterMap_eq_filter,
    List.filterMap_filterMap]
  refine List.filterMap_congr fun v _ => ?_
  cases hc : v.countsFor p <;> simp [Option.guard, hc, Version.renumber]

theorem committed_iff : db.committed x = true ↔ db.Committed x := by
  simp [committed, Committed, Registry.Registered, Nat.pos_iff_ne_zero]

theorem settled_iff : db.Settled ↔ ∀ x, db.registry.Registered x → db.registry.status x ≠ .active := by
  rw [Settled, List.eq_nil_iff_forall_not_mem]
  simp only [Registry.mem_active, not_and, ne_eq]

theorem live_congr (hcatalog : db'.catalog = db.catalog) (hregistry : db'.registry = db.registry) :
    db'.live = db.live := by
  funext table
  unfold live committed
  rw [hcatalog, hregistry]

/-- A transaction has not started yet and no other is in progress. -/
structure Alone (t : TxHandle) (db : Database) : Prop where
  sound : db.Sound
  settled : db.Settled
  active : db.Active t
  number : db.number? t = none

namespace Alone

theorem ne_start (h : db.Alone t) (hx : db.registry.Registered x) : x ≠ (db.start t).1 := by
  rw [ne_eq, eq_start_iff hx, h.number]
  rintro ⟨⟩

theorem status (h : db.Alone t) (hx : db.registry.Registered x) :
    db.committed x = true ∧ db.registry.status x = .ended .committed ∨
      db.committed x = false ∧ db.registry.status x = .ended .aborted := by
  rw [Bool.eq_false_iff, ne_eq, committed_iff, Committed, and_iff_right hx]
  rcases hstatus : db.registry.status x with _ | _ | _
  · exact absurd hstatus (settled_iff.mp h.settled x hx)
  · exact .inl ⟨rfl, rfl⟩
  · exact .inr ⟨by rintro ⟨⟩, rfl⟩

/-- The transaction sees what counts for everybody and nothing else, for reading and for writing. -/
theorem see (h : db.Alone t) {rid : RowId} (hv : db.version? table rid = some v) (access : Access) :
    (db.reader t).see access v = if v.countsFor db.committed then .visible else .invisible := by
  have hsnapshot : db.snapshotOf t = (db.begun t).registry.snapshot := by
    rcases snapshotOf_cases db t with ⟨r, hr, _⟩ | ⟨_, hs⟩
    · have hnumber := h.number
      rw [number?, hr] at hnumber
      cases hnumber
    · exact hs
  have hsees : ∀ {x}, db.registry.Registered x → (db.snapshotOf t).sees x = true := by
    intro x hx
    rw [hsnapshot, sees_begun_snapshot hx]
    rcases h.status hx with ⟨_, hstatus⟩ | ⟨_, hstatus⟩ <;> rw [hstatus] <;> rfl
  have hcreator : (db.begun t).registry.creatorVerdict (db.start t).1 (db.snapshotOf t) access v =
      if db.committed v.creator then none else some .invisible := by
    have hx := h.sound.creator hv
    unfold Registry.creatorVerdict
    rw [if_neg (h.ne_start hx), status_begun hx, hsees hx]
    rcases h.status hx with ⟨hcounts, hstatus⟩ | ⟨hcounts, hstatus⟩ <;> rw [hcounts, hstatus] <;>
      cases access <;> rfl
  have hdeleter : (db.begun t).registry.deleterVerdict (db.start t).1 (db.snapshotOf t) access v =
      if v.deleter.any db.committed then .invisible else .visible := by
    unfold Registry.deleterVerdict
    cases hd : v.deleter with
    | none => rfl
    | some d =>
      have hx := h.sound.deleter hv hd
      rw [Option.any_some]
      simp only [if_neg (h.ne_start hx), status_begun hx, hsees hx]
      rcases h.status hx with ⟨hcounts, hstatus⟩ | ⟨hcounts, hstatus⟩ <;> rw [hcounts, hstatus] <;>
        cases access <;> rfl
  show (db.begun t).registry.visibility _ _ access v = _
  rw [Registry.visibility, hcreator, hdeleter, Version.countsFor]
  cases db.committed v.creator <;> cases v.deleter.any db.committed <;> rfl

theorem filter_see (h : db.Alone t) (access : Access) (table : TableId) :
    ((db.reader t).versions table).filter (fun v => (db.reader t).see access v = .visible) =
      db.live table := by
  refine List.filter_congr fun v hv => ?_
  rw [h.see (version?_rid h.sound hv) access]
  cases v.countsFor db.committed <;> rfl

end Alone

/-- The transaction has deleted and appended rows of a table, or it has done nothing at all. -/
inductive Worked (t : TxHandle) (table : TableId) (rids : List RowId) (rows : List (List Value))
    (db db' : Database) : Prop
  | idle (hrids : rids = []) (hrows : rows = [])
      (h : db.Applied (db.start t).1 table [] [] db') : Worked t table rids rows db db'
  | busy (h : (db.begun t).Applied (db.start t).1 table rids rows db') :
      Worked t table rids rows db db'

private theorem ended_idle (h : db.Alone t) (hwork : db.Applied (db.start t).1 table [] [] db') :
    (db'.ended t how).catalog = db.catalog ∧ (db'.ended t how).registry = db.registry := by
  have hnumber : db'.number? t = none := by
    rw [number?, started_writes hwork.writes, ← number?]
    exact h.number
  constructor
  · rw [ended_catalog, hwork.catalog]
    simp only [Table.changed_nil]
    exact Catalog.modify_id _ _
  · rw [registry_ended_of_none hnumber, registry_writes hwork.writes]

section

variable (h : db.Alone t) (hwork : (db.begun t).Applied (db.start t).1 table rids rows db')
include h hwork

private theorem committed_worked : (db'.ended t how).Committed x ↔
    db.Committed x ∨ how = .committed ∧ x = (db.start t).1 := by
  have hbegun : (db.begun t).number? t = some (db.start t).1 := number?_begun h.active.1
  have hnumber : db'.number? t = some (db.start t).1 := number?_applied hbegun hwork
  have hsound : db'.Sound :=
    sound_applied (sound_change h.sound (.start h.active)) (active_begun h.active) hbegun hwork
  have hsame : db'.Committed x ↔ db.Committed x := by
    rw [Committed, registry_writes hwork.writes]
    exact committed_change (.start h.active)
  rw [committed_ended hsound (active_applied (active_begun h.active) hwork), hsame, hnumber,
    Option.some.injEq, eq_comm (a := (db.start t).1)]

private theorem committed_known (hx : db.registry.Registered x) :
    (db'.ended t how).committed x = db.committed x := by
  rw [Bool.eq_iff_iff, committed_iff, committed_iff, committed_worked h hwork]
  exact or_iff_left fun hme => h.ne_start hx hme.2

private theorem committed_me : (db'.ended t .committed).committed (db.start t).1 = true := by
  rw [committed_iff, committed_worked h hwork]
  exact .inr ⟨rfl, rfl⟩

private theorem settled_busy : (db'.ended t how).Settled := by
  have hnumber : db'.number? t = some (db.start t).1 :=
    number?_applied (number?_begun h.active.1) hwork
  rw [settled_iff]
  intro x hx hactive
  rw [registry_ended hnumber, registry_writes hwork.writes, registry_begun_of_none h.number] at hx hactive
  rw [Registry.registered_finish] at hx
  by_cases hme : x = (db.start t).1
  · rw [hme, Registry.status_finish_self (hme ▸ hx)] at hactive
    cases hactive
  · have hknown := (Registry.registered_of_register hx).resolve_right (by rwa [start_of_none h.number] at hme)
    rw [Registry.status_finish_of_ne hme, Registry.status_register hknown] at hactive
    exact settled_iff.mp h.settled x hknown hactive

private theorem countsFor_kept (hv : v ∈ (db.catalog.table id).versions.toList) :
    v.countsFor (db'.ended t how).committed = v.countsFor db.committed := by
  have hversion := version?_rid (t := t) h.sound hv
  rw [Version.countsFor, Version.countsFor, committed_known h hwork (h.sound.creator hversion)]
  cases hd : v.deleter with
  | none => rfl
  | some d => rw [Option.any_some, Option.any_some, committed_known h hwork (h.sound.deleter hversion hd)]

private theorem countsFor_stamped (hv : v ∈ (db.catalog.table id).versions.toList) :
    (v.stampIn (db.start t).1 rids).countsFor (db'.ended t .committed).committed =
      (v.countsFor db.committed && v.rid ∉ rids) := by
  by_cases hrid : v.rid ∈ rids
  · rw [Version.stampIn_of_mem hrid]
    simp [Version.countsFor, committed_me h hwork, hrid]
  · rw [Version.stampIn_of_notMem hrid, countsFor_kept h hwork hv]
    simp [hrid]

private theorem rows_changed (table : TableId) :
    ((((db.catalog.table table).changed (db.start t).1 rids rows).versions.toList).filter
      (Version.countsFor (db'.ended t .committed).committed)).map (·.values) =
        ((db.live table).filter (·.rid ∉ rids)).map (·.values) ++ rows := by
  rw [Table.changed, List.filter_append, List.map_append]
  congr 1
  · have hcounts : (db.catalog.table table).versions.toList.filter
        (Version.countsFor (db'.ended t .committed).committed ∘ Version.stampIn (db.start t).1 rids) =
          (db.live table).filter (·.rid ∉ rids) := by
      rw [live, List.filter_filter]
      refine List.filter_congr fun v hv => ?_
      rw [Function.comp_apply, countsFor_stamped h hwork hv, Bool.and_comm]
    rw [List.filter_map, List.map_map, hcounts]
    exact List.map_congr_left fun v _ => Version.values_stampIn rids v
  · have hall : ∀ v ∈ Version.ofRows (db.start t).1 (db.catalog.table table).versions.size rows,
        v.countsFor (db'.ended t .committed).committed = true := by
      intro v hv
      obtain ⟨_, hcreator, hdeleter⟩ := Version.mem_ofRows hv
      simp [Version.countsFor, hcreator, hdeleter, committed_me h hwork]
    rw [List.filter_eq_self.mpr hall, Version.values_ofRows]

private theorem liveRows_busy (hknown : rows ≠ [] → table.index < db.catalog.tables.size)
    (id : TableId) : (db'.ended t .committed).liveRows id =
      if id = table then ((db.live table).filter (·.rid ∉ rids)).map (·.values) ++ rows
      else db.liveRows id := by
  have hcatalog : (db'.ended t .committed).catalog =
      db.catalog.modify table (·.changed (db.start t).1 rids rows) := by
    rw [ended_catalog, hwork.catalog, begun_catalog]
  rw [liveRows, live, hcatalog]
  split
  · rename_i hid
    subst hid
    by_cases hlt : id.index < db.catalog.tables.size
    · rw [Catalog.table_modify_self hlt]
      exact rows_changed h hwork id
    · obtain rfl : rows = [] := by
        by_contra hrows
        exact hlt (hknown hrows)
      have hsize := Nat.le_of_not_lt hlt
      rw [live, Catalog.table_of_size_le hsize, Catalog.table_of_size_le (by simpa using hsize)]
      rfl
  · rename_i hid
    rw [Catalog.table_modify_of_ne hid, liveRows, live]
    congr 1
    exact List.filter_congr fun v hv => countsFor_kept h hwork hv

private theorem liveRows_undone : (db'.ended t .aborted).liveRows = db.liveRows := by
  have hcommitted : ∀ x, (db'.ended t .aborted).committed x = true ↔ db.Committed x := by
    intro x
    rw [committed_iff, committed_worked h hwork]
    exact or_iff_left fun hme => by cases hme.1
  have hrows : db'.rowsFor (db'.ended t .aborted).committed =
      (db.begun t).rowsFor (db'.ended t .aborted).committed := by
    refine rowsFor_writes hwork.writes ?_ fun d hd haborted => ?_
    · rw [Bool.eq_false_iff, ne_eq, hcommitted]
      exact fun hc => h.ne_start hc.1 rfl
    · obtain ⟨hx, hstatus⟩ := (hcommitted d).mp hd
      rw [status_begun hx, hstatus] at haborted
      cases haborted
  funext id
  have hvalues := congrArg (List.map (·.values)) (congrFun hrows id)
  rw [values_rowsFor, values_rowsFor, begun_catalog] at hvalues
  rw [liveRows, live, ended_catalog, hvalues, liveRows, live]
  congr 1
  exact List.filter_congr fun v hv => countsFor_kept h hwork hv

end

theorem layout_worked (hwork : Worked t table rids rows db db') :
    db'.catalog.tables.size = db.catalog.tables.size ∧
      ∀ id, (db.catalog.table id).schema = (db'.catalog.table id).schema := by
  cases hwork with
  | idle _ _ hwork =>
    exact ⟨by rw [hwork.catalog, Catalog.size_modify], fun id => (schema_applied hwork id).symm⟩
  | busy hwork =>
    refine ⟨by rw [hwork.catalog, Catalog.size_modify, begun_catalog], fun id => ?_⟩
    rw [schema_applied hwork, begun_catalog]

theorem settled_worked (h : db.Alone t) (hwork : Worked t table rids rows db db') :
    (db'.ended t how).Settled := by
  cases hwork with
  | idle _ _ hwork =>
    rw [Settled, (ended_idle h hwork).2]
    exact h.settled
  | busy hwork => exact settled_busy h hwork

/-- If the transaction commits, the rows that it deletes are gone, and those that it appends follow. -/
theorem liveRows_committed (h : db.Alone t) (hwork : Worked t table rids rows db db')
    (hknown : rows ≠ [] → table.index < db.catalog.tables.size)
    (id : TableId) : (db'.ended t .committed).liveRows id =
      if id = table then ((db.live table).filter (·.rid ∉ rids)).map (·.values) ++ rows
      else db.liveRows id := by
  cases hwork with
  | idle hrids hrows hwork =>
    obtain ⟨hcatalog, hregistry⟩ : (db'.ended t .committed).catalog = db.catalog ∧
        (db'.ended t .committed).registry = db.registry := ended_idle h hwork
    subst hrids hrows
    rw [liveRows, live_congr hcatalog hregistry]
    split
    · rename_i hid
      rw [hid]
      simp
    · rfl
  | busy hwork => exact liveRows_busy h hwork hknown id

theorem liveRows_aborted (h : db.Alone t) (hwork : Worked t table rids rows db db') :
    (db'.ended t .aborted).liveRows = db.liveRows := by
  cases hwork with
  | idle _ _ hwork =>
    obtain ⟨hcatalog, hregistry⟩ : (db'.ended t .aborted).catalog = db.catalog ∧
        (db'.ended t .aborted).registry = db.registry := ended_idle h hwork
    funext id
    rw [liveRows, liveRows, live_congr hcatalog hregistry]
  | busy hwork => exact liveRows_undone h hwork

end Database

end SnapshotSql
