import SnapshotSql.Operator.Iterate
import SnapshotSql.Proofs.Transaction.WriteExclusion
/-! # Rows written one after the other -/

namespace SnapshotSql

def TableSchema.fits (s : TableSchema) (values : List Value) : Bool :=
  (s.recordFault? values).isNone

def Version.stampIn (me : TxId) (rids : List RowId) (v : Version) : Version :=
  if v.rid ∈ rids then { v with deleter := some me } else v

def Version.ofRows (me : TxId) : Nat → List (List Value) → List Version
  | _, [] => []
  | slot, values :: rest => ⟨⟨slot⟩, values, me, none⟩ :: ofRows me (slot + 1) rest

/-- The table with some versions stamped and some rows appended by a transaction. -/
def Table.changed (me : TxId) (rids : List RowId) (rows : List (List Value)) (t : Table) : Table :=
  { t with versions :=
      (t.versions.toList.map (Version.stampIn me rids) ++
        Version.ofRows me t.versions.size rows).toArray }

namespace Version

variable {me : TxId}

@[simp] theorem stampIn_nil (v : Version) : v.stampIn me [] = v := by simp [stampIn]

@[simp] theorem creator_stampIn (rids : List RowId) (v : Version) :
    (v.stampIn me rids).creator = v.creator := by
  unfold stampIn
  split <;> rfl

@[simp] theorem values_stampIn (rids : List RowId) (v : Version) :
    (v.stampIn me rids).values = v.values := by
  unfold stampIn
  split <;> rfl

theorem stampIn_of_mem {rids : List RowId} {v : Version} (h : v.rid ∈ rids) :
    v.stampIn me rids = { v with deleter := some me } := if_pos h

theorem stampIn_of_notMem {rids : List RowId} {v : Version} (h : v.rid ∉ rids) :
    v.stampIn me rids = v := if_neg h

theorem stampIn_stampIn (rids rids' : List RowId) (v : Version) :
    (v.stampIn me rids).stampIn me rids' = v.stampIn me (rids ++ rids') := by
  by_cases h : v.rid ∈ rids <;> by_cases h' : v.rid ∈ rids' <;> simp [stampIn, h, h']

theorem ofRows_append (slot : Nat) (rows rows' : List (List Value)) :
    ofRows me slot (rows ++ rows') = ofRows me slot rows ++ ofRows me (slot + rows.length) rows' := by
  induction rows generalizing slot with
  | nil => rfl
  | cons values rows ih =>
    rw [List.cons_append, ofRows, ih, ofRows, List.cons_append, List.length_cons,
      Nat.add_right_comm, Nat.add_assoc]

theorem length_ofRows (slot : Nat) (rows : List (List Value)) :
    (ofRows me slot rows).length = rows.length := by
  induction rows generalizing slot with
  | nil => rfl
  | cons values rows ih => rw [ofRows, List.length_cons, ih, List.length_cons]

theorem getElem?_ofRows (slot : Nat) (rows : List (List Value)) (i : Nat) :
    (ofRows me slot rows)[i]? = rows[i]?.map fun values => ⟨⟨slot + i⟩, values, me, none⟩ := by
  induction rows generalizing slot i with
  | nil => rfl
  | cons values rows ih =>
    cases i with
    | zero => rfl
    | succ i => simp [ofRows, ih, Nat.add_comm, Nat.add_left_comm]

theorem mem_ofRows {slot : Nat} {rows : List (List Value)} {v : Version}
    (h : v ∈ ofRows me slot rows) : slot ≤ v.rid.slot ∧ v.creator = me ∧ v.deleter = none := by
  induction rows generalizing slot with
  | nil => cases h
  | cons values rows ih =>
    rcases List.mem_cons.mp h with rfl | h
    · exact ⟨Nat.le_refl slot, rfl, rfl⟩
    · obtain ⟨hslot, hrest⟩ := ih h
      exact ⟨Nat.le_of_succ_le hslot, hrest⟩

theorem values_ofRows (slot : Nat) (rows : List (List Value)) :
    (ofRows me slot rows).map (·.values) = rows := by
  induction rows generalizing slot with
  | nil => rfl
  | cons values rows ih => rw [ofRows, List.map_cons, ih]

end Version

namespace Table

variable {me : TxId} (t : Table)

@[simp] theorem schema_changed (rids : List RowId) (rows : List (List Value)) :
    (t.changed me rids rows).schema = t.schema := rfl

@[simp] theorem changed_nil : t.changed me [] [] = t := by
  have hstamp : Version.stampIn me [] = id := funext Version.stampIn_nil
  simp [changed, hstamp, Version.ofRows]

theorem size_changed (rids : List RowId) (rows : List (List Value)) :
    (t.changed me rids rows).versions.size = t.versions.size + rows.length := by
  simp [changed, Version.length_ofRows]

theorem append_eq_changed (values : List Value) :
    t.append ⟨t.nextRid, values, me, none⟩ = t.changed me [] [values] := by
  have hstamp : Version.stampIn me [] = id := funext Version.stampIn_nil
  simp only [append, changed, hstamp, List.map_id, Version.ofRows]
  congr 1
  apply Array.ext'
  simp [nextRid]

theorem changed_changed {rids rids' : List RowId} {rows rows' : List (List Value)}
    (h : ∀ rid ∈ rids', rid.slot < t.versions.size) :
    (t.changed me rids rows).changed me rids' rows' =
      t.changed me (rids ++ rids') (rows ++ rows') := by
  have hnew : (Version.ofRows me t.versions.size rows).map (Version.stampIn me rids') =
      Version.ofRows me t.versions.size rows := by
    refine (List.map_congr_left fun v hv => ?_).trans (List.map_id _)
    refine Version.stampIn_of_notMem fun hmem => ?_
    exact Nat.not_lt_of_le (Version.mem_ofRows hv).1 (h _ hmem)
  have hold : t.versions.toList.map (Version.stampIn me rids' ∘ Version.stampIn me rids) =
      t.versions.toList.map (Version.stampIn me (rids ++ rids')) :=
    List.map_congr_left fun v _ => Version.stampIn_stampIn rids rids' v
  rw [changed, size_changed]
  simp only [changed, List.map_append, List.map_map, hold, hnew, Version.ofRows_append,
    List.append_assoc]

theorem stamp_eq_changed {rid : RowId}
    (h : ∀ slot v, t.version? slot = some v → v.rid = ⟨slot⟩) :
    t.stamp rid (some me) = t.changed me [rid] [] := by
  simp only [stamp, changed, Version.ofRows, List.append_nil]
  congr 1
  apply Array.ext'
  rw [Array.toList_modify]
  apply List.ext_getElem?
  intro slot
  rw [List.getElem?_modify, List.getElem?_map]
  cases hv : t.versions.toList[slot]? with
  | none => rfl
  | some v =>
    have hrid : v.rid = ⟨slot⟩ := h slot v (by rw [version?, ← hv, Array.getElem?_toList])
    obtain ⟨r⟩ := rid
    by_cases hslot : r = slot
    · simp [hslot, Version.stampIn, hrid]
    · simp [hslot, Version.stampIn, hrid, Ne.symm hslot]

theorem stamp_eq_self {rid : RowId} {v : Version} (hv : t.version? rid.slot = some v)
    (hd : v.deleter = some me) : t.stamp rid (some me) = t := by
  have hversions : t.versions.modify rid.slot (fun v => { v with deleter := some me }) =
      t.versions := by
    apply Array.ext_getElem?
    intro slot
    rw [Array.getElem?_modify]
    split
    · rename_i hslot
      rw [version?, hslot] at hv
      rw [hv, Option.map_some, ← hd]
    · rfl
  rw [stamp, hversions]

theorem version?_changed {rids : List RowId} {rows : List (List Value)} {slot : Nat} {v : Version}
    (hv : t.version? slot = some v) :
    (t.changed me rids rows).version? slot = some (v.stampIn me rids) := by
  obtain ⟨hlt, _⟩ := Array.getElem?_eq_some_iff.mp hv
  have hlt : slot < (t.versions.toList.map (Version.stampIn me rids)).length := by simpa using hlt
  rw [version?, changed, List.getElem?_toArray, List.getElem?_append_left hlt, List.getElem?_map,
    Array.getElem?_toList, show t.versions[slot]? = some v from hv]
  rfl

theorem version?_changed_cases {rids : List RowId} {rows : List (List Value)} {slot : Nat}
    {v : Version} (hv : (t.changed me rids rows).version? slot = some v) :
    (∃ w, t.version? slot = some w ∧ v = w.stampIn me rids) ∨
      v ∈ Version.ofRows me t.versions.size rows := by
  rw [version?, changed, List.getElem?_toArray, List.getElem?_append] at hv
  split at hv
  · rw [List.getElem?_map, Option.map_eq_some_iff] at hv
    obtain ⟨w, hw, rfl⟩ := hv
    rw [Array.getElem?_toList] at hw
    exact .inl ⟨w, hw, rfl⟩
  · exact .inr (List.mem_of_getElem? hv)

end Table

namespace Catalog

variable {c : Catalog} {id : TableId} {f g : Table → Table}

theorem modify_congr (h : f (c.table id) = g (c.table id)) : c.modify id f = c.modify id g := by
  have htables : c.tables.modify id.index f = c.tables.modify id.index g := by
    ext i hi hi'
    · simp
    · rw [Array.getElem_modify, Array.getElem_modify]
      split
      · rename_i hid
        have hi : id.index < c.tables.size := by
          rw [Array.size_modify] at hi
          omega
        have htable : c.table id = c.tables[id.index] := by
          rw [table, Array.getElem?_eq_getElem hi, Option.getD_some]
        rw [htable] at h
        subst hid
        exact h
      · rfl
  rw [modify, modify, htables]

theorem modify_modify (c : Catalog) (id : TableId) (f g : Table → Table) :
    (c.modify id f).modify id g = c.modify id (g ∘ f) := by
  have htables : (c.tables.modify id.index f).modify id.index g =
      c.tables.modify id.index (g ∘ f) := by
    ext i hi hi'
    · simp
    · simp only [Array.getElem_modify]
      split <;> rfl
  rw [modify, modify, modify, htables]

theorem modify_id (c : Catalog) (id : TableId) : c.modify id (fun t => t) = c := by
  have htables : c.tables.modify id.index (fun t => t) = c.tables := by
    ext i hi hi'
    · simp
    · rw [Array.getElem_modify]
      split <;> rfl
  rw [modify, htables]

end Catalog

namespace Database

/-- What writing some rows of a table has done: versions are stamped, rows are appended. -/
structure Applied (me : TxId) (table : TableId) (rids : List RowId) (rows : List (List Value))
    (db db' : Database) : Prop where
  writes : Writes me db db'
  catalog : db'.catalog = db.catalog.modify table (·.changed me rids rows)

def MayDelete (me : TxId) (table : TableId) (rid : RowId) (db : Database) : Prop :=
  ∃ v, db.version? table rid = some v ∧ db.registry.deleteVerdict me v ≠ .refuse

variable {me : TxId} {table : TableId} {rids rids' : List RowId} {rows rows' : List (List Value)}
  {db db' db'' : Database} {t : TxHandle} {rid : RowId} {v : Version}

theorem applied_refl (me : TxId) (table : TableId) (db : Database) :
    db.Applied me table [] [] db where
  writes := .refl
  catalog := by
    have hnil : (fun t : Table => t.changed me [] []) = fun t => t :=
      funext fun t => t.changed_nil
    rw [hnil, Catalog.modify_id]

theorem lt_size_of_mayDelete (h : db.MayDelete me table rid) :
    rid.slot < (db.catalog.table table).versions.size := by
  obtain ⟨v, hv, _⟩ := h
  exact (Array.getElem?_eq_some_iff.mp hv).1

theorem applied_trans (hrids : ∀ rid ∈ rids', rid.slot < (db.catalog.table table).versions.size)
    (h : db.Applied me table rids rows db') (h' : db'.Applied me table rids' rows' db'') :
    db.Applied me table (rids ++ rids') (rows ++ rows') db'' where
  writes := h.writes.trans h'.writes
  catalog := by
    rw [h'.catalog, h.catalog, Catalog.modify_modify]
    exact Catalog.modify_congr (Table.changed_changed _ hrids)

private theorem deleteVerdict_stamped (r : Registry) {v : Version}
    (h : r.deleteVerdict me v ≠ .refuse) :
    r.deleteVerdict me { v with deleter := some me } ≠ .refuse := by
  unfold Registry.deleteVerdict at h ⊢
  split
  · rename_i hactive
    rw [if_pos hactive] at h
    exact h
  · simp

private theorem mayDelete_write (hw : Write me db db') (h : db.MayDelete me table rid) :
    db'.MayDelete me table rid := by
  obtain ⟨v, hv, hd⟩ := h
  cases hw with
  | count u => exact ⟨v, hv, hd⟩
  | append other values => exact ⟨v, version?_appended_of_some hv, hd⟩
  | @stamp other r w hw hdw =>
    refine ⟨_, (version?_stamped db other table r rid me).trans (congrArg _ hv), ?_⟩
    change db.registry.deleteVerdict me _ ≠ .refuse
    split
    · exact deleteVerdict_stamped db.registry hd
    · exact hd

theorem mayDelete_writes (hw : Writes me db db') (h : db.MayDelete me table rid) :
    db'.MayDelete me table rid := by
  induction hw with
  | refl => exact h
  | tail _ hstep ih => exact mayDelete_write hstep ih

theorem sound_applied (hs : db.Sound) (ht : db.Active t) (hme : db.number? t = some me)
    (h : db.Applied me table rids rows db') : db'.Sound :=
  sound_changes hs (changes_of_writes ht hme h.writes)

theorem active_applied (ht : db.Active t) (h : db.Applied me table rids rows db') : db'.Active t :=
  (active_writes h.writes).mpr ht

theorem number?_applied (hme : db.number? t = some me) (h : db.Applied me table rids rows db') :
    db'.number? t = some me := by
  rw [number?, started_writes h.writes]
  exact hme

theorem schema_applied (h : db.Applied me table rids rows db') (id : TableId) :
    (db'.catalog.table id).schema = (db.catalog.table id).schema := by
  rw [h.catalog, Catalog.schema_modify fun t => t.schema_changed rids rows]

theorem version?_applied (h : db.Applied me table rids rows db') {id : TableId}
    (hv : db.version? id rid = some v) :
    db'.version? id rid = some (if id = table then v.stampIn me rids else v) := by
  rw [version?, h.catalog]
  by_cases hid : id = table
  · subst hid
    rw [Catalog.table_modify_self (Catalog.lt_size_of_version? hv), if_pos rfl, Table.version?_changed _ hv]
  · rw [Catalog.table_modify_of_ne hid, if_neg hid]
    exact hv

theorem version?_applied_cases (h : db.Applied me table rids rows db') {id : TableId}
    (hv : db'.version? id rid = some v) :
    (∃ w, db.version? id rid = some w ∧ v = if id = table then w.stampIn me rids else w) ∨
      id = table ∧ v ∈ Version.ofRows me (db.catalog.table table).versions.size rows := by
  by_cases hid : id = table
  · subst hid
    have hk := Catalog.lt_size_of_version? hv
    rw [h.catalog, Catalog.size_modify] at hk
    rw [version?, h.catalog, Catalog.table_modify_self hk] at hv
    rcases Table.version?_changed_cases _ hv with ⟨w, hw, rfl⟩ | hnew
    · exact .inl ⟨w, hw, by rw [if_pos rfl]⟩
    · exact .inr ⟨rfl, hnew⟩
  · rw [version?, h.catalog, Catalog.table_modify_of_ne hid] at hv
    exact .inl ⟨v, hv, by rw [if_neg hid]⟩

/-- A transaction has stamped these versions of a table and appended these rows to it, and otherwise tables
are as they were. -/
structure Rewrites (me : TxId) (table : TableId) (found : List Version) (rows : List (List Value))
    (db db' : Database) : Prop where
  stamped : ∀ {rid v}, db.version? table rid = some v →
    db'.version? table rid = some (if v ∈ found then { v with deleter := some me } else v)
  appended : ∀ {rid}, db.version? table rid = none → db'.version? table rid =
    rows[rid.slot - (db.catalog.table table).versions.size]?.map fun values =>
      ⟨rid, values, me, none⟩
  others : ∀ {id}, id ≠ table → db'.catalog.table id = db.catalog.table id
  schema : (db'.catalog.table table).schema = (db.catalog.table table).schema
  entries : db'.catalog.entries = db.catalog.entries

theorem rewrites_of_applied {found : List Version} (hs : db.Sound)
    (hsize : table.index < db.catalog.tables.size)
    (hfound : ∀ v ∈ found, ∃ rid, db.version? table rid = some v)
    (h : (db.begun t).Applied me table (found.map (·.rid)) rows db') :
    db.Rewrites me table found rows db' where
  stamped {rid v} hv := by
    have hv' : (db.begun t).version? table rid = some v := by
      rwa [version?_of_catalog_eq begun_catalog]
    rw [version?_applied h hv', if_pos rfl]
    by_cases hmem : v ∈ found
    · rw [if_pos hmem, Version.stampIn_of_mem (List.mem_map_of_mem hmem)]
    · rw [if_neg hmem, Version.stampIn_of_notMem]
      intro hrid
      obtain ⟨w, hw, hsame⟩ := List.mem_map.mp hrid
      obtain ⟨r, hr⟩ := hfound w hw
      obtain rfl : rid = r := by rw [← hs.rid hv, ← hs.rid hr, hsame]
      rw [hv] at hr
      exact hmem (Option.some.inj hr ▸ hw)
  appended {rid} hnone := by
    have hold : (db.catalog.table table).versions.size ≤ rid.slot := Array.getElem?_eq_none_iff.mp hnone
    rw [version?, h.catalog, begun_catalog, Catalog.table_modify_self hsize, Table.version?,
      Table.changed, List.getElem?_toArray, List.getElem?_append_right (by simpa using hold)]
    simp only [List.length_map, Array.length_toList, Version.getElem?_ofRows, Nat.add_sub_cancel' hold]
  others hid := by rw [h.catalog, begun_catalog, Catalog.table_modify_of_ne hid]
  schema := by rw [schema_applied h, begun_catalog]
  entries := by
    rw [h.catalog, begun_catalog]
    rfl

end Database

namespace TxHandle

variable {me : TxId} {table : TableId} {db : Database} {t : TxHandle}

theorem insertRow_applied (ht : db.Active t) (hme : db.number? t = some me) {values : List Value}
    (hfit : (db.catalog.table table).schema.recordFault? values = none) :
    ∃ db', (t.insertRow table values).run db = .ok (db.catalog.table table).nextRid db' ∧
      db.Applied me table [] [values] db' := by
  rw [insertRow_run ht, hfit, Database.begun_of_number? hme, Database.start_of_number? hme]
  refine ⟨_, rfl, .tail (.single (.append db table values)) (.count _ t), ?_⟩
  exact Catalog.modify_congr (Table.append_eq_changed _ values)

theorem deleteRow_applied (hs : db.Sound) (ht : db.Active t) (hme : db.number? t = some me)
    {rid : RowId} (h : db.MayDelete me table rid) :
    ∃ db', (t.deleteRow table rid).run db = .ok () db' ∧ db.Applied me table [rid] [] db' := by
  obtain ⟨v, hv, hd⟩ := h
  have hstamp : (db.catalog.table table).stamp rid (some me) =
      (db.catalog.table table).changed me [rid] [] :=
    Table.stamp_eq_changed _ fun slot w hw => (hs.rid hw : w.rid = ⟨slot⟩)
  rw [deleteRow_run ht, Database.begun_of_number? hme, Database.start_of_number? hme]
  simp only [hv]
  cases hverdict : db.registry.deleteVerdict me v with
  | refuse => exact absurd hverdict hd
  | done =>
    refine ⟨_, rfl, .single (.count db t), ?_⟩
    have hsame := Table.stamp_eq_self _ hv (Database.deleteVerdict_done hverdict)
    exact (Catalog.modify_id _ table).symm.trans
      (Catalog.modify_congr (hsame.symm.trans hstamp))
  | stamp =>
    exact ⟨_, rfl, .tail (.single (.stamp hv hverdict)) (.count _ t), Catalog.modify_congr hstamp⟩

theorem updateRow_applied (hs : db.Sound) (ht : db.Active t) (hme : db.number? t = some me)
    {rid : RowId} {values : List Value} (h : db.MayDelete me table rid)
    (hfit : (db.catalog.table table).schema.recordFault? values = none) :
    ∃ db', (t.updateRow table rid values).run db = .ok (db.catalog.table table).nextRid db' ∧
      db.Applied me table [rid] [values] db' := by
  obtain ⟨mid, hdelete, hstamped⟩ := deleteRow_applied hs ht hme h
  have hrid : (mid.catalog.table table).nextRid = (db.catalog.table table).nextRid := by
    obtain ⟨v, hv, _⟩ := h
    rw [Table.nextRid, hstamped.catalog,
      Catalog.table_modify_self (Catalog.lt_size_of_version? hv), Table.size_changed]
    rfl
  rw [updateRow_run, hfit]
  simp only [hdelete]
  rw [← Database.schema_applied hstamped] at hfit
  obtain ⟨db', hinsert, happended⟩ := insertRow_applied (Database.active_applied ht hstamped)
    (Database.number?_applied hme hstamped) hfit
  rw [hrid] at hinsert
  exact ⟨db', hinsert, Database.applied_trans (List.forall_mem_nil _) hstamped happended⟩

end TxHandle

/-! ## Whole statements -/

namespace Operator

variable {me : TxId} {table : TableId} {db : Database} {t : TxHandle}

theorem deleteRows_applied (rids : List RowId) (hs : db.Sound) (ht : db.Active t)
    (hme : db.number? t = some me) (h : ∀ rid ∈ rids, db.MayDelete me table rid) :
    ∃ db', (deleteRows t table rids).run db = .ok () db' ∧ db.Applied me table rids [] db' := by
  induction rids generalizing db with
  | nil => exact ⟨db, rfl, Database.applied_refl me table db⟩
  | cons rid rids ih =>
    obtain ⟨mid, hrun, happlied⟩ := TxHandle.deleteRow_applied hs ht hme (h rid List.mem_cons_self)
    have hrest : ∀ r ∈ rids, db.MayDelete me table r := fun r hr => h r (List.mem_cons_of_mem rid hr)
    obtain ⟨db', hruns, happlieds⟩ := ih (Database.sound_applied hs ht hme happlied)
      (Database.active_applied ht happlied) (Database.number?_applied hme happlied)
      fun r hr => Database.mayDelete_writes happlied.writes (hrest r hr)
    refine ⟨db', ?_, Database.applied_trans
      (fun r hr => Database.lt_size_of_mayDelete (hrest r hr)) happlied happlieds⟩
    simp only [deleteRows, EStateM.run_bind, hrun, hruns]

theorem insertRows_applied (records : List (List Value)) (ht : db.Active t)
    (hme : db.number? t = some me) :
    ∃ db', db.Applied me table [] (records.takeWhile (db.catalog.table table).schema.fits) db' ∧
      (insertRows t table records).run db =
        match records.findSome? (db.catalog.table table).schema.recordFault? with
        | none => .ok () db'
        | some e => .error (.storage (.schema e)) db' := by
  induction records generalizing db with
  | nil => exact ⟨db, Database.applied_refl me table db, rfl⟩
  | cons values records ih =>
    rw [List.findSome?_cons]
    cases hfault : (db.catalog.table table).schema.recordFault? values with
    | some e =>
      rw [List.takeWhile_cons_of_neg (by simp [TableSchema.fits, hfault])]
      refine ⟨db, Database.applied_refl me table db, ?_⟩
      simp only [insertRows, EStateM.run_bind, TxHandle.insertRow_run ht, hfault,
        Database.begun_of_number? hme]
    | none =>
      obtain ⟨mid, hrun, happlied⟩ := TxHandle.insertRow_applied ht hme hfault
      obtain ⟨db', happlieds, hruns⟩ := ih (Database.active_applied ht happlied)
        (Database.number?_applied hme happlied)
      rw [Database.schema_applied happlied] at happlieds hruns
      rw [List.takeWhile_cons_of_pos (by simp [TableSchema.fits, hfault])]
      refine ⟨db', Database.applied_trans (List.forall_mem_nil _) happlied happlieds, ?_⟩
      simp only [insertRows, EStateM.run_bind, hrun, hruns]

theorem updateRows_applied (changes : List (RowId × List Value)) (hs : db.Sound)
    (ht : db.Active t) (hme : db.number? t = some me)
    (h : ∀ change ∈ changes, db.MayDelete me table change.1) :
    ∃ db', let taken := changes.takeWhile fun change =>
          (db.catalog.table table).schema.fits change.2
      db.Applied me table (taken.map (·.1)) (taken.map (·.2)) db' ∧
      (updateRows t table changes).run db =
        match changes.findSome? fun change =>
          (db.catalog.table table).schema.recordFault? change.2 with
        | none => .ok () db'
        | some e => .error (.storage (.schema e)) db' := by
  induction changes generalizing db with
  | nil => exact ⟨db, Database.applied_refl me table db, rfl⟩
  | cons change changes ih =>
    obtain ⟨rid, values⟩ := change
    rw [List.findSome?_cons]
    cases hfault : (db.catalog.table table).schema.recordFault? values with
    | some e =>
      rw [List.takeWhile_cons_of_neg (by simp [TableSchema.fits, hfault])]
      refine ⟨db, Database.applied_refl me table db, ?_⟩
      simp only [updateRows, EStateM.run_bind, TxHandle.updateRow_run, hfault]
    | none =>
      obtain ⟨mid, hrun, happlied⟩ :=
        TxHandle.updateRow_applied hs ht hme (h _ List.mem_cons_self) hfault
      have hrest : ∀ change ∈ changes, db.MayDelete me table change.1 :=
        fun c hc => h c (List.mem_cons_of_mem _ hc)
      obtain ⟨db', happlieds, hruns⟩ := ih (Database.sound_applied hs ht hme happlied)
        (Database.active_applied ht happlied) (Database.number?_applied hme happlied)
        fun c hc => Database.mayDelete_writes happlied.writes (hrest c hc)
      rw [Database.schema_applied happlied] at happlieds hruns
      rw [List.takeWhile_cons_of_pos (by simp [TableSchema.fits, hfault])]
      refine ⟨db', Database.applied_trans ?_ happlied happlieds, ?_⟩
      · intro r hr
        obtain ⟨c, hc, rfl⟩ := List.mem_map.mp hr
        exact Database.lt_size_of_mayDelete (hrest c ((List.takeWhile_prefix _).subset hc))
      · simp only [updateRows, EStateM.run_bind, hrun, hruns]

end Operator

end SnapshotSql
