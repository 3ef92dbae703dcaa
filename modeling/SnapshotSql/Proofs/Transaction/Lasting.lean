import SnapshotSql.Proofs.Query.Renumber
import SnapshotSql.Proofs.Transaction.Sight
/-! # What a snapshot shows lasts -/

namespace SnapshotSql

/-- The version counts as created and not as deleted for a reader to whom some transactions count. -/
def Version.countsFor (p : TxId → Bool) (v : Version) : Bool := p v.creator && !v.deleter.any p

namespace Database

/-- The rows of a table, in the order of their slots, for a reader to whom some transactions count. -/
def rowsFor (p : TxId → Bool) (db : Database) (table : TableId) : List Version :=
  (db.catalog.table table).versions.toList.filterMap fun v =>
    if v.countsFor p then some (v.renumber id) else none

variable {p : TxId → Bool} {db db' : Database} {t u : TxHandle} {table : TableId} {x me : TxId}
  {op : TxOp}

theorem rowsFor_congr (h : ∀ table, (db'.catalog.table table).versions =
    (db.catalog.table table).versions) : db'.rowsFor p = db.rowsFor p := by
  funext table
  rw [rowsFor, rowsFor, h]

private theorem filterMap_modify {α β : Type} {f : α → Option β} {g : α → α} {xs : List α} {i : Nat}
    (h : ∀ x, xs[i]? = some x → f (g x) = f x) : (xs.modify i g).filterMap f = xs.filterMap f := by
  induction xs generalizing i with
  | nil => cases i <;> rfl
  | cons x xs ih =>
    cases i with
    | zero => rw [List.modify_zero_cons, List.filterMap_cons, List.filterMap_cons, h x rfl]
    | succ i => rw [List.modify_succ_cons, List.filterMap_cons, List.filterMap_cons, ih h]

private theorem versions_modify (c : Catalog) (table other : TableId) (f : Table → Table) :
    ((c.modify table f).table other).versions = (c.table other).versions ∨
      other = table ∧ (c.modify table f).table other = f (c.table table) := by
  by_cases hother : other = table
  · subst hother
    by_cases hlt : other.index < c.tables.size
    · exact .inr ⟨rfl, Catalog.table_modify_self hlt⟩
    · left
      rw [Catalog.table_of_size_le (Nat.le_of_not_lt hlt),
        Catalog.table_of_size_le (by simpa using hlt)]
  · exact .inl (by rw [Catalog.table_modify_of_ne hother])

/-- What a transaction writes that does not count changes no row, as long as it leaves alone the stamps
that count. -/
theorem rowsFor_write (h : Write x db db') (hx : p x = false)
    (hp : ∀ d, p d = true → db.registry.status d ≠ .ended .aborted) :
    db'.rowsFor p = db.rowsFor p := by
  cases h with
  | count t => rfl
  | append table values =>
    funext other
    rw [rowsFor, rowsFor, appended]
    rcases versions_modify db.catalog table other _ with hsame | ⟨rfl, hsame⟩
    · rw [hsame]
    · rw [hsame, Table.append, Array.toList_push, List.filterMap_append]
      simp [Version.countsFor, hx]
  | @stamp table rid v hv hd =>
    funext other
    rw [rowsFor, rowsFor, stamped]
    rcases versions_modify db.catalog table other _ with hsame | ⟨rfl, hsame⟩
    · rw [hsame]
    · rw [hsame, Table.stamp, Array.toList_modify]
      refine filterMap_modify fun w hw => ?_
      have hw : db.version? other rid = some w := by
        rw [version?, Table.version?, ← Array.getElem?_toList, hw]
      cases hv.symm.trans hw
      have hdeleter : v.deleter.any p = false := by
        cases hvd : v.deleter with
        | none => rfl
        | some d =>
          have haborted := Registry.aborted_of_stamp hd hvd
          by_contra hpd
          exact hp d (by simpa using hpd) haborted
      have hcounts : (Version.countsFor p { v with deleter := some x }) = v.countsFor p := by
        simp [Version.countsFor, hdeleter, hx]
      rw [hcounts]
      rfl

theorem rowsFor_writes (h : Writes x db db') (hx : p x = false)
    (hp : ∀ d, p d = true → db.registry.status d ≠ .ended .aborted) :
    db'.rowsFor p = db.rowsFor p := by
  induction h with
  | refl => rfl
  | tail hwrites hw ih =>
    refine (rowsFor_write hw hx fun d hd => ?_).trans ih
    rw [registry_writes hwrites]
    exact hp d hd

/-- The transactions that count for the transaction `me` if its snapshot is taken now. -/
def countedFor (me : TxId) (db : Database) (x : TxId) : Bool :=
  x = me || x.number ≠ 0 && x.number ≤ db.registry.statuses.size &&
    db.registry.status x = .ended .committed

theorem countedFor_iff : db.countedFor me x = true ↔ x = me ∨ db.Committed x := by
  simp [countedFor, Committed, Registry.Registered, Nat.pos_iff_ne_zero]

/-- What the operations of others change is not shown by the snapshot of an active transaction. -/
theorem rowsFor_perform (hs : db'.Sound) (h : db.Evolves db') (ht : db'.Active t)
    (hme : db'.number? t = some me) (ha : op.actor? ≠ some t) :
    (op.perform db').2.rowsFor (db.countedFor me) = db'.rowsFor (db.countedFor me) := by
  have hled := TxOp.leadsTo_perform op db'
  generalize (op.perform db').2 = db'' at hled
  cases hled with
  | same => rfl
  | begin isolation => rfl
  | layout c _ hc => exact rowsFor_congr hc
  | ended => exact rowsFor_congr fun table => by rw [ended_catalog]
  | @work u _ hactor hu hw =>
    have hut : t ≠ u := fun htu => ha (htu ▸ hactor)
    have hs' : (db'.begun u).Sound := sound_change hs (.start hu)
    have h' : db.Evolves (db'.begun u) := evolves_trans h (evolves_change (.start hu))
    have hnumber : (db'.begun u).number? t = some me := by rw [number?_begun_of_ne hut, hme]
    have hu' : (db'.begun u).number? u = some (db'.start u).1 := number?_begun hu.1
    have hactive : ∀ {w x}, (db'.begun u).number? w = some x → (db'.begun u).Active w →
        (db'.begun u).registry.status x = .active := by
      intro w x hx hw
      rw [hs'.status hx, Transaction.status, hw.2]
      rfl
    have ht' : (db'.begun u).Active t := ⟨knows_begun.mpr ht.1, by rw [ending_begun hu.1, ht.2]⟩
    refine (rowsFor_writes hw ?_ ?_).trans (rowsFor_congr fun table => by rw [begun_catalog])
    · rw [Bool.eq_false_iff, ne_eq, countedFor_iff]
      rintro (hx | ⟨hregistered, hstatus⟩)
      · rw [hx] at hu'
        exact hut (hs'.distinct hnumber hu')
      · have hcommitted := h'.status hregistered hstatus
        rw [hactive hu' (active_begun hu)] at hcommitted
        cases hcommitted
    · intro d hd haborted
      rcases countedFor_iff.mp hd with rfl | ⟨hregistered, hstatus⟩
      · rw [hactive hnumber ht'] at haborted
        cases haborted
      · rw [h'.status hregistered hstatus] at haborted
        cases haborted

/-- A version is seen under a snapshot if it counts by what had committed when it was taken. -/
theorem visibility_begun (hs : db'.Sound) (h : db.Evolves db') {rid : RowId} {v : Version}
    (hv : db'.version? table rid = some v) :
    db'.registry.visibility (db.start t).1 (db.begun t).registry.snapshot .read v =
      if v.countsFor (db.countedFor (db.start t).1) then .visible else .invisible := by
  have hshows : ∀ {x}, db'.registry.Registered x →
      (db'.registry.Shows (db.start t).1 (db.begun t).registry.snapshot x ↔
        db.countedFor (db.start t).1 x = true) := by
    intro x hx
    rw [shows_begun h rfl hx, countedFor_iff]
  obtain ⟨hcontested, hvisible⟩ := db'.registry.visibility_read (db.start t).1
    (db.begun t).registry.snapshot v
  have hcounts : db'.registry.visibility (db.start t).1 (db.begun t).registry.snapshot .read v =
      .visible ↔ v.countsFor (db.countedFor (db.start t).1) = true := by
    rw [hvisible, hshows (hs.creator hv), Version.countsFor, Bool.and_eq_true, Bool.not_eq_true',
      Option.any_eq_false]
    refine and_congr_right fun _ => ⟨fun hd x hx => ?_, ?_⟩
    · have hregistered := hs.deleter hv hx
      by_contra hcounted
      exact hd ⟨x, hx, (hshows hregistered).mpr (by simpa using hcounted)⟩
    · rintro hd ⟨x, hx, hshown⟩
      rw [hshows (hs.deleter hv hx)] at hshown
      have := hd x hx
      rw [hshown] at this
      cases this
  split
  · rename_i hc
    exact hcounts.mpr hc
  · rename_i hc
    cases hseen : db'.registry.visibility (db.start t).1 (db.begun t).registry.snapshot .read v with
    | visible => exact absurd (hcounts.mp hseen) hc
    | invisible => rfl
    | contested => exact absurd hseen hcontested

/-- The transaction works under the number that it had or took in an earlier database, and what it would
have read there has lasted. -/
structure Lasts (t : TxHandle) (db db' : Database) : Prop where
  evolves : db.Evolves db'
  number : db'.number? t = some (db.start t).1
  rows : db'.rowsFor (db.countedFor (db.start t).1) = db.rowsFor (db.countedFor (db.start t).1)

theorem lasts_begun (ht : db.Active t) : Lasts t db (db.begun t) where
  evolves := evolves_change (.start ht)
  number := number?_begun ht.1
  rows := rowsFor_congr fun table => by rw [begun_catalog]

theorem lasts_perform (hs : db'.Sound) (ht : db'.Active t) (ha : op.actor? ≠ some t)
    (h : Lasts t db db') : Lasts t db (op.perform db').2 where
  evolves := evolves_trans h.evolves (evolves_perform hs op)
  number := (TxOp.number?_perform_of_ne ha db').trans h.number
  rows := (rowsFor_perform hs h.evolves ht h.number ha).trans h.rows

/-- The transaction that opens a query in this database reads the version, up to what is stamped on
it. -/
def Shows (t : TxHandle) (db : Database) (table : TableId) (v : Version) : Prop :=
  ∃ w, db.version? table v.rid = some w ∧ w.values = v.values ∧
    (db.reader t).see .read w = .visible

theorem shows_of_lasts (hs : db.Sound) (ht : db.Active t) (hs' : db'.Sound)
    (hlevel : (db.transaction t).isolation.pinsSnapshot = false) (h : Lasts t db db') {rid : RowId}
    {v : Version} (hv : db'.version? table rid = some v)
    (hseen : db'.registry.visibility (db.start t).1 (db.begun t).registry.snapshot .read v = .visible) :
    db.Shows t table v := by
  have hcounts : v.countsFor (db.countedFor (db.start t).1) = true := by
    rw [visibility_begun hs' h.evolves hv] at hseen
    by_contra hc
    rw [if_neg hc] at hseen
    cases hseen
  have hmem : v.renumber id ∈ db'.rowsFor (db.countedFor (db.start t).1) table := by
    rw [rowsFor, List.mem_filterMap]
    exact ⟨v, (mem_versions (t := t)).mpr ⟨rid, hv⟩, by rw [if_pos hcounts]⟩
  rw [h.rows, rowsFor, List.mem_filterMap] at hmem
  obtain ⟨w, hw, hsame⟩ := hmem
  split at hsame
  · rename_i hcounts
    have hrid : w.rid = v.rid := (congrArg Version.rid (Option.some.inj hsame) :)
    have hvalues : w.values = v.values := (congrArg Version.values (Option.some.inj hsame) :)
    have hw := version?_rid (t := t) hs hw
    rw [hrid] at hw
    have hbegun : (db.begun t).version? table v.rid = some w := by
      rw [version?_of_catalog_eq begun_catalog, hw]
    refine ⟨w, hw, hvalues, ?_⟩
    simp only [reader, snapshotOf, hlevel, Bool.false_eq_true, if_false]
    rw [visibility_begun (sound_change hs (.start ht)) (evolves_change (.start ht)) hbegun,
      if_pos hcounts]
  · cases hsame

/-- The transaction works under the number and the snapshot that it took in an earlier database. -/
structure Pinned (t : TxHandle) (db db' : Database) : Prop where
  evolves : db.Evolves db'
  started : (db'.transaction t).started = some ((db.start t).1, (db.begun t).registry.snapshot)

theorem number?_of_pinned (h : Pinned t db db') : db'.number? t = some (db.start t).1 := by
  rw [number?, h.started, Option.map_some]

theorem shown_of_pinned (hs : db'.Sound) (h : Pinned t db db')
    (hpins : (db'.transaction t).isolation.pinsSnapshot = true) (table : TableId) :
    (db'.reader t).shown id .read table =
      (db'.rowsFor (db.countedFor (db.start t).1) table).map fun v => (v, false) := by
  have hsee : ∀ v ∈ (db'.catalog.table table).versions.toList, (db'.reader t).see .read v =
      if v.countsFor (db.countedFor (db.start t).1) then .visible else .invisible := by
    intro v hv
    have hv := version?_rid (t := t) hs hv
    simp only [reader, snapshotOf, hpins, if_true, begun_of_started h.started,
      start_of_started h.started]
    exact visibility_begun hs h.evolves hv
  rw [Reader.shown, Reader.seen, rowsFor, List.map_filterMap, List.map_filterMap]
  refine List.filterMap_congr fun v hv => ?_
  rw [hsee v hv]
  split <;> rfl

end Database

theorem History.exists_pinned (h : History) {t : TxHandle} {r : TxId × Snapshot}
    (hr : (h.final.transaction t).started = some r) : ∃ db, Database.Pinned t db h.final := by
  rw [← h.stateAt_length] at hr ⊢
  obtain ⟨m, hm, hnone, hstarted, heq⟩ := h.exists_start h.length hr
  refine ⟨h.stateAt m, h.evolves_stateAt (Nat.le_of_lt hm), ?_⟩
  rw [hr, heq, Database.start_of_none hnone, Database.registry_begun_of_none hnone]

end SnapshotSql
