import SnapshotSql.Proofs.Query.Layout
import SnapshotSql.Proofs.Transaction.Batches
import SnapshotSql.Proofs.Transaction.Gap
import SnapshotSql.Proofs.Transaction.Sight
/-! # Databases with and without a transaction -/

namespace SnapshotSql

/-- No stamp, or that of a transaction that was rolled back or stands in the gap. -/
def Registry.Void (gap : Option TxId) (r : Registry) (stamp : Option TxId) : Prop :=
  ∀ x, stamp = some x → some x = gap ∨ r.status x = .ended .aborted

theorem Registry.void_none (gap : Option TxId) (r : Registry) : r.Void gap none := by
  intro x hx
  cases hx

/-- Two versions have the same values and corresponding stamps, or stamps that count for nothing. -/
structure Version.Alike (gap : Option TxId) (r r' : Registry) (v v' : Version) : Prop where
  values : v.values = v'.values
  creator : v.creator = v'.creator.past gap
  deleter : (r.Void gap v.deleter ∧ r'.Void none v'.deleter) ∨
    ∃ d : TxId, v.deleter = some (d.past gap) ∧ v'.deleter = some d

namespace Version

variable {gap : Option TxId} {r r' : Registry} {v v' : Version} {me me' : TxId}

namespace Alike

theorem stampIn {rids rids' : List RowId} (h : v.Alike gap r r' v') (hme : me = me'.past gap)
    (hrids : v.rid ∈ rids ↔ v'.rid ∈ rids') :
    (v.stampIn me rids).Alike gap r r' (v'.stampIn me' rids') := by
  by_cases hmem : v.rid ∈ rids
  · rw [stampIn_of_mem hmem, stampIn_of_mem (hrids.mp hmem), hme]
    exact ⟨h.values, h.creator, .inr ⟨me', rfl, rfl⟩⟩
  · rw [stampIn_of_notMem hmem, stampIn_of_notMem fun hmem' => hmem (hrids.mpr hmem')]
    exact h

theorem opened (h : v.Alike none r r' v') (hskips : r.Skips none r')
    (hdeleter : ∀ x, v.deleter = some x → r.Registered x) (hcreator' : r'.Registered v'.creator)
    (hdeleter' : ∀ x, v'.deleter = some x → r'.Registered x) :
    v.Alike (some r.register.1) r.register.2 r' v' := by
  refine ⟨h.values, ?_, ?_⟩
  · rw [hskips.past_opened hcreator', h.creator, TxId.past_none]
  · rcases h.deleter with ⟨hvoid, hvoid'⟩ | ⟨x, hx, hx'⟩
    · refine .inl ⟨fun x hx => .inr ?_, hvoid'⟩
      rw [Registry.status_register (hdeleter x hx)]
      apply (hvoid x hx).resolve_left
      intro hgap
      cases hgap
    · refine .inr ⟨x, ?_, hx'⟩
      rw [hskips.past_opened (hdeleter' x hx'), hx, TxId.past_none]

/-- A stamp that counted for nothing may be replaced by that of the transaction in the gap. -/
theorem stampIn_gap {g : TxId} {rids : List RowId} (h : v.Alike (some g) r r' v')
    (hskips : r.Skips (some g) r') (hdeleter' : ∀ x, v'.deleter = some x → r'.Registered x)
    (hvoid : v.rid ∈ rids → r.Void (some g) v.deleter) : (v.stampIn g rids).Alike (some g) r r' v' := by
  by_cases hmem : v.rid ∈ rids
  · rw [stampIn_of_mem hmem]
    refine ⟨h.values, h.creator, .inl ⟨fun x hx => .inl hx.symm, ?_⟩⟩
    rcases h.deleter with ⟨_, hvoid'⟩ | ⟨x, hx, hx'⟩
    · exact hvoid'
    · intro y hy
      cases hx'.symm.trans hy
      refine .inr ?_
      rw [← hskips.status x (hdeleter' x hx')]
      rcases hvoid hmem _ hx with hgap | haborted
      · exact absurd hgap (TxId.past_ne_gap _ x)
      · exact haborted
  · rw [stampIn_of_notMem hmem]
    exact h

end Alike

theorem alike_ofRows (hme : me = me'.past gap) (n n' : Nat) (rows : List (List Value)) :
    ∀ p ∈ (ofRows me n rows).zip (ofRows me' n' rows), p.1.Alike gap r r' p.2 := by
  intro p hp
  obtain ⟨i, hi⟩ := List.mem_iff_getElem?.mp hp
  obtain ⟨hv, hv'⟩ := List.getElem?_zip_eq_some.mp hi
  rw [getElem?_ofRows, Option.map_eq_some_iff] at hv hv'
  obtain ⟨values, hvalues, hv⟩ := hv
  obtain ⟨values', hvalues', hv'⟩ := hv'
  rw [← hv, ← hv']
  have hsame : values = values' := Option.some.inj (hvalues.symm.trans hvalues')
  exact ⟨hsame, hme, .inl ⟨Registry.void_none _ _, Registry.void_none _ _⟩⟩

end Version

namespace Database

/-- The versions of a table that the transaction `t` did not create. -/
def kept (t : TxHandle) (db : Database) (table : TableId) : List Version :=
  (db.catalog.table table).versions.toList.filter fun v => some v.creator ≠ db.number? t

/-- The versions that `t` did not create, each next to the one in its place in another database. -/
def pairs (t : TxHandle) (db db' : Database) (table : TableId) : List (Version × Version) :=
  (db.kept t table).zip (db'.catalog.table table).versions.toList

/-- The database has what another one has and, in addition, the transaction `t`. -/
structure Mirrors (t : TxHandle) (db db' : Database) : Prop where
  layout : db.catalog.SameLayout db'.catalog
  tables : db.catalog.tables.size = db'.catalog.tables.size
  length : ∀ table, (db.kept t table).length = (db'.catalog.table table).versions.toList.length
  alike : ∀ table, ∀ p ∈ pairs t db db' table,
    p.1.Alike (db.number? t) db.registry db'.registry p.2
  handles : db.transactions.size = db'.transactions.size + 1
  before : t.index ≤ db'.transactions.size
  transactions : ∀ u, db'.Knows u →
    (db.transaction (t.past u)).Alike (db.number? t) (db'.transaction u)
  registry : Registry.Skips (db.number? t) db.registry db'.registry

variable {t u : TxHandle} {db db' d d' : Database} {table : TableId} {how : Ending}

theorem stored_of_mem_pairs (hs : db.Sound) (hs' : db'.Sound) {p : Version × Version}
    (hp : p ∈ pairs t db db' table) :
    db.version? table p.1.rid = some p.1 ∧ db'.version? table p.2.rid = some p.2 := by
  obtain ⟨hkept, hstored⟩ := List.of_mem_zip hp
  exact ⟨version?_rid (t := t) hs (List.mem_filter.mp hkept).1, version?_rid (t := t) hs' hstored⟩

theorem kept_congr (hcatalog : d.catalog = db.catalog) (hnumber : d.number? t = db.number? t) :
    d.kept t = db.kept t := by
  funext table
  rw [kept, kept, hcatalog, hnumber]

theorem handles_begun (u : TxHandle) (db : Database) :
    (db.begun u).transactions.size = db.transactions.size := by
  unfold begun
  split
  · rfl
  · exact Array.size_modify

theorem handles_ended (u : TxHandle) (how : Ending) (db : Database) :
    (db.ended u how).transactions.size = db.transactions.size := by
  unfold ended
  cases db.number? u <;> exact Array.size_modify

theorem handles_writes {me : TxId} (h : Writes me db d) : d.transactions.size = db.transactions.size := by
  induction h with
  | refl => rfl
  | tail _ hstep ih =>
    rw [← ih]
    cases hstep with
    | count t => exact Array.size_modify
    | append => rfl
    | stamp => rfl

theorem number?_writes {me : TxId} (h : Writes me db d) (u : TxHandle) : d.number? u = db.number? u := by
  rw [number?, started_writes h, number?]

/-- Stamping and appending changes what is kept of a table in the same way, unless it is `t` that appends. -/
theorem kept_applied {me : TxId} {rids : List RowId} {rows : List (List Value)}
    (h : db.Applied me table rids rows d) (hsize : table.index < db.catalog.tables.size) :
    d.kept t table = (db.kept t table).map (Version.stampIn me rids) ++
      if some me = db.number? t then []
      else Version.ofRows me (db.catalog.table table).versions.size rows := by
  rw [kept, number?_writes h.writes, h.catalog, Catalog.table_modify_self hsize, Table.changed,
    List.filter_append]
  congr 1
  · rw [kept, List.filter_map]
    congr 1
    apply List.filter_congr
    intro v _
    rw [Function.comp_apply, Version.creator_stampIn]
  · split
    · rename_i hme
      apply List.filter_eq_nil_iff.mpr
      intro v hv
      simp [(Version.mem_ofRows hv).2.1, hme]
    · rename_i hme
      apply List.filter_eq_self.mpr
      intro v hv
      simp [(Version.mem_ofRows hv).2.1, hme]

theorem kept_applied_of_ne {me : TxId} {rids : List RowId} {rows : List (List Value)} {id : TableId}
    (h : db.Applied me table rids rows d) (hid : id ≠ table ∨ db.catalog.tables.size ≤ table.index) :
    d.catalog.table id = db.catalog.table id ∧ d.kept t id = db.kept t id := by
  have hsame : d.catalog.table id = db.catalog.table id := by
    rw [h.catalog]
    by_cases hne : id = table
    · have hle := hid.resolve_left (not_not.mpr hne)
      rw [hne, Catalog.table_of_size_le hle, Catalog.table_of_size_le (by simpa using hle)]
    · exact Catalog.table_modify_of_ne hne
  refine ⟨hsame, ?_⟩
  rw [kept, number?_writes h.writes, hsame, kept]

namespace Mirrors

variable (m : Mirrors t db db')
include m

theorem knows_past : db.Knows (t.past u) ↔ db'.Knows u := by
  have hhandles := m.handles
  have hbefore := m.before
  unfold Knows TxHandle.past
  split
  · omega
  · show u.index + 1 < db.transactions.size ↔ _
    omega

theorem active_past (hu : db'.Active u) : db.Active (t.past u) :=
  ⟨m.knows_past.mpr hu.1, (m.transactions u hu.1).ending.trans hu.2⟩

theorem knows : db.Knows t := by
  have hhandles := m.handles
  have hbefore := m.before
  unfold Knows
  omega

/-- What changes nothing that is stored and nothing about the transaction in addition. -/
theorem of_evolves (hs : db.Sound) (hs' : db'.Sound) (h : db.Evolves d) (h' : db'.Evolves d')
    (hcatalog : d.catalog = db.catalog) (hcatalog' : d'.catalog = db'.catalog)
    (hnumber : d.number? t = db.number? t) (hsize : d.transactions.size = db.transactions.size)
    (hsize' : d'.transactions.size = db'.transactions.size)
    (htransactions : ∀ u, db'.Knows u →
      (d.transaction (t.past u)).Alike (db.number? t) (d'.transaction u))
    (hregistry : Registry.Skips (db.number? t) d.registry d'.registry) : Mirrors t d d' where
  layout := by
    rw [hcatalog, hcatalog']
    exact m.layout
  tables := by rw [hcatalog, hcatalog', m.tables]
  length table := by rw [kept_congr hcatalog hnumber, hcatalog', m.length]
  alike table p hp := by
    rw [pairs, kept_congr hcatalog hnumber, hcatalog'] at hp
    obtain ⟨hstored, hstored'⟩ := stored_of_mem_pairs hs hs' hp
    obtain ⟨hvalues, hcreator, hdeleter⟩ := m.alike table p hp
    rw [hnumber]
    refine ⟨hvalues, hcreator, hdeleter.imp_left ?_⟩
    rintro ⟨hvoid, hvoid'⟩
    constructor
    · intro x hx
      exact (hvoid x hx).imp_right (h.status (hs.deleter hstored hx))
    · intro x hx
      exact (hvoid' x hx).imp_right (h'.status (hs'.deleter hstored' hx))
  handles := by rw [hsize, hsize', m.handles]
  before := by
    rw [hsize']
    exact m.before
  transactions u hu := by
    rw [hnumber]
    apply htransactions
    rwa [Knows, hsize'] at hu
  registry := by rwa [hnumber]

theorem begin (isolation : Isolation) :
    (db.begin isolation).1 = t.past (db'.begin isolation).1 ∧
      Mirrors t (db.begin isolation).2 (db'.begin isolation).2 := by
  have hnew : (db.begin isolation).1 = t.past (db'.begin isolation).1 := by
    have hpast : t.past ⟨db'.transactions.size⟩ = ⟨db'.transactions.size + 1⟩ :=
      TxHandle.past_of_le m.before
    rw [← m.handles] at hpast
    exact hpast.symm
  have hkept : (db.begin isolation).2.kept t = db.kept t := kept_congr rfl (number?_begin isolation)
  refine ⟨hnew, m.layout, m.tables, ?_, ?_, ?_, ?_, ?_, ?_⟩
  · intro table
    rw [hkept]
    exact m.length table
  · intro table p hp
    rw [pairs, hkept] at hp
    rw [number?_begin]
    exact m.alike table p hp
  · simp only [Database.begin, Array.size_push, m.handles]
  · simp only [Database.begin, Array.size_push]
    exact Nat.le_succ_of_le m.before
  · intro u hu
    rw [number?_begin]
    by_cases hold : db'.Knows u
    · rw [transaction_begin hold, transaction_begin (m.knows_past.mpr hold)]
      exact m.transactions u hold
    · obtain rfl : u = (db'.begin isolation).1 := by
        obtain ⟨index⟩ := u
        simp only [Knows, Database.begin, Array.size_push, TxHandle.mk.injEq] at hu hold ⊢
        omega
      rw [← hnew, transaction_begin_self, transaction_begin_self]
      exact ⟨rfl, rfl, .inl ⟨rfl, rfl⟩⟩
  · rw [number?_begin]
    exact m.registry

theorem number?_past_none (hu : db'.Knows u) (hnone : db'.number? u = none) :
    db.number? (t.past u) = none := by
  rcases (m.transactions u hu).started with ⟨hstarted, _⟩ | ⟨x, s, s', _, hstarted, _⟩
  · rw [number?, hstarted, Option.map_none]
  · rw [number?, hstarted] at hnone
    cases hnone

theorem number?_past {x : TxId} (hu : db'.Knows u) (hx : db'.number? u = some x) :
    db.number? (t.past u) = some (x.past (db.number? t)) := by
  rcases (m.transactions u hu).started with ⟨_, hstarted⟩ | ⟨y, s, s', hpast, hstarted, _⟩
  · rw [number?, hstarted] at hx
    cases hx
  · rw [number?, hstarted, Option.map_some, Option.some.injEq] at hx
    rw [number?, hpast, Option.map_some, ← hx]

/-- A transaction that starts in both gets corresponding numbers and snapshots. -/
theorem start (hu : db'.Knows u) :
    (db.start (t.past u)).1 = (db'.start u).1.past (db.number? t) ∧
      (db.start (t.past u)).2.Alike (db.number? t) (db'.start u).2 := by
  rcases (m.transactions u hu).started with ⟨hnone, hnone'⟩ | ⟨x, s, s', hstarted, hstarted', hs⟩
  · have hnumber : db.number? (t.past u) = none := by rw [number?, hnone, Option.map_none]
    have hnumber' : db'.number? u = none := by rw [number?, hnone', Option.map_none]
    rw [start_of_none hnumber, start_of_none hnumber']
    exact ⟨m.registry.new, m.registry.register.snapshot⟩
  · rw [start_of_started hstarted, start_of_started hstarted']
    exact ⟨rfl, hs⟩

theorem begun (hs : db.Sound) (hs' : db'.Sound) (hu : db'.Active u) :
    Mirrors t (db.begun (t.past u)) (db'.begun u) := by
  have hpast : db.Active (t.past u) := m.active_past hu
  apply m.of_evolves hs hs' (evolves_change (.start hpast)) (evolves_change (.start hu)) begun_catalog
    begun_catalog (number?_begun_of_ne (TxHandle.past_ne t u).symm) (handles_begun _ _) (handles_begun _ _)
  · intro w hw
    obtain ⟨hisolation, hending, hstarted⟩ := m.transactions w hw
    by_cases hwu : w = u
    · subst hwu
      rw [transaction_begun_self hpast.1, transaction_begun_self hu.1]
      refine ⟨hisolation, hending, .inr ⟨(db'.start w).1, (db.start (t.past w)).2, (db'.start w).2, ?_⟩⟩
      obtain ⟨hnumber, hsnapshot⟩ := m.start hw
      rw [← hnumber]
      exact ⟨rfl, rfl, hsnapshot⟩
    · have hne : t.past w ≠ t.past u := fun h => hwu (TxHandle.past_inj.mp h)
      rw [transaction_begun_of_ne hne, transaction_begun_of_ne hwu]
      exact ⟨hisolation, hending, hstarted⟩
  · cases hnumber : db'.number? u with
    | none =>
      rw [registry_begun_of_none hnumber, registry_begun_of_none (m.number?_past_none hu.1 hnumber)]
      exact m.registry.register
    | some x =>
      rw [begun_of_number? hnumber, begun_of_number? (m.number?_past hu.1 hnumber)]
      exact m.registry

theorem ended (hs : db.Sound) (hs' : db'.Sound) (hu : db'.Active u) (how : Ending) :
    Mirrors t (db.ended (t.past u) how) (db'.ended u how) := by
  have hpast : db.Active (t.past u) := m.active_past hu
  apply m.of_evolves hs hs' (evolves_ended hs hpast how) (evolves_ended hs' hu how) ended_catalog
    ended_catalog (number?_ended hpast.1) (handles_ended _ _ _) (handles_ended _ _ _)
  · intro w hw
    obtain ⟨hisolation, hending, hstarted⟩ := m.transactions w hw
    by_cases hwu : w = u
    · subst hwu
      rw [transaction_ended_self hpast.1, transaction_ended_self hu.1]
      exact ⟨hisolation, rfl, hstarted⟩
    · have hne : t.past w ≠ t.past u := fun h => hwu (TxHandle.past_inj.mp h)
      rw [transaction_ended_of_ne hne, transaction_ended_of_ne hwu]
      exact ⟨hisolation, hending, hstarted⟩
  · cases hnumber : db'.number? u with
    | none =>
      rw [registry_ended_of_none hnumber, registry_ended_of_none (m.number?_past_none hu.1 hnumber)]
      exact m.registry
    | some x =>
      rw [registry_ended hnumber, registry_ended (m.number?_past hu.1 hnumber)]
      exact m.registry.finish (hs'.registered hnumber)

theorem of_writes {me me' : TxId} (hw : Writes me db d) (hw' : Writes me' db' d')
    (h : ∀ table, (d.kept t table).length = (d'.catalog.table table).versions.toList.length ∧
      ∀ p ∈ pairs t d d' table, p.1.Alike (db.number? t) db.registry db'.registry p.2) :
    Mirrors t d d' where
  layout id := by rw [schema_writes hw, schema_writes hw', m.layout id]
  tables := by rw [size_writes hw, size_writes hw', m.tables]
  length table := (h table).1
  alike table := by
    rw [number?_writes hw, registry_writes hw, registry_writes hw']
    exact (h table).2
  handles := by rw [handles_writes hw, handles_writes hw', m.handles]
  before := by
    rw [handles_writes hw']
    exact m.before
  transactions u hu := by
    obtain ⟨n, hn⟩ := transaction_writes hw (t.past u)
    obtain ⟨n', hn'⟩ := transaction_writes hw' u
    rw [number?_writes hw, hn, hn']
    obtain ⟨hisolation, hending, hstarted⟩ := m.transactions u ((knows_writes hw').mp hu)
    exact ⟨hisolation, hending, hstarted⟩
  registry := by
    rw [number?_writes hw, registry_writes hw, registry_writes hw']
    exact m.registry

theorem applied {me me' : TxId} {rids rids' : List RowId} {rows : List (List Value)}
    (hme : me = me'.past (db.number? t)) (h : db.Applied me table rids rows d)
    (h' : db'.Applied me' table rids' rows d')
    (hrids : ∀ p ∈ pairs t db db' table, p.1.rid ∈ rids ↔ p.2.rid ∈ rids') : Mirrors t d d' := by
  apply m.of_writes h.writes h'.writes
  intro id
  by_cases hid : id ≠ table ∨ db.catalog.tables.size ≤ table.index
  · have hid' : id ≠ table ∨ db'.catalog.tables.size ≤ table.index := m.tables ▸ hid
    obtain ⟨htable', _⟩ := kept_applied_of_ne (t := t) h' hid'
    rw [pairs, htable', (kept_applied_of_ne h hid).2]
    exact ⟨m.length id, m.alike id⟩
  · rw [not_or, not_not, Nat.not_le] at hid
    obtain ⟨rfl, hsize⟩ := hid
    have hsize' : id.index < db'.catalog.tables.size := m.tables ▸ hsize
    have hne : some me ≠ db.number? t := hme ▸ TxId.past_ne_gap _ me'
    have hkept := kept_applied (t := t) h hsize
    have hstored : (d'.catalog.table id).versions.toList =
        (db'.catalog.table id).versions.toList.map (Version.stampIn me' rids') ++
          Version.ofRows me' (db'.catalog.table id).versions.size rows := by
      rw [h'.catalog, Catalog.table_modify_self hsize', Table.changed]
    rw [if_neg hne] at hkept
    have hlength := m.length id
    refine ⟨by simp [hkept, hstored, hlength, Version.length_ofRows], ?_⟩
    rw [pairs, hkept, hstored, List.zip_append (by simpa using hlength), List.zip_map]
    intro p hp
    rcases List.mem_append.mp hp with hp | hp
    · obtain ⟨q, hq, rfl⟩ := List.mem_map.mp hp
      exact (m.alike id q hq).stampIn hme (hrids q hq)
    · exact Version.alike_ofRows hme _ _ rows p hp

end Mirrors

end Database

end SnapshotSql
