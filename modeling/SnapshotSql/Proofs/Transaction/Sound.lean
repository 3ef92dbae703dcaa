import SnapshotSql.Proofs.Transaction.Effects
import Mathlib.Logic.Relation
/-! # Sound databases -/

namespace SnapshotSql

/-- The status that the registry shows for a started transaction. -/
def Transaction.status (tx : Transaction) : TxStatus := tx.ending.elim .active .ended

/-- A stamp changes its owner only if the version has none or its owner was rolled back. -/
theorem Registry.aborted_of_stamp {r : Registry} {me x : TxId} {v : Version}
    (hd : r.deleteVerdict me v = .stamp) (hx : v.deleter = some x) :
    r.status x = .ended .aborted := by
  unfold deleteVerdict at hd
  split at hd
  · cases hd
  · rw [hx] at hd
    simp only at hd
    split at hd
    · cases hd
    · split at hd
      · assumption
      · cases hd

inductive Write (me : TxId) : Database → Database → Prop
  | count (db : Database) (t : TxHandle) : Write me db (db.counted t)
  | append (db : Database) (table : TableId) (values : List Value) :
      Write me db (db.appended table ⟨(db.catalog.table table).nextRid, values, me, none⟩)
  | stamp {db : Database} {table : TableId} {rid : RowId} {v : Version}
      (hv : db.version? table rid = some v) (hd : db.registry.deleteVerdict me v = .stamp) :
      Write me db (db.stamped table rid me)

abbrev Writes (me : TxId) : Database → Database → Prop := Relation.ReflTransGen (Write me)

inductive Change : Database → Database → Prop
  | begin (db : Database) (isolation : Isolation) : Change db (db.begin isolation).2
  | layout (db : Database) (c : Catalog)
      (h : ∀ id, (c.table id).versions = (db.catalog.table id).versions) :
      Change db { db with catalog := c }
  | start {db : Database} {t : TxHandle} (h : db.Active t) : Change db (db.begun t)
  | write {db db' : Database} {t : TxHandle} {me : TxId} (h : db.Active t)
      (hme : db.number? t = some me) (hw : Write me db db') : Change db db'

abbrev Changes : Database → Database → Prop := Relation.ReflTransGen Change

namespace Database

variable {db : Database} {t u : TxHandle} {x me : TxId} {how : Ending} {table other : TableId}
  {rid r : RowId} {v w : Version}

private theorem transaction_of_not_knows (h : ¬db.Knows t) : db.transaction t = default := by
  have hnone : db.transactions[t.index]? = none := Array.getElem?_eq_none (Nat.le_of_not_lt h)
  rw [transaction, hnone, Option.getD_none]

theorem knows_of_number? (h : db.number? t = some x) : db.Knows t := by
  by_contra hn
  rw [number?, transaction_of_not_knows hn] at h
  cases h

/-! ## What handles show after a change -/

theorem transaction_begin (h : db.Knows u) (isolation : Isolation) :
    (db.begin isolation).2.transaction u = db.transaction u := by
  have hne : u.index ≠ db.transactions.size := Nat.ne_of_lt h
  simp [Database.begin, transaction, Array.getElem?_push, hne]

theorem transaction_begin_self (isolation : Isolation) :
    (db.begin isolation).2.transaction (db.begin isolation).1 = { isolation } := by
  simp [Database.begin, transaction]

theorem active_begin (isolation : Isolation) :
    (db.begin isolation).2.Active (db.begin isolation).1 :=
  ⟨by simp [Knows, Database.begin], by rw [transaction_begin_self]⟩

@[simp] theorem started_begin (isolation : Isolation) :
    ((db.begin isolation).2.transaction u).started = (db.transaction u).started := by
  by_cases h : u.index = db.transactions.size
  · simp only [Database.begin, transaction, h, Array.getElem?_push_size,
      Array.getElem?_eq_none (Nat.le_refl _)]
    rfl
  · simp [Database.begin, transaction, Array.getElem?_push, h]

@[simp] theorem number?_begin (isolation : Isolation) :
    (db.begin isolation).2.number? u = db.number? u := by
  rw [number?, number?, started_begin]

@[simp] theorem ending_begin (isolation : Isolation) :
    ((db.begin isolation).2.transaction u).ending = (db.transaction u).ending := by
  by_cases h : u.index = db.transactions.size
  · simp only [Database.begin, transaction, h, Array.getElem?_push_size,
      Array.getElem?_eq_none (Nat.le_refl _)]
    rfl
  · simp [Database.begin, transaction, Array.getElem?_push, h]

theorem knows_begin (h : db.Knows u) (isolation : Isolation) :
    (db.begin isolation).2.Knows u := by
  simp only [Knows, Database.begin, Array.size_push] at h ⊢
  omega

/-- A handle either shows the state before a write was counted or that state with one write more. -/
theorem transaction_counted (db : Database) (t u : TxHandle) :
    ∃ n, (db.counted t).transaction u = { db.transaction u with writes := n } := by
  by_cases hu : u = t
  · subst hu
    by_cases h : db.Knows u
    · exact ⟨_, transaction_adjusted_self h⟩
    · exact ⟨_, by rw [counted, transaction_adjusted_of_not_knows h]⟩
  · exact ⟨_, by rw [counted, transaction_adjusted_of_ne hu]⟩

@[simp] theorem number?_counted : (db.counted t).number? u = db.number? u := by
  obtain ⟨n, h⟩ := transaction_counted db t u
  simp [number?, h]

@[simp] theorem ending_counted :
    ((db.counted t).transaction u).ending = (db.transaction u).ending := by
  obtain ⟨n, h⟩ := transaction_counted db t u
  simp [h]

theorem ending_begun (h : db.Knows t) :
    ((db.begun t).transaction u).ending = (db.transaction u).ending := by
  by_cases hu : u = t
  · rw [hu, transaction_begun_self h]
  · rw [transaction_begun_of_ne hu]

theorem number?_begun_of_ne (h : u ≠ t) : (db.begun t).number? u = db.number? u := by
  rw [number?, number?, transaction_begun_of_ne h]

theorem begun_of_started {r : TxId × Snapshot} (h : (db.transaction t).started = some r) :
    db.begun t = db := by
  rw [begun, h]
  rfl

theorem start_of_started {r : TxId × Snapshot} (h : (db.transaction t).started = some r) :
    db.start t = r := by
  rw [start, h, Option.getD_some]

theorem begun_of_number? (h : db.number? t = some x) : db.begun t = db := by
  obtain ⟨r, hr, _⟩ := Option.map_eq_some_iff.mp h
  exact begun_of_started hr

theorem registry_begun_of_none (h : db.number? t = none) :
    (db.begun t).registry = db.registry.register.2 := by
  have hs : (db.transaction t).started = none := by simpa [number?] using h
  simp [begun, hs, registered]

theorem start_of_none (h : db.number? t = none) :
    db.start t = (db.registry.register.1, db.registry.register.2.snapshot) := by
  have hs : (db.transaction t).started = none := by simpa [number?] using h
  simp [start, hs]

theorem start_of_number? (h : db.number? t = some x) : (db.start t).1 = x := by
  obtain ⟨r, hr, rfl⟩ := Option.map_eq_some_iff.mp h
  rw [start_of_started hr]

theorem transaction_ended_self (h : db.Knows t) :
    (db.ended t how).transaction t = { db.transaction t with ending := some how } := by
  have hadj := transaction_adjusted_self (f := fun tx => { tx with ending := some how }) h
  rw [← hadj]
  unfold ended
  cases db.number? t <;> rfl

theorem transaction_ended_of_ne (h : u ≠ t) :
    (db.ended t how).transaction u = db.transaction u := by
  have hadj : (db.adjusted t fun tx => { tx with ending := some how }).transaction u =
      db.transaction u := transaction_adjusted_of_ne h
  rw [← hadj]
  unfold ended
  cases db.number? t <;> rfl

@[simp] theorem ended_catalog : (db.ended t how).catalog = db.catalog := by
  unfold ended
  cases db.number? t <;> rfl

@[simp] theorem knows_ended : (db.ended t how).Knows u ↔ db.Knows u := by
  unfold ended
  cases db.number? t <;> simp [Knows, adjusted]

theorem started_ended (h : db.Knows t) :
    ((db.ended t how).transaction u).started = (db.transaction u).started := by
  by_cases hu : u = t
  · rw [hu, transaction_ended_self h]
  · rw [transaction_ended_of_ne hu]

theorem number?_ended (h : db.Knows t) : (db.ended t how).number? u = db.number? u := by
  rw [number?, number?, started_ended h]

theorem registry_ended (h : db.number? t = some x) :
    (db.ended t how).registry = db.registry.finish x how := by
  simp [ended, h]

theorem registry_ended_of_none (h : db.number? t = none) :
    (db.ended t how).registry = db.registry := by
  simp [ended, h]

/-! ## What tables store after a change -/

private theorem version?_of_size_le (h : db.catalog.tables.size ≤ table.index) :
    db.version? table rid = none := by
  rw [version?, Catalog.table_of_size_le h]
  rfl

theorem version?_of_versions_eq {c : Catalog}
    (h : ∀ id, (c.table id).versions = (db.catalog.table id).versions) :
    ({ db with catalog := c } : Database).version? table rid = db.version? table rid := by
  simp only [version?, Table.version?, h]

theorem version?_of_catalog_eq {db' : Database} (h : db'.catalog = db.catalog) :
    db'.version? table rid = db.version? table rid := by
  rw [version?, version?, h]

theorem version?_appended_of_some (h : db.version? other rid = some w) :
    (db.appended table v).version? other rid = some w := by
  by_cases ho : other = table
  · subst ho
    by_cases hk : other.index < db.catalog.tables.size
    · have hlt : rid.slot < (db.catalog.table other).versions.size :=
        (Array.getElem?_eq_some_iff.mp h).1
      simp only [version?, appended, Catalog.table_modify_self hk, Table.append, Table.version?,
        Array.getElem?_push, Nat.ne_of_lt hlt, if_false]
      exact h
    · rw [version?_of_size_le (Nat.le_of_not_lt hk)] at h
      cases h
  · simpa [version?, appended, Catalog.table_modify_of_ne ho] using h

theorem version?_appended_cases (h : (db.appended table v).version? other rid = some w) :
    db.version? other rid = some w ∨
      other = table ∧ rid = (db.catalog.table table).nextRid ∧ w = v := by
  by_cases ho : other = table
  · subst ho
    by_cases hk : other.index < db.catalog.tables.size
    · simp only [version?, appended, Catalog.table_modify_self hk, Table.append, Table.version?,
        Array.getElem?_push] at h
      split at h
      · rename_i hr
        exact .inr ⟨rfl, by cases rid; simp_all [Table.nextRid], by simpa using h.symm⟩
      · exact .inl h
    · rw [version?_of_size_le (by simpa [appended] using hk)] at h
      cases h
  · exact .inl (by simpa [version?, appended, Catalog.table_modify_of_ne ho] using h)

theorem version?_stamped (db : Database) (table other : TableId) (rid r : RowId) (me : TxId) :
    (db.stamped table rid me).version? other r =
      (db.version? other r).map fun v =>
        if other = table ∧ r = rid then { v with deleter := some me } else v := by
  by_cases ho : other = table
  · subst ho
    by_cases hk : other.index < db.catalog.tables.size
    · simp only [version?, stamped, Catalog.table_modify_self hk, Table.stamp, Table.version?,
        Array.getElem?_modify, true_and]
      by_cases hr : r = rid
      · simp [hr]
      · have hne : rid.slot ≠ r.slot := by
          intro he
          exact hr (by cases r; cases rid; simp_all)
        simp [hr, hne]
    · have hk := Nat.le_of_not_lt hk
      rw [version?_of_size_le hk, version?_of_size_le (by simpa [stamped] using hk)]
      rfl
  · simp [version?, stamped, Catalog.table_modify_of_ne ho, ho]

/-! ## What writes leave alone -/

variable {db' : Database}

theorem registry_write (h : Write me db db') : db'.registry = db.registry := by
  cases h <;> rfl

theorem knows_write (h : Write me db db') : db'.Knows u ↔ db.Knows u := by
  cases h with
  | count t => exact knows_adjusted
  | append | stamp => rfl

theorem transaction_write (h : Write me db db') (u : TxHandle) :
    ∃ n, db'.transaction u = { db.transaction u with writes := n } := by
  cases h with
  | count t => exact transaction_counted db t u
  | append | stamp => exact ⟨_, rfl⟩

theorem number?_write (h : Write me db db') : db'.number? u = db.number? u := by
  obtain ⟨n, hn⟩ := transaction_write h u
  simp [number?, hn]

theorem active_write (h : Write me db db') : db'.Active u ↔ db.Active u := by
  obtain ⟨n, hn⟩ := transaction_write h u
  simp [Active, hn, knows_write h]

theorem knows_writes (h : Writes me db db') : db'.Knows u ↔ db.Knows u := by
  induction h with
  | refl => exact Iff.rfl
  | tail _ hstep ih => exact (knows_write hstep).trans ih

theorem active_writes (h : Writes me db db') : db'.Active u ↔ db.Active u := by
  induction h with
  | refl => rfl
  | tail _ hstep ih => exact (active_write hstep).trans ih

theorem schema_writes (h : Writes me db db') (id : TableId) :
    (db'.catalog.table id).schema = (db.catalog.table id).schema := by
  induction h with
  | refl => rfl
  | tail _ hstep ih =>
    rw [← ih]
    cases hstep with
    | count => rfl
    | append table values =>
      rw [appended, Catalog.schema_modify]
      exact fun _ => rfl
    | stamp =>
      rw [stamped, Catalog.schema_modify]
      exact fun _ => rfl

theorem size_writes (h : Writes me db db') :
    db'.catalog.tables.size = db.catalog.tables.size := by
  induction h with
  | refl => rfl
  | tail _ hstep ih =>
    rw [← ih]
    cases hstep <;> simp [counted, appended, stamped]

theorem entries_writes (h : Writes me db db') : db'.catalog.entries = db.catalog.entries := by
  induction h with
  | refl => rfl
  | tail _ hstep ih =>
    rw [← ih]
    cases hstep <;> rfl

theorem registry_writes (h : Writes me db db') : db'.registry = db.registry := by
  induction h with
  | refl => rfl
  | tail _ hstep ih => rw [registry_write hstep, ih]

theorem transaction_writes (h : Writes me db db') (u : TxHandle) :
    ∃ n, db'.transaction u = { db.transaction u with writes := n } := by
  induction h with
  | refl => exact ⟨_, rfl⟩
  | tail _ hstep ih =>
    obtain ⟨m, hm⟩ := ih
    obtain ⟨n, hn⟩ := transaction_write hstep u
    exact ⟨n, by rw [hn, hm]⟩

theorem started_writes (h : Writes me db db') (u : TxHandle) :
    (db'.transaction u).started = (db.transaction u).started := by
  obtain ⟨n, hn⟩ := transaction_writes h u
  rw [hn]

theorem changes_of_writes (ht : db.Active t) (hme : db.number? t = some me)
    (h : Writes me db db') : Changes db db' := by
  induction h using Relation.ReflTransGen.head_induction_on with
  | refl => exact .refl
  | head hstep _ ih =>
    exact .head (.write ht hme hstep) (ih ((active_write hstep).mpr ht) (number?_write hstep ▸ hme))

/-! ## Soundness -/

/-- Handles, registry and stamps agree: started transactions have numbers of their own that were
given out, the registry shows how they ended, and versions carry only numbers given out. -/
structure Sound (db : Database) : Prop where
  registered : ∀ {t x}, db.number? t = some x → db.registry.Registered x
  status : ∀ {t x}, db.number? t = some x → db.registry.status x = (db.transaction t).status
  distinct : ∀ {t u x}, db.number? t = some x → db.number? u = some x → t = u
  creator : ∀ {table rid v}, db.version? table rid = some v → db.registry.Registered v.creator
  deleter : ∀ {table rid v d}, db.version? table rid = some v → v.deleter = some d →
    db.registry.Registered d
  rid : ∀ {table rid v}, db.version? table rid = some v → v.rid = rid

theorem sound_empty : Sound {} := by
  have hnumber : ∀ t, ({} : Database).number? t = none := fun _ => rfl
  have hversion : ∀ table rid, ({} : Database).version? table rid = none := fun _ _ => rfl
  constructor <;> simp [hnumber, hversion]

private theorem sound_congr (h : db.Sound)
    (hnumber : ∀ u, db'.number? u = db.number? u)
    (hending : ∀ u, (db'.transaction u).ending = (db.transaction u).ending)
    (hregistry : db'.registry = db.registry)
    (hversion : ∀ table rid, db'.version? table rid = db.version? table rid) : db'.Sound where
  registered ht := by
    rw [hnumber] at ht
    rw [hregistry]
    exact h.registered ht
  status ht := by
    rw [hnumber] at ht
    rw [hregistry, h.status ht, Transaction.status, Transaction.status, hending]
  distinct ht hu := h.distinct (hnumber _ ▸ ht) (hnumber _ ▸ hu)
  creator hv := hregistry ▸ h.creator (hversion _ _ ▸ hv)
  deleter hv hd := hregistry ▸ h.deleter (hversion _ _ ▸ hv) hd
  rid hv := h.rid (hversion _ _ ▸ hv)

private theorem sound_registered (h : db.Sound) (ht : db.Active t) (hnone : db.number? t = none) :
    (db.begun t).Sound where
  registered {u x} hu := by
    rw [registry_begun_of_none hnone]
    by_cases hut : u = t
    · rw [hut, number?_begun ht.1, start_of_none hnone] at hu
      cases hu
      exact Registry.registered_register_new _
    · rw [number?_begun_of_ne hut] at hu
      exact Registry.registered_register (h.registered hu)
  status {u x} hu := by
    rw [registry_begun_of_none hnone, Transaction.status, ending_begun ht.1]
    by_cases hut : u = t
    · rw [hut, number?_begun ht.1, start_of_none hnone] at hu
      cases hu
      rw [Registry.status_register_new, hut, ht.2]
      rfl
    · rw [number?_begun_of_ne hut] at hu
      rw [Registry.status_register (h.registered hu), h.status hu]
      rfl
  distinct {u w x} hu hw := by
    have hnew : ∀ {s}, s ≠ t → (db.begun t).number? s = some x → x ≠ db.registry.register.1 := by
      rintro s hs hx rfl
      rw [number?_begun_of_ne hs] at hx
      exact Registry.not_registered_new _ (h.registered hx)
    have hme : (db.begun t).number? t = some db.registry.register.1 := by
      rw [number?_begun ht.1, start_of_none hnone]
    by_cases hut : u = t
    · subst hut
      by_contra hne
      exact hnew (Ne.symm hne) hw (Option.some.inj (hu.symm.trans hme))
    · by_cases hwt : w = t
      · subst hwt
        exact absurd (Option.some.inj (hw.symm.trans hme)) (hnew hut hu)
      · rw [number?_begun_of_ne hut] at hu
        rw [number?_begun_of_ne hwt] at hw
        exact h.distinct hu hw
  creator hv := by
    rw [version?_of_catalog_eq begun_catalog] at hv
    rw [registry_begun_of_none hnone]
    exact Registry.registered_register (h.creator hv)
  deleter hv hd := by
    rw [version?_of_catalog_eq begun_catalog] at hv
    rw [registry_begun_of_none hnone]
    exact Registry.registered_register (h.deleter hv hd)
  rid hv := by
    rw [version?_of_catalog_eq begun_catalog] at hv
    exact h.rid hv

private theorem sound_begun (h : db.Sound) (ht : db.Active t) : (db.begun t).Sound := by
  cases hnone : db.number? t with
  | none => exact sound_registered h ht hnone
  | some x => rwa [begun_of_number? hnone]

private theorem sound_appended (h : db.Sound) (hme : db.number? t = some me)
    (values : List Value) :
    (db.appended table ⟨(db.catalog.table table).nextRid, values, me, none⟩).Sound where
  registered ht := h.registered ht
  status ht := h.status ht
  distinct ht hu := h.distinct ht hu
  creator hv := by
    rcases version?_appended_cases hv with hv | ⟨_, _, rfl⟩
    · exact h.creator hv
    · exact h.registered hme
  deleter hv hd := by
    rcases version?_appended_cases hv with hv | ⟨_, _, rfl⟩
    · exact h.deleter hv hd
    · cases hd
  rid hv := by
    rcases version?_appended_cases hv with hv | ⟨_, rfl, rfl⟩
    · exact h.rid hv
    · rfl

private theorem sound_stamped (h : db.Sound) (hme : db.number? t = some me) :
    (db.stamped table rid me).Sound where
  registered ht := h.registered ht
  status ht := h.status ht
  distinct ht hu := h.distinct ht hu
  creator hv := by
    rw [version?_stamped] at hv
    obtain ⟨w, hw, rfl⟩ := Option.map_eq_some_iff.mp hv
    have := h.creator hw
    split <;> exact this
  deleter hv hd := by
    rw [version?_stamped] at hv
    obtain ⟨w, hw, rfl⟩ := Option.map_eq_some_iff.mp hv
    split at hd
    · cases hd
      exact h.registered hme
    · exact h.deleter hw hd
  rid hv := by
    rw [version?_stamped] at hv
    obtain ⟨w, hw, rfl⟩ := Option.map_eq_some_iff.mp hv
    have := h.rid hw
    split <;> exact this

private theorem sound_write (h : db.Sound) (hme : db.number? t = some me)
    (hw : Write me db db') : db'.Sound := by
  cases hw with
  | count t =>
    exact sound_congr h (fun _ => number?_counted) (fun _ => ending_counted) rfl fun _ _ => rfl
  | append table values => exact sound_appended h hme values
  | stamp => exact sound_stamped h hme

theorem sound_change (h : db.Sound) (hc : Change db db') : db'.Sound := by
  cases hc with
  | begin isolation =>
    exact sound_congr h (fun _ => number?_begin _) (fun _ => ending_begin _) rfl fun _ _ => rfl
  | layout c hc =>
    exact sound_congr h (fun _ => rfl) (fun _ => rfl) rfl fun _ _ => version?_of_versions_eq hc
  | start ht => exact sound_begun h ht
  | write _ hme hw => exact sound_write h hme hw

theorem sound_changes (h : db.Sound) (hc : Changes db db') : db'.Sound := by
  induction hc with
  | refl => exact h
  | tail _ hstep ih => exact sound_change ih hstep

theorem sound_ended (h : db.Sound) (ht : db.Active t) (how : Ending) : (db.ended t how).Sound := by
  have hversion : ∀ {table rid}, (db.ended t how).version? table rid = db.version? table rid :=
    version?_of_catalog_eq ended_catalog
  have hregistered : ∀ {x}, (db.ended t how).registry.Registered x ↔ db.registry.Registered x := by
    intro x
    cases hn : db.number? t with
    | none => rw [registry_ended_of_none hn]
    | some me => rw [registry_ended hn, Registry.registered_finish]
  constructor
  case registered =>
    intro u x hu
    exact hregistered.mpr (h.registered (number?_ended ht.1 ▸ hu))
  case status =>
    intro u x hu
    rw [number?_ended ht.1] at hu
    by_cases hut : u = t
    · subst hut
      rw [registry_ended hu, Registry.status_finish_self (h.registered hu),
        transaction_ended_self ht.1]
      rfl
    · rw [transaction_ended_of_ne hut, ← h.status hu]
      cases hn : db.number? t with
      | none => rw [registry_ended_of_none hn]
      | some me =>
        rw [registry_ended hn]
        refine Registry.status_finish_of_ne ?_
        rintro rfl
        exact hut (h.distinct hu hn)
  case distinct =>
    intro u w x hu hw
    exact h.distinct (number?_ended ht.1 ▸ hu) (number?_ended ht.1 ▸ hw)
  case creator =>
    intro table rid v hv
    exact hregistered.mpr (h.creator (hversion ▸ hv))
  case deleter =>
    intro table rid v d hv hd
    exact hregistered.mpr (h.deleter (hversion ▸ hv) hd)
  case rid =>
    intro table rid v hv
    exact h.rid (hversion ▸ hv)

end Database

end SnapshotSql
