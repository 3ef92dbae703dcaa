import SnapshotSql.Proofs.Transaction.Lasting
import SnapshotSql.Proofs.Transaction.Mirror
/-! # Work that is undone -/

namespace SnapshotSql

namespace Database

variable {t : TxHandle} {db db' d : Database} {table : TableId} {g : TxId} {how : Ending}

def Informed (db : Database) : Prop :=
  ∀ u x s, (db.transaction u).started = some (x, s) →
    ∀ y : TxId, 0 < y.number → s.sees y = true → db.registry.Registered y

theorem informed_of_history (history : History) : history.final.Informed := by
  intro u x s hstarted y hpos hsees
  have hs : history.final.Sound := history.stateAt_length ▸ history.sound_stateAt history.length
  obtain ⟨db, hpinned⟩ := history.exists_pinned hstarted
  obtain ⟨hx, rfl⟩ := Prod.mk.inj (Option.some.inj (hpinned.started.symm.trans hstarted))
  have hbegun := ((Registry.snapshot_sees _ hpos).mp hsees).1
  cases hnumber : db.number? u with
  | some _ =>
    rw [begun_of_number? hnumber] at hbegun
    exact hpinned.evolves.registered hbegun
  | none =>
    rw [registry_begun_of_none hnumber] at hbegun
    rcases Registry.registered_of_register hbegun with hy | hy
    · exact hpinned.evolves.registered hy
    · rw [start_of_none hnumber] at hx
      apply hs.registered (t := u)
      rw [number?, hstarted, Option.map_some, ← hx, ← hy]

private theorem applied_of_write (hs : db.Sound) (hw : Write g db d) :
    ∃ (table : TableId) (rids : List RowId) (rows : List (List Value)), db.Applied g table rids rows d ∧
      ∀ v ∈ db.kept t table, v.rid ∈ rids → db.registry.Void (some g) v.deleter := by
  cases hw with
  | count u =>
    refine ⟨default, [], [], ⟨.single (.count db u), (applied_refl g default db).catalog⟩, ?_⟩
    intro v _ hmem
    cases hmem
  | append table values =>
    refine ⟨table, [], [values], ⟨.single (.append db table values), ?_⟩, ?_⟩
    · exact Catalog.modify_congr (Table.append_eq_changed _ values)
    · intro v _ hmem
      cases hmem
  | @stamp table rid w hw hd =>
    refine ⟨table, [rid], [], ⟨.single (.stamp hw hd), ?_⟩, ?_⟩
    · exact Catalog.modify_congr (Table.stamp_eq_changed _ fun slot w hw => (hs.rid hw : w.rid = ⟨slot⟩))
    · intro v hv hmem x hx
      have hstored : db.version? table v.rid = some v :=
        version?_rid (t := t) hs (List.mem_filter.mp hv).1
      rw [List.mem_singleton.mp hmem, hw] at hstored
      obtain rfl : w = v := Option.some.inj hstored
      exact .inr (Registry.aborted_of_stamp hd hx)

/-- The database in which a transaction has begun mirrors the one in which it has not. -/
theorem mirrors_begin (isolation : Isolation) :
    Mirrors (db.begin isolation).1 (db.begin isolation).2 db := by
  have hnumber : (db.begin isolation).2.number? (db.begin isolation).1 = none := by
    rw [number?, transaction_begin_self]
    rfl
  have hkept : ∀ table, (db.begin isolation).2.kept (db.begin isolation).1 table =
      (db.catalog.table table).versions.toList := by
    intro table
    rw [kept, hnumber]
    exact List.filter_eq_self.mpr fun _ _ => rfl
  refine ⟨.refl _, rfl, ?_, ?_, ?_, ?_, ?_, ?_⟩
  · intro table
    rw [hkept]
  · intro table p hp
    rw [pairs, hkept] at hp
    obtain ⟨i, hi⟩ := List.mem_iff_getElem?.mp hp
    obtain ⟨hv, hv'⟩ := List.getElem?_zip_eq_some.mp hi
    obtain ⟨v, v'⟩ := p
    obtain rfl : v = v' := Option.some.inj (hv.symm.trans hv')
    rw [hnumber]
    refine ⟨rfl, rfl, ?_⟩
    cases hd : v.deleter with
    | none => exact .inl ⟨Registry.void_none _ _, Registry.void_none _ _⟩
    | some d => exact .inr ⟨d, rfl, rfl⟩
  · exact Array.size_push _
  · exact Nat.le_refl _
  · intro u hu
    have hpast : (db.begin isolation).1.past u = u := TxHandle.past_of_lt hu
    rw [hpast, transaction_begin hu, hnumber]
    refine ⟨rfl, rfl, ?_⟩
    cases hstarted : (db.transaction u).started with
    | none => exact .inl ⟨rfl, rfl⟩
    | some r => exact .inr ⟨r.1, r.2, r.2, rfl, rfl, fun _ _ => rfl⟩
  · rw [hnumber]
    exact Registry.skips_refl _

namespace Mirrors

variable (m : Mirrors t db db')
include m

private theorem begun_extra (hs : db.Sound) (hs' : db'.Sound) (hinformed : db'.Informed)
    (ht : db.Active t) (hnone : db.number? t = none) : Mirrors t (db.begun t) db' := by
  have hnumber : (db.begun t).number? t = some db.registry.register.1 := by
    rw [number?_begun ht.1, start_of_none hnone]
  have hskips := m.registry
  rw [hnone] at hskips
  have hkept : (db.begun t).kept t = db.kept t := by
    funext table
    rw [kept, kept, begun_catalog]
    apply List.filter_congr
    intro v hv
    have hne : v.creator ≠ db.registry.register.1 := by
      intro heq
      apply Registry.not_registered_new db.registry
      rw [← heq]
      exact hs.creator (version?_rid (t := t) hs hv)
    simp [hnumber, hnone, hne]
  refine ⟨?_, ?_, ?_, ?_, ?_, m.before, ?_, ?_⟩
  · rw [begun_catalog]
    exact m.layout
  · rw [begun_catalog]
    exact m.tables
  · intro table
    rw [hkept]
    exact m.length table
  · intro table p hp
    rw [pairs, hkept] at hp
    have halike := m.alike table p hp
    obtain ⟨hversion, hversion'⟩ := stored_of_mem_pairs hs hs' hp
    rw [hnone] at halike
    rw [hnumber, registry_begun_of_none hnone]
    exact halike.opened hskips (fun _ => hs.deleter hversion) (hs'.creator hversion')
      fun _ => hs'.deleter hversion'
  · rw [handles_begun, m.handles]
  · intro u hu
    have halike := m.transactions u hu
    rw [hnone] at halike
    rw [transaction_begun_of_ne (TxHandle.past_ne t u), hnumber]
    apply hskips.transaction_opened halike
    intro x s hstarted
    have hregistered : db'.registry.Registered x :=
      hs'.registered (t := u) (by rw [number?, hstarted, Option.map_some])
    exact ⟨hregistered, hinformed u x s hstarted⟩
  · rw [hnumber, registry_begun_of_none hnone]
    exact hskips.opened

theorem ended_extra (hs : db.Sound) (hs' : db'.Sound) (ht : db.Active t) (how : Ending) :
    Mirrors t (db.ended t how) db' := by
  apply m.of_evolves hs hs' (evolves_ended hs ht how) (evolves_refl db') ended_catalog rfl
    (number?_ended ht.1) (handles_ended _ _ _) rfl
  · intro w hw
    rw [transaction_ended_of_ne (TxHandle.past_ne t w)]
    exact m.transactions w hw
  · cases hnumber : db.number? t with
    | none =>
      rw [registry_ended_of_none hnumber, ← hnumber]
      exact m.registry
    | some g =>
      rw [registry_ended hnumber, ← hnumber]
      exact m.registry.finish_gap hnumber

/-- The transaction in addition appends rows, and stamps versions whose stamps count for nothing. -/
private theorem applied_extra {g : TxId} {rids : List RowId} {rows : List (List Value)} (hs : db.Sound)
    (hs' : db'.Sound) (hg : db.number? t = some g) (h : db.Applied g table rids rows d)
    (hvoid : ∀ v ∈ db.kept t table, v.rid ∈ rids → db.registry.Void (some g) v.deleter) :
    Mirrors t d db' := by
  apply m.of_writes h.writes (.refl : Writes g db' db')
  intro id
  by_cases hid : id ≠ table ∨ db.catalog.tables.size ≤ table.index
  · rw [pairs, (kept_applied_of_ne h hid).2]
    exact ⟨m.length id, m.alike id⟩
  · rw [not_or, not_not, Nat.not_le] at hid
    obtain ⟨rfl, hsize⟩ := hid
    have hkept := kept_applied (t := t) h hsize
    rw [if_pos hg.symm, List.append_nil] at hkept
    refine ⟨by rw [hkept, List.length_map, m.length id], ?_⟩
    rw [pairs, hkept, List.zip_map_left]
    intro p hp
    obtain ⟨q, hq, rfl⟩ := List.mem_map.mp hp
    have halike := m.alike id q hq
    have hskips := m.registry
    rw [hg] at halike hskips ⊢
    apply halike.stampIn_gap hskips
    · exact fun _ => hs'.deleter (stored_of_mem_pairs hs hs' hq).2
    · exact hvoid q.1 (List.of_mem_zip hq).1

private theorem writes_extra (hs : db.Sound) (hs' : db'.Sound) (ht : db.Active t)
    (hg : db.number? t = some g) (hw : Writes g db d) : Mirrors t d db' := by
  induction hw using Relation.ReflTransGen.head_induction_on with
  | refl => exact m
  | head hstep _ ih =>
    obtain ⟨table, rids, rows, happlied, hvoid⟩ := applied_of_write (t := t) hs hstep
    apply ih (m.applied_extra hs hs' hg happlied hvoid) (sound_change hs (.write ht hg hstep))
    · exact (active_write hstep).mpr ht
    · rw [number?_write hstep, hg]

theorem perform_extra (hs : db.Sound) (hs' : db'.Sound) (hinformed : db'.Informed) {op : TxOp}
    (hactor : op.actor? = some t) (hending : op.ending? = none) : Mirrors t (op.perform db).2 db' := by
  have hled := TxOp.leadsTo_perform op db
  generalize (op.perform db).2 = d at hled
  cases hled with
  | same => exact m
  | begin isolation hop =>
    rw [hop] at hactor
    cases hactor
  | layout c harranges =>
    rw [TxOp.actor?_of_arranges harranges] at hactor
    cases hactor
  | ended he =>
    rw [hending] at he
    cases he
  | @work u _ hu ht hw =>
    obtain rfl : t = u := Option.some.inj (hactor.symm.trans hu)
    have hbegun : Mirrors t (db.begun t) db' := by
      cases hnumber : db.number? t with
      | some _ => rwa [begun_of_number? hnumber]
      | none => exact m.begun_extra hs hs' hinformed ht hnumber
    exact hbegun.writes_extra (sound_change hs (.start ht)) hs' (active_begun ht) (number?_begun ht.1) hw

end Mirrors

end Database

end SnapshotSql
