import SnapshotSql.Proofs.Query.Renumber
import SnapshotSql.Proofs.Session.Targets
import SnapshotSql.Proofs.Transaction.Mirror
import Mathlib.Data.List.Nodup
/-! # Reading with and without a transaction -/

namespace SnapshotSql

theorem Version.renumber_anyRid {v v' : Version} (h : v.values = v'.values) :
    v.renumber anyRid = v'.renumber anyRid := by
  rw [renumber, renumber, h]
  rfl

namespace Catalog

variable {c : Catalog} {table : TableId} {v v' : Version}

theorem fullRow_anyRid (h : v.values = v'.values) :
    (c.fullRow table v).renumber anyRid = (c.fullRow table v').renumber anyRid := by
  simp only [fullRow, RowView.renumber, Version.renumber_anyRid h]

theorem meets_congr {filter : Option Expr} (h : v.values = v'.values) :
    c.meets table filter v = c.meets table filter v' := by
  cases filter with
  | none => rfl
  | some condition =>
    show (c.fullRow table v).holds condition = (c.fullRow table v').holds condition
    rw [← RowView.holds_renumber anyRid, fullRow_anyRid h, RowView.holds_renumber]

end Catalog

namespace Database

variable {t u : TxHandle} {db db' : Database} {table : TableId} {access : Access} {v : Version}

private theorem lapsed_of_void {gap : Option TxId} {stamp : Option TxId} (hs : db.Sound)
    (hu : db.Active u) (hregistered : ∀ x, stamp = some x → db.registry.Registered x)
    (hgap : ∀ x, gap = some x → db.registry.status x = .ended .aborted)
    (h : db.registry.Void gap stamp) : (db.begun u).registry.Lapsed (db.start u).1 stamp := by
  intro x hx
  have hstatus : db.registry.status x = .ended .aborted := (h x hx).elim (fun hg => hgap x hg.symm) id
  rw [status_begun (hregistered x hx)]
  refine ⟨?_, hstatus⟩
  rw [ne_eq, eq_start_iff (hregistered x hx)]
  intro hnumber
  rw [hs.status hnumber, Transaction.status, hu.2] at hstatus
  cases hstatus

private theorem status_over (hs : db.Sound) (hover : (db.transaction t).ending = some .aborted) {x : TxId}
    (hx : db.number? t = some x) : db.registry.status x = .ended .aborted := by
  rw [hs.status hx, Transaction.status, hover]
  rfl

private theorem see_created (hs : db.Sound) (hover : (db.transaction t).ending = some .aborted)
    (hv : some v.creator = db.number? t) (access : Access) :
    (db.reader (t.past u)).see access v = .invisible := by
  have hregistered : db.registry.Registered v.creator := hs.registered hv.symm
  have hne : v.creator ≠ (db.start (t.past u)).1 := by
    rw [ne_eq, eq_start_iff hregistered]
    intro hnumber
    exact TxHandle.past_ne t u (hs.distinct hnumber hv.symm)
  have hstatus : (db.begun (t.past u)).registry.status v.creator = .ended .aborted := by
    rw [status_begun hregistered, status_over hs hover hv.symm]
  show (db.begun (t.past u)).registry.visibility _ _ access v = _
  unfold Registry.visibility Registry.creatorVerdict
  rw [if_neg hne, hstatus]
  rfl

/-- What a transaction does with the versions of a table comes down to what it does with those that the one
that was rolled back did not create. -/
private theorem filterMap_kept {β : Type} {f : Version → Option β} (hs : db.Sound)
    (hover : (db.transaction t).ending = some .aborted)
    (hf : ∀ v, (db.reader (t.past u)).see access v = .invisible → f v = none) (table : TableId) :
    ((db.reader (t.past u)).versions table).filterMap f = (db.kept t table).filterMap f := by
  rw [kept, List.filterMap_filter]
  apply List.filterMap_congr
  intro v _
  split
  · rfl
  · rename_i hv
    exact hf v (see_created hs hover (by simpa using hv) access)

private theorem nodup_rids (hs : db.Sound) (table : TableId) :
    ((db.catalog.table table).versions.toList.map (·.rid)).Nodup := by
  have hrid : ∀ i (hi : i < (db.catalog.table table).versions.toList.length),
      (db.catalog.table table).versions.toList[i].rid = ⟨i⟩ := by
    intro i hi
    have hv : db.version? table ⟨i⟩ = some (db.catalog.table table).versions.toList[i] := by
      rw [version?, Table.version?, ← Array.getElem?_toList]
      exact List.getElem?_eq_getElem hi
    exact hs.rid hv
  refine List.pairwise_iff_getElem.mpr fun i j hi hj hij hsame => ?_
  rw [List.getElem_map, List.getElem_map, hrid, hrid] at hsame
  exact Nat.ne_of_lt hij (congrArg RowId.slot hsame)

namespace Mirrors

variable (m : Mirrors t db db') (hs : db.Sound) (hs' : db'.Sound)
  (hover : (db.transaction t).ending = some .aborted) (hu : db'.Active u)

section

include m

private theorem map_fst_pairs (table : TableId) :
    (pairs t db db' table).map (·.1) = db.kept t table :=
  List.map_fst_zip (Nat.le_of_eq (m.length table))

private theorem map_snd_pairs (table : TableId) (u : TxHandle) :
    (pairs t db db' table).map (·.2) = (db'.reader u).versions table :=
  List.map_snd_zip (Nat.le_of_eq (m.length table).symm)

end

section

include m hs hs' hu

private theorem snapshotOf : (db.snapshotOf (t.past u)).Alike (db.number? t) (db'.snapshotOf u) := by
  have hbegun := (m.begun hs hs' hu).registry.snapshot
  rw [number?_begun_of_ne (TxHandle.past_ne t u).symm] at hbegun
  rw [Database.snapshotOf, Database.snapshotOf, (m.transactions u hu.1).isolation]
  split
  · exact (m.start hu.1).2
  · exact hbegun

private theorem agree {x : TxId} (hx : db'.registry.Registered x) :
    Registry.Agree (db.begun (t.past u)).registry (db'.begun u).registry (db.start (t.past u)).1
      (db'.start u).1 (db.snapshotOf (t.past u)) (db'.snapshotOf u) (x.past (db.number? t)) x where
  mine := by
    rw [(m.start hu.1).1]
    exact TxId.past_inj
  status := by
    have hstatus := (m.begun hs hs' hu).registry.status x (registered_begun hx)
    rwa [number?_begun_of_ne (TxHandle.past_ne t u).symm] at hstatus
  sees := m.snapshotOf hs hs' hu x hx.1

end

include m hs hs' hover hu

theorem see_pair {p : Version × Version} (hp : p ∈ pairs t db db' table) (access : Access) :
    (db.reader (t.past u)).see access p.1 = (db'.reader u).see access p.2 := by
  obtain ⟨hversion, hversion'⟩ := stored_of_mem_pairs hs hs' hp
  obtain ⟨_, hcreator, hdeleter⟩ := m.alike table p hp
  apply Registry.visibility_congr
  · rw [hcreator]
    exact m.agree hs hs' hu (hs'.creator hversion')
  · rcases hdeleter with ⟨hvoid, hvoid'⟩ | ⟨x, hx, hx'⟩
    · have hgap : ∀ x, none = some x → db'.registry.status x = .ended .aborted := nofun
      apply Or.inl
      constructor
      · exact lapsed_of_void hs (m.active_past hu) (fun _ => hs.deleter hversion)
          (fun _ => status_over hs hover) hvoid
      · exact lapsed_of_void hs' hu (fun _ => hs'.deleter hversion') hgap hvoid'
    · exact .inr ⟨_, x, hx, hx', m.agree hs hs' hu (hs'.deleter hversion' hx')⟩

/-- The values that a transaction comes across, each with whether they are contested. -/
theorem shown (access : Access) (table : TableId) :
    (db.reader (t.past u)).shown anyRid access table =
      (db'.reader u).shown anyRid access table := by
  have hcreated : ∀ v, (db.reader (t.past u)).see access v = .invisible →
      (((db.reader (t.past u)).see access v).shown v).map
        (fun r => (r.1.renumber anyRid, r.2)) = none := by
    intro v hv
    rw [hv]
    rfl
  rw [Reader.shown, Reader.shown, Reader.seen, Reader.seen, List.map_filterMap, List.map_filterMap,
    filterMap_kept hs hover hcreated, ← m.map_fst_pairs, ← m.map_snd_pairs, List.filterMap_map,
    List.filterMap_map]
  apply List.filterMap_congr
  intro p hp
  simp only [Function.comp_apply]
  rw [m.see_pair hs hs' hover hu hp access]
  have hsame := Version.renumber_anyRid (m.alike table p hp).values
  cases (db'.reader u).see access p.2 with
  | invisible => rfl
  | visible => exact congrArg (fun v => some (v, false)) hsame
  | contested => exact congrArg (fun v => some (v, true)) hsame

theorem matching (c : Catalog) (table : TableId) (filter : Option Expr) :
    ∃ ps : List (Version × Version), ps.Sublist (pairs t db db' table) ∧
      c.matching table (db.reader (t.past u)) .write filter = ps.map (·.1) ∧
      c.matching table (db'.reader u) .write filter = ps.map (·.2) := by
  have hcreated : ∀ v, (db.reader (t.past u)).see .write v = .invisible →
      Option.guard (fun v => decide ((db.reader (t.past u)).see .write v = .visible ∧
        (c.meets table filter v).toOption = some true)) v = none := by
    intro v hv
    simp [Option.guard, hv]
  have hsame : ∀ p ∈ pairs t db db' table,
      decide ((db.reader (t.past u)).see .write p.1 = .visible ∧
        (c.meets table filter p.1).toOption = some true) =
      decide ((db'.reader u).see .write p.2 = .visible ∧
        (c.meets table filter p.2).toOption = some true) := by
    intro p hp
    rw [m.see_pair hs hs' hover hu hp, Catalog.meets_congr (m.alike table p hp).values]
  refine ⟨(pairs t db db' table).filter fun p => decide ((db'.reader u).see .write p.2 = .visible ∧
    (c.meets table filter p.2).toOption = some true), List.filter_sublist, ?_, ?_⟩
  · rw [Catalog.matching, ← List.filterMap_eq_filter, filterMap_kept hs hover hcreated,
      List.filterMap_eq_filter, ← m.map_fst_pairs, List.filter_map]
    congr 1
    exact List.filter_congr hsame
  · rw [Catalog.matching, ← m.map_snd_pairs, List.filter_map]
    rfl

omit hover hu in
theorem mem_rids {ps : List (Version × Version)} (hps : ps.Sublist (pairs t db db' table))
    {p : Version × Version} (hp : p ∈ pairs t db db' table) :
    p.1.rid ∈ (ps.map (·.1)).map (·.rid) ↔ p.2.rid ∈ (ps.map (·.2)).map (·.rid) := by
  have hfst : (((pairs t db db' table).map (·.1)).map (·.rid)).Nodup := by
    rw [m.map_fst_pairs]
    exact (nodup_rids hs table).sublist (List.filter_sublist.map _)
  have hsnd : (((pairs t db db' table).map (·.2)).map (·.rid)).Nodup := by
    rw [m.map_snd_pairs table t]
    exact nodup_rids hs' table
  have hmem : ∀ {f : Version × Version → RowId}, ((pairs t db db' table).map f).Nodup →
      (f p ∈ ps.map f ↔ p ∈ ps) := by
    intro f hnodup
    refine ⟨fun h => ?_, List.mem_map_of_mem⟩
    obtain ⟨q, hq, heq⟩ := List.mem_map.mp h
    rwa [← List.inj_on_of_nodup_map hnodup (hps.subset hq) hp heq]
  rw [List.map_map] at hfst hsnd
  rw [List.map_map, List.map_map]
  exact (hmem hfst).trans (hmem hsnd).symm

end Mirrors

end Database

end SnapshotSql
