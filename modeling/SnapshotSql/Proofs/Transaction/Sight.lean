import SnapshotSql.Proofs.Query.Run
import SnapshotSql.Proofs.Transaction.SnapshotReads
/-! # What sight depends on -/

namespace SnapshotSql

namespace Registry

structure Agree (r r' : Registry) (me me' : TxId) (s s' : Snapshot) (x x' : TxId) : Prop where
  mine : x = me ↔ x' = me'
  status : r.status x = r'.status x'
  sees : s.sees x = s'.sees x'

def Lapsed (r : Registry) (me : TxId) (stamp : Option TxId) : Prop :=
  ∀ x, stamp = some x → x ≠ me ∧ r.status x = .ended .aborted

def StampsAgree (r r' : Registry) (me me' : TxId) (s s' : Snapshot) (d d' : Option TxId) : Prop :=
  r.Lapsed me d ∧ r'.Lapsed me' d' ∨
    ∃ x x', d = some x ∧ d' = some x' ∧ Agree r r' me me' s s' x x'

variable {r r' : Registry} {me me' : TxId} {s s' : Snapshot} {v v' : Version} {access : Access}

theorem creatorVerdict_congr (h : Agree r r' me me' s s' v.creator v'.creator) :
    r.creatorVerdict me s access v = r'.creatorVerdict me' s' access v' := by
  simp only [creatorVerdict, h.mine, h.status, h.sees]

theorem deleterVerdict_lapsed (h : r.Lapsed me v.deleter) :
    r.deleterVerdict me s access v = .visible := by
  unfold deleterVerdict
  cases hd : v.deleter with
  | none => rfl
  | some d =>
    obtain ⟨hne, hstatus⟩ := h d hd
    simp [hne, hstatus]

theorem deleterVerdict_congr (h : StampsAgree r r' me me' s s' v.deleter v'.deleter) :
    r.deleterVerdict me s access v = r'.deleterVerdict me' s' access v' := by
  rcases h with ⟨h, h'⟩ | ⟨x, x', hx, hx', h⟩
  · rw [deleterVerdict_lapsed h, deleterVerdict_lapsed h']
  · simp only [deleterVerdict, hx, hx', h.mine, h.status, h.sees]

theorem visibility_congr (hcreator : Agree r r' me me' s s' v.creator v'.creator)
    (hdeleter : StampsAgree r r' me me' s s' v.deleter v'.deleter) :
    r.visibility me s access v = r'.visibility me' s' access v' := by
  rw [visibility, visibility, creatorVerdict_congr hcreator, deleterVerdict_congr hdeleter]

theorem StampsAgree.of_agree {d : Option TxId}
    (h : ∀ x, d = some x → Agree r r' me me' s s' x x) : StampsAgree r r' me me' s s' d d := by
  cases d with
  | none => exact .inl ⟨nofun, nofun⟩
  | some x => exact .inr ⟨x, x, rfl, rfl, h x rfl⟩

theorem visibility_write_of_read (h : r.visibility me s .read v = .visible) :
    r.visibility me s .write v ≠ .invisible := by
  obtain ⟨hcreator, hdeleter⟩ := (r.visibility_read me s v).2.mp h
  have hwriter : r.creatorVerdict me s .write v = none := by
    unfold creatorVerdict
    rcases hcreator with hme | ⟨hstatus, _⟩
    · rw [if_pos hme]
    · split
      · rfl
      · rw [hstatus]
  rw [visibility, hwriter, Option.getD_none]
  unfold deleterVerdict
  cases hd : v.deleter with
  | none => exact nofun
  | some d =>
    have hshows : ¬r.Shows me s d := fun hshows => hdeleter ⟨d, hd, hshows⟩
    have hne : d ≠ me := fun hme => hshows (.inl hme)
    simp only [if_neg hne]
    rcases hstatus : r.status d with _ | _ | _
    · simp
    · have hsees : s.sees d = false := by
        by_contra hsees
        exact hshows (.inr ⟨hstatus, by simpa using hsees⟩)
      simp [hsees]
    · simp

/-- For writing, the latest committed state decides, and a stamp counts unless it has lapsed. -/
theorem visibility_write : r.visibility me s .write v = .visible ↔
    (v.creator = me ∨ r.status v.creator = .ended .committed) ∧ r.Lapsed me v.deleter := by
  have hcreator : r.creatorVerdict me s .write v = none ∧
        (v.creator = me ∨ r.status v.creator = .ended .committed) ∨
      (∃ seen, r.creatorVerdict me s .write v = some seen ∧ seen ≠ .visible) ∧
        ¬(v.creator = me ∨ r.status v.creator = .ended .committed) := by
    unfold creatorVerdict
    by_cases hme : v.creator = me
    · simp [hme]
    · rcases hstatus : r.status v.creator with _ | _ | _ <;> simp [hme]
  have hdeleter : r.deleterVerdict me s .write v = .visible ↔ r.Lapsed me v.deleter := by
    refine ⟨fun h => ?_, deleterVerdict_lapsed⟩
    rintro d hd
    unfold deleterVerdict at h
    rw [hd] at h
    by_cases hme : d = me
    · simp [hme] at h
    · rcases hstatus : r.status d with _ | _ | _
      · simp [hme, hstatus] at h
      · cases hsees : s.sees d <;> simp [hme, hstatus, hsees] at h
      · exact ⟨hme, rfl⟩
  unfold visibility
  rcases hcreator with ⟨hnone, hcounts⟩ | ⟨⟨seen, hseen, hne⟩, hcounts⟩
  · rw [hnone, Option.getD_none, hdeleter, and_iff_right hcounts]
  · rw [hseen, Option.getD_some]
    exact ⟨fun h => absurd h hne, fun h => absurd h.1 hcounts⟩

theorem deleteVerdict_of_visible (h : r.visibility me s .write v = .visible) :
    r.deleteVerdict me v = .stamp := by
  obtain ⟨hcreator, hdeleter⟩ := visibility_write.mp h
  have hfree : ¬(v.creator ≠ me ∧ r.status v.creator = .active) := by
    rintro ⟨hne, hactive⟩
    rw [hcreator.resolve_left hne] at hactive
    cases hactive
  rw [deleteVerdict, if_neg hfree]
  cases hd : v.deleter with
  | none => rfl
  | some d =>
    obtain ⟨hne, hstatus⟩ := hdeleter d hd
    simp only [if_neg hne, hstatus, if_true]

theorem visibility_read_of_write (hc : r.Registered v.creator)
    (h : r.visibility me r.snapshot .write v = .visible) :
    r.visibility me r.snapshot .read v = .visible := by
  obtain ⟨hcreator, hdeleter⟩ := visibility_write.mp h
  refine (r.visibility_read me r.snapshot v).2.mpr ⟨?_, ?_⟩
  · rcases hcreator with hme | hcommitted
    · exact .inl hme
    · refine .inr ⟨hcommitted, (r.snapshot_sees hc.1).mpr ⟨hc, ?_⟩⟩
      rw [hcommitted]
      exact nofun
  · rintro ⟨d, hd, hshows⟩
    obtain ⟨hne, haborted⟩ := hdeleter d hd
    rcases hshows with hme | ⟨hcommitted, _⟩
    · exact hne hme
    · rw [haborted] at hcommitted
      cases hcommitted

end Registry

namespace Database

variable {db db' : Database} {t u : TxHandle} {table : TableId} {x me : TxId}

theorem mem_versions {v : Version} :
    v ∈ (db.reader t).versions table ↔ ∃ rid, db.version? table rid = some v := by
  simp only [reader, version?, Table.version?, List.mem_iff_getElem?, Array.getElem?_toList]
  constructor
  · rintro ⟨slot, h⟩
    exact ⟨⟨slot⟩, h⟩
  · rintro ⟨rid, h⟩
    exact ⟨rid.slot, h⟩

theorem version?_rid (hs : db.Sound) {v : Version} (h : v ∈ (db.reader t).versions table) :
    db.version? table v.rid = some v := by
  obtain ⟨rid, hv⟩ := mem_versions.mp h
  rwa [hs.rid hv]

theorem registered_begun (hx : db.registry.Registered x) :
    (db.begun t).registry.Registered x := by
  cases hn : db.number? t with
  | some y => rwa [begun_of_number? hn]
  | none =>
    rw [registry_begun_of_none hn]
    exact Registry.registered_register hx

theorem status_begun (hx : db.registry.Registered x) :
    (db.begun t).registry.status x = db.registry.status x := by
  cases hn : db.number? t with
  | some y => rw [begun_of_number? hn]
  | none => rw [registry_begun_of_none hn, Registry.status_register hx]

/-- The number that a transaction starts with is new unless it is its own already. -/
theorem eq_start_iff (hx : db.registry.Registered x) :
    x = (db.start u).1 ↔ db.number? u = some x := by
  cases hn : db.number? u with
  | some y =>
    rw [start_of_number? hn, Option.some.injEq, eq_comm]
  | none =>
    rw [start_of_none hn]
    refine ⟨?_, nofun⟩
    rintro rfl
    exact absurd hx (Registry.not_registered_new db.registry)

/-- A snapshot is the one that was pinned when the transaction started, or a new one. -/
theorem snapshotOf_cases (db : Database) (u : TxHandle) :
    (∃ r, (db.transaction u).started = some r ∧ (db.transaction u).isolation.pinsSnapshot = true ∧
      db.snapshotOf u = r.2) ∨
    ((db.transaction u).started = none ∨ (db.transaction u).isolation.pinsSnapshot = false) ∧
      db.snapshotOf u = (db.begun u).registry.snapshot := by
  unfold snapshotOf
  cases hpin : (db.transaction u).isolation.pinsSnapshot with
  | false => exact .inr ⟨.inr rfl, rfl⟩
  | true =>
    cases hs : (db.transaction u).started with
    | some r => exact .inl ⟨r, rfl, rfl, by rw [if_pos rfl, start_of_started hs]⟩
    | none =>
      have hnone : db.number? u = none := by rw [number?, hs, Option.map_none]
      refine .inr ⟨.inl rfl, ?_⟩
      rw [if_pos rfl, start_of_none hnone, registry_begun_of_none hnone]

theorem sees_begun_snapshot (hx : db.registry.Registered x) :
    (db.begun u).registry.snapshot.sees x = decide (db.registry.status x ≠ .active) := by
  rw [Bool.eq_iff_iff, Registry.snapshot_sees _ hx.1, status_begun hx, decide_eq_true_eq,
    and_iff_right (registered_begun hx)]

theorem snapshotOf_begun (ht : db.Knows t) : (db.begun t).snapshotOf t = db.snapshotOf t := by
  have hisolation : ((db.begun t).transaction t).isolation = (db.transaction t).isolation := by
    rw [transaction_begun_self ht]
  rw [snapshotOf, snapshotOf, hisolation, start_begun ht, begun_begun ht]

theorem see_begun_self (ht : db.Knows t) : ((db.begun t).reader t).see = (db.reader t).see := by
  simp only [reader, begun_begun ht, start_begun ht, snapshotOf_begun ht]

theorem agree_begun (ht : db.Knows t) (hx : db.registry.Registered x) :
    Registry.Agree ((db.begun t).begun u).registry (db.begun u).registry ((db.begun t).start u).1
      (db.start u).1 ((db.begun t).snapshotOf u) (db.snapshotOf u) x x := by
  by_cases hut : u = t
  · subst hut
    rw [begun_begun ht, start_begun ht, snapshotOf_begun ht]
    exact ⟨Iff.rfl, rfl, rfl⟩
  · have hx' := registered_begun (t := t) hx
    have hsame : (db.begun t).transaction u = db.transaction u := transaction_begun_of_ne hut
    refine ⟨?_, ?_, ?_⟩
    · rw [eq_start_iff hx', eq_start_iff hx, number?, hsame, ← number?]
    · rw [status_begun hx', status_begun hx, status_begun hx]
    · rcases snapshotOf_cases db u with ⟨r, hr, hpin, hs⟩ | ⟨hfresh, hs⟩
      · rcases snapshotOf_cases (db.begun t) u with ⟨r', hr', _, hs'⟩ | ⟨hfresh, _⟩
        · rw [hsame, hr] at hr'
          rw [hs, hs', Option.some.inj hr']
        · rw [hsame, hr, hpin] at hfresh
          simp at hfresh
      · rcases snapshotOf_cases (db.begun t) u with ⟨r', hr', hpin', _⟩ | ⟨_, hs'⟩
        · rw [hsame] at hr' hpin'
          rw [hr', hpin'] at hfresh
          simp at hfresh
        · rw [hs, hs', sees_begun_snapshot hx', sees_begun_snapshot hx, status_begun hx]

/-- A transaction sees every version alike before and after another one starts. -/
theorem see_begun (hs : db.Sound) (ht : db.Knows t) {table : TableId} {rid : RowId} {v : Version}
    (hv : db.version? table rid = some v) (access : Access) :
    ((db.begun t).reader u).see access v = (db.reader u).see access v :=
  Registry.visibility_congr (agree_begun ht (hs.creator hv))
    (.of_agree fun _ hd => agree_begun ht (hs.deleter hv hd))

theorem snapshotOf_congr (hregistry : db'.registry = db.registry)
    (hstarted : (db'.transaction u).started = (db.transaction u).started)
    (hisolation : (db'.transaction u).isolation = (db.transaction u).isolation) :
    (db'.begun u).registry = (db.begun u).registry ∧ db'.start u = db.start u ∧
      db'.snapshotOf u = db.snapshotOf u := by
  have hstart : db'.start u = db.start u := by rw [start, start, hstarted, hregistry]
  have hbegun : (db'.begun u).registry = (db.begun u).registry := by
    rw [begun, begun, hstarted]
    split
    · exact hregistry
    · simp only [registered, hregistry]
      rfl
  refine ⟨hbegun, hstart, ?_⟩
  rw [snapshotOf, snapshotOf, hisolation, hstart, hbegun]

theorem see_writes (h : Writes me db db') (u : TxHandle) :
    (db'.reader u).see = (db.reader u).see := by
  have hsame : db'.registry = db.registry ∧
      (db'.transaction u).started = (db.transaction u).started ∧
      (db'.transaction u).isolation = (db.transaction u).isolation := by
    induction h with
    | refl => exact ⟨rfl, rfl, rfl⟩
    | tail _ hstep ih =>
      obtain ⟨n, hn⟩ := transaction_write hstep u
      rw [hn]
      exact ⟨(registry_write hstep).trans ih.1, ih.2⟩
  obtain ⟨hbegun, hstart, hsnapshot⟩ := snapshotOf_congr hsame.1 hsame.2.1 hsame.2.2
  simp only [reader, hbegun, hstart, hsnapshot]

end Database

end SnapshotSql
