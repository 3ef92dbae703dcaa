import SnapshotSql.Proofs.Transaction.History
/-! # Exclusive changes -/

namespace SnapshotSql

namespace Database

/-- The version at a row id is stored, and its deleter is `t`. -/
def StampedBy (db : Database) (t : TxHandle) (table : TableId) (rid : RowId) : Prop :=
  ∃ v x, db.version? table rid = some v ∧ v.deleter = some x ∧ db.number? t = some x

def Aborted (db : Database) (t : TxHandle) : Prop := (db.transaction t).ending = some .aborted

variable {db db' : Database} {t u : TxHandle} {table : TableId} {rid : RowId} {me : TxId}

theorem eq_of_stampedBy (hs : db.Sound) (ht : db.StampedBy t table rid)
    (hu : db.StampedBy u table rid) : t = u := by
  obtain ⟨v, x, hv, hx, ht⟩ := ht
  obtain ⟨w, y, hw, hy, hu⟩ := hu
  have hvw : v = w := Option.some.inj (hv.symm.trans hw)
  have hxy : x = y := by
    rw [hvw] at hx
    exact Option.some.inj (hx.symm.trans hy)
  exact hs.distinct ht (hxy ▸ hu)

private theorem stampedBy_write (hs : db.Sound) (hw : Write me db db') (hna : ¬db.Aborted t)
    (h : db.StampedBy t table rid) : db'.StampedBy t table rid := by
  obtain ⟨v, x, hv, hx, ht⟩ := h
  cases hw with
  | count u => exact ⟨v, x, hv, hx, by rwa [number?_counted]⟩
  | append other values => exact ⟨v, x, version?_appended_of_some hv, hx, ht⟩
  | @stamp other r w hw hd =>
    have hne : ¬(table = other ∧ rid = r) := by
      rintro ⟨rfl, rfl⟩
      have hvw : v = w := Option.some.inj (hv.symm.trans hw)
      have haborted := Registry.aborted_of_stamp hd (hvw ▸ hx)
      rw [hs.status ht] at haborted
      apply hna
      cases he : (db.transaction t).ending with
      | none => simp [Transaction.status, he] at haborted
      | some how =>
        have hhow : how = .aborted := by simpa [Transaction.status, he] using haborted
        rw [Aborted, he, hhow]
    refine ⟨v, x, ?_, hx, ht⟩
    rw [version?_stamped, hv, Option.map_some, if_neg hne]

private theorem stampedBy_change (hs : db.Sound) (hc : Change db db') (hna : ¬db.Aborted t)
    (h : db.StampedBy t table rid) : db'.StampedBy t table rid := by
  cases hc with
  | write _ _ hw => exact stampedBy_write hs hw hna h
  | begin isolation =>
    obtain ⟨v, x, hv, hx, ht⟩ := h
    exact ⟨v, x, hv, hx, by rwa [number?_begin]⟩
  | layout c hc =>
    obtain ⟨v, x, hv, hx, ht⟩ := h
    exact ⟨v, x, by rwa [version?_of_versions_eq hc], hx, ht⟩
  | start hu =>
    obtain ⟨v, x, hv, hx, ht⟩ := h
    refine ⟨v, x, by rwa [version?_of_catalog_eq begun_catalog], hx, ?_⟩
    exact number?_of_evolves (evolves_change (.start hu)) ht

theorem not_aborted_of_evolves (h : db.Evolves db') (hna : ¬db'.Aborted t) : ¬db.Aborted t :=
  fun ha => hna (h.ending ha)

theorem stampedBy_changes (hs : db.Sound) (hc : Changes db db') (hna : ¬db'.Aborted t)
    (h : db.StampedBy t table rid) : db'.StampedBy t table rid := by
  induction hc with
  | refl => exact h
  | tail hsteps hstep ih =>
    have hna := not_aborted_of_evolves (evolves_change hstep) hna
    exact stampedBy_change (sound_changes hs hsteps) hstep hna (ih hna)

theorem stampedBy_ended (hu : db.Active u) (how : Ending) (h : db.StampedBy t table rid) :
    (db.ended u how).StampedBy t table rid := by
  obtain ⟨v, x, hv, hx, ht⟩ := h
  exact ⟨v, x, by rwa [version?_of_catalog_eq ended_catalog], hx, by rwa [number?_ended hu.1]⟩

theorem deleteVerdict_done {r : Registry} {v : Version}
    (hd : r.deleteVerdict me v = .done) : v.deleter = some me := by
  unfold Registry.deleteVerdict at hd
  split at hd
  · cases hd
  · cases hx : v.deleter with
    | none => simp [hx] at hd
    | some x =>
      rw [hx] at hd
      simp only at hd
      split at hd
      · rename_i hxme
        rw [hxme]
      · split at hd <;> cases hd

theorem stampedBy_of_deleteRow (ht : db.Active t)
    (hrun : (t.deleteRow table rid).run db = .ok () db') : db'.StampedBy t table rid := by
  have hme : (db.begun t).number? t = some (db.start t).1 := number?_begun ht.1
  rw [TxHandle.deleteRow_run ht] at hrun
  cases hv : db.version? table rid with
  | none =>
    rw [hv] at hrun
    cases hrun
  | some v =>
    have hv' : (db.begun t).version? table rid = some v := by
      rwa [version?_of_catalog_eq begun_catalog]
    rw [hv] at hrun
    simp only at hrun
    cases hd : (db.begun t).registry.deleteVerdict (db.start t).1 v with
    | refuse =>
      rw [hd] at hrun
      cases hrun
    | done =>
      rw [hd] at hrun
      cases hrun
      exact ⟨v, _, hv', deleteVerdict_done hd, by rwa [number?_counted]⟩
    | stamp =>
      rw [hd] at hrun
      cases hrun
      refine ⟨{ v with deleter := some (db.start t).1 }, _, ?_, rfl, by rwa [number?_counted]⟩
      change ((db.begun t).stamped table rid _).version? table rid = _
      rw [version?_stamped, hv', Option.map_some, if_pos ⟨rfl, rfl⟩]

theorem stampedBy_of_updateRow {values : List Value} {r : RowId} (hs : db.Sound)
    (ht : db.Active t) (hrun : (t.updateRow table rid values).run db = .ok r db') :
    db'.StampedBy t table rid := by
  rw [TxHandle.updateRow_run] at hrun
  split at hrun
  · cases hrun
  · have hwrites := TxOp.writes_deleteRow ht table rid
    rw [attempt] at hwrites
    cases hdelete : (t.deleteRow table rid).run db with
    | error e mid =>
      rw [hdelete] at hrun
      cases hrun
    | ok _ mid =>
      rw [hdelete] at hrun hwrites
      have hmid : Changes db mid :=
        .head (.start ht) (changes_of_writes (active_begun ht) (number?_begun ht.1) hwrites)
      have htmid : mid.Active t := (active_writes hwrites).mpr (active_begun ht)
      have hinsert := TxOp.writes_insertRow htmid table values
      change (t.insertRow table values).run mid = .ok r db' at hrun
      rw [attempt, hrun] at hinsert
      have hafter : db'.Active t := (active_writes hinsert).mpr (active_begun htmid)
      have hchanges : Changes mid db' :=
        .head (.start htmid)
          (changes_of_writes (active_begun htmid) (number?_begun htmid.1) hinsert)
      refine stampedBy_changes (sound_changes hs hmid) hchanges ?_
        (stampedBy_of_deleteRow ht hdelete)
      rw [Aborted, hafter.2]
      simp

end Database

namespace History

/-- A delete or an update of a version by `t` has succeeded. -/
def Changed (h : History) (t : TxHandle) (table : TableId) (rid : RowId) : Prop :=
  ∃ j, h.Did j (.deleteRow t table rid) ∨ ∃ values, h.Did j (.updateRow t table rid values)

variable {h : History} {t u : TxHandle} {table : TableId} {rid : RowId} {j k : Nat}

private theorem stampedBy_of_did_deleteRow (hdid : h.Did j (.deleteRow t table rid)) :
    (h.stateAt (j + 1)).StampedBy t table rid := by
  obtain ⟨hop, hsuccess⟩ := hdid
  obtain ⟨ht, hrun⟩ := TxOp.perform_of_success rfl hsuccess
  rw [stateAt_succ hop, hrun]
  rw [hrun, TxOp.effect] at hsuccess
  rw [TxOp.effect]
  unfold Database.attempt at hsuccess ⊢
  cases hdelete : (t.deleteRow table rid).run (h.stateAt j) with
  | error e db => simp [hdelete] at hsuccess
  | ok _ db =>
    cases he : ((h.stateAt j).transaction t).ending with
    | none => exact Database.stampedBy_of_deleteRow ⟨ht, he⟩ hdelete
    | some how =>
      rw [TxHandle.deleteRow_run_ended he] at hdelete
      cases hdelete

private theorem stampedBy_of_did_updateRow {values : List Value}
    (hdid : h.Did j (.updateRow t table rid values)) :
    (h.stateAt (j + 1)).StampedBy t table rid := by
  obtain ⟨hop, hsuccess⟩ := hdid
  obtain ⟨ht, hrun⟩ := TxOp.perform_of_success rfl hsuccess
  rw [stateAt_succ hop, hrun]
  rw [hrun, TxOp.effect] at hsuccess
  rw [TxOp.effect]
  unfold Database.attempt at hsuccess ⊢
  cases hupdate : (t.updateRow table rid values).run (h.stateAt j) with
  | error e db => simp [hupdate] at hsuccess
  | ok r db =>
    cases he : ((h.stateAt j).transaction t).ending with
    | none => exact Database.stampedBy_of_updateRow (h.sound_stateAt j) ⟨ht, he⟩ hupdate
    | some how =>
      obtain ⟨e, hfail⟩ := TxHandle.updateRow_run_ended he table rid values
      rw [hfail] at hupdate
      cases hupdate

private theorem stampedBy_succ (hna : ¬(h.stateAt (k + 1)).Aborted t)
    (hk : (h.stateAt k).StampedBy t table rid) : (h.stateAt (k + 1)).StampedBy t table rid := by
  rcases h.step_cases k with ⟨hchanges, _⟩ | ⟨u, how, hu, hstate, _⟩
  · exact Database.stampedBy_changes (h.sound_stateAt k) hchanges hna hk
  · rw [hstate]
    exact Database.stampedBy_ended hu how hk

private theorem stampedBy_stateAt (hjk : j ≤ k) (hna : ¬(h.stateAt k).Aborted t)
    (hj : (h.stateAt j).StampedBy t table rid) : (h.stateAt k).StampedBy t table rid := by
  induction hjk with
  | refl => exact hj
  | step _ ih =>
    exact stampedBy_succ hna (ih (Database.not_aborted_of_evolves (h.evolves_succ _) hna))

theorem stampedBy_of_changed (hc : h.Changed t table rid) (hna : ¬h.final.Aborted t) :
    h.final.StampedBy t table rid := by
  obtain ⟨j, hdid⟩ := hc
  have hj : j < h.length := by
    rcases hdid with hdid | ⟨_, hdid⟩ <;> exact (List.getElem?_eq_some_iff.mp hdid.1).1
  have hstamped : (h.stateAt (j + 1)).StampedBy t table rid := by
    rcases hdid with hdid | ⟨values, hdid⟩
    · exact stampedBy_of_did_deleteRow hdid
    · exact stampedBy_of_did_updateRow hdid
  rw [← h.stateAt_length] at hna ⊢
  exact stampedBy_stateAt hj hna hstamped

theorem stateAt_append (more : History) (hk : k ≤ h.length) :
    stateAt (h ++ more) k = h.stateAt k := by
  rw [stateAt, stateAt, List.take_append_of_le_length hk]

theorem did_append {op : TxOp} (more : History) (hdid : h.Did k op) : Did (h ++ more) k op := by
  have hk : k < h.length := (List.getElem?_eq_some_iff.mp hdid.1).1
  refine ⟨by rw [List.getElem?_append_left hk]; exact hdid.1, ?_⟩
  rw [stateAt_append more (Nat.le_of_lt hk)]
  exact hdid.2

theorem changed_append (more : History) (hc : h.Changed t table rid) :
    Changed (h ++ more) t table rid := by
  obtain ⟨j, hdid | ⟨values, hdid⟩⟩ := hc
  · exact ⟨j, .inl (did_append more hdid)⟩
  · exact ⟨j, .inr ⟨values, did_append more hdid⟩⟩

theorem evolves_append (h more : History) : h.final.Evolves (final (h ++ more)) := by
  rw [← h.stateAt_length, ← stateAt_length (h ++ more), ← stateAt_append more (Nat.le_refl _)]
  exact evolves_stateAt _ (by simp)

/-- At most one transaction that is not rolled back has deleted or replaced a version, its number is
the deleter of the version, and once it has committed the version keeps that deleter. -/
theorem changed_exclusive (h : History) (table : TableId) (rid : RowId) :
    (∀ t u, h.Changed t table rid → h.Changed u table rid → ¬h.final.Aborted t →
        ¬h.final.Aborted u → t = u) ∧
      (∀ t, h.Changed t table rid → ¬h.final.Aborted t →
        ∃ v x, h.final.version? table rid = some v ∧ h.final.number? t = some x ∧
          v.deleter = some x) ∧
      ∀ t, h.Changed t table rid → (h.final.transaction t).ending = some .committed →
        ∃ x, h.final.number? t = some x ∧
          ∀ more, ∃ v, (final (h ++ more)).version? table rid = some v ∧ v.deleter = some x := by
  refine ⟨?_, ?_, ?_⟩
  · intro t u ht hu hta hua
    have hsound : h.final.Sound := h.stateAt_length ▸ h.sound_stateAt h.length
    exact Database.eq_of_stampedBy hsound (stampedBy_of_changed ht hta)
      (stampedBy_of_changed hu hua)
  · intro t ht hna
    obtain ⟨v, x, hv, hx, hme⟩ := stampedBy_of_changed ht hna
    exact ⟨v, x, hv, hme, hx⟩
  · intro t ht hcommitted
    have hna : ¬h.final.Aborted t := by simp [Database.Aborted, hcommitted]
    obtain ⟨_, x, _, _, hme⟩ := stampedBy_of_changed ht hna
    refine ⟨x, hme, fun more => ?_⟩
    have hlater := (h.evolves_append more).ending hcommitted
    have hna : ¬(final (h ++ more)).Aborted t := by simp [Database.Aborted, hlater]
    obtain ⟨v, y, hv, hy, hme'⟩ := stampedBy_of_changed (changed_append more ht) hna
    have hxy := (Database.number?_of_evolves (h.evolves_append more) hme).symm.trans hme'
    exact ⟨v, hv, by rw [hy, hxy]⟩

/-- A transaction inserts a row and commits, and another one deletes it and commits. -/
def deleteAfterCommit : History :=
  [.keepTable ⟨"t", [⟨"n", .integer, true⟩]⟩, .begin .readCommitted, .begin .repeatableRead,
    .insertRow ⟨0⟩ ⟨0⟩ [.integer 1], .commit ⟨0⟩, .deleteRow ⟨1⟩ ⟨0⟩ ⟨0⟩, .commit ⟨1⟩]

theorem changed_deleteAfterCommit :
    deleteAfterCommit.Changed ⟨1⟩ ⟨0⟩ ⟨0⟩ ∧
      (∃ v x, deleteAfterCommit.final.version? ⟨0⟩ ⟨0⟩ = some v ∧
        deleteAfterCommit.final.number? ⟨1⟩ = some x ∧ v.deleter = some x) ∧
      ∃ x, deleteAfterCommit.final.number? ⟨1⟩ = some x ∧
        ∀ more, ∃ v, (final (deleteAfterCommit ++ more)).version? ⟨0⟩ ⟨0⟩ = some v ∧
          v.deleter = some x := by
  have hchanged : deleteAfterCommit.Changed ⟨1⟩ ⟨0⟩ ⟨0⟩ := ⟨5, .inl ⟨rfl, rfl⟩⟩
  have hcommitted : (deleteAfterCommit.final.transaction ⟨1⟩).ending = some .committed := rfl
  have hna : ¬deleteAfterCommit.final.Aborted ⟨1⟩ := by simp [Database.Aborted, hcommitted]
  obtain ⟨_, hdeleter, hkept⟩ := changed_exclusive deleteAfterCommit ⟨0⟩ ⟨0⟩
  exact ⟨hchanged, hdeleter _ hchanged hna, hkept _ hchanged hcommitted⟩

end History

end SnapshotSql
