import SnapshotSql.Proofs.Transaction.Operation
/-! # Histories -/

namespace SnapshotSql

/-- Operations in the order in which they happened. -/
abbrev History := List TxOp

namespace History

def final (h : History) : Database := h.foldl (fun db op => (op.perform db).2) {}

/-- The database before operation number `k`. -/
def stateAt (h : History) (k : Nat) : Database := final (h.take k)

/-- Operation number `k` was `op`, and it succeeded. -/
def Did (h : History) (k : Nat) (op : TxOp) : Prop :=
  h[k]? = some op ∧ (op.perform (h.stateAt k)).1 = true

/-- A transaction with this number committed before operation number `k`. -/
def CommittedBefore (h : History) (x : TxId) (k : Nat) : Prop :=
  ∃ j < k, ∃ t, h.Did j (.commit t) ∧ (h.stateAt j).number? t = some x

variable {h : History} {i j k : Nat} {op : TxOp} {t : TxHandle} {x : TxId}

@[simp] theorem stateAt_zero : h.stateAt 0 = {} := rfl

theorem stateAt_length (h : History) : h.stateAt h.length = h.final := by
  rw [stateAt, List.take_length]

theorem stateAt_succ (hop : h[k]? = some op) : h.stateAt (k + 1) = (op.perform (h.stateAt k)).2 := by
  obtain ⟨hk, rfl⟩ := List.getElem?_eq_some_iff.mp hop
  rw [stateAt, List.take_succ_eq_append_getElem hk, final, List.foldl_append]
  rfl

theorem stateAt_succ_of_none (hop : h[k]? = none) : h.stateAt (k + 1) = h.stateAt k := by
  have hk : h.length ≤ k := List.getElem?_eq_none_iff.mp hop
  rw [stateAt, stateAt, List.take_of_length_le hk, List.take_of_length_le (by omega)]

/-- An operation either only changes the database, or it ends one transaction successfully. -/
theorem step_cases (h : History) (k : Nat) :
    Changes (h.stateAt k) (h.stateAt (k + 1)) ∧
        (∀ op, h.Did k op → op.ending? = none) ∨
      ∃ t how, (h.stateAt k).Active t ∧ h.stateAt (k + 1) = (h.stateAt k).ended t how ∧
        (h.Did k (.commit t) ∧ how = .committed ∨ h.Did k (.rollback t) ∧ how = .aborted) := by
  cases hop : h[k]? with
  | none =>
    refine .inl ⟨by rw [stateAt_succ_of_none hop], ?_⟩
    rintro op ⟨hop', _⟩
    rw [hop] at hop'
    cases hop'
  | some op =>
    rw [stateAt_succ hop]
    cases he : op.ending? with
    | none =>
      refine .inl ⟨TxOp.changes_perform he _, ?_⟩
      rintro op' ⟨hop', _⟩
      rw [hop] at hop'
      cases hop'
      exact he
    | some e =>
      obtain ⟨t, how⟩ := e
      rcases TxOp.perform_ending he (h.stateAt k) with ⟨ht, hrun⟩ | hrun
      · have hdid : h.Did k op := ⟨hop, by rw [hrun]⟩
        refine .inr ⟨t, how, ht, by rw [hrun], ?_⟩
        cases op <;> cases he
        · exact .inl ⟨hdid, rfl⟩
        · exact .inr ⟨hdid, rfl⟩
      · refine .inl ⟨by rw [hrun], ?_⟩
        rintro op' ⟨hop', hsuccess⟩
        rw [hop] at hop'
        cases hop'
        rw [hrun] at hsuccess
        cases hsuccess

theorem sound_stateAt (h : History) (k : Nat) : (h.stateAt k).Sound := by
  induction k with
  | zero => exact Database.sound_empty
  | succ k ih =>
    cases hop : h[k]? with
    | none => rwa [stateAt_succ_of_none hop]
    | some op =>
      rw [stateAt_succ hop]
      exact Database.sound_perform ih op

theorem assigned_stateAt (h : History) (k : Nat) : (h.stateAt k).Assigned := by
  induction k with
  | zero =>
    intro x hx
    simp only [stateAt_zero, Registry.Registered, Array.size_empty] at hx
    omega
  | succ k ih =>
    cases hop : h[k]? with
    | none => rwa [stateAt_succ_of_none hop]
    | some op =>
      rw [stateAt_succ hop]
      exact Database.assigned_perform op ih

theorem evolves_succ (h : History) (k : Nat) : (h.stateAt k).Evolves (h.stateAt (k + 1)) := by
  cases hop : h[k]? with
  | none => rw [stateAt_succ_of_none hop]
  | some op =>
    rw [stateAt_succ hop]
    exact Database.evolves_perform (h.sound_stateAt k) op

theorem evolves_stateAt (h : History) (hjk : j ≤ k) : (h.stateAt j).Evolves (h.stateAt k) := by
  induction hjk with
  | refl => rfl
  | step _ ih => exact Database.evolves_trans ih (h.evolves_succ _)

/-- A transaction gets its number and snapshot from the database before the operation. -/
theorem started_succ (h : History) (k : Nat) (t : TxHandle) :
    ((h.stateAt (k + 1)).transaction t).started = ((h.stateAt k).transaction t).started ∨
      (h.stateAt k).Active t ∧
        ((h.stateAt (k + 1)).transaction t).started = some ((h.stateAt k).start t) := by
  cases hop : h[k]? with
  | none => exact .inl (by rw [stateAt_succ_of_none hop])
  | some op =>
    rw [stateAt_succ hop]
    cases he : op.ending? with
    | none => exact TxOp.started_perform he _ t
    | some e =>
      obtain ⟨u, how⟩ := e
      rcases TxOp.perform_ending he (h.stateAt k) with ⟨hu, hrun⟩ | hrun
      · exact .inl (by rw [hrun, Database.started_ended hu.1])
      · exact .inl (by rw [hrun])

theorem committedBefore_succ :
    h.CommittedBefore x (k + 1) ↔ h.CommittedBefore x k ∨
      ∃ t, h.Did k (.commit t) ∧ (h.stateAt k).number? t = some x := by
  constructor
  · rintro ⟨j, hj, ht⟩
    rcases Nat.lt_succ_iff_lt_or_eq.mp hj with hj | rfl
    · exact .inl ⟨j, hj, ht⟩
    · exact .inr ht
  · rintro (⟨j, hj, ht⟩ | ht)
    · exact ⟨j, Nat.lt_succ_of_lt hj, ht⟩
    · exact ⟨k, Nat.lt_succ_self k, ht⟩

theorem committed_stateAt (h : History) (k : Nat) :
    (h.stateAt k).Committed x ↔ h.CommittedBefore x k := by
  induction k with
  | zero =>
    constructor
    · rintro ⟨⟨hpos, hle⟩, _⟩
      simp only [stateAt_zero, Array.size_empty] at hle
      omega
    · rintro ⟨j, hj, _⟩
      cases hj
  | succ k ih =>
    rw [committedBefore_succ, ← ih]
    rcases h.step_cases k with ⟨hchanges, hnone⟩ | ⟨t, how, ht, hstate, hend⟩
    · rw [Database.committed_changes hchanges]
      refine ⟨.inl, ?_⟩
      rintro (hx | ⟨t, hdid, _⟩)
      · exact hx
      · cases hnone _ hdid
    · rw [hstate, Database.committed_ended (h.sound_stateAt k) ht]
      refine or_congr_right ?_
      constructor
      · rintro ⟨rfl, hx⟩
        rcases hend with ⟨hdid, _⟩ | ⟨_, hhow⟩
        · exact ⟨t, hdid, hx⟩
        · cases hhow
      · rintro ⟨u, hu, hx⟩
        rcases hend with ⟨hdid, rfl⟩ | ⟨hdid, _⟩
        · have : u = t := by
            have := hu.1.symm.trans hdid.1
            cases this
            rfl
          exact ⟨rfl, this ▸ hx⟩
        · have := hu.1.symm.trans hdid.1
          cases this

end History

end SnapshotSql
