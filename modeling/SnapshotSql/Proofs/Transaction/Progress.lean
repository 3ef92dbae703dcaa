import SnapshotSql.Proofs.Transaction.Sound
/-! # Progress -/

namespace SnapshotSql.Database

structure Evolves (db db' : Database) : Prop where
  knows : ∀ {t}, db.Knows t → db'.Knows t
  isolation : ∀ {t}, db.Knows t → (db'.transaction t).isolation = (db.transaction t).isolation
  started : ∀ {t r}, (db.transaction t).started = some r → (db'.transaction t).started = some r
  ending : ∀ {t how}, (db.transaction t).ending = some how →
    (db'.transaction t).ending = some how
  registered : ∀ {x}, db.registry.Registered x → db'.registry.Registered x
  status : ∀ {x how}, db.registry.Registered x → db.registry.status x = .ended how →
    db'.registry.status x = .ended how

def Committed (db : Database) (x : TxId) : Prop :=
  db.registry.Registered x ∧ db.registry.status x = .ended .committed

variable {db db' db'' : Database} {t u : TxHandle} {x me : TxId} {how : Ending}

@[refl] theorem evolves_refl (db : Database) : db.Evolves db := by
  constructor <;> intros <;> trivial

theorem evolves_trans (h : db.Evolves db') (h' : db'.Evolves db'') : db.Evolves db'' where
  knows ht := h'.knows (h.knows ht)
  isolation ht := (h'.isolation (h.knows ht)).trans (h.isolation ht)
  started hs := h'.started (h.started hs)
  ending he := h'.ending (h.ending he)
  registered hx := h'.registered (h.registered hx)
  status hx hs := h'.status (h.registered hx) (h.status hx hs)

theorem number?_of_evolves (h : db.Evolves db') (ht : db.number? t = some x) :
    db'.number? t = some x := by
  obtain ⟨r, hr, rfl⟩ := Option.map_eq_some_iff.mp ht
  rw [number?, h.started hr, Option.map_some]

private theorem evolves_begin (db : Database) (isolation : Isolation) :
    db.Evolves (db.begin isolation).2 where
  knows ht := knows_begin ht isolation
  isolation ht := by rw [transaction_begin ht]
  started {t r} hs := by
    have ht : db.Knows t := knows_of_number? (x := r.1) (by simp [number?, hs])
    rwa [transaction_begin ht]
  ending he := by rwa [ending_begin]
  registered hx := hx
  status _ hs := hs

private theorem evolves_begun (h : db.Active t) : db.Evolves (db.begun t) := by
  cases hnone : db.number? t with
  | some x => rw [begun_of_number? hnone]
  | none =>
    constructor
    case knows => exact fun hu => knows_begun.mpr hu
    case isolation =>
      intro u _
      by_cases hut : u = t
      · rw [hut, transaction_begun_self h.1]
      · rw [transaction_begun_of_ne hut]
    case started =>
      intro u r hs
      have hut : u ≠ t := by
        rintro rfl
        simp [number?, hs] at hnone
      rwa [transaction_begun_of_ne hut]
    case ending =>
      intro u how he
      rwa [ending_begun h.1]
    case registered =>
      intro x hx
      rw [registry_begun_of_none hnone]
      exact Registry.registered_register hx
    case status =>
      intro x how hx hs
      rwa [registry_begun_of_none hnone, Registry.status_register hx]

private theorem evolves_write (h : Write me db db') : db.Evolves db' := by
  constructor
  case knows => exact fun hu => (knows_write h).mpr hu
  case isolation =>
    intro u _
    obtain ⟨n, hn⟩ := transaction_write h u
    rw [hn]
  case started =>
    intro u r hr
    obtain ⟨n, hn⟩ := transaction_write h u
    rwa [hn]
  case ending =>
    intro u how he
    obtain ⟨n, hn⟩ := transaction_write h u
    rwa [hn]
  case registered =>
    intro x hx
    rwa [registry_write h]
  case status =>
    intro x how _ hs
    rwa [registry_write h]

theorem evolves_change (h : Change db db') : db.Evolves db' := by
  cases h with
  | begin isolation => exact evolves_begin db isolation
  | layout => constructor <;> intros <;> trivial
  | start ht => exact evolves_begun ht
  | write _ _ hw => exact evolves_write hw

theorem evolves_changes (h : Changes db db') : db.Evolves db' := by
  induction h with
  | refl => rfl
  | tail _ hstep ih => exact evolves_trans ih (evolves_change hstep)

theorem evolves_ended (hs : db.Sound) (ht : db.Active t) (how : Ending) :
    db.Evolves (db.ended t how) := by
  constructor
  case knows => exact fun hu => knows_ended.mpr hu
  case isolation =>
    intro u _
    by_cases hut : u = t
    · rw [hut, transaction_ended_self ht.1]
    · rw [transaction_ended_of_ne hut]
  case started =>
    intro u r hr
    rwa [started_ended ht.1]
  case ending =>
    intro u how' he
    have hut : u ≠ t := by
      rintro rfl
      simp [ht.2] at he
    rwa [transaction_ended_of_ne hut]
  case registered =>
    intro x hx
    cases hn : db.number? t with
    | none => rwa [registry_ended_of_none hn]
    | some me => rwa [registry_ended hn, Registry.registered_finish]
  case status =>
    intro x how' hx hstatus
    cases hn : db.number? t with
    | none => rwa [registry_ended_of_none hn]
    | some me =>
      have hne : x ≠ me := by
        rintro rfl
        have := hs.status hn
        simp [hstatus, Transaction.status, ht.2] at this
      rwa [registry_ended hn, Registry.status_finish_of_ne hne]

/-! ## Commits -/

theorem committed_change (h : Change db db') : db'.Committed x ↔ db.Committed x := by
  cases h with
  | begin | layout => exact Iff.rfl
  | write _ _ hw => rw [Committed, Committed, registry_write hw]
  | @start t ht =>
    cases hnone : db.number? t with
    | some x => rw [begun_of_number? hnone]
    | none =>
      simp only [Committed, registry_begun_of_none hnone]
      constructor
      · rintro ⟨hx, hstatus⟩
        rcases Registry.registered_of_register hx with hx | rfl
        · exact ⟨hx, Registry.status_register hx ▸ hstatus⟩
        · rw [Registry.status_register_new] at hstatus
          cases hstatus
      · rintro ⟨hx, hstatus⟩
        exact ⟨Registry.registered_register hx, (Registry.status_register hx).trans hstatus⟩

theorem committed_changes (h : Changes db db') : db'.Committed x ↔ db.Committed x := by
  induction h with
  | refl => rfl
  | tail _ hstep ih => exact (committed_change hstep).trans ih

/-- Committing adds the number of the transaction to those committed, rolling back adds none. -/
theorem committed_ended (hs : db.Sound) (ht : db.Active t) :
    (db.ended t how).Committed x ↔
      db.Committed x ∨ how = .committed ∧ db.number? t = some x := by
  cases hn : db.number? t with
  | none => simp [Committed, registry_ended_of_none hn]
  | some me =>
    simp only [Committed, registry_ended hn, Registry.registered_finish, Option.some.injEq]
    by_cases hx : x = me
    · subst hx
      have hactive : db.registry.status x = .active := by
        rw [hs.status hn, Transaction.status, ht.2]
        rfl
      simp [Registry.status_finish_self (hs.registered hn), hactive, hs.registered hn]
    · rw [Registry.status_finish_of_ne hx]
      simp [Ne.symm hx]

end SnapshotSql.Database
