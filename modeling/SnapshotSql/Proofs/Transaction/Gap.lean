import SnapshotSql.Proofs.Transaction.Sound
/-! # Numbers with a gap -/

namespace SnapshotSql

/-- The handle that is given out in place of another one if `t` is given out in addition. -/
def TxHandle.past (t u : TxHandle) : TxHandle := if u.index < t.index then u else ⟨u.index + 1⟩

/-- The number that is given out in place of another one if `gap`, if any, is given out in addition. -/
def TxId.past (gap : Option TxId) (x : TxId) : TxId :=
  if gap.any (·.number ≤ x.number) then ⟨x.number + 1⟩ else x

namespace TxHandle

variable {t u w : TxHandle}

theorem past_ne (t u : TxHandle) : t.past u ≠ t := by
  unfold past
  split
  · rintro rfl
    omega
  · rintro rfl
    simp at *

theorem past_inj : t.past u = t.past w ↔ u = w := by
  refine ⟨fun h => ?_, fun h => h ▸ rfl⟩
  obtain ⟨i⟩ := u
  obtain ⟨j⟩ := w
  unfold past at h
  split at h <;> split at h <;> simp_all <;> omega

theorem past_of_lt (h : u.index < t.index) : t.past u = u := if_pos h

theorem past_of_le (h : t.index ≤ u.index) : t.past u = ⟨u.index + 1⟩ := if_neg (Nat.not_lt.mpr h)

end TxHandle

namespace TxId

variable {gap : Option TxId} {g x y : TxId}

@[simp] theorem past_none (x : TxId) : x.past none = x := rfl

theorem past_some (g x : TxId) :
    x.past (some g) = if g.number ≤ x.number then ⟨x.number + 1⟩ else x := by
  simp [past]

theorem past_of_lt (h : x.number < g.number) : x.past (some g) = x := by
  rw [past_some, if_neg (Nat.not_le.mpr h)]

theorem past_inj : x.past gap = y.past gap ↔ x = y := by
  refine ⟨fun h => ?_, fun h => h ▸ rfl⟩
  cases gap with
  | none => exact h
  | some g =>
    obtain ⟨m⟩ := x
    obtain ⟨n⟩ := y
    rw [past_some, past_some] at h
    split at h <;> split at h <;> simp_all <;> omega

theorem past_ne_gap (gap : Option TxId) (x : TxId) : some (x.past gap) ≠ gap := by
  cases gap with
  | none => exact nofun
  | some g =>
    intro h
    have hx : x.past (some g) = g := Option.some.inj h
    rw [past_some] at hx
    split at hx <;> rename_i hle <;> rw [← hx] at hle
    · exact Nat.not_succ_le_self _ hle
    · exact hle (Nat.le_refl _)

theorem number_le_past (gap : Option TxId) (x : TxId) : x.number ≤ (x.past gap).number := by
  unfold past
  split
  · exact Nat.le_succ _
  · exact Nat.le_refl _

theorem number_past_pos (gap : Option TxId) (h : 0 < x.number) : 0 < (x.past gap).number :=
  Nat.lt_of_lt_of_le h (number_le_past gap x)

end TxId

def Snapshot.Alike (gap : Option TxId) (s s' : Snapshot) : Prop :=
  ∀ x : TxId, 0 < x.number → s.sees (x.past gap) = s'.sees x

/-- Two handles show corresponding states, up to what was counted. -/
structure Transaction.Alike (gap : Option TxId) (tx tx' : Transaction) : Prop where
  isolation : tx.isolation = tx'.isolation
  ending : tx.ending = tx'.ending
  started : (tx.started = none ∧ tx'.started = none) ∨ ∃ (x : TxId) (s s' : Snapshot),
    tx.started = some (x.past gap, s) ∧ tx'.started = some (x, s') ∧ s.Alike gap s'

namespace Registry

/-- One registry has the numbers of another one and, if there is a gap, one number more. -/
structure Skips (gap : Option TxId) (r r' : Registry) : Prop where
  fits : ∀ g, gap = some g → 0 < g.number ∧ g.number ≤ r'.statuses.size + 1
  new : r.register.1 = r'.register.1.past gap
  status : ∀ x, r'.Registered x → r.status (x.past gap) = r'.status x

variable {gap : Option TxId} {r r' : Registry} {x g : TxId} {how : Ending}

theorem size_finish (r : Registry) (x : TxId) (how : Ending) :
    (r.finish x how).statuses.size = r.statuses.size := by
  unfold finish
  split
  · rfl
  · exact Array.size_setIfInBounds

theorem register_finish (r : Registry) (x : TxId) (how : Ending) :
    (r.finish x how).register.1 = r.register.1 := by
  rw [register, register, size_finish]

theorem skips_refl (r : Registry) : Skips none r r where
  fits := nofun
  new := rfl
  status _ _ := rfl

namespace Skips

theorem registered (h : Skips gap r r') : r.Registered (x.past gap) ↔ r'.Registered x := by
  have hnew : r.statuses.size + 1 = (TxId.past gap ⟨r'.statuses.size + 1⟩).number :=
    congrArg TxId.number h.new
  cases gap with
  | none => simp only [TxId.past_none, Registered, Nat.succ.inj hnew]
  | some g =>
    obtain ⟨hpos, hle⟩ := h.fits g rfl
    rw [TxId.past_some, if_pos hle] at hnew
    rw [TxId.past_some]
    split <;> simp only [Registered] at hnew ⊢ <;> omega

theorem register (h : Skips gap r r') : Skips gap r.register.2 r'.register.2 where
  fits g hg := by
    obtain ⟨hpos, hle⟩ := h.fits g hg
    refine ⟨hpos, ?_⟩
    simp only [Registry.register, Array.size_push]
    omega
  new := by
    have hnew := h.new
    simp only [Registry.register, Array.size_push] at hnew ⊢
    cases gap with
    | none => simpa using hnew
    | some g =>
      obtain ⟨hpos, hle⟩ := h.fits g rfl
      rw [TxId.past_some, if_pos hle] at hnew
      rw [TxId.past_some, if_pos (Nat.le_succ_of_le hle)]
      simpa using hnew
  status x hx := by
    rcases registered_of_register hx with hx | rfl
    · rw [status_register hx, status_register (h.registered.mpr hx), h.status x hx]
    · rw [← h.new, status_register_new, status_register_new]

theorem finish (h : Skips gap r r') (hx : r'.Registered x) :
    Skips gap (r.finish (x.past gap) how) (r'.finish x how) where
  fits g hg := by
    rw [size_finish]
    exact h.fits g hg
  new := by rw [register_finish, register_finish, h.new]
  status y hy := by
    by_cases hyx : y = x
    · rw [hyx, status_finish_self hx, status_finish_self (h.registered.mpr hx)]
    · have hne : y.past gap ≠ x.past gap := fun hpast => hyx (TxId.past_inj.mp hpast)
      rw [status_finish_of_ne hyx, status_finish_of_ne hne, h.status y (registered_finish.mp hy)]

theorem finish_gap (h : Skips gap r r') (hg : gap = some g) : Skips gap (r.finish g how) r' where
  fits := h.fits
  new := by rw [register_finish, h.new]
  status x hx := by
    have hne : x.past gap ≠ g := fun hxg => TxId.past_ne_gap gap x (by rw [hxg, hg])
    rw [status_finish_of_ne hne, h.status x hx]

/-- Numbers that were given out stay where they are when the gap opens above them. -/
theorem past_opened (h : Skips none r r') (hx : r'.Registered x) : x.past (some r.register.1) = x :=
  TxId.past_of_lt (Nat.lt_succ_of_le (h.registered.mpr hx).2)

theorem opened (h : Skips none r r') : Skips (some r.register.1) r.register.2 r' where
  fits := by
    rintro g ⟨⟩
    exact ⟨Nat.succ_pos _, Nat.le_of_eq (congrArg TxId.number h.new)⟩
  new := by
    have hsize : r.statuses.size + 1 = r'.statuses.size + 1 := congrArg TxId.number h.new
    have hle : r.register.1.number ≤ r'.register.1.number := Nat.le_of_eq hsize
    rw [TxId.past_some, if_pos hle]
    simp only [Registry.register, Array.size_push, hsize]
  status x hx := by
    have hold : r.Registered x := h.registered.mpr hx
    rw [h.past_opened hx, status_register hold]
    exact h.status x hx

theorem snapshot_opened {s s' : Snapshot} (h : Skips none r r') (hs : s.Alike none s')
    (hseen : ∀ y, 0 < y.number → s'.sees y = true → r'.Registered y) :
    s.Alike (some r.register.1) s' := by
  have hunseen : ∀ y, 0 < y.number → ¬r'.Registered y → s'.sees y = false := by
    intro y hpos hy
    rw [Bool.eq_false_iff]
    exact fun hsees => hy (hseen y hpos hsees)
  intro y hpos
  have hpast := TxId.number_past_pos (some r.register.1) hpos
  have hsame : s.sees (y.past (some r.register.1)) = s'.sees (y.past (some r.register.1)) := hs _ hpast
  rw [hsame]
  by_cases hy : r'.Registered y
  · rw [h.past_opened hy]
  · rw [hunseen y hpos hy]
    apply hunseen _ hpast
    intro hmoved
    exact hy ⟨hpos, Nat.le_trans (TxId.number_le_past _ y) hmoved.2⟩

theorem transaction_opened {tx tx' : Transaction} (h : Skips none r r') (htx : tx.Alike none tx')
    (hstarted : ∀ x s, tx'.started = some (x, s) →
      r'.Registered x ∧ ∀ y, 0 < y.number → s.sees y = true → r'.Registered y) :
    tx.Alike (some r.register.1) tx' := by
  refine ⟨htx.isolation, htx.ending, ?_⟩
  rcases htx.started with hnone | ⟨x, s, s', hx, hx', hsees⟩
  · exact .inl hnone
  · obtain ⟨hregistered, hseen⟩ := hstarted x s' hx'
    refine .inr ⟨x, s, s', ?_, hx', h.snapshot_opened hsees hseen⟩
    rw [hx, h.past_opened hregistered, TxId.past_none]

theorem snapshot (h : Skips gap r r') : r.snapshot.Alike gap r'.snapshot := by
  intro x hpos
  rw [Bool.eq_iff_iff, snapshot_sees r (TxId.number_past_pos gap hpos), snapshot_sees r' hpos,
    h.registered]
  refine and_congr_right fun hx => ?_
  rw [h.status x hx]

end Skips

end Registry

end SnapshotSql
