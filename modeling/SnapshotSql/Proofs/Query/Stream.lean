import SnapshotSql.Operator.Basic
import SnapshotSql.Proofs.Evaluation
/-! # Streams of rows -/

namespace SnapshotSql

/-- Rows, each with whether another transaction is changing it, up to the end or a failure. -/
inductive Stream where
  | done
  | fail (e : ExecError)
  | row (view : RowView) (contested : Bool) (rest : Stream)
  /-- A scan is opened. -/
  | touch (rest : Stream)

def Step.of (contested : Bool) : Step := if contested then .contested else .row

theorem Step.of_ne_done (contested : Bool) : Step.of contested ≠ .done := by
  cases contested <;> simp [Step.of]

theorem Step.combine_of (a b : Bool) :
    Step.combine (.of a) (.of b) = .of (a || b) := by
  cases a <;> cases b <;> rfl

theorem Step.of_eq_contested {step : Step} (h : step ≠ .done) :
    Step.of (step = .contested) = step := by
  cases step <;> simp_all [Step.of]

namespace Stream

def append : Stream → Stream → Stream
  | done, t => t
  | fail e, _ => fail e
  | row v c rest, t => row v c (rest.append t)
  | touch rest, t => touch (rest.append t)

def touchIf (opened : Bool) (s : Stream) : Stream := if opened then touch s else s

/-- The streams of all rows, one after the other. -/
def bind (f : RowView → Bool → Stream) : Stream → Stream
  | done => done
  | fail e => fail e
  | row v c rest => (f v c).append (rest.bind f)
  | touch rest => touch (rest.bind f)

def map (f : RowView → Bool → RowView × Bool) : Stream → Stream
  | done => done
  | fail e => fail e
  | row v c rest => row (f v c).1 (f v c).2 (rest.map f)
  | touch rest => touch (rest.map f)

/-- The rows that a test keeps, up to the first row on which it fails. -/
def filter (keep : RowView → Bool → Except ExecError Bool) : Stream → Stream
  | done => done
  | fail e => fail e
  | row v c rest =>
    match keep v c with
    | .error e => fail e
    | .ok true => row v c (rest.filter keep)
    | .ok false => rest.filter keep
  | touch rest => touch (rest.filter keep)

def length : Stream → Nat
  | done => 0
  | fail _ => 0
  | row _ _ rest => rest.length + 1
  | touch rest => rest.length

def fold {σ : Type} (f : σ → RowView → Step → Except ExecError σ) : σ → Stream → Except ExecError σ
  | acc, done => .ok acc
  | _, fail e => .error e
  | acc, row v c rest =>
    match f acc v (.of c) with
    | .error e => .error e
    | .ok acc => rest.fold f acc
  | acc, touch rest => rest.fold f acc

def foldTouches {σ : Type} (f : σ → RowView → Step → Except ExecError σ) : σ → Stream → Bool
  | _, done => false
  | _, fail _ => false
  | acc, row v c rest =>
    match f acc v (.of c) with
    | .error _ => false
    | .ok acc => rest.foldTouches f acc
  | _, touch _ => true

def readTouches {σ : Type} (f : σ → RowView → Step → Except ExecError σ) (acc : σ) :
    Except ExecError Stream → Bool
  | .error _ => false
  | .ok s => s.foldTouches f acc

def replay : List (Row × Step) → Stream
  | [] => done
  | (r, step) :: rest => row (.owned r) (step = .contested) (replay rest)

theorem length_append (s t : Stream) : (s.append t).length ≤ s.length + t.length := by
  induction s with
  | done => simp [append]
  | fail e => simp [append, length]
  | row v c rest ih =>
    simp only [append, length]
    omega
  | touch rest ih => exact ih

@[simp] theorem length_touchIf (opened : Bool) (s : Stream) : (s.touchIf opened).length = s.length := by
  cases opened <;> rfl

theorem append_touchIf (opened : Bool) (s t : Stream) :
    (s.touchIf opened).append t = (s.append t).touchIf opened := by
  cases opened <;> rfl

@[simp] theorem length_map (f : RowView → Bool → RowView × Bool) (s : Stream) :
    (s.map f).length = s.length := by
  induction s with
  | done => rfl
  | fail e => rfl
  | row v c rest ih => rw [map, length, length, ih]
  | touch rest ih => exact ih

theorem length_filter (keep : RowView → Bool → Except ExecError Bool) (s : Stream) :
    (s.filter keep).length ≤ s.length := by
  induction s with
  | done => exact Nat.le_refl _
  | fail e => exact Nat.le_refl _
  | row v c rest ih =>
    unfold filter
    split
    · exact Nat.zero_le _
    · exact Nat.succ_le_succ ih
    · exact Nat.le_succ_of_le ih
  | touch rest ih => exact ih

theorem length_bind {f : RowView → Bool → Stream} {n : Nat} (hf : ∀ v c, (f v c).length ≤ n)
    (s : Stream) : (s.bind f).length ≤ s.length * n := by
  induction s with
  | done => exact Nat.zero_le _
  | fail e => exact Nat.zero_le _
  | row v c rest ih =>
    have happend := length_append (f v c) (rest.bind f)
    have hrow := hf v c
    rw [bind, length, Nat.succ_mul]
    omega
  | touch rest ih => exact ih

@[simp] theorem length_replay (rows : List (Row × Step)) : (replay rows).length = rows.length := by
  induction rows with
  | nil => rfl
  | cons r rows ih => rw [replay, length, ih, List.length_cons]

/-- A measure that grows by at most one with each row is bounded by the number of rows. -/
theorem fold_le {σ : Type} {f : σ → RowView → Step → Except ExecError σ} (size : σ → Nat)
    (hf : ∀ acc v step acc', f acc v step = .ok acc' → size acc' ≤ size acc + 1) (s : Stream)
    (acc acc' : σ) (h : s.fold f acc = .ok acc') : size acc' ≤ size acc + s.length := by
  induction s generalizing acc with
  | done =>
    cases h
    exact Nat.le_refl _
  | fail e => cases h
  | row v c rest ih =>
    unfold fold at h
    split at h
    · cases h
    · rename_i mid hmid
      have hrest := ih mid h
      have hrow := hf _ _ _ _ hmid
      rw [length]
      omega
  | touch rest ih => exact ih acc h

theorem fold_forall {σ : Type} {f : σ → RowView → Step → Except ExecError σ} {p : σ → Prop}
    (hf : ∀ acc v c acc', p acc → f acc v (.of c) = .ok acc' → p acc') (s : Stream)
    (acc acc' : σ) (hp : p acc) (h : s.fold f acc = .ok acc') : p acc' := by
  induction s generalizing acc with
  | done =>
    cases h
    exact hp
  | fail e => cases h
  | row v c rest ih =>
    unfold fold at h
    split at h
    · cases h
    · rename_i mid hmid
      exact ih mid (hf _ _ _ _ hp hmid) h
  | touch rest ih => exact ih acc hp h

end Stream

end SnapshotSql
