import Mathlib.Tactic.Common
/-! # Evaluation that may fail -/

namespace SnapshotSql

variable {ε α β : Type}

theorem bind_eq_ok {a : Except ε α} {f : α → Except ε β} {b : β} :
    a >>= f = .ok b ↔ ∃ x, a = .ok x ∧ f x = .ok b := by
  cases a with
  | error e => simp [bind, Except.bind]
  | ok x => simp [bind, Except.bind]

theorem map_eq_ok {a : Except ε α} {f : α → β} {b : β} :
    a.map f = .ok b ↔ ∃ x, a = .ok x ∧ f x = b := by
  cases a with
  | error e => simp [Except.map]
  | ok x => simp [Except.map]

theorem mapError_eq_ok {ε' : Type} {f : ε → ε'} {a : Except ε α} {x : α} :
    a.mapError f = .ok x ↔ a = .ok x := by
  cases a <;> simp [Except.mapError]

theorem toOption_eq_some {a : Except ε α} {x : α} : a.toOption = some x ↔ a = .ok x := by
  cases a <;> simp [Except.toOption]

theorem mapM_eq_ok_cons {f : α → Except ε β} {x : α} {xs : List α} {ys : List β}
    (h : (x :: xs).mapM f = .ok ys) : ∃ y rest, f x = .ok y ∧ xs.mapM f = .ok rest ∧ ys = y :: rest := by
  rw [List.mapM_cons] at h
  obtain ⟨y, hy, h⟩ := bind_eq_ok.mp h
  obtain ⟨rest, hrest, h⟩ := bind_eq_ok.mp h
  cases h
  exact ⟨y, rest, hy, hrest, rfl⟩

theorem length_of_mapM {f : α → Except ε β} {xs : List α} {ys : List β}
    (h : xs.mapM f = .ok ys) : ys.length = xs.length := by
  induction xs generalizing ys with
  | nil =>
    cases h
    rfl
  | cons x xs ih =>
    obtain ⟨y, rest, _, hrest, rfl⟩ := mapM_eq_ok_cons h
    rw [List.length_cons, List.length_cons, ih hrest]

theorem mapM_map {γ : Type} (f : α → Except ε β) (g : β → γ) (xs : List α) :
    (xs.mapM fun x => (f x).map g) = (xs.mapM f).map (List.map g) := by
  induction xs with
  | nil => rfl
  | cons x xs ih =>
    rw [List.mapM_cons, List.mapM_cons, ih]
    cases f x with
    | error e => rfl
    | ok y => cases xs.mapM f <;> rfl

theorem mapM_congr {f g : α → Except ε β} {xs : List α} (h : ∀ x ∈ xs, f x = g x) :
    xs.mapM f = xs.mapM g := by
  induction xs with
  | nil => rfl
  | cons x xs ih =>
    have hrest := ih fun y hy => h y (List.mem_cons_of_mem x hy)
    rw [List.mapM_cons, List.mapM_cons, h x List.mem_cons_self, hrest]

theorem mem_of_mapM {f : α → Except ε β} {xs : List α} {ys : List β} {y : β}
    (h : xs.mapM f = .ok ys) (hy : y ∈ ys) : ∃ x ∈ xs, f x = .ok y := by
  induction xs generalizing ys with
  | nil =>
    cases h
    cases hy
  | cons x xs ih =>
    obtain ⟨y', rest, hx, hrest, rfl⟩ := mapM_eq_ok_cons h
    rcases List.mem_cons.mp hy with rfl | hy
    · exact ⟨x, List.mem_cons_self, hx⟩
    · obtain ⟨x', hmem, hx'⟩ := ih hrest hy
      exact ⟨x', List.mem_cons_of_mem x hmem, hx'⟩

theorem getElem?_of_mapM {f : α → Except ε β} {xs : List α} {ys : List β} {i : Nat} {x : α}
    (h : xs.mapM f = .ok ys) (hx : xs[i]? = some x) : ∃ y, ys[i]? = some y ∧ f x = .ok y := by
  induction xs generalizing ys i with
  | nil => cases hx
  | cons x' xs ih =>
    obtain ⟨y, rest, hy, hrest, rfl⟩ := mapM_eq_ok_cons h
    cases i with
    | zero =>
      cases hx
      exact ⟨y, rfl, hy⟩
    | succ i =>
      rw [List.getElem?_cons_succ] at hx ⊢
      exact ih hrest hx

theorem mem_image_of_mapM {f : α → Except ε β} {xs : List α} {ys : List β} {x : α}
    (h : xs.mapM f = .ok ys) (hx : x ∈ xs) : ∃ y ∈ ys, f x = .ok y := by
  obtain ⟨i, hi⟩ := List.mem_iff_getElem?.mp hx
  obtain ⟨y, hy, hfx⟩ := getElem?_of_mapM h hi
  exact ⟨y, List.mem_of_getElem? hy, hfx⟩

theorem filterMap_of_mapM {f : α → Except ε β} {xs : List α} {ys : List β} (h : xs.mapM f = .ok ys) :
    ys = xs.filterMap fun x => (f x).toOption := by
  induction xs generalizing ys with
  | nil =>
    cases h
    rfl
  | cons x xs ih =>
    obtain ⟨y, rest, hx, hrest, rfl⟩ := mapM_eq_ok_cons h
    rw [List.filterMap_cons, toOption_eq_some.mpr hx, ← ih hrest]

theorem mapM_error {f : α → Except ε β} {xs : List α} {e : ε} (h : xs.mapM f = .error e) :
    ∃ x ∈ xs, f x = .error e := by
  induction xs with
  | nil => cases h
  | cons x xs ih =>
    rw [List.mapM_cons] at h
    cases hx : f x with
    | error e' =>
      rw [hx] at h
      cases h
      exact ⟨x, List.mem_cons_self, hx⟩
    | ok y =>
      rw [hx] at h
      cases hxs : xs.mapM f with
      | error e' =>
        rw [hxs] at h
        cases h
        obtain ⟨x', hmem, hx'⟩ := ih hxs
        exact ⟨x', List.mem_cons_of_mem x hmem, hx'⟩
      | ok ys =>
        rw [hxs] at h
        cases h

theorem mapM_total {f : α → Except ε β} {xs : List α} (h : ∀ x ∈ xs, ∃ y, f x = .ok y) :
    ∃ ys, xs.mapM f = .ok ys := by
  induction xs with
  | nil => exact ⟨[], rfl⟩
  | cons x xs ih =>
    obtain ⟨y, hy⟩ := h x List.mem_cons_self
    obtain ⟨ys, hys⟩ := ih fun x' hx' => h x' (List.mem_cons_of_mem x hx')
    refine ⟨y :: ys, ?_⟩
    rw [List.mapM_cons, hy, hys]
    rfl

theorem foldlM_congr {f g : β → α → Except ε β} {xs : List α} (h : ∀ x ∈ xs, ∀ b, f b x = g b x)
    (b : β) : xs.foldlM f b = xs.foldlM g b := by
  induction xs generalizing b with
  | nil => rfl
  | cons x xs ih =>
    obtain ⟨hx, hxs⟩ := List.forall_mem_cons.mp h
    rw [List.foldlM_cons, List.foldlM_cons, hx]
    exact congrArg (g b x >>= ·) (funext fun b => ih hxs b)

theorem foldlM_fixed {f : β → α → Except ε β} {xs : List α} {b : β} (h : ∀ x ∈ xs, f b x = .ok b) :
    xs.foldlM f b = .ok b := by
  induction xs with
  | nil => rfl
  | cons x xs ih =>
    rw [List.foldlM_cons, h x List.mem_cons_self]
    exact ih fun y hy => h y (List.mem_cons_of_mem x hy)

theorem foldlM_keeps {P : β → Prop} {f : β → α → Except ε β} {xs : List α} {b b' : β}
    (hstep : ∀ b, ∀ x ∈ xs, ∀ b', P b → f b x = .ok b' → P b') (hb : P b)
    (h : xs.foldlM f b = .ok b') : P b' := by
  induction xs generalizing b with
  | nil =>
    cases h
    exact hb
  | cons x xs ih =>
    rw [List.foldlM_cons] at h
    obtain ⟨b₁, hx, h⟩ := bind_eq_ok.mp h
    refine ih (fun b y hy => hstep b y (List.mem_cons_of_mem x hy)) ?_ h
    exact hstep b x List.mem_cons_self b₁ hb hx

/-- What each step establishes for its element, and no step loses, holds for all elements. -/
theorem foldlM_establishes {P : β → Prop} {Q : α → β → Prop} {f : β → α → Except ε β} {xs : List α}
    {b b' : β} (hstep : ∀ b x b', P b → f b x = .ok b' → P b' ∧ Q x b' ∧ ∀ y, Q y b → Q y b')
    (hb : P b) (h : xs.foldlM f b = .ok b') :
    P b' ∧ (∀ x ∈ xs, Q x b') ∧ ∀ y, Q y b → Q y b' := by
  induction xs generalizing b with
  | nil =>
    cases h
    exact ⟨hb, nofun, fun _ hy => hy⟩
  | cons x xs ih =>
    rw [List.foldlM_cons] at h
    obtain ⟨b₁, hx, h⟩ := bind_eq_ok.mp h
    obtain ⟨hP, hQ, hkeep⟩ := hstep b x b₁ hb hx
    obtain ⟨hP', hall, hkeep'⟩ := ih hP h
    exact ⟨hP', List.forall_mem_cons.mpr ⟨hkeep' x hQ, hall⟩, fun y hy => hkeep' y (hkeep y hy)⟩

theorem foldlM_push_eq (f : α → Except ε β) (xs : List α) (acc : Array β) :
    (xs.foldlM (fun acc x => do
      let y ← f x
      pure (acc.push y)) acc : Except ε (Array β)) =
      (xs.mapM f).map fun ys => acc ++ ys.toArray := by
  induction xs generalizing acc with
  | nil => simp [pure, Except.pure, Except.map]
  | cons x xs ih =>
    rw [List.foldlM_cons, List.mapM_cons]
    cases f x with
    | error e => rfl
    | ok y =>
      have htail := ih (acc.push y)
      simp only [bind, Except.bind, pure, Except.pure] at htail ⊢
      rw [htail]
      cases xs.mapM f with
      | error e => rfl
      | ok ys => simp [Except.map]

theorem foldlM_push {f : α → Except ε β} {xs : List α} {ys : List β} (h : xs.mapM f = .ok ys)
    (acc : Array β) : (xs.foldlM (fun acc x => do
      let y ← f x
      pure (acc.push y)) acc : Except ε (Array β)) = .ok (acc ++ ys.toArray) := by
  rw [foldlM_push_eq, h, Except.map]

end SnapshotSql
