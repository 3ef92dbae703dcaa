import SnapshotSql.Proofs.Query.Execution
import SnapshotSql.Proofs.Transaction.Lasting
/-! # Queries that are read over time -/

namespace SnapshotSql

variable {σ : Type} {t : TxHandle} {dbs : Nat → Database} {n n' k : Nat} {x x' : Database}
  {op : Operator} {v : RowView}

/-- What comes of rows with a property that are taken in one after the other. -/
inductive Gathered (f : σ → RowView → Step → Except ExecError σ) (P : RowView → Prop) (start : σ) :
    σ → Prop
  | start : Gathered f P start start
  | row {acc acc' : σ} {v : RowView} (h : Gathered f P start acc) (hv : P v)
      (hf : f acc v .row = .ok acc') : Gathered f P start acc'

theorem keeps_of_gathered {f : σ → RowView → Step → Except ExecError σ} {P : RowView → Prop}
    {start acc : σ} {Q : σ → Prop} (h : Gathered f P start acc) (hstart : Q start)
    (hstep : ∀ acc acc' v, Q acc → P v → f acc v .row = .ok acc' → Q acc') : Q acc := by
  induction h with
  | start => exact hstart
  | row _ hv hf ih => exact hstep _ _ _ ih hv hf

namespace QueryTree

/-- The row can come from the query, if the transaction opened it at the moment `k` and asked for the
row at the moment `n`. What sorts, groups or caches its input reads all of it when it is opened. A cache
may have been filled before. -/
def Built (t : TxHandle) (dbs : Nat → Database) : QueryTree → Nat → Nat → RowView → Prop
  | scan s, k, _, v => ∃ version, v = s.view version ∧ (dbs k).Shows t s.table version ∧
      (RowView.joined v .empty).holdsAll s.predicates = .ok true
  | filter condition _ input, k, n, v => input.Built t dbs k n v ∧
      (RowView.joined v .empty).holds condition = .ok true
  | literal items, _, _, v => ∃ row, (row, Step.row) ∈ StringList.singleEmptyRow.buffer.rows ∧
      v = .projected items (.owned row)
  | project items input, k, n, v => ∃ u, input.Built t dbs k n u ∧ v = .projected items u
  | join left right, k, n, v => ∃ l r m, left.Built t dbs k n l ∧ k ≤ m ∧ m ≤ n ∧
      right.Built t dbs m n r ∧ v = .joined l r
  | aggregate groupBy calls input, k, _, v => ∃ groups row,
      Gathered (Group.feedGroups groupBy calls) (input.Built t dbs k k) #[] groups ∧
        (row, Step.row) ∈ Group.outputs groupBy calls groups ∧ v = .owned row
  | sort _ input, k, _, v => ∃ u row, input.Built t dbs k k u ∧ u.copy = .ok row ∧ v = .owned row
  | rename qualifier input, k, n, v => ∃ u, input.Built t dbs k n u ∧ v = .qualified qualifier u
  | cached input, k, _, v => ∃ m ≤ k, ∃ u row, input.Built t dbs m m u ∧ u.copy = .ok row ∧
      v = .owned row

variable {q : QueryTree}

theorem built_later (hn : n ≤ n') (h : q.Built t dbs k n v) : q.Built t dbs k n' v := by
  induction q generalizing k v with
  | filter condition policy input ih => exact ⟨ih h.1, h.2⟩
  | project items input ih | rename qualifier input ih =>
    obtain ⟨u, hu, rfl⟩ := h
    exact ⟨u, ih hu, rfl⟩
  | join left right ihl ihr =>
    obtain ⟨l, r, m, hl, hkm, hmn, hr, rfl⟩ := h
    exact ⟨l, r, m, ihl hl, hkm, Nat.le_trans hmn hn, ihr hr, rfl⟩
  | _ => exact h

/-- A join hands on its rows while it is still reading. -/
def streamsJoin : QueryTree → Bool
  | join _ _ => true
  | filter _ _ input | project _ input | rename _ input => input.streamsJoin
  | scan _ | literal _ | aggregate _ _ _ | sort _ _ | cached _ => false

theorem built_at_opening (hq : q.streamsJoin = false) (h : q.Built t dbs k n v) :
    q.Built t dbs k k v := by
  induction q generalizing v with
  | join => cases hq
  | filter condition policy input ih => exact ⟨ih hq h.1, h.2⟩
  | project items input ih | rename qualifier input ih =>
    obtain ⟨u, hu, rfl⟩ := h
    exact ⟨u, ih hq hu, rfl⟩
  | _ => exact h

def Buffers (t : TxHandle) (dbs : Nat → Database) (q : QueryTree) (k : Nat) (b : Buffer) : Prop :=
  ∀ r ∈ b.rows, r.2 = .row ∧ q.Built t dbs k k (.owned r.1)

/-- The operator is one for the query, opened or not. What it has cached for the transaction came from
the query. -/
inductive Holds (t : TxHandle) (dbs : Nat → Database) (n : Nat) : QueryTree → Operator → Prop
  | scan (s : TableScan) (opened : Option (TxHandle × Snapshot)) (cursor : Nat)
      (current : Option Version) (hs : s.access = .read) :
      Holds t dbs n (.scan s) (.tableScan { s with opened, cursor, current })
  | filter {q : QueryTree} {op : Operator} (condition : Expr) (policy : ConflictPolicy)
      (h : Holds t dbs n q op) : Holds t dbs n (.filter condition policy q) (.predicate condition policy [op])
  | literal (items : List SelectItem) (row : Option StringList) :
      Holds t dbs n (.literal items) (.project items [] row)
  | project {q : QueryTree} {op : Operator} (items : List SelectItem) (row : Option StringList)
      (h : Holds t dbs n q op) : Holds t dbs n (.project items q) (.project items [op] row)
  | join {q r : QueryTree} {left right : Operator} (state : JoinState) (hl : Holds t dbs n q left)
      (hr : Holds t dbs n r right) : Holds t dbs n (.join q r) (.join left right state)
  | aggregate {q : QueryTree} {op : Operator} (groupBy : List Expr) (calls : List AggregateCall)
      (b : Buffer) (h : Holds t dbs n q op) :
      Holds t dbs n (.aggregate groupBy calls q) (.aggregate groupBy calls op b)
  | sort {q : QueryTree} {op : Operator} (keys : List SortKey) (b : Buffer) (h : Holds t dbs n q op) :
      Holds t dbs n (.sort keys q) (.sort keys op b)
  | rename {q : QueryTree} {op : Operator} (qualifier : String) (h : Holds t dbs n q op) :
      Holds t dbs n (.rename qualifier q) (.subQuery qualifier op)
  | cached {q : QueryTree} {op : Operator} (b : Buffer) (owner : Option TxHandle)
      (h : Holds t dbs n q op) (hb : owner = some t → q.cached.Buffers t dbs n b) :
      Holds t dbs n (.cached q) (.cached op b owner)

/-- The operator runs the query, which the transaction opened at the moment `k`. What its scans read lasts
in the database `x`, and the row at which the outer side of a join stands came from that side. -/
inductive Open (t : TxHandle) (dbs : Nat → Database) (x : Database) (n : Nat) :
    QueryTree → Nat → Operator → Prop
  | scan {k : Nat} (s : TableScan) (cursor : Nat) (current : Option Version) (hs : s.access = .read)
      (h : Database.Lasts t (dbs k) x) (hk : k ≤ n) :
      Open t dbs x n (.scan s) k (.tableScan
        { s with opened := some (t, ((dbs k).begun t).registry.snapshot), cursor, current })
  | filter {k : Nat} {q : QueryTree} {op : Operator} (condition : Expr) (policy : ConflictPolicy)
      (h : Open t dbs x n q k op) :
      Open t dbs x n (.filter condition policy q) k (.predicate condition policy [op])
  | literal {k : Nat} (items : List SelectItem) (row : StringList)
      (h : row.buffer.rows = StringList.singleEmptyRow.buffer.rows) :
      Open t dbs x n (.literal items) k (.project items [] (some row))
  | project {k : Nat} {q : QueryTree} {op : Operator} (items : List SelectItem)
      (row : Option StringList) (h : Open t dbs x n q k op) :
      Open t dbs x n (.project items q) k (.project items [op] row)
  | join {k : Nat} {q r : QueryTree} {left right : Operator} (hl : Open t dbs x n q k left)
      (hr : Holds t dbs n r right) :
      Open t dbs x n (.join q r) k (.join left right { tx := some t })
  | pairing {k m : Nat} {q r : QueryTree} {left right : Operator} {l : RowView}
      (hl : Open t dbs x n q k left) (hcurrent : left.current = .ok l) (hbuilt : q.Built t dbs k n l)
      (hkm : k ≤ m) (hmn : m ≤ n) (hr : Open t dbs x n r m right) :
      Open t dbs x n (.join q r) k (.join left right { tx := some t, leftStep := some .row })
  | aggregate {k : Nat} {q : QueryTree} {op : Operator} {groupBy : List Expr}
      {calls : List AggregateCall} {b : Buffer} (h : Holds t dbs n q op)
      (hb : (aggregate groupBy calls q).Buffers t dbs k b) :
      Open t dbs x n (.aggregate groupBy calls q) k (.aggregate groupBy calls op b)
  | sort {k : Nat} {q : QueryTree} {op : Operator} {keys : List SortKey} {b : Buffer}
      (h : Holds t dbs n q op) (hb : (sort keys q).Buffers t dbs k b) :
      Open t dbs x n (.sort keys q) k (.sort keys op b)
  | rename {k : Nat} {q : QueryTree} {op : Operator} (qualifier : String) (h : Open t dbs x n q k op) :
      Open t dbs x n (.rename qualifier q) k (.subQuery qualifier op)
  | cached {k : Nat} {q : QueryTree} {op : Operator} {b : Buffer} (h : Holds t dbs n q op)
      (hb : q.cached.Buffers t dbs k b) (hk : k ≤ n) :
      Open t dbs x n (.cached q) k (.cached op b (some t))

theorem holds_operator (hq : q.ReadOnly) : q.Holds t dbs n q.operator := by
  induction q with
  | scan s => exact .scan s s.opened s.cursor s.current hq
  | filter condition policy input ih => exact .filter condition policy (ih hq)
  | literal items => exact .literal items none
  | project items input ih => exact .project items none (ih hq)
  | join left right ihl ihr => exact .join {} (ihl hq.1) (ihr hq.2)
  | aggregate groupBy calls input ih => exact .aggregate groupBy calls {} (ih hq)
  | sort keys input ih => exact .sort keys {} (ih hq)
  | rename qualifier input ih => exact .rename qualifier (ih hq)
  | cached input ih => exact .cached {} none (ih hq) nofun

theorem buffers_cached {b : Buffer} (hk : k ≤ n) (h : q.cached.Buffers t dbs k b) :
    q.cached.Buffers t dbs n b := by
  intro r hr
  obtain ⟨hstep, m, hm, hbuilt⟩ := h r hr
  exact ⟨hstep, m, Nat.le_trans hm hk, hbuilt⟩

theorem holds_later (hn : n ≤ n') (h : q.Holds t dbs n op) : q.Holds t dbs n' op := by
  induction h with
  | scan s opened cursor current hs => exact .scan s opened cursor current hs
  | filter condition policy _ ih => exact .filter condition policy ih
  | literal items row => exact .literal items row
  | project items row _ ih => exact .project items row ih
  | join state _ _ ihl ihr => exact .join state ihl ihr
  | aggregate groupBy calls b _ ih => exact .aggregate groupBy calls b ih
  | sort keys b _ ih => exact .sort keys b ih
  | rename qualifier _ ih => exact .rename qualifier ih
  | cached b owner _ hb ih => exact .cached b owner ih fun howner => buffers_cached hn (hb howner)

theorem holds_close (h : q.Holds t dbs n op) : q.Holds t dbs n op.close := by
  induction h with
  | scan s opened cursor current hs => exact .scan s none cursor none hs
  | filter condition policy _ ih => exact .filter condition policy ih
  | literal items row => exact .literal items _
  | project items row _ ih => exact .project items _ ih
  | join state _ _ ihl ihr => exact .join {} ihl ihr
  | aggregate groupBy calls b _ ih => exact .aggregate groupBy calls _ ih
  | sort keys b _ ih => exact .sort keys _ ih
  | rename qualifier _ ih => exact .rename qualifier ih
  | cached b owner h hb _ => exact .cached b.leave owner h hb

theorem holds_of_open (h : q.Open t dbs x n k op) : q.Holds t dbs n op := by
  induction h with
  | scan s cursor current hs _ _ => exact .scan s _ cursor current hs
  | filter condition policy _ ih => exact .filter condition policy ih
  | literal items row _ => exact .literal items _
  | project items row _ ih => exact .project items row ih
  | join _ hr ih => exact .join _ ih hr
  | pairing _ _ _ _ _ _ ihl ihr => exact .join _ ihl ihr
  | aggregate h _ => exact .aggregate _ _ _ h
  | sort h _ => exact .sort _ _ h
  | rename qualifier _ ih => exact .rename qualifier ih
  | cached h hb hk => exact .cached _ _ h fun _ => buffers_cached hk hb

theorem open_later (hn : n ≤ n') (hx : ∀ k ≤ n, Database.Lasts t (dbs k) x → Database.Lasts t (dbs k) x')
    (h : q.Open t dbs x n k op) : q.Open t dbs x' n' k op := by
  induction h with
  | scan s cursor current hs h hk => exact .scan s cursor current hs (hx _ hk h) (Nat.le_trans hk hn)
  | filter condition policy _ ih => exact .filter condition policy ih
  | literal items row h => exact .literal items row h
  | project items row _ ih => exact .project items row ih
  | join _ hr ih => exact .join ih (holds_later hn hr)
  | pairing _ hcurrent hbuilt hkm hmn _ ihl ihr =>
    exact .pairing ihl hcurrent (built_later hn hbuilt) hkm (Nat.le_trans hmn hn) ihr
  | aggregate h hb => exact .aggregate (holds_later hn h) hb
  | sort h hb => exact .sort (holds_later hn h) hb
  | rename qualifier _ ih => exact .rename qualifier ih
  | cached h hb hk => exact .cached (holds_later hn h) hb (Nat.le_trans hk hn)

/-! ## Calls -/

/-- At the moments up to this one the transaction takes a new snapshot for each scan, and it is active. -/
structure Moments (t : TxHandle) (dbs : Nat → Database) (n : Nat) : Prop where
  sound : ∀ k ≤ n, (dbs k).Sound
  active : ∀ k ≤ n, (dbs k).Active t
  level : ∀ k ≤ n, ((dbs k).transaction t).isolation.pinsSnapshot = false

def During (t : TxHandle) (dbs : Nat → Database) (n : Nat) (x : Database) : Prop :=
  ∃ started, x = (dbs n).phase t started

structure Opened {α : Type} (t : TxHandle) (dbs : Nat → Database) (n : Nat) (q : QueryTree) (x : Database)
    (turn : Turn α) : Prop where
  db : ∃ started, turn.db = x.phase t started
  holds : q.Holds t dbs n turn.op
  opens : ∀ a, turn.answer = .ok a → q.Open t dbs turn.db n n turn.op

/-- A call has advanced the query. What it answers has a property. -/
structure Advanced {α : Type} (t : TxHandle) (dbs : Nat → Database) (n : Nat) (q : QueryTree) (k : Nat)
    (x : Database) (p : Operator → α → Prop) (turn : Turn α) : Prop where
  db : ∃ started, turn.db = x.phase t started
  opened : q.Open t dbs turn.db n k turn.op
  answer : ∀ a, turn.answer = .ok a → p turn.op a

def Delivered (t : TxHandle) (dbs : Nat → Database) (n : Nat) (q : QueryTree) (k : Nat) (op : Operator)
    (step : Step) : Prop :=
  step = .done ∨ step = .row ∧ ∃ v, op.current = .ok v ∧ q.Built t dbs k n v

variable {x'' : Database}

theorem lasts_phase {d : Database} {started : Bool} (h : Database.Lasts t d x) :
    x.phase t started = x := by
  cases started with
  | false => rfl
  | true => exact Database.begun_of_number? h.number

theorem open_phase (started : Bool) (h : q.Open t dbs x n k op) :
    q.Open t dbs (x.phase t started) n k op := by
  refine open_later (Nat.le_refl n) (fun _ _ hlasts => ?_) h
  rwa [lasts_phase hlasts]

theorem phase_phase {d : Database} (hd : d.Active t) {a b : Bool} :
    (d.phase t a).phase t b = d.phase t (a || b) := by
  cases b with
  | false => simp [Database.phase]
  | true =>
    rw [Bool.or_true]
    exact Database.begun_phase hd

theorem during_phase (hm : Moments t dbs n) {started : Bool} (hx : During t dbs n x) :
    During t dbs n (x.phase t started) := by
  obtain ⟨a, rfl⟩ := hx
  exact ⟨_, phase_phase (hm.active n (Nat.le_refl n))⟩

theorem active_during (hm : Moments t dbs n) (hx : During t dbs n x) : x.Active t := by
  obtain ⟨a, rfl⟩ := hx
  exact Database.active_phase (hm.active n (Nat.le_refl n))

theorem sound_during (hm : Moments t dbs n) (hx : During t dbs n x) : x.Sound := by
  obtain ⟨a, rfl⟩ := hx
  cases a with
  | false => exact hm.sound n (Nat.le_refl n)
  | true => exact Database.sound_change (hm.sound n (Nat.le_refl n)) (.start (hm.active n (Nat.le_refl n)))

private theorem open_scan (hm : Moments t dbs n) (hx : During t dbs n x) (m : Nat) {s : TableScan}
    (opened : Option (TxHandle × Snapshot)) (cursor : Nat) (current : Option Version)
    (hs : s.access = .read) :
    Opened t dbs n (.scan s) x
      ((Operator.tableScan { s with opened, cursor, current }).openIn (m + 1) t x) := by
  have hactive := hm.active n (Nat.le_refl n)
  obtain ⟨a, rfl⟩ := hx
  have hsnapshot : (dbs n).snapshotOf t = ((dbs n).begun t).registry.snapshot := by
    simp only [Database.snapshotOf, hm.level n (Nat.le_refl n), Bool.false_eq_true, if_false]
  rw [Operator.openIn, Database.readSnapshot_phase hactive]
  refine ⟨⟨true, (phase_phase hactive).symm ▸ by rw [Bool.or_true]; rfl⟩, .scan s _ _ _ hs, fun _ _ => ?_⟩
  rw [hsnapshot]
  exact .scan s 0 none hs (Database.lasts_begun hactive) (Nat.le_refl n)

section

variable {α : Type} {p : Operator → α → Prop} {a : α}

private theorem advanced_ok (started : Bool) (h : q.Open t dbs (x.phase t started) n k op)
    (ha : p op a) : Advanced t dbs n q k x p (.ok a op (x.phase t started)) :=
  ⟨⟨started, rfl⟩, h, fun _ hok => by cases hok; exact ha⟩

private theorem advanced_fail (started : Bool) (e : ExecError)
    (h : q.Open t dbs (x.phase t started) n k op) :
    Advanced t dbs n q k x p (.fail e op (x.phase t started)) :=
  ⟨⟨started, rfl⟩, h, fun _ hok => by cases hok⟩

private theorem advanced_trans (hx : x.Active t) (started : Bool) {turn : Turn α}
    (h : Advanced t dbs n q k (x.phase t started) p turn) : Advanced t dbs n q k x p turn := by
  obtain ⟨⟨later, hdb⟩, hopen, hanswer⟩ := h
  exact ⟨⟨started || later, hdb.trans (phase_phase hx)⟩, hopen, hanswer⟩

end

private theorem advanced_seek (hm : Moments t dbs n) (hk : k ≤ n) (hx : During t dbs n x)
    (hlasts : Database.Lasts t (dbs k) x) {s : TableScan} (hs : s.access = .read) (m cursor : Nat)
    (current : Option Version) :
    Advanced t dbs n (.scan s) k x (Delivered t dbs n (.scan s) k)
      (TableScan.seek t ((dbs k).begun t).registry.snapshot .empty (x.catalog.table s.table).versions m
        { s with
          opened := some (t, ((dbs k).begun t).registry.snapshot)
          cursor := cursor
          current := current } x) := by
  have hopen : ∀ cursor current, QueryTree.Open t dbs x n (.scan s) k (.tableScan
      { s with opened := some (t, ((dbs k).begun t).registry.snapshot), cursor, current }) :=
    fun cursor current => .scan s cursor current hs hlasts hk
  induction m generalizing cursor current with
  | zero => exact advanced_ok false (hopen _ _) (.inl rfl)
  | succ m ih =>
    rw [TableScan.seek]
    dsimp only
    cases hv : (x.catalog.table s.table).versions[cursor]? with
    | none => exact advanced_ok false (hopen _ _) (.inl rfl)
    | some v =>
      have hvisibility := TxHandle.visibility_run (active_during hm hx)
        ((dbs k).begun t).registry.snapshot s.access v
      rw [Database.begun_of_number? hlasts.number, Database.start_of_number? hlasts.number] at hvisibility
      dsimp only
      rw [hvisibility]
      cases hseen : x.registry.visibility ((dbs k).start t).1 ((dbs k).begun t).registry.snapshot
        s.access v with
      | invisible => exact ih _ _
      | contested =>
        rw [hs] at hseen
        exact absurd hseen (Registry.visibility_read _ _ _ v).1
      | visible =>
        rw [hs] at hseen
        dsimp only
        split
        · exact advanced_fail false _ (hopen _ _)
        · rename_i accepted haccepts
          cases accepted with
          | false => exact ih _ _
          | true =>
            have hversion : x.version? s.table ⟨cursor⟩ = some v := hv
            have hshows : (dbs k).Shows t s.table v :=
              Database.shows_of_lasts (hm.sound k hk) (hm.active k hk) (sound_during hm hx)
                (hm.level k hk) hlasts hversion hseen
            exact advanced_ok false (hopen _ _) (.inr ⟨rfl, s.view v, rfl, v, rfl, hshows, haccepts⟩)

private theorem advanced_scan (hm : Moments t dbs n) (hk : k ≤ n) (hx : During t dbs n x) (m : Nat)
    {s : TableScan} (h : Open t dbs x n (.scan s) k op) :
    Advanced t dbs n (.scan s) k x (Delivered t dbs n (.scan s) k) (op.nextIn (m + 1) .empty x) := by
  cases h with
  | scan _ cursor current hs hlasts _ =>
    rw [Operator.nextIn, TableScan.next]
    exact advanced_seek hm hk hx hlasts hs _ cursor current

private theorem advanced_foldRows {next : Operator → Database → Turn Step}
    {f : Database → σ → RowView → Step → Except ExecError σ} {g : σ → RowView → Step → Except ExecError σ}
    (hm : Moments t dbs n) (hf : ∀ db, f db = g)
    (hnext : ∀ {op x}, During t dbs n x → q.Open t dbs x n k op →
      Advanced t dbs n q k x (Delivered t dbs n q k) (next op x))
    (rounds : Nat) (hx : During t dbs n x) (h : q.Open t dbs x n k op) {start acc : σ}
    (hacc : Gathered g (q.Built t dbs k n) start acc) :
    Advanced t dbs n q k x (fun _ acc => Gathered g (q.Built t dbs k n) start acc)
      (Operator.foldRows next f rounds acc op x) := by
  induction rounds generalizing x op acc with
  | zero => exact advanced_fail false _ h
  | succ rounds ih =>
    rw [Operator.foldRows]
    obtain ⟨⟨started, hdb⟩, hopen, hanswer⟩ := hnext hx h
    generalize next op x = turn at hdb hopen hanswer ⊢
    obtain ⟨answer, op, db⟩ := turn
    dsimp only at hdb hopen hanswer
    subst hdb
    cases answer with
    | error e => exact advanced_fail started e hopen
    | ok step =>
      rcases hanswer step rfl with rfl | ⟨rfl, v, hcurrent, hbuilt⟩
      · exact advanced_ok started hopen hacc
      · dsimp only
        rw [hcurrent, hf]
        dsimp only [Except.bind]
        cases hstep : g acc v .row with
        | error e => exact advanced_fail started e hopen
        | ok acc' =>
          exact advanced_trans (active_during hm hx) _
            (ih (during_phase hm hx) hopen (hacc.row hbuilt hstep))

section

variable {α : Type} {r : QueryTree} {parent : Operator → Operator}

private theorem opened_ok (started : Bool) (a : α) (h : q.Open t dbs (x.phase t started) n n op) :
    Opened t dbs n q x (.ok a op (x.phase t started)) :=
  ⟨⟨started, rfl⟩, holds_of_open h, fun _ _ => h⟩

private theorem opened_fail (started : Bool) (e : ExecError) (h : q.Holds t dbs n op) :
    Opened t dbs n q x (.fail e op (x.phase t started) : Turn α) :=
  ⟨⟨started, rfl⟩, h, fun _ hok => by cases hok⟩

private theorem opened_under {turn : Turn α}
    (hholds : ∀ op, q.Holds t dbs n op → r.Holds t dbs n (parent op))
    (hopen : ∀ x op, q.Open t dbs x n n op → r.Open t dbs x n n (parent op))
    (h : Opened t dbs n q x turn) : Opened t dbs n r x (turn.under parent) :=
  ⟨h.db, hholds _ h.holds, fun a ha => hopen _ _ (h.opens a ha)⟩

private theorem advanced_under {turn : Turn Step}
    (hopen : ∀ x op, q.Open t dbs x n k op → r.Open t dbs x n k (parent op))
    (hrow : ∀ op v, op.current = .ok v → q.Built t dbs k n v →
      ∃ v', (parent op).current = .ok v' ∧ r.Built t dbs k n v')
    (h : Advanced t dbs n q k x (Delivered t dbs n q k) turn) :
    Advanced t dbs n r k x (Delivered t dbs n r k) (turn.under parent) := by
  refine ⟨h.db, hopen _ _ h.opened, fun step hstep => ?_⟩
  rcases h.answer step hstep with rfl | ⟨rfl, v, hcurrent, hbuilt⟩
  · exact .inl rfl
  · exact .inr ⟨rfl, hrow _ v hcurrent hbuilt⟩

private theorem advanced_replay {b : Buffer} {parent : Buffer → Operator}
    (hb : ∀ row ∈ b.rows, row.2 = .row)
    (hopen : ∀ b' : Buffer, b'.rows = b.rows → r.Open t dbs x n k (parent b'))
    (hrow : ∀ (b' : Buffer) row, b'.row? = some row → (row, .row) ∈ b.rows →
      ∃ v, (parent b').current = .ok v ∧ r.Built t dbs k n v) :
    Advanced t dbs n r k x (Delivered t dbs n r k) (Operator.replay b parent x) := by
  rw [Operator.replay, Buffer.next]
  cases hnext : b.rows[b.position]? with
  | none => exact advanced_ok false (hopen _ rfl) (.inl rfl)
  | some next =>
    obtain ⟨row, step⟩ := next
    have hmem := Array.mem_of_getElem? hnext
    cases hb _ hmem
    refine advanced_ok false (hopen _ rfl) (.inr ⟨rfl, hrow _ row ?_ hmem⟩)
    simp [Buffer.row?, hnext]

end

private theorem opened_afterReading {r : QueryTree} {parent : Operator → Operator} {rounds : Nat}
    {next : Operator → Database → Turn Step} {turn : Turn Unit}
    {f : Database → σ → RowView → Step → Except ExecError σ} {g : σ → RowView → Step → Except ExecError σ}
    {start : σ} {go : σ → Operator → Database → Turn Unit} (hm : Moments t dbs n) (hx : During t dbs n x)
    (hf : ∀ db, f db = g)
    (hnext : ∀ {op x}, During t dbs n x → q.Open t dbs x n n op →
      Advanced t dbs n q n x (Delivered t dbs n q n) (next op x))
    (hparent : ∀ op, q.Holds t dbs n op → r.Holds t dbs n (parent op))
    (hgo : ∀ acc op started, Gathered g (q.Built t dbs n n) start acc → q.Holds t dbs n op →
      Opened t dbs n r x (go acc op (x.phase t started)))
    (h : Opened t dbs n q x turn) :
    Opened t dbs n r x (Operator.afterReading turn (Operator.foldRows next f rounds start) parent go) := by
  rw [Operator.afterReading]
  obtain ⟨⟨started, hdb⟩, hholds, hopen⟩ := h
  obtain ⟨answer, op, db⟩ := turn
  dsimp only at hdb hholds hopen
  subst hdb
  cases answer with
  | error e => exact opened_fail started e (hparent op hholds)
  | ok _ =>
    obtain ⟨⟨later, hdb⟩, hopen, hanswer⟩ := advanced_trans (active_during hm hx) _
      (advanced_foldRows hm hf hnext rounds (during_phase hm hx) (hopen () rfl) .start)
    dsimp only
    generalize Operator.foldRows next f rounds start op (x.phase t started) = turn
      at hdb hopen hanswer ⊢
    obtain ⟨answer, op, db⟩ := turn
    dsimp only at hdb hopen hanswer ⊢
    subst hdb
    cases answer with
    | error e => exact opened_fail later e (hparent op (holds_of_open hopen))
    | ok acc => exact hgo acc op later (hanswer acc rfl) (holds_of_open hopen)

/-! ## Operators that read their input first -/

private theorem buffers_aggregate {groupBy : List Expr} {calls : List AggregateCall}
    {groups : Array Group}
    (h : Gathered (Group.feedGroups groupBy calls) (q.Built t dbs k k) #[] groups) :
    (aggregate groupBy calls q).Buffers t dbs k { rows := Group.outputs groupBy calls groups } := by
  have huncontested : ∀ g ∈ groups, g.contested = false :=
    keeps_of_gathered (Q := fun groups : Array Group => ∀ g ∈ groups, g.contested = false) h (by simp)
      fun _ _ _ hgroups _ hfeed => Group.uncontested_feedGroups hgroups hfeed
  intro r hr
  have hstep := Group.step_outputs huncontested r hr
  obtain ⟨row, step⟩ := r
  cases hstep
  exact ⟨rfl, groups, row, h, hr, rfl⟩

private theorem buffers_sort {keys : List SortKey} {rows : Array KeyedRow} {out : Array (Row × Step)}
    (h : Gathered (Operator.collectKeyed keys {}) (q.Built t dbs k k) #[] rows)
    (hout : KeyedRow.sorted keys rows.toList = .ok out) :
    (sort keys q).Buffers t dbs k { rows := out } := by
  have hrows : ∀ r ∈ rows, r.step = .row ∧ ∃ u, q.Built t dbs k k u ∧ u.copy = .ok r.row := by
    refine keeps_of_gathered (Q := fun rows : Array KeyedRow =>
      ∀ r ∈ rows, r.step = .row ∧ ∃ u, q.Built t dbs k k u ∧ u.copy = .ok r.row) h (by simp) ?_
    intro rows rows' u hrows hu hadd r hr
    obtain ⟨keyed, hkeyed, hadd⟩ := bind_eq_ok.mp hadd
    cases hadd
    obtain ⟨values, _, hkeyed⟩ := bind_eq_ok.mp hkeyed
    obtain ⟨copy, hcopy, hkeyed⟩ := bind_eq_ok.mp hkeyed
    cases hkeyed
    rcases Array.mem_push.mp hr with hr | rfl
    · exact hrows r hr
    · exact ⟨rfl, u, hu, hcopy⟩
  intro r hr
  obtain ⟨keyed, hkeyed, rfl⟩ := List.mem_map.mp
    ((KeyedRow.sorted_perm hout).mem_iff.mp (Array.mem_toList_iff.mpr hr))
  obtain ⟨hstep, u, hu, hcopy⟩ := hrows keyed (Array.mem_toList_iff.mp hkeyed)
  exact ⟨hstep, u, keyed.row, hu, hcopy, rfl⟩

private theorem buffers_collected {rows : Array (Row × Step)}
    (h : Gathered (Operator.collectRow {}) (q.Built t dbs n n) #[] rows) :
    q.cached.Buffers t dbs n { rows } := by
  refine keeps_of_gathered (Q := fun rows : Array (Row × Step) =>
    ∀ r ∈ rows, r.2 = .row ∧ q.cached.Built t dbs n n (.owned r.1)) h (by simp) ?_
  intro rows rows' u hrows hu hadd r hr
  obtain ⟨copy, hcopy, hadd⟩ := bind_eq_ok.mp hadd
  cases hadd
  rcases Array.mem_push.mp hr with hr | rfl
  · exact hrows r hr
  · exact ⟨rfl, n, Nat.le_refl n, u, copy, hu, hcopy, rfl⟩

private theorem opened_cached {m : Nat} {b : Buffer} {owner : Option TxHandle} (hm : Moments t dbs n)
    (hx : During t dbs n x)
    (hopens : Opened t dbs n q x (op.openIn m t x))
    (hnext : ∀ {op x}, During t dbs n x → q.Open t dbs x n n op →
      Advanced t dbs n q n x (Delivered t dbs n q n) (op.nextIn m .empty x))
    (h : q.Holds t dbs n op) (hb : owner = some t → q.cached.Buffers t dbs n b) :
    Opened t dbs n (.cached q) x ((Operator.cached op b owner).openIn (m + 1) t x) := by
  rw [Operator.openIn]
  have hrewound : owner = some t → q.cached.Buffers t dbs n b.rewind := hb
  split
  · rename_i howner
    subst howner
    exact opened_ok false () (.cached h (hrewound rfl) (Nat.le_refl n))
  · obtain ⟨⟨started, hdb⟩, hholds, hopen⟩ := hopens
    generalize op.openIn m t x = turn at hdb hholds hopen ⊢
    obtain ⟨answer, op, db⟩ := turn
    dsimp only at hdb hholds hopen
    subst hdb
    cases answer with
    | error e => exact opened_fail started e (.cached _ _ hholds hrewound)
    | ok _ =>
      obtain ⟨⟨later, hdb⟩, hopen, hanswer⟩ := advanced_trans (active_during hm hx) _
        (advanced_foldRows (f := Operator.collectRow) hm (fun _ => rfl) hnext m (during_phase hm hx)
          (hopen () rfl) .start)
      dsimp only
      generalize Operator.foldRows (Operator.nextIn m .empty) Operator.collectRow m #[] op
        (x.phase t started) = turn at hdb hopen hanswer ⊢
      obtain ⟨answer, op, db⟩ := turn
      dsimp only at hdb hopen hanswer
      subst hdb
      have hclosed := holds_close (holds_of_open hopen)
      cases answer with
      | error e => exact opened_fail later e (.cached _ _ hclosed hrewound)
      | ok rows =>
        exact opened_ok later () (.cached hclosed (buffers_collected (hanswer rows rfl)) (Nat.le_refl n))

/-! ## Filters and joins -/

private theorem advanced_filter {m : Nat} {condition : Expr} {policy : ConflictPolicy}
    (hm : Moments t dbs n) (hx : During t dbs n x)
    (hnext : ∀ {q k op x}, k ≤ n → During t dbs n x → q.Open t dbs x n k op →
      Advanced t dbs n q k x (Delivered t dbs n q k) (op.nextIn m .empty x))
    (hk : k ≤ n) (h : q.Open t dbs x n k op) :
    Advanced t dbs n (.filter condition policy q) k x (Delivered t dbs n (.filter condition policy q) k)
      ((Operator.predicate condition policy [op]).nextIn (m + 1) .empty x) := by
  rw [Operator.nextIn]
  obtain ⟨⟨started, hdb⟩, hopen, hanswer⟩ := hnext hk hx h
  generalize op.nextIn m .empty x = turn at hdb hopen hanswer ⊢
  obtain ⟨answer, op, db⟩ := turn
  dsimp only at hdb hopen hanswer
  subst hdb
  have hkept := hopen.filter condition policy
  cases answer with
  | error e => exact advanced_fail started e hkept
  | ok step =>
    rcases hanswer step rfl with rfl | ⟨rfl, v, hcurrent, hbuilt⟩
    · exact advanced_ok started hkept (.inl rfl)
    · dsimp only
      rw [hcurrent]
      dsimp only [Except.bind]
      cases hholds : (RowView.joined v .empty).holds condition with
      | error e => exact advanced_fail started e hkept
      | ok matched =>
        cases matched with
        | true => exact advanced_ok started hkept (.inr ⟨rfl, v, hcurrent, hbuilt, hholds⟩)
        | false => exact advanced_trans (active_during hm hx) _ (hnext hk (during_phase hm hx) hkept)

private theorem advanced_join {m : Nat} {r : QueryTree} (hm : Moments t dbs n) (hx : During t dbs n x)
    (hopens : ∀ {q op x}, During t dbs n x → q.Holds t dbs n op → Opened t dbs n q x (op.openIn m t x))
    (hnext : ∀ {q k op x}, k ≤ n → During t dbs n x → q.Open t dbs x n k op →
      Advanced t dbs n q k x (Delivered t dbs n q k) (op.nextIn m .empty x))
    (hk : k ≤ n) (h : (q.join r).Open t dbs x n k op) :
    Advanced t dbs n (q.join r) k x (Delivered t dbs n (q.join r) k) (op.nextIn (m + 1) .empty x) := by
  have hactive := active_during hm hx
  cases h with
  | @join _ _ _ left right hl hr =>
    rw [Operator.nextIn]
    obtain ⟨⟨started, hdb⟩, hopen, hanswer⟩ := hnext hk hx hl
    generalize left.nextIn m .empty x = turn at hdb hopen hanswer ⊢
    obtain ⟨answer, left, db⟩ := turn
    dsimp only at hdb hopen hanswer
    subst hdb
    cases answer with
    | error e => exact advanced_fail started e (.join hopen hr)
    | ok step =>
      rcases hanswer step rfl with rfl | ⟨rfl, l, hcurrent, hbuilt⟩
      · exact advanced_ok started (.join hopen hr) (.inl rfl)
      · -- The inner side is opened at this moment, for the row at which the outer side stands.
        refine advanced_trans hactive started ?_
        have hx : During t dbs n (x.phase t started) := during_phase hm hx
        obtain ⟨⟨later, hdb⟩, hholds, hright⟩ := hopens hx (holds_close hr)
        dsimp only
        generalize right.close.openIn m t (x.phase t started) = turn at hdb hholds hright ⊢
        obtain ⟨answer, right, db⟩ := turn
        dsimp only at hdb hholds hright
        subst hdb
        have hopen := open_phase later hopen
        cases answer with
        | error e => exact advanced_fail later e (.join hopen hholds)
        | ok _ =>
          exact advanced_trans (active_during hm hx) _ (hnext hk (during_phase hm hx)
            (.pairing hopen hcurrent hbuilt hk (Nat.le_refl n) (hright () rfl)))
  | @pairing _ j _ _ left right l hl hcurrent hbuilt hkj hjn hr =>
    rw [Operator.nextIn]
    obtain ⟨⟨started, hdb⟩, hopen, hanswer⟩ := hnext hjn hx hr
    generalize right.nextIn m .empty x = turn at hdb hopen hanswer ⊢
    obtain ⟨answer, right, db⟩ := turn
    dsimp only at hdb hopen hanswer
    subst hdb
    have hl := open_phase started hl
    cases answer with
    | error e => exact advanced_fail started e (.pairing hl hcurrent hbuilt hkj hjn hopen)
    | ok step =>
      rcases hanswer step rfl with rfl | ⟨rfl, v, hright, hv⟩
      · exact advanced_trans hactive _
          (hnext hk (during_phase hm hx) (.join hl (holds_of_open hopen)))
      · refine advanced_ok started (.pairing hl hcurrent hbuilt hkj hjn hopen) (.inr ⟨rfl, .joined l v, ?_,
          l, v, j, hbuilt, hkj, hjn, hv, rfl⟩)
        rw [Operator.current, hcurrent, hright]
        rfl

theorem calls_at (hm : Moments t dbs n) (m : Nat) :
    (∀ {q op x}, During t dbs n x → q.Holds t dbs n op → Opened t dbs n q x (op.openIn m t x)) ∧
    ∀ {q k op x}, k ≤ n → During t dbs n x → q.Open t dbs x n k op →
      Advanced t dbs n q k x (Delivered t dbs n q k) (op.nextIn m .empty x) := by
  induction m with
  | zero => exact ⟨fun _ h => opened_fail false _ h, fun _ _ h => advanced_fail false _ h⟩
  | succ m ih =>
    obtain ⟨hopens, hnext⟩ := ih
    have hreads : ∀ {q op x}, During t dbs n x → q.Open t dbs x n n op →
        Advanced t dbs n q n x (Delivered t dbs n q n) (op.nextIn m .empty x) :=
      hnext (Nat.le_refl n)
    constructor
    · intro q op x hx h
      cases h with
      | scan s opened cursor current hs => exact open_scan hm hx m opened cursor current hs
      | filter condition policy h =>
        exact opened_under (fun _ => .filter condition policy) (fun _ _ => .filter condition policy)
          (hopens hx h)
      | literal items row => exact opened_ok false () (.literal items _ rfl)
      | project items row h =>
        exact opened_under (fun _ => .project items row) (fun _ _ => .project items row) (hopens hx h)
      | @join q r left right state hl hr =>
        rw [Operator.openIn]
        obtain ⟨⟨started, hdb⟩, hholds, hopen⟩ := hopens hx hl
        generalize left.openIn m t x = turn at hdb hholds hopen ⊢
        obtain ⟨answer, left, db⟩ := turn
        dsimp only at hdb hholds hopen
        subst hdb
        cases answer with
        | error e => exact opened_fail started e (.join state hholds hr)
        | ok _ => exact opened_ok started () (.join (hopen () rfl) hr)
      | aggregate groupBy calls b h =>
        exact opened_afterReading hm hx (fun _ => rfl) hreads (fun _ => .aggregate groupBy calls b)
          (fun groups op started hgroups hop =>
            opened_ok started () (.aggregate hop (buffers_aggregate hgroups))) (hopens hx h)
      | sort keys b h =>
        rw [Operator.openIn]
        refine opened_afterReading hm hx (fun _ => rfl) hreads (fun _ => .sort keys b)
          (fun rows op started hrows hop => ?_) (hopens hx h)
        cases hout : KeyedRow.sorted keys rows.toList with
        | ok out => exact opened_ok started () (.sort hop (buffers_sort hrows hout))
        | error e => exact opened_fail started e (.sort keys b hop)
      | rename qualifier h =>
        exact opened_under (fun _ => .rename qualifier) (fun _ _ => .rename qualifier) (hopens hx h)
      | cached b owner h hb => exact opened_cached hm hx (hopens hx h) hreads h hb
    · intro q k op x hk hx h
      cases h with
      | scan s cursor current hs hlasts _ =>
        exact advanced_scan hm hk hx m (.scan s cursor current hs hlasts hk)
      | filter condition policy h => exact advanced_filter hm hx hnext hk h
      | literal items row hrows =>
        rw [Operator.nextIn]
        refine advanced_replay ?_ (fun b hb => .literal items _ (hb.trans hrows)) fun b row hrow hmem => ?_
        · rw [hrows]
          decide
        · refine ⟨.projected items (.owned row), ?_, row, hrows ▸ hmem, rfl⟩
          rw [Operator.current]
          dsimp only
          rw [hrow]
          rfl
      | project items row h =>
        refine advanced_under (fun _ _ => .project items row) (fun op v hcurrent hbuilt => ?_)
          (hnext hk hx h)
        exact ⟨.projected items v, by rw [Operator.current, hcurrent]; rfl, v, hbuilt, rfl⟩
      | join hl hr => exact advanced_join hm hx hopens hnext hk (.join hl hr)
      | pairing hl hcurrent hbuilt hkj hjn hr =>
        exact advanced_join hm hx hopens hnext hk (.pairing hl hcurrent hbuilt hkj hjn hr)
      | aggregate h hb =>
        rw [Operator.nextIn]
        exact advanced_replay (fun r hr => (hb r hr).1)
          (fun b hrows => .aggregate h (by rwa [Buffers, hrows]))
          fun b row hrow hmem => ⟨.owned row, by rw [Operator.current, hrow]; rfl, (hb _ hmem).2⟩
      | sort h hb =>
        rw [Operator.nextIn]
        exact advanced_replay (fun r hr => (hb r hr).1) (fun b hrows => .sort h (by rwa [Buffers, hrows]))
          fun b row hrow hmem => ⟨.owned row, by rw [Operator.current, hrow]; rfl, (hb _ hmem).2⟩
      | rename qualifier h =>
        refine advanced_under (fun _ _ => .rename qualifier) (fun op v hcurrent hbuilt => ?_)
          (hnext hk hx h)
        exact ⟨.qualified qualifier v, by rw [Operator.current, hcurrent]; rfl, v, hbuilt, rfl⟩
      | cached h hb _ =>
        rw [Operator.nextIn]
        exact advanced_replay (fun r hr => (hb r hr).1)
          (fun b hrows => .cached h (by rwa [Buffers, hrows]) hk)
          fun b row hrow hmem => ⟨.owned row, by rw [Operator.current, hrow]; rfl, (hb _ hmem).2⟩

end QueryTree

end SnapshotSql
