import SnapshotSql.Operator.Iterate
import SnapshotSql.Proofs.Query.Genuine
import SnapshotSql.Proofs.Transaction.SnapshotReads
/-! # Operators that only read -/

namespace SnapshotSql

variable {α β σ : Type}

/-! ## Answers without conflicts -/

/-- The answer has a property, or the failure is not a conflict. -/
def Calm (p : α → Prop) : Except ExecError α → Prop
  | .ok a => p a
  | .error e => ∀ table rid, e ≠ .transaction (.conflict table rid)

theorem calm_of_genuine {p : α → Prop} {x : Except ExecError α} (h : Genuine x)
    (hp : ∀ a, x = .ok a → p a) : Calm p x := by
  cases x with
  | error e =>
    rintro table rid rfl
    exact h _ rfl (.transaction _)
  | ok a => exact hp a rfl

theorem calm_bind {p : α → Prop} {p' : β → Prop} {x : Except ExecError α}
    {f : α → Except ExecError β} (hx : Calm p x) (hf : ∀ a, p a → Calm p' (f a)) :
    Calm p' (x >>= f) := by
  cases x with
  | error e => exact hx
  | ok a => exact hf a hx

/-! ## Operators -/

def Buffer.Quiet (b : Buffer) : Prop := ∀ r ∈ b.rows, r.2 = .row

namespace Operator

/-- The operator only reads, and has met no conflict so far. What is explained is not run. -/
inductive Quiet : Operator → Prop
  | tableScan {scan : TableScan} (h : scan.access = .read) : Quiet (.tableScan scan)
  | predicate {condition : Expr} {policy : ConflictPolicy} {inputs : List Operator}
      (h : ∀ input ∈ inputs, Quiet input) : Quiet (.predicate condition policy inputs)
  | project {items : List SelectItem} {inputs : List Operator} {literal : Option StringList}
      (h : ∀ input ∈ inputs, Quiet input) (hl : ∀ l ∈ literal, l.buffer.Quiet) :
      Quiet (.project items inputs literal)
  | compute (exprs : List Expr) (emission : Emission) : Quiet (.compute exprs emission)
  | join {left right : Operator} {state : JoinState} (hl : Quiet left) (hr : Quiet right)
      (hs : state.leftStep ≠ some .contested) : Quiet (.join left right state)
  | explain (input : Operator) (emission : Emission) : Quiet (.explain input emission)
  | aggregate {groupBy : List Expr} {calls : List AggregateCall} {input : Operator}
      {buffer : Buffer} (h : Quiet input) (hb : buffer.Quiet) :
      Quiet (.aggregate groupBy calls input buffer)
  | sort {keys : List SortKey} {input : Operator} {buffer : Buffer} (h : Quiet input)
      (hb : buffer.Quiet) : Quiet (.sort keys input buffer)
  | subQuery {qualifier : String} {input : Operator} (h : Quiet input) :
      Quiet (.subQuery qualifier input)
  | cached {input : Operator} {buffer : Buffer} {owner : Option TxHandle} (h : Quiet input)
      (hb : buffer.Quiet) : Quiet (.cached input buffer owner)
  | stringList {strings : StringList} (h : strings.buffer.Quiet) : Quiet (.stringList strings)

/-- The operators that an operator runs. -/
def driven : Operator → List Operator
  | explain .. => []
  | op => op.inputs

/-- The operator comes out of another one by going down to what is run, opening, advancing and
closing, with any transactions and databases. -/
inductive Reaches (op : Operator) : Operator → Prop
  | self : Reaches op op
  | down {op' input : Operator} (h : Reaches op op') (hin : input ∈ op'.driven) : Reaches op input
  | opened {op' : Operator} (h : Reaches op op') (n : Nat) (t : TxHandle) (db : Database) :
      Reaches op (op'.openIn n t db).op
  | advanced {op' : Operator} (h : Reaches op op') (n : Nat) (env : RowView) (db : Database) :
      Reaches op (op'.nextIn n env db).op
  | closed {op' : Operator} (h : Reaches op op') : Reaches op op'.close

private theorem genuine_noCurrentRow (kind : OperatorKind) :
    Genuine (.error (.noCurrentRow kind) : Except ExecError α) := nofun

private theorem genuine_notOpen (kind : OperatorKind) :
    Genuine (.error (.internal (.notOpen kind)) : Except ExecError α) := nofun

theorem genuine_ownedRow (kind : OperatorKind) (row : Option Row) : Genuine (ownedRow kind row) := by
  cases row with
  | none => exact genuine_noCurrentRow kind
  | some row => exact genuine_ok _

theorem genuine_current : ∀ op : Operator, Genuine op.current
  | .tableScan s => by
    rw [current]
    split
    · exact genuine_ok _
    · exact genuine_noCurrentRow _
  | .predicate _ _ [] => genuine_noCurrentRow _
  | .predicate _ _ (input :: _) => by
    rw [current]
    exact genuine_current input
  | .project _ (input :: _) _ => by
    rw [current]
    exact genuine_map (genuine_current input)
  | .project _ [] (some literal) => genuine_map (genuine_ownedRow _ _)
  | .project _ [] none => genuine_notOpen _
  | .compute _ e => genuine_ownedRow _ _
  | .join left right _ => by
    rw [current]
    exact genuine_bind (genuine_current left) fun _ =>
      genuine_bind (genuine_current right) fun _ => genuine_ok _
  | .insert .. => genuine_noCurrentRow _
  | .delete .. => genuine_noCurrentRow _
  | .update .. => genuine_noCurrentRow _
  | .explain _ e => genuine_ownedRow _ _
  | .createTable .. => genuine_noCurrentRow _
  | .rename .. => genuine_noCurrentRow _
  | .aggregate _ _ _ b => genuine_ownedRow _ _
  | .sort _ _ b => genuine_ownedRow _ _
  | .subQuery _ input => by
    rw [current]
    exact genuine_map (genuine_current input)
  | .cached _ b _ => genuine_ownedRow _ _
  | .stringList s => genuine_ownedRow _ _

end Operator

/-- A call on an operator leaves an operator that only reads and the catalog as it is. -/
structure Turn.Quiet (c : Catalog) (p : α → Prop) (turn : Turn α) : Prop where
  op : turn.op.Quiet
  catalog : turn.db.catalog = c
  answer : Calm p turn.answer

variable {c : Catalog} {p : α → Prop} {turn : Turn α} {db : Database} {op : Operator}

namespace Turn

theorem quiet_ok {a : α} (hop : op.Quiet) (hp : p a) (hdb : db.catalog = c) :
    (Turn.ok a op db).Quiet c p :=
  ⟨hop, hdb, hp⟩

theorem quiet_under {parent : Operator → Operator} (h : turn.Quiet c p)
    (hparent : ∀ op : Operator, op.Quiet → (parent op).Quiet) : (turn.under parent).Quiet c p :=
  ⟨hparent _ h.op, h.catalog, h.answer⟩

end Turn

/-! ## Replays -/

namespace Buffer

theorem quiet_empty : Quiet {} := by simp [Quiet]

theorem quiet_next {b : Buffer} (h : b.Quiet) : b.next.1 ≠ .contested ∧ b.next.2.Quiet := by
  rw [next]
  split
  · rename_i row step heq
    have hstep : step = .row := h _ (Array.mem_of_getElem? heq)
    exact ⟨by rw [hstep]; exact nofun, h⟩
  · exact ⟨nofun, h⟩

end Buffer

theorem StringList.quiet_create (column : String) (strings : List String) :
    (StringList.create column strings).buffer.Quiet := by
  intro r hr
  simp only [StringList.create, List.mem_toArray] at hr
  obtain ⟨_, _, rfl⟩ := List.mem_map.mp hr
  rfl

namespace Operator

private theorem quiet_replay {b : Buffer} {parent : Buffer → Operator} (h : b.Quiet)
    (hparent : ∀ b : Buffer, b.Quiet → (parent b).Quiet) :
    (replay b parent db).Quiet db.catalog (· ≠ .contested) :=
  have hnext := Buffer.quiet_next h
  Turn.quiet_ok (hparent _ hnext.2) hnext.1 rfl

private theorem quiet_emit {e : Emission} {make : Unit → Except ExecError Row}
    {parent : Emission → Operator} (hmake : Genuine (make ())) (hparent : ∀ e, (parent e).Quiet) :
    (emit e make parent db).Quiet db.catalog (· ≠ .contested) := by
  unfold emit
  split
  · exact Turn.quiet_ok (hparent _) nofun rfl
  · have hcalm : Calm (fun _ => True) (make ()) := calm_of_genuine hmake fun _ _ => trivial
    split
    · rename_i heq
      rw [heq] at hcalm
      exact ⟨hparent _, rfl, hcalm⟩
    · exact Turn.quiet_ok (hparent _) nofun rfl

/-- Reading an operator to its end, where what is made of a row is never a conflict. -/
theorem quiet_foldRows {next : Operator → Database → Turn Step}
    {f : Database → α → RowView → Step → Except ExecError α} {n : Nat} {acc : α}
    (hnext : ∀ (op : Operator) (db : Database), op.Quiet →
      (next op db).Quiet db.catalog (· ≠ .contested))
    (hf : ∀ db acc v, p acc → Calm p (f db acc v .row)) (hacc : p acc) (hop : op.Quiet)
    (hdb : db.catalog = c) : (foldRows next f n acc op db).Quiet c p := by
  induction n generalizing acc op db with
  | zero => exact ⟨hop, hdb, nofun⟩
  | succ n ih =>
    rw [foldRows]
    obtain ⟨hop, hcatalog, hanswer⟩ := hnext op db hop
    generalize next op db = turn at hop hcatalog hanswer
    rw [hdb] at hcatalog
    obtain ⟨answer, op, db⟩ := turn
    match answer, hanswer with
    | .error e, hanswer => exact ⟨hop, hcatalog, hanswer⟩
    | .ok .done, _ => exact ⟨hop, hcatalog, hacc⟩
    | .ok .contested, hanswer => exact absurd rfl hanswer
    | .ok .row, _ =>
      have hread : Calm p (op.current.bind fun v => f db acc v .row) :=
        calm_bind (p := fun _ => True) (calm_of_genuine (genuine_current op) fun _ _ => trivial)
          fun v _ => hf db acc v hacc
      dsimp only
      generalize (op.current.bind fun v => f db acc v .row) = read at hread
      cases read with
      | error e => exact ⟨hop, hcatalog, hread⟩
      | ok acc => exact ih hread hop hcatalog

private theorem quiet_afterReading {turn : Turn Unit} {read : Operator → Database → Turn α}
    {parent : Operator → Operator} {go : α → Operator → Database → Turn Unit}
    (h : turn.Quiet c fun _ => True)
    (hread : ∀ op db, op.Quiet → db.catalog = c → (read op db).Quiet c p)
    (hparent : ∀ op : Operator, op.Quiet → (parent op).Quiet)
    (hgo : ∀ a (op : Operator) (db : Database), p a → op.Quiet → db.catalog = c →
      (go a op db).Quiet c fun _ => True) :
    (afterReading turn read parent go).Quiet c fun _ => True := by
  unfold afterReading
  obtain ⟨answer, op, db⟩ := turn
  obtain ⟨hop, hcatalog, hanswer⟩ := h
  cases answer with
  | error e => exact ⟨hparent _ hop, hcatalog, hanswer⟩
  | ok _ =>
    dsimp only
    obtain ⟨hop, hcatalog, hanswer⟩ := hread op db hop hcatalog
    generalize read op db = turn at hop hcatalog hanswer
    obtain ⟨answer, op, db⟩ := turn
    cases answer with
    | error e => exact ⟨hparent _ hop, hcatalog, hanswer⟩
    | ok a => exact hgo a op db hanswer hop hcatalog

end Operator

/-! ## Transactions -/

/-- The action leaves the catalog as it is and meets no conflict. What it answers has a property. -/
def Action.Quiet (p : α → Prop) (a : Action TxError α) : Prop := ∀ db, match a.run db with
  | .ok x db' => p x ∧ db'.catalog = db.catalog
  | .error e db' => (∀ table rid, e ≠ .conflict table rid) ∧ db'.catalog = db.catalog

theorem Action.quiet_bind {p' : β → Prop} {a : Action TxError α} {f : α → Action TxError β}
    (ha : Quiet p a) (hf : ∀ x, p x → Quiet p' (f x)) : Quiet p' (a >>= f) := by
  intro db
  have ha := ha db
  rw [EStateM.run_bind]
  generalize a.run db = result at ha ⊢
  cases result with
  | error e db' => exact ha
  | ok x db' =>
    have hf := hf x ha.1 db'
    rw [ha.2] at hf
    exact hf

namespace TxHandle

theorem quiet_start (t : TxHandle) : Action.Quiet (fun _ => True) t.start := by
  intro db
  cases hending : (db.transaction t).ending with
  | some how =>
    rw [start_run_ended hending]
    exact ⟨nofun, rfl⟩
  | none =>
    rw [start_run_open hending]
    exact ⟨trivial, Database.begun_catalog⟩

theorem quiet_readSnapshot (t : TxHandle) : Action.Quiet (fun _ => True) t.readSnapshot :=
  Action.quiet_bind t.quiet_start fun _ _ _ => ⟨trivial, rfl⟩

theorem quiet_visibility (t : TxHandle) (s : Snapshot) (v : Version) :
    Action.Quiet (· ≠ .contested) (t.visibility s .read v) :=
  Action.quiet_bind t.quiet_start fun _ _ _ => ⟨(Registry.visibility_read _ _ _ v).1, rfl⟩

theorem quiet_finish (t : TxHandle) (how : Ending) : Action.Quiet (fun _ => True) (t.finish how) := by
  intro db
  cases hending : (db.transaction t).ending with
  | some earlier =>
    rw [finish_run_ended hending]
    exact ⟨nofun, rfl⟩
  | none =>
    rw [finish_run hending]
    exact ⟨trivial, Database.ended_catalog⟩

end TxHandle

/-! ## Calls -/

namespace Operator

private theorem quiet_openScan {s : TableScan} (h : s.access = .read) (n : Nat) (t : TxHandle) :
    (openIn (n + 1) t (.tableScan s) db).Quiet db.catalog fun _ => True := by
  rw [openIn]
  have hread := t.quiet_readSnapshot db
  cases hrun : t.readSnapshot.run db with
  | ok snapshot db' =>
    rw [hrun] at hread
    exact ⟨.tableScan h, hread.2, trivial⟩
  | error e db' =>
    rw [hrun] at hread
    refine ⟨.tableScan h, hread.2, ?_⟩
    rintro table rid ⟨⟩
    exact hread.1 table rid rfl

private theorem quiet_seek (t : TxHandle) (snapshot : Snapshot) (env : RowView)
    (versions : Array Version) (n : Nat) {s : TableScan} (h : s.access = .read) :
    (TableScan.seek t snapshot env versions n s db).Quiet db.catalog (· ≠ .contested) := by
  induction n generalizing s db with
  | zero => exact ⟨.tableScan h, rfl, nofun⟩
  | succ n ih =>
    rw [TableScan.seek]
    cases versions[s.cursor]? with
    | none => exact ⟨.tableScan h, rfl, nofun⟩
    | some v =>
      have hseen := t.quiet_visibility snapshot v db
      rw [← h] at hseen
      dsimp only
      generalize (t.visibility snapshot s.access v).run db = result at hseen ⊢
      cases result with
      | error e db' =>
        refine ⟨.tableScan h, hseen.2, ?_⟩
        rintro table rid ⟨⟩
        exact hseen.1 table rid rfl
      | ok seen db' =>
        obtain ⟨hcontested, hcatalog⟩ := hseen
        rw [← hcatalog]
        cases seen with
        | invisible => exact ih h
        | contested => exact absurd rfl hcontested
        | visible =>
          dsimp only
          have haccepts : Calm (fun _ => True)
              (TableScan.accepts { s with cursor := s.cursor + 1 } env v) :=
            calm_of_genuine (RowView.genuine_holdsAll _ _) fun _ _ => trivial
          split
          · rename_i heq
            rw [heq] at haccepts
            exact ⟨.tableScan h, rfl, haccepts⟩
          · split
            · exact ⟨.tableScan h, rfl, nofun⟩
            · exact ih h

private theorem quiet_nextScan {s : TableScan} (h : s.access = .read) (env : RowView) :
    (s.next env db).Quiet db.catalog (· ≠ .contested) := by
  unfold TableScan.next
  split
  · exact ⟨.tableScan h, rfl, nofun⟩
  · exact quiet_seek _ _ env _ _ h

theorem mem_closeAll {ops : List Operator} (h : op ∈ closeAll ops) :
    ∃ op' ∈ ops, op = op'.close := by
  induction ops with
  | nil => cases h
  | cons head ops ih =>
    rcases List.mem_cons.mp h with rfl | h
    · exact ⟨head, List.mem_cons_self, rfl⟩
    · obtain ⟨op', hop', heq⟩ := ih h
      exact ⟨op', List.mem_cons_of_mem head hop', heq⟩

theorem quiet_close (h : op.Quiet) : op.close.Quiet := by
  have hcleared : ∀ b : Buffer, b.clear.Quiet := fun b => by simp [Buffer.Quiet, Buffer.clear]
  have hall : ∀ {inputs : List Operator}, (∀ input ∈ inputs, input.close.Quiet) →
      ∀ input ∈ closeAll inputs, input.Quiet := by
    intro inputs ih input hinput
    obtain ⟨input, hmem, rfl⟩ := mem_closeAll hinput
    exact ih input hmem
  induction h with
  | tableScan h => exact .tableScan h
  | predicate _ ih => exact .predicate (hall ih)
  | project _ hl ih =>
    refine .project (hall ih) fun l hl' => ?_
    obtain ⟨l₀, hl₀, rfl⟩ := Option.map_eq_some_iff.mp hl'
    exact hl l₀ hl₀
  | compute exprs e => exact .compute exprs _
  | join _ _ _ ihl ihr => exact .join ihl ihr nofun
  | explain input e => exact .explain input _
  | aggregate _ _ ih => exact .aggregate ih (hcleared _)
  | sort _ _ ih => exact .sort ih (hcleared _)
  | subQuery _ ih => exact .subQuery ih
  | cached h hb => exact .cached h hb
  | stringList h => exact .stringList h

private theorem quiet_openJoin {n : Nat} {t : TxHandle} {left right : Operator} {state : JoinState}
    (hopen : ∀ {op : Operator} {db : Database}, op.Quiet →
      (openIn n t op db).Quiet db.catalog fun _ => True)
    (hl : left.Quiet) (hr : right.Quiet) (hs : state.leftStep ≠ some .contested) :
    (openIn (n + 1) t (.join left right state) db).Quiet db.catalog fun _ => True := by
  rw [openIn]
  obtain ⟨hop, hcatalog, hanswer⟩ : (openIn n t left db).Quiet db.catalog fun _ => True := hopen hl
  generalize openIn n t left db = turn at hop hcatalog hanswer ⊢
  obtain ⟨answer, op, db'⟩ := turn
  cases answer with
  | error e => exact ⟨.join hop hr hs, hcatalog, hanswer⟩
  | ok _ => exact ⟨.join hop hr nofun, hcatalog, trivial⟩

private theorem calm_collectRow {rows : Array (Row × Step)} (h : ∀ r ∈ rows, r.2 = .row)
    (db : Database) (v : RowView) :
    Calm (fun rows => ∀ r ∈ rows, r.2 = .row) (collectRow db rows v .row) := by
  have hcopy : Genuine (collectRow db rows v .row) :=
    genuine_bind (RowView.genuine_copy v) fun _ => genuine_ok _
  exact calm_of_genuine hcopy fun _ => step_collectRow (p := (· = .row)) h rfl

private theorem quiet_openCached {n : Nat} {t : TxHandle} {input : Operator} {b : Buffer}
    {owner : Option TxHandle}
    (hopen : (openIn n t input db).Quiet db.catalog fun _ => True)
    (hnext : ∀ (op : Operator) (db : Database), op.Quiet →
      (nextIn n .empty op db).Quiet db.catalog (· ≠ .contested))
    (h : input.Quiet) (hb : b.Quiet) :
    (openIn (n + 1) t (.cached input b owner) db).Quiet db.catalog fun _ => True := by
  rw [openIn]
  have hrewound : b.rewind.Quiet := hb
  split
  · exact ⟨.cached h hrewound, rfl, trivial⟩
  · obtain ⟨hop, hcatalog, hanswer⟩ := hopen
    generalize openIn n t input db = turn at hop hcatalog hanswer ⊢
    obtain ⟨answer, op, db'⟩ := turn
    cases answer with
    | error e => exact ⟨.cached hop hrewound, hcatalog, hanswer⟩
    | ok _ =>
      obtain ⟨hop, hcatalog, hanswer⟩ : (foldRows (nextIn n .empty) collectRow n #[] op db').Quiet
          db.catalog fun rows => ∀ r ∈ rows, r.2 = .row :=
        quiet_foldRows hnext (fun db rows v hrows => calm_collectRow hrows db v) (by simp) hop hcatalog
      dsimp only
      generalize foldRows (nextIn n .empty) collectRow n #[] op db' = turn at hop hcatalog hanswer ⊢
      obtain ⟨answer, op, db''⟩ := turn
      cases answer with
      | error e => exact ⟨.cached (quiet_close hop) hrewound, hcatalog, hanswer⟩
      | ok rows => exact ⟨.cached (quiet_close hop) hanswer, hcatalog, trivial⟩

private theorem quiet_nextPredicate {n : Nat} {env : RowView} {condition : Expr}
    {policy : ConflictPolicy} {inputs : List Operator}
    (hnext : ∀ {op : Operator} {db : Database}, op.Quiet →
      (nextIn n env op db).Quiet db.catalog (· ≠ .contested))
    (h : ∀ input ∈ inputs, input.Quiet) :
    (nextIn (n + 1) env (.predicate condition policy inputs) db).Quiet db.catalog
      (· ≠ .contested) := by
  cases inputs with
  | nil => exact ⟨.predicate h, rfl, nofun⟩
  | cons input rest =>
    rw [nextIn]
    obtain ⟨hop, hcatalog, hanswer⟩ : (nextIn n env input db).Quiet db.catalog (· ≠ .contested) :=
      hnext (h input List.mem_cons_self)
    generalize nextIn n env input db = turn at hop hcatalog hanswer ⊢
    obtain ⟨answer, op, db'⟩ := turn
    have hkept : (Operator.predicate condition policy (op :: rest)).Quiet :=
      .predicate (List.forall_mem_cons.mpr ⟨hop, (List.forall_mem_cons.mp h).2⟩)
    match answer, hanswer with
    | .error e, hanswer => exact ⟨hkept, hcatalog, hanswer⟩
    | .ok .done, _ => exact ⟨hkept, hcatalog, nofun⟩
    | .ok .contested, hanswer => exact absurd rfl hanswer
    | .ok .row, _ =>
      have htest : Calm (fun _ => True)
          (op.current.bind fun v => (RowView.joined v env).holds condition) :=
        calm_of_genuine (genuine_bind (genuine_current op) fun v => RowView.genuine_holds _ _)
          fun _ _ => trivial
      dsimp only
      generalize (op.current.bind fun v => (RowView.joined v env).holds condition) = test at htest ⊢
      cases test with
      | error e => exact ⟨hkept, hcatalog, htest⟩
      | ok matched =>
        dsimp only
        split
        · exact ⟨hkept, hcatalog, nofun⟩
        · rw [← hcatalog]
          exact hnext hkept

private theorem quiet_nextJoin {n : Nat} {env : RowView} {left right : Operator} {state : JoinState}
    (hopen : ∀ {t : TxHandle} {op : Operator} {db : Database}, op.Quiet →
      (openIn n t op db).Quiet db.catalog fun _ => True)
    (hnext : ∀ {op : Operator} {db : Database}, op.Quiet →
      (nextIn n env op db).Quiet db.catalog (· ≠ .contested))
    (hl : left.Quiet) (hr : right.Quiet) (hs : state.leftStep ≠ some .contested) :
    (nextIn (n + 1) env (.join left right state) db).Quiet db.catalog (· ≠ .contested) := by
  obtain ⟨tx, leftStep⟩ := state
  match tx, leftStep, hs with
  | none, leftStep, hs => exact ⟨.join hl hr hs, rfl, nofun⟩
  | some t, none, hs =>
    rw [nextIn]
    obtain ⟨hop, hcatalog, hanswer⟩ : (nextIn n env left db).Quiet db.catalog (· ≠ .contested) :=
      hnext hl
    generalize nextIn n env left db = turn at hop hcatalog hanswer ⊢
    obtain ⟨answer, op, db'⟩ := turn
    match answer, hanswer with
    | .error e, hanswer => exact ⟨.join hop hr hs, hcatalog, hanswer⟩
    | .ok .done, _ => exact ⟨.join hop hr hs, hcatalog, nofun⟩
    | .ok .contested, hanswer => exact absurd rfl hanswer
    | .ok .row, _ =>
      have hcatalog : db'.catalog = db.catalog := hcatalog
      dsimp only
      rw [← hcatalog]
      obtain ⟨hop', hcatalog', hanswer'⟩ : (openIn n t right.close db').Quiet db'.catalog fun _ => True :=
        hopen (quiet_close hr)
      generalize openIn n t right.close db' = turn at hop' hcatalog' hanswer' ⊢
      obtain ⟨answer, op', db''⟩ := turn
      cases answer with
      | error e => exact ⟨.join hop hop' hs, hcatalog', hanswer'⟩
      | ok _ =>
        dsimp only at hcatalog' ⊢
        rw [← hcatalog']
        exact hnext (.join hop hop' nofun)
  | some t, some leftStep, hs =>
    rw [nextIn]
    obtain ⟨hop, hcatalog, hanswer⟩ : (nextIn n env right db).Quiet db.catalog (· ≠ .contested) :=
      hnext hr
    generalize nextIn n env right db = turn at hop hcatalog hanswer ⊢
    obtain ⟨answer, op, db'⟩ := turn
    match answer, hanswer with
    | .error e, hanswer => exact ⟨.join hl hop hs, hcatalog, hanswer⟩
    | .ok .done, _ =>
      dsimp only at hcatalog ⊢
      rw [← hcatalog]
      exact hnext (.join hl hop nofun)
    | .ok .contested, hanswer => exact absurd rfl hanswer
    | .ok .row, _ =>
      refine ⟨.join hl hop hs, hcatalog, ?_⟩
      have hleft : leftStep ≠ .contested := fun heq => hs (congrArg some heq)
      show leftStep.combine .row ≠ .contested
      simp [Step.combine, hleft]

theorem quiet_calls (n : Nat) :
    (∀ {t : TxHandle} {op : Operator} {db : Database}, op.Quiet →
      (openIn n t op db).Quiet db.catalog fun _ => True) ∧
    ∀ {env : RowView} {op : Operator} {db : Database}, op.Quiet →
      (nextIn n env op db).Quiet db.catalog (· ≠ .contested) := by
  induction n with
  | zero => exact ⟨fun h => ⟨h, rfl, nofun⟩, fun h => ⟨h, rfl, nofun⟩⟩
  | succ n ih =>
    obtain ⟨hopen, hnext⟩ := ih
    constructor
    · intro t op db h
      cases h with
      | tableScan h => exact quiet_openScan h n t
      | @predicate condition policy inputs h =>
        match inputs, h with
        | [], h => exact ⟨.predicate h, rfl, nofun⟩
        | [input], h =>
          rw [openIn]
          exact Turn.quiet_under (hopen (h input List.mem_cons_self)) fun op hop =>
            .predicate (List.forall_mem_singleton.mpr hop)
        | _ :: _ :: _, h => exact ⟨.predicate h, rfl, nofun⟩
      | @project items inputs literal h hl =>
        match inputs, h with
        | [], h =>
          refine ⟨.project h ?_, rfl, trivial⟩
          rintro l ⟨⟩
          exact StringList.quiet_create _ _
        | [input], h =>
          rw [openIn]
          exact Turn.quiet_under (hopen (h input List.mem_cons_self)) fun op hop =>
            .project (List.forall_mem_singleton.mpr hop) hl
        | _ :: _ :: _, h => exact ⟨.project h hl, rfl, nofun⟩
      | compute exprs e => exact ⟨.compute exprs _, rfl, trivial⟩
      | join hl hr hs => exact quiet_openJoin hopen hl hr hs
      | explain input e => exact ⟨.explain input _, rfl, trivial⟩
      | aggregate h hb =>
        rw [openIn]
        refine quiet_afterReading (p := fun groups : Array Group => ∀ g ∈ groups, g.contested = false)
          (hopen h) (fun op db hop hdb => quiet_foldRows (fun _ _ => hnext) ?_ (by simp) hop hdb)
          (fun op hop => .aggregate hop hb) ?_
        · exact fun db groups v hgroups => calm_of_genuine (genuine_feedGroups _ _ _ _ _)
            fun groups' hfeed => Group.uncontested_feedGroups hgroups hfeed
        · exact fun groups op db hgroups hop hdb =>
            Turn.quiet_ok (.aggregate hop (Group.step_outputs hgroups)) trivial hdb
      | @sort keys input buffer h hb =>
        rw [openIn]
        refine quiet_afterReading (p := fun rows : Array KeyedRow => ∀ k ∈ rows, k.step = .row)
          (hopen h) (fun op db hop hdb => quiet_foldRows (fun _ _ => hnext) ?_ (by simp) hop hdb)
          (fun op hop => .sort hop hb) ?_
        · exact fun db rows v hrows => calm_of_genuine (genuine_collectKeyed _ _ _ _ _)
            fun rows' => KeyedRow.step_collectKeyed (p := (· = .row)) hrows rfl
        · intro rows op db hrows hop hdb
          have hcalm : Calm (fun out => ∀ r ∈ out, r.2 = .row) (KeyedRow.sorted keys rows.toList) :=
            calm_of_genuine (genuine_sorted _ _) fun _ =>
              KeyedRow.step_sorted (p := (· = .row)) hrows
          generalize KeyedRow.sorted keys rows.toList = out at hcalm ⊢
          cases out with
          | ok out => exact Turn.quiet_ok (.sort hop hcalm) trivial hdb
          | error e => exact ⟨.sort hop hb, hdb, hcalm⟩
      | subQuery h =>
        rw [openIn]
        exact Turn.quiet_under (hopen h) fun op hop => .subQuery hop
      | cached h hb => exact quiet_openCached (hopen h) (fun _ _ => hnext) h hb
      | stringList h => exact ⟨.stringList h, rfl, trivial⟩
    · intro env op db h
      cases h with
      | tableScan h => exact quiet_nextScan h env
      | predicate h => exact quiet_nextPredicate hnext h
      | @project items inputs literal h hl =>
        match inputs, literal, h, hl with
        | [], none, h, hl => exact ⟨.project h hl, rfl, nofun⟩
        | [], some l, h, hl =>
          rw [nextIn]
          refine quiet_replay (hl l rfl) fun b hb => .project h ?_
          rintro l' ⟨⟩
          exact hb
        | input :: rest, literal, h, hl =>
          rw [nextIn]
          exact Turn.quiet_under (hnext (h input List.mem_cons_self)) fun op hop =>
            .project (List.forall_mem_cons.mpr ⟨hop, (List.forall_mem_cons.mp h).2⟩) hl
      | compute exprs e =>
        rw [nextIn]
        refine quiet_emit ?_ fun e => .compute exprs e
        exact genuine_bind (RowView.genuine_evalAll _ _) fun _ => genuine_ok _
      | join hl hr hs => exact quiet_nextJoin hopen hnext hl hr hs
      | explain input e =>
        rw [nextIn]
        exact quiet_emit (genuine_ok _) fun e => .explain input e
      | aggregate h hb =>
        rw [nextIn]
        exact quiet_replay hb fun b hb => .aggregate h hb
      | sort h hb =>
        rw [nextIn]
        exact quiet_replay hb fun b hb => .sort h hb
      | subQuery h =>
        rw [nextIn]
        exact Turn.quiet_under (hnext h) fun op hop => .subQuery hop
      | cached h hb =>
        rw [nextIn]
        exact quiet_replay hb fun b hb => .cached h hb
      | stringList h =>
        rw [nextIn]
        exact quiet_replay h fun b hb => .stringList hb

theorem quiet_of_reaches {op' : Operator} (h : op.Quiet) (hreaches : op.Reaches op') : op'.Quiet := by
  induction hreaches with
  | self => exact h
  | @down op' input _ hin ih =>
    cases ih with
    | predicate h => exact h input hin
    | project h _ => exact h input hin
    | join hl hr _ =>
      rcases List.mem_pair.mp hin with rfl | rfl
      · exact hl
      · exact hr
    | aggregate h _ | sort h _ | subQuery h | cached h _ =>
      cases List.mem_singleton.mp hin
      exact h
    | _ => cases hin
  | opened _ n t db ih => exact ((quiet_calls n).1 ih).op
  | advanced _ n env db ih => exact ((quiet_calls n).2 ih).op
  | closed _ ih => exact quiet_close ih

end Operator

end SnapshotSql
