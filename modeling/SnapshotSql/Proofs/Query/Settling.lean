import SnapshotSql.Proofs.Query.Lending
/-! # What a call leaves -/

namespace SnapshotSql

variable {σ : Type} {op : Operator} {db : Database} {c : Catalog} {n : Nat} {t : TxHandle}
  {env : RowView}

def Turn.Starts (turn : Turn Unit) : Prop :=
  turn.answer = .ok () → turn.op.Coherent ∧ ¬turn.op.Lends

/-- What an advance that succeeds leaves: at the end, a tree that has ended, and otherwise one that lends a
row. -/
structure Operator.Stopped (step : Step) (c : Catalog) (op : Operator) : Prop where
  coherent : op.Coherent
  ended : step = .done → op.Ended c
  lends : step ≠ .done → op.Lends

theorem Operator.Stopped.of_done (hop : op.Coherent) (hend : op.Ended c) : op.Stopped .done c :=
  ⟨hop, fun _ => hend, absurd rfl⟩

theorem Operator.Stopped.of_row {step : Step} (hstep : step ≠ .done) (hop : op.Coherent)
    (hlends : op.Lends) : op.Stopped step c :=
  ⟨hop, fun hdone => absurd hdone hstep, fun _ => hlends⟩

def Turn.Stops (turn : Turn Step) : Prop :=
  ∀ step, turn.answer = .ok step → turn.op.Stopped step turn.db.catalog

namespace Turn

theorem starts_ok (hop : op.Coherent) (hbare : ¬op.Lends) : (Turn.ok () op db).Starts :=
  fun _ => ⟨hop, hbare⟩

theorem starts_fail (e : ExecError) (op : Operator) (db : Database) :
    (Turn.fail e op db : Turn Unit).Starts := nofun

theorem stops_ok {step : Step} (h : op.Stopped step db.catalog) : (Turn.ok step op db).Stops := by
  intro step' hstep
  cases hstep
  exact h

theorem stops_fail (e : ExecError) (op : Operator) (db : Database) :
    (Turn.fail e op db : Turn Step).Stops := nofun

theorem starts_under {turn : Turn Unit} {parent : Operator → Operator} (h : turn.Starts)
    (hcoherent : ∀ op, op.Coherent → (parent op).Coherent)
    (hlends : ∀ op, (parent op).Lends → op.Lends) : (turn.under parent).Starts := by
  intro hanswer
  obtain ⟨hop, hbare⟩ := h hanswer
  exact ⟨hcoherent _ hop, fun hview => hbare (hlends _ hview)⟩

theorem stops_under {turn : Turn Step} {parent : Operator → Operator} (h : turn.Stops)
    (hcoherent : ∀ op, op.Coherent → (parent op).Coherent)
    (hended : ∀ c op, op.Ended c → (parent op).Ended c)
    (hlends : ∀ op, op.Lends → (parent op).Lends) : (turn.under parent).Stops := by
  intro step hanswer
  obtain ⟨hop, hend, hview⟩ := h step hanswer
  exact ⟨hcoherent _ hop, fun hdone => hended _ _ (hend hdone), fun hne => hlends _ (hview hne)⟩

end Turn

namespace Operator

/-! ## Closing -/

theorem not_lends_close : ∀ op : Operator, ¬op.close.Lends
  | .tableScan s => by simp [close]
  | .predicate _ _ inputs => by
    cases inputs with
    | nil => simp [close, closeAll]
    | cons input rest => simpa [close, closeAll] using not_lends_close input
  | .project _ inputs literal => by
    cases inputs with
    | nil => cases literal <;> simp [close, closeAll, StringList.close, Buffer.leave, Buffer.row?]
    | cons input rest => simpa [close, closeAll] using not_lends_close input
  | .compute .. => by simp [close]
  | .join left .. => by simp [close, not_lends_close left]
  | .insert .. => by simp [close]
  | .delete .. => by simp [close]
  | .update .. => by simp [close]
  | .explain .. => by simp [close]
  | .createTable .. => by simp [close]
  | .rename .. => by simp [close]
  | .aggregate .. => by simp [close, Buffer.clear, Buffer.row?]
  | .sort .. => by simp [close, Buffer.clear, Buffer.row?]
  | .subQuery _ input => by simpa [close] using not_lends_close input
  | .cached .. => by simp [close, Buffer.leave, Buffer.row?]
  | .stringList .. => by simp [close, StringList.close, Buffer.leave, Buffer.row?]

theorem coherent_close (h : op.Coherent) : op.close.Coherent := by
  have hall : ∀ {inputs : List Operator}, (∀ input ∈ inputs, input.close.Coherent) →
      ∀ input ∈ closeAll inputs, input.Coherent := by
    intro inputs ih input hinput
    obtain ⟨input, hmem, rfl⟩ := mem_closeAll hinput
    exact ih input hmem
  induction h with
  | tableScan => exact .tableScan _
  | predicate _ ih => exact .predicate (hall ih)
  | project _ hl ih =>
    apply Coherent.project (hall ih)
    intro l hclosed
    obtain ⟨l, hmem, rfl⟩ := Option.map_eq_some_iff.mp hclosed
    exact hl l hmem
  | compute exprs => exact .compute exprs _
  | join _ _ _ ihl ihr => exact .join ihl ihr (absurd rfl)
  | insert table records affected => exact .insert table records affected
  | delete table input affected => exact .delete table input.close affected
  | update table assignments input affected => exact .update table assignments input.close affected
  | explain input => exact .explain input _
  | createTable name columns => exact .createTable name columns
  | rename table newName => exact .rename table newName
  | aggregate => exact .aggregate (Buffer.proper_clear _)
  | sort => exact .sort (Buffer.proper_clear _)
  | subQuery _ ih => exact .subQuery ih
  | cached hb => exact .cached hb
  | stringList hb => exact .stringList hb

/-! ## Opening -/

/-- What is collected from the rows of an operator is made of rows, never of its end. -/
theorem of_foldRows {next : Operator → Database → Turn Step}
    {f : Database → σ → RowView → Step → Except ExecError σ} {p : σ → Prop} {acc out : σ}
    (hf : ∀ db acc view step acc', step ≠ .done → p acc → f db acc view step = .ok acc' → p acc')
    (hacc : p acc) (h : (foldRows next f n acc op db).answer = .ok out) : p out := by
  induction n generalizing acc op db with
  | zero => cases h
  | succ n ih =>
    rw [foldRows] at h
    generalize next op db = turn at h
    obtain ⟨answer, op, db⟩ := turn
    cases answer with
    | error e => cases h
    | ok step =>
      by_cases hdone : step = .done
      · subst hdone
        cases h
        exact hacc
      · cases hread : op.current.bind fun view => f db acc view step with
        | error e => cases step <;> simp [hread, Turn.fail] at h hdone
        | ok acc' =>
          have hrest : (foldRows next f n acc' op db).answer = .ok out := by
            cases step with
            | done => exact absurd rfl hdone
            | row | contested => simpa only [hread] using h
          obtain ⟨view, _, hread⟩ := bind_eq_ok.mp hread
          exact ih (hf db acc view step acc' hdone hacc hread) hrest

private theorem starts_afterReading {turn : Turn Unit} {read : Operator → Database → Turn σ}
    {parent : Operator → Operator} {go : σ → Operator → Database → Turn Unit} {p : σ → Prop}
    (hread : ∀ op db a, (read op db).answer = .ok a → p a)
    (hgo : ∀ a op db, p a → (go a op db).Starts) : (afterReading turn read parent go).Starts := by
  unfold afterReading
  split
  · exact Turn.starts_fail _ _ _
  · dsimp only
    split
    · exact Turn.starts_fail _ _ _
    · rename_i a hanswer
      exact hgo a _ _ (hread _ _ a hanswer)

private theorem starts_ofAction {action : Action TxError Unit} {before : Operator}
    {after : Unit → Operator} (hafter : (after ()).Coherent) (hbare : ¬(after ()).Lends) :
    (Turn.ofAction action db before after).Starts := by
  unfold Turn.ofAction
  split
  · exact Turn.starts_ok hafter hbare
  · exact Turn.starts_fail _ _ _

private theorem starts_openCached {input : Operator} {b : Buffer} {owner : Option TxHandle}
    (hb : b.Proper) : (openIn (n + 1) t (.cached input b owner) db).Starts := by
  have hbare : ∀ (input : Operator) (rows : Array (Row × Step)) (position : Nat)
      (owner : Option TxHandle), ¬(cached input ⟨rows, position, none⟩ owner).Lends := by
    simp [Buffer.row?]
  rw [openIn]
  dsimp only
  split
  · exact Turn.starts_ok (.cached hb) (hbare _ _ _ _)
  · split
    · exact Turn.starts_fail _ _ _
    · split
      · exact Turn.starts_fail _ _ _
      · rename_i rows hrows
        have hproper : ∀ r ∈ rows, r.2 ≠ .done :=
          of_foldRows (p := fun rows : Array (Row × Step) => ∀ r ∈ rows, r.2 ≠ .done)
            (fun _ _ _ _ _ hstep hrows => step_collectRow (p := (· ≠ .done)) hrows hstep) (by simp)
            hrows
        exact Turn.starts_ok (.cached hproper) (hbare _ _ _ _)

theorem starts_openIn (n : Nat) (h : op.Coherent) : (openIn n t op db).Starts := by
  induction n generalizing op db with
  | zero => exact Turn.starts_fail _ _ _
  | succ n ih =>
    cases h with
    | tableScan s =>
      rw [openIn]
      split
      · exact Turn.starts_ok (.tableScan _) (by simp [TableScan.rewind])
      · exact Turn.starts_fail _ _ _
    | @predicate condition policy inputs h =>
      cases inputs with
      | nil => exact Turn.starts_fail _ _ _
      | cons input rest =>
        cases rest with
        | cons _ _ => exact Turn.starts_fail _ _ _
        | nil =>
          rw [openIn]
          apply Turn.starts_under (ih (h input List.mem_cons_self))
          · exact fun op hop => .predicate (List.forall_mem_singleton.mpr hop)
          · simp
    | @project items inputs literal h hl =>
      cases inputs with
      | nil =>
        rw [openIn]
        apply Turn.starts_ok
        · apply Coherent.project h
          intro l hl
          cases hl
          exact StringList.proper_create _ _
        · simp [StringList.singleEmptyRow, StringList.create, Buffer.row?]
      | cons input rest =>
        cases rest with
        | cons _ _ => exact Turn.starts_fail _ _ _
        | nil =>
          rw [openIn]
          apply Turn.starts_under (ih (h input List.mem_cons_self))
          · exact fun op hop => .project (List.forall_mem_singleton.mpr hop) hl
          · simp
    | compute exprs => exact Turn.starts_ok (.compute exprs {}) (by simp)
    | @join left right state hl hr =>
      have hleft : (openIn n t left db).Starts := ih hl
      rw [openIn]
      split
      · exact Turn.starts_fail _ _ _
      · rename_i hanswer
        obtain ⟨hop, hbare⟩ := hleft hanswer
        exact Turn.starts_ok (.join hop hr (absurd rfl)) (by simp [hbare])
    | insert table records =>
      rw [openIn]
      exact starts_ofAction (.insert table records _) (by simp)
    | delete table input =>
      rw [openIn]
      dsimp only
      split
      · exact Turn.starts_fail _ _ _
      · split
        · exact Turn.starts_fail _ _ _
        · exact starts_ofAction (.delete table _ _) (by simp)
    | update table assignments input =>
      rw [openIn]
      dsimp only
      split
      · exact Turn.starts_fail _ _ _
      · split
        · exact Turn.starts_fail _ _ _
        · exact starts_ofAction (.update table assignments _ _) (by simp)
    | explain input => exact Turn.starts_ok (.explain input {}) (by simp)
    | createTable name columns =>
      rw [openIn]
      split
      · exact Turn.starts_fail _ _ _
      · exact Turn.starts_ok (.createTable name columns) (by simp)
    | rename table newName =>
      rw [openIn]
      split
      · exact Turn.starts_fail _ _ _
      · exact Turn.starts_ok (.rename table newName) (by simp)
    | @aggregate groupBy calls input b =>
      rw [openIn]
      apply starts_afterReading (p := fun _ => True) (fun _ _ _ _ => trivial)
      intro groups input db _
      exact Turn.starts_ok (.aggregate (Group.outputs_ne_done groupBy calls groups))
        (by simp [Buffer.row?])
    | @sort keys input b =>
      rw [openIn]
      apply starts_afterReading (p := fun rows : Array KeyedRow => ∀ k ∈ rows, k.step ≠ .done)
      · intro op db rows
        apply of_foldRows
        · intro _ _ _ _ _ hstep hrows
          exact KeyedRow.step_collectKeyed (p := (· ≠ .done)) hrows hstep
        · simp
      · intro rows input db hrows
        cases hout : KeyedRow.sorted keys rows.toList with
        | ok out =>
          exact Turn.starts_ok (.sort (KeyedRow.step_sorted (p := (· ≠ .done)) hrows hout))
            (by simp [Buffer.row?])
        | error e => exact Turn.starts_fail _ _ _
    | subQuery h =>
      rw [openIn]
      apply Turn.starts_under (ih h)
      · exact fun op hop => .subQuery hop
      · simp
    | cached hb => exact starts_openCached hb
    | @stringList s hb =>
      have hrewound : s.buffer.rewind.Proper := hb
      exact Turn.starts_ok (.stringList hrewound) (by simp [Buffer.rewind, Buffer.row?])

/-! ## Advancing -/

private theorem stops_replay {b : Buffer} {parent : Buffer → Operator} (h : b.Proper)
    (hcoherent : ∀ b : Buffer, b.Proper → (parent b).Coherent)
    (hended : ∀ (c : Catalog) (b : Buffer), b.Ended → (parent b).Ended c)
    (hlends : ∀ b : Buffer, b.row?.isSome → (parent b).Lends) : (replay b parent db).Stops := by
  have hnext := Buffer.next_cases h
  apply Turn.stops_ok
  constructor
  · exact hcoherent _ (Buffer.proper_next h)
  · intro hdone
    exact hended _ _ (hnext.resolve_right fun hrow => hrow.1 hdone).2
  · intro hne
    exact hlends _ (hnext.resolve_left fun hend => hne hend.1).2

private theorem stops_emit {e : Emission} {make : Unit → Except ExecError Row}
    {parent : Emission → Operator} (hcoherent : ∀ e, (parent e).Coherent)
    (hended : ∀ (c : Catalog) (e : Emission), e.Ended → (parent e).Ended c)
    (hlends : ∀ e : Emission, e.current.isSome → (parent e).Lends) :
    (emit e make parent db).Stops := by
  unfold emit
  split
  · rename_i hemitted
    apply Turn.stops_ok
    exact .of_done (hcoherent _) (hended _ _ ⟨hemitted, rfl⟩)
  · split
    · exact Turn.stops_fail _ _ _
    · apply Turn.stops_ok
      exact .of_row (by decide) (hcoherent _) (hlends _ rfl)

private theorem stops_barren (hop : op.Coherent) (hend : op.Ended db.catalog) :
    (Turn.ok .done op db).Stops :=
  Turn.stops_ok (.of_done hop hend)

private theorem stops_passed {versions : Array Version} {s : TableScan} (hopened : s.opened ≠ none)
    (hversions : (db.catalog.table s.table).versions = versions) (hpassed : versions.size ≤ s.cursor) :
    (Turn.ok .done (.tableScan { s with current := none }) db).Stops := by
  rw [← hversions] at hpassed
  have hended : (Operator.tableScan { s with current := none }).Ended db.catalog :=
    .tableScan hopened hpassed rfl
  exact stops_barren (.tableScan _) hended

private theorem stops_seek {snapshot : Snapshot} {versions : Array Version} {s : TableScan}
    (hopened : s.opened ≠ none) (hversions : (db.catalog.table s.table).versions = versions)
    (hn : versions.size - s.cursor ≤ n) :
    (TableScan.seek t snapshot env versions n s db).Stops := by
  induction n generalizing s db with
  | zero => exact stops_passed hopened hversions (by omega)
  | succ n ih =>
    rw [TableScan.seek]
    cases hv : versions[s.cursor]? with
    | none => exact stops_passed hopened hversions (Array.getElem?_eq_none_iff.mp hv)
    | some v =>
      dsimp only
      cases hrun : (t.visibility snapshot s.access v).run db with
      | error e db' => exact Turn.stops_fail _ _ _
      | ok seen db' =>
        have hrest : (TableScan.seek t snapshot env versions n { s with cursor := s.cursor + 1 }
            db').Stops := by
          have hversions' : (db'.catalog.table s.table).versions = versions := by
            rw [TableScan.catalog_visibility hrun]
            exact hversions
          exact ih (s := { s with cursor := s.cursor + 1 }) hopened hversions' (by dsimp only; omega)
        cases seen with
        | invisible => exact hrest
        | visible | contested =>
          dsimp only
          split
          · exact Turn.stops_fail _ _ _
          · split
            · apply Turn.stops_ok
              exact .of_row (by decide) (.tableScan _) (by simp)
            · exact hrest

private theorem stops_nextScan (s : TableScan) : (s.next env db).Stops := by
  unfold TableScan.next
  split
  · exact Turn.stops_fail _ _ _
  · rename_i hopened
    apply stops_seek
    · simp [hopened]
    · rfl
    · exact Nat.le_refl _

private theorem stops_nextPredicate {condition : Expr} {policy : ConflictPolicy}
    {inputs : List Operator}
    (hnext : ∀ {op : Operator} {db : Database}, op.Coherent → (nextIn n env op db).Stops)
    (h : ∀ input ∈ inputs, input.Coherent) :
    (nextIn (n + 1) env (.predicate condition policy inputs) db).Stops := by
  cases inputs with
  | nil => exact Turn.stops_fail _ _ _
  | cons input rest =>
    have hinput : (nextIn n env input db).Stops := hnext (h input List.mem_cons_self)
    rw [nextIn]
    generalize nextIn n env input db = turn at hinput ⊢
    obtain ⟨answer, op, db'⟩ := turn
    cases answer with
    | error e => exact Turn.stops_fail _ _ _
    | ok step =>
      obtain ⟨hop, hended, hlends⟩ := hinput step rfl
      have hkept : (Operator.predicate condition policy (op :: rest)).Coherent :=
        .predicate (List.forall_mem_cons.mpr ⟨hop, (List.forall_mem_cons.mp h).2⟩)
      cases step with
      | done => exact stops_barren hkept (.predicate (hended rfl))
      | row | contested =>
        dsimp only
        split
        · exact Turn.stops_fail _ _ _
        · split
          · apply Turn.stops_ok
            exact .of_row (by decide) hkept ((lends_predicate _ _ _ _).mpr (hlends (by decide)))
          · exact hnext hkept

private theorem stops_nextJoin {left right : Operator} {state : JoinState}
    (hnext : ∀ {op : Operator} {db : Database}, op.Coherent → (nextIn n env op db).Stops)
    (hl : left.Coherent) (hr : right.Coherent) (hs : state.leftStep ≠ none → left.Lends) :
    (nextIn (n + 1) env (.join left right state) db).Stops := by
  obtain ⟨tx, leftStep⟩ := state
  cases tx with
  | none => exact Turn.stops_fail _ _ _
  | some t =>
    cases leftStep with
    | none =>
      have hleft : (nextIn n env left db).Stops := hnext hl
      rw [nextIn]
      generalize nextIn n env left db = turn at hleft ⊢
      obtain ⟨answer, op, db'⟩ := turn
      cases answer with
      | error e => exact Turn.stops_fail _ _ _
      | ok step =>
        obtain ⟨hop, hended, hlends⟩ := hleft step rfl
        have hright : (openIn n t right.close db').Starts := starts_openIn n (coherent_close hr)
        cases step with
        | done => exact stops_barren (.join hop hr (absurd rfl)) (.join (hended rfl))
        | row | contested =>
          dsimp only
          generalize openIn n t right.close db' = turn at hright ⊢
          obtain ⟨answer, op', db''⟩ := turn
          cases answer with
          | error e => exact Turn.stops_fail _ _ _
          | ok _ => exact hnext (.join hop (hright rfl).1 fun _ => hlends (by decide))
    | some leftStep =>
      have hright : (nextIn n env right db).Stops := hnext hr
      rw [nextIn]
      generalize nextIn n env right db = turn at hright ⊢
      obtain ⟨answer, op, db'⟩ := turn
      cases answer with
      | error e => exact Turn.stops_fail _ _ _
      | ok step =>
        obtain ⟨hop, _, hlends⟩ := hright step rfl
        cases step with
        | done => exact hnext (.join hl hop (absurd rfl))
        | row | contested =>
          have hboth : left.Lends ∧ op.Lends := ⟨hs (Option.some_ne_none _), hlends (by decide)⟩
          apply Turn.stops_ok
          exact .of_row (Step.combine_ne_done _ _) (.join hl hop hs) ((lends_join _ _ _).mpr hboth)

theorem stops_nextIn (n : Nat) (h : op.Coherent) : (nextIn n env op db).Stops := by
  induction n generalizing op db with
  | zero => exact Turn.stops_fail _ _ _
  | succ n ih =>
    cases h with
    | tableScan s => exact stops_nextScan s
    | predicate h => exact stops_nextPredicate ih h
    | @project items inputs literal h hl =>
      cases inputs with
      | nil =>
        cases literal with
        | none => exact Turn.stops_fail _ _ _
        | some l =>
          rw [nextIn]
          apply stops_replay (hl l rfl)
          · intro b hb
            apply Coherent.project h
            intro l' hl'
            cases hl'
            exact hb
          · exact fun c b hb => .literal hb
          · simp
      | cons input rest =>
        rw [nextIn]
        apply Turn.stops_under (ih (h input List.mem_cons_self))
        · exact fun op hop =>
            .project (List.forall_mem_cons.mpr ⟨hop, (List.forall_mem_cons.mp h).2⟩) hl
        · exact fun c op hop => .project hop
        · simp
    | compute exprs e =>
      rw [nextIn]
      exact stops_emit (.compute exprs) (fun c e => .compute) (by simp)
    | join hl hr hs => exact stops_nextJoin ih hl hr hs
    | insert table records affected =>
      exact stops_barren (.insert table records affected) (.insert table records affected)
    | delete table input affected =>
      exact stops_barren (.delete table input affected) (.delete table input affected)
    | update table assignments input affected =>
      exact stops_barren (.update table assignments input affected)
        (.update table assignments input affected)
    | explain input e =>
      rw [nextIn]
      exact stops_emit (.explain input) (fun c e => .explain) (by simp)
    | createTable name columns =>
      exact stops_barren (.createTable name columns) (.createTable name columns)
    | rename table newName => exact stops_barren (.rename table newName) (.rename table newName)
    | aggregate hb =>
      rw [nextIn]
      exact stops_replay hb (fun b => .aggregate) (fun c b => .aggregate) (by simp)
    | sort hb =>
      rw [nextIn]
      exact stops_replay hb (fun b => .sort) (fun c b => .sort) (by simp)
    | subQuery h =>
      rw [nextIn]
      exact Turn.stops_under (ih h) (fun op => .subQuery) (fun c op => .subQuery) (by simp)
    | cached hb =>
      rw [nextIn]
      exact stops_replay hb (fun b => .cached) (fun c b => .cached) (by simp)
    | stringList hb =>
      rw [nextIn]
      exact stops_replay hb (fun b hb => .stringList hb) (fun c b hb => .stringList hb) (by simp)

/-! ## At the end -/

private theorem one_le_stepBound (c : Catalog) (op : Operator) : 1 ≤ op.stepBound c := by
  have hall : ∀ inputs : List Operator, 1 ≤ stepBoundAll c inputs := by
    intro inputs
    cases inputs with
    | nil => exact Nat.le_refl 1
    | cons input rest =>
      simp only [stepBoundAll, passBound]
      omega
  cases op with
  | predicate _ _ inputs => exact hall inputs
  | project _ inputs _ => exact hall inputs
  | _ =>
    simp only [stepBound, passBound]
    omega

private theorem replay_of_ended {b : Buffer} (h : b.Ended) (parent : Buffer → Operator) :
    replay b parent db = .ok .done (parent b) db := by
  simp [replay, Buffer.next_of_ended h]

private theorem emit_of_ended {e : Emission} (h : e.Ended) (make : Unit → Except ExecError Row)
    (parent : Emission → Operator) : emit e make parent db = .ok .done (parent e) db := by
  obtain ⟨emitted, current⟩ := e
  obtain ⟨rfl, rfl⟩ := h
  rfl

/-- Advancing a tree that has ended changes nothing, neither in the tree nor in the database. -/
theorem nextIn_of_ended (h : op.Ended db.catalog) (hn : op.stepBound db.catalog ≤ n) :
    op.nextIn n env db = .ok .done op db := by
  obtain ⟨n, rfl⟩ := Nat.exists_eq_add_of_le' (Nat.le_trans (one_le_stepBound _ op) hn)
  have hbelow : ∀ {input : Operator} {n : Nat},
      (∀ n, input.stepBound db.catalog ≤ n + 1 →
        input.nextIn (n + 1) env db = .ok .done input db) →
      input.stepBound db.catalog ≤ n → input.nextIn n env db = .ok .done input db := by
    intro input n ih hinput
    obtain ⟨n, rfl⟩ := Nat.exists_eq_add_of_le' (Nat.le_trans (one_le_stepBound _ input) hinput)
    exact ih n hinput
  induction h generalizing n with
  | @tableScan s hopened hcursor hcurrent =>
    obtain ⟨⟨t, snapshot⟩, hopened⟩ := Option.ne_none_iff_exists'.mp hopened
    obtain ⟨table, columns, names, access, predicates, policy, opened, cursor, current⟩ := s
    dsimp only at hopened hcursor hcurrent
    subst hopened hcurrent
    simp [nextIn, TableScan.next, Nat.sub_eq_zero_of_le hcursor, TableScan.seek]
  | @predicate condition policy input rest _ ih =>
    have hinput : input.nextIn n env db = .ok .done input db := by
      apply hbelow ih
      simp only [stepBound, stepBoundAll, passBound] at hn
      omega
    rw [nextIn, hinput]
    rfl
  | literal hb => rw [nextIn, replay_of_ended hb]
  | @project items input rest literal _ ih =>
    have hinput : input.nextIn n env db = .ok .done input db := by
      apply hbelow ih
      simp only [stepBound, stepBoundAll, passBound] at hn
      omega
    rw [nextIn, hinput]
    rfl
  | compute he => rw [nextIn, emit_of_ended he]
  | @join left right t _ ih =>
    have hleft : left.nextIn n env db = .ok .done left db := by
      apply hbelow ih
      simp only [stepBound, passBound] at hn
      omega
    rw [nextIn]
    dsimp only
    rw [hleft]
    rfl
  | explain he => rw [nextIn, emit_of_ended he]
  | aggregate hb => rw [nextIn, replay_of_ended hb]
  | sort hb => rw [nextIn, replay_of_ended hb]
  | @subQuery qualifier input _ ih =>
    have hinput : input.nextIn n env db = .ok .done input db := by
      apply hbelow ih
      simp only [stepBound, passBound] at hn
      omega
    rw [nextIn, hinput]
    rfl
  | cached hb => rw [nextIn, replay_of_ended hb]
  | stringList hb => rw [nextIn, replay_of_ended hb]
  | insert | delete | update | createTable | rename => rw [nextIn]

end Operator

end SnapshotSql
