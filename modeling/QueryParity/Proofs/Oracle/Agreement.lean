import QueryParity.Proofs.Oracle.Checks

/-!
# Checks do not see earlier checks

A query leaves two traces in a session, its stack and the count of queries. No later query sees
them: sessions that agree on their data answer every query in the same way, also one that does not
compile or that faults on a row. So oracles that agree on all but these traces have the same outcome
for every case, under any lowering, and an oracle after any checks agrees with the one before them.
-/

namespace QueryParity

/-- If the value of each row does not depend on the state, neither does the collected result. -/
theorem QueryShape.collect_congr_state {σ : Type} {shape : QueryShape}
    {valueOf : Nat → σ → Except Fault Value × σ}
    (h : ∀ row state state', (valueOf row state).1 = (valueOf row state').1) (start : Nat)
    (keys : List RowKey) (state state' : σ) :
    (shape.collect valueOf start keys state).1 = (shape.collect valueOf start keys state').1 := by
  induction keys generalizing start state state' with
  | nil => rfl
  | cons key keys ih =>
    have hvalue := h start state state'
    rw [collect, collect]
    generalize valueOf start state = first at hvalue ⊢
    generalize valueOf start state' = second at hvalue ⊢
    obtain ⟨outcome, after⟩ := first
    obtain ⟨outcome', after'⟩ := second
    obtain rfl : outcome = outcome' := hvalue
    cases outcome with
    | error fault => rfl
    | ok v =>
      simp only
      cases shape.keeps v with
      | error fault => rfl
      | ok kept =>
        simp only
        rw [ih (start + 1) after after']

namespace Session

/-- Two sessions agree if their data are the same, whatever traces queries have left in them. -/
structure Agree (s t : Session) : Prop where
  /-- The schema. -/
  schema_eq : s.schema = t.schema
  /-- The columns. -/
  columns_eq : s.columns = t.columns
  /-- The keys. -/
  keys_eq : s.keys = t.keys

variable {s t u : Session}

theorem Agree.refl (s : Session) : s.Agree s := ⟨rfl, rfl, rfl⟩

theorem Agree.trans (h : s.Agree t) (h' : t.Agree u) : s.Agree u :=
  ⟨h.schema_eq.trans h'.schema_eq, h.columns_eq.trans h'.columns_eq, h.keys_eq.trans h'.keys_eq⟩

/-- A query leaves a session that agrees with the one before. -/
theorem agree_run (s : Session) (query : Query) : (s.run query).value.1.Agree s := by
  rw [run_session]
  exact ⟨rfl, rfl, rfl⟩

/-- Sessions that agree answer every query in the same way. -/
theorem Agree.run_eq (h : s.Agree t) (query : Query) :
    (s.run query).value.2 = (t.run query).value.2 := by
  rw [run, run, h.schema_eq]
  cases Program.compile query.tree t.schema with
  | error fault => rfl
  | ok program =>
    simp only [Logged.value_bind, Logged.value_pure, h.columns_eq, h.keys_eq]
    -- The machine clears its stack, so the value of a row does not depend on what is left there.
    exact QueryShape.collect_congr_state (fun _ _ _ => rfl) 0 t.keys s.stack t.stack

end Session

namespace Oracle

/-- Two oracles agree if they differ at most in the traces of queries in their sessions. -/
structure Agree (o p : Oracle) : Prop where
  /-- The sessions. -/
  session : o.session.Agree p.session
  /-- The dataset of the reference path. -/
  dataset_eq : o.dataset = p.dataset
  /-- The lowering. -/
  lowering_eq : o.lowering = p.lowering

variable {o p q : Oracle}

theorem Agree.refl (o : Oracle) : o.Agree o := ⟨.refl _, rfl, rfl⟩

theorem Agree.trans (h : o.Agree p) (h' : p.Agree q) : o.Agree q :=
  ⟨h.session.trans h'.session, h.dataset_eq.trans h'.dataset_eq,
    h.lowering_eq.trans h'.lowering_eq⟩

/-- A check leaves an oracle that agrees with the one before. -/
theorem agree_check (o : Oracle) (c : Case) : (o.check c).value.1.Agree o := by
  obtain h | ⟨query, h⟩ := check_oracle o c <;> rw [h]
  · exact .refl o
  · exact ⟨o.session.agree_run query, rfl, rfl⟩

/-- Oracles that agree have the same results for every case. -/
theorem Agree.results_eq (h : o.Agree p) (c : Case) : o.results c = p.results c := by
  rw [results, results, h.lowering_eq]
  cases queries c (p.lowering.lower c.tree).value with
  | error e => rfl
  | ok pair => simp only [Outcome.ok_bind, h.session.run_eq, h.dataset_eq]

/-- Oracles that agree have the same outcome for every case. -/
theorem Agree.check_eq (h : o.Agree p) (c : Case) :
    (o.check c).value.2 = (p.check c).value.2 := by
  rw [value_check, value_check, h.results_eq, h.lowering_eq]

end Oracle

end QueryParity
