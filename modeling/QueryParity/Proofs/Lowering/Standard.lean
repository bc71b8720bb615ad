import QueryParity.Proofs.Lowering.Meaning
import QueryParity.Proofs.Text.Wildcard

/-!
# The standard rules

The standard rules make four kinds of steps. A wildcard match with a constant pattern turns into
the simpler test that the pattern asks for, which agrees with the match on every text; a null passes
neither. A change to the zone `UTC` disappears, since it delivers the date-time it is given. So
lowering by the standard rules keeps types and meaning.
-/

namespace QueryParity

open Outcome Wildcard

/-- A pattern without wildcards asks for equality. -/
theorem likeMatch_plain {text : String} (ht : Plain text.toList) (input : String) :
    likeMatch input text = (input == text) := by
  rw [Bool.eq_iff_iff, likeMatch_iff, matches_plain_iff ht, beq_iff_eq, String.toList_inj]

/-- A pattern that ends with its only wildcard, a `%`, asks for a beginning. -/
theorem likeMatch_start {text pattern : String} (ht : Plain text.toList)
    (hp : pattern.toList = text.toList ++ ['%']) (input : String) :
    likeMatch input pattern = Func.hasStart input text := by
  rw [Bool.eq_iff_iff, likeMatch_iff, hp, matches_start_iff ht, Func.hasStart,
    List.isPrefixOf_iff_prefix]

/-- A pattern that begins with its only wildcard, a `%`, asks for an end. -/
theorem likeMatch_end {text pattern : String} (ht : Plain text.toList)
    (hp : pattern.toList = '%' :: text.toList) (input : String) :
    likeMatch input pattern = Func.hasEnd input text := by
  rw [Bool.eq_iff_iff, likeMatch_iff, hp, matches_end_iff ht, Func.hasEnd,
    List.isSuffixOf_iff_suffix]

/-- A replacement that one of the standard rules offers. -/
inductive StandardStep : Expr → Expr → Prop where
  /-- A pattern without wildcards. -/
  | equality {input : Expr} {text : String} : Plain text.toList →
      StandardStep (.like input (.stringLit text)) (.equal input (.stringLit text))
  /-- A pattern that ends with its only wildcard. -/
  | start {input : Expr} {text pattern : String} : Plain text.toList →
      pattern.toList = text.toList ++ ['%'] →
      StandardStep (.like input (.stringLit pattern)) (.startsWith input (.stringLit text))
  /-- A pattern that begins with its only wildcard. -/
  | tail {input : Expr} {text pattern : String} : Plain text.toList →
      pattern.toList = '%' :: text.toList →
      StandardStep (.like input (.stringLit pattern)) (.endsWith input (.stringLit text))
  /-- A change to the zone `UTC`. -/
  | utc {input : Expr} : StandardStep (.atUtc input) input

namespace Rule

/-- Text without `_` and without `%` is plain. -/
theorem plain_of_count {text : List Char} (hu : '_' ∉ text) (hc : text.count '%' = 0) :
    Plain text := by
  intro c hmem
  exact ⟨fun h => List.count_eq_zero.mp hc (h ▸ hmem), fun h => hu (h ▸ hmem)⟩

/-- A simpler match is a step of the standard rules. -/
theorem standardStep_of_simplerMatch? {input next : Expr} {pattern : String}
    (h : simplerMatch? input pattern = some next) :
    StandardStep (.like input (.stringLit pattern)) next := by
  simp only [simplerMatch?, List.contains_iff_mem, beq_iff_eq] at h
  by_cases hu : '_' ∈ pattern.toList
  · rw [if_pos hu] at h
    cases h
  · rw [if_neg hu] at h
    match hcount : pattern.toList.count '%' with
    | 0 =>
      rw [hcount] at h
      cases h
      exact .equality (plain_of_count hu hcount)
    | 1 =>
      simp only [hcount, Option.ite_none_left_eq_some] at h
      obtain ⟨-, h⟩ := h
      by_cases hlast : pattern.toList.getLast? = some '%'
      · rw [if_pos hlast] at h
        cases h
        have hp := (List.dropLast_append_getLast? '%' hlast).symm
        rw [hp, List.count_append, List.count_singleton_self] at hcount
        have hplain : Plain pattern.toList.dropLast :=
          plain_of_count (fun hm => hu (List.dropLast_subset _ hm)) (by omega)
        exact .start (by rwa [String.toList_ofList]) (by rwa [String.toList_ofList])
      · rw [if_neg hlast, Option.ite_none_right_eq_some] at h
        obtain ⟨hhead, h⟩ := h
        cases h
        obtain ⟨rest, hp⟩ := List.head?_eq_some_iff.mp hhead
        rw [hp] at hu hcount
        rw [List.count_cons_self] at hcount
        have hplain : Plain rest :=
          plain_of_count (fun hm => hu (List.mem_cons_of_mem _ hm)) (by omega)
        rw [hp, List.tail_cons]
        exact .tail (by rwa [String.toList_ofList]) (by rwa [String.toList_ofList])
    | n + 2 =>
      simp only [hcount] at h
      cases h

/-- A constant call is a call with two arguments, of which the second is a constant. -/
theorem eq_of_constantCall? {f : Func} {node input : Expr} {v : Value}
    (h : constantCall? f node = some (input, v)) : node = .call f [input, .const v] := by
  unfold constantCall? at h
  split at h
  · rw [Option.ite_none_right_eq_some] at h
    obtain ⟨rfl, hpair⟩ := h
    cases hpair
    rfl
  · cases h

/-- Only a string has a text. -/
theorem eq_of_text? {v : Value} {s : String} (h : v.text? = some s) : v = .string s := by
  cases v <;> cases h
  rfl

/-- What the rule for wildcard matches offers is a step. -/
theorem standardStep_of_likePattern {node next : Expr} (h : likePattern.replace? node = some next) :
    StandardStep node next := by
  obtain ⟨⟨input, v⟩, hcall, h⟩ := Option.bind_eq_some_iff.mp h
  obtain ⟨pattern, hv, h⟩ := Option.bind_eq_some_iff.mp h
  rw [eq_of_constantCall? hcall, eq_of_text? hv]
  exact standardStep_of_simplerMatch? h

/-- What the rule for the zone `UTC` offers is a step. -/
theorem standardStep_of_utcTimeZone {node next : Expr} (h : utcTimeZone.replace? node = some next) :
    StandardStep node next := by
  obtain ⟨⟨input, v⟩, hcall, h⟩ := Option.bind_eq_some_iff.mp h
  obtain ⟨zone, hv, h⟩ := Option.bind_eq_some_iff.mp h
  obtain ⟨rfl, hnext⟩ := Option.ite_none_right_eq_some.mp h
  cases hnext
  rw [eq_of_constantCall? hcall, eq_of_text? hv]
  exact .utc

end Rule

/-- What the standard rules offer is a step of one of the four kinds. -/
theorem standardStep_of_offers {node next : Expr} (h : Lowering.standard.Offers node next) :
    StandardStep node next := by
  obtain ⟨rule, hrule, hreplace⟩ := h
  obtain rfl | rfl : rule = Rule.likePattern ∨ rule = Rule.utcTimeZone := by
    simpa [Lowering.standard] using hrule
  · exact Rule.standardStep_of_likePattern hreplace
  · exact Rule.standardStep_of_utcTimeZone hreplace

/-- Lowering by the standard rules makes steps of the four kinds. -/
theorem rewrites_standard (e : Expr) :
    Rewrites StandardStep e (Lowering.standard.lower e).value :=
  (Lowering.rewrites_lower e).mono fun _ _ => standardStep_of_offers

/-- A string test of a null or a text against a text depends on the test for that text only. -/
theorem stringPredicate_congr {test test' : String → String → Bool} {v : Value} {p p' : String}
    (hv : v.type = .string) (h : ∀ s, test s p = test' s p') :
    Func.stringPredicate test v (.string p) = Func.stringPredicate test' v (.string p') := by
  obtain ⟨content, hcontent, -⟩ := Value.string?_eq_ok hv .stringPredicate
  rw [Func.stringPredicate, Func.stringPredicate, hcontent]
  cases content with
  | none => rfl
  | some s => exact congrArg (fun b => Except.ok (Value.bool b)) (h s)

/-- Equality of a null or a text to a text is a string test. -/
theorem equal_eq_stringPredicate {v : Value} {p : String} (hv : v.type = .string) :
    BinaryOp.equal.apply v (.string p) = Func.stringPredicate (· == ·) v (.string p) := by
  rw [BinaryOp.apply, BinaryOp.equality_of_type_eq hv]
  cases v with
  | string s =>
    have hbeq : (Value.string s == Value.string p) = (s == p) := by
      rw [Bool.eq_iff_iff, beq_iff_eq, beq_iff_eq, Value.string.injEq]
    rw [hbeq]
    rfl
  | null t =>
    obtain rfl : t = .string := hv
    rfl
  | _ => cases hv

/-- A date-time or a null seen from `UTC` is itself. -/
theorem inZone_utc {v : Value} (hv : v.type = .dateTime) :
    Func.inZone v (.string "UTC") = .ok v := by
  cases v with
  | dateTime t =>
    rw [Func.inZone, Value.dateTime?, Value.string?, ok_bind, ok_bind]
    simp only [ZoneOffset.ofText?_utc]
  | null t =>
    obtain rfl : t = .dateTime := hv
    rfl
  | _ => cases hv

namespace StandardStep

variable {schema : List ValueType} {node next : Expr}

/-- A call with a text as second argument has a type exactly if the function has a signature for the
type of the first one. -/
theorem infer_call_text_iff {f : Func} {input : Expr} {text : String} {t : ValueType} :
    (Expr.call f [input, .stringLit text]).infer = .ok t ↔
      ∃ u, input.infer = .ok u ∧ f.resultType [u, .string] = some t := by
  rw [Expr.infer_call_eq_ok_iff]
  constructor
  · rintro ⟨a, b, ta, tb, hargs, ha, hb, ht⟩
    cases hargs
    cases hb
    exact ⟨ta, ha, ht⟩
  · rintro ⟨u, hu, ht⟩
    exact ⟨input, _, u, .string, rfl, hu, rfl, ht⟩

/-- A call with a text as second argument evaluates the first one. -/
theorem evaluate_call_text (row : List Value) (f : Func) (input : Expr) (text : String) :
    (Expr.call f [input, .stringLit text]).evaluate row =
      input.evaluate row >>= fun v => f.apply [v, .string text] :=
  Expr.evaluate_call_pair row f input (.stringLit text)

/-- The input of a wildcard match with a type is a string, and the match is a boolean. -/
theorem infer_like {input : Expr} {pattern : String} {t : ValueType}
    (h : (Expr.like input (.stringLit pattern)).infer = .ok t) :
    input.infer = .ok .string ∧ t = .bool := by
  obtain ⟨u, hu, ht⟩ := infer_call_text_iff.mp h
  cases u <;> cases ht
  exact ⟨hu, rfl⟩

/-- What is seen from `UTC` is a date-time, and so is the result. -/
theorem infer_atUtc {input : Expr} {t : ValueType} (h : (Expr.atUtc input).infer = .ok t) :
    input.infer = .ok .dateTime ∧ t = .dateTime := by
  obtain ⟨u, hu, ht⟩ := infer_call_text_iff.mp h
  cases u <;> cases ht
  exact ⟨hu, rfl⟩

/-- A step of the standard rules keeps the type of a node. -/
theorem keepsType (h : StandardStep node next) : KeepsType node next := by
  intro t ht
  cases h with
  | equality _ =>
    obtain ⟨hinput, rfl⟩ := infer_like ht
    exact Expr.infer_binary_eq_ok_iff.mpr ⟨.string, .string, hinput, rfl, rfl⟩
  | start _ _ | tail _ _ =>
    obtain ⟨hinput, rfl⟩ := infer_like ht
    exact infer_call_text_iff.mpr ⟨.string, hinput, rfl⟩
  | utc =>
    obtain ⟨hinput, rfl⟩ := infer_atUtc ht
    exact hinput

/-- A step of the standard rules only removes nodes that are calls or constants. -/
theorem fieldsMatch (h : StandardStep node next) (hfields : node.FieldsMatch schema) :
    next.FieldsMatch schema := by
  cases h <;>
    simp_all [Expr.like, Expr.equal, Expr.startsWith, Expr.endsWith, Expr.atUtc, Expr.atTimeZone,
      Expr.stringLit]

/-- A step of the standard rules keeps the value of a node with a type. -/
theorem evaluate_eq (h : StandardStep node next) {t : ValueType} (ht : node.infer = .ok t)
    {row : List Value} (hrow : node.FieldsMatch (row.map Value.type)) :
    next.evaluate row = node.evaluate row := by
  have hnext := h.fieldsMatch hrow
  cases h with
  | equality hplain =>
    obtain ⟨hinput, rfl⟩ := infer_like ht
    have hfields := (Expr.fieldsMatch_binary.mp hnext).1
    rw [Expr.like, evaluate_call_text]
    refine bind_congr_ok fun v hv => ?_
    have htype := Expr.type_of_evaluate hinput hfields hv
    exact (equal_eq_stringPredicate htype).trans
      (stringPredicate_congr htype fun s => (likeMatch_plain hplain s).symm)
  | start hplain hp =>
    obtain ⟨hinput, rfl⟩ := infer_like ht
    have hfields := Expr.fieldsMatch_call.mp hnext _ List.mem_cons_self
    rw [Expr.like, Expr.startsWith, evaluate_call_text, evaluate_call_text]
    refine bind_congr_ok fun v hv => ?_
    exact stringPredicate_congr (Expr.type_of_evaluate hinput hfields hv)
      fun s => (likeMatch_start hplain hp s).symm
  | tail hplain hp =>
    obtain ⟨hinput, rfl⟩ := infer_like ht
    have hfields := Expr.fieldsMatch_call.mp hnext _ List.mem_cons_self
    rw [Expr.like, Expr.endsWith, evaluate_call_text, evaluate_call_text]
    refine bind_congr_ok fun v hv => ?_
    exact stringPredicate_congr (Expr.type_of_evaluate hinput hfields hv)
      fun s => (likeMatch_end hplain hp s).symm
  | utc =>
    obtain ⟨hinput, rfl⟩ := infer_atUtc ht
    rw [Expr.atUtc, Expr.atTimeZone, evaluate_call_text]
    cases hv : next.evaluate row with
    | error fault => rfl
    | ok v => exact (inZone_utc (Expr.type_of_evaluate hinput hnext hv)).symm

/-- A step of the standard rules keeps the meaning of a node. -/
theorem keepsMeaning (h : StandardStep node next) : KeepsMeaning schema node next := by
  rintro t ⟨ht, hfields⟩
  refine ⟨⟨h.keepsType t ht, h.fieldsMatch hfields⟩, ?_⟩
  rintro row rfl
  exact h.evaluate_eq ht hfields

end StandardStep

/-- Lowering by the standard rules keeps the type of every tree that has one, and on every row whose
values have the types that the fields of the tree declare, it keeps the value or the fault. -/
theorem standard_lower_keeps_meaning (e : Expr) (t : ValueType) (h : e.infer = .ok t) :
    (Lowering.standard.lower e).value.infer = .ok t ∧
      ∀ row : List Value, e.FieldsMatch (row.map Value.type) →
        (Lowering.standard.lower e).value.evaluate row = e.evaluate row := by
  refine ⟨(rewrites_standard e).keepsType (fun _ _ hstep => hstep.keepsType) t h, ?_⟩
  intro row hrow
  have hkeeps : KeepsMeaning (row.map Value.type) e (Lowering.standard.lower e).value :=
    (rewrites_standard e).keepsMeaning fun _ _ hstep => hstep.keepsMeaning
  exact (hkeeps t ⟨h, hrow⟩).2 row rfl

/-- A match and a change of zone below a skipping operator, on nulls. -/
theorem standard_lower_keeps_meaning_on_nulls :
    (Lowering.standard.lower (.orElse (.like (.field 0 .string) (.stringLit "Ä%"))
      (.isNull (.atUtc (.atUtc (.field 1 .dateTime)))))).value.evaluate
        [.null .string, .null .dateTime] = .ok (.bool true) :=
  ((standard_lower_keeps_meaning _ .bool rfl).2 _ (by decide)).trans rfl

end QueryParity
