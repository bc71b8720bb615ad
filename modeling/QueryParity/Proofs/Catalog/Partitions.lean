import Mathlib.Data.List.Nodup
import Mathlib.Logic.Function.Basic
import QueryParity.Proofs.Catalog

/-!
# Catalogs partition the declared operators

An operator is accepted if it declares as many input types as its builder takes operands, and the
node over placeholders of these types has the declared result type. A catalog is refused for the
first operator that is not. The operators of an accepted catalog are kept in tables, one for each
result type and number of operands. Every declared operator is in one of them, in the order of
registration, and all ways to look operators up are views of these tables.
-/

namespace QueryParity.Catalog

open Outcome

section Validity

/-- One placeholder for every type, numbered from zero. -/
def placeholders (types : List ValueType) : List Expr :=
  types.zipIdx.map fun (type, i) => .root i type

/-- The node over some operands, if the builder takes as many. -/
def Builder.node? : Builder → List Expr → Option Expr
  | .unary build, [operand] => some (build operand)
  | .binary build, [lhs, rhs] => some (build lhs rhs)
  | _, _ => none

namespace Descriptor

variable {d : Descriptor} {entry : Entry} {error : ConfigError}

/-- The node over placeholders of the declared input types. -/
def sample? (d : Descriptor) : Option Expr := d.builder.node? (placeholders d.inputs)

/-- A declaration that agrees with its builder. -/
structure Valid (d : Descriptor) : Prop where
  /-- There are as many input types as operands. -/
  length_inputs : d.inputs.length = d.builder.arity
  /-- The node has the declared type. -/
  infer_sample : ∃ node, d.sample? = some node ∧ node.infer = .ok d.result

/-- What is wrong with a declaration that does not agree with its builder. -/
inductive Flaw (d : Descriptor) : ConfigError → Prop
  /-- There are more or fewer input types than operands. -/
  | arity : d.inputs.length ≠ d.builder.arity →
      Flaw d (.arityMismatch d.name d.inputs.length d.builder.arity)
  /-- The node has no type. -/
  | illTyped {node : Expr} {reason : TypeError} : d.sample? = some node →
      node.infer = .error reason → Flaw d (.illTypedOperator d.name reason)
  /-- The node has another type. -/
  | result {node : Expr} {inferred : ValueType} : d.sample? = some node →
      node.infer = .ok inferred → inferred ≠ d.result →
      Flaw d (.resultTypeMismatch d.name d.result inferred)

end Descriptor

/-- The declaration of an operator with two operands. -/
def BinaryEntry.descriptor (e : BinaryEntry) : Descriptor :=
  ⟨e.name, [e.lhs, e.rhs], e.result, .binary e.build⟩

/-- The declaration of an operator with one operand. -/
def UnaryEntry.descriptor (e : UnaryEntry) : Descriptor :=
  ⟨e.name, [e.input], e.result, .unary e.build⟩

/-- The declaration of an operator. -/
def Entry.descriptor : Entry → Descriptor
  | .binary e => e.descriptor
  | .unary e => e.descriptor

@[simp] theorem Entry.result_descriptor (e : Entry) : e.descriptor.result = e.result := by
  cases e <;> rfl

@[simp] theorem Entry.inputs_descriptor (e : Entry) : e.descriptor.inputs = e.inputs := by
  cases e <;> rfl

/-- The sample of a declaration is that of its operator. -/
theorem Entry.sample?_descriptor (e : Entry) : e.descriptor.sample? = some e.sample := by
  cases e <;> rfl

/-- An operator declares as many input types as it has operands. -/
theorem Entry.length_inputs_descriptor (e : Entry) :
    e.descriptor.inputs.length = e.descriptor.builder.arity := by
  cases e <;> rfl

namespace Descriptor

variable {d : Descriptor} {e : Entry} {error : ConfigError}

/-- The operator that is declared has this declaration. -/
theorem declared?_eq_some_iff : d.declared? = some e ↔ e.descriptor = d := by
  constructor
  · intro h
    obtain ⟨name, inputs, result, builder⟩ := d
    cases builder with
    | unary build =>
      obtain _ | ⟨input, _ | ⟨_, _⟩⟩ := inputs <;> cases h
      rfl
    | binary build =>
      obtain _ | ⟨lhs, _ | ⟨rhs, _ | ⟨_, _⟩⟩⟩ := inputs <;> cases h
      rfl
  · rintro rfl
    cases e <;> rfl

/-- An operator that is declared has a sample, and nothing else has one. -/
theorem sample?_eq_some_iff {node : Expr} :
    d.sample? = some node ↔ ∃ e : Entry, e.descriptor = d ∧ e.sample = node := by
  constructor
  · intro h
    obtain ⟨name, inputs, result, builder⟩ := d
    cases builder with
    | unary build =>
      obtain _ | ⟨input, _ | ⟨_, _⟩⟩ := inputs <;> cases h
      exact ⟨.unary ⟨name, input, result, build⟩, rfl, rfl⟩
    | binary build =>
      obtain _ | ⟨lhs, _ | ⟨rhs, _ | ⟨_, _⟩⟩⟩ := inputs <;> cases h
      exact ⟨.binary ⟨name, lhs, rhs, result, build⟩, rfl, rfl⟩
  · rintro ⟨e, rfl, rfl⟩
    exact e.sample?_descriptor

/-- An operator is accepted exactly if its declaration is valid. -/
theorem accept_eq_ok_iff : d.accept = .ok e ↔ d.Valid ∧ e.descriptor = d := by
  constructor
  · intro h
    obtain rfl := declared?_eq_some_iff.mp (declared?_of_accept h)
    exact ⟨⟨e.length_inputs_descriptor, e.sample, e.sample?_descriptor,
      e.result_descriptor ▸ infer_sample_of_accept h⟩, rfl⟩
  · rintro ⟨⟨-, node, hsample, hinfer⟩, rfl⟩
    obtain rfl : e.sample = node := Option.some.inj (e.sample?_descriptor.symm.trans hsample)
    rw [accept, declared?_eq_some_iff.mpr rfl]
    simp only [hinfer, if_true]

/-- Some operator is accepted exactly if the declaration is valid. -/
theorem exists_accept_iff : (∃ e, d.accept = .ok e) ↔ d.Valid := by
  constructor
  · rintro ⟨e, h⟩
    exact (accept_eq_ok_iff.mp h).1
  · intro h
    obtain ⟨e, hdeclared⟩ := Option.isSome_iff_exists.mp (declared?_isSome_iff.mpr h.length_inputs)
    exact ⟨e, accept_eq_ok_iff.mpr ⟨h, declared?_eq_some_iff.mp hdeclared⟩⟩

/-- A declaration is refused for its flaw. -/
theorem accept_eq_error_iff : d.accept = .error error ↔ d.Flaw error := by
  constructor
  · intro h
    unfold accept at h
    split at h
    case h_1 hnone =>
      cases h
      refine .arity fun hlength => ?_
      rw [← declared?_isSome_iff, hnone] at hlength
      cases hlength
    case h_2 e hdeclared =>
      have hsample : d.sample? = some e.sample :=
        sample?_eq_some_iff.mpr ⟨e, declared?_eq_some_iff.mp hdeclared, rfl⟩
      split at h
      case h_1 reason hinfer =>
        cases h
        exact .illTyped hsample hinfer
      case h_2 inferred hinfer =>
        split at h
        case isTrue => cases h
        case isFalse hne =>
          cases h
          exact .result hsample hinfer hne
  · intro h
    unfold accept
    cases h with
    | arity hlength =>
      rw [ne_eq, ← declared?_isSome_iff, Option.not_isSome_iff_eq_none] at hlength
      rw [hlength]
    | illTyped hsample hinfer =>
      obtain ⟨e, he, rfl⟩ := sample?_eq_some_iff.mp hsample
      rw [declared?_eq_some_iff.mpr he]
      simp only [hinfer]
    | result hsample hinfer hne =>
      obtain ⟨e, he, rfl⟩ := sample?_eq_some_iff.mp hsample
      rw [declared?_eq_some_iff.mpr he]
      simp only [hinfer, if_neg hne]

end Descriptor

variable {ds : List Descriptor} {c : Catalog}

/-- The operators of a catalog have the declarations that it was put together from. -/
theorem map_descriptor_entries (h : ofDescriptors ds = .ok c) :
    c.entries.map Entry.descriptor = ds := by
  have hentries := mapM_eq_ok_iff.mp (ofDescriptors_eq_ok_iff.mp h)
  rw [← List.forall₂_eq_eq_eq, List.forall₂_map_left_iff]
  exact List.Forall₂.flip (hentries.imp fun d e he => (Descriptor.accept_eq_ok_iff.mp he).2)

/-- A catalog can be put together exactly if every declaration is valid. -/
theorem exists_ofDescriptors_iff : (∃ c, ofDescriptors ds = .ok c) ↔ ∀ d ∈ ds, d.Valid := by
  constructor
  · rintro ⟨c, h⟩ d hd
    rw [← map_descriptor_entries h] at hd
    obtain ⟨e, he, rfl⟩ := List.mem_map.mp hd
    obtain ⟨d, -, haccept⟩ := exists_descriptor_of_ofDescriptors h e he
    obtain ⟨hvalid, rfl⟩ := Descriptor.accept_eq_ok_iff.mp haccept
    exact hvalid
  · intro h
    cases hentries : ds.mapM Descriptor.accept with
    | ok entries => exact ⟨⟨entries⟩, ofDescriptors_eq_ok_iff.mpr hentries⟩
    | error error =>
      obtain ⟨before, d, after, rfl, -, hd⟩ := mapM_eq_error_iff.mp hentries
      obtain ⟨e, he⟩ := Descriptor.exists_accept_iff.mpr (h d (by simp))
      rw [hd] at he
      cases he

/-- A catalog is refused for the first declaration that is not valid. -/
theorem ofDescriptors_eq_error_iff {error : ConfigError} :
    ofDescriptors ds = .error error ↔ ∃ before d after, ds = before ++ d :: after ∧
      (∀ d' ∈ before, d'.Valid) ∧ d.Flaw error := by
  have hentries : ofDescriptors ds = .error error ↔ ds.mapM Descriptor.accept = .error error := by
    rw [ofDescriptors, bind_eq_error_iff]
    exact or_iff_left (by rintro ⟨_, _, h⟩; cases h)
  simp only [hentries, mapM_eq_error_iff, Descriptor.exists_accept_iff,
    Descriptor.accept_eq_error_iff]

end Validity

section Tables

/-- Operators in one table for every result type and number of operands. -/
structure Tables where
  /-- The operators with two operands that yield a type. -/
  binaries : ValueType → List BinaryEntry
  /-- The operators with one operand that yield a type. -/
  unaries : ValueType → List UnaryEntry

namespace Tables

/-- No operators. -/
def empty : Tables := ⟨fun _ => [], fun _ => []⟩

/-- One more operator at the end of its table. -/
def push (t : Tables) : Entry → Tables
  | .binary e =>
    { t with binaries := Function.update t.binaries e.result (t.binaries e.result ++ [e]) }
  | .unary e =>
    { t with unaries := Function.update t.unaries e.result (t.unaries e.result ++ [e]) }

/-- A declared operator is put into its table if it is accepted. -/
def register (t : Tables) (d : Descriptor) : Except ConfigError Tables := do
  let entry ← d.accept
  .ok (t.push entry)

/-- The operator with the given number among those that yield a type, if there is one. A number that
is not one of the first table is reduced by the length of that table, which has no result if it
would become negative. -/
def nth? (t : Tables) (type : ValueType) (n : Nat) : Option (Option Entry) :=
  match (t.binaries type)[n]? with
  | some e => some (some (.binary e))
  | none =>
    if (t.binaries type).length ≤ n then
      some ((t.unaries type)[n - (t.binaries type).length]?.map .unary)
    else none

/-- The types of the operands and the results, table by table. -/
def mentioned (t : Tables) : List ValueType :=
  (ValueType.all.flatMap fun result =>
      (t.binaries result).flatMap fun e => [result, e.lhs, e.rhs]) ++
    ValueType.all.flatMap fun result => (t.unaries result).flatMap fun e => [result, e.input]

/-- The order in which types are sorted. -/
def precedes (type type' : ValueType) : Bool :=
  ValueType.all.idxOf type ≤ ValueType.all.idxOf type'

/-- Types of which neighbours that are the same are kept once. -/
def dropRepeats : List ValueType → List ValueType
  | type :: next :: types =>
    if type = next then dropRepeats (next :: types) else type :: dropRepeats (next :: types)
  | types => types

/-- The types of the operands and the results, sorted and without repetitions. -/
def valueTypes (t : Tables) : List ValueType := dropRepeats (t.mentioned.mergeSort precedes)

end Tables

/-- The tables of a catalog. -/
def tables (c : Catalog) : Tables := ⟨c.binariesOf, c.unariesOf⟩

variable {ds : List Descriptor} {c : Catalog} {type : ValueType}

/-- An operator with two operands at the end of a catalog. -/
theorem binaries_concat (entries : List Entry) (e : BinaryEntry) :
    binaries ⟨entries ++ [.binary e]⟩ = binaries ⟨entries⟩ ++ [e] ∧
      unaries ⟨entries ++ [.binary e]⟩ = unaries ⟨entries⟩ := by
  simp [binaries, unaries]

/-- An operator with one operand at the end of a catalog. -/
theorem unaries_concat (entries : List Entry) (e : UnaryEntry) :
    unaries ⟨entries ++ [.unary e]⟩ = unaries ⟨entries⟩ ++ [e] ∧
      binaries ⟨entries ++ [.unary e]⟩ = binaries ⟨entries⟩ := by
  simp [binaries, unaries]

/-- Choosing by type puts one more operator at the end of the choice for its type. -/
theorem filter_concat_eq_update {α : Type} (result : α → ValueType) (xs : List α) (x : α) :
    (fun type => (xs ++ [x]).filter fun y => result y = type) =
      Function.update (fun type => xs.filter fun y => result y = type) (result x)
        ((xs.filter fun y => result y = result x) ++ [x]) := by
  funext type
  by_cases htype : type = result x
  · subst htype
    simp
  · simp [Function.update_of_ne htype, Ne.symm htype]

/-- An operator at the end of a catalog is at the end of its table. -/
theorem tables_concat (entries : List Entry) (e : Entry) :
    tables ⟨entries ++ [e]⟩ = (tables ⟨entries⟩).push e := by
  cases e with
  | binary e =>
    obtain ⟨hbinaries, hunaries⟩ := binaries_concat entries e
    have htable := filter_concat_eq_update BinaryEntry.result (binaries ⟨entries⟩) e
    rw [← hbinaries] at htable
    simp only [tables, Tables.push, Tables.mk.injEq]
    exact ⟨htable, funext fun type => congrArg (List.filter _) hunaries⟩
  | unary e =>
    obtain ⟨hunaries, hbinaries⟩ := unaries_concat entries e
    have htable := filter_concat_eq_update UnaryEntry.result (unaries ⟨entries⟩) e
    rw [← hunaries] at htable
    simp only [tables, Tables.push, Tables.mk.injEq]
    exact ⟨funext fun type => congrArg (List.filter _) hbinaries, htable⟩

/-- Operators that are registered one after the other make up the tables of the catalog. -/
theorem foldlM_register (ds : List Descriptor) (entries : List Entry) :
    ds.foldlM Tables.register (tables ⟨entries⟩) =
      (ds.mapM Descriptor.accept).map fun rest => tables ⟨entries ++ rest⟩ := by
  induction ds generalizing entries with
  | nil => exact congrArg (fun all => Except.ok (tables ⟨all⟩)) (List.append_nil entries).symm
  | cons d ds ih =>
    rw [List.foldlM_cons, List.mapM_cons, Tables.register]
    cases d.accept with
    | error e => rfl
    | ok e =>
      rw [ok_bind, ok_bind, ← tables_concat, ih, ok_bind]
      cases ds.mapM Descriptor.accept with
      | error e => rfl
      | ok rest =>
        exact congrArg (fun all => Except.ok (tables ⟨all⟩)) (List.append_assoc entries [e] rest)

/-- Operators that are registered one after the other, from none on, make up the tables of the
catalog, or fail as it does. -/
theorem foldlM_register_empty (ds : List Descriptor) :
    ds.foldlM Tables.register .empty = (ofDescriptors ds).map tables := by
  have hrun := foldlM_register ds []
  rw [ofDescriptors]
  cases hentries : ds.mapM Descriptor.accept <;> rw [hentries] at hrun <;> exact hrun

/-- The numbered look-up in the tables never goes below zero, and finds the operators in the order
in which they are listed. -/
theorem nth?_tables (c : Catalog) (type : ValueType) (n : Nat) :
    c.tables.nth? type n = some (c.nthOf? type n) := by
  simp only [Tables.nth?, tables, nthOf?, operatorsOf, List.getElem?_append, List.getElem?_map,
    List.length_map]
  by_cases hn : n < (c.binariesOf type).length
  · rw [List.getElem?_eq_getElem hn, if_pos hn]
    rfl
  · have hle : (c.binariesOf type).length ≤ n := Nat.le_of_not_lt hn
    rw [List.getElem?_eq_none hle, if_neg hn]
    exact if_pos hle

/-- The numbers below the number of operators list each of them once. -/
theorem map_nthOf?_range (c : Catalog) (type : ValueType) :
    (List.range (c.countOf type)).map (c.nthOf? type) = (c.operatorsOf type).map some := by
  refine List.ext_getElem (by simp [countOf]) fun i _ hi => ?_
  rw [List.length_map] at hi
  simp [nthOf?, List.getElem?_eq_getElem hi]

/-- The operators with two operands are those whose builder takes two. -/
theorem map_binary_binaries (c : Catalog) :
    c.binaries.map .binary = c.entries.filter fun e => e.descriptor.builder.arity = 2 := by
  obtain ⟨entries⟩ := c
  induction entries with
  | nil => rfl
  | cons e entries ih =>
    cases e with
    | binary e => exact congrArg (Entry.binary e :: ·) ih
    | unary e => exact ih

/-- The operators with one operand are those whose builder takes one. -/
theorem map_unary_unaries (c : Catalog) :
    c.unaries.map .unary = c.entries.filter fun e => e.descriptor.builder.arity = 1 := by
  obtain ⟨entries⟩ := c
  induction entries with
  | nil => rfl
  | cons e entries ih =>
    cases e with
    | binary e => exact ih
    | unary e => exact congrArg (Entry.unary e :: ·) ih

/-- Operators with one number of operands, chosen by their declaration, have the declarations that
are chosen among all. -/
theorem map_descriptor_filter {α : Type} {xs : List α} {wrap : α → Entry} {arity : Nat}
    (h : xs.map wrap = c.entries.filter fun e => e.descriptor.builder.arity = arity)
    (hc : ofDescriptors ds = .ok c) (p : Descriptor → Prop) [DecidablePred p] :
    (xs.filter fun x => p (wrap x).descriptor).map (fun x => (wrap x).descriptor) =
      ds.filter fun d => d.builder.arity = arity ∧ p d := by
  calc (xs.filter fun x => p (wrap x).descriptor).map (fun x => (wrap x).descriptor)
      = ((xs.map wrap).filter fun e => p e.descriptor).map Entry.descriptor := by
        rw [List.filter_map, List.map_map]
        rfl
    _ = (c.entries.map Entry.descriptor).filter fun d => d.builder.arity = arity ∧ p d := by
        rw [h, List.filter_filter, List.filter_map]
        simp only [Function.comp_def, Bool.decide_and, Bool.and_comm]
    _ = ds.filter fun d => d.builder.arity = arity ∧ p d := by rw [map_descriptor_entries hc]

/-- Choosing by one type after the other chooses the same as choosing by all of them. -/
theorem flatMap_filter_perm {α : Type} (result : α → ValueType) (xs : List α)
    {types : List ValueType} (h : types.Nodup) :
    (types.flatMap fun type => xs.filter fun x => result x = type).Perm
      (xs.filter fun x => result x ∈ types) := by
  induction types with
  | nil => simp
  | cons type types ih =>
    obtain ⟨hnotMem, hnodup⟩ := List.nodup_cons.mp h
    have hsplit := List.filter_append_perm (fun x => result x = type)
      (xs.filter fun x => result x ∈ type :: types)
    rw [List.flatMap_cons]
    refine ((ih hnodup).append_left _).trans (List.Perm.trans (.of_eq ?_) hsplit)
    rw [List.filter_filter, List.filter_filter]
    congr 1
    · refine List.filter_congr fun x _ => ?_
      by_cases hx : result x = type <;> simp [hx]
    · refine List.filter_congr fun x _ => ?_
      by_cases hx : result x = type <;> simp [hx, hnotMem]

/-- Every operator that accepts a type is listed once. -/
theorem unariesAccepting_perm (c : Catalog) (type : ValueType) :
    (c.unariesAccepting type).Perm (c.unaries.filter fun e => e.input = type) := by
  have hall := flatMap_filter_perm UnaryEntry.result c.unaries ValueType.nodup_all
  have hevery : (c.unaries.filter fun e => e.result ∈ ValueType.all) = c.unaries := by simp
  rw [hevery] at hall
  exact hall.filter _

/-- The types in the tables of a catalog are those that its operators mention. -/
theorem mem_mentioned_tables : type ∈ c.tables.mentioned ↔ ∃ e ∈ c.entries, e.mentions type := by
  have hmentions (e : Entry) : e.mentions type = true ↔ type ∈ e.result :: e.inputs := by
    rw [Entry.mentions, Bool.or_eq_true, decide_eq_true_eq, List.contains_iff_mem, List.mem_cons,
      eq_comm]
  simp only [Tables.mentioned, tables, List.mem_append, List.mem_flatMap, hmentions]
  constructor
  · rintro (⟨result, -, e, he, htype⟩ | ⟨result, -, e, he, htype⟩)
    · obtain ⟨hentry, rfl⟩ := mem_operatorsOf.mp
        (List.mem_append_left _ (List.mem_map_of_mem (f := Entry.binary) he))
      exact ⟨.binary e, hentry, htype⟩
    · obtain ⟨hentry, rfl⟩ := mem_operatorsOf.mp
        (List.mem_append_right _ (List.mem_map_of_mem (f := Entry.unary) he))
      exact ⟨.unary e, hentry, htype⟩
  · rintro ⟨e, he, htype⟩
    cases e with
    | binary e => exact .inl ⟨e.result, ValueType.mem_all _, e, mem_binariesOf he, htype⟩
    | unary e => exact .inr ⟨e.result, ValueType.mem_all _, e, mem_unariesOf he, htype⟩

/-- Types that are dropped are still there. -/
theorem mem_dropRepeats {types : List ValueType} :
    type ∈ Tables.dropRepeats types ↔ type ∈ types := by
  fun_induction Tables.dropRepeats types with
  | case1 next types ih =>
    rw [ih]
    simp
  | case2 first next types hne ih =>
    rw [List.mem_cons, ih]
    exact List.mem_cons.symm
  | case3 types => rfl

/-- Sorted types are in strict order when neighbours that are the same are kept once. -/
theorem pairwise_dropRepeats {types : List ValueType}
    (h : types.Pairwise fun type type' => Tables.precedes type type' = true) :
    (Tables.dropRepeats types).Pairwise fun type type' =>
      ValueType.all.idxOf type < ValueType.all.idxOf type' := by
  fun_induction Tables.dropRepeats types with
  | case1 next types ih => exact ih h.tail
  | case2 first next types hne ih =>
    obtain ⟨hfirst, hrest⟩ := List.pairwise_cons.mp h
    refine List.pairwise_cons.mpr ⟨fun type htype => ?_, ih hrest⟩
    have hnext : ValueType.all.idxOf first < ValueType.all.idxOf next := by
      have hle := of_decide_eq_true (hfirst next List.mem_cons_self)
      have hinj : ValueType.all.idxOf first ≠ ValueType.all.idxOf next := by
        intro heq
        exact hne ((List.idxOf_inj (ValueType.mem_all first)).mp heq)
      omega
    obtain rfl | hlater := List.mem_cons.mp (mem_dropRepeats.mp htype)
    · exact hnext
    · have hle := of_decide_eq_true ((List.pairwise_cons.mp hrest).1 type hlater)
      omega
  | case3 types hshort =>
    obtain _ | ⟨type, _ | ⟨next, types⟩⟩ := types
    · exact List.Pairwise.nil
    · exact List.pairwise_singleton _ _
    · exact (hshort _ _ _ rfl).elim

end Tables

section Partition

variable {ds : List Descriptor} {c : Catalog} {type : ValueType}

/-- The operators of a type, looked up in a catalog, against the declared ones. -/
structure Partitions (ds : List Descriptor) (c : Catalog) (type : ValueType) : Prop where
  /-- The operators with two operands are the declared ones with this result, in order. -/
  binaries : (c.binariesOf type).map BinaryEntry.descriptor =
    ds.filter fun d => d.builder.arity = 2 ∧ d.result = type
  /-- So are those with one operand. -/
  unaries : (c.unariesOf type).map UnaryEntry.descriptor =
    ds.filter fun d => d.builder.arity = 1 ∧ d.result = type
  /-- Their number is that of both tables. -/
  count : c.countOf type = (c.binariesOf type).length + (c.unariesOf type).length
  /-- The numbers below it list every operator once, those with two operands first. -/
  numbered : (List.range (c.countOf type)).map (c.nthOf? type) =
    (c.binariesOf type).map (fun e => some (.binary e)) ++
      (c.unariesOf type).map (fun e => some (.unary e))
  /-- There is no operator with another number. -/
  beyond : ∀ n, c.countOf type ≤ n → c.nthOf? type n = none
  /-- No number is reduced below zero. -/
  checked : ∀ n, c.tables.nth? type n = some (c.nthOf? type n)
  /-- Every declared operator that accepts the type is listed once. -/
  accepting : ((c.unariesAccepting type).map UnaryEntry.descriptor).Perm
    (ds.filter fun d => d.builder.arity = 1 ∧ d.inputs = [type])

/-- The look-ups of an accepted catalog list the declared operators. -/
theorem partitions_of_ofDescriptors (h : ofDescriptors ds = .ok c) (type : ValueType) :
    Partitions ds c type where
  binaries := map_descriptor_filter c.map_binary_binaries h (·.result = type)
  unaries := map_descriptor_filter c.map_unary_unaries h (·.result = type)
  count := by simp [countOf, operatorsOf]
  numbered := by
    rw [map_nthOf?_range, operatorsOf, List.map_append, List.map_map, List.map_map]
    rfl
  beyond n hn := List.getElem?_eq_none hn
  checked := c.nth?_tables type
  accepting := by
    have hdeclared := map_descriptor_filter c.map_unary_unaries h (·.inputs = [type])
    have hinput (e : UnaryEntry) : e.descriptor.inputs = [type] ↔ e.input = type := by
      rw [UnaryEntry.descriptor, List.singleton_inj]
    rw [← hdeclared]
    simp only [Entry.descriptor, hinput]
    exact (c.unariesAccepting_perm type).map _

/-- The types of a catalog are listed in their order, none of them twice. -/
theorem pairwise_valueTypes (c : Catalog) : c.valueTypes.Pairwise fun type type' =>
    ValueType.all.idxOf type < ValueType.all.idxOf type' := by
  have hall : ValueType.all.Pairwise fun type type' =>
      ValueType.all.idxOf type < ValueType.all.idxOf type' := by decide
  exact hall.filter _

/-- The types of a catalog are those in its tables, sorted and without repetitions. -/
theorem valueTypes_tables (c : Catalog) : c.tables.valueTypes = c.valueTypes := by
  have hsorted : (c.tables.mentioned.mergeSort Tables.precedes).Pairwise fun type type' =>
      Tables.precedes type type' = true :=
    List.pairwise_mergeSort (by simp only [Tables.precedes, decide_eq_true_eq]; omega)
      (by simp only [Tables.precedes, Bool.or_eq_true, decide_eq_true_eq]; omega) _
  have hstrict := pairwise_dropRepeats hsorted
  have hmem (type : ValueType) : type ∈ c.tables.valueTypes ↔ type ∈ c.valueTypes := by
    rw [Tables.valueTypes, mem_dropRepeats, List.mem_mergeSort, mem_mentioned_tables,
      mem_valueTypes]
  have hnodup {types : List ValueType} (h : types.Pairwise fun type type' =>
      ValueType.all.idxOf type < ValueType.all.idxOf type') : types.Nodup :=
    h.imp fun hlt heq => by rw [heq] at hlt; exact Nat.lt_irrefl _ hlt
  refine List.Perm.eq_of_pairwise (fun type type' _ _ hlt hgt => ?_) hstrict c.pairwise_valueTypes
    ((List.perm_ext_iff_of_nodup (hnodup hstrict) (hnodup c.pairwise_valueTypes)).mpr hmem)
  omega

/-- The types of a catalog are those that a declaration mentions. -/
theorem mem_valueTypes_iff (h : ofDescriptors ds = .ok c) :
    type ∈ c.valueTypes ↔ ∃ d ∈ ds, d.result = type ∨ type ∈ d.inputs := by
  rw [mem_valueTypes, ← map_descriptor_entries h]
  simp [Entry.mentions]

/-- A catalog can be put together exactly if every declared operator has as many input types as
operands and a node of the declared type, and is refused for the first one that has not. What is
registered step by step are its tables. For every type they list the declared operators with that
result, by their number of operands and in the order of registration; the numbers below their count
list each of them once, and no look-up goes below zero. The operators that accept a type are listed
once each, and the types of the catalog are those of the operands and the results, collected table
by table, in increasing order. -/
theorem declared_operators_are_partitioned (ds : List Descriptor) :
    ((∃ c, ofDescriptors ds = .ok c) ↔ ∀ d ∈ ds, d.Valid) ∧
    (∀ error, ofDescriptors ds = .error error ↔ ∃ before d after, ds = before ++ d :: after ∧
      (∀ d' ∈ before, d'.Valid) ∧ d.Flaw error) ∧
    ds.foldlM Tables.register .empty = (ofDescriptors ds).map tables ∧
    ∀ c, ofDescriptors ds = .ok c →
      (∀ type, Partitions ds c type) ∧
      c.tables.valueTypes = c.valueTypes ∧
      (c.valueTypes.Pairwise fun type type' =>
        ValueType.all.idxOf type < ValueType.all.idxOf type') ∧
      ∀ type, type ∈ c.valueTypes ↔ ∃ d ∈ ds, d.result = type ∨ type ∈ d.inputs :=
  ⟨exists_ofDescriptors_iff, fun _ => ofDescriptors_eq_error_iff, foldlM_register_empty ds,
    fun c h => ⟨partitions_of_ofDescriptors h, c.valueTypes_tables, c.pairwise_valueTypes,
      fun _ => mem_valueTypes_iff h⟩⟩

/-- Operators of both kinds, not sorted by their result. -/
def mixedDescriptors : List Descriptor :=
  [.unary "Not" .bool .bool .not, .binary "Add" .int .int .int .add,
    .unary "IsNull" .int .bool .isNull, .binary "LessThan" .int .int .bool .lessThan,
    .unary "Negate" .int .int .negate]

/-- These operators are accepted. The comparison is the first one of the three with a boolean result
although it was registered last, and the null test and the negation accept integers. A comparison
that declares an integer as its result is refused after them. -/
theorem mixed_operators_are_partitioned :
    (∃ c, ofDescriptors mixedDescriptors = .ok c ∧
      (List.range (c.countOf .bool)).map (fun n => (c.nthOf? .bool n).map Entry.name) =
        [some "LessThan", some "Not", some "IsNull"] ∧
      c.nthOf? .bool 3 = none ∧
      ((c.unariesAccepting .int).map UnaryEntry.descriptor).Perm
        [.unary "IsNull" .int .bool .isNull, .unary "Negate" .int .int .negate] ∧
      ValueType.int ∈ c.valueTypes ∧ ValueType.string ∉ c.valueTypes) ∧
    ofDescriptors (mixedDescriptors ++ [.binary "Equal" .bool .bool .int .equal]) =
      .error (.resultTypeMismatch "Equal" .int .bool) := by
  obtain ⟨haccepted, -, -, hviews⟩ := declared_operators_are_partitioned mixedDescriptors
  obtain ⟨-, hrefused, -, -⟩ := declared_operators_are_partitioned
    (mixedDescriptors ++ [.binary "Equal" .bool .bool .int .equal])
  obtain ⟨c, hc⟩ : ∃ c, ofDescriptors mixedDescriptors = .ok c := ⟨_, rfl⟩
  obtain ⟨hpartitions, -, -, hmem⟩ := hviews c hc
  have hcount : c.countOf .bool = 3 := by
    cases hc
    rfl
  constructor
  · refine ⟨c, hc, ?_, (hpartitions .bool).beyond 3 (Nat.le_of_eq hcount),
      (hpartitions .int).accepting, ?_, ?_⟩
    · have hnames := congrArg (List.map (Option.map Entry.name)) (hpartitions .bool).numbered
      rw [List.map_map] at hnames
      refine hnames.trans ?_
      cases hc
      rfl
    · rw [hmem]
      decide
    · rw [hmem]
      decide
  · exact (hrefused _).mpr ⟨mixedDescriptors, _, [], rfl, haccepted.mp ⟨c, hc⟩,
      .result rfl rfl (by decide)⟩

end Partition

end QueryParity.Catalog
