import TableQuery.Proofs.Access.Gate
import TableQuery.Proofs.Batch.Requests
import TableQuery.Proofs.Stage.Binding

/-!
# Where a batch takes its rows from

The tables that a batch can ask for can be read off its statements, without a look at
any data: those that its atoms name, for the rows of a statement and for what its
relations lead to, and those that are written as the table argument of a stage
(`TableQuery.Executor.everyFetch_run_sources`). Of a stage only one argument is meant
by this, and it may be given by position or by name
(`TableQuery.StageCall.tableArguments`). It has to be given as a string: a stage takes
a number or a truth value for its text as well.
-/

namespace TableQuery

open Fetching (EveryFetch everyFetch_lift_bind)

/-! ### Bound arguments -/

namespace Signature

variable {s : Signature}

/-- **Where a bound value comes from**: it was bound before, or an argument is read as
it, which was given under the name of its parameter or at its position among the
arguments without a name. -/
theorem exists_of_bindFrom {args : List Argument} {position : Nat} {bound final : Arguments}
    (h : s.bindFrom position bound args = .ok final) {name : String} {value : Json}
    (hvalue : final.get? name = some value) :
    bound.get? name = some value ∨
      ∃ front a rest, args = front ++ a :: rest ∧ ∃ p ∈ s.parameters, p.name = name ∧
        p.kind.coerce? a.value = some value ∧
        (a.name = some name ∨
          (a.name = none ∧
            s.parameters[position + front.countP fun b => b.name.isNone]? = some p)) := by
  induction args generalizing position bound with
  | nil =>
    obtain rfl := Except.ok.inj h
    exact Or.inl hvalue
  | cons a rest ih =>
    obtain ⟨p, next, read, hp, -, hread, h⟩ := bindFrom_cons_eq_ok_iff.mp h
    rcases ih h with hbound | ⟨front, b, after, hrest, q, hq, hname, hcoerce, hgiven⟩
    · rw [Fields.get?_insert] at hbound
      split at hbound
      · -- this is the argument
        rename_i heq
        obtain rfl := Option.some.inj hbound
        refine Or.inr ⟨[], a, rest, rfl, p, ?_⟩
        by_cases hpos : a.isPositional = true
        · obtain ⟨hposition, -⟩ := (parameterFor_eq_ok_of_pos hpos).mp hp
          exact ⟨List.mem_of_getElem? hposition, heq.symm, hread,
            Or.inr ⟨Option.isNone_iff_eq_none.mp hpos, hposition⟩⟩
        · obtain ⟨hmem, ha⟩ := mem_of_named? ((parameterFor_eq_ok_of_neg hpos).mp hp).1
          exact ⟨hmem, heq.symm, hread, Or.inl (by rw [ha, heq])⟩
      · exact Or.inl hbound
    · -- it is one of the others, whose positions go on behind this one
      refine Or.inr ⟨a :: front, b, after, by rw [hrest]; rfl, q, hq, hname, hcoerce, ?_⟩
      refine hgiven.imp_right fun ⟨hb, hposition⟩ => ⟨hb, ?_⟩
      by_cases hpos : a.isPositional = true
      · obtain ⟨-, rfl⟩ := (parameterFor_eq_ok_of_pos hpos).mp hp
        rw [List.countP_cons_of_pos (by exact hpos), Nat.add_comm (List.countP ..) 1,
          ← Nat.add_assoc]
        exact hposition
      · obtain ⟨-, rfl⟩ := (parameterFor_eq_ok_of_neg hpos).mp hp
        rw [List.countP_cons_of_neg (by exact hpos)]
        exact hposition

end Signature

/-! ### Stages -/

namespace StageCall

/-- What a call gives for a table: the values under that name, and the first value without
a name. -/
def tableArguments (call : StageCall) : List Json :=
  (call.arguments.filter fun a => a.name == some "table").map Argument.value ++
    (call.arguments.find? fun a => a.name.isNone).toList.map Argument.value

/-- The tables that a call gives as strings. -/
def tables (call : StageCall) : List String :=
  call.tableArguments.filterMap Json.str?

/-- An argument is a table argument under that name, or as the first one without a name. -/
theorem mem_tableArguments {call : StageCall} {front rest : List Argument} {a : Argument}
    (hcall : call.arguments = front ++ a :: rest)
    (h : a.name = some "table" ∨
      (a.name = none ∧ front.countP (fun b => b.name.isNone) = 0)) :
    a.value ∈ call.tableArguments := by
  rcases h with hname | ⟨hname, hfront⟩
  · have ha : a ∈ call.arguments := by rw [hcall]; simp
    exact List.mem_append_left _
      (List.mem_map_of_mem (List.mem_filter.mpr ⟨ha, by simp [hname]⟩))
  · have hfind : call.arguments.find? (fun b => b.name.isNone) = some a := by
      rw [hcall, List.find?_append, List.find?_eq_none.mpr (List.countP_eq_zero.mp hfront)]
      simp [hname]
    refine List.mem_append_right _ (List.mem_map_of_mem ?_)
    rw [hfind]
    exact List.mem_singleton_self a

/-- What stands among the table arguments is the value of an argument. -/
theorem exists_argument_of_mem {call : StageCall} {value : Json}
    (h : value ∈ call.tableArguments) : ∃ a ∈ call.arguments, a.value = value := by
  rcases List.mem_append.mp h with h | h
  · obtain ⟨a, ha, rfl⟩ := List.mem_map.mp h
    exact ⟨a, (List.mem_filter.mp ha).1, rfl⟩
  · obtain ⟨a, ha, rfl⟩ := List.mem_map.mp h
    exact ⟨a, List.mem_of_find?_eq_some (Option.mem_toList.mp ha), rfl⟩

end StageCall

namespace Builtin

/-- The stage that loads rows takes its table from one of the table arguments. -/
theorem mem_tables_of_bindArguments {call : StageCall} {args : Arguments} {table : String}
    (hargs : load.signature.bindArguments call.arguments = .ok args)
    (hstrings : ∀ value ∈ call.tableArguments, ∃ text, value = .str text)
    (htable : args.string? "table" = some table) : table ∈ call.tables := by
  obtain ⟨value, hvalue, hstr⟩ := Option.bind_eq_some_iff.mp htable
  rcases Signature.exists_of_bindFrom (Signature.bindArguments_eq_ok_iff.mp hargs).1 hvalue with
    hnone | ⟨front, a, rest, hcall, p, hp, hname, hcoerce, hgiven⟩
  · cases hnone
  -- the parameter is the first of the two
  have hparameter : p = requiredString "table" ∧
      ∀ n, load.signature.parameters[n]? = some p → n = 0 := by
    rcases List.mem_pair.mp hp with rfl | rfl
    · refine ⟨rfl, fun n hn => ?_⟩
      rcases n with _ | _ | n
      · rfl
      · exact absurd hn (by decide)
      · cases hn
    · exact absurd hname (by decide)
  have hmem : a.value ∈ call.tableArguments := by
    refine StageCall.mem_tableArguments hcall (hgiven.imp_right fun ⟨hnone, hposition⟩ => ?_)
    have hzero := hparameter.2 _ hposition
    exact ⟨hnone, by omega⟩
  obtain ⟨text, htext⟩ := hstrings _ hmem
  -- a string is bound as it is
  rw [hparameter.1, htext] at hcoerce
  obtain rfl : Json.str text = value := Option.some.inj hcoerce
  obtain rfl := Option.some.inj hstr
  exact List.mem_filterMap.mpr ⟨_, hmem, by rw [htext]; rfl⟩

theorem everyFetch_fetchRows_of {P : FetchCall → Prop} {call : FetchCall} (h : P call)
    (scope : StageScope) : EveryFetch P (fetchRows scope call) := by
  unfold fetchRows
  refine everyFetch_lift_bind fun _ _ => everyFetch_lift_bind fun _ _ =>
    everyFetch_lift_bind fun t _ => ?_
  split
  · exact .failed _
  · exact everyFetch_lift_bind fun _ _ => .request h

/-- The stage that loads rows asks for rows of the table that it is given. -/
theorem everyFetch_loadItems (scope : StageScope) (args : Arguments) (input : Json) :
    EveryFetch (fun call => args.string? "table" = some call.table)
      (loadItems scope args input) :=
  everyFetch_loadItems_of (fun _ _ _ _ htable _ => everyFetch_fetchRows_of htable scope) input

end Builtin

/-! ### Batches -/

/-- The tables that a statement can take rows from: those that its atoms name, and those
that its stages are given. -/
def Statement.sources (s : Statement) : List String :=
  s.tables ++ s.stages.flatMap StageCall.tables

/-- Every call of the stage that loads rows gives its table as a string. -/
def LoadsByString (statements : List Statement) : Prop :=
  ∀ s ∈ statements, ∀ call ∈ s.stages, Registry.builtin.resolve? call.name = some Builtin.load →
    ∀ value ∈ call.tableArguments, ∃ text, value = .str text

namespace Executor

variable {x : Executor} {statements : List Statement}

/-- A built-in stage asks for rows of a table only that its call gives. -/
theorem everyFetch_runStages_tables (hr : x.registry = .builtin) (hloads : LoadsByString statements)
    {s : Statement} (hs : s ∈ statements) (allowed : Option (List String)) (value : Json) :
    EveryFetch (fun call => call.table ∈ s.stages.flatMap StageCall.tables)
      (x.runStages allowed s value) := by
  refine Registry.everyFetch_runPipeline_of (fun call hcall stage args hstage hargs input => ?_) _ _
  rw [hr, Registry.resolve_eq_ok] at hstage
  by_cases hload : stage = Builtin.load
  · subst hload
    refine (Builtin.everyFetch_loadItems _ args input).mono fun fetch htable => ?_
    exact List.mem_flatMap.mpr ⟨call, hcall,
      Builtin.mem_tables_of_bindArguments hargs (hloads s hs call hcall hstage) htable⟩
  · have hbuiltin := Registry.mem_all_of_resolve? hstage
    exact Builtin.everyFetch_of_ne_load hbuiltin hload _ args input

/-- **A batch takes its rows from its sources**, whatever it finds. -/
theorem everyFetch_run_sources (hr : x.registry = .builtin) (hloads : LoadsByString statements)
    (allowed : Option (List String)) :
    EveryFetch (fun call => ∃ s ∈ statements, call.table ∈ s.sources)
      (x.run statements allowed) := by
  refine everyFetch_runFrom_of (fun s hs => ?_) {}
  refine {
    rows := fun t columns hplan => ?_
    relations := fun direction source target hmem rows => ?_
    stages := fun value => ?_ }
  · have htarget := Statement.mem_tables_of_firstTable? (planned_of_plan hplan).target
    exact ⟨s, hs, List.mem_append_left _ htarget⟩
  · unfold resolveRelation
    split
    · exact .done _
    · rename_i path hpath
      have htarget : path.remoteTable ∈ s.tables := by
        rw [Catalog.remoteTable_of_path? hpath]
        exact List.mem_flatMap.mpr ⟨_, hmem, by simp [Atom.tables]⟩
      refine everyFetch_lift_bind fun _ _ => everyFetch_lift_bind fun _ _ => ?_
      extract_lets probes
      split
      · exact .done _
      · exact .bind (.request ⟨s, hs, List.mem_append_left _ htarget⟩) fun remote => .done _
  · refine (everyFetch_runStages_tables hr hloads hs allowed value).mono fun call hcall => ?_
    exact ⟨s, hs, List.mem_append_right _ hcall⟩

end Executor

end TableQuery
