import Mathlib.Data.List.Induction
import TableQuery.Proofs.Access.Gate
import TableQuery.Proofs.Fetching.Outcomes
import TableQuery.Proofs.Relations.Lookup
import TableQuery.Proofs.Stage.Sorting

/-!
# What the shapes of a pipeline promise

A pipeline is checked before it runs, and the check ends with the shape of what will
come out. This is right but for one case: a sum that no finite double is comes out as
null, where a number was promised, and the stages behind it that keep the shape of
their input take null for an empty list and hand that on. In all other cases a pipeline
that succeeds leads to a value of its shape
(`TableQuery.Registry.admits_runPipeline_iff`).

The last stage of a pipeline is looked at by itself. If it has a shape of its own, its
value has that shape whatever came in, a sum excepted
(`TableQuery.Builtin.admits_of_output`). If it passes the shape of its input on, it
hands on some of the items it gets (`TableQuery.Builtin.exists_kept_items`). What is
true of a whole pipeline follows by taking stages off its end.
-/

namespace TableQuery

/-! ### Values of a shape -/

/-- The value has the shape: a count is a number, rows are an array of objects and values
an array of anything. -/
def Shape.admits : Shape → Json → Bool
  | count, .num _ => true
  | rows, .arr items => items.all fun item => item.fields?.isSome
  | values, .arr _ => true
  | any, _ | posts, _ | unknown, _ => true
  | _, _ => false

theorem Shape.admits_rows_map_obj (rows : List Row) :
    Shape.rows.admits (.arr (rows.map .obj)) = true := by
  simp [admits, Json.fields?]

namespace Builtin

/-! ### Stages that keep the shape of their input -/

variable {stage : Stage} {scope : StageScope} {args : Arguments} {input value : Json}
  {source : FetchCall → FetchAnswer}

/-- **A stage without a shape of its own** wants a list and hands on some of its items. -/
theorem exists_kept_items (hstage : stage ∈ all) (hany : stage.signature.output = .any)
    (h : (stage.run scope args input).outcome source = .ok value) :
    ∃ name items kept, inputItems name input = .ok items ∧ value = .arr kept ∧
      ∀ item ∈ kept, item ∈ items := by
  simp only [all, List.mem_cons, List.not_mem_nil, or_false] at hstage
  rcases hstage with rfl | rfl | rfl | rfl | rfl | rfl | rfl | rfl
  case inr.inr.inr.inr.inl =>
    obtain ⟨descending, -, h⟩ := Fetching.outcome_lift_bind_eq_ok.mp h
    obtain ⟨items, hitems, h⟩ := Fetching.outcome_lift_bind_eq_ok.mp h
    exact ⟨_, items, _, hitems, (Except.ok.inj h).symm, fun _ =>
      (perm_sortBy _ items).mem_iff.mp⟩
  case inr.inr.inr.inr.inr.inl =>
    simp only [limit] at h
    split at h
    · cases h
    · obtain ⟨items, hitems, h⟩ := Fetching.outcome_lift_bind_eq_ok.mp h
      exact ⟨_, items, _, hitems, (Except.ok.inj h).symm, fun _ hitem =>
        List.mem_of_mem_drop (List.mem_of_mem_take hitem)⟩
  case inr.inr.inr.inr.inr.inr.inl =>
    obtain ⟨items, hitems, h⟩ := Fetching.outcome_lift_bind_eq_ok.mp h
    exact ⟨_, items, _, hitems, (Except.ok.inj h).symm, fun _ => Json.mem_of_mem_firstBy⟩
  all_goals cases hany

/-- Some of the items of a value have the shape of the value. -/
theorem admits_of_kept {shape : Shape} (hinput : shape.admits input = true) {name : String}
    {items kept : List Json} (hitems : inputItems name input = .ok items)
    (hkept : ∀ item ∈ kept, item ∈ items) : shape.admits (.arr kept) = true := by
  cases shape with
  | any | posts | unknown | values => rfl
  | rows =>
    cases input with
    | arr given =>
      obtain rfl := Except.ok.inj hitems
      rw [Shape.admits, List.all_eq_true] at hinput ⊢
      exact fun item hitem => hinput item (hkept item hitem)
    | null | bool | num | str | obj => cases hinput
  | count =>
    cases input with
    | num => cases hitems
    | null | bool | str | arr | obj => cases hinput

/-! ### Stages with a shape of their own -/

/-- The total of the numbers among the items, or among their fields. -/
def total (field : Option String) (items : List Json) : Binary64 :=
  Binary64.sum ((items.filterMap (fieldOf? field)).filterMap Json.number?)

/-- A total is written as a number if it is finite. -/
theorem sumItems_cases (field : Option String) (items : List Json) :
    ((total field items).finite? = none ∧ sumItems field items = .null) ∨
      ∃ x n, (total field items).finite? = some x ∧ sumItems field items = .num n := by
  have hsum : sumItems field items =
      ((Number.ofBinary64? (total field items)).map Json.num).getD .null := by
    unfold sumItems total
    dsimp only
    split <;> rename_i h <;> rw [h] <;> rfl
  rw [hsum, Number.ofBinary64?]
  cases (total field items).finite? with
  | none => exact Or.inl ⟨rfl, rfl⟩
  | some x => exact Or.inr ⟨x, _, rfl, rfl⟩

theorem outcome_sum_eq_ok :
    (sum.run scope args input).outcome source = .ok value ↔
      ∃ items, inputItems "sum" input = .ok items ∧
        value = sumItems (args.string? "field") items := by
  change Fetching.outcome (liftM (inputItems "sum" input) >>= _) source = _ ↔ _
  rw [Fetching.outcome_lift_bind_eq_ok]
  exact exists_congr fun items => and_congr_right fun _ => ⟨fun h => (Except.ok.inj h).symm,
    fun h => by rw [h]; rfl⟩

theorem admits_of_loadItems (h : (loadItems scope args input).outcome source = .ok value) :
    Shape.rows.admits value = true := by
  unfold loadItems at h
  split at h
  · cases h
  obtain ⟨t, -, h⟩ := Fetching.outcome_lift_bind_eq_ok.mp h
  obtain ⟨items, -, h⟩ := Fetching.outcome_lift_bind_eq_ok.mp h
  dsimp only at h
  split at h
  · obtain rfl := Except.ok.inj h
    rfl
  split at h
  · cases h
  split at h
  · cases h
  · obtain ⟨rows, -, h⟩ := Fetching.outcome_bind_eq_ok.mp h
    obtain rfl := Except.ok.inj h
    exact Shape.admits_rows_map_obj rows

/-- **A stage with a shape of its own** leads to a value of that shape, whatever comes
in, unless it sums up. -/
theorem admits_of_output (hstage : stage ∈ all) (hown : stage.signature.output ≠ .any)
    (hsum : stage ≠ sum) (h : (stage.run scope args input).outcome source = .ok value) :
    stage.signature.output.admits value = true := by
  simp only [all, List.mem_cons, List.not_mem_nil, or_false] at hstage
  rcases hstage with rfl | rfl | rfl | rfl | rfl | rfl | rfl | rfl
  case inl =>
    obtain rfl := Except.ok.inj h
    cases input <;> rfl
  case inr.inl => exact absurd rfl hsum
  case inr.inr.inl =>
    obtain ⟨items, -, h⟩ := Fetching.outcome_lift_bind_eq_ok.mp h
    obtain rfl := Except.ok.inj h
    simp [groupItems, groupCount, Shape.admits, Json.fields?]
  case inr.inr.inr.inl =>
    obtain ⟨items, -, h⟩ := Fetching.outcome_lift_bind_eq_ok.mp h
    obtain rfl := Except.ok.inj h
    rfl
  case inr.inr.inr.inr.inr.inr.inr => exact admits_of_loadItems h
  all_goals exact absurd rfl hown

end Builtin

/-! ### Pipelines, stage by stage -/

namespace Registry

section Steps

variable {r : Registry} {scope : StageScope} {source : FetchCall → FetchAnswer}

/-- The shape behind a stage that receives the shape `current`. -/
def nextShape (r : Registry) (current : Shape) (name : String) : Shape :=
  match r.resolve? name with
  | none => .unknown
  | some s => if s.signature.output = .any then current else s.signature.output

/-- A check ends with the shape behind the last stage, whatever it finds wrong. -/
theorem output_checkFrom (index : Nat) (current : Shape) (names : List String) :
    (r.checkFrom index current names).output = names.foldl r.nextShape current := by
  induction names generalizing index current with
  | nil => rfl
  | cons name rest ih =>
    cases hstage : r.resolve? name with
    | none =>
      simp only [checkFrom, List.foldl_cons, nextShape, hstage]
      exact ih _ _
    | some s =>
      simp only [checkFrom, List.foldl_cons, nextShape, hstage]
      split <;> exact ih _ _

theorem runCalls_append (front rest : List StageCall) (value : Json) :
    r.runCalls scope (front ++ rest) value =
      r.runCalls scope front value >>= r.runCalls scope rest := by
  induction front generalizing value with
  | nil => rfl
  | cons call front ih => simp only [List.cons_append, runCalls, Fetching.bind_assoc, ih]

/-- A pipeline succeeds when all but its last stage do and the last one does on what they
come to. -/
theorem outcome_runCalls_concat_eq_ok {calls : List StageCall} {call : StageCall}
    {input value : Json} :
    (r.runCalls scope (calls ++ [call]) input).outcome source = .ok value ↔
      ∃ middle, (r.runCalls scope calls input).outcome source = .ok middle ∧
        ∃ stage args, r.resolve? call.name = some stage ∧
          stage.signature.bindArguments call.arguments = .ok args ∧
          (stage.run scope args middle).outcome source = .ok value := by
  rw [runCalls_append, Fetching.outcome_bind_eq_ok]
  refine exists_congr fun middle => and_congr_right fun _ => ?_
  simp [runCalls, Fetching.outcome_bind_eq_ok, resolve_eq_ok]

theorem of_outcome_runPipeline_eq_ok {calls : List StageCall} {initial : Shape}
    {input value : Json}
    (h : (r.runPipeline scope calls initial input).outcome source = .ok value) :
    (r.check (calls.map StageCall.name) initial).isValid = true ∧
      (r.runCalls scope calls input).outcome source = .ok value := by
  rw [runPipeline] at h
  split at h
  · rename_i hempty
    rw [List.isEmpty_iff.mp hempty]
    exact ⟨rfl, h⟩
  · obtain ⟨shape, hcheck, h⟩ := Fetching.outcome_lift_bind_eq_ok.mp h
    rw [PipelineCheck.result] at hcheck
    split at hcheck
    · rename_i hvalid
      exact ⟨hvalid, h⟩
    · cases hcheck

end Steps

/-! ### Totals that are lost -/

section Lost

variable {scope : StageScope} {source : FetchCall → FetchAnswer} {calls : List StageCall}
  {call : StageCall} {input middle value : Json}

/-- The call passes the shape of its input on. -/
def KeepsShape (call : StageCall) : Prop :=
  ∃ stage, builtin.resolve? call.name = some stage ∧ stage.signature.output = .any

/-- The call sums a value up, and no finite double is the total. -/
def Overflows (call : StageCall) (value : Json) : Prop :=
  builtin.resolve? call.name = some Builtin.sum ∧
    ∃ args items, Builtin.sum.signature.bindArguments call.arguments = .ok args ∧
      Builtin.inputItems "sum" value = .ok items ∧
      (Builtin.total (args.string? "field") items).finite? = none

/-- Some stage sums up to no finite double, and all behind it keep the shape of their
input. -/
def LosesTotal (scope : StageScope) (source : FetchCall → FetchAnswer) (calls : List StageCall)
    (input : Json) : Prop :=
  ∃ front call rest middle, calls = front ++ call :: rest ∧
    (builtin.runCalls scope front input).outcome source = .ok middle ∧
    Overflows call middle ∧ ∀ later ∈ rest, KeepsShape later

/-- The last stage loses the total, or keeps what those in front of it have lost. -/
theorem losesTotal_concat
    (hmiddle : (builtin.runCalls scope calls input).outcome source = .ok middle) :
    LosesTotal scope source (calls ++ [call]) input ↔
      Overflows call middle ∨ (LosesTotal scope source calls input ∧ KeepsShape call) := by
  constructor
  · rintro ⟨front, summing, rest, before, hcalls, hbefore, hoverflows, hkeep⟩
    rcases List.eq_nil_or_concat rest with rfl | ⟨rest, last, rfl⟩
    · obtain ⟨rfl, hlast⟩ := List.append_inj' hcalls rfl
      obtain rfl := List.singleton_inj.mp hlast
      obtain rfl := Except.ok.inj (hbefore.symm.trans hmiddle)
      exact Or.inl hoverflows
    · rw [List.concat_eq_append, ← List.cons_append, ← List.append_assoc] at hcalls
      obtain ⟨rfl, hlast⟩ := List.append_inj' hcalls rfl
      obtain rfl := List.singleton_inj.mp hlast
      have hcall : KeepsShape call := hkeep call (by simp)
      exact Or.inr ⟨⟨front, summing, rest, before, rfl, hbefore, hoverflows,
        fun later hlater => hkeep later (by simp [hlater])⟩, hcall⟩
  · rintro (hoverflows | ⟨⟨front, summing, rest, before, rfl, hbefore, hoverflows, hkeep⟩, hcall⟩)
    · exact ⟨calls, call, [], middle, rfl, hmiddle, hoverflows, nofun⟩
    · refine ⟨front, summing, rest ++ [call], before, by simp, hbefore, hoverflows, ?_⟩
      intro later hlater
      rcases List.mem_append.mp hlater with hlater | hlater
      · exact hkeep later hlater
      · rwa [List.mem_singleton.mp hlater]

/-- What is left of a lost total: null, or the empty list that stages make of it. -/
def IsLost (value : Json) : Prop :=
  value = .null ∨ value = .arr []

theorem IsLost.admits_count (h : IsLost value) : Shape.count.admits value = false := by
  rcases h with rfl | rfl <;> rfl

/-- A stage that keeps the shape of its input makes an empty list of what is left. -/
theorem IsLost.of_kept (h : IsLost middle) {name : String} {items kept : List Json}
    (hitems : Builtin.inputItems name middle = .ok items) (hkept : ∀ item ∈ kept, item ∈ items) :
    IsLost (.arr kept) := by
  have hnone : items = [] := by
    rcases h with rfl | rfl <;> exact (Except.ok.inj hitems).symm
  rw [hnone] at hkept
  have hnil : kept = [] :=
    List.eq_nil_iff_forall_not_mem.mpr fun item hitem => List.not_mem_nil (hkept item hitem)
  exact Or.inr (congrArg Json.arr hnil)

/-- **Stage by stage**, the value has the shape that the check gives, or it is what is
left of a lost total. -/
theorem admits_or_isLost {initial : Shape} (hinput : initial.admits input = true)
    (h : (builtin.runCalls scope calls input).outcome source = .ok value) :
    let shape := (calls.map StageCall.name).foldl builtin.nextShape initial
    (shape.admits value = true ∧ ¬LosesTotal scope source calls input) ∨
      (shape = .count ∧ IsLost value ∧ LosesTotal scope source calls input) := by
  induction calls using List.reverseRecOn generalizing value with
  | nil =>
    obtain rfl := Except.ok.inj h
    refine Or.inl ⟨hinput, ?_⟩
    rintro ⟨front, summing, rest, -, hcalls, -⟩
    simp at hcalls
  | append_singleton calls call ih =>
    obtain ⟨middle, hmiddle, stage, args, hstage, hargs, h⟩ :=
      outcome_runCalls_concat_eq_ok.mp h
    have hbuiltin := mem_all_of_resolve? hstage
    simp only [List.map_append, List.map_cons, List.map_nil, List.foldl_append, List.foldl_cons,
      List.foldl_nil, nextShape, hstage, losesTotal_concat hmiddle]
    by_cases hown : stage.signature.output = .any
    · -- what comes in is handed on, and so is what is left of a lost total
      have hkeeps : KeepsShape call := ⟨stage, hstage, hown⟩
      have hnot : ¬Overflows call middle := by
        rintro ⟨hsum, -⟩
        obtain rfl := Option.some.inj (hstage.symm.trans hsum)
        cases hown
      obtain ⟨name, items, kept, hitems, rfl, hkept⟩ :=
        Builtin.exists_kept_items hbuiltin hown h
      rw [if_pos hown]
      rcases ih hmiddle with ⟨hshape, hnone⟩ | ⟨hcount, hlost, hloses⟩
      · exact Or.inl ⟨Builtin.admits_of_kept hshape hitems hkept, by simp [hnot, hnone]⟩
      · exact Or.inr ⟨hcount, hlost.of_kept hitems hkept, Or.inr ⟨hloses, hkeeps⟩⟩
    · -- what comes in does not count any more
      have hnot : ¬KeepsShape call := by
        rintro ⟨other, hother, hany⟩
        obtain rfl := Option.some.inj (hstage.symm.trans hother)
        exact hown hany
      rw [if_neg hown]
      by_cases hsum : stage = Builtin.sum
      · subst hsum
        obtain ⟨items, hitems, rfl⟩ := Builtin.outcome_sum_eq_ok.mp h
        rcases Builtin.sumItems_cases (args.string? "field") items with
          ⟨hnone, hnull⟩ | ⟨x, n, hsome, hnumber⟩
        · exact Or.inr ⟨rfl, Or.inl hnull,
            Or.inl ⟨hstage, args, items, hargs, hitems, hnone⟩⟩
        · refine Or.inl ⟨by rw [hnumber]; rfl, ?_⟩
          rintro (⟨-, args', items', hargs', hitems', hnone⟩ | ⟨-, hkeeps⟩)
          · obtain rfl := Except.ok.inj (hargs.symm.trans hargs')
            obtain rfl := Except.ok.inj (hitems.symm.trans hitems')
            rw [hsome] at hnone
            cases hnone
          · exact hnot hkeeps
      · refine Or.inl ⟨Builtin.admits_of_output hbuiltin hown hsum h, ?_⟩
        rintro (⟨hother, -⟩ | ⟨-, hkeeps⟩)
        · exact hsum (Option.some.inj (hstage.symm.trans hother))
        · exact hnot hkeeps

/-- **The check of a pipeline is right, but for totals that are lost.** A pipeline of
built-in stages that succeeds on a value of its initial shape was valid, and its value
has the shape that the check gives unless, and only unless, a stage sums up to no finite
double and all behind it keep the shape of their input. -/
theorem admits_runPipeline_iff (scope : StageScope) (source : FetchCall → FetchAnswer)
    (calls : List StageCall) (initial : Shape) (input value : Json)
    (hinput : initial.admits input = true)
    (h : (builtin.runPipeline scope calls initial input).outcome source = .ok value) :
    let check := builtin.check (calls.map StageCall.name) initial
    check.isValid = true ∧
      (check.output.admits value = true ↔ ¬LosesTotal scope source calls input) := by
  intro check
  obtain ⟨hvalid, hcalls⟩ := of_outcome_runPipeline_eq_ok h
  refine ⟨hvalid, ?_⟩
  have hshape : check.output = (calls.map StageCall.name).foldl builtin.nextShape initial :=
    output_checkFrom _ _ _
  rw [hshape]
  rcases admits_or_isLost hinput hcalls with ⟨hadmits, hnot⟩ | ⟨hcount, hlost, hloses⟩
  · exact iff_of_true hadmits hnot
  · rw [hcount]
    exact iff_of_false (by rw [hlost.admits_count]; exact Bool.false_ne_true) (not_not_intro hloses)

/-- The views of two posts, one of them written as text. -/
def viewsOfPosts : Json :=
  .arr [.obj [("views", .ofNat 5)], .obj [("title", .str "On Lean"), ("views", .str "7")]]

/-- Plucking a field and summing it up makes a number of rows. -/
theorem admits_runPipeline_iff_views :
    let scope : StageScope := ⟨{}, {}, none⟩
    let calls : List StageCall :=
      [⟨"pluck", [⟨some "field", .str "views"⟩]⟩, ⟨"Core.SUM", []⟩]
    let store : Store := {}
    Shape.rows.admits viewsOfPosts = true ∧
      (builtin.runPipeline scope calls .rows viewsOfPosts).outcome store.fetch = .ok (.ofNat 12) ∧
      (builtin.check (calls.map StageCall.name) .rows).isValid = true ∧
      (Shape.count.admits (.ofNat 12) = true ↔
        ¬LosesTotal scope store.fetch calls viewsOfPosts) := by
  intro scope calls store
  have hinput : Shape.rows.admits viewsOfPosts = true := by decide
  have hrun : (builtin.runPipeline scope calls .rows viewsOfPosts).outcome store.fetch =
      .ok (.ofNat 12) := by decide +kernel
  obtain ⟨hvalid, hiff⟩ := admits_runPipeline_iff scope store.fetch calls .rows viewsOfPosts
    (.ofNat 12) hinput hrun
  have hshape : (builtin.check (calls.map StageCall.name) .rows).output = .count := by
    decide +kernel
  rw [hshape] at hiff
  exact ⟨hinput, hrun, hvalid, hiff⟩

/-- Two large doubles and one that would take the total back into range: on the way from
left to right it is lost, and what comes out as a count is null. -/
theorem not_admits_sum_large :
    ∃ input, Json.read? "[1e308, 1e308, -1e308]" = some input ∧
      Shape.values.admits input = true ∧ builtin.check ["sum"] .values = ⟨[], .count⟩ ∧
      (builtin.runPipeline ⟨{}, {}, none⟩ [⟨"sum", []⟩] .values input).outcome
        (fun _ => .ok []) = .ok .null ∧
      Shape.count.admits .null = false := by
  refine ⟨(Json.read? "[1e308, 1e308, -1e308]").getD .null, ?_, ?_, ?_, ?_, rfl⟩ <;>
    decide +kernel

end Lost

end Registry

end TableQuery
