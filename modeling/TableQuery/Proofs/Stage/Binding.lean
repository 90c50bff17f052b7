import TableQuery.Proofs.Fetching.Requests
import TableQuery.Proofs.Json.Ascending
import TableQuery.Stage.Builtin

/-!
# What arguments are bound to

Arguments are bound one after another, with one counter for those without a name. Which
parameters they are given to can be said without the counter: the values without a name
go to the parameters in order, and each of the others to the first parameter of its name
(`TableQuery.Signature.assignments`). That list says whether the arguments can be bound
(`TableQuery.Signature.Accepts`) and what is bound (`TableQuery.Signature.Binds`), and
it is the same up to order wherever the named arguments stand, so the result is the same
as well (`TableQuery.Signature.bindArguments_exact`).

A run of the loop makes the same assignments in the order of the arguments
(`TableQuery.Signature.Assigns`). It ends well if they can be entered one by one, each of
them under a name that is still free; that is so in every order or in none
(`TableQuery.Enters.perm`).
-/

namespace TableQuery

/-- The argument is given without a name. -/
def Argument.isPositional (a : Argument) : Bool :=
  a.name.isNone

/-- The first parameter of the name that an argument is given under. -/
def Signature.named? (s : Signature) (a : Argument) : Option Parameter :=
  a.name.bind fun name => s.parameters.find? fun p => p.name == name

/-- The values without a name. -/
def positionals (args : List Argument) : List Json :=
  (args.filter Argument.isPositional).map Argument.value

/-- What is assigned to which parameter: the values without a name to the parameters in order,
and the others by name. -/
def Signature.assignments (s : Signature) (args : List Argument) : List (Parameter × Json) :=
  s.parameters.zip (positionals args) ++
    args.filterMap fun a => (s.named? a).map fun p => (p, a.value)

/-- The arguments can be bound. -/
structure Signature.Accepts (s : Signature) (args : List Argument) : Prop where
  fewEnough : args.countP Argument.isPositional ≤ s.parameters.length
  known : ∀ a ∈ args, ∀ name, a.name = some name → ∃ p ∈ s.parameters, p.name = name
  once : ((s.assignments args).map fun e => e.1.name).Nodup
  coerces : ∀ e ∈ s.assignments args, (e.1.kind.coerce? e.2).isSome
  complete : ∀ p ∈ s.parameters, p.required = true → ∃ e ∈ s.assignments args, e.1.name = p.name

/-- The names that values are assigned to are bound, each to its value as the kind of its
parameter, and no others. -/
structure Signature.Binds (s : Signature) (args : List Argument) (bound : Arguments) : Prop where
  ascending : Fields.Ascending bound
  values : ∀ name value, bound.get? name = some value ↔
    ∃ e ∈ s.assignments args, e.1.name = name ∧ e.1.kind.coerce? e.2 = some value

/-! ### Entering assignments -/

/-- The assignments can be entered on top of what is bound: no name is taken, none occurs twice,
and every value is of the kind of its parameter. -/
structure Enters (bound : Arguments) (es : List (Parameter × Json)) : Prop where
  once : (es.map fun e => e.1.name).Nodup
  fresh : ∀ e ∈ es, bound.get? e.1.name = none
  coerces : ∀ e ∈ es, (e.1.kind.coerce? e.2).isSome

/-- An assignment is entered. -/
def enter (bound : Arguments) (e : Parameter × Json) : Arguments :=
  bound.insert e.1.name ((e.1.kind.coerce? e.2).getD .null)

section Entering

variable {bound : Arguments} {es others : List (Parameter × Json)} {p : Parameter} {x : Json}

theorem Enters.perm (h : Enters bound es) (hperm : es.Perm others) : Enters bound others where
  once := (hperm.map _).nodup_iff.mp h.once
  fresh e he := h.fresh e (hperm.mem_iff.mpr he)
  coerces e he := h.coerces e (hperm.mem_iff.mpr he)

/-- The first assignment is entered under a free name, and the others on top of it. -/
theorem enters_cons_iff :
    Enters bound ((p, x) :: es) ↔ bound.get? p.name = none ∧
      ∃ value, p.kind.coerce? x = some value ∧ Enters (bound.insert p.name value) es := by
  constructor
  · rintro ⟨honce, hfresh, hcoerces⟩
    obtain ⟨hp, honce⟩ := List.nodup_cons.mp honce
    obtain ⟨hpfresh, hfresh⟩ := List.forall_mem_cons.mp hfresh
    obtain ⟨hx, hcoerces⟩ := List.forall_mem_cons.mp hcoerces
    obtain ⟨value, hvalue⟩ := Option.isSome_iff_exists.mp hx
    refine ⟨hpfresh, value, hvalue, honce, fun e he => ?_, hcoerces⟩
    have hne : e.1.name ≠ p.name := fun heq => hp (List.mem_map.mpr ⟨e, he, heq⟩)
    rw [Fields.get?_insert, if_neg hne]
    exact hfresh e he
  · rintro ⟨hp, value, hvalue, hrest⟩
    -- a name that is free on top of the first is another one, and was free before
    have hfresh : ∀ e ∈ es, e.1.name ≠ p.name ∧ bound.get? e.1.name = none := by
      intro e he
      have hfree := hrest.fresh e he
      rw [Fields.get?_insert] at hfree
      split at hfree
      · cases hfree
      · exact ⟨‹_›, hfree⟩
    refine ⟨List.nodup_cons.mpr ⟨fun hmem => ?_, hrest.once⟩,
      List.forall_mem_cons.mpr ⟨hp, fun e he => (hfresh e he).2⟩,
      List.forall_mem_cons.mpr ⟨Option.isSome_iff_exists.mpr ⟨value, hvalue⟩, hrest.coerces⟩⟩
    obtain ⟨e, he, heq⟩ := List.mem_map.mp hmem
    exact (hfresh e he).1 heq

theorem enter_eq {value : Json} (h : p.kind.coerce? x = some value) :
    enter bound (p, x) = bound.insert p.name value := by
  rw [enter, h, Option.getD_some]

theorem ascending_foldl_enter (h : Fields.Ascending bound) (es : List (Parameter × Json)) :
    Fields.Ascending (es.foldl enter bound) := by
  induction es generalizing bound with
  | nil => exact h
  | cons e es ih => exact ih (Fields.ascending_insert h ..)

/-- **What is found when all is entered**: what was bound, and the assigned values. -/
theorem get?_foldl_enter (h : Enters bound es) {name : String} {value : Json} :
    (es.foldl enter bound).get? name = some value ↔
      bound.get? name = some value ∨
        ∃ e ∈ es, e.1.name = name ∧ e.1.kind.coerce? e.2 = some value := by
  induction es generalizing bound with
  | nil => simp
  | cons e es ih =>
    obtain ⟨p, x⟩ := e
    obtain ⟨hp, read, hread, hrest⟩ := enters_cons_iff.mp h
    rw [List.foldl_cons, enter_eq hread, ih hrest, Fields.get?_insert, List.exists_mem_cons_iff,
      ← or_assoc]
    refine or_congr_left ?_
    by_cases hname : name = p.name
    · subst hname
      simp [hp, hread]
    · simp [hname, Ne.symm hname]

end Entering

/-! ### The assignments of a run -/

namespace Signature

variable {s : Signature} {position next : Nat} {a : Argument} {args others : List Argument}
  {es : List (Parameter × Json)} {p : Parameter} {bound final : Arguments}

/-- The arguments are assigned one after another. -/
inductive Assigns (s : Signature) : Nat → List Argument → List (Parameter × Json) → Prop
  | nil {position : Nat} : Assigns s position [] []
  | cons {position next : Nat} {a : Argument} {p : Parameter} {rest : List Argument}
      {es : List (Parameter × Json)} : s.parameterFor position a = .ok (p, next) →
      Assigns s next rest es → Assigns s position (a :: rest) ((p, a.value) :: es)

/-- The assignments of the arguments from a position on. -/
def assignmentsFrom (s : Signature) (position : Nat) (args : List Argument) :
    List (Parameter × Json) :=
  (s.parameters.drop position).zip (positionals args) ++
    args.filterMap fun a => (s.named? a).map fun p => (p, a.value)

theorem positionals_cons_of_pos (h : a.isPositional = true) (args : List Argument) :
    positionals (a :: args) = a.value :: positionals args := by
  rw [positionals, List.filter_cons_of_pos h, List.map_cons, positionals]

theorem positionals_cons_of_neg (h : ¬a.isPositional = true) (args : List Argument) :
    positionals (a :: args) = positionals args := by
  rw [positionals, List.filter_cons_of_neg h, positionals]

/-- An argument without a name goes to the parameter at the position, which goes on by one. -/
theorem parameterFor_eq_ok_of_pos (h : a.isPositional = true) :
    s.parameterFor position a = .ok (p, next) ↔
      s.parameters[position]? = some p ∧ next = position + 1 := by
  rw [parameterFor, Option.isNone_iff_eq_none.mp h]
  cases s.parameters[position]? with
  | none => simp [fault]
  | some q => simp [eq_comm]

/-- An argument with a name goes to its parameter, and the position stays. -/
theorem parameterFor_eq_ok_of_neg (h : ¬a.isPositional = true) :
    s.parameterFor position a = .ok (p, next) ↔ s.named? a = some p ∧ next = position := by
  obtain ⟨name, hname⟩ := Option.ne_none_iff_exists'.mp (mt Option.isNone_iff_eq_none.mpr h)
  rw [parameterFor, named?, hname, Option.bind_some]
  cases hfind : s.parameters.find? fun p => p.name == name with
  | none => simp [hfind, fault]
  | some q => simp [hfind, eq_comm]

/-- The parameter of a named argument is one of the name. -/
theorem mem_of_named? (h : s.named? a = some p) : p ∈ s.parameters ∧ a.name = some p.name := by
  obtain ⟨name, hname, hfind⟩ := Option.bind_eq_some_iff.mp h
  have hsame := List.find?_some hfind
  exact ⟨List.mem_of_find?_eq_some hfind, by rw [hname, beq_iff_eq.mp hsame]⟩

theorem named?_of_pos (h : a.isPositional = true) : s.named? a = none := by
  rw [named?, Option.isNone_iff_eq_none.mp h, Option.bind_none]

/-- A run makes the assignments, in the order of the arguments. -/
theorem Assigns.perm (h : s.Assigns position args es) :
    es.Perm (s.assignmentsFrom position args) := by
  induction h with
  | nil => simp [assignmentsFrom, positionals]
  | @cons position next a p rest es ha hrest ih =>
    by_cases hpos : a.isPositional = true
    · obtain ⟨hp, rfl⟩ := (parameterFor_eq_ok_of_pos hpos).mp ha
      obtain ⟨hlt, rfl⟩ := List.getElem?_eq_some_iff.mp hp
      rw [assignmentsFrom, positionals_cons_of_pos hpos, List.drop_eq_getElem_cons hlt,
        List.zip_cons_cons, List.filterMap_cons_none (by rw [named?_of_pos hpos]; rfl)]
      exact ih.cons _
    · obtain ⟨hp, rfl⟩ := (parameterFor_eq_ok_of_neg hpos).mp ha
      rw [assignmentsFrom, positionals_cons_of_neg hpos,
        List.filterMap_cons_some (by rw [hp]; rfl)]
      exact (ih.cons _).trans List.perm_middle.symm

theorem exists_assigns_cons_iff :
    (∃ es, s.Assigns position (a :: args) es) ↔
      ∃ p next, s.parameterFor position a = .ok (p, next) ∧ ∃ es, s.Assigns next args es := by
  constructor
  · rintro ⟨_, ⟨⟩⟩
    exact ⟨_, _, ‹_›, _, ‹_›⟩
  · rintro ⟨p, next, ha, es, hrest⟩
    exact ⟨_, .cons ha hrest⟩

/-- **All arguments can be assigned** if no more of them come without a name than parameters are
left, and the others name their parameters. -/
theorem exists_assigns_iff :
    (∃ es, s.Assigns position args es) ↔
      args.countP Argument.isPositional ≤ s.parameters.length - position ∧
        ∀ a ∈ args, ¬a.isPositional = true → ∃ p, s.named? a = some p := by
  induction args generalizing position with
  | nil => exact ⟨fun _ => ⟨Nat.zero_le _, fun a ha => absurd ha List.not_mem_nil⟩,
      fun _ => ⟨[], .nil⟩⟩
  | cons a rest ih =>
    simp only [exists_assigns_cons_iff, ih, List.forall_mem_cons]
    by_cases hpos : a.isPositional = true
    · simp only [parameterFor_eq_ok_of_pos hpos, List.countP_cons_of_pos hpos]
      constructor
      · rintro ⟨p, _, ⟨hp, rfl⟩, hcount, hknown⟩
        have hlt := (List.getElem?_eq_some_iff.mp hp).1
        exact ⟨by omega, fun hneg => absurd hpos hneg, hknown⟩
      · rintro ⟨hcount, -, hknown⟩
        have hlt : position < s.parameters.length := by omega
        exact ⟨_, _, ⟨List.getElem?_eq_getElem hlt, rfl⟩, by omega, hknown⟩
    · simp only [parameterFor_eq_ok_of_neg hpos, List.countP_cons_of_neg hpos]
      constructor
      · rintro ⟨p, _, ⟨hp, rfl⟩, hcount, hknown⟩
        exact ⟨hcount, fun _ => ⟨p, hp⟩, hknown⟩
      · rintro ⟨hcount, hfound, hknown⟩
        obtain ⟨p, hp⟩ := hfound hpos
        exact ⟨p, _, ⟨hp, rfl⟩, hcount, hknown⟩

/-! ### Runs -/

/-- One argument finds its parameter, whose name is free and whose kind the value has; the others
are bound on top of it. -/
theorem bindFrom_cons_eq_ok_iff :
    s.bindFrom position bound (a :: args) = .ok final ↔
      ∃ p next value, s.parameterFor position a = .ok (p, next) ∧ bound.get? p.name = none ∧
        p.kind.coerce? a.value = some value ∧
        s.bindFrom next (bound.insert p.name value) args = .ok final := by
  rw [bindFrom, except_bind_eq_ok]
  constructor
  · rintro ⟨⟨p, next⟩, ha, h⟩
    dsimp only at h
    split at h
    · cases h
    rename_i hfree
    split at h
    · cases h
    rename_i value hvalue
    exact ⟨p, next, value, ha, by simpa using hfree, hvalue, h⟩
  · rintro ⟨p, next, value, ha, hfree, hvalue, h⟩
    refine ⟨(p, next), ha, ?_⟩
    simp only [hfree, hvalue]
    exact h

/-- **A run of the loop** assigns the arguments and enters the assignments. -/
theorem bindFrom_eq_ok_iff :
    s.bindFrom position bound args = .ok final ↔
      ∃ es, s.Assigns position args es ∧ Enters bound es ∧ es.foldl enter bound = final := by
  induction args generalizing position bound with
  | nil =>
    constructor
    · intro h
      exact ⟨[], .nil, ⟨List.nodup_nil, by simp, by simp⟩, Except.ok.inj h⟩
    · rintro ⟨es, ⟨⟩, -, rfl⟩
      rfl
  | cons a rest ih =>
    simp only [bindFrom_cons_eq_ok_iff, ih]
    constructor
    · rintro ⟨p, next, value, ha, hfree, hvalue, es, hassigns, henters, hfinal⟩
      refine ⟨(p, a.value) :: es, .cons ha hassigns,
        enters_cons_iff.mpr ⟨hfree, value, hvalue, henters⟩, ?_⟩
      rw [List.foldl_cons, enter_eq hvalue, hfinal]
    · rintro ⟨_, ⟨⟩, henters, hfinal⟩
      rename_i next p es ha hassigns
      obtain ⟨hfree, value, hvalue, hrest⟩ := enters_cons_iff.mp henters
      rw [List.foldl_cons, enter_eq hvalue] at hfinal
      exact ⟨p, next, value, ha, hfree, hvalue, es, hassigns, hrest, hfinal⟩

/-- The arguments can be bound up to the last one. -/
theorem exists_bindFrom_iff :
    (∃ final, s.bindFrom 0 [] args = .ok final) ↔
      (∃ es, s.Assigns 0 args es) ∧ Enters [] (s.assignments args) := by
  constructor
  · rintro ⟨final, h⟩
    obtain ⟨es, hassigns, henters, -⟩ := bindFrom_eq_ok_iff.mp h
    exact ⟨⟨es, hassigns⟩, henters.perm hassigns.perm⟩
  · rintro ⟨⟨es, hassigns⟩, henters⟩
    exact ⟨_, bindFrom_eq_ok_iff.mpr ⟨es, hassigns, henters.perm hassigns.perm.symm, rfl⟩⟩

/-- **What a run of the loop binds** are the assigned values. -/
theorem binds_of_bindFrom (h : s.bindFrom 0 [] args = .ok final) : s.Binds args final := by
  obtain ⟨es, hassigns, henters, rfl⟩ := bindFrom_eq_ok_iff.mp h
  refine ⟨ascending_foldl_enter Fields.ascending_nil es, fun name value => ?_⟩
  rw [get?_foldl_enter henters, Fields.get?_nil]
  simp only [reduceCtorEq, false_or]
  exact exists_congr fun e => and_congr_left fun _ => hassigns.perm.mem_iff

/-- The loop has to end well, and to have bound what is required. -/
theorem bindArguments_eq_ok_iff :
    s.bindArguments args = .ok final ↔ s.bindFrom 0 [] args = .ok final ∧
      ∀ p ∈ s.parameters, p.required = true → ∃ value, final.get? p.name = some value := by
  have hmissing : ∀ bound : Arguments,
      s.parameters.find? (fun p => p.required && (bound.get? p.name).isNone) = none ↔
        ∀ p ∈ s.parameters, p.required = true → ∃ value, bound.get? p.name = some value := by
    simp [List.find?_eq_none, Option.ne_none_iff_exists']
  rw [bindArguments, except_bind_eq_ok]
  constructor
  · rintro ⟨bound, hbound, h⟩
    split at h
    · cases h
    · obtain rfl := Except.ok.inj h
      exact ⟨hbound, (hmissing _).mp ‹_›⟩
  · rintro ⟨hbound, hall⟩
    exact ⟨final, hbound, by rw [(hmissing final).mpr hall]; rfl⟩

theorem known_iff :
    (∀ name, a.name = some name → ∃ p ∈ s.parameters, p.name = name) ↔
      (¬a.isPositional = true → ∃ p, s.named? a = some p) := by
  cases hname : a.name with
  | none => simp [Argument.isPositional, hname]
  | some name =>
    simp [Argument.isPositional, named?, hname, ← Option.isSome_iff_exists]

/-- **The arguments are bound if and only if they are acceptable.** -/
theorem exists_bindArguments_iff :
    (∃ final, s.bindArguments args = .ok final) ↔ s.Accepts args := by
  have hcomplete : ∀ {final : Arguments}, s.bindFrom 0 [] args = .ok final →
      ((∀ p ∈ s.parameters, p.required = true → ∃ value, final.get? p.name = some value) ↔
        ∀ p ∈ s.parameters, p.required = true →
          ∃ e ∈ s.assignments args, e.1.name = p.name) := by
    intro final h
    have henters := (exists_bindFrom_iff.mp ⟨final, h⟩).2
    refine forall₃_congr fun p _ _ => ?_
    simp only [(binds_of_bindFrom h).values]
    constructor
    · rintro ⟨value, e, he, hname, -⟩
      exact ⟨e, he, hname⟩
    · rintro ⟨e, he, hname⟩
      obtain ⟨value, hvalue⟩ := Option.isSome_iff_exists.mp (henters.coerces e he)
      exact ⟨value, e, he, hname, hvalue⟩
  have hassigns : (∃ es, s.Assigns 0 args es) ↔
      args.countP Argument.isPositional ≤ s.parameters.length ∧
        ∀ a ∈ args, ∀ name, a.name = some name → ∃ p ∈ s.parameters, p.name = name := by
    simp only [exists_assigns_iff, Nat.sub_zero, known_iff]
  constructor
  · rintro ⟨final, h⟩
    obtain ⟨hfrom, hall⟩ := bindArguments_eq_ok_iff.mp h
    obtain ⟨hes, henters⟩ := exists_bindFrom_iff.mp ⟨final, hfrom⟩
    obtain ⟨hcount, hknown⟩ := hassigns.mp hes
    exact ⟨hcount, hknown, henters.once, henters.coerces, (hcomplete hfrom).mp hall⟩
  · intro h
    have henters : Enters [] (s.assignments args) := ⟨h.once, fun _ _ => rfl, h.coerces⟩
    obtain ⟨final, hfrom⟩ :=
      exists_bindFrom_iff.mpr ⟨hassigns.mpr ⟨h.fewEnough, h.known⟩, henters⟩
    exact ⟨final, bindArguments_eq_ok_iff.mpr ⟨hfrom, (hcomplete hfrom).mpr h.complete⟩⟩

/-! ### Other orders -/

section Reordering

variable (hperm : others.Perm args)
  (horder : others.filter Argument.isPositional = args.filter Argument.isPositional)
include hperm horder

/-- The assignments are the same when named arguments move. -/
theorem assignments_perm : (s.assignments others).Perm (s.assignments args) := by
  rw [assignments, assignments, positionals, horder, positionals]
  exact (hperm.filterMap _).append_left _

theorem Accepts.reorder (h : s.Accepts args) : s.Accepts others := by
  have hassigned := assignments_perm (s := s) hperm horder
  refine ⟨?_, fun a ha => h.known a (hperm.mem_iff.mp ha),
    (hassigned.map _).nodup_iff.mpr h.once, fun e he => h.coerces e (hassigned.mem_iff.mp he),
    fun p hp hrequired => ?_⟩
  · rw [hperm.countP_eq]
    exact h.fewEnough
  · obtain ⟨e, he, hname⟩ := h.complete p hp hrequired
    exact ⟨e, hassigned.mem_iff.mpr he, hname⟩

theorem bindArguments_reorder (h : s.bindArguments args = .ok final) :
    s.bindArguments others = .ok final := by
  obtain ⟨final', h'⟩ := exists_bindArguments_iff.mpr
    ((exists_bindArguments_iff.mp ⟨final, h⟩).reorder hperm horder)
  have hbinds := binds_of_bindFrom (bindArguments_eq_ok_iff.mp h).1
  have hbinds' := binds_of_bindFrom (bindArguments_eq_ok_iff.mp h').1
  rw [h', hbinds'.ascending.eq_of_get? hbinds.ascending fun name => Option.ext fun value => ?_]
  rw [hbinds'.values, hbinds.values]
  exact exists_congr fun e =>
    and_congr_left fun _ => (assignments_perm hperm horder).mem_iff

end Reordering

/-- **Binding has one meaning whatever the order.** The arguments are bound if and only if they
are acceptable, to what is assigned under each name; and if the named ones are moved in between
the others, the same is bound or nothing, as before. -/
theorem bindArguments_exact (s : Signature) (args : List Argument) :
    ((∃ bound, s.bindArguments args = .ok bound) ↔ s.Accepts args) ∧
      (∀ bound, s.bindArguments args = .ok bound → s.Binds args bound) ∧
      ∀ others : List Argument, others.Perm args →
        others.filter Argument.isPositional = args.filter Argument.isPositional →
        (s.bindArguments others).toOption = (s.bindArguments args).toOption := by
  refine ⟨exists_bindArguments_iff,
    fun bound h => binds_of_bindFrom (bindArguments_eq_ok_iff.mp h).1,
    fun others hperm horder => Option.ext fun bound => ?_⟩
  rw [except_toOption_eq_some, except_toOption_eq_some]
  exact ⟨bindArguments_reorder hperm.symm horder.symm, bindArguments_reorder hperm horder⟩

/-- A limit by position, as a text, and an offset by name, which may as well come first. -/
theorem bindArguments_exact_limit :
    let s := Builtin.limit.signature
    let n : Argument := ⟨none, .str "3"⟩
    let offset : Argument := ⟨some "offset", .ofNat 5⟩
    s.Accepts [n, offset] ∧ ∃ bound three, ArgumentKind.number.coerce? (.str "3") = some three ∧
      s.bindArguments [n, offset] = .ok bound ∧ s.bindArguments [offset, n] = .ok bound ∧
      bound.get? "n" = some three ∧ bound.get? "offset" = some (.ofNat 5) := by
  intro s n offset
  obtain ⟨haccepts, hbinds, hmoved⟩ := bindArguments_exact s [n, offset]
  have hrun : (s.bindArguments [n, offset]).toOption.isSome = true := by decide +kernel
  obtain ⟨bound, hbound⟩ := Option.isSome_iff_exists.mp hrun
  obtain ⟨three, hthree⟩ : ∃ three, ArgumentKind.number.coerce? (.str "3") = some three :=
    Option.isSome_iff_exists.mp (by decide +kernel)
  have hok := except_toOption_eq_some.mp hbound
  have hother := (hmoved [offset, n] (.swap ..) rfl).trans hbound
  have hvalues := (hbinds bound hok).values
  have hassigned : s.assignments [n, offset] =
      [(⟨"n", .number, true, ""⟩, .str "3"), (⟨"offset", .number, false, ""⟩, .ofNat 5)] := rfl
  rw [hassigned] at hvalues
  refine ⟨haccepts.mp ⟨bound, hok⟩, bound, three, hthree, hok,
    except_toOption_eq_some.mp hother, (hvalues ..).mpr ?_, (hvalues ..).mpr ?_⟩
  · exact ⟨_, List.mem_cons_self .., rfl, hthree⟩
  · exact ⟨_, List.mem_cons_of_mem _ (List.mem_cons_self ..), rfl, rfl⟩

end Signature

end TableQuery
