import TableQuery.Storage.Source

/-!
# Fields by name

Reading a field after some have been put in their places. Fields are kept ascending,
but nothing here needs that: a field that is put in stands in front of any other of
its name, and leaves the rest as they were.
-/

namespace TableQuery

namespace Fields

variable {α : Type}

theorem get?_cons (k name : String) (v : α) (fields : Fields α) :
    get? ((k, v) :: fields) name = if name = k then some v else get? fields name := by
  rw [get?, List.lookup_cons, get?]
  by_cases h : name = k
  · simp [h]
  · have hne : (name == k) = false := beq_eq_false_iff_ne.mpr h
    simp [h, hne]

@[simp] theorem get?_nil (name : String) : get? ([] : Fields α) name = none := rfl

@[simp] theorem get?_append (front back : Fields α) (name : String) :
    get? (front ++ back) name = (get? front name).or (get? back name) := by
  induction front with
  | nil => rfl
  | cons field front ih =>
    rw [List.cons_append, get?_cons, get?_cons, ih]
    split <;> rfl

/-- **A field that is put in is found**, and the others are found as before. -/
theorem get?_insert (k name : String) (v : α) (fields : Fields α) :
    get? (insert k v fields) name = if name = k then some v else get? fields name := by
  induction fields with
  | nil => exact get?_cons k name v []
  | cons field rest ih =>
    obtain ⟨k', v'⟩ := field
    rw [insert]
    by_cases hlt : k < k'
    · rw [if_pos hlt, get?_cons]
    by_cases heq : k = k'
    · subst heq
      rw [if_neg hlt, if_pos rfl, get?_cons, get?_cons]
      by_cases hname : name = k <;> simp [hname]
    · rw [if_neg hlt, if_neg heq, get?_cons, get?_cons, ih]
      by_cases hname : name = k
      · subst hname
        simp [heq]
      · simp [hname]

theorem mem_insert {k : String} {v : α} {fields : Fields α} {e : String × α}
    (h : e ∈ insert k v fields) : e = (k, v) ∨ e ∈ fields := by
  induction fields with
  | nil => exact Or.inl (List.mem_singleton.mp h)
  | cons field rest ih =>
    obtain ⟨k', v'⟩ := field
    unfold insert at h
    split at h
    · exact List.mem_cons.mp h
    · split at h
      · exact (List.mem_cons.mp h).imp_right (List.mem_cons_of_mem _)
      · rcases List.mem_cons.mp h with rfl | h
        · exact Or.inr (List.mem_cons_self ..)
        · exact (ih h).imp_right (List.mem_cons_of_mem _)

/-- Fields that are put in one after another, all of them with the values of one
function, are found with these values. -/
theorem get?_foldl_insert {entries : List (String × α)} {f : String → Option α}
    (h : ∀ entry ∈ entries, f entry.1 = some entry.2) (fields : Fields α) (name : String) :
    get? (entries.foldl (fun fields e => insert e.1 e.2 fields) fields) name =
      if name ∈ entries.map Prod.fst then f name else get? fields name := by
  induction entries generalizing fields with
  | nil => simp
  | cons entry rest ih =>
    have hentry := h entry (List.mem_cons_self ..)
    rw [List.foldl_cons, ih (fun e he => h e (List.mem_cons_of_mem _ he)), get?_insert]
    by_cases hname : name = entry.1
    · subst hname
      simp [hentry]
    · simp only [List.map_cons, List.mem_cons, hname, false_or, if_false]

end Fields

namespace Store

/-- **The requested cells of a row** are its own, and there are no others. -/
theorem get?_projectRow (columns : List String) (row : Row) (name : String) :
    (projectRow columns row).get? name = if name ∈ columns then row.get? name else none := by
  have hentries : ∀ entry ∈ columns.filterMap (fun c => (row.get? c).map fun cell => (c, cell)),
      row.get? entry.1 = some entry.2 := by
    intro entry hentry
    obtain ⟨c, -, hcell⟩ := List.mem_filterMap.mp hentry
    obtain ⟨cell, hget, rfl⟩ := Option.map_eq_some_iff.mp hcell
    exact hget
  rw [projectRow, Fields.ofList, Fields.get?_foldl_insert hentries]
  have hnil : Fields.get? ([] : Row) name = none := rfl
  rw [hnil]
  by_cases hname : name ∈ columns
  · rw [if_pos hname]
    cases hget : row.get? name with
    | none => exact ite_self none
    | some cell =>
      refine if_pos (List.mem_map.mpr ⟨(name, cell), ?_, rfl⟩)
      exact List.mem_filterMap.mpr ⟨name, hname, by rw [hget]; rfl⟩
  · rw [if_neg hname, if_neg]
    intro hmem
    obtain ⟨entry, hentry, rfl⟩ := List.mem_map.mp hmem
    obtain ⟨c, hc, hcell⟩ := List.mem_filterMap.mp hentry
    obtain ⟨cell, -, rfl⟩ := Option.map_eq_some_iff.mp hcell
    exact hname hc

end Store

end TableQuery
