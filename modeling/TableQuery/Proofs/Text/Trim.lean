import TableQuery.Proofs.Text.Characters

/-!
# Trimming

What trimming does to texts of a known form: it takes blanks off both ends and stops
at the first character that is not blank.
-/

namespace TableQuery

namespace Text

/-- No blank at the front. -/
def StartsSolid (text : List Char) : Prop :=
  ∃ c rest, text = c :: rest ∧ isBlank c = false

/-- No blank at the end. -/
def EndsSolid (text : List Char) : Prop :=
  ∃ c rest, text = rest ++ [c] ∧ isBlank c = false

theorem trimStart_of_startsSolid {text : List Char} (h : StartsSolid text) :
    trimStart text = text := by
  obtain ⟨c, rest, rfl, hc⟩ := h
  exact List.dropWhile_cons_of_neg (by simp [hc])

theorem trimEnd_of_endsSolid {text : List Char} (h : EndsSolid text) : trimEnd text = text := by
  obtain ⟨c, rest, rfl, hc⟩ := h
  rw [trimEnd, List.reverse_append, List.reverse_singleton, List.singleton_append,
    List.dropWhile_cons_of_neg (by simp [hc]), List.reverse_cons, List.reverse_reverse]

/-- What is taken off the end stands behind the last solid character. -/
theorem trimEnd_append_cons {c : Char} (hc : isBlank c = false) (front rest : List Char) :
    trimEnd (front ++ c :: rest) = front ++ c :: trimEnd rest := by
  have hreverse : (front ++ c :: rest).reverse = rest.reverse ++ (c :: front.reverse) := by simp
  rw [trimEnd, hreverse, List.dropWhile_append]
  split
  · rename_i hnil
    rw [trimEnd, List.isEmpty_iff.mp hnil, List.dropWhile_cons_of_neg (by simp [hc])]
    simp
  · simp [trimEnd]

theorem head?_trim_of_head? {c : Char} (hc : isBlank c = false) {text : List Char}
    (h : text.head? = some c) : (trim text).head? = some c := by
  obtain ⟨cs, rfl⟩ := List.head?_eq_some_iff.mp h
  rw [trim, trimStart_of_startsSolid ⟨c, cs, rfl, hc⟩, ← List.nil_append (c :: cs),
    trimEnd_append_cons hc, List.nil_append]
  rfl

theorem trim_nil : trim [] = [] := rfl

/-- **A text that is solid at both ends is left alone.** -/
theorem trim_of_solid {text : List Char} (hstart : StartsSolid text) (hend : EndsSolid text) :
    trim text = text := by
  rw [trim, trimStart_of_startsSolid hstart, trimEnd_of_endsSolid hend]

theorem startsSolid_of_mem {text : List Char} (hne : text ≠ [])
    (h : ∀ c ∈ text, isBlank c = false) : StartsSolid text := by
  obtain ⟨c, rest, rfl⟩ := List.exists_cons_of_ne_nil hne
  exact ⟨c, rest, rfl, h c (List.mem_cons_self ..)⟩

theorem endsSolid_of_mem {text : List Char} (hne : text ≠ [])
    (h : ∀ c ∈ text, isBlank c = false) : EndsSolid text := by
  refine ⟨text.getLast hne, text.dropLast, (List.dropLast_concat_getLast hne).symm, ?_⟩
  exact h _ (List.getLast_mem hne)

/-- A text without blanks is left alone. -/
theorem trim_of_mem {text : List Char} (h : ∀ c ∈ text, isBlank c = false) : trim text = text := by
  by_cases hne : text = []
  · rw [hne, trim_nil]
  · exact trim_of_solid (startsSolid_of_mem hne h) (endsSolid_of_mem hne h)

/-- Blanks in front of a text do not matter at its front. -/
theorem trimStart_append_of_isBlank {front : List Char} (h : ∀ c ∈ front, isBlank c = true)
    (text : List Char) : trimStart (front ++ text) = trimStart text :=
  List.dropWhile_append_of_pos h

/-- Blanks behind a text do not matter at its end. -/
theorem trimEnd_append_of_isBlank {back : List Char} (h : ∀ c ∈ back, isBlank c = true)
    (text : List Char) : trimEnd (text ++ back) = trimEnd text := by
  rw [trimEnd, List.reverse_append, List.dropWhile_append_of_pos fun c hc =>
    h c (List.mem_reverse.mp hc)]
  rfl

theorem trimStart_cons_of_isBlank {c : Char} {text : List Char} (hc : isBlank c = true) :
    trimStart (c :: text) = trimStart text :=
  List.dropWhile_cons_of_pos hc

theorem StartsSolid.append {text : List Char} (h : StartsSolid text) (rest : List Char) :
    StartsSolid (text ++ rest) := by
  obtain ⟨c, tail, rfl, hc⟩ := h
  exact ⟨c, tail ++ rest, rfl, hc⟩

theorem EndsSolid.append {text : List Char} (h : EndsSolid text) (front : List Char) :
    EndsSolid (front ++ text) := by
  obtain ⟨c, init, rfl, hc⟩ := h
  exact ⟨c, front ++ init, (List.append_assoc ..).symm, hc⟩

/-- A blank in front of a solid text is taken off. -/
theorem trim_cons_of_isBlank {c : Char} {text : List Char} (hc : isBlank c = true)
    (hstart : StartsSolid text) (hend : EndsSolid text) : trim (c :: text) = text := by
  rw [trim, trimStart_cons_of_isBlank hc, trimStart_of_startsSolid hstart,
    trimEnd_of_endsSolid hend]

/-- **Blanks on both sides** of a solid text are taken off. -/
theorem trim_between {front text back : List Char} (hfront : ∀ c ∈ front, isBlank c = true)
    (hback : ∀ c ∈ back, isBlank c = true) (hstart : StartsSolid text) (hend : EndsSolid text) :
    trim (front ++ text ++ back) = text := by
  rw [trim, List.append_assoc, trimStart_append_of_isBlank hfront,
    trimStart_of_startsSolid (hstart.append back), trimEnd_append_of_isBlank hback,
    trimEnd_of_endsSolid hend]

/-! ### What is taken off -/

/-- Behind the text without its trailing blanks are these blanks. -/
theorem exists_append_trimEnd (text : List Char) :
    ∃ back, text = trimEnd text ++ back ∧ ∀ c ∈ back, isBlank c = true := by
  refine ⟨(text.reverse.takeWhile isBlank).reverse, ?_, fun c hc =>
    List.all_eq_true.mp List.all_takeWhile c (List.mem_reverse.mp hc)⟩
  rw [trimEnd, ← List.reverse_append, List.takeWhile_append_dropWhile, List.reverse_reverse]

/-- **A text is what is left of it** between the blanks that are taken off. -/
theorem exists_append_trim (text : List Char) :
    ∃ front back, text = front ++ trim text ++ back ∧ (∀ c ∈ front, isBlank c = true) ∧
      ∀ c ∈ back, isBlank c = true := by
  obtain ⟨back, htext, hback⟩ := exists_append_trimEnd (trimStart text)
  refine ⟨text.takeWhile isBlank, back, ?_,
    fun c hc => List.all_eq_true.mp List.all_takeWhile c hc, hback⟩
  rw [List.append_assoc, trim, ← htext, trimStart, List.takeWhile_append_dropWhile]

theorem startsSolid_trimStart {text : List Char} (h : trimStart text ≠ []) :
    StartsSolid (trimStart text) :=
  ⟨_, _, (List.cons_head_tail h).symm, List.head_dropWhile_not isBlank h⟩

theorem endsSolid_trimEnd {text : List Char} (h : trimEnd text ≠ []) :
    EndsSolid (trimEnd text) := by
  have hne : trimStart text.reverse ≠ [] := by simpa [trimEnd, trimStart] using h
  obtain ⟨c, rest, hreverse, hc⟩ := startsSolid_trimStart hne
  refine ⟨c, rest.reverse, ?_, hc⟩
  rw [trimEnd, ← List.reverse_cons, ← hreverse, trimStart]

/-- If something is left, it begins with the first character that is not blank. -/
theorem exists_of_trim_ne_nil {text : List Char} (h : trim text ≠ []) :
    ∃ blanks c rest, text = blanks ++ c :: rest ∧ (∀ d ∈ blanks, isBlank d = true) ∧
      isBlank c = false ∧ trim text = c :: trimEnd rest := by
  have hstart : trimStart text ≠ [] := by
    intro hnil
    rw [trim, hnil] at h
    exact h rfl
  obtain ⟨c, rest, htext, hc⟩ := startsSolid_trimStart hstart
  refine ⟨text.takeWhile isBlank, c, rest, ?_,
    fun d hd => List.all_eq_true.mp List.all_takeWhile d hd, hc, ?_⟩
  · rw [← htext, trimStart, List.takeWhile_append_dropWhile]
  · rw [trim, htext, ← List.nil_append (c :: rest), trimEnd_append_cons hc, List.nil_append]

/-- What is left is solid at both ends. -/
theorem solid_trim {text : List Char} (h : trim text ≠ []) :
    StartsSolid (trim text) ∧ EndsSolid (trim text) := by
  refine ⟨?_, endsSolid_trimEnd h⟩
  obtain ⟨_, c, rest, -, -, hc, htrim⟩ := exists_of_trim_ne_nil h
  exact ⟨c, trimEnd rest, htrim, hc⟩

/-- What stands in front of a text that is not blank stays when its end is trimmed. -/
theorem trimEnd_append {text : List Char} (h : trim text ≠ []) (front : List Char) :
    trimEnd (front ++ text) = front ++ trimEnd text := by
  obtain ⟨blanks, c, rest, rfl, -, hc, -⟩ := exists_of_trim_ne_nil h
  rw [← List.append_assoc, trimEnd_append_cons hc, trimEnd_append_cons hc, List.append_assoc]

/-- It does not matter which end is trimmed first. -/
theorem trimStart_trimEnd {text : List Char} (h : trim text ≠ []) :
    trimStart (trimEnd text) = trim text := by
  obtain ⟨blanks, c, rest, htext, hblanks, hc, htrim⟩ := exists_of_trim_ne_nil h
  rw [htrim, htext, trimEnd_append_cons hc, trimStart_append_of_isBlank hblanks,
    trimStart_of_startsSolid ⟨c, _, rfl, hc⟩]

/-- **Behind a text that begins solid** only the end of another is trimmed. -/
theorem trim_append {front text : List Char} (hfront : StartsSolid front)
    (h : trim text ≠ []) : trim (front ++ text) = front ++ trimEnd text := by
  rw [trim, trimStart_of_startsSolid (hfront.append text), trimEnd_append h]

end Text

end TableQuery
