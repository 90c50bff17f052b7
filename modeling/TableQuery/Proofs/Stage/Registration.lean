import TableQuery.Proofs.Json.Ascending
import TableQuery.Proofs.Text.ByteOrder
import TableQuery.Stage.Registry

/-!
# The first registration counts

A stage in a namespace asks for two keys, and names may hold dots: the bare name of one
stage can be the full key of another. Full keys and bare names share one space all the
same, and whichever call is the first to take a key has it for good
(`TableQuery.Registry.first_registration_counts`).

What carries this is that a registry is known by the calls that have succeeded, in their
order: under every key stands the first of these stages that asks for it
(`TableQuery.Registry.HoldsFirst`). So a call succeeds exactly if its full key is free,
and then its stage comes behind the others
(`TableQuery.Registry.HoldsFirst.register_of_free`).
-/

namespace TableQuery

/-- The stage asks for a key: its full key, or its bare name if it has a namespace. -/
def Stage.Claims (s : Stage) (key : String) : Prop :=
  key = s.signature.key ∨ (s.signature.space.isSome = true ∧ key = s.signature.name)

instance (s : Stage) (key : String) : Decidable (s.Claims key) :=
  inferInstanceAs (Decidable (_ ∨ _))

/-- The first of some stages that asks for a key. -/
def IsFirstClaim (stages : List Stage) (key : String) (s : Stage) : Prop :=
  ∃ front back, stages = front ++ s :: back ∧ s.Claims key ∧ ∀ t ∈ front, ¬t.Claims key

namespace Registry

/-- Registers stages one after another. A call that fails leaves the registry as it was. -/
def registerAll (r : Registry) (calls : List Stage) : Registry :=
  calls.foldl (fun r s => (r.register s).toOption.getD r) r

/-- The stages that are taken in when they are registered one after another. -/
def takenIn (r : Registry) : List Stage → List Stage
  | [] => []
  | s :: rest =>
    match r.register s with
    | .ok r' => s :: r'.takenIn rest
    | .error _ => r.takenIn rest

/-- A key that is the same as a name up to the case of ASCII letters, and has the least bytes of
all these. -/
structure IsLeastSpelling (r : Registry) (name key : String) : Prop where
  mem : key ∈ r.keys
  same : Text.sameIgnoringCase key.toList name.toList = true
  least : ∀ other ∈ r.keys, Text.sameIgnoringCase other.toList name.toList = true →
    Text.bytes key ≤ Text.bytes other

/-! ### What a registry holds -/

/-- The keys go up, and under each of them stands the first of some stages that asks for it. -/
structure HoldsFirst (r : Registry) (stages : List Stage) : Prop where
  ascending : Fields.Ascending r.stages
  get?_eq : ∀ key, r.stages.get? key = stages.find? fun s => decide (s.Claims key)

theorem holdsFirst_empty : HoldsFirst {} [] where
  ascending := Fields.ascending_nil
  get?_eq _ := rfl

theorem mem_keys_iff {r : Registry} {key : String} :
    key ∈ r.keys ↔ ∃ s, r.stages.get? key = some s := by
  rw [keys, Fields.get?, ← Option.isSome_iff_exists, List.lookup_isSome_iff]
  simp [List.mem_map]

theorem resolve?_of_mem_keys {r : Registry} {key : String} (h : key ∈ r.keys) :
    r.resolve? key = r.stages.get? key := by
  obtain ⟨s, hs⟩ := mem_keys_iff.mp h
  rw [resolve?, hs]

namespace HoldsFirst

variable {r : Registry} {stages : List Stage}

theorem get?_eq_some_iff (h : r.HoldsFirst stages) {key : String} {s : Stage} :
    r.stages.get? key = some s ↔ IsFirstClaim stages key s := by
  rw [h.get?_eq, List.find?_eq_some_iff_append]
  constructor
  · rintro ⟨hs, front, back, hstages, hfront⟩
    exact ⟨front, back, hstages, of_decide_eq_true hs, by simpa using hfront⟩
  · rintro ⟨front, back, hstages, hs, hfront⟩
    exact ⟨decide_eq_true hs, front, back, hstages, by simpa using hfront⟩

theorem mem_keys_iff (h : r.HoldsFirst stages) {key : String} :
    key ∈ r.keys ↔ ∃ s ∈ stages, s.Claims key := by
  rw [Registry.mem_keys_iff, ← Option.isSome_iff_exists, h.get?_eq, List.find?_isSome]
  simp

theorem hasKey_iff (h : r.HoldsFirst stages) {key : String} :
    r.hasKey key = true ↔ ∃ s ∈ stages, s.Claims key := by
  rw [hasKey, h.get?_eq, List.find?_isSome]
  simp

/-- Where the full key of a stage is taken the call fails. -/
theorem register_of_claimed (h : r.HoldsFirst stages) {s : Stage}
    (hclaimed : ∃ t ∈ stages, t.Claims s.signature.key) :
    r.register s = .error (.setup (.repeatedStage s.signature.key)) := by
  rw [Registry.register]
  exact if_pos (h.hasKey_iff.mpr hclaimed)

/-- Where the full key of a stage is free the stage is taken in behind the others. Its bare name
may be taken all the same, and the stage that has it keeps it. -/
theorem register_of_free (h : r.HoldsFirst stages) {s : Stage}
    (hfree : ¬∃ t ∈ stages, t.Claims s.signature.key) :
    ∃ r', r.register s = .ok r' ∧ r'.HoldsFirst (stages ++ [s]) := by
  have hkey : ¬r.hasKey s.signature.key = true := fun hkey => hfree (h.hasKey_iff.mp hkey)
  refine ⟨_, by rw [Registry.register]; exact if_neg hkey, ?_, fun key => ?_⟩
  · refine Fields.ascending_insert ?_ ..
    split
    · exact Fields.ascending_insert h.ascending ..
    · exact h.ascending
  · -- the first of the stages in front that asks for the key, or else the new one
    rw [List.find?_append, ← h.get?_eq, Fields.get?_insert, List.find?_singleton]
    have hnone : r.stages.get? s.signature.key = none := by simpa [hasKey] using hkey
    by_cases hfull : key = s.signature.key
    · subst hfull
      simp [hnone, Stage.Claims]
    rw [if_neg hfull]
    by_cases hbare : s.signature.space.isSome = true ∧ key = s.signature.name
    · obtain ⟨hspace, rfl⟩ := hbare
      cases hget : r.stages.get? s.signature.name with
      | some t => simp [hasKey, hget]
      | none => simp [hasKey, hget, hspace, Fields.get?_insert, Stage.Claims]
    · have hclaims : ¬s.Claims key := fun hclaims => hclaims.elim hfull hbare
      have hnew : (if decide (s.Claims key) = true then some s else none) = none :=
        if_neg (by simpa using hclaims)
      rw [hnew, Option.or_none]
      split
      · rename_i hspace
        rw [Fields.get?_insert, if_neg fun hname => hbare ⟨?_, hname⟩]
        exact (Bool.and_eq_true _ _ ▸ hspace : _ ∧ _).1
      · rfl

end HoldsFirst

/-! ### Names that are no keys -/

section Spelling

variable {r : Registry} {name : String}

theorem resolve?_of_notMem_keys (h : name ∉ r.keys) :
    r.resolve? name =
      (r.stages.find? fun e => Text.sameIgnoringCase e.1.toList name.toList).map Prod.snd := by
  cases hget : r.stages.get? name with
  | some s => exact absurd (mem_keys_iff.mpr ⟨s, hget⟩) h
  | none => rw [resolve?, hget]

/-- Along ascending keys the first one that matches is the least. -/
theorem isLeastSpelling_of_find? (h : Fields.Ascending r.stages) {key : String} {s : Stage}
    (hfind : (r.stages.find? fun e => Text.sameIgnoringCase e.1.toList name.toList) =
      some (key, s)) :
    r.IsLeastSpelling name key ∧ r.stages.get? key = some s := by
  obtain ⟨hsame, front, back, hstages, hfront⟩ := List.find?_eq_some_iff_append.mp hfind
  have hmem : (key, s) ∈ r.stages := List.mem_of_find?_eq_some hfind
  refine ⟨⟨List.mem_map_of_mem hmem, hsame, fun other hother hsame' => ?_⟩,
    h.get?_eq_some_iff.mpr hmem⟩
  obtain ⟨⟨_, t⟩, hentry, rfl⟩ := List.mem_map.mp hother
  have hback : ∀ e ∈ back, key < e.1 := by
    rw [Fields.Ascending, hstages] at h
    exact (List.pairwise_cons.mp (List.pairwise_append.mp h).2.1).1
  rw [hstages] at hentry
  rcases List.mem_append.mp hentry with hentry | hentry
  · have hdiffers := hfront _ hentry
    rw [hsame'] at hdiffers
    cases hdiffers
  rcases List.mem_cons.mp hentry with heq | hentry
  · exact Text.bytes_le_iff.mpr (le_of_eq (congrArg Prod.fst heq).symm)
  · exact Text.bytes_le_iff.mpr (le_of_lt (hback _ hentry))

theorem IsLeastSpelling.unique {key other : String} (h : r.IsLeastSpelling name key)
    (h' : r.IsLeastSpelling name other) : key = other :=
  le_antisymm (Text.bytes_le_iff.mp (h.least other h'.mem h'.same))
    (Text.bytes_le_iff.mp (h'.least key h.mem h.same))

/-- A name that is no key means the least of the keys that are the same. -/
theorem resolve?_eq_some_iff (h : Fields.Ascending r.stages) (hname : name ∉ r.keys) {s : Stage} :
    r.resolve? name = some s ↔ ∃ key, r.IsLeastSpelling name key ∧ r.stages.get? key = some s := by
  rw [resolve?_of_notMem_keys hname, Option.map_eq_some_iff]
  constructor
  · rintro ⟨⟨key, s⟩, hfind, rfl⟩
    exact ⟨key, isLeastSpelling_of_find? h hfind⟩
  · rintro ⟨key, hleast, hget⟩
    have hentry := h.get?_eq_some_iff.mp hget
    have hsome : (r.stages.find? fun e =>
        Text.sameIgnoringCase e.1.toList name.toList).isSome = true :=
      List.find?_isSome.mpr ⟨(key, s), hentry, hleast.same⟩
    obtain ⟨⟨other, t⟩, hfind⟩ := Option.isSome_iff_exists.mp hsome
    obtain ⟨hleast', hget'⟩ := isLeastSpelling_of_find? h hfind
    obtain rfl := hleast.unique hleast'
    exact ⟨_, hfind, Option.some.inj (hget'.symm.trans hget)⟩

theorem resolve?_eq_none_iff (hname : name ∉ r.keys) :
    r.resolve? name = none ↔
      ∀ key ∈ r.keys, Text.sameIgnoringCase key.toList name.toList = false := by
  rw [resolve?_of_notMem_keys hname, Option.map_eq_none_iff, List.find?_eq_none]
  simp [keys]

end Spelling

/-! ### Calls one after another -/

theorem registerAll_append (r : Registry) (calls later : List Stage) :
    r.registerAll (calls ++ later) = (r.registerAll calls).registerAll later :=
  List.foldl_append

theorem registerAll_concat_of_error {r : Registry} {calls : List Stage} {s : Stage} {e : Error}
    (h : (r.registerAll calls).register s = .error e) :
    r.registerAll (calls ++ [s]) = r.registerAll calls := by
  rw [registerAll_append, registerAll, List.foldl_cons, h]
  rfl

/-- Behind some calls a registry is known by the stages that they have added. -/
theorem HoldsFirst.registerAll {r : Registry} {stages : List Stage} (h : r.HoldsFirst stages)
    (calls : List Stage) : (r.registerAll calls).HoldsFirst (stages ++ r.takenIn calls) := by
  induction calls generalizing r stages with
  | nil => rwa [takenIn, List.append_nil]
  | cons s rest ih =>
    rw [Registry.registerAll, List.foldl_cons, takenIn]
    by_cases hclaimed : ∃ t ∈ stages, t.Claims s.signature.key
    · rw [h.register_of_claimed hclaimed]
      exact ih h
    · obtain ⟨r', hregister, h'⟩ := h.register_of_free hclaimed
      have hrest := ih h'
      rw [List.append_assoc] at hrest
      rw [hregister]
      exact hrest

theorem holdsFirst_registerAll (calls : List Stage) :
    (registerAll {} calls).HoldsFirst (takenIn {} calls) :=
  holdsFirst_empty.registerAll calls

/-- A key that is taken means the same stage for good. -/
theorem HoldsFirst.get?_registerAll {r : Registry} {stages : List Stage} (h : r.HoldsFirst stages)
    {key : String} {s : Stage} (hget : r.stages.get? key = some s) (later : List Stage) :
    (r.registerAll later).stages.get? key = some s := by
  rw [(h.registerAll later).get?_eq, List.find?_append, ← h.get?_eq, hget, Option.some_or]

/-- What calls of `register` on the empty registry come to. -/
structure FirstCounts (calls : List Stage) : Prop where
  /-- One more call fails if and only if its full key has been asked for by one of the stages that
  were taken in, be it as full key or as bare name. -/
  fails_iff : ∀ s, (∃ e, (registerAll {} calls).register s = .error e) ↔
    ∃ t ∈ takenIn {} calls, t.Claims s.signature.key
  /-- It fails for that reason, and the registry is then as it was. The latter says no more than
  how `registerAll` goes on: a call that fails hands no registry back, so the old one stays. -/
  unchanged : ∀ s e, (registerAll {} calls).register s = .error e →
    e = .setup (.repeatedStage s.signature.key) ∧
      registerAll {} (calls ++ [s]) = registerAll {} calls
  /-- The keys are those that were asked for by the stages that were taken in. -/
  keys : ∀ key, key ∈ (registerAll {} calls).keys ↔ ∃ s ∈ takenIn {} calls, s.Claims key
  /-- Under a key stands the first of these stages that asks for it. -/
  first : ∀ key s, (registerAll {} calls).stages.get? key = some s ↔
    IsFirstClaim (takenIn {} calls) key s
  /-- A key means the stage that stands under it. -/
  exact : ∀ key ∈ (registerAll {} calls).keys,
    (registerAll {} calls).resolve? key = (registerAll {} calls).stages.get? key
  /-- It does so whatever is called later. -/
  forGood : ∀ later, ∀ key ∈ (registerAll {} calls).keys,
    (registerAll {} (calls ++ later)).resolve? key = (registerAll {} calls).resolve? key
  /-- A name that is no key means the least of the keys that are the same up to case. -/
  spelling : ∀ name ∉ (registerAll {} calls).keys, ∀ s,
    (registerAll {} calls).resolve? name = some s ↔
      ∃ key, (registerAll {} calls).IsLeastSpelling name key ∧
        (registerAll {} calls).stages.get? key = some s
  /-- It means nothing if no key is the same. -/
  nothing : ∀ name ∉ (registerAll {} calls).keys,
    (registerAll {} calls).resolve? name = none ↔
      ∀ key ∈ (registerAll {} calls).keys,
        Text.sameIgnoringCase key.toList name.toList = false

/-- **The first registration of a key counts, for good**, whatever calls there are and however
their names collide. -/
theorem first_registration_counts (calls : List Stage) : FirstCounts calls := by
  have h := holdsFirst_registerAll calls
  refine ⟨fun s => ⟨?_, ?_⟩, fun s e hfails => ⟨?_, registerAll_concat_of_error hfails⟩,
    fun key => h.mem_keys_iff, fun key s => h.get?_eq_some_iff, fun key => resolve?_of_mem_keys,
    fun later key hkey => ?_, fun name hname s => resolve?_eq_some_iff h.ascending hname,
    fun name => resolve?_eq_none_iff⟩
  · rintro ⟨e, hfails⟩
    by_contra hfree
    obtain ⟨r', hregister, -⟩ := h.register_of_free hfree
    rw [hregister] at hfails
    cases hfails
  · exact fun hclaimed => ⟨_, h.register_of_claimed hclaimed⟩
  · by_cases hclaimed : ∃ t ∈ takenIn {} calls, t.Claims s.signature.key
    · rw [h.register_of_claimed hclaimed] at hfails
      exact (Except.error.inj hfails).symm
    · obtain ⟨r', hregister, -⟩ := h.register_of_free hclaimed
      rw [hregister] at hfails
      cases hfails
  · obtain ⟨s, hs⟩ := mem_keys_iff.mp hkey
    have hlater := h.get?_registerAll hs later
    rw [registerAll_append, resolve?_of_mem_keys (mem_keys_iff.mpr ⟨s, hlater⟩), hlater,
      resolve?_of_mem_keys hkey, hs]

/-- A bare name that holds a dot takes what would be the full key of another stage. -/
example :
    let stage (space : Option String) (name : String) : Stage := {
      signature := { name, space, category := .transform, input := .any, output := .any }
      run := fun _ _ value => return value }
    let r := registerAll {} [stage (some "text") "case.fold", stage (some "case") "fold"]
    r.keys = ["case.fold", "text.case.fold"] ∧
      (r.resolve? "Case.Fold").map (fun s => s.signature.key) = some "text.case.fold" := by
  decide +kernel

end Registry

end TableQuery
