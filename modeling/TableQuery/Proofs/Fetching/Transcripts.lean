import TableQuery.Proofs.Fetching.Requests

/-!
# Transcripts

What passes between a computation and a source: the requests, in the order in which they
are made, and what each of them is answered with. A transcript does not say why the
source answers as it does. It may answer the same request one way now and another way
later, so what is shown of every transcript (`TableQuery.Fetching.Transcript`) holds
against every source: against one that answers by the request alone
(`TableQuery.Fetching.transcript_runOn`) and over a connection that counts its requests
and breaks down at times (`TableQuery.Fetching.transcript_settle`).

A transcript of a sequence falls into one of its first part and one of the rest
(`TableQuery.Fetching.transcript_bind_iff`), so requests are counted part by part.
-/

namespace TableQuery

/-- A connection counts each request, whatever it is answered with. -/
theorem Connection.fetches_fetch (c : Connection) (call : FetchCall) :
    (c.fetch call).2.fetches = c.fetches + 1 := by
  rw [fetch, answer]
  split <;> rfl

namespace Fetching

variable {α β : Type}

/-- The computation may come to the result after having made the requests, in this order,
and having been answered so. -/
inductive Transcript :
    Fetching α → List (FetchCall × FetchAnswer) → Except Error α → Prop where
  | done (a : α) : Transcript (done a) [] (.ok a)
  | failed (e : Error) : Transcript (failed e) [] (.error e)
  | fetch (call : FetchCall) (answer : FetchAnswer) {next : FetchAnswer → Fetching α}
      {log : List (FetchCall × FetchAnswer)} {result : Except Error α} :
      Transcript (next answer) log result →
        Transcript (fetch call next) ((call, answer) :: log) result

variable {t : Fetching α} {f : α → Fetching β} {log : List (FetchCall × FetchAnswer)}

/-! ### Part by part -/

theorem transcript_done_iff {a : α} {result : Except Error α} :
    Transcript (done a) log result ↔ log = [] ∧ result = .ok a := by
  constructor
  · rintro ⟨⟩
    exact ⟨rfl, rfl⟩
  · rintro ⟨rfl, rfl⟩
    exact .done a

theorem transcript_failed_iff {e : Error} {result : Except Error α} :
    Transcript (failed e) log result ↔ log = [] ∧ result = .error e := by
  constructor
  · rintro ⟨⟩
    exact ⟨rfl, rfl⟩
  · rintro ⟨rfl, rfl⟩
    exact .failed e

/-- **A sequence that succeeds** has gone through its first part and then through the rest. -/
theorem transcript_bind_iff {b : β} :
    Transcript (t >>= f) log (.ok b) ↔
      ∃ a front rest, Transcript t front (.ok a) ∧ Transcript (f a) rest (.ok b) ∧
        log = front ++ rest := by
  constructor
  · intro h
    induction t generalizing log with
    | done a => exact ⟨a, [], log, .done a, h, rfl⟩
    | failed e => cases h
    | fetch call next ih =>
      cases h with
      | fetch _ answer h =>
        obtain ⟨a, front, rest, hfront, hrest, rfl⟩ := ih answer h
        exact ⟨a, (call, answer) :: front, rest, .fetch call answer hfront, hrest, rfl⟩
  · rintro ⟨a, front, rest, hfront, hrest, rfl⟩
    generalize hresult : Except.ok a = result at hfront
    induction hfront with
    | done a' =>
      obtain rfl := Except.ok.inj hresult
      exact hrest
    | failed e => cases hresult
    | fetch call answer _ ih => exact .fetch call answer (ih hresult)

/-- A check passes nothing to the source. -/
theorem transcript_lift_bind_iff {r : Except Error α} {b : β} :
    Transcript ((liftM r : Fetching α) >>= f) log (.ok b) ↔
      ∃ a, r = .ok a ∧ Transcript (f a) log (.ok b) := by
  cases r with
  | ok a => simp
  | error e => simp [transcript_failed_iff]

/-- A request that succeeds has been answered with its rows. -/
theorem transcript_request_iff {call : FetchCall} {rows : List Row} :
    Transcript (request call) log (.ok rows) ↔ log = [(call, .ok rows)] := by
  constructor
  · intro h
    cases h with
    | fetch _ answer h =>
      cases answer with
      | error e => cases h
      | ok answered =>
        cases h
        rfl
  · rintro rfl
    exact .fetch call _ (.done rows)

/-- What holds of every request holds of those of a transcript. -/
theorem EveryFetch.of_mem_transcript {P : FetchCall → Prop} {result : Except Error α}
    (h : EveryFetch P t) (htranscript : Transcript t log result) : ∀ e ∈ log, P e.1 := by
  induction htranscript with
  | done a | failed e => exact fun e he => absurd he List.not_mem_nil
  | fetch call answer _ ih =>
    cases h with
    | fetch _ _ hcall hnext =>
      intro e he
      rcases List.mem_cons.mp he with rfl | he
      · exact hcall
      · exact ih (hnext answer) e he

/-! ### Transcripts there are -/

/-- A run against a source leaves a transcript of its requests, each with the answer of
the source. -/
theorem transcript_runOn (t : Fetching α) (source : FetchCall → FetchAnswer) :
    Transcript t ((t.runOn source).2.map fun call => (call, source call)) (t.runOn source).1 := by
  induction t with
  | done a => exact .done a
  | failed e => exact .failed e
  | fetch call next ih => exact .fetch call (source call) (ih (source call))

/-- What holds of every request holds of those of a run. -/
theorem EveryFetch.of_mem_runOn {P : FetchCall → Prop} (h : EveryFetch P t)
    {source : FetchCall → FetchAnswer} : ∀ call ∈ (t.runOn source).2, P call :=
  fun call hcall => h.of_mem_transcript (transcript_runOn t source) (call, source call)
    (List.mem_map_of_mem hcall)

/-- **Over a connection** there is a transcript too, and the connection has counted its
requests. -/
theorem transcript_settle (t : Fetching α) (c : Connection) :
    ∃ log, Transcript t log (t.settle c).1 ∧ (t.settle c).2.fetches = c.fetches + log.length := by
  induction t generalizing c with
  | done a => exact ⟨[], .done a, rfl⟩
  | failed e => exact ⟨[], .failed e, rfl⟩
  | fetch call next ih =>
    obtain ⟨log, hlog, hcount⟩ := ih (c.fetch call).1 (c.fetch call).2
    refine ⟨(call, (c.fetch call).1) :: log, .fetch call _ hlog, ?_⟩
    rw [List.length_cons, settle, hcount, Connection.fetches_fetch]
    omega

end Fetching

end TableQuery
