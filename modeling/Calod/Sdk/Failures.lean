import Calod.Sdk.Wrapper

/-!
# What the caller sees of a function that failed

A function that fails, or whose result cannot be encoded, is recorded with one request before the
wrapper raises. `mustSee` is what the caller has to see; `failure_surfaces_iff` says for which
ends of that request it does.

Only `CalodError` is caught around the request. A transport error of it is raised in place of what
the caller has to see. A result with a `NaN` or a lone surrogate gets through `canonical_dumps` and
fails when it is committed.
-/

namespace Calod.Sdk

open Calod.Ledger Calod.Api Calod.Serde

variable {py : Python}

/-! ## The recording request -/

/-- Where the wrapper stands after the one attempt of its request, unless the request is sent
again. Without a request it stays where it is. -/
def Pc.attempted (invocation : Invocation) (retries : Nat) (ended : Option HttpResponse)
    (pc : Pc py) : Option (Pc py) :=
  match pc.request invocation with
  | none => some pc
  | some request => (afterAttempt request retries 0 ended).map fun result => pc.resume false result

/-- A `PATCH` is not sent again. -/
theorem afterAttempt_transition (effect : Effect) (leaseToken : String)
    (transition : EffectTransition) (result : Option Value) (failure : Option EffectFailure)
    (retries attempt : Nat) (ended : Option HttpResponse) :
    afterAttempt (transitionRequest effect leaseToken transition result failure) retries attempt
        ended
      = some (match ended with
        | none => .error .transport
        | some response =>
          if 400 ≤ response.status then .error (.calod (raiseForProblem response))
          else .ok response) := by
  have hpatch : idempotent (transitionRequest effect leaseToken transition result failure)
      = false := rfl
  cases ended with
  | none => simp [afterAttempt, hpatch]
  | some response =>
    simp only [afterAttempt, hpatch, Bool.false_eq_true, false_and, and_false, if_false]
    split <;> rfl

/-- The request got an answer: an error, or the effect. -/
def Answered : Option HttpResponse → Prop
  | none => False
  | some response => 400 ≤ response.status ∨ ∃ effect, response.body = .effect effect

/-- An answered request ended in success or in a `CalodError`, and no other request did. -/
theorem answered_iff (effect : Effect) (leaseToken : String) (transition : EffectTransition)
    (result : Option Value) (failure : Option EffectFailure) (retries attempt : Nat)
    (ended : Option HttpResponse) :
    ∃ recorded, afterAttempt (transitionRequest effect leaseToken transition result failure) retries
        attempt ended = some recorded ∧
      ((Answered ended ∧ ((∃ e, asEffect recorded = .ok e) ∨
          ∃ error, asEffect recorded = .error (.calod error))) ∨
        ¬ Answered ended ∧ (asEffect recorded = .error .transport ∨
          asEffect recorded = .error .malformed)) := by
  refine ⟨_, afterAttempt_transition .., ?_⟩
  cases ended with
  | none => exact Or.inr ⟨id, Or.inl rfl⟩
  | some response =>
    obtain ⟨status, body⟩ := response
    by_cases hstatus : 400 ≤ status
    · simp only [hstatus, if_true]
      exact Or.inl ⟨Or.inl hstatus, Or.inr ⟨_, rfl⟩⟩
    · simp only [hstatus, if_false]
      cases body with
      | effect e => exact Or.inl ⟨Or.inr ⟨e, rfl⟩, Or.inl ⟨e, rfl⟩⟩
      | _ =>
        refine Or.inr ⟨?_, Or.inr rfl⟩
        rintro (h | ⟨e, he⟩)
        · exact hstatus h
        · cases he

/-! ## What the caller sees -/

/-- Is there a JSON value for the result? -/
def serializable (result : py.Object) : Bool :=
  match py.normalize result with
  | .ok normalized => normalized.toValue.isSome
  | .error _ => false

/-- What the caller has to see of a call of the function, if it failed. -/
def mustSee (options : Options py) (effect : Effect) : ToolOutcome py → Option (Raised py)
  | .raised exc =>
    some (if classify options exc = .unknown then .outcomeUnknown effect else .tool exc)
  | .returned result => if serializable result then none else some (.outcomeUnknown effect)

/-- The failure gets into a recording request: its text has no lone surrogate, and a result that
cannot be encoded made `canonical_dumps` raise `TypeError` or `ValueError`. -/
def Recordable : ToolOutcome py → Prop
  | .raised exc => encodes (failureMessage py exc) = true
  | .returned result => ∃ error, py.normalize result = .error error ∧ error.cls ≠ .other ∧
      encodes (notSerializable error) = true

section

variable {options : Options py} {invocation : Invocation} {effect : Effect} {leaseToken : String}
  {retries : Nat} {ended : Option HttpResponse}

/-- What follows a recording request is what the caller has to see, if it was answered. -/
theorem exceptCalodError_eq_iff {recorded : Except ClientError HttpResponse} {exc : Raised py}
    (hclient : ∀ error, exc ≠ .client error)
    (h : (Answered ended ∧ ((∃ e, asEffect recorded = .ok e) ∨
          ∃ error, asEffect recorded = .error (.calod error))) ∨
        ¬ Answered ended ∧ (asEffect recorded = .error .transport ∨
          asEffect recorded = .error .malformed)) :
    exceptCalodError (.raised exc) (asEffect recorded) = .raised exc ↔ Answered ended := by
  rcases h with ⟨ha, ⟨e, he⟩ | ⟨error, he⟩⟩ | ⟨ha, he | he⟩ <;> rw [he]
  · exact iff_of_true rfl ha
  · exact iff_of_true rfl ha
  · exact iff_of_false (fun h => hclient _ (Pc.raised.inj h).symm) ha
  · exact iff_of_false (fun h => hclient _ (Pc.raised.inj h).symm) ha

/-- Recording an exception of the function. -/
theorem recording_attempted (exc : py.Exc) (classification : Classification) :
    (Pc.recording effect leaseToken exc classification).attempted invocation retries ended
        = some (.raised (if classification = .unknown then .outcomeUnknown effect else .tool exc))
      ↔ Answered ended := by
  obtain ⟨transition, failure, hrequest⟩ : ∃ transition failure,
      recordRequest effect leaseToken exc classification
        = transitionRequest effect leaseToken transition none failure := by
    cases classification <;> exact ⟨_, _, rfl⟩
  obtain ⟨recorded, hattempt, hended⟩ :=
    answered_iff effect leaseToken transition none failure retries 0 ended
  simp only [Pc.attempted, Pc.request, hrequest, hattempt, Option.map_some, Option.some.injEq]
  refine exceptCalodError_eq_iff (fun error he => ?_) hended
  split at he <;> cases he

/-- Recording that the result cannot be encoded. -/
theorem marking_attempted (error : DumpsError) :
    (Pc.marking effect leaseToken error : Pc py).attempted invocation retries ended
        = some (.raised (.outcomeUnknown effect))
      ↔ Answered ended := by
  obtain ⟨recorded, hattempt, hended⟩ :=
    answered_iff effect leaseToken .markOutcomeUnknown none
      (some { kind := "result_not_serializable"
              message := encoded (notSerializable error)
              retryable := false }) retries 0 ended
  simp only [Pc.attempted, Pc.request, markOutcomeUnknownRequest, hattempt, Option.map_some,
    Option.some.injEq]
  exact exceptCalodError_eq_iff (fun error he => by cases he) hended

/-- A `commit` never ends in `OutcomeUnknown`. -/
theorem committing_attempted (normalized : Json) :
    (Pc.committing effect leaseToken normalized : Pc py).attempted invocation retries ended
      ≠ some (.raised (.outcomeUnknown effect)) := by
  intro h
  obtain ⟨result, -, he⟩ := Option.map_eq_some_iff.mp h
  rw [Pc.resume] at he
  cases hresult : asEffect result <;> rw [hresult] at he <;> cases he

/-- A request that is not sent leaves the `UnicodeEncodeError`. -/
theorem sending_attempted {encodes : Bool} {pc : Pc py} {exc : Raised py} {P : Prop}
    (hexc : exc ≠ .unicodeEncode)
    (h : pc.attempted invocation retries ended = some (.raised exc) ↔ P) :
    (sending encodes pc).attempted invocation retries ended = some (.raised exc)
      ↔ P ∧ encodes = true := by
  cases encodes with
  | true => exact h.trans (and_iff_left rfl).symm
  | false =>
    refine iff_of_false (fun he => hexc ?_) (fun hp => Bool.noConfusion hp.2)
    exact (Pc.raised.inj (Option.some.inj he)).symm

end

/--
**When the caller sees what it has to see.** For every function that was entered and raised, or
returned what JSON cannot hold, and for every end of the request that follows: the caller sees
`OutcomeUnknown`, or the exception of the function, exactly if the failure got into a recording
request and that request was answered.
-/
theorem failure_surfaces_iff (options : Options py) (invocation : Invocation) (effect : Effect)
    (leaseToken : String) (retries : Nat) (ended : Option HttpResponse) (outcome : ToolOutcome py)
    {exc : Raised py} (hmust : mustSee options effect outcome = some exc) :
    (afterTool options effect leaseToken outcome).attempted invocation retries ended
        = some (.raised exc)
      ↔ Answered ended ∧ Recordable outcome := by
  cases outcome with
  | raised e =>
    cases hmust
    refine sending_attempted ?_ (recording_attempted e _)
    split <;> exact nofun
  | returned result =>
    obtain rfl : exc = .outcomeUnknown effect := by
      rw [mustSee] at hmust
      split at hmust
      · cases hmust
      · exact (Option.some.inj hmust).symm
    have hunknown : (.outcomeUnknown effect : Raised py) ≠ .unicodeEncode := nofun
    cases hn : py.normalize result with
    | ok normalized =>
      -- there is no recording request: the result is sent, or cannot be encoded
      have hrecordable : ¬ Recordable (.returned result : ToolOutcome py) := by
        rintro ⟨error, he, -⟩
        rw [hn] at he
        cases he
      simp only [afterTool, hn]
      rw [sending_attempted hunknown (iff_false_intro (committing_attempted normalized))]
      exact iff_of_false And.left fun h => hrecordable h.2
    | error error =>
      have hrecordable : Recordable (.returned result : ToolOutcome py)
          ↔ error.cls ≠ .other ∧ encodes (notSerializable error) = true := by
        simp only [Recordable, hn, Except.error.injEq, exists_eq_left']
      simp only [afterTool, hn, hrecordable]
      by_cases hother : error.cls = .other
      · rw [if_pos hother]
        exact iff_of_false (fun h => by cases h) fun h => h.2.1 hother
      · rw [if_neg hother, sending_attempted hunknown (marking_attempted error)]
        exact and_congr_right fun _ => (and_iff_right hother).symm

/-- An effect that was granted. -/
def Sample.effect : Effect :=
  (newEffect Ledger.Sample.crates Ledger.Sample.scope "order-0001"
    { runId := none, scope := "payments", toolName := "charge", input := .null
      leaseDurationSeconds := none, downstreamIdempotencySupported := false }
    30000 (Ledger.Sample.draws 1)).view

/-- A read timeout whose recording is refused, and a result that `canonical_dumps` does not take,
are reported as `OutcomeUnknown`. -/
theorem failure_surfaces_iff_conflict :
    (afterTool Sample.options Sample.effect "lease" (.raised "readtimeout")).attempted
        Sample.invocation 2 (some { status := 409, body := .problem "LEASE_LOST" [] })
      = some (.raised (.outcomeUnknown Sample.effect)) ∧
    (afterTool Sample.options Sample.effect "lease" (.returned none)).attempted
        Sample.invocation 2 (some { status := 200, body := .effect Sample.effect })
      = some (.raised (.outcomeUnknown Sample.effect)) :=
  ⟨(failure_surfaces_iff Sample.options Sample.invocation Sample.effect "lease" 2 _
      (.raised "readtimeout") rfl).mpr ⟨Or.inl (by decide), rfl⟩,
    (failure_surfaces_iff Sample.options Sample.invocation Sample.effect "lease" 2 _
      (.returned none) rfl).mpr ⟨Or.inr ⟨_, rfl⟩, _, rfl, nofun, rfl⟩⟩

/-- A read timeout whose recording ends in a transport error is reported as that error, a result
with a `NaN` as the error that the server answers, and one with a lone surrogate as
`UnicodeEncodeError`. -/
theorem transport_error_masks_outcome :
    let seen outcome ended := (mustSee Sample.options Sample.effect outcome,
      (afterTool Sample.options Sample.effect "lease" outcome).attempted Sample.invocation 2 ended)
    seen (.raised "readtimeout") none
        = (some (.outcomeUnknown Sample.effect), some (.raised (.client .transport))) ∧
      seen (.returned (some .notFinite))
          (some { status := 400, body := .problem "VALIDATION_ERROR" [] })
        = (some (.outcomeUnknown Sample.effect), some (.raised (.client (.calod
            { cls := .calodError, status := some 400, code := some "VALIDATION_ERROR" })))) ∧
      seen (.returned (some (.str [0xD800]))) none
        = (some (.outcomeUnknown Sample.effect), some (.raised .unicodeEncode)) :=
  ⟨rfl, rfl, rfl⟩

end Calod.Sdk
