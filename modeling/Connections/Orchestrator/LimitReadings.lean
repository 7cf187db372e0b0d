import Connections.Orchestrator.ModelCallErrors

/-!
# The limits that a 429 is read as

A failure is classified as malformed output, as a model error, or as the limit that a 429 was read
as.  Nothing but Google's reading throws, and nothing but Google's gives a negative wait.  Groq and
Mistral read every 429 as a limit; OpenRouter and SambaNova tell the limit of a day by the distance
of the reset.
-/

namespace Connections

variable {host : Host} {provider : ModelProvider} {details : SolveErrorDetails} {error : CallError}
  {call : APICallError} {message : String} {solveError : SolveError}

section Limits

/-- An error that a 429 was read as: a limit, with the request and what was known of the step.  Only
the waits are its own. -/
structure ReadOff (call : APICallError) (details : SolveErrorDetails) (solveError : SolveError) :
    Prop where
  limited : solveError.code = .rateLimited ∨ solveError.code = .rateLimitedDaily
  details : solveError.details = { details.withCall call with
    errorName := some call.name
    retryAfterSeconds := solveError.details.retryAfterSeconds
    dailyResetSeconds := solveError.details.dailyResetSeconds }

theorem readOff_rateLimited (limit : String) (retryAfterSeconds : Option ℚ) :
    ReadOff call details (rateLimited limit retryAfterSeconds call message details) :=
  ⟨.inl rfl, rfl⟩

theorem readOff_quotaExhausted (quota : String) (dailyResetSeconds : Option ℚ) :
    ReadOff call details (quotaExhausted quota call message
      { details with dailyResetSeconds := dailyResetSeconds }) :=
  ⟨.inr rfl, rfl⟩

theorem readOff_byResetDistance {limit : String} {resetSeconds retryAfter : Option ℚ}
    (h : byResetDistance limit resetSeconds retryAfter call message details = some solveError) :
    ReadOff call details solveError := by
  unfold byResetDistance at h
  split at h
  · split at h
    · cases h
      exact readOff_quotaExhausted _ _
    · cases h
      exact readOff_rateLimited _ _
  · cases h

theorem readOff_googleClassifier
    (h : googleClassifier host call message details = .ok (some solveError)) :
    ReadOff call details solveError := by
  unfold googleClassifier at h
  cases hminute : parseGoogleRateLimit host call.responseBody with
  | error thrown => simp [hminute, bind, Except.bind] at h
  | ok found =>
    cases found with
    | some retryAfterSeconds =>
      simp only [hminute, bind, Except.bind, pure, Except.pure, Except.ok.injEq,
        Option.some.injEq] at h
      subst h
      exact readOff_rateLimited _ _
    | none =>
      cases hday : isGoogleDailyRateLimit host call.responseBody with
      | error thrown => simp [hminute, hday, bind, Except.bind] at h
      | ok isDaily =>
        cases isDaily with
        | false => simp [hminute, hday, bind, Except.bind, pure, Except.pure] at h
        | true =>
          simp only [hminute, hday, bind, Except.bind, pure, Except.pure, if_true,
            Except.ok.injEq, Option.some.injEq] at h
          subst h
          exact readOff_quotaExhausted _ details.dailyResetSeconds

/-- Every reading of a 429 gives a limit or nothing. -/
theorem readOff_of_classifier {classifier : RateLimit429Classifier}
    (hclassifier : rateLimit429Classifiers host provider = some classifier)
    (h : classifier call message details = .ok (some solveError)) :
    ReadOff call details solveError := by
  cases provider with
  | openai | ollama | nvidia => cases hclassifier
  | google =>
    cases hclassifier
    exact readOff_googleClassifier h
  | groq =>
    cases hclassifier
    unfold groqClassifier at h
    dsimp only at h
    split at h
    · cases h
      exact readOff_quotaExhausted _ _
    · cases h
      exact readOff_rateLimited _ _
  | openrouter | sambanova =>
    cases hclassifier
    exact readOff_byResetDistance (Except.ok.inj h)
  | mistral =>
    cases hclassifier
    unfold mistralClassifier at h
    split at h
    · cases h
      exact readOff_quotaExhausted _ details.dailyResetSeconds
    · cases h
      exact readOff_rateLimited _ _

/-- No retry is behind the retries. -/
theorem CallError.last_ne_retry (error lastError : CallError) : error.last ≠ .retry lastError := by
  induction error with
  | retry inner ih => exact ih
  | _ => simp [last]

/-- What a failure is classified as. -/
inductive Classified (host : Host) (provider : ModelProvider) (details : SolveErrorDetails) :
    CallError → SolveError → Prop
  | malformed (message : String) (usage : Option CallUsage) :
    Classified host provider details (.malformed message usage)
      ⟨.invalidGroup, s!"Model produced a malformed response: {message}",
        { details with usage := usage }⟩
  | limit (call : APICallError) (classifier : RateLimit429Classifier) (solveError : SolveError)
    (status : call.statusCode = some 429)
    (chosen : rateLimit429Classifiers host provider = some classifier)
    (read : classifier call call.message details = .ok (some solveError)) :
    Classified host provider details (.apiCall call) solveError
  | call (call : APICallError) : Classified host provider details (.apiCall call)
    (modelError call.message (some call.name) (details.withCall call))
  | other (error : Option (String × String)) : Classified host provider details (.other error)
    (modelError ((error.map (·.1)).getD "Unknown model error") (error.map (·.2))
      { details with requestBody := none, statusCode := none })

/-- A failure is malformed output, a limit that a 429 was read as, or a model error. -/
theorem classifyModelCallError_cases
    (h : classifyModelCallError host provider details error = .ok solveError) :
    Classified host provider details error.last solveError := by
  rw [classifyModelCallError_last] at h
  cases hlast : error.last with
  | retry lastError => exact absurd hlast (error.last_ne_retry lastError)
  | malformed message usage =>
    rw [hlast] at h
    cases h
    exact .malformed message usage
  | other unknown =>
    rw [hlast] at h
    cases h
    exact .other unknown
  | apiCall call =>
    rw [hlast, classifyModelCallError] at h
    by_cases hstatus : call.statusCode = some 429
    · cases hclassifier : rateLimit429Classifiers host provider with
      | none =>
        simp only [hstatus, hclassifier, if_true, bind, Except.bind, pure, Except.pure,
          Option.getD_none, Except.ok.injEq] at h
        exact h ▸ .call call
      | some classifier =>
        cases hread : classifier call call.message details with
        | error thrown => simp [hstatus, hclassifier, hread, bind, Except.bind] at h
        | ok classified =>
          simp only [hstatus, hclassifier, hread, if_true, bind, Except.bind, pure, Except.pure,
            Except.ok.injEq] at h
          cases classified with
          | none => exact h ▸ .call call
          | some limit =>
            exact h ▸ .limit call classifier _ hstatus hclassifier hread
    · simp only [hstatus, if_false, bind, Except.bind, pure, Except.pure, Option.getD_none,
        Except.ok.injEq] at h
      exact h ▸ .call call

/-- Only a 429 is classified as a limit, and with the request that hit it. -/
theorem status_of_limited (h : classifyModelCallError host provider details error = .ok solveError)
    (hlimited : solveError.code = .rateLimited ∨ solveError.code = .rateLimitedDaily) :
    ∃ call, error.last = .apiCall call ∧ call.statusCode = some 429 ∧
      solveError.details.requestBody = call.requestBodyValues ∧
      solveError.details.responseBody = call.responseBody := by
  have hcases := classifyModelCallError_cases h
  generalize error.last = last at hcases
  cases hcases with
  | malformed | call | other => simp [modelError] at hlimited
  | limit call classifier _ hstatus hchosen hread =>
    have hdetails := (readOff_of_classifier hchosen hread).details
    exact ⟨call, rfl, hstatus, by rw [hdetails]; rfl, by rw [hdetails]; rfl⟩

/-- What is known of the step, whatever the call came back with. -/
def SolveErrorDetails.ofStep (details : SolveErrorDetails) : SolveErrorDetails :=
  { noDetails with
    prompt := details.prompt
    model := details.model
    contextWindow := details.contextWindow
    latencyMs := details.latencyMs
    temperature := details.temperature
    responseId := details.responseId }

/-- What is known of the step rides along on every error. -/
theorem ofStep_classifyModelCallError
    (h : classifyModelCallError host provider details error = .ok solveError) :
    solveError.details.ofStep = details.ofStep := by
  have hcases := classifyModelCallError_cases h
  generalize error.last = last at hcases
  cases hcases with
  | malformed | call | other => rfl
  | limit call classifier _ hstatus hchosen hread =>
    rw [(readOff_of_classifier hchosen hread).details]
    rfl

end Limits

section Waits

/-- The waits of an error are not negative. -/
def SolveErrorDetails.WaitsNonneg (details : SolveErrorDetails) : Prop :=
  (∀ seconds ∈ details.retryAfterSeconds, 0 ≤ seconds) ∧
    ∀ seconds ∈ details.dailyResetSeconds, 0 ≤ seconds

theorem nonneg_or {a b : Option ℚ} (ha : ∀ seconds ∈ a, 0 ≤ seconds)
    (hb : ∀ seconds ∈ b, 0 ≤ seconds) : ∀ seconds ∈ a.or b, 0 ≤ seconds := by
  cases a with
  | none => exact hb
  | some wait => exact ha

theorem waitsNonneg_byResetDistance {limit : String} {resetSeconds retryAfter : Option ℚ}
    (hreset : ∀ seconds ∈ resetSeconds, 0 ≤ seconds)
    (hretry : ∀ seconds ∈ retryAfter, 0 ≤ seconds) (hdetails : details.WaitsNonneg)
    (h : byResetDistance limit resetSeconds retryAfter call message details = some solveError) :
    solveError.details.WaitsNonneg := by
  unfold byResetDistance at h
  split at h
  · split at h
    · cases h
      exact ⟨hdetails.1, hreset⟩
    · cases h
      exact ⟨nonneg_or hretry hreset, hdetails.2⟩
  · cases h

/-- No reading but Google's gives a negative wait. -/
theorem waitsNonneg_of_classifier {classifier : RateLimit429Classifier}
    (hprovider : provider ≠ .google) (hdetails : details.WaitsNonneg)
    (hclassifier : rateLimit429Classifiers host provider = some classifier)
    (h : classifier call message details = .ok (some solveError)) :
    solveError.details.WaitsNonneg := by
  have hseconds : ∀ name, ∀ seconds ∈ parseSecondsHeader host.number (call.header name),
      0 ≤ seconds := fun _ _ => parseSecondsHeader_nonneg
  have hduration : ∀ name, ∀ seconds ∈ parseGroqResetDuration (call.header name), 0 ≤ seconds :=
    fun _ _ => parseGroqResetDuration_nonneg
  cases provider with
  | openai | ollama | nvidia => cases hclassifier
  | google => exact absurd rfl hprovider
  | groq =>
    cases hclassifier
    unfold groqClassifier at h
    dsimp only at h
    split at h
    · cases h
      refine ⟨hdetails.1, ?_⟩
      change ∀ seconds ∈ ite _ _ _, 0 ≤ seconds
      split
      · exact hduration _
      · exact nonneg_or (hduration _) (hseconds _)
    · cases h
      exact ⟨nonneg_or (hseconds _) (hduration _), hdetails.2⟩
  | openrouter =>
    cases hclassifier
    exact waitsNonneg_byResetDistance (fun _ => parseResetTimestampSeconds_nonneg) (hseconds _)
      hdetails (Except.ok.inj h)
  | sambanova =>
    cases hclassifier
    have hminute := nonneg_or (hduration "x-ratelimit-reset-requests") (hseconds "retry-after")
    exact waitsNonneg_byResetDistance (nonneg_or (hduration _) hminute) hminute hdetails
      (Except.ok.inj h)
  | mistral =>
    cases hclassifier
    unfold mistralClassifier at h
    split at h
    · cases h
      exact hdetails
    · cases h
      exact ⟨hseconds _, hdetails.2⟩

/-- No classification but Google's gives a negative wait. -/
theorem waitsNonneg_classifyModelCallError (hprovider : provider ≠ .google)
    (hdetails : details.WaitsNonneg)
    (h : classifyModelCallError host provider details error = .ok solveError) :
    solveError.details.WaitsNonneg := by
  have hcases := classifyModelCallError_cases h
  generalize error.last = last at hcases
  cases hcases with
  | malformed | call | other => exact hdetails
  | limit call classifier _ hstatus hchosen hread =>
    exact waitsNonneg_of_classifier hprovider hdetails hchosen hread

end Waits

section Providers

/-- No classification but Google's throws. -/
theorem classifyModelCallError_isOk (hprovider : provider ≠ .google) (details : SolveErrorDetails)
    (error : CallError) :
    ∃ solveError, classifyModelCallError host provider details error = .ok solveError := by
  have hread : ∀ classifier, rateLimit429Classifiers host provider = some classifier →
      ∀ call message details, ∃ read, classifier call message details = .ok read := by
    intro classifier hclassifier call message details
    cases provider with
    | openai | ollama | nvidia => cases hclassifier
    | google => exact absurd rfl hprovider
    | openrouter | sambanova =>
      cases hclassifier
      exact ⟨_, rfl⟩
    | groq | mistral =>
      cases hclassifier
      simp only [groqClassifier, mistralClassifier]
      split
      · exact ⟨_, rfl⟩
      · exact ⟨_, rfl⟩
  rw [classifyModelCallError_last]
  cases hlast : error.last with
  | retry lastError => exact absurd hlast (error.last_ne_retry lastError)
  | malformed message usage => exact ⟨_, rfl⟩
  | other unknown => exact ⟨_, rfl⟩
  | apiCall call =>
    unfold classifyModelCallError
    split
    · cases hclassifier : rateLimit429Classifiers host provider with
      | none => exact ⟨_, rfl⟩
      | some classifier =>
        obtain ⟨read, hread⟩ := hread classifier hclassifier call call.message details
        exact ⟨_, by simp only [hread]; rfl⟩
    · exact ⟨_, rfl⟩

/-- A 429 is classified as its provider reads it. -/
theorem classifyModelCallError_of_read {classifier : RateLimit429Classifier}
    (herror : error.last = .apiCall call) (hstatus : call.statusCode = some 429)
    (hclassifier : rateLimit429Classifiers host provider = some classifier)
    (hread : classifier call call.message details = .ok (some solveError)) :
    classifyModelCallError host provider details error = .ok solveError := by
  rw [classifyModelCallError_last, herror, classifyModelCallError, if_pos hstatus, hclassifier]
  simp only [hread]
  rfl

/-- A 429 of Groq is the limit of a day just when no request is left or a quota per day is named;
otherwise it is tried again in place. -/
theorem groq_daily_iff (herror : error.last = .apiCall call)
    (hstatus : call.statusCode = some 429) :
    ∃ solveError, classifyModelCallError host .groq details error = .ok solveError ∧
      (solveError.code = .rateLimitedDaily ∨ solveError.code = .rateLimited) ∧
      (solveError.code = .rateLimitedDaily ↔
        call.header "x-ratelimit-remaining-requests" = some "0" ∨
        groqPerDayRateLimitDimension host.parseJson call.responseBody call.message ≠ none) := by
  by_cases hday : call.header "x-ratelimit-remaining-requests" = some "0" ∨
      groqPerDayRateLimitDimension host.parseJson call.responseBody call.message ≠ none
  · have hread : groqClassifier host call call.message details = .ok (some _) := if_pos hday
    exact ⟨_, classifyModelCallError_of_read herror hstatus rfl hread, .inl rfl,
      iff_of_true rfl hday⟩
  · have hread : groqClassifier host call call.message details = .ok (some _) := if_neg hday
    exact ⟨_, classifyModelCallError_of_read herror hstatus rfl hread, .inr rfl,
      iff_of_false (by simp) hday⟩

/-- A 429 of Mistral is the limit of a month just when it names one; otherwise it is tried again in
place. -/
theorem mistral_monthly_iff (herror : error.last = .apiCall call)
    (hstatus : call.statusCode = some 429) :
    ∃ solveError, classifyModelCallError host .mistral details error = .ok solveError ∧
      (solveError.code = .rateLimitedDaily ∨ solveError.code = .rateLimited) ∧
      (solveError.code = .rateLimitedDaily ↔
        mistralMonthlyRateLimitFromBody host.parseJson call.responseBody call.message) := by
  by_cases hmonth : mistralMonthlyRateLimitFromBody host.parseJson call.responseBody call.message
  · have hread : mistralClassifier host call call.message details = .ok (some _) := if_pos hmonth
    exact ⟨_, classifyModelCallError_of_read herror hstatus rfl hread, .inl rfl,
      iff_of_true rfl hmonth⟩
  · have hread : mistralClassifier host call call.message details = .ok (some _) := if_neg hmonth
    exact ⟨_, classifyModelCallError_of_read herror hstatus rfl hread, .inr rfl,
      iff_of_false (by simp) hmonth⟩

/-- A reset that is known is that of a day just when it is far enough out, and the model is parked
until then. -/
theorem byResetDistance_of_some (limit : String) (reset : ℚ) (retryAfter : Option ℚ)
    (call : APICallError) (message : String) (details : SolveErrorDetails) :
    ∃ solveError, byResetDistance limit (some reset) retryAfter call message details =
        some solveError ∧
      (solveError.code = .rateLimitedDaily ∧ solveError.details.dailyResetSeconds = some reset ∨
        solveError.code = .rateLimited) ∧
      (solveError.code = .rateLimitedDaily ↔ DAILY_RESET_THRESHOLD_SECONDS < reset) := by
  unfold byResetDistance
  rw [if_pos (.inl rfl), Option.any_some]
  by_cases hfar : DAILY_RESET_THRESHOLD_SECONDS < reset
  · rw [if_pos (decide_eq_true hfar)]
    exact ⟨_, rfl, .inl ⟨rfl, rfl⟩, iff_of_true rfl hfar⟩
  · rw [if_neg (by simpa using hfar)]
    exact ⟨_, rfl, .inr rfl, iff_of_false (by simp) hfar⟩

/-- A 429 of OpenRouter that names the time of its reset is the limit of a day just when the reset
is far enough ahead, and the model is then parked until the reset is past. -/
theorem openrouter_daily_iff {value : String} {resetMs : ℚ} (herror : error.last = .apiCall call)
    (hstatus : call.statusCode = some 429)
    (hheader : call.header "x-ratelimit-reset" = some value)
    (hvalue : host.number value = some resetMs) (hlater : host.now ≤ resetMs) :
    ∃ solveError, classifyModelCallError host .openrouter details error = .ok solveError ∧
      (solveError.code = .rateLimitedDaily ∧
          (∃ seconds ∈ solveError.details.dailyResetSeconds,
            resetMs ≤ host.now + seconds * 1000) ∨
        solveError.code = .rateLimited) ∧
      (solveError.code = .rateLimitedDaily ↔
        host.now + DAILY_RESET_THRESHOLD_SECONDS * 1000 < resetMs) := by
  obtain ⟨seconds, hseconds, hpast, -, hwhole⟩ := parseResetTimestampSeconds_spec hvalue hlater
  obtain ⟨solveError, hdistance, hcode, hdaily⟩ := byResetDistance_of_some "OpenRouter" seconds
    (parseSecondsHeader host.number (call.header "retry-after")) call call.message details
  have hread : openrouterClassifier host call call.message details = .ok (some solveError) := by
    rw [openrouterClassifier, hheader, hseconds, hdistance]
  refine ⟨solveError, classifyModelCallError_of_read herror hstatus rfl hread, ?_, ?_⟩
  · exact hcode.imp_left fun hday => ⟨hday.1, seconds, hday.2, hpast⟩
  · rw [hdaily]
    exact hwhole 120

/-- A 429 of SambaNova that names the reset of the day is the limit of a day just when that reset is
far enough ahead, and the model is then parked until it. -/
theorem sambanova_daily_iff {reset : ℚ} (herror : error.last = .apiCall call)
    (hstatus : call.statusCode = some 429)
    (hheader : parseGroqResetDuration (call.header "x-ratelimit-reset-requests-day") =
      some reset) :
    ∃ solveError, classifyModelCallError host .sambanova details error = .ok solveError ∧
      (solveError.code = .rateLimitedDaily ∧ solveError.details.dailyResetSeconds = some reset ∨
        solveError.code = .rateLimited) ∧
      (solveError.code = .rateLimitedDaily ↔ DAILY_RESET_THRESHOLD_SECONDS < reset) := by
  obtain ⟨solveError, hdistance, hcode, hdaily⟩ := byResetDistance_of_some "SambaNova" reset
    ((parseGroqResetDuration (call.header "x-ratelimit-reset-requests")).or
      (parseSecondsHeader host.number (call.header "retry-after"))) call call.message details
  have hread : sambanovaClassifier host call call.message details = .ok (some solveError) := by
    rw [sambanovaClassifier, hheader]
    exact congrArg Except.ok hdistance
  exact ⟨solveError, classifyModelCallError_of_read herror hstatus rfl hread, hcode, hdaily⟩

end Providers

end Connections
