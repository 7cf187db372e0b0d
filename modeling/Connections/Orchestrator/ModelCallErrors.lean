import Connections.Orchestrator.RateLimitSignals
import Connections.Strategy.Runner
import Mathlib.Data.List.Infix

/-!
# Failures of a model call

`classifyModelCallError` turns what the AI SDK throws into the error of a solve step.  Only a 429 is
read as a limit, by a reading of its provider.  Google's reads the body twice, for a quota per
minute and for one per day; both times it looks at the first quota failure of the body only, and the
first reading wins.
-/

namespace Connections

/-- The providers that a model is called at. -/
inductive ModelProvider
  | openai
  | ollama
  | google
  | groq
  | openrouter
  | mistral
  | sambanova
  | nvidia
  deriving DecidableEq, Repr

/-- The tokens that a call was billed for. -/
structure CallUsage where
  promptTokens : Option ℕ
  completionTokens : Option ℕ
  totalTokens : Option ℕ
  reasoningTokens : Option ℕ

/-- What rides along on the error of a solve step. -/
structure SolveErrorDetails where
  prompt : Option String
  model : Option String
  contextWindow : Option ℕ
  latencyMs : Option ℕ
  temperature : Option ℚ
  requestBody : Option Json
  responseId : Option String
  responseHeaders : Option (List (String × String))
  responseBody : Option String
  statusCode : Option ℕ
  errorName : Option String
  isRetryable : Option Bool
  retryAfterSeconds : Option ℚ
  dailyResetSeconds : Option ℚ
  usage : Option CallUsage

/-- The error of a solve step. -/
structure SolveError where
  code : SolveErrorCode
  message : String
  details : SolveErrorDetails

/-- A provider request that got no proper response. -/
structure APICallError where
  message : String
  name : String
  requestBodyValues : Option Json
  statusCode : Option ℕ
  responseHeaders : Option (List (String × String))
  responseBody : Option String
  isRetryable : Bool

/-- What the AI SDK throws. -/
inductive CallError
  /-- The retries are used up. -/
  | retry (lastError : CallError)
  /-- No object was generated, or not one of the schema, or no JSON. -/
  | malformed (message : String) (usage : Option CallUsage)
  | apiCall (call : APICallError)
  /-- Anything else, with message and name when it is an error. -/
  | other (error : Option (String × String))

/-- A text contains another one. -/
def includes (part text : String) : Bool := part.toList <:+: text.toList

/-- A text ends with another one. -/
def endsWith (ending text : String) : Bool := ending.toList <:+ text.toList

namespace Json

/-- A value that counts as true. -/
def isTruthy : Json → Bool
  | null => false
  | bool b => b
  | num mantissa _ => mantissa ≠ 0
  | str s => s ≠ ""
  | arr _ | obj _ => true

end Json

/-- What the orchestrator's host reads: JSON, the number that a text starts with, the number that a
whole text is, and the time in milliseconds.  Numbers are finite. -/
structure Host where
  parseJson : String → Option Json
  parseFloat : Json → Option ℚ
  number : String → Option ℚ
  now : ℚ

/-- A header of the response. -/
def APICallError.header (call : APICallError) (name : String) : Option String :=
  (call.responseHeaders.getD []).lookup name

/-- The details with those of the request, which overwrite them even where they are missing. -/
def SolveErrorDetails.withCall (details : SolveErrorDetails) (call : APICallError) :
    SolveErrorDetails :=
  { details with
    requestBody := call.requestBodyValues
    statusCode := call.statusCode
    responseHeaders := call.responseHeaders
    responseBody := call.responseBody
    isRetryable := some call.isRetryable }

section Readings

/-- How a provider reads a 429; nothing falls through to a model error. -/
abbrev RateLimit429Classifier :=
  APICallError → String → SolveErrorDetails → Except String (Option SolveError)

/-- A limit that the call may be tried again in place after. -/
def rateLimited (provider : String) (retryAfterSeconds : Option ℚ) (call : APICallError)
    (message : String) (details : SolveErrorDetails) : SolveError where
  code := .rateLimited
  message := s!"{provider} rate limit hit: {message}"
  details := { details.withCall call with
    errorName := some call.name
    retryAfterSeconds := retryAfterSeconds }

/-- A quota that parks the model. -/
def quotaExhausted (quota : String) (call : APICallError) (message : String)
    (details : SolveErrorDetails) : SolveError where
  code := .rateLimitedDaily
  message := s!"{quota} quota exhausted: {message}"
  details := { details.withCall call with errorName := some call.name }

@[simp] theorem rateLimited_code (provider : String) (retryAfterSeconds : Option ℚ)
    (call : APICallError) (message : String) (details : SolveErrorDetails) :
    (rateLimited provider retryAfterSeconds call message details).code = .rateLimited := rfl

@[simp] theorem quotaExhausted_code (quota : String) (call : APICallError) (message : String)
    (details : SolveErrorDetails) :
    (quotaExhausted quota call message details).code = .rateLimitedDaily := rfl

section Google

/-- An entry of the details of a type. -/
def hasDetailType (ending : String) (detail : Json) : Bool :=
  (detail.textField "@type").any (endsWith ending)

/-- A violation names a quota, by its id or by its metric. -/
def violationNames (quota : String) (violation : Json) : Bool :=
  (violation.textField "quotaId").any (includes quota) ||
    (violation.textField "quotaMetric").any (includes quota)

/-- The details of the body of a Google error. -/
def errorDetails (parsed : Json) : Option (List Json) :=
  ((parsed.field "error").bind (·.field "details")).bind Json.arr?

/-- What the host throws where the violations are neither missing nor a list. -/
def violationsNoList : String := "quotaFailure?.violations?.some is not a function"

/-- Whether a violation of the first quota failure names a quota. -/
def quotaFailureNames (quota : String) (details : List Json) : Except String Bool :=
  match details.find? (hasDetailType "QuotaFailure") with
  | none => .ok false
  | some quotaFailure => match quotaFailure.field "violations" with
    | none | some .null => .ok false
    | some (.arr violations) => .ok (violations.any (violationNames quota))
    | some _ => .error violationsNoList

variable (host : Host)

/-- The seconds to wait out a quota per minute, if the body names one; the seconds may be
missing. -/
def parseGoogleRateLimit (responseBody : Option String) : Except String (Option (Option ℚ)) :=
  match (responseBody.bind host.parseJson).bind errorDetails with
  | none => .ok none
  | some details => (quotaFailureNames "PerMinute" details).map fun isPerMinute =>
    if isPerMinute then
      let retryDelay := (details.find? (hasDetailType "RetryInfo")).bind (·.field "retryDelay")
      some ((retryDelay.filter Json.isTruthy).bind host.parseFloat)
    else none

/-- Whether the body names a quota per day. -/
def isGoogleDailyRateLimit (responseBody : Option String) : Except String Bool :=
  match (responseBody.bind host.parseJson).bind errorDetails with
  | none => .ok false
  | some details => quotaFailureNames "PerDay" details

/-- Google's reading of a 429: a quota per minute first, then one per day. -/
def googleClassifier : RateLimit429Classifier := fun call message details => do
  match ← parseGoogleRateLimit host call.responseBody with
  | some retryAfterSeconds =>
    return some (rateLimited "Google" retryAfterSeconds call message details)
  | none =>
    if ← isGoogleDailyRateLimit host call.responseBody then
      return some (quotaExhausted "Google daily" call message details)
    else return none

end Google

variable (host : Host)

/-- Groq's reading of a 429.  The time until the tokens of a day trickle back is no time to wait
for: a quota of tokens has the reset of the requests or none. -/
def groqClassifier : RateLimit429Classifier := fun call message details =>
  let perDayDimension := groqPerDayRateLimitDimension host.parseJson call.responseBody message
  let retryAfter := parseSecondsHeader host.number (call.header "retry-after")
  if call.header "x-ratelimit-remaining-requests" = some "0" ∨ perDayDimension ≠ none then
    let resetRequests := parseGroqResetDuration (call.header "x-ratelimit-reset-requests")
    let dailyResetSeconds :=
      if perDayDimension = some .tokens then resetRequests else resetRequests.or retryAfter
    .ok (some (quotaExhausted "Groq daily" call message
      { details with dailyResetSeconds := dailyResetSeconds }))
  else
    let resetTokens := parseGroqResetDuration (call.header "x-ratelimit-reset-tokens")
    .ok (some (rateLimited "Groq" (retryAfter.or resetTokens) call message details))

/-- A reset that is farther out than this is that of a day. -/
def DAILY_RESET_THRESHOLD_SECONDS : ℚ := 120

/-- A reading by the distance of the reset, beside a shorter wait. -/
def byResetDistance (provider : String) (resetSeconds retryAfter : Option ℚ) (call : APICallError)
    (message : String) (details : SolveErrorDetails) : Option SolveError :=
  if resetSeconds.isSome ∨ retryAfter.isSome then
    if resetSeconds.any (DAILY_RESET_THRESHOLD_SECONDS < ·) then
      some (quotaExhausted s!"{provider} daily" call message
        { details with dailyResetSeconds := resetSeconds })
    else some (rateLimited provider (retryAfter.or resetSeconds) call message details)
  else none

/-- OpenRouter's reading of a 429. -/
def openrouterClassifier : RateLimit429Classifier := fun call message details =>
  .ok (byResetDistance "OpenRouter"
    (parseResetTimestampSeconds host.number host.now (call.header "x-ratelimit-reset"))
    (parseSecondsHeader host.number (call.header "retry-after")) call message details)

/-- Mistral's reading of a 429. -/
def mistralClassifier : RateLimit429Classifier := fun call message details =>
  if mistralMonthlyRateLimitFromBody host.parseJson call.responseBody message then
    .ok (some (quotaExhausted "Mistral monthly" call message details))
  else
    .ok (some (rateLimited "Mistral"
      (parseSecondsHeader host.number (call.header "retry-after")) call message details))

/-- SambaNova's reading of a 429: the reset of the day, or else that of the minute. -/
def sambanovaClassifier : RateLimit429Classifier := fun call message details =>
  let dayResetSeconds := parseGroqResetDuration (call.header "x-ratelimit-reset-requests-day")
  let minuteResetSeconds := (parseGroqResetDuration (call.header "x-ratelimit-reset-requests")).or
    (parseSecondsHeader host.number (call.header "retry-after"))
  .ok (byResetDistance "SambaNova" (dayResetSeconds.or minuteResetSeconds) minuteResetSeconds call
    message details)

/-- The readings of a 429, one per provider. -/
def rateLimit429Classifiers : ModelProvider → Option RateLimit429Classifier
  | .openai | .ollama | .nvidia => none
  | .google => some (googleClassifier host)
  | .groq => some (groqClassifier host)
  | .openrouter => some (openrouterClassifier host)
  | .mistral => some (mistralClassifier host)
  | .sambanova => some (sambanovaClassifier host)

end Readings

section Classify

variable (host : Host)

/-- A failure that nothing classifies further. -/
def modelError (message : String) (errorName : Option String) (details : SolveErrorDetails) :
    SolveError where
  code := .modelError
  message := s!"Model call failed: {message}"
  details := { details with errorName := errorName }

/-- Classify a failure; a reading of a 429 may throw. -/
def classifyModelCallError (provider : ModelProvider) (details : SolveErrorDetails) :
    CallError → Except String SolveError
  | .retry lastError => classifyModelCallError provider details lastError
  | .malformed message usage =>
    .ok
      { code := .invalidGroup
        message := s!"Model produced a malformed response: {message}"
        details := { details with usage := usage } }
  | .apiCall call => do
    let classified ← if call.statusCode = some 429 then
        match rateLimit429Classifiers host provider with
        | some classifier => classifier call call.message details
        | none => .ok none
      else .ok none
    return classified.getD (modelError call.message (some call.name) (details.withCall call))
  | .other error =>
    .ok (modelError ((error.map (·.1)).getD "Unknown model error") (error.map (·.2))
      { details with requestBody := none, statusCode := none })

/-- The failure behind all the retries. -/
def CallError.last : CallError → CallError
  | .retry lastError => lastError.last
  | error => error

variable {host} in
/-- A failure is classified as the last one behind its retries. -/
theorem classifyModelCallError_last (provider : ModelProvider) (details : SolveErrorDetails)
    (error : CallError) :
    classifyModelCallError host provider details error =
      classifyModelCallError host provider details error.last := by
  induction error with
  | retry lastError ih => exact ih
  | malformed message usage => rfl
  | apiCall call => rfl
  | other error => rfl

end Classify

section DailyQuota

/-- Some quota failure of a body has a violation that names a quota per day. -/
def NamesPerDay (parsed : Json) : Prop :=
  ∃ details, errorDetails parsed = some details ∧ ∃ detail ∈ details,
    hasDetailType "QuotaFailure" detail ∧ ∃ violations,
      detail.field "violations" = some (.arr violations) ∧
        ∃ violation ∈ violations, violationNames "PerDay" violation

/-- The first quota failure of a body has a list of violations of which one names a quota per day
and none a quota per minute. -/
def FirstPerDay (parsed : Json) : Prop :=
  ∃ details, errorDetails parsed = some details ∧ ∃ detail violations,
    details.find? (hasDetailType "QuotaFailure") = some detail ∧
      detail.field "violations" = some (.arr violations) ∧
        violations.any (violationNames "PerDay") ∧
          violations.any (violationNames "PerMinute") = false

variable {host : Host}

/-- Of a body whose first quota failure has a list of violations, Google's reading says daily just
when one of them names a quota per day and none a quota per minute. -/
theorem googleClassifier_of_violations {call : APICallError} {body : String} {parsed : Json}
    {entries : List Json} {detail : Json} {violations : List Json}
    (hbody : call.responseBody = some body) (hparsed : host.parseJson body = some parsed)
    (hentries : errorDetails parsed = some entries)
    (hfind : entries.find? (hasDetailType "QuotaFailure") = some detail)
    (hfield : detail.field "violations" = some (.arr violations))
    (message : String) (details : SolveErrorDetails) :
    (∃ error, googleClassifier host call message details = .ok (some error) ∧
      error.code = .rateLimitedDaily) ↔
      violations.any (violationNames "PerDay") ∧
        violations.any (violationNames "PerMinute") = false := by
  have hnames : ∀ quota, quotaFailureNames quota entries =
      .ok (violations.any (violationNames quota)) := by
    intro quota
    simp only [quotaFailureNames, hfind, hfield]
  unfold googleClassifier parseGoogleRateLimit isGoogleDailyRateLimit
  simp only [hbody, Option.bind_some, hparsed, hentries, hnames]
  generalize violations.any (violationNames "PerMinute") = perMinute
  generalize violations.any (violationNames "PerDay") = perDay
  cases perMinute <;> cases perDay <;>
    simp [bind, Except.bind, pure, Except.pure, Except.map]

/-- Of a body whose first quota failure has no list of violations, Google's reading never says
daily. -/
theorem googleClassifier_of_no_violations {call : APICallError} {body : String} {parsed : Json}
    {entries : List Json} (hbody : call.responseBody = some body)
    (hparsed : host.parseJson body = some parsed) (hentries : errorDetails parsed = some entries)
    (hnames : ∀ quota, quotaFailureNames quota entries = .ok false ∨
      quotaFailureNames quota entries = .error violationsNoList)
    (message : String) (details : SolveErrorDetails) :
    ¬ ∃ error, googleClassifier host call message details = .ok (some error) ∧
      error.code = .rateLimitedDaily := by
  unfold googleClassifier parseGoogleRateLimit isGoogleDailyRateLimit
  simp only [hbody, Option.bind_some, hparsed, hentries]
  rcases hnames "PerMinute" with hminute | hminute <;>
    rcases hnames "PerDay" with hday | hday <;>
      simp [hminute, hday, bind, Except.bind, pure, Except.pure, Except.map]

/-- Google's reading of a 429 with a JSON body says daily just when its first quota failure names a
quota per day and none per minute. -/
theorem googleClassifier_daily {call : APICallError} {body : String} {parsed : Json}
    (hbody : call.responseBody = some body) (hparsed : host.parseJson body = some parsed)
    (message : String) (details : SolveErrorDetails) :
    (∃ error, googleClassifier host call message details = .ok (some error) ∧
      error.code = .rateLimitedDaily) ↔ FirstPerDay parsed := by
  unfold FirstPerDay
  cases hentries : errorDetails parsed with
  | none =>
    unfold googleClassifier parseGoogleRateLimit isGoogleDailyRateLimit
    simp [hbody, hparsed, hentries, bind, Except.bind, pure, Except.pure]
  | some entries =>
    cases hfind : entries.find? (hasDetailType "QuotaFailure") with
    | none =>
      have hnames : ∀ quota, quotaFailureNames quota entries = .ok false := by
        intro quota
        simp only [quotaFailureNames, hfind]
      have hnever := googleClassifier_of_no_violations hbody hparsed
        hentries (fun quota => .inl (hnames quota)) message details
      simp [hnever, hfind]
    | some detail =>
      by_cases hlist : ∃ violations, detail.field "violations" = some (.arr violations)
      · obtain ⟨violations, hfield⟩ := hlist
        rw [googleClassifier_of_violations hbody hparsed hentries hfind hfield]
        constructor
        · rintro ⟨hday, hminute⟩
          exact ⟨entries, rfl, detail, violations, hfind, hfield, hday, hminute⟩
        · rintro ⟨_, hentries', _, _, hfind', hfield', hday, hminute⟩
          cases hentries'
          rw [hfind] at hfind'
          cases hfind'
          rw [hfield] at hfield'
          cases hfield'
          exact ⟨hday, hminute⟩
      · have hnames : ∀ quota, quotaFailureNames quota entries = .ok false ∨
            quotaFailureNames quota entries = .error violationsNoList := by
          intro quota
          simp only [quotaFailureNames, hfind]
          rcases hfield : detail.field "violations" with _ | (_ | _ | _ | _ | violations | _)
          · exact .inl rfl
          · exact .inl rfl
          · exact .inr rfl
          · exact .inr rfl
          · exact .inr rfl
          · exact absurd ⟨violations, hfield⟩ hlist
          · exact .inr rfl
        have hnever := googleClassifier_of_no_violations hbody hparsed
          hentries hnames message details
        refine iff_of_false hnever ?_
        rintro ⟨_, hentries', _, violations, hfind', hfield, _⟩
        cases hentries'
        rw [hfind] at hfind'
        cases hfind'
        exact hlist ⟨violations, hfield⟩

/-- A 429 of Google with a JSON body is classified as daily just as Google's reading of it. -/
theorem classifyModelCallError_daily {error : CallError} {call : APICallError} {body : String}
    {parsed : Json} (herror : error.last = .apiCall call) (hstatus : call.statusCode = some 429)
    (hbody : call.responseBody = some body) (hparsed : host.parseJson body = some parsed)
    (details : SolveErrorDetails) :
    (∃ solveError, classifyModelCallError host .google details error =
      .ok solveError ∧ solveError.code = .rateLimitedDaily) ↔ FirstPerDay parsed := by
  rw [classifyModelCallError_last, herror,
    ← googleClassifier_daily hbody hparsed call.message details]
  simp only [classifyModelCallError, hstatus, rateLimit429Classifiers, if_true]
  cases googleClassifier host call call.message details with
  | error thrown => simp [bind, Except.bind]
  | ok classified =>
    cases classified with
    | none => simp [bind, Except.bind, pure, Except.pure, modelError]
    | some solveError => simp [bind, Except.bind, pure, Except.pure]

/-- A 429 of Google whose first quota failure names a quota per minute is retried in place. -/
theorem classifyModelCallError_perMinute {call : APICallError} {body : String} {parsed : Json}
    {entries : List Json} (hstatus : call.statusCode = some 429)
    (hbody : call.responseBody = some body) (hparsed : host.parseJson body = some parsed)
    (hentries : errorDetails parsed = some entries)
    (hminute : quotaFailureNames "PerMinute" entries = .ok true) (details : SolveErrorDetails) :
    ∃ solveError, classifyModelCallError host .google details
      (.apiCall call) = .ok solveError ∧ solveError.code = .rateLimited := by
  simp [classifyModelCallError, hstatus, rateLimit429Classifiers, googleClassifier,
    parseGoogleRateLimit, hbody, hparsed, hentries, hminute, bind, Except.bind, pure, Except.pure,
    Except.map]

/-- A quota per day that a body of Google names is recognised just when the first quota failure of
the body names it, and names no quota per minute beside it. -/
theorem dailyQuota_recognised_iff (host : Host) (details : SolveErrorDetails) (error : CallError)
    (call : APICallError) (body : String) (parsed : Json) (herror : error.last = .apiCall call)
    (hstatus : call.statusCode = some 429)
    (hbody : call.responseBody = some body) (hparsed : host.parseJson body = some parsed) :
    (NamesPerDay parsed → ∃ solveError,
      classifyModelCallError host .google details error =
        .ok solveError ∧ solveError.code = .rateLimitedDaily) ↔
      ¬ NamesPerDay parsed ∨ FirstPerDay parsed := by
  rw [classifyModelCallError_daily herror hstatus hbody hparsed,
    imp_iff_not_or]

/-- The body of a Google error with one quota failure whose violations have some quota ids. -/
def quotaBody (quotaIds : List String) : Json :=
  .obj [("error", .obj [("details", .arr [.obj
    [("@type", .str "type.googleapis.com/google.rpc.QuotaFailure"),
      ("violations", .arr (quotaIds.map fun quotaId => .obj [("quotaId", .str quotaId)]))]])])]

/-- That body as a text. -/
def quotaBodyText (quotaIds : List String) : String :=
  "\x7b\"error\":\x7b\"details\":[\x7b\"@type\":\"type.googleapis.com/google.rpc.QuotaFailure\"," ++
    "\"violations\":[" ++
      ",".intercalate (quotaIds.map fun quotaId => "\x7b\"quotaId\":\"" ++ quotaId ++ "\"\x7d") ++
        "]\x7d]\x7d\x7d"

/-- A host that reads the text of one such body. -/
def quotaBodyHost (quotaIds : List String) : Host where
  parseJson text := if text = quotaBodyText quotaIds then some (quotaBody quotaIds) else none
  parseFloat _ := none
  number _ := none
  now := 0

theorem quotaBodyHost_parseJson (quotaIds : List String) :
    (quotaBodyHost quotaIds).parseJson (quotaBodyText quotaIds) = some (quotaBody quotaIds) :=
  if_pos rfl

/-- A 429 with such a body. -/
def quotaError (quotaIds : List String) : APICallError where
  message := "You exceeded your current quota."
  name := "AI_APICallError"
  requestBodyValues := none
  statusCode := some 429
  responseHeaders := none
  responseBody := some (quotaBodyText quotaIds)
  isRetryable := true

/-- A step without details. -/
def noDetails : SolveErrorDetails :=
  ⟨none, none, none, none, none, none, none, none, none, none, none, none, none, none, none⟩

/-- A quota per day alone is recognised. -/
theorem dailyQuota_recognised_alone :
    let quotaIds := ["GenerateRequestsPerDayPerProjectPerModel"]
    ((NamesPerDay (quotaBody quotaIds) → ∃ solveError,
      classifyModelCallError (quotaBodyHost quotaIds) .google noDetails
        (.retry (.apiCall (quotaError quotaIds))) = .ok solveError ∧
          solveError.code = .rateLimitedDaily) ↔
      ¬ NamesPerDay (quotaBody quotaIds) ∨ FirstPerDay (quotaBody quotaIds)) :=
  dailyQuota_recognised_iff _ _ _ _ _ _ rfl rfl rfl (quotaBodyHost_parseJson _)

/-- Beside a quota per minute the quota per day is missed, and the call is retried in place. -/
theorem dailyQuota_missed_beside_minute :
    let quotaIds := ["GenerateRequestsPerMinutePerProjectPerModel",
      "GenerateRequestsPerDayPerProjectPerModel"]
    NamesPerDay (quotaBody quotaIds) ∧ ∃ solveError,
      classifyModelCallError (quotaBodyHost quotaIds) .google noDetails
        (.apiCall (quotaError quotaIds)) = .ok solveError ∧
          solveError.code = .rateLimited := by
  refine ⟨⟨_, rfl, _, List.mem_singleton_self _, by decide +kernel, _, rfl, ?_⟩, ?_⟩
  · exact ⟨_, List.mem_cons_of_mem _ (List.mem_singleton_self _), by decide +kernel⟩
  · apply classifyModelCallError_perMinute rfl rfl (quotaBodyHost_parseJson _) rfl
    rw [quotaFailureNames, List.find?_cons_of_pos (by decide +kernel)]
    exact congrArg Except.ok (by decide +kernel)

end DailyQuota

end Connections
