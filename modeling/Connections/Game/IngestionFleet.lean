import Connections.Game.PuzzleIngestion
import Connections.Library.JobQueue
import Connections.Library.KeyedTable
import Connections.Solver.DeterministicSolver

/-!
# Ingestions side by side

Any number of ingestions run at once, each with a day in hand: it reads the cache, asks the
publisher, writes the cache, inserts the puzzle and queues its runs, one step at a time.  They share
the puzzle table, the cache and the queue of the strategy runs.
-/

namespace Connections

open Calendar Clock JobQueue KeyedTable

/-! ### A published puzzle -/

/-- A card as it is published. -/
inductive ConnectionsCard
  | text (content : String) (position : ℕ)
  | image (imageUrl imageAltText : String) (position : ℕ)
  /-- Neither a text nor an image with its description. -/
  | other
  deriving DecidableEq, Repr

structure ConnectionsGroup where
  title : String
  cards : List ConnectionsCard
  deriving DecidableEq, Repr

structure ConnectionsPuzzle where
  categories : List ConnectionsGroup
  deriving DecidableEq, Repr

/-- A card as it is stored. -/
structure NormalizedCard where
  word : String
  position : ℕ
  imageUrl : Option String
  deriving DecidableEq, Repr

/-- A group as it is stored. -/
structure StoredGroup where
  level : ℕ
  groupName : String
  members : List NormalizedCard
  deriving DecidableEq, Repr

/-- The columns of a puzzle besides its id and its date, with its groups. -/
structure PuzzleColumns where
  isImagePuzzle : Bool
  answerGroups : List StoredGroup
  deriving DecidableEq, Repr

/-- The word of a card is its text, or the description of its image. -/
def normalizeCard (formattedDate : String) : ConnectionsCard → Except String NormalizedCard
  | .text content position => .ok ⟨content, position, none⟩
  | .image imageUrl imageAltText position => .ok ⟨imageAltText, position, some imageUrl⟩
  | .other => .error (s!"Unrecognized card shape for {formattedDate}: " ++
      "card has neither 'content' nor 'image_url'/'image_alt_text'")

/-- The columns that a published puzzle is stored under; the levels count its categories. -/
def puzzleColumns (formattedDate : String) (data : ConnectionsPuzzle) :
    Except String PuzzleColumns := do
  let normalizedCategories ← data.categories.mapM fun category => do
    let cards ← category.cards.mapM (normalizeCard formattedDate)
    pure (category.title, cards)
  pure
    { isImagePuzzle := normalizedCategories.any fun category =>
        category.2.any fun card => card.imageUrl.isSome
      answerGroups := normalizedCategories.zipIdx.map fun (category, level) =>
        ⟨level, category.1, category.2⟩ }

/-- Insert a puzzle with its groups, all or nothing; a date that is stored already is left alone.
The result is the new id. -/
def insertPuzzle (puzzles : Table CivilDate PuzzleColumns) (date : Option CivilDate)
    (formattedDate : String) (data : ConnectionsPuzzle) :
    Except String (Option (ℕ × Table CivilDate PuzzleColumns)) := do
  let columns ← puzzleColumns formattedDate data
  match date with
  | some date =>
    pure ((puzzles.insert puzzles.nextId date columns).map fun table => (puzzles.nextId, table))
  | none => .error s!"invalid input syntax for type date: \"{formattedDate}\""

/-! ### One request for a puzzle -/

/-- How a request for a puzzle ended. -/
inductive FetchResponse
  /-- A status, and the body as it is parsed. -/
  | response (status : ℕ) (body : Except String ConnectionsPuzzle)
  | networkError (message : String)

/-- What a request leads to. -/
inductive FetchResult
  | noPuzzle
  | puzzle (data : ConnectionsPuzzle)
  /-- Another request, after a while. -/
  | again
  | throws (message : String)
  deriving DecidableEq, Repr

def fetchMaxRetries : ℕ := 5

def isRetryableStatus (status : ℕ) : Bool := status = 429 || 500 ≤ status

/-- One request of the loop, after `attempt` earlier ones. -/
def fetchNytPuzzle (formattedDate : String) (attempt : ℕ) : FetchResponse → FetchResult
  | .response status body =>
    if status = 404 then .noPuzzle
    else if 200 ≤ status ∧ status ≤ 299 then
      match body with
      | .ok data => .puzzle data
      | .error message => .throws message
    else if isRetryableStatus status then
      if attempt ≥ fetchMaxRetries then
        .throws (s!"NYT fetch for {formattedDate} failed after {fetchMaxRetries + 1} " ++
          s!"attempts: status {status}")
      else .again
    else .throws s!"NYT fetch failed for {formattedDate}: {status}"
  | .networkError message =>
    if attempt ≥ fetchMaxRetries then
      .throws (s!"NYT fetch for {formattedDate} failed after {fetchMaxRetries + 1} " ++
        s!"attempts: {message}")
    else .again

/-! ### One ingestion -/

/-- The days an ingestion has left to ask for: all from a date on, or those of a list. -/
inductive Itinerary
  | forward (latestDate : Option ℤ)
  | dates (rest : List CivilDate)
  deriving DecidableEq

/-- What an ingestion does next. -/
inductive IngestionState
  | reading
  | fetching (attempt : ℕ)
  | caching (data : ConnectionsPuzzle)
  | inserting (data : ConnectionsPuzzle)
  | dispatching (puzzleId : ℕ)
  | returned
  | threw (message : String)
  | crashed
  deriving DecidableEq

/-- A call of `populateUntilCaughtUp` or `ingestSpecificDates`. -/
structure IngestionCall where
  itinerary : Itinerary
  inserted : ℕ
  skipped : List String
  state : IngestionState
  deriving DecidableEq

section Itinerary

variable (zone : TimeZone)

/-- The day that is asked for, as the database reads its text. -/
def Itinerary.asked : Itinerary → Option CivilDate
  | .forward latestDate => (addDays zone latestDate 1).map (hostDate zone)
  | .dates rest => rest.head?

/-- The text of that day. -/
def Itinerary.formatted : Itinerary → String
  | .forward latestDate => formatDate zone (addDays zone latestDate 1)
  | .dates rest => rest.head?.elim "" dateText

/-- The days after that one. -/
def Itinerary.next : Itinerary → Itinerary
  | .forward latestDate => .forward (addDays zone latestDate 1)
  | .dates rest => .dates rest.tail

/-- A list of dates comes to its end. -/
def Itinerary.state : Itinerary → IngestionState
  | .dates [] => .returned
  | _ => .reading

/-- Go on to the next day. -/
def IngestionCall.next (call : IngestionCall) : IngestionCall :=
  let itinerary := call.itinerary.next zone
  { call with itinerary := itinerary, state := itinerary.state }

/-- A day without a puzzle ends the way forward; in a list it is skipped. -/
def IngestionCall.noPuzzle (call : IngestionCall) : IngestionCall :=
  match call.itinerary with
  | .forward _ => { call with state := .returned }
  | .dates _ =>
    { call with skipped := call.skipped ++ [call.itinerary.formatted zone] }.next zone

/-- A day whose puzzle is stored already. -/
def IngestionCall.existed (call : IngestionCall) : IngestionCall :=
  match call.itinerary with
  | .forward _ => call.next zone
  | .dates _ =>
    { call with skipped := call.skipped ++ [call.itinerary.formatted zone] }.next zone

/-- A day whose puzzle is stored now and whose runs are queued, or could not be. -/
def IngestionCall.dispatched (call : IngestionCall) : IngestionCall :=
  { call with inserted := call.inserted + 1 }.next zone

end Itinerary

/-! ### The runs of a new puzzle -/

/-- The strategies without a model. -/
def automaticStrategies : List String := enumeratingStrategies ++ shuffleStrategies

/-- The trials of such a strategy. -/
def strategyTrialNumbers (shuffleTrialCount : ℕ) (strategyName : String) : List ℕ :=
  if strategyName ∈ shuffleStrategies then (List.range shuffleTrialCount).map (· + 1) else [0]

/-- What the job of a run carries. -/
def strategyJobData (puzzleId : ℕ) (date strategyName : String) (trialNumber : ℕ) :
    RunStrategyJobData :=
  ⟨puzzleId, strategyName, date, trialNumber, none, false, none⟩

/-- The jobs of some strategies on a puzzle. -/
def strategyJobs (shuffleTrialCount puzzleId : ℕ) (date : String) (strategies : List String) :
    List RunStrategyJobData :=
  strategies.flatMap fun strategyName =>
    (strategyTrialNumbers shuffleTrialCount strategyName).map
      (strategyJobData puzzleId date strategyName)

/-- Add jobs under their deterministic ids. -/
def addBulk (queue : Queue String RunStrategyJobData) (jobs : List RunStrategyJobData) :
    Queue String RunStrategyJobData :=
  jobs.foldl (fun queue data =>
    queue.add (runStrategyJobId data.puzzleId data.strategyName data.model data.trialNumber) data
      .waiting) queue

/-- What the workers do to the queue. -/
inductive QueueEvent
  | pick (jobId : String)
  | promote (jobId : String)
  | stall (jobId : String)
  | complete (jobId : String)
  | throws (jobId : String)

/-- One step of the queue. -/
def queueStep (queue : Queue String RunStrategyJobData) :
    QueueEvent → Option (Queue String RunStrategyJobData)
  | .pick jobId => queue.move jobId .waiting .active
  | .promote jobId => queue.move jobId .delayed .waiting
  | .stall jobId => queue.move jobId .active .waiting
  | .complete jobId => queue.complete removeOnCompleteCount jobId
  | .throws jobId => queue.failAttempt queueAttempts removeOnFailCount jobId

/-! ### All of them -/

/-- The settings of the host. -/
structure IngestionEnv where
  zone : TimeZone
  shuffleTrialCount : ℕ

/-- What the ingestions share, and the calls so far. -/
structure IngestionFleet where
  puzzles : Table CivilDate PuzzleColumns
  /-- The files of the cache, newest first. -/
  cache : List (String × ConnectionsPuzzle)
  queue : Queue String RunStrategyJobData
  calls : List IngestionCall

/-- What happens to one ingestion. -/
inductive IngestionCallEvent
  | readCache
  | cacheUnreadable
  | respond (response : FetchResponse)
  | writeCache (written : Bool)
  | insert
  | insertFails (message : String)
  | dispatch
  /-- The queue fails, after it took the jobs or before. -/
  | dispatchFails (taken : Bool)
  | crash

/-- What happens around the ingestions; a call is named by its number. -/
inductive IngestionEvent
  | populate
  | backfill (dates : List CivilDate)
  | call (i : ℕ) (event : IngestionCallEvent)
  | loseCache (formattedDate : String)
  /-- The dispatch endpoint, for one strategy on a stored puzzle. -/
  | trigger (date : CivilDate) (strategyName : String)
  | work (event : QueueEvent)

namespace IngestionFleet

/-- Nothing stored, nothing queued. -/
def fresh : IngestionFleet := ⟨.empty, [], .empty, []⟩

/-- Put a call into the place of its number. -/
def setCall (w : IngestionFleet) (i : ℕ) (call : IngestionCall) : IngestionFleet :=
  { w with calls := w.calls.set i call }

section Step

variable (env : IngestionEnv)

/-- The jobs of every automatic strategy on a puzzle. -/
def automaticJobs (puzzleId : ℕ) (date : String) : List RunStrategyJobData :=
  strategyJobs env.shuffleTrialCount puzzleId date automaticStrategies

/-- The step of one call. -/
def callStep (w : IngestionFleet) (i : ℕ) (call : IngestionCall) :
    IngestionState → IngestionCallEvent → Option IngestionFleet
  | .reading, .readCache =>
    some (w.setCall i { call with
      state := match w.cache.lookup (call.itinerary.formatted env.zone) with
        | some data => .inserting data
        | none => .fetching 0 })
  | .reading, .cacheUnreadable => some (w.setCall i { call with state := .fetching 0 })
  | .fetching attempt, .respond response =>
    let formatted := call.itinerary.formatted env.zone
    some (w.setCall i (match fetchNytPuzzle formatted attempt response with
      | .noPuzzle => call.noPuzzle env.zone
      | .puzzle data => { call with state := .caching data }
      | .again => { call with state := .fetching (attempt + 1) }
      | .throws message => { call with state := .threw message }))
  | .caching data, .writeCache written =>
    some { w.setCall i { call with state := .inserting data } with
      cache := if written then (call.itinerary.formatted env.zone, data) :: w.cache else w.cache }
  | .inserting data, .insert =>
    some (match insertPuzzle w.puzzles (call.itinerary.asked env.zone)
        (call.itinerary.formatted env.zone) data with
      | .error message => w.setCall i { call with state := .threw message }
      | .ok none => w.setCall i (call.existed env.zone)
      | .ok (some (puzzleId, puzzles)) =>
        { w.setCall i { call with state := .dispatching puzzleId } with puzzles := puzzles })
  | .inserting _, .insertFails message => some (w.setCall i { call with state := .threw message })
  | .dispatching puzzleId, .dispatch =>
    some { w.setCall i (call.dispatched env.zone) with
      queue := addBulk w.queue (automaticJobs env puzzleId (call.itinerary.formatted env.zone)) }
  | .dispatching puzzleId, .dispatchFails taken =>
    some { w.setCall i (call.dispatched env.zone) with
      queue := if taken then
        addBulk w.queue (automaticJobs env puzzleId (call.itinerary.formatted env.zone))
        else w.queue }
  | .returned, _ | .threw _, _ | .crashed, _ => none
  | _, .crash => some (w.setCall i { call with state := .crashed })
  | _, _ => none

/-- One step around the ingestions; an event that cannot happen is refused. -/
def step (w : IngestionFleet) : IngestionEvent → Option IngestionFleet
  | .populate =>
    let latestDate := getLatestDate env.zone (w.puzzles.rows.map (·.key))
    some { w with calls := w.calls ++ [⟨.forward latestDate, 0, [], .reading⟩] }
  | .backfill dates =>
    some { w with calls := w.calls ++ [⟨.dates dates, 0, [], (Itinerary.dates dates).state⟩] }
  | .call i event => (w.calls[i]?).bind fun call => w.callStep env i call call.state event
  | .loseCache formattedDate =>
    some { w with cache := w.cache.filter fun file => file.1 ≠ formattedDate }
  | .trigger date strategyName =>
    if strategyName ∈ automaticStrategies then
      (w.puzzles.lookup date).map fun row => { w with
        queue := addBulk w.queue
          (strategyJobs env.shuffleTrialCount row.id (dateText date) [strategyName]) }
    else none
  | .work event => (queueStep w.queue event).map fun queue => { w with queue := queue }

end Step

end IngestionFleet

end Connections
