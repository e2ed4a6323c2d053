import SwFactory.Batch.Answer
import SwFactory.Machine.Dicts
import SwFactory.Terminal.Sanitize

/-!
# The operator's screen

The screen is data, and `update` is the one function that changes it: a message
comes in, and the effects that it asks for go out.  A selection is an identity,
never the number of a row.

What the tables show of a snapshot is a parameter: the rows that are built from it,
and the part of it that nothing else reads.

Sources: `rust/crates/swf-tui/src/model.rs`, `event.rs` and `effect.rs`, and
`parse_issues` of `rust/crates/swf-domain/src/rollup.rs`.
-/

namespace SwFactory
namespace Terminal

open Identities
open Machine
open Batch (Gate Decision OpsError)

/-! ## Views, keys and actions -/

inductive View
  | attention
  | jobs
  | jobDetail
  | review
  | deliveries
  | infrastructure
  | history
deriving DecidableEq

namespace View

/-- `View::ALL` -/
def all : List View :=
  [attention, jobs, jobDetail, review, deliveries, infrastructure, history]

def number (view : View) : Nat :=
  all.idxOf view + 1

def fromNumber : Nat → Option View
  | 0 => none
  | n + 1 => all[n]?

def next (view : View) : View :=
  (fromNumber (view.number % all.length + 1)).getD attention

def prev (view : View) : View :=
  (fromNumber (if view.number = 1 then all.length else view.number - 1)).getD attention

end View

inductive Action
  | quit
  | refresh
  | help
  | toggleLog
  | palette
  | search
  | goView (view : View)
  | nextView
  | prevView
  | up
  | down
  | pageUp
  | pageDown
  | top
  | bottom
  | accept
  | cancel
  | approve
  | reject
  | trigger
  | stop
  | browse
  | verify
  | remove
  | logs
  | char (c : Char)
  | backspace
deriving DecidableEq

inductive KeyCode
  | char (c : Char)
  | enter
  | esc
  | backspace
  | up
  | down
  | home
  | last
  | pageUp
  | pageDown
  | tab
  | backTab
  | f (n : Nat)
  | other
deriving DecidableEq

structure KeyEvent where
  code : KeyCode
  /-- `modifiers.contains(CONTROL)` -/
  control : Bool
deriving DecidableEq

/-- Which key map is in force. -/
inductive Mode
  | normal
  | search
  | palette
  | prompt
  | confirm
  | help
deriving DecidableEq

/-- `confirm`, of a key. -/
def confirmKey (key : KeyEvent) : Option Action :=
  match key.code with
  | .char 'y' | .char 'Y' | .enter => some .accept
  | .char 'n' | .char 'N' | .esc => some .cancel
  | _ => none

/-- `text`, of a key. -/
def textKey (mode : Mode) (key : KeyEvent) : Option Action :=
  match key.code with
  | .enter => some .accept
  | .esc => some .cancel
  | .backspace => some .backspace
  | .up => if mode = .palette then some .up else none
  | .down => if mode = .palette then some .down else none
  | .char c => if key.control then none else some (.char c)
  | _ => none

/-- `normal`, of a character. -/
def normalChar (view : View) (control : Bool) (c : Char) : Option Action :=
  match c with
  | 'q' => some .quit
  | 'r' => some .refresh
  | '?' => some .help
  | ':' => some .palette
  | '/' => some .search
  | 'l' => some .toggleLog
  | 'j' => some .down
  | 'k' => some .up
  | 'g' => some .top
  | 'G' => some .bottom
  | 'f' => if control then some .pageDown else none
  | 'b' => if control then some .pageUp else none
  | 'a' => some .approve
  | 'x' => some (if view = .infrastructure then .remove else .reject)
  | 't' => some .trigger
  | 's' => some .stop
  | 'o' => some .browse
  | 'v' => some .verify
  | 'L' => some .logs
  | c =>
      if '1' ≤ c ∧ c ≤ '7' then (View.fromNumber (c.toNat - '0'.toNat)).map .goView
      else none

/-- `normal`, of a key. -/
def normalKey (view : View) (key : KeyEvent) : Option Action :=
  match key.code with
  | .char c => normalChar view key.control c
  | .f 5 => some .refresh
  | .tab => some .nextView
  | .backTab => some .prevView
  | .down => some .down
  | .up => some .up
  | .home => some .top
  | .last => some .bottom
  | .pageDown => some .pageDown
  | .pageUp => some .pageUp
  | .enter => some .accept
  | .esc => some .cancel
  | _ => none

/-- `map_key` -/
def mapKey (mode : Mode) (view : View) (key : KeyEvent) : Option Action :=
  match mode with
  | .normal => normalKey view key
  | .confirm => confirmKey key
  | .help => some .cancel
  | .search | .palette | .prompt => textKey mode key

/-! ## What is on the screen -/

inductive RowKind
  | operation
  | followup
  | gate
  | job
  | task
  | failure
  | delivery
  | sandbox
  | source
  | metric
deriving DecidableEq

structure Row where
  key : Str
  kind : RowKind
  cells : List Str

/-- `LogRing` -/
structure LogRing where
  lines : List Str
  capacity : Nat
  dropped : Nat

namespace LogRing

/-- `LogRing::new` -/
def new (capacity : Nat) : LogRing :=
  ⟨[], max capacity 1, 0⟩

/-- The loop of `push`: the oldest lines are dropped until there is room. -/
def makeRoom (capacity : Nat) : List Str → Nat → List Str × Nat
  | [], dropped => ([], dropped)
  | line :: lines, dropped =>
      if capacity ≤ (line :: lines).length then makeRoom capacity lines (dropped + 1)
      else (line :: lines, dropped)

def push (ring : LogRing) (line : Str) : LogRing :=
  let room := makeRoom ring.capacity ring.lines ring.dropped
  { ring with lines := room.1 ++ [sanitizeLine line], dropped := room.2 }

end LogRing

/-- `Search` -/
structure Search where
  isOpen : Bool
  query : Str

def Search.default : Search :=
  ⟨false, []⟩

/-- `Palette` -/
structure Palette where
  isOpen : Bool
  input : Str
  index : Nat

def Palette.default : Palette :=
  ⟨false, [], 0⟩

/-- The names of `COMMANDS`, and what they run. -/
def commands : List (Str × Action) :=
  [("attention", .goView .attention), ("jobs", .goView .jobs), ("review", .goView .review),
    ("deliveries", .goView .deliveries), ("infrastructure", .goView .infrastructure),
    ("history", .goView .history), ("refresh", .refresh), ("approve", .approve),
    ("reject", .reject), ("trigger", .trigger), ("stop", .stop), ("open", .browse),
    ("verify", .verify), ("logs", .logs), ("remove-sandbox", .remove), ("log", .toggleLog),
    ("help", .help), ("quit", .quit)].map (fun command => (command.1.toList, command.2))

/-- What is done when the operator agrees. -/
inductive Pending
  | answer (id : GateId) (decision : Decision) (expect : Option String)
  | stop (run : RunRef)
  | removeSandbox (name : Str)
  | trigger (dagId : Str) (issues : List Str)
deriving DecidableEq

structure Confirm where
  question : Str
  label : Str
  pending : Pending
deriving DecidableEq

inductive PromptKind
  | triggerIssues (dagId : Str)

structure Prompt where
  title : Str
  placeholder : Str
  input : Str
  kind : PromptKind

structure Env where
  actor : Str
  dagIds : List Str

/-- `default_dag`; the last resort is `FALLBACK_DAG`. -/
def Env.defaultDag (env : Env) : Str :=
  env.dagIds.head?.getD "factory".toList

structure Selection where
  attention : Option Str
  job : Option JobId
  task : Option Str
  gate : Option GateId
  delivery : Option Str
  infra : Option Str
  metric : Option Str
deriving DecidableEq

def Selection.default : Selection :=
  ⟨none, none, none, none, none, none, none⟩

/-! ## What is collected -/

structure Run where
  dagId : Str
  runId : Str
  state : Str

def Run.id (run : Run) : RunRef :=
  ⟨run.dagId, run.runId⟩

structure PullRequest where
  number : Nat
  head : Str
  url : Str

structure SandboxRef where
  name : Str
  createdBy : Str

structure SourceHealth where
  error : Option Str
  inFlight : Bool

structure SourceError where
  source : Str
  message : Str

structure FollowupItem where
  id : Str
  sourceUrl : Str

/-- A collection pass; `T` is what only the tables show of it. -/
structure Snapshot (T : Type) where
  runs : List Run
  gates : List Gate
  prs : List PullRequest
  sandboxes : List SandboxRef
  errors : List SourceError
  health : Dict Str SourceHealth
  shown : T

structure Attention (T : Type) where
  followups : List FollowupItem
  shown : T

structure GateReview where
  id : GateId
  revision : String
  ready : Bool

/-- `Delivery`, as far as the screen reads it. -/
structure Delivery where
  id : Str
  number : Nat
  url : Str

/-- `from_pr`; the prefix is `DELIVERY_BRANCH_PREFIX`. -/
def fromPr (pr : PullRequest) : Delivery where
  id :=
    if "factory/".toList.isPrefixOf pr.head then pr.head else '#' :: Nat.toDigits 10 pr.number
  number := pr.number
  url := pr.url

/-- `GateId::short_name` -/
def shortName (id : GateId) : Str :=
  match Lexical.rsplitOnce '.' id.taskId with
  | some (_, tail) => tail
  | none => id.taskId

/-- `Gate::current_revision` -/
def currentRevision (gate : Gate) : String :=
  Batch.revisionOf gate.subject gate.body

/-- `parse_issues` -/
def parseIssues (text : Str) : List Str :=
  ((Lexical.splitAll ',' text).map trimText).filter (fun part => part ≠ [])

/-! ## Questions -/

/-- The question about a gate, which names who will have answered. -/
def Env.answerConfirm (env : Env) (id : GateId) (decision : Decision) (revision : Option String) :
    Confirm where
  question :=
    decision.word.toList ++ ' ' :: shortName id ++ " of ".toList ++ id.job.display ++
      " as ".toList ++ env.actor ++ "? (evidence ".toList ++
      (revision.getD "unknown").toList ++ ")".toList
  label := decision.word.toList ++ ' ' :: id.display
  pending := .answer id decision revision

def stopConfirm (run : RunRef) (state : Str) : Confirm where
  question :=
    "mark the run ".toList ++ run.display ++
      " failed — the whole run, every job (state ".toList ++ state ++
      ")? Work already running is not killed.".toList
  label := "stop ".toList ++ run.display
  pending := .stop run

def removeConfirm (name createdBy : Str) : Confirm where
  question :=
    "remove sandbox ".toList ++ name ++ " (created by ".toList ++ createdBy ++ ")?".toList
  label := "remove sandbox ".toList ++ name
  pending := .removeSandbox name

def Env.triggerConfirm (env : Env) (dagId : Str) (issues : List Str) : Confirm where
  question :=
    "submit ".toList ++ List.intercalate ", ".toList issues ++ " to ".toList ++ dagId ++
      " as ".toList ++ env.actor ++ "?".toList
  label := "trigger ".toList ++ dagId ++ ' ' :: List.intercalate ", ".toList issues
  pending := .trigger dagId issues

/-- What the screen takes from the formatting library and from the tables. -/
structure Interface (T : Type) where
  /-- `str::to_lowercase` -/
  lower : Str → Str
  /-- `now.format("%H:%M:%S")` -/
  stamp : Int → Str
  /-- `Display for IdError` -/
  idError : IdError → Str
  /-- `Attention::from_snapshot` -/
  attentionOf : Snapshot T → Int → Attention T
  /-- `sanitize_snapshot`, of what only the tables show. -/
  sanitizeShown : T → T
  /-- `all_rows`, of a view other than the review. -/
  table : View → Snapshot T → Attention T → Dict Str SourceHealth → Int → Option JobId → List Row

/-- What the screen wants done. -/
inductive Effect
  | cancel
  | refresh
  | review (id : GateId)
  | answer (id : GateId) (decision : Decision) (expect : Option String) (label : Str)
  | trigger (dagId : Str) (issues : List Str) (label : Str)
  | stop (run : RunRef) (label : Str)
  | browse (url : Str)
  | browseRun (run : RunRef)
  | removeSandbox (name : Str) (label : Str)
  | verify (id : Str)
  | logs (job : JobId) (task : Option Str)
  | quit
deriving DecidableEq

/-- What is done when the operator agrees, under the label of the question. -/
def Confirm.effect (c : Confirm) : Effect :=
  match c.pending with
  | .answer id decision expect => .answer id decision expect c.label
  | .stop run => .stop run c.label
  | .removeSandbox name => .removeSandbox name c.label
  | .trigger dagId issues => .trigger dagId issues c.label

/-- Everything on screen. -/
structure Model (T : Type) where
  view : View
  back : View
  snapshot : Snapshot T
  attention : Attention T
  reviewed : Option GateReview
  sources : Dict Str SourceHealth
  selection : Selection
  log : LogRing
  logOpen : Bool
  helpOpen : Bool
  palette : Palette
  search : Search
  confirm : Option Confirm
  prompt : Option Prompt
  status : Str
  env : Env
  now : Int
  lastRefresh : Option Int
  refresh : Int
  inFlight : Nat
  size : Nat × Nat
  quit : Bool

inductive Msg (T : Type)
  | key (key : KeyEvent)
  | resize (columns rows : Nat)
  | tick (now : Int)
  | interrupt
  | snapshot (snapshot : Snapshot T)
  | snapshotWithAttention (snapshot : Snapshot T) (attention : Attention T)
  | review (review : GateReview)
  | answered (id : GateId) (decision : Decision) (forced : Bool)
  | ok (label : Str)
  | refused (label message : Str)
  | failed (label message : Str)
  | note (line : Str)
  | logLines (lines : List Str)
  | quit

/-! ## Reading the model -/

section Update

variable {T : Type}
variable (I : Interface T)

namespace Model

/-- `Model::mode`; the overlays shadow each other. -/
def mode (m : Model T) : Mode :=
  if m.confirm.isSome then .confirm
  else if m.prompt.isSome then .prompt
  else if m.palette.isOpen then .palette
  else if m.helpOpen then .help
  else if m.search.isOpen then .search
  else .normal

/-- `stale_after` in nanoseconds, with the longest `chrono::Duration`. -/
def staleAfter (m : Model T) : Int :=
  if m.refresh * 3 ≤ 9223372036854775807 * 10 ^ 6 then m.refresh * 3 else 15 * 10 ^ 9

def allRows (m : Model T) : List Row :=
  if m.view = .review then []
  else I.table m.view m.snapshot m.attention m.sources m.now m.selection.job

/-- `Row::haystack` -/
def haystack (row : Row) : Str :=
  I.lower (List.intercalate [' '] row.cells)

def rows (m : Model T) : List Row :=
  let needle := I.lower (trimText m.search.query)
  if needle = [] then m.allRows I
  else (m.allRows I).filter (fun row => needle <:+: haystack I row)

def deliveries (m : Model T) : List Delivery :=
  m.snapshot.prs.map fromPr

/-- `current_key` -/
def currentKey (m : Model T) : Option Str :=
  match m.view with
  | .attention => m.selection.attention
  | .jobs => m.selection.job.map JobId.display
  | .jobDetail => m.selection.task
  | .review => m.selection.gate.map GateId.display
  | .deliveries => m.selection.delivery
  | .infrastructure => m.selection.infra
  | .history => m.selection.metric

/-- `selected_index` -/
def selectedIndex (m : Model T) : Option Nat :=
  m.currentKey.bind (fun key => (m.rows I).findIdx? (fun row => row.key = key))

/-- `current_row` -/
def currentRow (m : Model T) : Option Row :=
  m.currentKey.bind (fun key => (m.rows I).find? (fun row => row.key = key))

/-! ## Moving the cursor -/

/-- `adopt_attention_key` -/
def adoptAttentionKey (m : Model T) (key : Str) (s : Selection) : Selection :=
  match GateId.parse key with
  | .ok gate => { s with job := some gate.job, gate := some gate }
  | .error _ =>
      match JobId.parse key with
      | .ok job => { s with job := some job }
      | .error _ =>
          match stripFront "pr#".toList key with
          | some name =>
              { s with
                delivery := (m.deliveries.find?
                  (fun d => Nat.toDigits 10 d.number = name)).map Delivery.id }
          | none =>
              if "operation:".toList.isPrefixOf key ∨ "followup:".toList.isPrefixOf key then
                { s with job := none, gate := none, delivery := none, infra := none }
              else if "source:".toList.isPrefixOf key then
                s
              else
                { s with infra := some ("sandbox:".toList ++ key) }

/-- The selection that `select` makes. -/
def selectionAt (m : Model T) (key : Str) : Selection :=
  let s := m.selection
  match m.view with
  | .attention => m.adoptAttentionKey key { s with attention := some key }
  | .jobs =>
      match JobId.parse key with
      | .ok id => { s with job := some id, task := none }
      | .error _ => s
  | .jobDetail => { s with task := some key }
  | .review => s
  | .deliveries => { s with delivery := some key }
  | .infrastructure => { s with infra := some key }
  | .history => { s with metric := some key }

def select (m : Model T) (key : Str) : Model T × List Effect :=
  let m' := { m with selection := m.selectionAt key }
  (m', if m.selection.job.map JobId.run = m'.selection.job.map JobId.run then [] else [.cancel])

/-- `move_by` -/
def moveBy (m : Model T) (delta : Int) : Model T × List Effect :=
  let rows := m.rows I
  let current : Int :=
    match m.selectedIndex I with
    | some i => i
    | none => -1
  match rows[(max 0 (min (current + delta) (rows.length - 1))).toNat]? with
  | some row => m.select row.key
  | none => (m, [])

/-- `move_to_edge` -/
def moveToEdge (m : Model T) (toLast : Bool) : Model T × List Effect :=
  match if toLast then (m.rows I).getLast? else (m.rows I).head? with
  | some row => m.select row.key
  | none => (m, [])

/-- `ensure_selection`; its effects are dropped. -/
def ensureSelection (m : Model T) : Model T :=
  if (m.selectedIndex I).isSome then m
  else
    match (m.rows I).head? with
    | some row => (m.select row.key).1
    | none => m

/-- `note` -/
def note (m : Model T) (line : Str) : Model T :=
  let line := sanitizeLine line
  { m with status := line, log := m.log.push (I.stamp m.now ++ ' ' :: line) }

/-! ## Snapshots -/

/-- `sanitize_line` of a text of the server. -/
def lineOf (text : String) : String :=
  String.ofList (sanitizeLine text.toList)

def blockOf (text : String) : String :=
  String.ofList (sanitizeBlock text.toList)

/-- `sanitize_snapshot` -/
def sanitizeSnapshot (s : Snapshot T) : Snapshot T where
  runs := s.runs.map (fun run =>
    { dagId := sanitizeLine run.dagId
      runId := sanitizeLine run.runId
      state := sanitizeLine run.state })
  gates := s.gates.map (fun gate =>
    { gate with
      dagId := sanitizeLine gate.dagId
      runId := sanitizeLine gate.runId
      taskId := sanitizeLine gate.taskId
      subject := lineOf gate.subject
      body := blockOf gate.body
      options := gate.options.map lineOf })
  prs := s.prs.map (fun pr =>
    { pr with head := sanitizeLine pr.head, url := sanitizeLine pr.url })
  sandboxes := s.sandboxes.map (fun sandbox =>
    { name := sanitizeLine sandbox.name, createdBy := sanitizeLine sandbox.createdBy })
  errors := s.errors.map (fun error =>
    { source := sanitizeLine error.source, message := sanitizeLine error.message })
  health := s.health.map (fun e =>
    (e.1, { e.2 with error := e.2.error.map sanitizeLine }))
  shown := I.sanitizeShown s.shown

/-- The sources behind a pass. -/
def sourcesAfter (m : Model T) (s : Snapshot T) : Dict Str SourceHealth :=
  (s.health.foldl (fun sources e => sources.assign e.1 e.2) m.sources).map (fun e =>
    (e.1,
      { inFlight := false
        error :=
          if e.1 ∈ s.health.keys then e.2.error
          else some "this source was not read in the last pass".toList }))

/-- `apply_snapshot_with_attention`, up to the cursor. -/
def landSnapshot (m : Model T) (snapshot : Snapshot T) (backend : Option (Attention T)) :
    Model T :=
  let snapshot := sanitizeSnapshot I snapshot
  let m :=
    { m with
      attention := backend.getD (I.attentionOf snapshot m.now)
      sources := m.sourcesAfter snapshot
      snapshot := snapshot
      lastRefresh := some m.now
      inFlight := m.inFlight - 1 }
  snapshot.errors.foldl
    (fun m error => m.note I (error.source ++ ": ".toList ++ error.message)) m

/-- `apply_snapshot_with_attention` -/
def applySnapshot (m : Model T) (snapshot : Snapshot T) (backend : Option (Attention T)) :
    Model T :=
  (m.landSnapshot I snapshot backend).ensureSelection I

/-- `start_refresh` -/
def startRefresh (m : Model T) : Model T × List Effect :=
  ({ m with
      inFlight := m.inFlight + 1
      sources := m.sources.map (fun e => (e.1, { e.2 with inFlight := true })) },
    [.refresh])

/-! ## Asking -/

/-- The gate that an answer is about, its revision, and whether it is parked. -/
inductive Subject
  | gate (id : GateId) (revision : Option String) (ready : Bool)
  | unreadable (error : IdError)
  | nothing

def subject (m : Model T) : Subject :=
  match m.reviewed, m.view with
  | some review, .review => .gate review.id (some review.revision) review.ready
  | _, _ =>
      match m.currentRow I with
      | some row =>
          if row.kind = .gate then
            match GateId.parse row.key with
            | .ok id =>
                let gate := m.snapshot.gates.find? (fun gate => gate.id = id)
                .gate id (gate.map currentRevision) ((gate.map Gate.ready).getD false)
            | .error error => .unreadable error
          else
            .nothing
      | none => .nothing

def answer (m : Model T) (decision : Decision) : Model T × List Effect :=
  match m.subject I with
  | .gate id revision ready =>
      let m :=
        if ready then m
        else m.note I (shortName id ++ ' ' :: id.display ++
          " is not answerable yet: its task is not parked".toList)
      ({ m with confirm := some (m.env.answerConfirm id decision revision) }, [])
  | .unreadable error =>
      (m.note I ("failed ".toList ++ decision.word.toList ++ ": ".toList ++ I.idError error), [])
  | .nothing => (m.note I "no gate selected".toList, [])

def trigger (m : Model T) : Model T × List Effect :=
  let dagId := ((m.selection.job.map JobId.dagId).filter
    (fun dag => m.env.dagIds = [] ∨ dag ∈ m.env.dagIds)).getD m.env.defaultDag
  ({ m with
      prompt := some
        { title := "trigger ".toList ++ dagId ++ ": issue ids or paths, comma separated".toList
          placeholder := "42, 43".toList
          input := []
          kind := .triggerIssues dagId } }, [])

def stop (m : Model T) : Model T × List Effect :=
  match m.selection.job with
  | none => (m.note I "no run selected".toList, [])
  | some job =>
      let state := ((m.snapshot.runs.find? (fun run => run.id = job.run)).map Run.state).getD
        "unknown".toList
      ({ m with confirm := some (stopConfirm job.run state) }, [])

/-- `open` -/
def browse (m : Model T) : Model T × List Effect :=
  let delivery :=
    if m.view = .deliveries then
      m.deliveries.find? (fun d => some d.id = m.selection.delivery)
    else none
  match delivery, m.selection.job with
  | some d, _ => (m.note I ("open ".toList ++ d.url), [.browse d.url])
  | none, some job => (m.note I ("open ".toList ++ job.run.display), [.browseRun job.run])
  | none, none => (m.note I "nothing to open".toList, [])

def verify (m : Model T) : Model T × List Effect :=
  match m.selection.delivery with
  | none => (m.note I "no delivery selected".toList, [])
  | some id =>
      let m := m.note I ("-> verify ".toList ++ id)
      ({ m with inFlight := m.inFlight + 1 }, [.verify id])

def removeSandbox (m : Model T) : Model T × List Effect :=
  let row := (m.currentRow I).filter (fun row => row.kind = .sandbox)
  match (row.map (fun row => row.cells[1]?.getD [])).filter (fun name => name ≠ []) with
  | none => (m.note I "no sandbox selected".toList, [])
  | some name =>
      let createdBy := ((m.snapshot.sandboxes.find? (fun s => s.name = name)).map
        SandboxRef.createdBy).getD "?".toList
      ({ m with confirm := some (removeConfirm name createdBy) }, [])

def logs (m : Model T) : Model T × List Effect :=
  match m.selection.job with
  | none => (m.note I "no job selected".toList, [])
  | some job =>
      let task := ((m.currentRow I).filter (fun row => row.kind = .task)).bind
        (fun row => row.cells.head?)
      (m.note I ("-> logs ".toList ++ job.display), [.logs job task])

/-! ## Going somewhere -/

def go (m : Model T) (view : View) : Model T × List Effect :=
  if view = m.view then (m, [])
  else
    let m :=
      { m with
        back := if view ∈ [View.jobDetail, View.review] then m.back else view
        view := view
        search := .default }
    let effects : List Effect :=
      match view, m.selection.gate with
      | .review, some id => [.cancel, .review id]
      | _, _ => []
    (m.ensureSelection I, effects)

def enter (m : Model T) : Model T × List Effect :=
  match m.currentRow I with
  | none => (m.note I "nothing selected".toList, [])
  | some row =>
      match row.kind with
      | .operation =>
          let name := (stripFront "operation:".toList row.key).getD row.key
          (m.note I ("inspect with: swf operations inspect ".toList ++ name), [])
      | .followup =>
          let name := (stripFront "followup:".toList row.key).getD row.key
          match m.attention.followups.find? (fun item => item.id = name) with
          | some item =>
              if "https://".toList.isPrefixOf item.sourceUrl then (m, [.browse item.sourceUrl])
              else (m.note I "refusing a follow-up URL without HTTPS".toList, [])
          | none => (m, [])
      | .gate =>
          match GateId.parse row.key with
          | .ok id =>
              ({ m with
                  selection := { m.selection with gate := some id }
                  back := m.view
                  view := .review },
                [.cancel, .review id])
          | .error error =>
              (m.note I ("failed review ".toList ++ row.key ++ ": ".toList ++ I.idError error), [])
      | .job | .failure =>
          let m :=
            { m with
              back := m.view
              view := .jobDetail
              selection := { m.selection with task := none } }
          (m.ensureSelection I, [])
      | _ => (m.note I ("no detail view for ".toList ++ row.key), [])

/-! ## Actions -/

def confirmAction (m : Model T) (action : Action) : Model T × List Effect :=
  match action, m.confirm with
  | .accept, some c =>
      let m := { m with confirm := none }.note I ("-> ".toList ++ c.label)
      ({ m with inFlight := m.inFlight + 1 }, [c.effect])
  | .cancel, some c => ({ m with confirm := none }.note I ("cancelled: ".toList ++ c.label), [])
  | _, _ => (m, [])

def promptAction (m : Model T) (action : Action) : Model T × List Effect :=
  match m.prompt with
  | none => (m, [])
  | some prompt =>
      match action with
      | .char c => ({ m with prompt := some { prompt with input := prompt.input ++ [c] } }, [])
      | .backspace =>
          ({ m with prompt := some { prompt with input := prompt.input.dropLast } }, [])
      | .cancel =>
          ({ m with prompt := none }.note I "trigger cancelled (no issues)".toList, [])
      | .accept =>
          let m := { m with prompt := none }
          match prompt.kind with
          | .triggerIssues dagId =>
              let issues := parseIssues prompt.input
              if issues = [] then (m.note I "trigger cancelled (no issues)".toList, [])
              else ({ m with confirm := some (m.env.triggerConfirm dagId issues) }, [])
      | _ => (m, [])

def searchAction (m : Model T) (action : Action) : Model T × List Effect :=
  let search := m.search
  match action with
  | .char c =>
      (({ m with search := { search with query := search.query ++ [c] } }).ensureSelection I, [])
  | .backspace =>
      (({ m with search := { search with query := search.query.dropLast } }).ensureSelection I, [])
  | .accept => (({ m with search := { search with isOpen := false } }).ensureSelection I, [])
  | .cancel => (({ m with search := .default }).ensureSelection I, [])
  | _ => (m, [])

def normalAction (m : Model T) (action : Action) : Model T × List Effect :=
  match action with
  | .quit => ({ m with quit := true }, [.quit])
  | .refresh => (m.note I "refresh requested".toList).startRefresh
  | .help => ({ m with helpOpen := true }, [])
  | .toggleLog => ({ m with logOpen := !m.logOpen }, [])
  | .palette => ({ m with palette := { Palette.default with isOpen := true } }, [])
  | .search => ({ m with search := { m.search with isOpen := true } }, [])
  | .goView view => m.go I view
  | .nextView => m.go I m.view.next
  | .prevView => m.go I m.view.prev
  | .up => m.moveBy I (-1)
  | .down => m.moveBy I 1
  | .pageUp => m.moveBy I (-10)
  | .pageDown => m.moveBy I 10
  | .top => m.moveToEdge I false
  | .bottom => m.moveToEdge I true
  | .accept => m.enter I
  | .cancel =>
      if m.search.query = [] then m.go I m.back
      else (({ m with search := .default }).ensureSelection I, [])
  | .approve => m.answer I .approve
  | .reject => m.answer I .reject
  | .trigger => m.trigger
  | .stop => m.stop I
  | .browse => m.browse I
  | .verify => m.verify I
  | .remove => m.removeSandbox I
  | .logs => m.logs I
  | .char _ | .backspace => (m, [])

/-- `Palette::matches` -/
def paletteMatches (palette : Palette) : List (Str × Action) :=
  let needle := I.lower (trimText palette.input)
  commands.filter (fun command => needle = [] ∨ needle <:+: command.1)

/-- `Palette::selected`, and what it runs. -/
def paletteAction? (palette : Palette) : Option Action :=
  let found := paletteMatches I palette
  found[min palette.index (found.length - 1)]?.map Prod.snd

def paletteAction (m : Model T) (action : Action) : Model T × List Effect :=
  let palette := m.palette
  match action with
  | .char c => ({ m with palette := { palette with input := palette.input ++ [c], index := 0 } }, [])
  | .backspace =>
      ({ m with palette := { palette with input := palette.input.dropLast, index := 0 } }, [])
  | .down =>
      let count := (paletteMatches I palette).length
      if 0 < count then
        ({ m with palette := { palette with index := min (palette.index + 1) (count - 1) } }, [])
      else (m, [])
  | .up => ({ m with palette := { palette with index := palette.index - 1 } }, [])
  | .cancel => ({ m with palette := .default }, [])
  | .accept =>
      let m := { m with palette := .default }
      match paletteAction? I palette with
      | some action => m.normalAction I action
      | none => (m, [])
  | _ => (m, [])

/-- `apply` -/
def apply (m : Model T) (action : Action) : Model T × List Effect :=
  match m.mode with
  | .confirm => m.confirmAction I action
  | .prompt => m.promptAction I action
  | .palette => m.paletteAction I action
  | .help => ({ m with helpOpen := false }, [])
  | .search => m.searchAction I action
  | .normal => m.normalAction I action

/-! ## Messages -/

/-- `Model::new` -/
def new (env : Env) (refresh now : Int) (empty : Snapshot T) (clear : Attention T) : Model T where
  view := .attention
  back := .attention
  snapshot := empty
  attention := clear
  reviewed := none
  sources := []
  selection := .default
  log := .new 500
  logOpen := true
  helpOpen := false
  palette := .default
  search := .default
  confirm := none
  prompt := none
  status := []
  env := env
  now := now
  lastRefresh := none
  refresh := refresh
  inFlight := 0
  size := (120, 40)
  quit := false

/-- A pass is due: the last one is a refresh interval old. -/
def due (m : Model T) : Bool :=
  match m.lastRefresh with
  | some last => m.staleAfter.tdiv 3 ≤ m.now - last
  | none => true

/-- `update` -/
def update (m : Model T) (msg : Msg T) : Model T × List Effect :=
  match msg with
  | .key key =>
      match mapKey m.mode m.view key with
      | some action => m.apply I action
      | none => (m, [])
  | .resize columns rows => ({ m with size := (columns, rows) }, [])
  | .tick now =>
      let m := { m with now := now }
      if m.due ∧ m.inFlight = 0 then m.startRefresh else (m, [])
  | .interrupt | .quit => ({ m with quit := true }, [.quit])
  | .snapshot snapshot => (m.applySnapshot I snapshot none, [])
  | .snapshotWithAttention snapshot attention => (m.applySnapshot I snapshot (some attention), [])
  | .review review =>
      ({ m with
          selection := { m.selection with gate := some review.id, job := some review.id.job }
          reviewed := some review
          back := if m.view = .review then m.back else m.view
          view := .review }, [])
  | .answered id decision forced =>
      let m := m.note I ("ok ".toList ++ decision.word.toList ++ ' ' :: id.display ++
        (if forced then " (forced)".toList else []))
      { m with reviewed := none, view := m.back }.startRefresh
  | .ok label => (m.note I ("ok ".toList ++ label)).startRefresh
  | .refused label message =>
      (m.note I ("refused ".toList ++ label ++ ": ".toList ++ message), [])
  | .failed label message =>
      ({ m with inFlight := m.inFlight - 1 }.note I
        ("failed ".toList ++ label ++ ": ".toList ++ message), [])
  | .note line => (m.note I line, [])
  | .logLines lines => ({ m with log := lines.foldl LogRing.push m.log, logOpen := true }, [])

end Model

end Update

end Terminal
end SwFactory
