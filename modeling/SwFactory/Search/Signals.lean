import SwFactory.Lexical.Splitting
import SwFactory.Machine.Fallible
import SwFactory.Swarm.Population

/-!
# What a search has learned

A round of a search is summed up in a signal.  The signals of many rounds are
compressed into search laws, and facts are shared between the rounds on a
blackboard.  Laws and artifacts are validated where their digest is taken.
Arithmetic is exact; the digest of a document is a function of the document.

Source: `recursive_search.py`.
-/

namespace SwFactory
namespace Search

open Machine
open Swarm (Text round6 inUnit isBlank textLe)

/-- The ways one failed attempt can be answered. -/
inductive Strategy
  | repair
  | rethink
  | scratch
deriving DecidableEq

def Strategy.value : Strategy → Text
  | .repair => "repair".toList
  | .rethink => "rethink".toList
  | .scratch => "scratch".toList

inductive SearchPosture
  | diversify
  | coordinate
  | exploit
  | measure
  | verify
  | perturb
  | stop
deriving DecidableEq

inductive ArtifactKind
  | hypothesis
  | failure
  | evidence
  | counterexample
  | law
  | verifier
deriving DecidableEq

inductive LawKind
  | prefer
  | deprioritize
  | diversify
  | measure
  | verify
  | perturb
deriving DecidableEq

def RECURSIVE_SEARCH_AUTHORITY : Text :=
  "exploration-only".toList

inductive CampaignError
  /-- research artifact {name} must be nonempty -/
  | blankArtifact (name : Text)
  /-- research artifact weight must be finite and non-negative -/
  | artifactWeight
  /-- duplicate research artifact {artifact_id} -/
  | duplicateArtifact (artifactId : Text)
  /-- {artifact_id}: unknown parent artifacts -/
  | unknownParents (artifactId : Text) (unknown : List Text)
  /-- search law identity and statement must be nonempty -/
  | blankLaw
  /-- search law confidence must be finite and in [0, 1] -/
  | lawConfidence
  /-- search law support must be positive -/
  | lawSupport
  /-- search laws are exploration-only -/
  | lawAuthority
  /-- min_support must be positive -/
  | minSupport
  /-- recursive search depth must be nonnegative -/
  | searchDepth
  /-- recursive search width and parallelism must be positive -/
  | searchWidth
  /-- recursive search needs at least one declared strategy -/
  | noStrategy
  /-- recursive search strategies must be distinct -/
  | sameStrategies
  /-- recursive round depth must be nonnegative -/
  | roundDepth
  /-- recursive round input head must be nonempty -/
  | blankHead
  /-- a live recursive round needs at least one strategy -/
  | idleRound
  /-- recursive round strategies must be distinct -/
  | repeatedStrategies
  /-- recursive round max_parallel must be positive -/
  | roundParallel
  /-- recursive search plans are exploration-only -/
  | planAuthority
deriving DecidableEq

/-! ## Artifacts -/

structure ResearchArtifact where
  artifactId : Text
  kind : ArtifactKind
  producer : Text
  payloadDigest : Text
  candidateId : Option Text
  parents : List Text
  tags : List Text
  weight : ℚ
deriving DecidableEq

def ResearchArtifact.validate (a : ResearchArtifact) : Except CampaignError Unit :=
  if isBlank a.artifactId then
    .error (.blankArtifact "artifact_id".toList)
  else if isBlank a.producer then
    .error (.blankArtifact "producer".toList)
  else if isBlank a.payloadDigest then
    .error (.blankArtifact "payload_digest".toList)
  else if a.weight < 0 then
    .error .artifactWeight
  else
    .ok ()

abbrev ArtifactBlackboard : Type :=
  List ResearchArtifact

/-- The identifiers of the artifacts, each valid and different from those before it. -/
def collectIds (ids : List Text) : List ResearchArtifact → Except CampaignError (List Text)
  | [] => .ok ids
  | a :: rest => do
      a.validate
      if a.artifactId ∈ ids then
        .error (.duplicateArtifact a.artifactId)
      else
        collectIds (ids ++ [a.artifactId]) rest

/-- The parents of an artifact are on the board. -/
def checkParents (ids : List Text) (a : ResearchArtifact) : Except CampaignError Unit :=
  let unknown := a.parents.filter (fun parent => decide (parent ∉ ids))
  if unknown.isEmpty then
    .ok ()
  else
    .error (.unknownParents a.artifactId (unknown.eraseDups.mergeSort textLe))

def ArtifactBlackboard.validate (board : ArtifactBlackboard) : Except CampaignError Unit := do
  let ids ← collectIds [] board
  board.forM (checkParents ids)

/-- The order of `select`: the heavy ones first, then by their identifiers. -/
def heavierFirst (a b : ResearchArtifact) : Bool :=
  b.weight < a.weight || (a.weight == b.weight && textLe a.artifactId b.artifactId)

def ArtifactBlackboard.select (board : ArtifactBlackboard) (tags : List Text) (limit : Int) :
    List ResearchArtifact :=
  let values := board.filter (fun a => tags.isEmpty || a.tags.any (fun tag => tag ∈ tags))
  (values.mergeSort heavierFirst).take (max 0 limit).toNat

/-! ## Signals -/

/-- `_ratio` -/
def ratio (numerator denominator : ℚ) : ℚ :=
  if denominator = 0 then 0 else round6 (numerator / denominator)

structure StrategySignal where
  strategy : Strategy
  attempts : Int
  answered : Int
  evidenceComplete : Int
  requiredPasses : Int
  uniqueOutputs : Int
  costUsd : ℚ
deriving DecidableEq

structure RoundSignal where
  campaignId : Text
  depth : Int
  attempts : Int
  answered : Int
  evidenceComplete : Int
  requiredPasses : Int
  uniqueOutputs : Int
  disagreement : ℚ
  novelty : ℚ
  costUsd : ℚ
  winnerStrategy : Option Strategy
  strategies : List StrategySignal
deriving DecidableEq

def RoundSignal.evidenceRate (signal : RoundSignal) : ℚ :=
  ratio signal.evidenceComplete signal.attempts

def RoundSignal.requiredPassRate (signal : RoundSignal) : ℚ :=
  ratio signal.requiredPasses signal.attempts

/-- High evidence with low disagreement. -/
def RoundSignal.settled (signal : RoundSignal) : Bool :=
  80 / 100 ≤ signal.evidenceRate && 80 / 100 ≤ signal.requiredPassRate &&
    signal.disagreement ≤ 25 / 100

/-! ## Laws -/

structure SearchLaw where
  lawId : Text
  kind : LawKind
  statement : Text
  confidence : ℚ
  support : Int
  strategies : List Strategy
  evidenceDigests : List Text
  authority : Text
deriving DecidableEq

/-- `json_digest` of the documents that the search makes. -/
structure Digests where
  artifact : ResearchArtifact → Text
  signal : RoundSignal → Text
  raw : LawKind → Text → List Strategy → List Text → Text
  law : SearchLaw → Text

def SearchLaw.validate (law : SearchLaw) : Except CampaignError Unit :=
  if isBlank law.lawId || isBlank law.statement then
    .error .blankLaw
  else if !inUnit law.confidence then
    .error .lawConfidence
  else if law.support < 1 then
    .error .lawSupport
  else if law.authority ≠ RECURSIVE_SEARCH_AUTHORITY then
    .error .lawAuthority
  else
    .ok ()

section Laws

variable (D : Digests)

def ResearchArtifact.digest (a : ResearchArtifact) : Except CampaignError Text := do
  a.validate
  return D.artifact a

def SearchLaw.digest (law : SearchLaw) : Except CampaignError Text := do
  law.validate
  return D.law law

/-- `_law` -/
def lawOf (kind : LawKind) (statement : Text) (confidence : ℚ) (support : Int)
    (strategies : List Strategy) (signals : List RoundSignal) : SearchLaw :=
  let evidence := signals.map D.signal
  { lawId := "law_".toList ++ (D.raw kind statement strategies evidence).take 24
    kind := kind
    statement := statement
    confidence := round6 (max 0 (min 1 confidence))
    support := max 1 support
    strategies := strategies
    evidenceDigests := evidence
    authority := RECURSIVE_SEARCH_AUTHORITY }

/-- The sums over all rows of one strategy. -/
structure Totals where
  attempts : Int
  answered : Int
  evidence : Int
  required : Int
  unique : Int
  cost : ℚ

def Totals.add (row : StrategySignal) (t : Totals) : Totals :=
  ⟨t.attempts + row.attempts, t.answered + row.answered, t.evidence + row.evidenceComplete,
    t.required + row.requiredPasses, t.unique + row.uniqueOutputs, t.cost + row.costUsd⟩

/-- The rows of all rounds, in their order. -/
def rowsOf (signals : List RoundSignal) : List StrategySignal :=
  signals.flatMap RoundSignal.strategies

def aggregate (signals : List RoundSignal) : Dict Strategy Totals :=
  (rowsOf signals).foldl (fun d row => d.update row.strategy ⟨0, 0, 0, 0, 0, 0⟩ (Totals.add row))
    []

def preferText (strategy : Strategy) : Text :=
  strategy.value ++
    " repeatedly converts search into evidence-complete required-dimension passes".toList

def deprioritizeText (strategy : Strategy) : Text :=
  strategy.value ++
    " is producing correlated outputs; spend width on a different search direction".toList

/-- The laws that the sums of one strategy support. -/
def strategyLaws (minSupport : Int) (signals : List RoundSignal) (strategy : Strategy)
    (row : Totals) : List SearchLaw :=
  if row.attempts < minSupport then
    []
  else
    let requiredRate := ratio row.required row.attempts
    let evidenceRate := ratio row.evidence row.attempts
    let noveltyRate := ratio row.unique row.answered
    (if 60 / 100 ≤ requiredRate ∧ 60 / 100 ≤ evidenceRate then
      [lawOf D .prefer (preferText strategy) (min 1 ((requiredRate + evidenceRate) / 2))
        row.attempts [strategy] signals]
    else []) ++
    if minSupport ≤ row.answered ∧ noveltyRate < 50 / 100 then
      [lawOf D .deprioritize (deprioritizeText strategy) (min 1 (1 - noveltyRate))
        row.attempts [strategy] signals]
    else []

/-- The law of the latest round. -/
def latestLaws (last : RoundSignal) : List SearchLaw :=
  if last.answered = 0 then
    [lawOf D .perturb
      ("the latest search basin produced no answered world; " ++
        "change search coordinates before spending depth").toList
      1 (max 1 last.attempts) [] [last]]
  else if 66 / 100 ≤ last.disagreement ∧ last.requiredPassRate < 66 / 100 then
    [lawOf D .measure
      ("candidate worlds disagree materially; " ++
        "allocate the next round to discriminating evidence").toList
      (min 1 last.disagreement) (max 1 last.answered) [] [last]]
  else if last.settled then
    [lawOf D .verify
      ("search has compressed to an evidence-complete low-disagreement basin; " ++
        "narrow and verify exact descendants").toList
      (min 1 ((last.evidenceRate + last.requiredPassRate + (1 - last.disagreement)) / 3))
      (max 1 last.answered) last.winnerStrategy.toList [last]]
  else if last.novelty < 50 / 100 then
    [lawOf D .diversify
      ("the latest population collapsed onto too few distinct outputs; " ++
        "restore independent search directions").toList
      (min 1 (1 - last.novelty)) (max 1 last.answered) [] [last]]
  else []

/-- `{law.digest(): law for law in laws}` -/
def uniqueLaws (laws : List SearchLaw) : Except CampaignError (Dict Text SearchLaw) :=
  laws.foldlM (fun unique law => return unique.assign (← law.digest D) law) []

def extractSearchLaws (signals : List RoundSignal) (minSupport : Int) :
    Except CampaignError (List SearchLaw) :=
  if minSupport < 1 then
    .error .minSupport
  else
    match signals.getLast? with
    | none => .ok []
    | some last => do
        let rows := (aggregate signals).mergeSort (fun a b => textLe a.1.value b.1.value)
        let laws := rows.flatMap (fun e => strategyLaws D minSupport signals e.1 e.2) ++
          latestLaws D last
        let unique ← uniqueLaws D laws
        return (unique.mergeSort (fun a b => textLe a.1 b.1)).map Prod.snd

end Laws

end Search
end SwFactory
