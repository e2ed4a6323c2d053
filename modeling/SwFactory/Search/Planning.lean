import SwFactory.Search.Signals

/-!
# The plan of the next round

The latest round decides the posture, the posture decides in which order the
strategies are taken and how many of them.  Three orders are made of the allowed
strategies; two postures put the strategy that won the latest round in front.

Source: `recursive_search.py`, `plan_next_round`.
-/

namespace SwFactory
namespace Search

open Machine
open Swarm (Text round6 isBlank textLe)

/-! ## Orders of the strategies -/

section Orders

variable (signals : List RoundSignal)

/-- The rows of one strategy. -/
def strategyRows (strategy : Strategy) : List StrategySignal :=
  (rowsOf signals).filter (fun row => row.strategy = strategy)

def sumOf (field : StrategySignal → Int) (strategy : Strategy) : Int :=
  ((strategyRows signals strategy).map field).sum

/-- `_strategy_scores`, the score of one strategy. -/
def strategyScore (strategy : Strategy) : ℚ :=
  let rows := strategyRows signals strategy
  if rows.isEmpty then
    25 / 100
  else
    let attempts := sumOf signals StrategySignal.attempts strategy
    let answered := sumOf signals StrategySignal.answered strategy
    let cost := (rows.map StrategySignal.costUsd).sum
    let answerRate := ratio answered attempts
    let evidenceRate := ratio (sumOf signals StrategySignal.evidenceComplete strategy) attempts
    let requiredRate := ratio (sumOf signals StrategySignal.requiredPasses strategy) attempts
    let noveltyRate := ratio (sumOf signals StrategySignal.uniqueOutputs strategy) answered
    let costPenalty := if answered = 0 then min 1 (cost / 10) else min 1 (cost / answered / 10)
    round6 (20 / 100 * answerRate + 35 / 100 * evidenceRate + 35 / 100 * requiredRate +
      20 / 100 * noveltyRate - 10 / 100 * costPenalty)

/-- `sorted(allowed_strategies, key=lambda s: (-scores[s], s.value))` -/
def bestFirst (allowed : List Strategy) : List Strategy :=
  allowed.mergeSort fun s t =>
    strategyScore signals t < strategyScore signals s ||
      (strategyScore signals s == strategyScore signals t && textLe s.value t.value)

/-- `_least_tried_first` -/
def leastTriedFirst (allowed : List Strategy) : List Strategy :=
  let attempts := sumOf signals StrategySignal.attempts
  allowed.mergeSort fun s t =>
    attempts s < attempts t || (attempts s == attempts t && textLe s.value t.value)

/-- `novelty[strategy]` -/
def strategyNovelty (strategy : Strategy) : ℚ × Int :=
  let answered := sumOf signals StrategySignal.answered strategy
  let unique := sumOf signals StrategySignal.uniqueOutputs strategy
  (if answered = 0 then 1 else ratio unique answered, answered)

/-- `_novelty_first` -/
def noveltyFirst (allowed : List Strategy) : List Strategy :=
  let novelty := strategyNovelty signals
  allowed.mergeSort fun s t =>
    (novelty t).1 < (novelty s).1 ||
      ((novelty s).1 == (novelty t).1 &&
        ((novelty s).2 < (novelty t).2 ||
          ((novelty s).2 == (novelty t).2 && textLe s.value t.value)))

end Orders

/-- `((winner,) if winner is not None else ()) + (the others, in their order)` -/
def winnerFirst (winner : Option Strategy) (ordered : List Strategy) : List Strategy :=
  winner.toList ++ ordered.filter (fun strategy => decide (some strategy ≠ winner))

/-! ## The posture -/

/-- What the next round is to be. -/
structure Choice where
  posture : SearchPosture
  strategies : List Strategy
  reason : Text
deriving DecidableEq

/-- `min(max_candidates, max(1, min(2, len(preferred))))` -/
def narrowWidth (maxCandidates : Int) (preferred : List Strategy) : Int :=
  min maxCandidates (max 1 (min 2 preferred.length))

/-- `min(max_candidates, max(2, min(len(ordered), 3)))` -/
def measureWidth (maxCandidates : Int) (ordered : List Strategy) : Int :=
  min maxCandidates (max 2 (min ordered.length 3))

/-- `min(max_candidates, len(ordered))` -/
def fullWidth (maxCandidates : Int) (ordered : List Strategy) : Int :=
  min maxCandidates ordered.length

/-- The choice behind a latest round. -/
def chooseAfter (last : RoundSignal) (signals : List RoundSignal) (allowed : List Strategy)
    (maxCandidates : Int) : Choice :=
  let ordered := bestFirst signals allowed
  if last.answered = 0 then
    let tried := leastTriedFirst signals allowed
    ⟨.perturb, tried.take (fullWidth maxCandidates tried).toNat,
      ("the previous basin yielded no answer; change coordinates rather than deepen it").toList⟩
  else if last.settled then
    let preferred := winnerFirst last.winnerStrategy ordered
    ⟨.verify, preferred.take (narrowWidth maxCandidates preferred).toNat,
      ("high evidence with low disagreement: freeze most breadth and challenge " ++
        "the apparent basin").toList⟩
  else if 66 / 100 ≤ last.disagreement then
    ⟨.measure, ordered.take (measureWidth maxCandidates ordered).toNat,
      ("worlds disagree: preserve competing explanations until discriminating evidence " ++
        "resolves them").toList⟩
  else if last.novelty < 50 / 100 then
    let preferred := noveltyFirst signals allowed
    ⟨.diversify, preferred.take (fullWidth maxCandidates preferred).toNat,
      ("population collapse detected: spend the next budget on less-correlated " ++
        "strategies").toList⟩
  else if last.winnerStrategy ≠ none then
    let preferred := winnerFirst last.winnerStrategy ordered
    ⟨.exploit, preferred.take (narrowWidth maxCandidates preferred).toNat,
      ("a useful basin exists: descend locally while retaining one counterfactual " ++
        "search direction").toList⟩
  else
    ⟨.coordinate, ordered.take (fullWidth maxCandidates ordered).toNat,
      ("retain broad coordination until a stable evidence-bearing basin emerges").toList⟩

/-- The posture, the strategies and the reason of the next round. -/
def choose (signals : List RoundSignal) (allowed : List Strategy) (maxCandidates : Int) : Choice :=
  match signals.getLast? with
  | none =>
      let ordered := bestFirst signals allowed
      ⟨.diversify, ordered.take (fullWidth maxCandidates ordered).toNat,
        "no search history yet: maximize independent initial hypotheses".toList⟩
  | some last => chooseAfter last signals allowed maxCandidates

/-- `parallelism` -/
def parallelismOf (maxParallel : Int) (choice : Choice) : Int :=
  match choice.posture with
  | .measure => min maxParallel (max 2 choice.strategies.length)
  | _ => min maxParallel (max 1 choice.strategies.length)

/-! ## The plan -/

structure RecursiveRoundPlan where
  depth : Int
  inputHead : Text
  posture : SearchPosture
  strategies : List Strategy
  maxParallel : Int
  artifactDigests : List Text
  lawDigests : List Text
  reason : Text
  authority : Text
deriving DecidableEq

/-- `RecursiveRoundPlan.validate`, of a plan without embedded documents. -/
def RecursiveRoundPlan.validate (plan : RecursiveRoundPlan) : Except CampaignError Unit :=
  if plan.depth < 0 then
    .error .roundDepth
  else if isBlank plan.inputHead then
    .error .blankHead
  else if plan.posture ≠ .stop ∧ plan.strategies = [] then
    .error .idleRound
  else if ¬ plan.strategies.Nodup then
    .error .repeatedStrategies
  else if plan.maxParallel < 1 then
    .error .roundParallel
  else if plan.authority ≠ RECURSIVE_SEARCH_AUTHORITY then
    .error .planAuthority
  else
    .ok ()

/-- What the arguments of `plan_next_round` are refused for. -/
def checkRequest (depth : Int) (allowed : List Strategy) (maxCandidates maxParallel : Int) :
    Except CampaignError Unit :=
  if depth < 0 then
    .error .searchDepth
  else if maxCandidates < 1 ∨ maxParallel < 1 then
    .error .searchWidth
  else if allowed = [] then
    .error .noStrategy
  else if ¬ allowed.Nodup then
    .error .sameStrategies
  else
    .ok ()

/-- The tags of the artifacts that a plan names. -/
def planTags : List Text :=
  ["evidence".toList, "counterexample".toList, "failure".toList, "law".toList]

def planNextRound (D : Digests) (signals : List RoundSignal) (depth : Int) (inputHead : Text)
    (blackboard : Option ArtifactBlackboard) (allowed : List Strategy)
    (maxCandidates maxParallel : Int) : Except CampaignError RecursiveRoundPlan := do
  checkRequest depth allowed maxCandidates maxParallel
  let board := blackboard.getD []
  board.validate
  let laws ← extractSearchLaws D signals 2
  let choice := choose signals allowed maxCandidates
  let selected := board.select planTags (max 4 (2 * choice.strategies.length))
  let artifactDigests ← selected.mapM (ResearchArtifact.digest D)
  let lawDigests ← laws.mapM (SearchLaw.digest D)
  let plan : RecursiveRoundPlan :=
    { depth := depth
      inputHead := inputHead
      posture := choice.posture
      strategies := choice.strategies
      maxParallel := parallelismOf maxParallel choice
      artifactDigests := artifactDigests
      lawDigests := lawDigests
      reason := choice.reason
      authority := RECURSIVE_SEARCH_AUTHORITY }
  plan.validate
  return plan

end Search
end SwFactory
