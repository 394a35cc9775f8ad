import TriplePlan.Statement
import TriplePlan.Store.Error

/-!
Why a pattern has no plan.
-/
namespace TriplePlan

inductive PlanError where
  /-- A statement with a variable in every position. -/
  | unrepresentable (graph : String) (index : Nat)
  /-- A reference that nothing in the store matches. -/
  | zeroCandidates (id : Var) (graph : String) (index : Nat) (permutation : Permutation)
  /-- A variable that no node satisfies, or that has no candidates of its own where they are
  required. -/
  | emptyValueRoot (id : Var)
  | tooManyVariables (count max : Nat)
  | unprobed
  | alreadyProbed
  | store (cause : StoreError)
deriving DecidableEq

def PlanError.message : PlanError → Option String
  | .unrepresentable graph index =>
    some ("unrepresentable statement " ++ graph ++ "[" ++ toString index
      ++ "]: all three positions are variables")
  | .zeroCandidates id graph index permutation =>
    some (permutation.display ++ " reference of " ++ id.display ++ " at " ++ graph ++ "["
      ++ toString index ++ "] has no candidates in the store")
  | .emptyValueRoot id => some ("static candidate set of " ++ id.display ++ " is empty")
  | .tooManyVariables count max =>
    some ("pattern has " ++ toString count ++ " variables, limit is " ++ toString max)
  | .unprobed => some "codex map has not been probed"
  | .alreadyProbed => some "codex map is already probed"
  | .store cause => cause.message

end TriplePlan
