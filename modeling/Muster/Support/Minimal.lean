import Muster.Support.Pool

/-!
Minimal pools: pools that serve functionalities fully, and no longer do with one instance less.
-/

namespace Muster.Pool

/-- The pool with one instance of `m` less. -/
def withoutOne (pool : Pool) (m : Model) : Pool :=
  let n := pool.count m
  if n ≤ 1 then pool.erase m else pool.set m (n - 1)

/-- Whether the pool serves functionalities fully with one instance less of some of its models. -/
def isRedundant (o : Ontology) (fs : List Model) (pool : Pool) : Except RequestError Bool :=
  pool.models.toList.anyM fun m => isSupporting o fs (pool.withoutOne m)

/-- The models of a pool that give some support by themselves, with that support. -/
def ownSupports (o : Ontology) (fs : List Model) (pool : Pool) :
    Except RequestError (List ((Model × UInt32) × SupportType)) :=
  pool.normalized.entries.mapM fun e => return (e, ← modelSupportType o fs e.1 e.2)

/-- Whether the pool is minimal. If one model serves by itself, all others are superfluous; if none
does, only models that serve in part can be superfluous by one. -/
def isMinimal (o : Ontology) (fs : List Model) (pool : Pool) : Except RequestError Bool := do
  if !(← isSupporting o fs pool) then return false
  let supports ← ownSupports o fs pool
  if supports.any (·.2 == .fullSupport) then
    if pool.distinctModels ≠ 1 then return false
    return !(← isRedundant o fs pool.normalized)
  else
    let serving := supports.filter (·.2 == .partialSupport)
    return !(← isRedundant o fs (.ofPairs (serving.map Prod.fst)))

/-- The minimal pools of a set. -/
def minimalOf (o : Ontology) (fs : List Model) (pools : PoolSet) : Except RequestError PoolSet :=
  return .ofList (← pools.toList.filterM (isMinimal o fs))

end Muster.Pool
