import Muster.Pool.Algebra

/-!
The difference of two pools: how many instances of each model one has more than the other.
-/

namespace Muster

/-- The models whose counts differ, with the differences. -/
structure PoolDelta where
  differences : OrderedMap Model Int
deriving DecidableEq, Inhabited

namespace PoolDelta

/-- The counts of `p` less those of `q`. -/
def between (p q : Pool) : PoolDelta :=
  ⟨.tabulate (p.models ∪ q.models) fun m =>
    let d : Int := (p.count m).toNat - (q.count m).toNat
    if d = 0 then none else some d⟩

/-- The difference in `m`. -/
def get (d : PoolDelta) (m : Model) : Int := (d.differences.get? m).getD 0

/-- Whether some difference is negative. -/
def isNegative (d : PoolDelta) : Bool := d.differences.values.any (· < 0)

/-- The positive differences. -/
def toPool (d : PoolDelta) : Pool :=
  ⟨.tabulate d.differences.keys fun m =>
    let n := d.get m
    if 0 < n then some (.ofNat (Nat.min n.toNat countLimit)) else none⟩

theorem get_between (p q : Pool) (m : Model) :
    (between p q).get m = (p.count m).toNat - (q.count m).toNat := by
  simp only [get, between, OrderedMap.get?_tabulate, OrderedSet.mem_union]
  split
  · split
    · rename_i h
      exact h.symm
    · rfl
  · rename_i h
    have zero {r : Pool} (hr : ¬ m ∈ r.models) : r.count m = 0 :=
      Classical.byContradiction fun hc => hr (Pool.mem_models_of_count_ne_zero hc)
    rw [zero fun hp => h (.inl hp), zero fun hq => h (.inr hq)]
    rfl

end PoolDelta
end Muster
