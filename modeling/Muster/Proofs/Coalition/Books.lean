import Muster.Proofs.Coalition.Outcome
import Muster.Proofs.Coalition.Recorder
import Muster.Proofs.Partition.Bell
import Muster.Proofs.Pool.Agents
import Muster.Proofs.Pool.Settings

/-!
The books of a search for coalitions, under any oracle and any monitor. The oracle is asked for each
pool at most once, and only for pools of coalitions of the agents; a structure is tried just if none
like it has been, and at most as many are tried as the settings allow. The counters say how many
structures were taken up, how often the oracle was asked, and how many answers were known already.
The structure that has a coalition for each agent comes last and is like no other, so a search that
is stopped has not tried it.

Main statements: `Keeps.valuesOf`, `Books.takeUp`, `Books.run`, `exists_account`.
-/

namespace Muster
namespace CoalitionSearch

/-! ### What there is to go through -/

section Structures

variable {agents : List Agent}

/-- There are no more structures than partitions. -/
theorem length_structures_le (agents : List Agent) :
    (structures agents).length ≤ growths 0 agents.length := by
  have hlength : (structures agents).length =
      ((List.range' 1 agents.length).map fun k => (labelings k 0 agents.length).length).sum := by
    rw [structures, List.length_flatMap]
    simp only [List.length_map]
  have hsum : growths 0 agents.length =
      ((List.range (agents.length + 1)).map fun k => (labelings k 0 agents.length).length).sum :=
    (sum_length_labelings (by omega)).symm
  rw [hlength, hsum, List.range_eq_range', List.range'_succ, List.map_cons, List.sum_cons]
  exact Nat.le_add_left ..

/-- The last structure has more coalitions than all before. -/
theorem structures_concat (h : agents ≠ []) : ∃ init last,
    structures agents = init ++ [last] ∧ ∀ x ∈ init, x.length < last.length := by
  obtain ⟨n, hn⟩ : ∃ n, agents.length = n + 1 :=
    Nat.exists_eq_add_one.2 (List.length_pos_of_ne_nil h)
  have hlast : labelings (n + 1) 0 (n + 1) = [List.range' 0 (n + 1)] := by
    simpa using labelings_all 0 (n + 1)
  have hlength : ∀ {k}, ∀ labels ∈ labelings k 0 (n + 1), (blocksOf agents labels).length = k := by
    intro k labels hlabels
    rw [length_blocksOf, (mem_labelings.1 hlabels).2.2]
  refine ⟨(List.range' 1 n).flatMap fun k => (labelings k 0 (n + 1)).map (blocksOf agents),
    blocksOf agents (List.range' 0 (n + 1)), ?_, fun x hx => ?_⟩
  · rw [structures, hn, List.range'_1_concat, List.flatMap_append, List.flatMap_singleton,
      Nat.add_comm 1 n, hlast, List.map_singleton]
  · obtain ⟨k, hk, hx⟩ := List.mem_flatMap.1 hx
    obtain ⟨labels, hlabels, rfl⟩ := List.mem_map.1 hx
    rw [hlength labels hlabels, hlength (k := n + 1) _ (by simp [hlast])]
    have := (List.mem_range'_1.1 hk).2
    omega

/-- As long as structures are left, one of them is like none of those before. -/
theorem exists_unlike {visited rest : List (List (List Agent))}
    (h : structures agents = visited ++ rest) (hrest : rest ≠ []) :
    ∃ x ∈ rest, ∀ y ∈ visited, ¬IsAlike y x := by
  have hne : agents ≠ [] := by
    rintro rfl
    exact hrest (List.append_eq_nil_iff.1 h.symm).2
  obtain ⟨init, last, hstructures, hlt⟩ := structures_concat hne
  obtain ⟨before, x, rfl⟩ := (List.eq_nil_or_concat' rest).resolve_left hrest
  rw [hstructures, ← List.append_assoc] at h
  obtain ⟨rfl, hlast⟩ := List.append_inj' h rfl
  rw [← hlast]
  refine ⟨last, by simp, fun y hy halike => ?_⟩
  exact (hlt y (List.mem_append_left _ hy)).ne halike.length_eq

/-- The pool of a coalition is one of those within the pool of all agents. -/
theorem ofAgents_mem_poolsWithin {x : List (List Agent)} (h : IsSplit agents x) {c : List Agent}
    (hc : c ∈ x) : Pool.ofAgents c ∈
      Enumeration.poolsWithin (.ofAgents agents) (Pool.ofAgents agents).totalAtoms .max := by
  have hnormal := Pool.isNormal_ofAgents c
  have hsub : (Pool.ofAgents c).isSubset (.ofAgents agents) = true := by
    refine Pool.isSubset_iff.2 fun m => UInt32.le_iff_toNat_le.2 ?_
    have hle := (List.sublist_flatten_of_mem hc).countP_le (p := fun a => a.model == m)
    rw [h.perm.countP_eq] at hle
    rw [Pool.toNat_count_ofAgents, Pool.toNat_count_ofAgents]
    omega
  have hne : (Pool.ofAgents c).isEmpty = false := by
    obtain ⟨a, rest, rfl⟩ := List.exists_cons_of_ne_nil (h.ne_nil c hc)
    rw [Bool.eq_false_iff]
    intro hempty
    have hzero := congrArg UInt32.toNat (hnormal.isEmpty_iff.1 hempty a.model)
    have hpos : 0 < (a :: rest).countP fun b => b.model == a.model := by simp
    rw [Pool.toNat_count_ofAgents, UInt32.toNat_zero, countLimit] at hzero
    omega
  exact ((Enumeration.listsPools_poolsWithin _ _ _).mem_iff _).2
    ⟨hnormal, hne, hsub, Pool.totalAtoms_le hnormal hsub⟩

/-- Different pools of coalitions are not more than the combinations within the pool of all
agents. -/
theorem length_le_totalCombinations {tried : List (List (List Agent))} {asked : List (List Agent)}
    (htried : ∀ x ∈ tried, IsSplit agents x) (hasked : asked.Sublist tried.flatten)
    (honce : (asked.map Pool.ofAgents).Nodup)
    (hfits : productOf ((Pool.ofAgents agents).entries.map fun e => e.2.toNat + 1) ≤ tallyLimit) :
    asked.length ≤ totalCombinations (.ofAgents agents) := by
  have hsub : asked.map Pool.ofAgents ⊆
      Enumeration.poolsWithin (.ofAgents agents) (Pool.ofAgents agents).totalAtoms .max := by
    intro pool hpool
    obtain ⟨c, hc, rfl⟩ := List.mem_map.1 hpool
    obtain ⟨x, hx, hc⟩ := List.mem_flatten.1 (hasked.mem hc)
    exact ofAgents_mem_poolsWithin (htried x hx) hc
  have hle := (honce.subperm hsub).length_le
  have hcount := Enumeration.length_poolsWithin (Nat.le_refl (Pool.ofAgents agents).totalAtoms)
  rw [List.length_map] at hle
  rw [Enumeration.totalCombinations_eq hfits]
  omega

end Structures

/-! ### What the oracle is asked -/

variable {ω μ : Type} {s : CoalitionSearch (Recorder ω) μ}

/-- The books are kept: the pools with a known value are those that the oracle was asked for, each
of them once, and the counters say that `visited` structures were taken up, that the oracle valued
`rated` of them, and that it did not have to be asked `hits` times. -/
structure Keeps (visited rated hits : Nat) (s : CoalitionSearch (Recorder ω) μ) : Prop where
  known : ∀ pool, s.values[pool]?.isSome = true ↔ pool ∈ s.oracle.asked.map Pool.ofAgents
  once : (s.oracle.asked.map Pool.ofAgents).Nodup
  rated_eq : s.oracle.rated = rated
  candidates : s.statistics.candidates = capped visited
  evaluations : s.statistics.evaluations = capped s.oracle.asked.length
  cacheHits : s.statistics.cacheHits = capped hits

section Keeps

variable {visited rated hits : Nat}

theorem Keeps.countCandidate (h : Keeps visited rated hits s) :
    Keeps (visited + 1) rated hits (s.count .countCandidate) :=
  { h with candidates := (congrArg tally h.candidates).trans (tally_capped visited) }

theorem Keeps.countCacheHit (h : Keeps visited rated hits s) :
    Keeps visited rated (hits + 1) (s.count .countCacheHit) :=
  { h with cacheHits := (congrArg tally h.cacheHits).trans (tally_capped hits) }

variable [CoalitionOracle ω]

/-- The oracle is asked for a coalition, or its pool is known. -/
theorem Keeps.valueOf (h : Keeps visited rated hits s) (c : List Agent) :
    ∃ asked hits', asked.Sublist [c] ∧ (s.valueOf c).2.oracle.asked = s.oracle.asked ++ asked ∧
      hits' + asked.length = hits + 1 ∧ Keeps visited rated hits' (s.valueOf c).2 := by
  rw [CoalitionSearch.valueOf]
  cases hknown : s.values[Pool.ofAgents c]? with
  | some v =>
    exact ⟨[], hits + 1, List.nil_sublist _, (List.append_nil _).symm, rfl, h.countCacheHit⟩
  | none =>
    have hnew : Pool.ofAgents c ∉ s.oracle.asked.map Pool.ofAgents := by
      rw [← h.known, hknown]
      exact Bool.false_ne_true
    refine ⟨[c], hits, .refl _, rfl, rfl, fun pool => ?_, ?_, h.rated_eq, h.candidates, ?_,
      h.cacheHits⟩
    · show (s.values.insert _ _)[pool]?.isSome = true ↔
        pool ∈ (s.oracle.asked ++ [c]).map Pool.ofAgents
      rw [Std.TreeMap.getElem?_insert, List.map_append, List.mem_append, ← h.known]
      split
      · rename_i heq
        simp [Std.LawfulEqCmp.eq_of_compare heq]
      · rename_i hne
        have hpool : pool ≠ Pool.ofAgents c := by
          rintro rfl
          exact hne Std.ReflCmp.compare_self
        simp [hpool]
    · show ((s.oracle.asked ++ [c]).map Pool.ofAgents).Nodup
      rw [List.map_append, List.map_singleton, List.nodup_append]
      refine ⟨h.once, List.nodup_singleton _, fun p hp q hq => ?_⟩
      rw [List.mem_singleton.1 hq]
      exact fun heq => hnew (heq ▸ hp)
    · show tally s.statistics.evaluations = capped (s.oracle.asked ++ [c]).length
      rw [h.evaluations, tally_capped, List.length_append, List.length_singleton]

theorem Keeps.valuesOf : ∀ (coalitions : List (List Agent)) {s : CoalitionSearch (Recorder ω) μ}
    {hits : Nat}, Keeps visited rated hits s →
    ∃ asked hits', asked.Sublist coalitions ∧
      (s.valuesOf coalitions).2.oracle.asked = s.oracle.asked ++ asked ∧
      hits' + asked.length = hits + coalitions.length ∧
      Keeps visited rated hits' (s.valuesOf coalitions).2
  | [], s, hits, h => ⟨[], hits, .slnil, (List.append_nil _).symm, rfl, h⟩
  | c :: rest, s, hits, h => by
    obtain ⟨first, hits', hfirst, hasked, hcount, h⟩ := h.valueOf c
    obtain ⟨more, hits'', hmore, hasked', hcount', h⟩ := h.valuesOf rest
    refine ⟨first ++ more, hits'', hfirst.append hmore, ?_, ?_, h⟩
    · rw [← List.append_assoc, ← hasked]
      exact hasked'
    · rw [List.length_append, List.length_cons]
      omega

/-- The oracle is asked for the coalitions of a structure and then for its value. -/
theorem Keeps.appraise (h : Keeps visited rated hits s) (x : List (List Agent)) :
    ∃ asked hits', asked.Sublist x ∧ (s.appraise x).2.oracle.asked = s.oracle.asked ++ asked ∧
      hits' + asked.length = hits + x.length ∧ Keeps visited (rated + 1) hits' (s.appraise x).2 := by
  obtain ⟨asked, hits', hsub, hasked, hcount, h⟩ := h.valuesOf x
  exact ⟨asked, hits', hsub, hasked, hcount, h.known, h.once, congrArg Nat.succ h.rated_eq,
    h.candidates, h.evaluations, h.cacheHits⟩

end Keeps

/-! ### One structure after the other -/

/-- Of the structures taken up, `tried` has one of each kind, no more than the settings allow. -/
structure Samples (config : CoalitionConfig) (visited tried : List (List (List Agent))) : Prop where
  sublist : tried.Sublist visited
  covered : ∀ x ∈ visited, ∃ y ∈ tried, IsAlike y x
  apart : tried.Pairwise fun x y => ¬IsAlike x y
  limited : ∀ m, config.maxStructures = some m → tried.length ≤ m

section Samples

variable {config : CoalitionConfig} {visited tried : List (List (List Agent))}
variable {x : List (List Agent)}

theorem Samples.skip (h : Samples config visited tried) (hx : ∃ y ∈ tried, IsAlike y x) :
    Samples config (visited ++ [x]) tried where
  sublist := h.sublist.trans (List.sublist_append_left visited [x])
  covered := List.forall_mem_append.2 ⟨h.covered, List.forall_mem_singleton.2 hx⟩
  apart := h.apart
  limited := h.limited

theorem Samples.concat (h : Samples config visited tried) (hx : ¬∃ y ∈ tried, IsAlike y x)
    (hroom : ∀ m, config.maxStructures = some m → tried.length < m) :
    Samples config (visited ++ [x]) (tried ++ [x]) where
  sublist := h.sublist.append (.refl [x])
  covered := by
    rw [List.forall_mem_append, List.forall_mem_singleton]
    refine ⟨fun y hy => ?_, x, by simp, .refl _⟩
    obtain ⟨z, hz, halike⟩ := h.covered y hy
    exact ⟨z, List.mem_append_left _ hz, halike⟩
  apart := by
    refine List.pairwise_append.2 ⟨h.apart, List.pairwise_singleton _ _, fun y hy z hz halike => ?_⟩
    rw [List.mem_singleton.1 hz] at halike
    exact hx ⟨y, hy, halike⟩
  limited m hm := by
    rw [List.length_append, List.length_singleton]
    exact hroom m hm

end Samples

/-- The books of a search that has taken up `visited` and tried `tried`. -/
structure Books (config : CoalitionConfig) (visited tried : List (List (List Agent))) (hits : Nat)
    (s : CoalitionSearch (Recorder ω) μ) : Prop
    extends Keeps visited.length tried.length hits s, Samples config visited tried where
  config_eq : s.config = config
  evaluated_eq : s.evaluated = tried.length
  contains_iff : ∀ key, s.tried.contains key = true ↔ ∃ y ∈ tried, signature y = key
  asked : s.oracle.asked.Sublist tried.flatten
  balance : hits + tried.length + s.oracle.asked.length = visited.length + tried.flatten.length

/-- What is left of the structures when a search has ended in some way, or has not ended. -/
def Leaves (rest : List (List (List Agent))) : Option TerminationReason → Prop
  | none => rest = []
  | some .solutionLimitReached => True
  | some (.aborted _) => rest ≠ []
  | some _ => False

section Books

variable {config : CoalitionConfig} {visited rest tried : List (List (List Agent))} {hits : Nat}
variable {x : List (List Agent)}

theorem Leaves.concat {reason : TerminationReason} (h : Leaves rest (some reason))
    (x : List (List Agent)) : Leaves (rest ++ [x]) (some reason) := by
  cases reason with
  | solutionLimitReached => trivial
  | aborted => exact List.concat_ne_nil x rest
  | _ => exact h

theorem Leaves.of_exhausted {ended : Option TerminationReason} (h : Leaves rest ended)
    (hreason : ended.getD .searchSpaceExhausted = .searchSpaceExhausted) : rest = [] := by
  cases ended with
  | none => exact h
  | some reason =>
    obtain rfl : reason = .searchSpaceExhausted := hreason
    exact h.elim

theorem Leaves.of_aborted {ended : Option TerminationReason} {message : String}
    (h : Leaves rest ended) (hreason : ended.getD .searchSpaceExhausted = .aborted message) :
    rest ≠ [] := by
  cases ended with
  | none => exact nomatch hreason
  | some reason =>
    obtain rfl : reason = .aborted message := hreason
    exact h

theorem Books.contains_signature (h : Books config visited tried hits s) (x : List (List Agent)) :
    s.tried.contains (signature x) = true ↔ ∃ y ∈ tried, IsAlike y x := by
  rw [h.contains_iff]
  simp only [signature_eq_iff]

theorem Books.keepBest (h : Books config visited tried hits s) (x : List (List Agent))
    (v : Double) : Books config visited tried hits (s.keepBest x v) := by
  rw [keepBest_eq]
  exact { h with }

theorem Books.endWith (h : Books config visited tried hits s) (reason : TerminationReason) :
    Books config visited tried hits (s.endWith reason) := { h with }

theorem Books.skip (h : Books config visited tried hits s) (hx : ∃ y ∈ tried, IsAlike y x) :
    Books config (visited ++ [x]) tried (hits + 1)
      ((s.count .countCandidate).count .countCacheHit) := by
  have hlength : (visited ++ [x]).length = visited.length + 1 := by simp
  refine { h.toSamples.skip hx, h with toKeeps := ?_, balance := ?_ }
  · rw [hlength]
    exact h.countCandidate.countCacheHit
  · have hbalance := h.balance
    show hits + 1 + tried.length + s.oracle.asked.length = _
    omega

/-- The search with a structure entered as tried. -/
def enter (s : CoalitionSearch ω μ) (x : List (List Agent)) : CoalitionSearch ω μ :=
  { s.count .countCandidate with
    tried := s.tried.insert (signature x), evaluated := s.evaluated + 1 }

/-- A structure like none before is tried. -/
theorem Books.appraise [CoalitionOracle ω] (h : Books config visited tried hits s)
    (hx : ¬∃ y ∈ tried, IsAlike y x)
    (hroom : ∀ m, config.maxStructures = some m → tried.length < m) :
    ∃ hits', Books config (visited ++ [x]) (tried ++ [x]) hits' ((s.enter x).appraise x).2 := by
  have hkeeps : Keeps (visited.length + 1) tried.length hits (s.enter x) :=
    { h.countCandidate with }
  obtain ⟨asked, hits', hsub, hasked, hcount, hkeeps⟩ := hkeeps.appraise x
  obtain ⟨oracle, values, statistics, hlearned⟩ := learns_appraise (s.enter x) x
  rw [hlearned] at hkeeps hasked ⊢
  have hvisited : (visited ++ [x]).length = visited.length + 1 := by simp
  have htried : (tried ++ [x]).length = tried.length + 1 := by simp
  have hflatten : (tried ++ [x]).flatten = tried.flatten ++ x := by simp
  refine ⟨hits', { h.toSamples.concat hx hroom with
    toKeeps := ?_
    config_eq := h.config_eq
    evaluated_eq := ?_
    contains_iff := fun key => ?_
    asked := ?_
    balance := ?_ }⟩
  · rw [hvisited, htried]
    exact hkeeps
  · rw [htried]
    exact congrArg Nat.succ h.evaluated_eq
  · show (s.tried.insert (signature x)).contains key = true ↔ _
    rw [Std.TreeSet.contains_insert, Bool.or_eq_true, Std.compare_beq_iff_eq, h.contains_iff]
    simp [or_and_right, exists_or, or_comm]
  · rw [hflatten, hasked]
    exact h.asked.append hsub
  · have hbalance := h.balance
    rw [hvisited, htried, hflatten, hasked, List.length_append, List.length_append]
    show hits' + _ + (s.oracle.asked.length + _) = _
    omega

variable [SearchMonitor μ]

theorem Books.tell (h : Books config visited tried hits s) (event : SearchEvent) :
    Books config visited tried hits (s.tell event) := { h with }

theorem Books.checkThreshold (h : Books config visited tried hits s) (v : Double) :
    Books config visited tried hits (s.checkThreshold v) := by
  rw [CoalitionSearch.checkThreshold]
  split
  · exact { h with }
  · exact h

theorem ended_checkThreshold (s : CoalitionSearch (Recorder ω) μ) (v : Double) :
    (s.checkThreshold v).ended = s.ended ∨
      (s.checkThreshold v).ended = some .solutionLimitReached := by
  rw [CoalitionSearch.checkThreshold]
  split
  · exact .inr rfl
  · exact .inl rfl

variable [CoalitionOracle ω]

theorem ended_evaluate (s : CoalitionSearch (Recorder ω) μ) (x : List (List Agent)) :
    (s.evaluate x).ended = s.ended ∨ (s.evaluate x).ended = some .solutionLimitReached := by
  obtain ⟨_, _, _, hlearned⟩ := learns_appraise { s with evaluated := s.evaluated + 1 } x
  have hkept : ∀ v, (({ s with evaluated := s.evaluated + 1 }.appraise x).2.keepBest x v).ended =
      s.ended := by
    intro v
    rw [keepBest_eq, hlearned]
  exact (ended_checkThreshold _ _).imp_left (·.trans (hkept _))

/-- A structure is taken up: it is skipped if one like it has been tried. -/
theorem Books.consider (h : Books config visited tried hits s)
    (hroom : ∀ m, config.maxStructures = some m → tried.length < m) (x : List (List Agent)) :
    (∃ tried' hits', Books config (visited ++ [x]) tried' hits' (s.consider x)) ∧
      ((s.consider x).ended = s.ended ∨ (s.consider x).ended = some .solutionLimitReached) := by
  have hx := h.contains_signature x
  rw [CoalitionSearch.consider]
  split
  · rename_i htried
    exact ⟨⟨tried, hits + 1, h.skip (hx.1 htried)⟩, .inl rfl⟩
  · rename_i htried
    obtain ⟨hits', h⟩ := h.appraise (mt hx.2 htried) hroom
    exact ⟨⟨tried ++ [x], hits', (h.keepBest x _).checkThreshold _⟩, ended_evaluate _ x⟩

/-- A search that has not ended takes up the next structure, or it is stopped before. -/
theorem Books.takeUp (h : Books config visited tried hits s) (hended : s.ended = none)
    (x : List (List Agent)) :
    ∃ visited' rest tried' hits', visited' ++ rest = visited ++ [x] ∧
      Books config visited' tried' hits' (s.takeUp x) ∧ Leaves rest (s.takeUp x).ended := by
  rw [CoalitionSearch.takeUp]
  cases SearchMonitor.command (s.tell .step).monitor with
  | terminate reason =>
    exact ⟨visited, [x], tried, hits, rfl, (h.tell .step).endWith _, List.cons_ne_nil x []⟩
  | proceed =>
    cases hlimit : (s.tell .step).config.maxStructures.any (· ≤ (s.tell .step).evaluated) with
    | true =>
      exact ⟨visited, [x], tried, hits, rfl, (h.tell .step).endWith _, List.cons_ne_nil x []⟩
    | false =>
      have hroom : ∀ m, config.maxStructures = some m → tried.length < m := by
        intro m hm
        have hstep := h.tell .step
        rw [hstep.config_eq, hm, hstep.evaluated_eq] at hlimit
        simpa using hlimit
      obtain ⟨⟨tried', hits', hbooks⟩, hend⟩ := (h.tell .step).consider hroom x
      have hleaves : Leaves [] ((s.tell .step).consider x).ended := by
        obtain hend | hend := hend
        · rw [hend, show (s.tell .step).ended = none from hended]
          rfl
        · rw [hend]
          trivial
      exact ⟨visited ++ [x], [], tried', hits', List.append_nil _, hbooks, hleaves⟩

/-- A search that has passed `seen` has its books in order, be it that it goes on or that it has
ended on the way. -/
def Passes (config : CoalitionConfig) (seen : List (List (List Agent)))
    (s : CoalitionSearch (Recorder ω) μ) : Prop :=
  ∃ visited rest tried hits, visited ++ rest = seen ∧ Books config visited tried hits s ∧
    Leaves rest s.ended

theorem Passes.pass {seen : List (List (List Agent))} (h : Passes config seen s)
    (x : List (List Agent)) : Passes config (seen ++ [x]) (s.pass x) := by
  obtain ⟨visited, rest, tried, hits, rfl, hbooks, hleaves⟩ := h
  rw [CoalitionSearch.pass, isEnded]
  cases hended : s.ended with
  | some reason =>
    have hleft : Leaves (rest ++ [x]) s.ended := by
      rw [hended] at hleaves ⊢
      exact hleaves.concat x
    exact ⟨visited, rest ++ [x], tried, hits, (List.append_assoc ..).symm, hbooks, hleft⟩
  | none =>
    rw [hended] at hleaves
    rw [show rest = [] from hleaves, List.append_nil]
    exact hbooks.takeUp hended x

/-- The books are in order after a run. -/
theorem Passes.run (h : Passes config [] s) : Passes config (structures s.agents) s.run := by
  refine run_induction h (fun seen s event h => ?_) fun seen s x h => h.pass x
  obtain ⟨visited, rest, tried, hits, hseen, hbooks, hleaves⟩ := h
  exact ⟨visited, rest, tried, hits, hseen, hbooks.tell event, hleaves⟩

end Books

end CoalitionSearch

/-! ### The account of a run -/

namespace CoalitionSolver

open CoalitionSearch

/-- What a run that has taken up `visited` and tried `tried`, with `rest` left, has to account for:
what it asked its oracle for, what it counted and why it ended. Answers that were known already are
one for each structure that was skipped, and one for each coalition of a structure tried that the
oracle was not asked for. -/
structure IsAccount {ω : Type} (config : CoalitionConfig)
    (visited rest tried : List (List (List Agent))) (oracle : Recorder ω)
    (found : CoalitionOutcome) : Prop extends Samples config visited tried where
  asked : oracle.asked.Sublist tried.flatten
  once : (oracle.asked.map Pool.ofAgents).Nodup
  rated : oracle.rated = tried.length
  candidates : found.statistics.candidates = capped visited.length
  evaluations : found.statistics.evaluations = capped oracle.asked.length
  cacheHits : found.statistics.cacheHits =
    capped (visited.length - tried.length + (tried.flatten.length - oracle.asked.length))
  exhausted : found.reason = .searchSpaceExhausted → rest = []
  aborted : ∀ message, found.reason = .aborted message → ∃ x ∈ rest, ∀ y ∈ tried, ¬IsAlike y x

variable {ω μ : Type} {agents : List Agent} {config : CoalitionConfig}
variable {visited rest tried : List (List (List Agent))}

/-- Books in order make an account. -/
theorem isAccount {hits : Nat} {s : CoalitionSearch (Recorder ω) μ}
    (hseen : visited ++ rest = structures agents) (h : Books config visited tried hits s)
    (hleaves : Leaves rest s.ended) :
    IsAccount config visited rest tried s.oracle s.outcome := by
  have htried := h.sublist.length_le
  have hasked := h.asked.length_le
  have hbalance := h.balance
  have hhits : hits = visited.length - tried.length +
      (tried.flatten.length - s.oracle.asked.length) := by omega
  refine { h.toSamples with
    asked := h.asked
    once := h.once
    rated := h.rated_eq
    candidates := h.candidates
    evaluations := h.evaluations
    cacheHits := hhits ▸ h.cacheHits
    exhausted := fun hreason => ?_
    aborted := fun message hreason => ?_ }
  · rw [outcome_reason] at hreason
    exact hleaves.of_exhausted hreason
  · rw [outcome_reason] at hreason
    obtain ⟨x, hx, hunlike⟩ := exists_unlike hseen.symm (hleaves.of_aborted hreason)
    exact ⟨x, hx, fun y hy => hunlike y (h.sublist.mem hy)⟩

section Bounds

variable {oracle : Recorder ω} {found : CoalitionOutcome}

theorem IsAccount.candidates_le (h : IsAccount config visited rest tried oracle found)
    (hseen : visited ++ rest = structures agents) :
    found.statistics.candidates ≤ bellNumber agents.length := by
  rw [h.candidates, bellNumber_eq]
  refine capped_le_capped (Nat.le_trans ?_ (length_structures_le agents))
  rw [← hseen, List.length_append]
  exact Nat.le_add_right ..

theorem IsAccount.evaluations_le (h : IsAccount config visited rest tried oracle found)
    (hseen : visited ++ rest = structures agents)
    (hfits : productOf ((Pool.ofAgents agents).entries.map fun e => e.2.toNat + 1) ≤ tallyLimit) :
    found.statistics.evaluations ≤ totalCombinations (.ofAgents agents) := by
  have hsplit : ∀ x ∈ tried, IsSplit agents x := by
    intro x hx
    refine isSplit_of_mem_structures ?_
    rw [← hseen]
    exact List.mem_append_left _ (h.sublist.mem hx)
  rw [h.evaluations]
  exact (capped_le _).trans (length_le_totalCombinations hsplit h.asked h.once hfits)

end Bounds

theorem passes_begin (solver : CoalitionSolver) (agents : List Agent) (oracle : ω) (monitor : μ) :
    Passes solver.config [] (solver.begin agents (Recorder.mk oracle [] 0) monitor) := by
  refine ⟨[], [], [], 0, rfl, ?_, rfl⟩
  exact {
    known := by simp [begin], once := List.nodup_nil, rated_eq := rfl, candidates := rfl,
    evaluations := rfl, cacheHits := rfl, sublist := .slnil, covered := by simp,
    apart := .nil, limited := by simp, config_eq := rfl, evaluated_eq := rfl,
    contains_iff := by simp [begin], asked := .slnil, balance := rfl }

variable [CoalitionOracle ω] [SearchMonitor μ]

theorem exists_isAccount (solver : CoalitionSolver) (agents : List Agent) (oracle : ω)
    (monitor : μ) :
    ∃ visited rest tried, visited ++ rest = structures agents ∧
      IsAccount solver.config visited rest tried
        (solver.solveWith agents (Recorder.mk oracle [] 0) monitor).oracle
        (solver.solveWith agents (Recorder.mk oracle [] 0) monitor).outcome := by
  obtain ⟨visited, rest, tried, hits, hseen, hbooks, hleaves⟩ :=
    (passes_begin solver agents oracle monitor).run
  exact ⟨visited, rest, tried, hseen, isAccount hseen hbooks hleaves⟩

/-- A solver accounts for its run, under any oracle and any monitor. It takes up no more structures
than there are partitions, and it asks for no more coalitions than there are combinations. -/
theorem exists_account (solver : CoalitionSolver) (agents : List Agent) (oracle : ω)
    (monitor : μ) :
    (solver.solveWith agents (Recorder.mk oracle [] 0) monitor).outcome =
      (solver.solveWith agents oracle monitor).outcome ∧
    (∃ visited rest tried, visited ++ rest = structures agents ∧
      IsAccount solver.config visited rest tried
        (solver.solveWith agents (Recorder.mk oracle [] 0) monitor).oracle
        (solver.solveWith agents oracle monitor).outcome) ∧
    (solver.solveWith agents oracle monitor).outcome.statistics.candidates ≤
      bellNumber agents.length ∧
    (productOf ((Pool.ofAgents agents).entries.map fun e => e.2.toNat + 1) ≤ tallyLimit →
      (solver.solveWith agents oracle monitor).outcome.statistics.evaluations ≤
        totalCombinations (.ofAgents agents)) := by
  have houtcome := solver.outcome_recorder agents oracle monitor
  obtain ⟨visited, rest, tried, hseen, haccount⟩ := solver.exists_isAccount agents oracle monitor
  rw [houtcome] at haccount
  exact ⟨houtcome, ⟨visited, rest, tried, hseen, haccount⟩, haccount.candidates_le hseen,
    haccount.evaluations_le hseen⟩

/-- A solver that tries at most three structures. -/
def hastySolver : CoalitionSolver := { config := { maxStructures := some 3 } }

/-- Two docks and two rovers have fifteen partitions and eight combinations. -/
theorem exists_account_docksAndRovers :
    ∃ (oracle : Recorder ValueTable) (found : CoalitionOutcome),
      (hastySolver.solveWith docksAndRovers dockedRovers (Monitor.composite [])).outcome = found ∧
      found.statistics.candidates ≤ 15 ∧ found.statistics.evaluations ≤ 8 ∧
      ∃ visited rest tried, visited ++ rest = structures docksAndRovers ∧ tried.length ≤ 3 ∧
        IsAccount hastySolver.config visited rest tried oracle found := by
  obtain ⟨-, ⟨visited, rest, tried, hseen, haccount⟩, hcandidates, hevaluations⟩ :=
    exists_account hastySolver docksAndRovers dockedRovers (Monitor.composite [])
  have hbell : bellNumber docksAndRovers.length = 15 := by decide +kernel
  have hcombinations : totalCombinations (.ofAgents docksAndRovers) = 8 := by decide +kernel
  exact ⟨_, _, rfl, hbell ▸ hcandidates, hcombinations ▸ hevaluations (by decide +kernel), visited,
    rest, tried, hseen, haccount.limited 3 rfl, haccount⟩

end CoalitionSolver
end Muster
