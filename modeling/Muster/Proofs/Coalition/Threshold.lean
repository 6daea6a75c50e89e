import Muster.Proofs.Coalition.Outcome

/-!
Searches for coalitions that a structure ends by reaching the threshold, under any oracle and any
monitor. The ledger of a search lists the structures that have other pools than all before, each
with the value that the oracle gives when its turn comes. A search that goes on has the best of the
ledger so far, and nothing there reaches the threshold; so the structure that ends the search is the
first that reaches it. It is reported just if its value is positive and the first value of the
ledger, which all others are compared with, is a number; otherwise nothing is.

Main statements: `exists_mem_ledger`, `bestOf_concat_of_le`, `Course.pass`,
`exists_first_of_reached`.
-/

namespace Muster
namespace CoalitionSearch

variable {ω μ : Type}

/-! ### The ledger -/

/-- A structure with its value. -/
abbrev Entry := List (List Agent) × Double

section Ledger

/-- Notes that structures with the pools of `x` have been tried. -/
def note (s : CoalitionSearch ω μ) (x : List (List Agent)) : CoalitionSearch ω μ :=
  { s with tried := s.tried.insert (signature x) }

/-- Two searches that would value structures alike. -/
structure KnowsAlike (s t : CoalitionSearch ω μ) : Prop where
  oracle : s.oracle = t.oracle
  values : s.values = t.values
  tried : s.tried = t.tried

variable {s t : CoalitionSearch ω μ} {x y : List (List Agent)} {xs : List (List (List Agent))}

theorem KnowsAlike.note (h : KnowsAlike s t) (x : List (List Agent)) :
    KnowsAlike (s.note x) (t.note x) :=
  ⟨h.oracle, h.values, congrArg (·.insert (signature x)) h.tried⟩

variable [CoalitionOracle ω]

/-- The structures with other pools than those before, one after the other, each with the value that
the oracle gives it in its turn. -/
def ledger (s : CoalitionSearch ω μ) : List (List (List Agent)) → List Entry
  | [] => []
  | x :: rest =>
    if s.tried.contains (signature x) then s.ledger rest
    else (x, ((s.note x).appraise x).1) :: ((s.note x).appraise x).2.ledger rest

theorem KnowsAlike.valueOf (h : KnowsAlike s t) (coalition : List Agent) :
    (s.valueOf coalition).1 = (t.valueOf coalition).1 ∧
      KnowsAlike (s.valueOf coalition).2 (t.valueOf coalition).2 := by
  rw [CoalitionSearch.valueOf, CoalitionSearch.valueOf, h.values]
  split
  · exact ⟨rfl, h.oracle, h.values, h.tried⟩
  · rw [h.oracle]
    exact ⟨rfl, rfl, rfl, h.tried⟩

theorem KnowsAlike.valuesOf : ∀ (coalitions : List (List Agent)) {s t : CoalitionSearch ω μ},
    KnowsAlike s t → (s.valuesOf coalitions).1 = (t.valuesOf coalitions).1 ∧
      KnowsAlike (s.valuesOf coalitions).2 (t.valuesOf coalitions).2
  | [], _, _, h => ⟨rfl, h⟩
  | c :: rest, _, _, h => by
    obtain ⟨hvalue, hknows⟩ := h.valueOf c
    obtain ⟨hvalues, hknows⟩ := valuesOf rest hknows
    exact ⟨congrArg₂ List.cons hvalue hvalues, hknows⟩

theorem KnowsAlike.appraise (h : KnowsAlike s t) (x : List (List Agent)) :
    (s.appraise x).1 = (t.appraise x).1 ∧ KnowsAlike (s.appraise x).2 (t.appraise x).2 := by
  obtain ⟨hvalues, hknows⟩ := h.valuesOf x
  have hanswer :
      CoalitionOracle.structureValue (s.valuesOf x).2.oracle (s.valuesOf x).1 =
        CoalitionOracle.structureValue (t.valuesOf x).2.oracle (t.valuesOf x).1 := by
    rw [hvalues, hknows.oracle]
  have hvalue := congrArg Prod.fst hanswer
  have horacle := congrArg Prod.snd hanswer
  exact ⟨hvalue, horacle, hknows.values, hknows.tried⟩

theorem KnowsAlike.ledger : ∀ (xs : List (List (List Agent))) {s t : CoalitionSearch ω μ},
    KnowsAlike s t → s.ledger xs = t.ledger xs
  | [], _, _, _ => rfl
  | x :: rest, _, _, h => by
    obtain ⟨hvalue, hknows⟩ := (h.note x).appraise x
    rw [CoalitionSearch.ledger, CoalitionSearch.ledger, h.tried, KnowsAlike.ledger rest h, hvalue,
      KnowsAlike.ledger rest hknows]

theorem ledger_cons_of_tried (hx : s.tried.contains (signature x) = true) :
    s.ledger (x :: xs) = s.ledger xs := by
  rw [ledger, if_pos hx]

theorem ledger_cons_of_not_tried (hx : s.tried.contains (signature x) = false) :
    s.ledger (x :: xs) =
      (x, ((s.note x).appraise x).1) :: ((s.note x).appraise x).2.ledger xs := by
  rw [ledger, if_neg (ne_true_of_eq_false hx)]

/-- A structure is in the ledger, or one with the same pools has been tried or is. -/
theorem exists_mem_ledger : ∀ {xs : List (List (List Agent))} {s : CoalitionSearch ω μ},
    y ∈ xs → s.tried.contains (signature y) = true ∨
      ∃ e ∈ s.ledger xs, signature e.1 = signature y
  | [], _, h => absurd h List.not_mem_nil
  | x :: rest, s, h => by
    cases hx : s.tried.contains (signature x) with
    | true =>
      rw [ledger_cons_of_tried hx]
      rcases List.mem_cons.1 h with rfl | h
      · exact .inl hx
      · exact exists_mem_ledger h
    | false =>
      rw [ledger_cons_of_not_tried hx]
      rcases List.mem_cons.1 h with rfl | h
      · exact .inr ⟨_, List.mem_cons_self, rfl⟩
      · obtain ⟨_, _, _, hlearned⟩ := learns_appraise (s.note x) x
        -- after `x` has been noted, what counts as tried was tried before or has the pools of `x`
        obtain htried | ⟨e, he, hsignature⟩ :=
          exists_mem_ledger (s := ((s.note x).appraise x).2) h
        · rw [hlearned, note, Std.TreeSet.contains_insert, Bool.or_eq_true,
            Std.compare_beq_iff_eq] at htried
          exact htried.symm.imp_right fun hsame => ⟨_, List.mem_cons_self, hsame⟩
        · exact .inr ⟨e, List.mem_cons_of_mem _ he, hsignature⟩

/-- If nothing has been tried before, the ledger has the pools of each structure. -/
theorem exists_mem_ledger_of_tried_eq (hs : s.tried = ∅) (h : y ∈ xs) :
    ∃ e ∈ s.ledger xs, signature e.1 = signature y := by
  refine (exists_mem_ledger h).resolve_left ?_
  rw [hs]
  simp

end Ledger

/-! ### The best of a ledger -/

/-- The better of an entry and the best one before, which stays unless it is less. -/
def better (best : Option Entry) (e : Entry) : Option Entry :=
  if best.all fun b => b.2.lt e.2 then some e else best

/-- The best entry of a ledger. -/
def bestOf (entries : List Entry) : Option Entry := entries.foldl better none

section Best

variable {entries : List Entry} {b : Entry} {x : List (List Agent)} {threshold v : Double}

theorem bestOf_concat (entries : List Entry) (e : Entry) :
    bestOf (entries ++ [e]) = better (bestOf entries) e := by
  rw [bestOf, List.foldl_append]
  rfl

theorem exists_foldl_better : ∀ (entries : List Entry) {b : Entry}, b.2.IsNumber →
    ∃ e ∈ b :: entries, entries.foldl better (some b) = some e ∧ e.2.IsNumber
  | [], b, hb => ⟨b, List.mem_cons_self, rfl, hb⟩
  | c :: rest, b, hb => by
    rw [List.foldl_cons, better, Option.all_some]
    split
    · rename_i hless
      obtain ⟨e, he, hbest⟩ := exists_foldl_better rest (Double.lt_iff_and.1 hless).1.2
      exact ⟨e, List.mem_cons_of_mem b he, hbest⟩
    · obtain ⟨e, he, hbest⟩ := exists_foldl_better rest hb
      refine ⟨e, ?_, hbest⟩
      rw [List.mem_cons] at he ⊢
      exact he.imp_right (List.mem_cons_of_mem c)

/-- What is no number is not less than anything, and nothing takes its place. -/
theorem bestOf_cons_of_not_isNumber (hb : ¬b.2.IsNumber) (entries : List Entry) :
    bestOf (b :: entries) = some b := by
  show entries.foldl better (some b) = some b
  induction entries with
  | nil => rfl
  | cons c rest ih =>
    have hless : ¬b.2.lt c.2 = true := fun h => hb (Double.lt_iff_and.1 h).1.1
    rw [List.foldl_cons, better, Option.all_some, if_neg hless, ih]

example : bestOf [([], .nan), ([[]], 1)] = some ([], .nan) := by decide +kernel

/-- What reaches a threshold is better than all that does not, if the first of that is a number. -/
theorem bestOf_concat_of_le (hfirst : ∀ e ∈ entries.head?, e.2.IsNumber)
    (hbelow : ∀ e ∈ entries, ¬threshold ≤ e.2) (hreach : threshold ≤ v) :
    bestOf (entries ++ [(x, v)]) = some (x, v) := by
  rw [bestOf_concat]
  cases entries with
  | nil => rfl
  | cons b rest =>
    obtain ⟨e, he, hbest, hnumber⟩ := exists_foldl_better rest (hfirst b rfl)
    have hless : e.2 < v := hnumber.lt_of_le (hbelow e he) hreach
    rw [show bestOf (b :: rest) = some e from hbest, better, Option.all_some]
    exact if_pos hless

end Best

/-! ### The structure that ends a search -/

/-- Of the structures gone through since the start, `x` is the first whose value reaches the
threshold: what was valued before does not, and for each structure before, that one was valued or
one with the same pools. -/
structure IsFirst [CoalitionOracle ω] (start : CoalitionSearch ω μ)
    (before : List (List (List Agent))) (x : List (List Agent)) (v : Double) : Prop where
  covered : ∀ y ∈ before, ∃ e ∈ start.ledger before, signature e.1 = signature y
  below : ∀ e ∈ start.ledger before, ¬start.config.threshold ≤ e.2
  valued : start.ledger (before ++ [x]) = start.ledger before ++ [(x, v)]
  reaches : start.config.threshold ≤ v

/-- A search that has gone through `seen` since the start, and goes on. -/
structure Pending [CoalitionOracle ω] (start : CoalitionSearch ω μ)
    (seen : List (List (List Agent))) (s : CoalitionSearch ω μ) : Prop where
  config_eq : s.config = start.config
  best : s.best = bestOf (start.ledger seen)
  below : ∀ e ∈ start.ledger seen, ¬start.config.threshold ≤ e.2
  ledger_append : ∀ rest, start.ledger (seen ++ rest) = start.ledger seen ++ s.ledger rest
  ended : s.ended = none

/-- What has become of a search that has gone through `seen` since the start. -/
inductive Course [CoalitionOracle ω] (start : CoalitionSearch ω μ) :
    List (List (List Agent)) → CoalitionSearch ω μ → Prop
  | pending {seen : List (List (List Agent))} {s : CoalitionSearch ω μ}
    (h : Pending start seen s) : Course start seen s
  | reached {before after : List (List (List Agent))} {x : List (List Agent)} {v : Double}
    {s : CoalitionSearch ω μ} (h : IsFirst start before x v)
    (best : s.best = bestOf (start.ledger before ++ [(x, v)]))
    (ended : s.ended = some .solutionLimitReached) : Course start (before ++ x :: after) s
  | aborted {seen : List (List (List Agent))} {s : CoalitionSearch ω μ} {reason : String}
    (ended : s.ended = some (.aborted reason)) : Course start seen s

section Course

variable [CoalitionOracle ω] {start s t : CoalitionSearch ω μ}
variable {seen : List (List (List Agent))} {x : List (List Agent)} {v : Double}

theorem Pending.of_knowsAlike (h : Pending start seen s) (hknows : KnowsAlike s t)
    (hconfig : t.config = s.config) (hbest : t.best = s.best) (hended : t.ended = s.ended) :
    Pending start seen t where
  config_eq := hconfig.trans h.config_eq
  best := hbest.trans h.best
  below := h.below
  ledger_append rest := hknows.ledger rest ▸ h.ledger_append rest
  ended := hended.trans h.ended

theorem Course.exists_first (h : Course start seen s)
    (hended : s.ended = some .solutionLimitReached) :
    ∃ before x after v, seen = before ++ x :: after ∧ IsFirst start before x v ∧
      s.best = bestOf (start.ledger before ++ [(x, v)]) := by
  cases h with
  | pending h => rw [h.ended] at hended; cases hended
  | reached h best ended => exact ⟨_, _, _, _, rfl, h, best⟩
  | aborted ended => rw [ended] at hended; cases hended

/-- A structure with the pools of one that has been tried leaves the ledger as it is. -/
theorem Pending.skip (h : Pending start seen s)
    (hx : s.tried.contains (signature x) = true) : Pending start (seen ++ [x]) s := by
  have hledger : start.ledger (seen ++ [x]) = start.ledger seen := by
    rw [h.ledger_append, ledger_cons_of_tried hx, ← h.ledger_append, List.append_nil]
  refine ⟨h.config_eq, hledger ▸ h.best, hledger ▸ h.below, fun rest => ?_, h.ended⟩
  rw [hledger, ← List.append_cons, h.ledger_append, ledger_cons_of_tried hx]

variable [SearchMonitor μ]

/-- A structure with its value is compared with the best and with the threshold: the ledger has one
entry more, or the first that reaches the threshold. -/
theorem Pending.weigh (hstart : start.tried = ∅) (h : Pending start seen s)
    (hledger : ∀ rest, start.ledger (seen ++ x :: rest) =
      start.ledger seen ++ (x, v) :: t.ledger rest)
    (hconfig : t.config = s.config) (hbest : t.best = s.best) (hended : t.ended = s.ended) :
    Course start (seen ++ [x]) ((t.keepBest x v).checkThreshold v) := by
  have hone : start.ledger (seen ++ [x]) = start.ledger seen ++ [(x, v)] := hledger []
  have hkept : (t.keepBest x v).best = bestOf (start.ledger seen ++ [(x, v)]) := by
    rw [keepBest_eq, bestOf_concat, ← h.best, ← hbest]
    rfl
  have hconfig : (t.keepBest x v).config = start.config := by
    rw [keepBest_eq, ← h.config_eq, ← hconfig]
  rw [checkThreshold, hconfig]
  split
  · rename_i hreach
    exact .reached ⟨fun y hy => exists_mem_ledger_of_tried_eq hstart hy, h.below, hone, hreach⟩
      hkept rfl
  · rename_i hreach
    refine .pending ⟨hconfig, hone ▸ hkept, ?_, fun rest => ?_, ?_⟩
    · rw [hone, List.forall_mem_append, List.forall_mem_singleton]
      exact ⟨h.below, hreach⟩
    · -- the better one has no bearing on what later structures are worth
      have hknows : KnowsAlike t (t.keepBest x v) := by
        rw [keepBest_eq]
        exact ⟨rfl, rfl, rfl⟩
      rw [← List.append_cons, hledger, hone, ← hknows.ledger, ← List.append_cons]
    · rw [keepBest_eq, ← h.ended, ← hended]

theorem Pending.consider (hstart : start.tried = ∅) (h : Pending start seen s)
    (x : List (List Agent)) : Course start (seen ++ [x]) (s.consider x) := by
  rw [CoalitionSearch.consider]
  split
  · rename_i htried
    exact .pending ((h.skip htried).of_knowsAlike ⟨rfl, rfl, rfl⟩ rfl rfl rfl)
  · rename_i htried
    have htried : s.tried.contains (signature x) = false := Bool.eq_false_of_not_eq_true htried
    rw [evaluate_eq]
    obtain ⟨hvalue, hknows⟩ := KnowsAlike.appraise (s := s.note x)
      (t := { (s.count .countCandidate).note x with evaluated := s.evaluated + 1 })
      ⟨rfl, rfl, rfl⟩ x
    obtain ⟨_, _, _, hlearned⟩ := learns_appraise
      { (s.count .countCandidate).note x with evaluated := s.evaluated + 1 } x
    refine h.weigh hstart (fun rest => ?_) ?_ ?_ ?_
    · rw [h.ledger_append, ledger_cons_of_not_tried htried, hvalue, hknows.ledger]
      rfl
    all_goals
      exact hlearned ▸ rfl

theorem Course.pass (hstart : start.tried = ∅) (h : Course start seen s)
    (x : List (List Agent)) : Course start (seen ++ [x]) (s.pass x) := by
  cases h with
  | pending h =>
    rw [CoalitionSearch.pass, isEnded, h.ended, if_neg (by simp), takeUp]
    split
    · exact .aborted rfl
    · split
      · exact .aborted rfl
      · have hstep : Pending start seen (s.tell .step) :=
          h.of_knowsAlike ⟨rfl, rfl, rfl⟩ rfl rfl rfl
        exact hstep.consider hstart x
  | reached h best ended =>
    rw [CoalitionSearch.pass, isEnded, ended, if_pos (by simp), List.append_assoc, List.cons_append]
    exact .reached h best ended
  | aborted ended =>
    rw [CoalitionSearch.pass, isEnded, ended, if_pos (by simp)]
    exact .aborted ended

theorem Course.tell (h : Course start seen s) (event : SearchEvent) :
    Course start seen (s.tell event) := by
  cases h with
  | pending h => exact .pending (h.of_knowsAlike ⟨rfl, rfl, rfl⟩ rfl rfl rfl)
  | reached h best ended => exact .reached h best ended
  | aborted ended => exact .aborted ended

end Course

/-! ### What is reported -/

section Reported

variable [CoalitionOracle ω] {start s : CoalitionSearch ω μ}
variable {before : List (List (List Agent))} {x : List (List Agent)} {v : Double}

/-- The first structure that reaches the threshold is reported if its value is positive and the
first value of all is a number. -/
theorem IsFirst.reported (h : IsFirst start before x v)
    (hbest : s.best = bestOf (start.ledger before ++ [(x, v)])) (hpos : 0 < v)
    (hnumber : ∀ e ∈ (start.ledger before).head?, e.2.IsNumber) :
    s.outcome.coalitions = x ∧ s.outcome.value = v := by
  rw [bestOf_concat_of_le hnumber h.below h.reaches] at hbest
  obtain ⟨-, -, hdropped⟩ | ⟨y, w, hkept, -, hcoalitions, hvalue⟩ := s.outcome_cases
  · exact absurd hpos (hdropped (x, v) hbest)
  · rw [hbest] at hkept
    cases hkept
    exact ⟨hcoalitions, hvalue⟩

/-- Otherwise nothing is reported. -/
theorem IsFirst.not_reported (h : IsFirst start before x v)
    (hbest : s.best = bestOf (start.ledger before ++ [(x, v)]))
    (hnot : ¬(0 < v ∧ ∀ e ∈ (start.ledger before).head?, e.2.IsNumber)) :
    s.outcome.coalitions = [] ∧ s.outcome.value = 0 := by
  obtain ⟨hcoalitions, hvalue, -⟩ | ⟨y, w, hkept, hpos, -⟩ := s.outcome_cases
  · exact ⟨hcoalitions, hvalue⟩
  · refine absurd ?_ hnot
    by_cases hnumber : ∀ e ∈ (start.ledger before).head?, e.2.IsNumber
    · rw [bestOf_concat_of_le hnumber h.below h.reaches, hkept] at hbest
      cases hbest
      exact ⟨hpos, hnumber⟩
    · -- the first value stays the best, and it is no positive number
      cases hentries : start.ledger before with
      | nil => simp [hentries] at hnumber
      | cons b rest =>
        have hb : ¬b.2.IsNumber := by simpa [hentries] using hnumber
        rw [hentries, List.cons_append, bestOf_cons_of_not_isNumber hb, hkept] at hbest
        cases hbest
        exact absurd (Double.lt_iff_and.1 hpos).1.2 hb

end Reported

theorem ended_of_reason {s : CoalitionSearch ω μ}
    (h : s.outcome.reason = .solutionLimitReached) : s.ended = some .solutionLimitReached := by
  rw [outcome_reason] at h
  rcases hended : s.ended with _ | reason
  · rw [hended] at h
    cases h
  · rw [hended] at h
    exact congrArg some h

/-- Whatever the threshold, the oracle and the monitor: if a search ends for having reached the
threshold, then it was ended by the first of the structures, in the order in which they are gone
through, whose value reaches it, which is a split of the agents into at least one coalition. That
structure is reported with its value, if the value is positive and the first value that the search
has seen is a number; otherwise nothing is. -/
theorem exists_first_of_reached [CoalitionOracle ω] [SearchMonitor μ]
    (solver : CoalitionSolver) (agents : List Agent) (oracle : ω) (monitor : μ)
    (h : (solver.solveWith agents oracle monitor).outcome.reason = .solutionLimitReached) :
    ∃ before x after v, structures agents = before ++ x :: after ∧
      IsSplit agents x ∧ x ≠ [] ∧ IsFirst (solver.begin agents oracle monitor) before x v ∧
      (0 < v ∧ (∀ e ∈ ((solver.begin agents oracle monitor).ledger before).head?,
          e.2.IsNumber) →
        (solver.solveWith agents oracle monitor).outcome.coalitions = x ∧
          (solver.solveWith agents oracle monitor).outcome.value = v) ∧
      (¬(0 < v ∧ ∀ e ∈ ((solver.begin agents oracle monitor).ledger before).head?,
          e.2.IsNumber) →
        (solver.solveWith agents oracle monitor).outcome.coalitions = [] ∧
          (solver.solveWith agents oracle monitor).outcome.value = 0) := by
  have hstart : Pending (solver.begin agents oracle monitor) []
      (solver.begin agents oracle monitor) :=
    ⟨rfl, rfl, by simp [ledger], fun _ => rfl, rfl⟩
  have hcourse := run_induction (P := Course (solver.begin agents oracle monitor))
    (.pending hstart) (fun _ _ event h => h.tell event) (fun _ _ x h => h.pass rfl x)
  obtain ⟨before, x, after, v, hseen, hfirst, hbest⟩ := hcourse.exists_first (ended_of_reason h)
  have hx : x ∈ structures agents := by
    show x ∈ structures (solver.begin agents oracle monitor).agents
    simp [hseen]
  exact ⟨before, x, after, v, hseen, isSplit_of_mem_structures hx, ne_nil_of_mem_structures hx,
    hfirst, fun hkept => hfirst.reported hbest hkept.1 hkept.2, hfirst.not_reported hbest⟩

/-- A solver that is content with half a unit. -/
def modestSolver : CoalitionSolver := { config := { threshold := 1 / 2 } }

/-- A clock that stands still. -/
def stoppedClock : Clock := ⟨fun _ => ⟨0⟩⟩

/-- Two docks, each with a rover. -/
def roversAtDocks : List (List Agent) :=
  [[⟨⟨"Dock"⟩, 0⟩, ⟨⟨"Rover"⟩, 0⟩], [⟨⟨"Dock"⟩, 1⟩, ⟨⟨"Rover"⟩, 1⟩]]

theorem exists_first_of_reached_docksAndRovers :
    ∃ found, (modestSolver.solveWith docksAndRovers dockedRovers
        (modestSolver.config.monitor stoppedClock)).outcome = found ∧
      found.reason = .solutionLimitReached ∧ ∃ before after,
        structures docksAndRovers = before ++ found.coalitions :: after ∧
        IsFirst (modestSolver.begin docksAndRovers dockedRovers
          (modestSolver.config.monitor stoppedClock)) before found.coalitions found.value := by
  have hworth : IsShare dockedRovers.worth :=
    ValueTable.isShare (t := dockedRovers) (by decide +kernel) (by decide +kernel)
  have hthreshold : 0 < modestSolver.config.threshold := by decide +kernel
  have hmonitor : IsPatient (modestSolver.config.monitor stoppedClock) :=
    isPatient_monitor rfl stoppedClock
  have hoptimal := (progress_begin modestSolver rfl hworth
    (ValueTable.isSteady (t := dockedRovers) rfl rfl) hmonitor docksAndRovers).isOptimal hworth
      hthreshold
  have hsplit : IsSplit docksAndRovers roversAtDocks :=
    ⟨by decide, List.isPerm_iff.1 (by decide +kernel)⟩
  have hfirst := exists_first_of_reached modestSolver docksAndRovers dockedRovers
    (modestSolver.config.monitor stoppedClock)
  rw [← CoalitionSolver.outcome_solveWith] at hoptimal
  generalize (modestSolver.solveWith docksAndRovers dockedRovers
    (modestSolver.config.monitor stoppedClock)).outcome = found at hoptimal hfirst ⊢
  obtain ⟨hreason, hfound, -⟩ := hoptimal.reached ⟨_, hsplit, by decide +kernel⟩
  obtain ⟨before, x, after, v, hseen, -, -, hfirst, hreported, hnothing⟩ := hfirst hreason
  have hsome : found.coalitions ≠ [] := by
    intro hnil
    have hperm := (hnil ▸ hfound).perm
    exact absurd hperm.nil_eq.symm (by decide +kernel)
  obtain ⟨rfl, rfl⟩ : found.coalitions = x ∧ found.value = v :=
    hreported (by_contra fun hnot => hsome (hnothing hnot).1)
  exact ⟨found, rfl, hreason, before, after, hseen, hfirst⟩

/-- A solver that is content with nothing. -/
def contentSolver : CoalitionSolver := { config := { threshold := 0 } }

/-- Two rovers. -/
def twoRovers : List Agent := [⟨⟨"Rover"⟩, 0⟩, ⟨⟨"Rover"⟩, 1⟩]

/-- One unit for a rover on its own, nothing for all else. -/
def loneRovers : ValueTable where
  pools := [(.ofPairs [(⟨"Rover"⟩, 1)], 1)]
  sizes := []
  fallback := 0
  fold := .weakest

/-- Two rovers together are the first structure and worth nothing, which is enough to reach a
threshold of nothing. The search ends for that reason, and reports no structure, though there is
even one that is worth something. -/
theorem coalitions_eq_nil_of_reached_twoRovers :
    ∃ found, (contentSolver.solve stoppedClock twoRovers loneRovers).outcome = found ∧
      structures twoRovers = [[twoRovers], twoRovers.map ([·])] ∧
      contentSolver.config.threshold ≤ weakest loneRovers.worth [twoRovers] ∧
      0 < weakest loneRovers.worth (twoRovers.map ([·])) ∧
      found.reason = .solutionLimitReached ∧ found.coalitions = [] ∧
      ¬IsSplit twoRovers found.coalitions := by
  have hstructures : structures twoRovers = [[twoRovers], twoRovers.map ([·])] := by
    decide +kernel
  have hreach : contentSolver.config.threshold ≤
      weakest loneRovers.worth [twoRovers] := by
    decide +kernel
  have hworth : IsShare loneRovers.worth :=
    ValueTable.isShare (t := loneRovers) (by decide +kernel) (by decide +kernel)
  have hmonitor : IsPatient (contentSolver.config.monitor stoppedClock) :=
    isPatient_monitor rfl stoppedClock
  have hprogress := progress_begin contentSolver rfl hworth
    (ValueTable.isSteady (t := loneRovers) rfl rfl) hmonitor twoRovers
  rw [hstructures] at hprogress
  refine ⟨_, rfl, hstructures, hreach, by decide +kernel, ?_⟩
  rw [CoalitionSolver.solve, CoalitionSolver.outcome_solveWith]
  generalize (contentSolver.begin twoRovers loneRovers
    (contentSolver.config.monitor stoppedClock)).run = s at hprogress ⊢
  obtain h | ⟨_ | ⟨y, before⟩, x, after, hseen, h⟩ := hprogress
  · exact absurd hreach (h.below _ List.mem_cons_self)
  · obtain ⟨rfl, -⟩ := List.cons.inj hseen
    have hnothing : s.outcome.coalitions = [] := by
      obtain ⟨hcoalitions, -⟩ | ⟨y, v, hbest, hpos, -⟩ := s.outcome_cases
      · exact hcoalitions
      · rw [h.best] at hbest
        cases hbest
        exact absurd hpos (by decide +kernel)
    rw [outcome_reason, h.ended, hnothing]
    exact ⟨rfl, rfl, fun hsplit => absurd hsplit.perm.nil_eq (by decide)⟩
  · obtain ⟨rfl, -⟩ := List.cons.inj hseen
    exact absurd hreach (h.below _ List.mem_cons_self)

end CoalitionSearch
end Muster
