import Muster.Proofs.Wiring.Levels
import Muster.Proofs.Wiring.Propagation
import Muster.Wiring.Search

/-!
The search for connected wirings is right. Every state of a search is a list of levels
(`IsState`), a step keeps that and lowers the weight of the levels, and the fuel of the loop is more
than the weight at the start. So a graph that is found is the graph of a connected wiring, and a
search that ends without one has no wiring to find.

Main statements: `IsState.step`, `isEnd_loop`, `isEnd_run`.
-/

namespace Muster

namespace WiringSearch

open SearchLevel

variable {μ : Type} {p : WiringProblem} {limit : Nat} {s s' : WiringSearch μ} {l m : SearchLevel}
  {ls : List SearchLevel}

/-- The graph of a sound wiring that links all instances. -/
def IsSolution (p : WiringProblem) (g : ConnectionGraph) : Prop :=
  ∃ w : PartialWiring, w.IsSound p ∧ w.isConnected ∧ g = .ofWiring p w

/-- A graph that was kept is a solution, and one is kept as soon as one is counted. -/
structure KeepsFirst (p : WiringProblem) (s : WiringSearch μ) : Prop where
  isSolution : ∀ g, s.first = some g → IsSolution p g
  isSome : 0 < s.solutions → s.first.isSome

/-- A search that is at level `l` above the levels `ls`. -/
structure IsAt (p : WiringProblem) (limit : Nat) (s : WiringSearch μ) (l : SearchLevel)
    (ls : List SearchLevel) : Prop extends KeepsFirst p s where
  problem_eq : s.problem = p
  limit_eq : s.limit = limit
  path : IsPath p (l :: ls) s.trail
  stack_eq : s.stack = stackOf (l :: ls)
  wiring_eq : s.wiring = l.wiring
  isReady : ∀ m ∈ l :: ls, m.IsReady p

/-- A search that has found a connected wiring or has not lost any. -/
structure IsState (p : WiringProblem) (limit : Nat) (s : WiringSearch μ) (l : SearchLevel)
    (ls : List SearchLevel) : Prop extends IsAt p limit s l ls where
  pursued : p.IsUniform → s.first.isSome ∨ Pursued p False (l :: ls)

/-- What is known when a search ends: if everything was searched without a solution then there is
none, and a search that ends at its limit has reached it. -/
structure IsEnd (p : WiringProblem) (limit : Nat) (reason : TerminationReason)
    (s : WiringSearch μ) : Prop extends KeepsFirst p s where
  exhausted : reason = .searchSpaceExhausted → p.IsUniform →
    s.first.isSome ∨ ¬ (PartialWiring.ofProblem p).IsCompletable p
  reached : reason = .solutionLimitReached → limit ≤ s.solutions

theorem KeepsFirst.congr (h : KeepsFirst p s) (hfirst : s'.first = s.first)
    (hsolutions : s'.solutions = s.solutions) : KeepsFirst p s' := by
  refine ⟨fun g hg => h.isSolution g (hfirst ▸ hg), fun hpos => ?_⟩
  rw [hfirst]
  exact h.isSome (hsolutions ▸ hpos)

/-- Counters, branchers and monitors do not matter for where a search is. -/
theorem IsAt.congr (h : IsAt p limit s l ls) (hkeeps : KeepsFirst p s')
    (hproblem : s'.problem = s.problem) (hlimit : s'.limit = s.limit) (htrail : s'.trail = s.trail)
    (hstack : s'.stack = s.stack) (hwiring : s'.wiring = s.wiring) : IsAt p limit s' l ls where
  toKeepsFirst := hkeeps
  problem_eq := hproblem.trans h.problem_eq
  limit_eq := hlimit.trans h.limit_eq
  path := htrail ▸ h.path
  stack_eq := hstack.trans h.stack_eq
  wiring_eq := hwiring.trans h.wiring_eq
  isReady := h.isReady

theorem IsAt.isSound (h : IsAt p limit s l ls) (hp : p.IsProper) : l.wiring.IsSound p :=
  h.path.isSound hp l List.mem_cons_self

/-- The start of a search of a problem, with nothing on the trail and the stack. -/
structure IsFresh (p : WiringProblem) (s : WiringSearch μ) : Prop where
  problem_eq : s.problem = p
  wiring_eq : s.wiring = .ofProblem p
  trail_eq : s.trail = {}
  stack_eq : s.stack = {}
  first_eq : s.first = none
  solutions_eq : s.solutions = 0

theorem IsFresh.keepsFirst (h : IsFresh p s) : KeepsFirst p s :=
  ⟨fun g hg => by simp [h.first_eq] at hg, fun hpos => by simp [h.solutions_eq] at hpos⟩

variable [WiringObserver μ]

theorem IsAt.tell (h : IsAt p limit s l ls) (event : WiringEvent) :
    IsAt p limit (s.tell event) l ls :=
  h.congr (h.toKeepsFirst.congr rfl rfl) rfl rfl rfl rfl rfl

theorem IsState.tell (h : IsState p limit s l ls) (event : WiringEvent) :
    IsState p limit (s.tell event) l ls := ⟨h.toIsAt.tell event, h.pursued⟩

/-! ### The parts of a step -/

/-- Noting a connected wiring keeps a graph. -/
theorem KeepsFirst.noteSolution (h : KeepsFirst p s) (hproblem : s.problem = p)
    (hw : s.wiring.IsSound p) (hconnected : s.wiring.isConnected) :
    KeepsFirst p s.noteSolution ∧ s.noteSolution.first.isSome := by
  have hfirst : s.noteSolution.first = s.first.or (some (.ofWiring s.problem s.wiring)) := rfl
  have hsome : s.noteSolution.first.isSome := by
    rw [hfirst]
    cases s.first <;> rfl
  refine ⟨⟨fun g hg => ?_, fun _ => hsome⟩, hsome⟩
  rw [hfirst, Option.or_eq_some_iff] at hg
  rcases hg with hg | ⟨-, hg⟩
  · exact h.isSolution g hg
  · refine ⟨s.wiring, hw, hconnected, ?_⟩
    rw [← hproblem, Option.some.inj hg]

/-- Putting the choices of the brancher on a fresh level. -/
theorem IsAt.enqueue {w : PartialWiring} (h : IsAt p limit s ⟨w, none, []⟩ ls) :
    IsAt p limit s.enqueue (ofChoices w (s.brancher.branch p w).1) ls where
  toKeepsFirst := h.toKeepsFirst.congr rfl rfl
  problem_eq := h.problem_eq
  limit_eq := h.limit_eq
  path := h.path.congr rfl
  stack_eq := by
    show (s.stack.offer (s.brancher.branch s.problem s.wiring).1).2 = _
    rw [h.stack_eq, h.problem_eq, h.wiring_eq, offer_stackOf]
  wiring_eq := h.wiring_eq
  isReady m hm := by
    rcases List.mem_cons.1 hm with rfl | hm
    · exact isReady_ofChoices p w s.brancher
    · exact h.isReady m (List.mem_cons_of_mem _ hm)

/-- Leaving a level leads to the level below it. -/
theorem IsAt.goBack (h : IsAt p limit s l (m :: ls)) (hp : p.IsProper) :
    IsAt p limit s.goBack m ls := by
  obtain ⟨hpath, hwiring⟩ := h.path.backtrack hp
  rw [← h.wiring_eq] at hpath hwiring
  refine ⟨h.toKeepsFirst.congr rfl rfl, h.problem_eq, h.limit_eq, hpath, ?_, hwiring,
    fun m hm => h.isReady m (List.mem_cons_of_mem _ hm)⟩
  show s.stack.popLevel.2 = _
  rw [h.stack_eq, popLevel_stackOf]

/-- A level without anything to try is left. -/
theorem IsState.goBack (h : IsState p limit s l (m :: ls)) (hp : p.IsProper)
    (htodo : l.todo = []) : IsState p limit s.goBack m ls :=
  ⟨h.toIsAt.goBack hp, fun hu => (h.pursued hu).imp_right fun hpursued => hpursued.pop htodo⟩

/-- The search on the new level of a choice, before the wiring there is looked at. -/
def enter (s : WiringSearch μ) (c : Choice) : WiringSearch μ :=
  let (trail, wiring) := s.trail.pushFrame.apply s.problem s.wiring c
  let s := { s with trail, wiring, stack := s.stack.pushLevel }
  (s.count fun n => n.countNode.noteDepth s.stack.depth).tell (.descend s.wiring c)

omit [WiringObserver μ] in
/-- The search with the marks that looking at its wiring leaves. -/
def inspected (s : WiringSearch μ) : WiringSearch μ := { s with
  marks := if s.wiring.componentCount ≤ 1 then s.marks else s.wiring.exitMarks s.problem }

omit [WiringObserver μ] in
theorem inspect_eq (s : WiringSearch μ) :
    s.inspect = (s.wiring.pruneReason s.problem, s.inspected) := by
  rw [inspect, PartialWiring.propagate_eq]
  rfl

omit [WiringObserver μ] in
theorem IsAt.inspected (h : IsAt p limit s l ls) : IsAt p limit s.inspected l ls :=
  h.congr (h.toKeepsFirst.congr rfl rfl) rfl rfl rfl rfl rfl

theorem descend_eq (s : WiringSearch μ) (c : Choice) : s.descend c =
    if (s.enter c).wiring.isConnected then (s.enter c).noteSolution
    else
      match (s.enter c).wiring.pruneReason (s.enter c).problem with
      | some reason => ((s.enter c).inspected.notePruned reason).goBack
      | none => (s.enter c).inspected.enqueue := by
  rw [descend, enter]
  cases s.trail.pushFrame.apply s.problem s.wiring c with
  | mk trail wiring =>
    dsimp only
    rw [inspect_eq]
    generalize PartialWiring.pruneReason _ _ = reason
    cases reason <;> rfl

theorem IsAt.enter (h : IsAt p limit s l ls) {c : Choice} (hc : l.wiring.Allows p c) :
    IsAt p limit (s.enter c) ⟨l.wiring.after p c, none, []⟩ (l :: ls) where
  toKeepsFirst := h.toKeepsFirst.congr rfl rfl
  problem_eq := h.problem_eq
  limit_eq := h.limit_eq
  path := by
    show IsPath p _ (s.trail.pushFrame.apply s.problem s.wiring c).1
    rw [h.problem_eq, h.wiring_eq]
    exact .child h.path hc rfl
  stack_eq := congrArg ChoiceStack.pushLevel h.stack_eq
  wiring_eq := by
    show (s.trail.pushFrame.apply s.problem s.wiring c).2 = _
    rw [PartialWiring.apply_eq, h.problem_eq, h.wiring_eq]
  isReady m hm := by
    rcases List.mem_cons.1 hm with rfl | hm
    · intro d hd
      simp at hd
    · exact h.isReady m hm

/-- Making a choice leads to a level with an endpoint decided more, or nowhere. -/
theorem IsAt.descend (h : IsAt p limit s l ls) (hp : p.IsProper) {c : Choice}
    (hc : l.wiring.Allows p c) (hpursued : p.IsUniform →
      s.first.isSome ∨ Pursued p ((l.wiring.after p c).IsCompletable p) (l :: ls)) :
    IsState p limit (s.descend c) l ls ∨
    ∃ l', l'.wiring = l.wiring.after p c ∧ l'.todo.length ≤ p.endpointCount ∧
      IsState p limit (s.descend c) l' (l :: ls) := by
  have henter := h.enter hc
  have hsound := henter.isSound hp
  rw [descend_eq, henter.wiring_eq, henter.problem_eq]
  by_cases hconnected : (l.wiring.after p c).isConnected
  · rw [if_pos hconnected]
    obtain ⟨hkeeps, hsome⟩ := henter.toKeepsFirst.noteSolution henter.problem_eq
      (henter.wiring_eq ▸ hsound) (henter.wiring_eq ▸ hconnected)
    exact .inr ⟨_, rfl, Nat.zero_le _, henter.congr hkeeps rfl rfl rfl rfl rfl, fun _ => .inl hsome⟩
  · rw [if_neg hconnected]
    have hcomponents : 1 < (l.wiring.after p c).componentCount := by
      simpa [PartialWiring.isConnected] using hconnected
    cases hreason : (l.wiring.after p c).pruneReason p with
    | some reason =>
      have hnot : ¬ (l.wiring.after p c).IsCompletable p := by
        rintro ⟨rest, hrest⟩
        rw [PartialWiring.pruneReason_eq_none hp hrest hsound hcomponents] at hreason
        simp at hreason
      have hstate : IsState p limit ((s.enter c).inspected.notePruned reason)
          ⟨l.wiring.after p c, none, []⟩ (l :: ls) := by
        refine ⟨henter.congr (henter.toKeepsFirst.congr rfl rfl) rfl rfl rfl rfl rfl, fun hu => ?_⟩
        exact (hpursued hu).imp_right fun hpursued => ⟨fun h => absurd h hnot, hpursued⟩
      exact .inl (hstate.goBack hp rfl)
    | none =>
      refine .inr ⟨_, rfl, ?_, henter.inspected.enqueue, fun hu => (hpursued hu).imp_right fun hpursued =>
        ⟨fun hcompletable => .inl ?_, hpursued⟩⟩
      · rw [ofChoices, List.length_reverse]
        exact length_branch_le hp _ _
      · exact hasCompletable_ofChoices hp hu hsound hcomponents hcompletable _

omit [WiringObserver μ] in
/-- The next choice of a level is one that the search may make. -/
theorem IsAt.next (h : IsAt p limit s l ls) {c : Choice} {cs : List Choice}
    (htodo : l.todo = c :: cs) :
    s.stack.next = (some c, stackOf ({ l with todo := cs } :: ls)) ∧ l.wiring.Allows p c := by
  have hc := h.isReady l List.mem_cons_self c (htodo ▸ List.mem_cons_self)
  refine ⟨?_, hc.2⟩
  rw [h.stack_eq, next_stackOf l ls htodo hc.1]

omit [WiringObserver μ] in
/-- A choice is taken off its level before it is made. -/
theorem IsAt.taken (h : IsAt p limit s l ls) {c : Choice} {cs : List Choice}
    (htodo : l.todo = c :: cs) : IsAt p limit
      (({ s with stack := s.stack.next.2 } : WiringSearch μ).count .countDecision)
      { l with todo := cs } ls := by
  refine ⟨h.toKeepsFirst.congr rfl rfl, h.problem_eq, h.limit_eq, h.path.congr rfl,
    congrArg Prod.snd (h.next htodo).1, h.wiring_eq, fun m hm => ?_⟩
  rcases List.mem_cons.1 hm with rfl | hm
  · exact fun d hd => h.isReady l List.mem_cons_self d (htodo ▸ List.mem_cons_of_mem _ hd)
  · exact h.isReady m (List.mem_cons_of_mem _ hm)

theorem IsAt.tryNext_eq (h : IsAt p limit s l ls) {c : Choice} {cs : List Choice}
    (htodo : l.todo = c :: cs) : s.tryNext =
      (({ s with stack := s.stack.next.2 } : WiringSearch μ).count .countDecision).descend c := by
  rw [WiringSearch.tryNext, (h.next htodo).1]

/-- Trying the next choice of a level lowers the weight. -/
theorem IsState.tryNext (h : IsState p limit s l ls) (hp : p.IsProper) (htodo : l.todo ≠ []) :
    ∃ l' ls', IsState p limit s.tryNext l' ls' ∧ weight p (l' :: ls') < weight p (l :: ls) := by
  obtain ⟨c, cs, htodo⟩ := List.exists_cons_of_ne_nil htodo
  rw [h.tryNext_eq htodo]
  rcases (h.taken htodo).descend hp (h.next htodo).2 fun hu =>
      (h.pursued hu).imp_right fun hp => hp.take htodo with
    hstate | ⟨l', hwiring, hlength, hstate⟩
  · exact ⟨_, _, hstate, weight_take htodo⟩
  · refine ⟨_, _, hstate, weight_push htodo hlength ?_⟩
    rw [hwiring]
    exact openCount_after_lt (h.isSound hp) hp (h.next htodo).2

/-! ### Steps -/

/-- The search when the monitor has let a step go on. -/
def awaken (s : WiringSearch μ) (monitor : μ) : WiringSearch μ :=
  { s.tell (.step s.wiring) with monitor }

theorem step_eq (s : WiringSearch μ) : s.step =
    match WiringObserver.command (s.tell (.step s.wiring)).monitor s.wiring s.statistics with
    | (.terminate reason, monitor) => .ended (.aborted reason) (s.awaken monitor)
    | (.proceed, monitor) =>
      if s.stack.isExhausted then
        if s.stack.depth ≤ 1 then .ended .searchSpaceExhausted (s.awaken monitor)
        else .running (s.awaken monitor).goBack
      else if (s.awaken monitor).tryNext.limit ≤ (s.awaken monitor).tryNext.solutions then
        .ended .solutionLimitReached (s.awaken monitor).tryNext
      else .running (s.awaken monitor).tryNext := rfl

theorem IsState.awaken (h : IsState p limit s l ls) (monitor : μ) :
    IsState p limit (s.awaken monitor) l ls :=
  ⟨h.toIsAt.congr (h.toKeepsFirst.congr rfl rfl) rfl rfl rfl rfl rfl, h.pursued⟩

/-- A step leads to a state with less weight, or ends the search. -/
theorem IsState.step (h : IsState p limit s l ls) (hp : p.IsProper) :
    (∃ s' l' ls', s.step = .running s' ∧ IsState p limit s' l' ls' ∧
      weight p (l' :: ls') < weight p (l :: ls)) ∨
    ∃ reason s', s.step = .ended reason s' ∧ IsEnd p limit reason s' := by
  rw [step_eq]
  rcases WiringObserver.command (s.tell (.step s.wiring)).monitor s.wiring s.statistics with
    ⟨_ | reason, monitor⟩
  · have hawake := h.awaken monitor
    simp only [h.stack_eq, isExhausted_stackOf, depth_stackOf]
    by_cases htodo : l.todo = []
    · rw [if_pos (List.isEmpty_iff.2 htodo)]
      cases ls with
      | nil =>
        refine .inr ⟨_, _, if_pos (Nat.le_refl 1), hawake.toKeepsFirst, fun _ hu => ?_, by simp⟩
        refine (hawake.pursued hu).imp_right fun hpursued hcompletable => ?_
        have hcompletable : l.wiring.IsCompletable p := by rwa [h.path.wiring_eq]
        obtain ⟨c, hc, -⟩ := (hpursued.1 hcompletable).resolve_right id
        simp [htodo] at hc
      | cons m ls =>
        refine .inl ⟨_, m, ls, if_neg ?_, hawake.goBack hp htodo, ?_⟩
        · rw [List.length_cons, List.length_cons]
          omega
        · simp [weight, SearchLevel.weight]
    · obtain ⟨l', ls', hstate, hweight⟩ := hawake.tryNext hp htodo
      rw [if_neg (mt List.isEmpty_iff.1 htodo)]
      by_cases hlimit : (s.awaken monitor).tryNext.limit ≤ (s.awaken monitor).tryNext.solutions
      · rw [if_pos hlimit]
        exact .inr ⟨_, _, rfl, hstate.toKeepsFirst, by simp, fun _ => hstate.limit_eq ▸ hlimit⟩
      · rw [if_neg hlimit]
        exact .inl ⟨_, l', ls', rfl, hstate, hweight⟩
  · exact .inr ⟨_, _, rfl, (h.awaken monitor).toKeepsFirst, by simp, by simp⟩

/-- The loop ends by itself as long as its fuel exceeds the weight of the levels. -/
theorem isEnd_loop (hp : p.IsProper) : ∀ (fuel : Nat) {s : WiringSearch μ} {l : SearchLevel}
    {ls : List SearchLevel}, IsState p limit s l ls → weight p (l :: ls) < fuel →
    IsEnd p limit (loop fuel s).1 (loop fuel s).2
  | 0, _, _, _, _, hfuel => absurd hfuel (Nat.not_lt_zero _)
  | fuel + 1, s, l, ls, h, hfuel => by
    rw [loop]
    rcases h.step hp with ⟨s', l', ls', hstep, hstate, hweight⟩ | ⟨reason, s', hstep, hend⟩
    · rw [hstep]
      exact isEnd_loop hp fuel hstate (by omega)
    · rw [hstep]
      exact hend

/-! ### Runs -/

theorem weight_start_lt (p : WiringProblem) {l : SearchLevel}
    (htodo : l.todo.length ≤ p.endpointCount) : weight p [l] < stepBound p := by
  have hpow : (p.endpointCount + 2) ^ l.wiring.openCount p ≤
      (p.endpointCount + 2) ^ p.endpointCount :=
    Nat.pow_le_pow_right (by omega) (openCount_le l.wiring p)
  have hpos : 0 < (p.endpointCount + 2) ^ p.endpointCount := Nat.pow_pos (by omega)
  have hchoices := Nat.mul_le_mul htodo (Nat.mul_le_mul_left 2 hpow)
  have hbound : stepBound p =
      2 * ((p.endpointCount + 2) ^ p.endpointCount * (p.endpointCount + 2) *
        (p.endpointCount + 2)) := by
    rw [← Nat.pow_succ, ← Nat.pow_succ]
    rfl
  simp only [weight, SearchLevel.weight, List.map_cons, List.map_nil, List.sum_cons, List.sum_nil]
  rw [hbound]
  nlinarith

/-- The search before it looks at the wiring without wires. -/
def entered (s : WiringSearch μ) : WiringSearch μ := (s.tell (.enter s.problem)).count .countNode

/-- The search on its first level, before a brancher is asked. -/
def root (s : WiringSearch μ) : WiringSearch μ :=
  { s.entered.inspected with trail := s.trail.pushFrame, stack := s.stack.pushLevel }

theorem begin_eq (s : WiringSearch μ) : s.begin =
    if s.wiring.isConnected then (false, s.entered.noteSolution)
    else
      match s.wiring.pruneReason s.problem with
      | some reason => (false, s.entered.inspected.notePruned reason)
      | none => (true, s.root.enqueue) := by
  have hreason : s.entered.wiring.pruneReason s.entered.problem =
      s.wiring.pruneReason s.problem := rfl
  rw [begin, inspect_eq, ← entered, hreason]
  cases s.wiring.pruneReason s.problem <;> rfl

theorem IsFresh.root (h : IsFresh p s) :
    IsAt p s.limit s.root ⟨.ofProblem p, none, []⟩ [] where
  toKeepsFirst := h.keepsFirst.congr rfl rfl
  problem_eq := h.problem_eq
  limit_eq := rfl
  path := by
    show IsPath p _ s.trail.pushFrame
    rw [h.trail_eq]
    exact .root rfl
  stack_eq := congrArg ChoiceStack.pushLevel h.stack_eq
  wiring_eq := h.wiring_eq
  isReady m hm := by
    rw [List.mem_singleton.1 hm]
    intro c hc
    simp at hc

/-- Looking at the wiring without wires ends the search or leads to a state. -/
theorem IsFresh.begin (h : IsFresh p s) (hp : p.IsProper) :
    (s.begin.1 = false ∧ IsEnd p s.limit .searchSpaceExhausted s.begin.2) ∨
    (s.begin.1 = true ∧ s.begin.2.problem = p ∧
      ∃ l, l.todo.length ≤ p.endpointCount ∧ IsState p s.limit s.begin.2 l []) := by
  have hsound := PartialWiring.isSound_ofProblem p
  rw [begin_eq, h.wiring_eq, h.problem_eq]
  by_cases hconnected : (PartialWiring.ofProblem p).isConnected
  · rw [if_pos hconnected]
    have hkeeps : KeepsFirst p s.entered := h.keepsFirst.congr rfl rfl
    obtain ⟨hkeeps, hsome⟩ := hkeeps.noteSolution h.problem_eq
      (by rw [← h.wiring_eq] at hsound; exact hsound)
      (by rw [← h.wiring_eq] at hconnected; exact hconnected)
    exact .inl ⟨rfl, hkeeps, fun _ _ => .inl hsome, nofun⟩
  · rw [if_neg hconnected]
    have hcomponents : 1 < (PartialWiring.ofProblem p).componentCount := by
      simpa [PartialWiring.isConnected] using hconnected
    cases hreason : (PartialWiring.ofProblem p).pruneReason p with
    | some reason =>
      refine .inl ⟨rfl, h.keepsFirst.congr rfl rfl, fun _ _ => .inr ?_, nofun⟩
      rintro ⟨rest, hrest⟩
      rw [PartialWiring.pruneReason_eq_none hp hrest hsound hcomponents] at hreason
      simp at hreason
    | none =>
      refine .inr ⟨rfl, h.problem_eq, _, ?_, h.root.enqueue, fun hu => .inr ⟨fun hcompletable =>
        .inl (hasCompletable_ofChoices hp hu hsound hcomponents hcompletable _), trivial⟩⟩
      rw [ofChoices, List.length_reverse]
      exact length_branch_le hp _ _

theorem run_eq (s : WiringSearch μ) : s.run =
    let ended := if s.begin.1 then loop (stepBound s.begin.2.problem) s.begin.2
      else (.searchSpaceExhausted, s.begin.2)
    ((ended.2.tell .exit).outcome ended.1, ended.2.tell .exit) := rfl

/-- Every run is the outcome of a search that ended for a reason. -/
theorem isEnd_run (h : IsFresh p s) (hp : p.IsProper) :
    ∃ reason, s.run.1 = s.run.2.outcome reason ∧ IsEnd p s.limit reason s.run.2 := by
  have hended : IsEnd p s.limit
      (if s.begin.1 then loop (stepBound s.begin.2.problem) s.begin.2
        else (.searchSpaceExhausted, s.begin.2)).1
      (if s.begin.1 then loop (stepBound s.begin.2.problem) s.begin.2
        else (.searchSpaceExhausted, s.begin.2)).2 := by
    rcases h.begin hp with ⟨hbegin, hend⟩ | ⟨hbegin, hproblem, l, htodo, hstate⟩
    · rwa [if_neg (Bool.eq_false_iff.1 hbegin)]
    · rw [if_pos hbegin, hproblem]
      exact isEnd_loop hp (stepBound p) hstate (weight_start_lt p htodo)
  rw [run_eq]
  exact ⟨_, rfl, hended.toKeepsFirst.congr rfl rfl, hended.exhausted, hended.reached⟩

/-! ### Monitors that never stop a search -/

/-- A property of monitors that none of them loses and none of which stops a search. -/
structure IsPatient (P : μ → Prop) : Prop where
  observe : ∀ m event n, P m → P (WiringObserver.observe m event n)
  command : ∀ m w n, P m → ∃ m', WiringObserver.command m w n = (.proceed, m') ∧ P m'

section Patient

variable {P : μ → Prop} (hP : IsPatient P)
include hP

theorem IsPatient.goBack (h : P s.monitor) : P s.goBack.monitor := hP.observe _ _ _ h

theorem IsPatient.descend (h : P s.monitor) (c : Choice) : P (s.descend c).monitor := by
  have henter : P (s.enter c).monitor := hP.observe _ _ _ h
  rw [descend_eq]
  split
  · exact hP.observe _ _ _ henter
  · split
    · exact hP.goBack (hP.observe _ _ _ henter)
    · exact hP.observe _ _ _ henter

theorem IsPatient.tryNext (h : P s.monitor) : P s.tryNext.monitor := by
  rcases hnext : s.stack.next with ⟨_ | c, stack⟩
  · rwa [WiringSearch.tryNext, hnext]
  · rw [WiringSearch.tryNext, hnext]
    exact hP.descend (s := ({ s with stack } : WiringSearch μ).count .countDecision) h c

theorem IsPatient.step (h : P s.monitor) :
    (∃ s', s.step = .running s' ∧ P s'.monitor) ∨
    ∃ reason s', s.step = .ended reason s' ∧ reason.isAborted = false := by
  obtain ⟨monitor, hcommand, hmonitor⟩ := hP.command _ s.wiring s.statistics
    (hP.observe s.monitor (.step s.wiring) s.statistics h)
  have hawake : P (s.awaken monitor).monitor := hmonitor
  rw [step_eq]
  simp only [show WiringObserver.command (s.tell (.step s.wiring)).monitor s.wiring s.statistics =
    (.proceed, monitor) from hcommand]
  split
  · split
    · exact .inr ⟨_, _, rfl, rfl⟩
    · exact .inl ⟨_, rfl, hP.goBack hawake⟩
  · split
    · exact .inr ⟨_, _, rfl, rfl⟩
    · exact .inl ⟨_, rfl, hP.tryNext hawake⟩

theorem isAborted_loop : ∀ (fuel : Nat) {s : WiringSearch μ}, P s.monitor →
    (loop fuel s).1.isAborted = false
  | 0, _, _ => rfl
  | fuel + 1, s, h => by
    rw [WiringSearch.loop]
    rcases hP.step h with ⟨s', hstep, hs'⟩ | ⟨reason, s', hstep, hreason⟩
    · rw [hstep]
      exact isAborted_loop fuel hs'
    · rw [hstep]
      exact hreason

theorem IsPatient.begin (h : P s.monitor) : P s.begin.2.monitor := by
  have henter : P s.entered.monitor := hP.observe _ _ _ h
  rw [begin_eq]
  split
  · exact hP.observe _ _ _ henter
  · split
    · exact hP.observe _ _ _ henter
    · exact hP.observe _ _ _ henter

theorem IsPatient.run (h : P s.monitor) : s.run.1.result ≠ .unknown := by
  have hknown : ∀ (reason : TerminationReason) (s : WiringSearch μ), reason.isAborted = false →
      (s.outcome reason).result ≠ .unknown := by
    intro reason s hreason
    cases reason <;> cases hfirst : s.first <;>
      simp_all [outcome, WiringOutcome.feasible, WiringOutcome.infeasible,
        TerminationReason.isAborted]
  rw [run_eq]
  refine hknown _ _ ?_
  split
  · exact isAborted_loop hP _ (hP.begin h)
  · rfl

end Patient

end WiringSearch

/-! ### Solvers -/

namespace WiringSolver

open WiringSearch

/-- Solvers as searches leave them. -/
inductive IsReachable : WiringSolver → Prop
  | new : IsReachable {}
  | withLimit {s : WiringSolver} : IsReachable s → (limit : Nat) → IsReachable (s.withLimit limit)
  | solve {μ : Type} [WiringObserver μ] {s : WiringSolver} : IsReachable s →
    (p : WiringProblem) → (b : Brancher) → (monitor : μ) → IsReachable (s.solve p b monitor).solver

/-- Between searches a solver has nothing on its trail and its stack, and a positive limit. -/
theorem IsReachable.isClear {s : WiringSolver} (h : s.IsReachable) :
    s.trail = {} ∧ s.stack = {} ∧ 0 < s.limit := by
  induction h with
  | new => exact ⟨rfl, rfl, Nat.zero_lt_one⟩
  | @withLimit s h limit ih =>
    refine ⟨ih.1, ih.2.1, ?_⟩
    rw [WiringSolver.withLimit]
    split
    · exact Nat.zero_lt_one
    · exact Nat.pos_of_ne_zero ‹_›
  | solve h p b monitor ih => exact ⟨rfl, rfl, ih.2.2⟩

/-- The search of a problem before its first step. -/
def search {μ : Type} (s : WiringSolver) (p : WiringProblem) (b : Brancher) (monitor : μ) :
    WiringSearch μ where
  problem := p
  limit := s.limit
  wiring := .ofProblem p
  trail := s.trail
  stack := s.stack
  marks := s.marks
  brancher := b
  monitor := monitor

theorem IsReachable.isFresh {μ : Type} {s : WiringSolver} (hs : s.IsReachable) (p : WiringProblem)
    (b : Brancher) (monitor : μ) : IsFresh p (s.search p b monitor) := by
  obtain ⟨htrail, hstack, -⟩ := hs.isClear
  exact ⟨rfl, rfl, htrail, hstack, rfl, rfl⟩

variable {μ : Type} [WiringObserver μ] {s : WiringSolver} (hs : s.IsReachable) {p : WiringProblem}
  (hp : p.IsProper) (b : Brancher) (monitor : μ)
include hs hp

theorem isEnd_solve : ∃ (reason : TerminationReason) (search : WiringSearch μ),
    (s.solve p b monitor).outcome = search.outcome reason ∧ IsEnd p s.limit reason search := by
  obtain ⟨reason, hrun, hend⟩ := isEnd_run (hs.isFresh p b monitor) hp
  exact ⟨reason, _, hrun, hend⟩

/-- A graph that a solver finds is the graph of a sound wiring that links all instances. -/
theorem isSolution_of_solve {g : ConnectionGraph}
    (h : (s.solve p b monitor).outcome.result = .feasible g) : IsSolution p g := by
  obtain ⟨reason, search, houtcome, hend⟩ := isEnd_solve hs hp b monitor
  refine hend.isSolution g ?_
  rw [houtcome] at h
  cases reason <;> cases hfirst : search.first <;>
    simp_all [outcome, WiringOutcome.feasible, WiringOutcome.infeasible, WiringOutcome.aborted]

/-- A solver that finds no wiring has none to find. -/
theorem not_isConnectedWiring_of_solve (hu : p.IsUniform)
    (h : (s.solve p b monitor).outcome.result = .infeasible) (wires : List (Nat × Nat)) :
    ¬ p.IsConnectedWiring wires := by
  intro hwires
  obtain ⟨reason, search, houtcome, hend⟩ := isEnd_solve hs hp b monitor
  have hlimit := hs.isClear.2.2
  have hnone : search.first = none ∧ reason.isAborted = false := by
    rw [houtcome] at h
    cases reason <;> cases hfirst : search.first <;>
      simp_all [outcome, WiringOutcome.feasible, WiringOutcome.aborted,
        TerminationReason.isAborted]
  have hnotSome : ¬ search.first.isSome := by simp [hnone.1]
  cases reason with
  | searchSpaceExhausted =>
    rcases hend.exhausted rfl hu with hsome | hnot
    · exact hnotSome hsome
    · exact hnot ⟨wires, PartialWiring.completes_ofProblem hwires⟩
  | solutionLimitReached => exact hnotSome (hend.isSome (lt_of_lt_of_le hlimit (hend.reached rfl)))
  | aborted message => simp [TerminationReason.isAborted] at hnone

omit hs hp in
theorem solve_ne_unknown {P : μ → Prop} (hP : IsPatient P) (hmonitor : P monitor) :
    (s.solve p b monitor).outcome.result ≠ .unknown := hP.run hmonitor

end WiringSolver
end Muster
