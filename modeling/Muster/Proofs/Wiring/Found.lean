import Muster.Proofs.Wiring.Moves

/-!
A search does not find one wiring twice. Two wirings conflict if an endpoint is decided in both and
has different partners; choosing more does not change that. Choices that are tried at one partial
wiring lead to wirings that conflict, so all wirings that were found and all that the levels still
lead to (`frontier`) conflict with each other, and a step keeps that: a wiring that is tried is
found, dropped, or replaced by those that it leads to.

Main statements: `conflicts_after_after`, `Moves.isApart`, `HasFound.step`, `run_cases`,
`pairwise_found`.
-/

namespace Muster

/-! ### Conflicts -/

namespace PartialWiring

/-- Some endpoint is decided in both wirings, with different partners. -/
def Conflicts (u w : PartialWiring) : Prop :=
  ∃ e, u.isOpen e = false ∧ w.isOpen e = false ∧ u.partnerOf e ≠ w.partnerOf e

variable {u w : PartialWiring} {p : WiringProblem} {c d : Choice}

theorem Conflicts.symm (h : u.Conflicts w) : w.Conflicts u := by
  obtain ⟨e, hu, hw, hne⟩ := h
  exact ⟨e, hw, hu, hne.symm⟩

theorem IsSound.lt_of_isOpen_eq_false (hw : w.IsSound p) {e : Nat} (he : w.isOpen e = false) :
    e < p.endpointCount := by
  by_contra hle
  rw [← hw.size_decided] at hle
  simp [isOpen, Array.getD, hle] at he

/-- What is decided stays as it is. -/
theorem IsSound.decided_after (hw : w.IsSound p) (hp : p.IsProper) (hc : w.Allows p c) {e : Nat}
    (he : w.isOpen e = false) :
    (w.after p c).isOpen e = false ∧ (w.after p c).partnerOf e = w.partnerOf e := by
  have hne : e ≠ c.endpoint := by
    rintro rfl
    simp [hc.isOpen] at he
  refine ⟨?_, ?_⟩
  · by_contra hopen
    rw [Bool.not_eq_false] at hopen
    simp [(isOpen_after hw hp hc hopen).1] at he
  · obtain ⟨e', _ | f⟩ := c
    · rfl
    · have hf := hc.partner_mem f rfl
      have hnef : e ≠ f := by
        rintro rfl
        simp [(mem_openCandidates.1 hf).2.1] at he
      rw [partnerOf_connect hw hp hc.endpoint_lt hf, if_neg hnef, if_neg hne]

/-- A choice decides its endpoint. -/
theorem IsSound.decided_endpoint (hw : w.IsSound p) (hp : p.IsProper) (hc : w.Allows p c) :
    (w.after p c).isOpen c.endpoint = false ∧
      (w.after p c).partnerOf c.endpoint = c.partner := by
  refine ⟨?_, ?_⟩
  · by_contra hopen
    rw [Bool.not_eq_false] at hopen
    exact (isOpen_after hw hp hc hopen).2 rfl
  · obtain ⟨e, _ | f⟩ := c
    · exact hw.partnerOf_isOpen e hc.isOpen
    · have hf := hc.partner_mem f rfl
      rw [partnerOf_connect hw hp hc.endpoint_lt hf, if_neg (ne_of_mem_openCandidates hf), if_pos rfl]

/-- Choices do not settle a conflict. -/
theorem Conflicts.after (h : u.Conflicts w) (hw : w.IsSound p) (hp : p.IsProper)
    (hc : w.Allows p c) : u.Conflicts (w.after p c) := by
  obtain ⟨e, hue, hwe, hne⟩ := h
  obtain ⟨hopen, hpartner⟩ := hw.decided_after hp hc hwe
  exact ⟨e, hue, hopen, hpartner ▸ hne⟩

/-- Two choices at one endpoint lead to a conflict. -/
theorem conflicts_after_after (hw : w.IsSound p) (hp : p.IsProper) (hc : w.Allows p c)
    (hd : w.Allows p d) (hendpoint : c.endpoint = d.endpoint) (hne : c ≠ d) :
    (w.after p c).Conflicts (w.after p d) := by
  obtain ⟨hcopen, hcpartner⟩ := hw.decided_endpoint hp hc
  obtain ⟨hdopen, hdpartner⟩ := hw.decided_endpoint hp hd
  refine ⟨c.endpoint, hcopen, hendpoint ▸ hdopen, ?_⟩
  rw [hcpartner, hendpoint, hdpartner]
  intro hpartner
  obtain ⟨e, f⟩ := c
  obtain ⟨e', f'⟩ := d
  cases hendpoint
  cases hpartner
  exact hne rfl

/-- No choice of a brancher comes twice. -/
theorem nodup_branch (hp : p.IsProper) (b : Brancher) (w : PartialWiring) :
    (b.branch p w).1.Nodup := by
  rcases b.branch_cases p w with ⟨-, hnil⟩ | ⟨e, -, partners, hpartners, hchoices⟩
  · rw [hnil]
    exact List.nodup_nil
  · have hnodup : partners.Nodup := hpartners.nodup_iff.2
      (((hp.nodup_candidates e).filter _).sublist (firstOfEach_sublist w p _ _))
    rw [hchoices, Brancher.choicesAt, List.nodup_cons]
    refine ⟨by simp, hnodup.map fun f f' hff' => ?_⟩
    cases hff'
    rfl

/-- The wirings that the choices of a brancher lead to conflict with each other. -/
theorem pairwise_conflicts_ofChoices (hw : w.IsSound p) (hp : p.IsProper) (b : Brancher) :
    ((SearchLevel.ofChoices w (b.branch p w).1).todo.map (w.after p)).Pairwise Conflicts := by
  have hready := isReady_ofChoices p w b
  have hnodup : (SearchLevel.ofChoices w (b.branch p w).1).todo.Nodup :=
    List.nodup_reverse.2 (nodup_branch hp b w)
  rw [List.pairwise_map]
  refine hnodup.imp_of_mem fun hc hd hne => ?_
  obtain ⟨hcendpoint, hcallows⟩ := hready _ hc
  obtain ⟨hdendpoint, hdallows⟩ := hready _ hd
  exact conflicts_after_after hw hp hcallows hdallows
    (Option.some.inj (hcendpoint.symm.trans hdendpoint)) hne

end PartialWiring

open PartialWiring SearchLevel

/-! ### What is still to be tried -/

/-- The wirings that the choices still to be tried lead to. -/
def frontier (p : WiringProblem) : List SearchLevel → List PartialWiring
  | [] => []
  | l :: ls => l.todo.map (l.wiring.after p) ++ frontier p ls

/-- The wirings that were found conflict with each other and with those still to be tried, which
conflict with each other, too. -/
def IsApart (p : WiringProblem) (found : List PartialWiring) (ls : List SearchLevel) : Prop :=
  (found ++ frontier p ls).Pairwise Conflicts

/-- An entry may be replaced by others that agree with what it does. -/
theorem pairwise_replace {α : Type} {R : α → α → Prop} {xs ys zs : List α} {w : α}
    (h : (xs ++ w :: zs).Pairwise R) (hys : ys.Pairwise R)
    (hleft : ∀ u, R u w → ∀ v ∈ ys, R u v) (hright : ∀ u, R w u → ∀ v ∈ ys, R v u) :
    (xs ++ (ys ++ zs)).Pairwise R := by
  obtain ⟨hxs, hwzs, hcross⟩ := List.pairwise_append.1 h
  obtain ⟨hw, hzs⟩ := List.pairwise_cons.1 hwzs
  refine List.pairwise_append.2 ⟨hxs, List.pairwise_append.2 ⟨hys, hzs, fun v hv u hu => ?_⟩,
    fun u hu v hv => ?_⟩
  · exact hright u (hw u hu) v hv
  · rcases List.mem_append.1 hv with hv | hv
    · exact hleft u (hcross u hu w List.mem_cons_self) v hv
    · exact hcross u hu v (List.mem_cons_of_mem _ hv)

namespace WiringSearch

section Levels

variable {p : WiringProblem} {l l' : SearchLevel} {ls ls' : List SearchLevel}
  {n n' : WiringStatistics} {k k' : Nat}

/-- A step keeps what was found and what is still to be tried apart. -/
theorem Moves.isApart (h : Moves p n k l ls n' k' l' ls') (hp : p.IsProper)
    (hl : l.wiring.IsSound p) (hready : l.IsReady p) {ws : List PartialWiring}
    (hapart : IsApart p ws (l :: ls)) :
    IsApart p (ws ++ if k < k' then [l'.wiring] else []) (l' :: ls') := by
  have hfrontier : ∀ {c : Choice} {cs : List Choice}, l.todo = c :: cs →
      (ws ++ l.wiring.after p c :: frontier p ({ l with todo := cs } :: ls)).Pairwise
        Conflicts := by
    intro c cs htodo
    rw [IsApart, frontier, htodo] at hapart
    exact hapart
  cases h with
  | stays => simpa using hapart
  | leaves htodo hls =>
    rw [IsApart, frontier, htodo, hls] at hapart
    simpa [IsApart] using hapart
  | finds htodo hconnected =>
    have hfound := hfrontier htodo
    rw [if_pos (Nat.lt_succ_self k), IsApart, frontier, List.map_nil, List.nil_append,
      List.append_assoc]
    exact hfound
  | prunes htodo reason =>
    rw [if_neg (Nat.lt_irrefl k), List.append_nil, IsApart]
    exact (hfrontier htodo).sublist ((List.sublist_cons_self _ _).append_left ws)
  | @branches c cs htodo b =>
    have hc := (hready c (htodo ▸ List.mem_cons_self)).2
    have hw := hl.after hp hc
    have hbranch := isReady_ofChoices p (l.wiring.after p c) b
    rw [if_neg (Nat.lt_irrefl k), List.append_nil, IsApart, frontier]
    refine pairwise_replace (hfrontier htodo) (pairwise_conflicts_ofChoices hw hp b) ?_ ?_
    · intro u hu v hv
      obtain ⟨d, hd, rfl⟩ := List.mem_map.1 hv
      exact hu.after hw hp (hbranch d hd).2
    · intro u hu v hv
      obtain ⟨d, hd, rfl⟩ := List.mem_map.1 hv
      exact (hu.symm.after hw hp (hbranch d hd).2).symm

/-- A step finds nothing, or it finds and counts the connected wiring that it leads to. -/
theorem Moves.found_cases (h : Moves p n k l ls n' k' l' ls') :
    (k' = k ∧ n'.solutions = n.solutions) ∨
    (k' = k + 1 ∧ n'.solutions = tally n.solutions ∧ l'.wiring.isConnected) := by
  cases h with
  | stays => exact .inl ⟨rfl, rfl⟩
  | leaves => exact .inl ⟨rfl, rfl⟩
  | finds htodo hconnected => exact .inr ⟨rfl, rfl, hconnected⟩
  | prunes htodo reason =>
    cases reason
    · exact .inl ⟨rfl, rfl⟩
    · exact .inl ⟨rfl, rfl⟩
  | branches => exact .inl ⟨rfl, rfl⟩

end Levels

/-! ### What a run finds -/

section Run

variable {μ : Type}

/-- The wiring of `t` if a solution was counted on the way from `s`. -/
def newly (s t : WiringSearch μ) : List PartialWiring :=
  if s.solutions < t.solutions then [t.wiring] else []

variable [WiringObserver μ]

/-- The wirings that a loop finds, in order. -/
def foundIn : Nat → WiringSearch μ → List PartialWiring
  | 0, _ => []
  | fuel + 1, s =>
    match s.step with
    | .ended _ t => s.newly t
    | .running t => s.newly t ++ foundIn fuel t

/-- The wirings that a run finds, in order. -/
def found (s : WiringSearch μ) : List PartialWiring :=
  s.newly s.begin.2 ++ if s.begin.1 then foundIn (stepBound s.begin.2.problem) s.begin.2 else []

/-- A search has come to a state between its steps and has found some wirings on the way. -/
inductive Gathers (s₀ : WiringSearch μ) : List PartialWiring → WiringSearch μ → Prop
  | begun (h : s₀.begin.1 = true) : Gathers s₀ (s₀.newly s₀.begin.2) s₀.begin.2
  | step {ws : List PartialWiring} {s t : WiringSearch μ} (h : Gathers s₀ ws s)
    (hstep : s.step = .running t) : Gathers s₀ (ws ++ s.newly t) t

variable {p : WiringProblem} {limit : Nat} {s₀ s t : WiringSearch μ} {l : SearchLevel}
  {ls : List SearchLevel} {ws : List PartialWiring} {reason : TerminationReason}

theorem Gathers.running (h : Gathers s₀ ws s) : Running s₀ s := by
  induction h with
  | begun hbegin => exact .begun hbegin
  | step _ hstep ih => exact ih.step hstep

/-- A loop that ends has found what it had found before its last step, and perhaps one more. -/
theorem EndsIn.gathers {steps fuel : Nat} (h : EndsIn steps s reason t) (hfuel : steps ≤ fuel)
    (hs : Gathers s₀ ws s) : ∃ ws' u, Gathers s₀ ws' u ∧ u.step = .ended reason t ∧
      ws ++ foundIn fuel s = ws' ++ u.newly t := by
  induction h generalizing ws fuel with
  | @ended s t reason hstep =>
    obtain ⟨fuel, rfl⟩ := Nat.exists_eq_add_of_le hfuel
    refine ⟨ws, s, hs, hstep, ?_⟩
    rw [Nat.add_comm, foundIn, hstep]
  | running hstep _ ih =>
    obtain ⟨fuel, rfl⟩ : ∃ m, fuel = m + 1 := ⟨fuel - 1, by omega⟩
    rw [foundIn, hstep, ← List.append_assoc]
    exact ih (Nat.le_of_succ_le_succ hfuel) (hs.step hstep)

/-- A search at level `l` above `ls` that has found the wirings `ws`. -/
structure HasFound (p : WiringProblem) (limit : Nat) (ws : List PartialWiring)
    (s : WiringSearch μ) (l : SearchLevel) (ls : List SearchLevel) : Prop
    extends IsAt p limit s l ls where
  isApart : IsApart p ws (l :: ls)
  isConnected : ∀ w ∈ ws, w.IsSound p ∧ w.isConnected
  length_eq : ws.length = s.solutions
  counted : s.statistics.solutions = capped s.solutions

theorem HasFound.step (h : HasFound p limit ws s l ls) (hp : p.IsProper) :
    ∃ l' ls', HasFound p limit (ws ++ s.newly s.step.search) s.step.search l' ls' := by
  obtain ⟨l', ls', hat, hmoves⟩ := h.moves hp
  have hapart := hmoves.isApart hp (h.isSound hp) (h.isReady l List.mem_cons_self) h.isApart
  rw [← hat.wiring_eq] at hapart
  refine ⟨l', ls', ⟨hat, hapart, ?_, ?_, ?_⟩⟩
  all_goals rcases hmoves.found_cases with ⟨hk, hn⟩ | ⟨hk, hn, hconnected⟩
  · rw [newly, if_neg (by omega), List.append_nil]
    exact h.isConnected
  · rw [newly, if_pos (by omega)]
    intro w hw
    rcases List.mem_append.1 hw with hw | hw
    · exact h.isConnected w hw
    · rw [List.mem_singleton.1 hw, hat.wiring_eq]
      exact ⟨hat.isSound hp, hconnected⟩
  · rw [newly, if_neg (by omega), List.append_nil, hk]
    exact h.length_eq
  · rw [newly, if_pos (by omega), hk, List.length_append, h.length_eq]
    rfl
  · rw [hn, hk]
    exact h.counted
  · rw [hn, hk, h.counted, tally_capped]

theorem Gathers.hasFound (h : Gathers s₀ ws s) (hfresh : IsFresh p s₀) (hp : p.IsProper)
    (hcounted : s₀.statistics.solutions = 0) : ∃ l ls, HasFound p s₀.limit ws s l ls := by
  induction h with
  | begun hbegin =>
    obtain ⟨hn, hk, hat⟩ := hfresh.isAt_begin hbegin
    have hnone : s₀.newly s₀.begin.2 = [] := if_neg (by omega)
    refine ⟨_, [], ⟨hat, ?_, ?_, ?_, ?_⟩⟩
    · rw [IsApart, hnone, frontier, frontier, List.append_nil]
      exact pairwise_conflicts_ofChoices (isSound_ofProblem p) hp s₀.brancher
    · simp [hnone]
    · rw [hnone, hk]
      rfl
    · rw [hn, hk]
      exact hcounted
  | step _ hstep ih =>
    obtain ⟨l, ls, hfound⟩ := ih
    have hnext := hfound.step hp
    rw [hstep] at hnext
    exact hnext

/-- Between its steps a search has found less than its limit. -/
theorem Running.solutions_lt (h : Running s₀ s) (hfresh : IsFresh p s₀) (hlimit : 0 < s₀.limit) :
    s.solutions < s.limit := by
  induction h with
  | begun hbegin =>
    obtain ⟨-, hk, hat⟩ := hfresh.isAt_begin hbegin
    rw [hk, hat.limit_eq]
    exact hlimit
  | step _ hstep ih => exact solutions_lt_of_running hstep ih

/-- A search that stops at its limit has found as much, and found something in its last step. -/
theorem Running.solutions_eq (h : Running s₀ s) (hfresh : IsFresh p s₀) (hp : p.IsProper)
    (hlimit : 0 < s₀.limit) (hstep : s.step = .ended .solutionLimitReached t) :
    s.solutions < t.solutions ∧ t.solutions = s₀.limit := by
  obtain ⟨l, ls, hstate⟩ := h.isState hfresh hp
  obtain ⟨l', ls', hat, hmoves⟩ := hstate.moves hp
  rw [hstep, Progress.search] at hat hmoves
  have hlt := h.solutions_lt hfresh hlimit
  have hreached : t.limit ≤ t.solutions := by
    rcases ended_cases hstep with ⟨message, hreason⟩ | ⟨hreason, -⟩ | ⟨-, hreached⟩
    · exact nomatch hreason
    · exact nomatch hreason
    · exact hreached
  rw [hat.limit_eq] at hreached
  rw [hstate.limit_eq] at hlt
  rcases hmoves.found_cases with ⟨hk, -⟩ | ⟨hk, -⟩
  · omega
  · omega

end Run

end WiringSearch

namespace WiringSolver

open WiringSearch WiringDraft

section Solve

variable {p : WiringProblem} (hp : p.IsDrafted) {s : WiringSolver} (hs : s.IsReachable)
  (b : Brancher) {μ : Type} [WiringObserver μ] (monitor : μ)
include hp hs

/-- A run is decided at the wiring without wires, or ends with a step of its own. -/
theorem run_cases :
    ((s.search p b monitor).begin.1 = false ∧
      (s.search p b monitor).found =
        (s.search p b monitor).newly (s.search p b monitor).begin.2 ∧
      (s.solve p b monitor).outcome.statistics = (s.search p b monitor).begin.2.statistics ∧
      (s.solve p b monitor).outcome.reason = .searchSpaceExhausted) ∨
    ∃ ws u reason t, Gathers (s.search p b monitor) ws u ∧ u.step = .ended reason t ∧
      (s.search p b monitor).found = ws ++ u.newly t ∧
      (s.solve p b monitor).outcome.statistics = t.statistics ∧
      (s.solve p b monitor).outcome.reason = reason := by
  have hfresh := hs.isFresh p b monitor
  rw [found]
  by_cases hbegin : (s.search p b monitor).begin.1 = true
  · obtain ⟨steps, hsteps, reason, t, hends, houtcome⟩ := exists_endsIn hp hs b monitor hbegin
    have hproblem : (s.search p b monitor).begin.2.problem = p := by
      rcases hfresh.begin hp.isProper with ⟨hfalse, -⟩ | ⟨-, hproblem, -⟩
      · exact nomatch hbegin.symm.trans hfalse
      · exact hproblem
    obtain ⟨ws, u, hgathers, hstep, hfound⟩ := hends.gathers hsteps (.begun hbegin)
    rw [if_pos hbegin, hproblem, houtcome, statistics_outcome]
    refine .inr ⟨ws, u, reason, t, hgathers, hstep, hfound, rfl, reason_outcome reason t ?_⟩
    rintro rfl
    obtain ⟨l, ls, hstate⟩ := hgathers.running.isState hfresh hp.isProper
    obtain ⟨l', ls', hat⟩ := hstate.isAt_of_ended hp.isProper hstep
    exact hat.isSome (Nat.zero_lt_of_lt
      (hgathers.running.solutions_eq hfresh hp.isProper hs.isClear.2.2 hstep).1)
  · rw [Bool.not_eq_true] at hbegin
    have houtcome : (s.solve p b monitor).outcome =
        (s.search p b monitor).begin.2.outcome .searchSpaceExhausted := by
      show (s.search p b monitor).run.1 = _
      rw [outcome_run, hbegin]
      rfl
    rw [hbegin, houtcome, statistics_outcome, reason_outcome _ _ (by simp)]
    exact .inl ⟨rfl, List.append_nil _, rfl, rfl⟩

/-- Whatever solver searches a problem, with whichever brancher and monitor: what the run finds are
connected wirings of the problem, no two of which give all endpoints the same partners, and the run
counts each of them. So a run that stops at its limit has found as many different wirings. -/
theorem pairwise_found :
    (s.search p b monitor).found.Pairwise
      (fun u w => ∃ e < p.endpointCount, u.partnerOf e ≠ w.partnerOf e) ∧
    (∀ w ∈ (s.search p b monitor).found, w.IsSound p ∧ w.isConnected) ∧
    (s.solve p b monitor).outcome.statistics.solutions =
      capped (s.search p b monitor).found.length ∧
    ((s.solve p b monitor).outcome.reason = .solutionLimitReached →
      (s.search p b monitor).found.length = s.limit) := by
  have hfresh := hs.isFresh p b monitor
  rcases run_cases hp hs b monitor with
    ⟨hbegin, hfound, hn, hreason⟩ | ⟨ws, u, reason, t, hgathers, hstep, hfound, hn, hreason⟩
  · rw [hfound, hn, hreason]
    rcases hfresh.begin_cases with
      ⟨-, hconnected, hn, hk, hwiring⟩ | ⟨reason, -, hn, hk⟩ | ⟨htrue, -⟩
    · rw [newly, if_pos (hk ▸ Nat.zero_lt_one), hn]
      refine ⟨List.pairwise_singleton _ _, fun w hw => ?_, rfl, nofun⟩
      rw [List.mem_singleton.1 hw, hwiring]
      exact ⟨isSound_ofProblem p, hconnected⟩
    · rw [newly, if_neg (hk ▸ Nat.not_lt_zero _), hn]
      refine ⟨.nil, nofun, ?_, nofun⟩
      cases reason
      · rfl
      · rfl
    · exact nomatch hbegin.symm.trans htrue
  · obtain ⟨l, ls, hhas⟩ := hgathers.hasFound hfresh hp.isProper rfl
    obtain ⟨l', ls', hhas'⟩ := hhas.step hp.isProper
    rw [hstep, Progress.search, ← hfound] at hhas'
    rw [hn, hhas'.counted, hhas'.length_eq, hreason]
    have hpairwise := (List.pairwise_append.1 hhas'.isApart).1
    refine ⟨hpairwise.imp_of_mem fun hu _ hconflicts => ?_, hhas'.isConnected, rfl, ?_⟩
    · obtain ⟨e, he, -, hne⟩ := hconflicts
      exact ⟨e, (hhas'.isConnected _ hu).1.lt_of_isOpen_eq_false he, hne⟩
    · rintro rfl
      exact (hgathers.running.solutions_eq hfresh hp.isProper hs.isClear.2.2 hstep).2

end Solve

/-- A new solver with a limit. -/
def fresh (limit : Nat) : WiringSolver := ({} : WiringSolver).withLimit limit

/-- A dock and a rover that fit together in two places. -/
def twoWays : List DraftCall :=
  [.addInstance ⟨"Dock"⟩, .addInstance ⟨"Rover"⟩, .addEndpoint 0 ⟨"Socket"⟩, .addEndpoint 0 ⟨"Port"⟩,
    .addEndpoint 1 ⟨"Plug"⟩, .addEndpoint 1 ⟨"Jack"⟩, .addCompatible ⟨"Plug"⟩ ⟨"Socket"⟩,
    .addCompatible ⟨"Jack"⟩ ⟨"Port"⟩]

/-- The draft of the calls. -/
def twoWaysDraft : WiringDraft where
  models := #[⟨"Dock"⟩, ⟨"Rover"⟩]
  instanceModels := #[0, 1]
  types := #[⟨"Socket"⟩, ⟨"Port"⟩, ⟨"Plug"⟩, ⟨"Jack"⟩]
  ends := #[(0, 0), (0, 1), (1, 2), (1, 3)]
  compatible := [(3, 1), (2, 0)]

/-- The two wirings of the dock and the rover are different ones. -/
theorem pairwise_found_twoWays : ofCalls twoWays = .ok twoWaysDraft ∧
    ((fresh 2).solve twoWaysDraft.build .lexicographic WiringMonitor.silent).outcome.reason =
      .solutionLimitReached ∧
    ((fresh 2).search twoWaysDraft.build .lexicographic WiringMonitor.silent).found.length = 2 ∧
    ((fresh 2).search twoWaysDraft.build .lexicographic WiringMonitor.silent).found.Pairwise
      fun u w => ∃ e < twoWaysDraft.build.endpointCount, u.partnerOf e ≠ w.partnerOf e := by
  have hdraft : ofCalls twoWays = .ok twoWaysDraft := by decide +kernel
  have hreason : ((fresh 2).solve twoWaysDraft.build .lexicographic
      WiringMonitor.silent).outcome.reason = .solutionLimitReached := by decide +kernel
  obtain ⟨hpairwise, -, -, hlength⟩ :=
    pairwise_found (.ofCalls hdraft) (.withLimit .new 2) .lexicographic WiringMonitor.silent
  exact ⟨hdraft, hreason, hlength hreason, hpairwise⟩

end WiringSolver
end Muster
