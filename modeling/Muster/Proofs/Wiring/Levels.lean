import Muster.Proofs.Wiring.Branching
import Muster.Proofs.Wiring.ChoiceLists

/-!
A search seen as a list of levels, the last one first. A level is a partial wiring with the choices
that are still to be tried there; the wiring of each level comes from the one below by a choice. The
stack is the levels without their wirings (`stackOf`), the trail is the choices between them
(`IsPath`), so leaving a level gives the wiring below back.

`Pursued` says that nothing is lost: whatever level can be completed, it can by a choice that is
still to be tried or above. `weight` goes down with every step.

Main statements: `IsPath.backtrack`, `IsPath.isSound`, `Pursued.pop`, `Pursued.take`, `weight_push`.
-/

namespace Muster

/-- A partial wiring and the choices that are still to be tried there, the next one first. -/
structure SearchLevel where
  wiring : PartialWiring
  endpoint : Option Nat
  todo : List Choice

namespace SearchLevel

/-- The choices are for the endpoint of the level, and a search may make them. -/
def IsReady (l : SearchLevel) (p : WiringProblem) : Prop :=
  ∀ c ∈ l.todo, l.endpoint = some c.endpoint ∧ l.wiring.Allows p c

/-- Whether some choice that is still to be tried can be completed. -/
def HasCompletable (l : SearchLevel) (p : WiringProblem) : Prop :=
  ∃ c ∈ l.todo, (l.wiring.after p c).IsCompletable p

/-- The level that a brancher makes of a partial wiring. -/
def ofChoices (w : PartialWiring) (cs : List Choice) : SearchLevel :=
  ⟨w, cs.getLast?.map Choice.endpoint, cs.reverse⟩

/-- The level without its wiring. -/
def choiceList (l : SearchLevel) : ChoiceList := ⟨l.endpoint, l.todo.reverse⟩

end SearchLevel

open SearchLevel

/-! ### The stack -/

/-- The stack of some levels. -/
def stackOf : List SearchLevel → ChoiceStack
  | [] => {}
  | l :: ls =>
    { pending := l.todo.map Choice.partner ++ (stackOf ls).pending
      levels := ⟨l.endpoint, (stackOf ls).pending.length⟩ :: (stackOf ls).levels }

theorem stackOf_eq : ∀ ls : List SearchLevel, stackOf ls = .ofLists (ls.map choiceList)
  | [] => rfl
  | l :: ls => by
    rw [stackOf, stackOf_eq ls, List.map_cons, ChoiceStack.ofLists, choiceList,
      List.reverse_reverse]

section Stack

variable (l : SearchLevel) (ls : List SearchLevel)

@[simp] theorem depth_stackOf : (stackOf ls).depth = ls.length := by
  rw [stackOf_eq, ChoiceStack.depth_ofLists, List.length_map]

theorem isExhausted_stackOf : (stackOf (l :: ls)).isExhausted = l.todo.isEmpty := by
  rw [stackOf_eq, List.map_cons, ChoiceStack.isExhausted_ofLists]
  exact List.isEmpty_reverse

theorem popLevel_stackOf : (stackOf (l :: ls)).popLevel.2 = stackOf ls := by
  rw [stackOf_eq, stackOf_eq, List.map_cons, ChoiceStack.popLevel_ofLists]

theorem offer_stackOf (w : PartialWiring) (cs : List Choice) :
    ((stackOf (⟨w, none, []⟩ :: ls)).offer cs).2 = stackOf (ofChoices w cs :: ls) := by
  rw [stackOf_eq, stackOf_eq, List.map_cons, ChoiceStack.offer_ofLists, List.map_cons]
  simp [choiceList, ofChoices, ChoiceList.offer]

theorem next_stackOf {c : Choice} {cs : List Choice} (htodo : l.todo = c :: cs)
    (hendpoint : l.endpoint = some c.endpoint) :
    (stackOf (l :: ls)).next = (some c, stackOf ({ l with todo := cs } :: ls)) := by
  have hlast : l.choiceList.choices.getLast? = some c := by simp [choiceList, htodo]
  have hfirst : ∀ d ∈ l.choiceList.choices.getLast?, l.choiceList.endpoint = some d.endpoint := by
    rw [hlast]
    rintro d ⟨⟩
    exact hendpoint
  have hrest : l.choiceList.dropLast = choiceList { l with todo := cs } := by
    simp [choiceList, ChoiceList.dropLast, htodo]
  rw [stackOf_eq, stackOf_eq, List.map_cons, List.map_cons, ChoiceStack.next_ofLists _ hfirst,
    hlast, hrest]

end Stack

/-! ### The trail -/

/-- The trail leads from the wiring without wires through the wirings of the levels. -/
inductive IsPath (p : WiringProblem) : List SearchLevel → Trail → Prop
  | root {l : SearchLevel} : l.wiring = .ofProblem p → IsPath p [l] (({} : Trail).pushFrame)
  | child {l m : SearchLevel} {ls : List SearchLevel} {t : Trail} {c : Choice} :
    IsPath p (m :: ls) t → m.wiring.Allows p c → l.wiring = m.wiring.after p c →
    IsPath p (l :: m :: ls) (t.pushFrame.apply p m.wiring c).1

/-- What is still to be tried at the last level does not matter. -/
theorem IsPath.congr {p : WiringProblem} {l l' : SearchLevel} {ls : List SearchLevel} {t : Trail}
    (h : IsPath p (l :: ls) t) (hl : l'.wiring = l.wiring) : IsPath p (l' :: ls) t := by
  cases h with
  | root h => exact .root (hl.trans h)
  | child h hc hlm => exact .child h hc (hl.trans hlm)

theorem IsPath.wiring_eq {p : WiringProblem} {l : SearchLevel} {t : Trail} (h : IsPath p [l] t) :
    l.wiring = .ofProblem p := by
  cases h with
  | root h => exact h

theorem IsPath.isSound {p : WiringProblem} (hp : p.IsProper) {ls : List SearchLevel} {t : Trail}
    (h : IsPath p ls t) : ∀ l ∈ ls, l.wiring.IsSound p := by
  induction h with
  | root h =>
    intro l hl
    rw [List.mem_singleton.1 hl, h]
    exact PartialWiring.isSound_ofProblem p
  | child h hc hlm ih =>
    intro l hl
    rcases List.mem_cons.1 hl with rfl | hl
    · rw [hlm]
      exact (ih _ List.mem_cons_self).after hp hc
    · exact ih l hl

/-- Leaving the last level gives the wiring of the level below back. -/
theorem IsPath.backtrack {p : WiringProblem} (hp : p.IsProper) {l m : SearchLevel}
    {ls : List SearchLevel} {t : Trail} (h : IsPath p (l :: m :: ls) t) :
    IsPath p (m :: ls) (t.backtrack l.wiring).1 ∧ (t.backtrack l.wiring).2 = m.wiring := by
  cases h with
  | @child _ _ _ t c h hc hlm =>
    have hundo := (h.isSound hp m List.mem_cons_self).isTidy.undo_entryOf hp (hc.permits hp)
    have hback : ((t.pushFrame.apply p m.wiring c).1.backtrack l.wiring) = (t, m.wiring) := by
      rw [PartialWiring.apply_eq]
      simp only [Trail.pushFrame, Trail.backtrack, List.length_cons, Nat.add_sub_cancel_left,
        Trail.undoMany, hlm, hundo]
    rw [hback]
    exact ⟨h, rfl⟩

/-! ### Nothing is lost -/

/-- A level that can be completed can be so by a choice that is still to be tried or by the level
above; `above` says whether the level above the last one can be. -/
def Pursued (p : WiringProblem) (above : Prop) : List SearchLevel → Prop
  | [] => True
  | l :: ls => (l.wiring.IsCompletable p → l.HasCompletable p ∨ above) ∧
    Pursued p (l.wiring.IsCompletable p) ls

theorem Pursued.mono {p : WiringProblem} {above above' : Prop} (h : above → above') :
    ∀ {ls : List SearchLevel}, Pursued p above ls → Pursued p above' ls
  | [], _ => trivial
  | _ :: _, ⟨h1, h2⟩ => ⟨fun hl => (h1 hl).imp_right h, h2⟩

/-- A level without anything to try may be left. -/
theorem Pursued.pop {p : WiringProblem} {l : SearchLevel} {ls : List SearchLevel}
    (h : Pursued p False (l :: ls)) (htodo : l.todo = []) : Pursued p False ls := by
  refine h.2.mono fun hl => ?_
  rcases h.1 hl with ⟨c, hc, -⟩ | hfalse
  · simp [htodo] at hc
  · exact hfalse

/-- A choice that is tried goes to the level above. -/
theorem Pursued.take {p : WiringProblem} {l : SearchLevel} {ls : List SearchLevel} {c : Choice}
    {cs : List Choice} (h : Pursued p False (l :: ls)) (htodo : l.todo = c :: cs) :
    Pursued p ((l.wiring.after p c).IsCompletable p) ({ l with todo := cs } :: ls) := by
  refine ⟨fun hl => ?_, h.2⟩
  obtain ⟨d, hd, hcompletable⟩ := (h.1 hl).resolve_right id
  rw [htodo] at hd
  rcases List.mem_cons.1 hd with rfl | hd
  · exact .inr hcompletable
  · exact .inl ⟨d, hd, hcompletable⟩

/-- The choices of a brancher are enough for a partial wiring that it can complete. -/
theorem hasCompletable_ofChoices {p : WiringProblem} (hp : p.IsProper) (hu : p.IsUniform)
    {w : PartialWiring} (hw : w.IsSound p) (hcomponents : 1 < w.componentCount)
    (h : w.IsCompletable p) (b : Brancher) : (ofChoices w (b.branch p w).1).HasCompletable p := by
  have hinstances : 0 < p.instanceCount := by
    have := hw.connectionCount_add
    omega
  rcases b.branch_cases p w with ⟨hnone, -⟩ | ⟨e, he, partners, hpartners, hchoices⟩
  · obtain ⟨rest, h⟩ := h
    obtain ⟨e, he, -⟩ := PartialWiring.exists_exit hp h hw hcomponents hinstances
    simp [hnone] at he
  · have hlt := (PartialWiring.mem_branchable.1 he).1
    obtain ⟨c, hc, hcompletable⟩ := PartialWiring.exists_completable_choice hw hp hu h hlt hpartners
    refine ⟨c, ?_, hcompletable⟩
    rw [hchoices]
    exact List.mem_reverse.2 hc

theorem isReady_ofChoices (p : WiringProblem) (w : PartialWiring) (b : Brancher) :
    (ofChoices w (b.branch p w).1).IsReady p := by
  intro c hc
  have hmem := List.mem_reverse.1 hc
  rcases b.branch_cases p w with ⟨-, hnil⟩ | ⟨e, he, partners, hpartners, hchoices⟩
  · rw [hnil] at hmem
    simp at hmem
  · rw [hchoices] at hmem ⊢
    refine ⟨?_, PartialWiring.allows_of_mem_choicesAt he hpartners hmem⟩
    have hends : ∀ d ∈ Brancher.choicesAt e partners, d.endpoint = e := by
      intro d hd
      rcases List.mem_cons.1 hd with rfl | hd
      · rfl
      · obtain ⟨f, -, rfl⟩ := List.mem_map.1 hd
        rfl
    have hne : Brancher.choicesAt e partners ≠ [] := List.cons_ne_nil _ _
    rw [ofChoices, List.getLast?_eq_some_getLast hne, Option.map_some,
      hends _ (List.getLast_mem hne), hends c hmem]

/-! ### Steps that are left -/

/-- The number of open endpoints. -/
def PartialWiring.openCount (w : PartialWiring) (p : WiringProblem) : Nat :=
  (List.range p.endpointCount).countP w.isOpen

/-- A bound on the steps that a search makes at a level and above, one to leave it and, for each
choice, as many as at a level with an open endpoint less. -/
def SearchLevel.weight (p : WiringProblem) (l : SearchLevel) : Nat :=
  l.todo.length * (2 * (p.endpointCount + 2) ^ l.wiring.openCount p) + 1

/-- A bound on the steps that are left. -/
def weight (p : WiringProblem) (ls : List SearchLevel) : Nat :=
  (ls.map (SearchLevel.weight p)).sum

theorem isOpen_after {w : PartialWiring} {p : WiringProblem} (hw : w.IsSound p) (hp : p.IsProper)
    {c : Choice} (hc : w.Allows p c) {x : Nat} (hx : (w.after p c).isOpen x) :
    w.isOpen x ∧ x ≠ c.endpoint := by
  obtain ⟨e, _ | f⟩ := c
  · have hx : (w.decideEndpoint e (p.ownerOf e)).isOpen x := hx
    rw [PartialWiring.isOpen_decideEndpoint (hw.size_decided.symm ▸ hc.endpoint_lt),
      Bool.and_eq_true, bne_iff_ne] at hx
    exact hx
  · rw [PartialWiring.isOpen_connect hw hp hc.endpoint_lt (hc.partner_mem f rfl),
      Bool.and_eq_true, Bool.and_eq_true, bne_iff_ne] at hx
    exact hx.1

theorem openCount_after_lt {w : PartialWiring} {p : WiringProblem} (hw : w.IsSound p)
    (hp : p.IsProper) {c : Choice} (hc : w.Allows p c) :
    (w.after p c).openCount p < w.openCount p := by
  have hsplit : w.openCount p =
      (List.range p.endpointCount).countP (fun x => w.isOpen x && x != c.endpoint) +
        (List.range p.endpointCount).countP (· == c.endpoint) := by
    refine countP_or (fun x _ => ?_) fun x _ hx => ?_
    · by_cases h : x = c.endpoint
      · rw [h, hc.isOpen, beq_self_eq_true, Bool.or_true]
      · rw [beq_false_of_ne h, Bool.or_false, bne, beq_false_of_ne h]
        rw [Bool.not_false, Bool.and_true]
    · have hne := (Bool.and_eq_true_iff.1 hx.1).2
      exact bne_iff_ne.1 hne (beq_iff_eq.1 hx.2)
  have hle : (w.after p c).openCount p ≤
      (List.range p.endpointCount).countP (fun x => w.isOpen x && x != c.endpoint) := by
    refine List.countP_mono_left fun x _ hx => ?_
    obtain ⟨hopen, hne⟩ := isOpen_after hw hp hc hx
    rw [hopen, Bool.true_and, bne_iff_ne]
    exact hne
  rw [hsplit, PartialWiring.countP_range_eq hc.endpoint_lt]
  omega

theorem openCount_le (w : PartialWiring) (p : WiringProblem) : w.openCount p ≤ p.endpointCount :=
  List.countP_le_length.trans (List.length_range (n := p.endpointCount)).le

/-- A brancher gives no more choices than there are endpoints. -/
theorem length_branch_le {p : WiringProblem} (hp : p.IsProper) (b : Brancher) (w : PartialWiring) :
    (b.branch p w).1.length ≤ p.endpointCount := by
  rcases b.branch_cases p w with ⟨-, hnil⟩ | ⟨e, he, partners, hpartners, hchoices⟩
  · rw [hnil]
    exact Nat.zero_le _
  · have hnodup : (e :: w.openCandidates p e).Nodup := by
      refine List.nodup_cons.2 ⟨fun h => PartialWiring.ne_of_mem_openCandidates h rfl, ?_⟩
      exact (hp.nodup_candidates e).filter _
    have hsub : e :: w.openCandidates p e ⊆ List.range p.endpointCount := by
      intro x hx
      rcases List.mem_cons.1 hx with rfl | hx
      · exact List.mem_range.2 (PartialWiring.mem_branchable.1 he).1
      · exact List.mem_range.2 (PartialWiring.lt_of_mem_openCandidates hp hx)
    have hlength := (hnodup.subperm hsub).length_le
    have hrepresentatives :=
      (PartialWiring.firstOfEach_sublist w p (w.openCandidates p e) []).length_le
    rw [List.length_cons, List.length_range] at hlength
    rw [hchoices, Brancher.choicesAt, List.length_cons, List.length_map, hpartners.length_eq]
    exact (Nat.succ_le_succ hrepresentatives).trans hlength

theorem weight_take {p : WiringProblem} {l : SearchLevel} {ls : List SearchLevel} {c : Choice}
    {cs : List Choice} (htodo : l.todo = c :: cs) :
    weight p ({ l with todo := cs } :: ls) < weight p (l :: ls) := by
  have hpow : 0 < (p.endpointCount + 2) ^ l.wiring.openCount p := Nat.pow_pos (by omega)
  simp only [weight, SearchLevel.weight, htodo, List.map_cons, List.sum_cons, List.length_cons]
  generalize (p.endpointCount + 2) ^ l.wiring.openCount p = y at *
  have hy : (cs.length + 1) * (2 * y) = cs.length * (2 * y) + 2 * y := Nat.succ_mul ..
  omega

/-- A level with an endpoint decided more costs less than the choice that leads to it. -/
theorem weight_push {p : WiringProblem} {l l' : SearchLevel} {ls : List SearchLevel} {c : Choice}
    {cs : List Choice} (htodo : l.todo = c :: cs) (hl' : l'.todo.length ≤ p.endpointCount)
    (hopen : l'.wiring.openCount p < l.wiring.openCount p) :
    weight p (l' :: { l with todo := cs } :: ls) < weight p (l :: ls) := by
  have hpow : 0 < (p.endpointCount + 2) ^ l'.wiring.openCount p := Nat.pow_pos (by omega)
  have hstep : (p.endpointCount + 2) * (p.endpointCount + 2) ^ l'.wiring.openCount p ≤
      (p.endpointCount + 2) ^ l.wiring.openCount p := by
    rw [← Nat.pow_succ']
    exact Nat.pow_le_pow_right (by omega) hopen
  have hchoices := Nat.mul_le_mul_right
    (2 * (p.endpointCount + 2) ^ l'.wiring.openCount p) hl'
  simp only [weight, SearchLevel.weight, htodo, List.map_cons, List.sum_cons, List.length_cons]
  generalize (p.endpointCount + 2) ^ l'.wiring.openCount p = x at *
  generalize (p.endpointCount + 2) ^ l.wiring.openCount p = y at *
  have hx : (p.endpointCount + 2) * x = p.endpointCount * x + 2 * x := Nat.add_mul ..
  have hx' : p.endpointCount * (2 * x) = 2 * (p.endpointCount * x) := Nat.mul_left_comm ..
  have hy : (cs.length + 1) * (2 * y) = cs.length * (2 * y) + 2 * y := Nat.succ_mul ..
  omega

end Muster
