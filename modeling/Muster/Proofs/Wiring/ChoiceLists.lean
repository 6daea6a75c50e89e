import Mathlib.Data.List.Basic
import Mathlib.Data.List.Induction
import Muster.Reduction
import Muster.Wiring.ChoiceStack

/-!
A stack of choices as separate lists, one for each level. The stack keeps the partners of all levels
in one list and only remembers where each level begins; still a level never sees the choices of
another, in whatever order levels are opened, choices offered and tried, and levels closed again. As
long as each level is offered choices of one endpoint, every call answers as it does on separate
lists (`ChoiceStack.ofLists` writes them as one stack), to which it does the same.

Main statements: `ofLists_perform`, `ofLists_runFrom`, `run_eq_ofLists`.
-/

namespace Muster

/-! ### Separate lists -/

/-- A level by itself: its endpoint and the choices still to be tried, in the order they were
offered. -/
structure ChoiceList where
  endpoint : Option Nat := none
  choices : List Choice := []
deriving DecidableEq

namespace ChoiceList

/-- The level with more choices, behind those that it has. -/
def offer (l : ChoiceList) (cs : List Choice) : ChoiceList :=
  ⟨(cs.getLast?.map Choice.endpoint).or l.endpoint, l.choices ++ cs⟩

/-- The level without the choice that was offered last. -/
def dropLast (l : ChoiceList) : ChoiceList := { l with choices := l.choices.dropLast }

/-- All choices are for the endpoint of the level. -/
def IsFor (l : ChoiceList) : Prop := ∀ c ∈ l.choices, l.endpoint = some c.endpoint

/-- Whether choices are for one endpoint, that of the level if it has one. -/
def Accepts (l : ChoiceList) (cs : List Choice) : Prop :=
  ∀ c ∈ cs, (l.endpoint = none ∨ l.endpoint = some c.endpoint) ∧ ∀ d ∈ cs, c.endpoint = d.endpoint

instance (l : ChoiceList) (cs : List Choice) : Decidable (l.Accepts cs) :=
  inferInstanceAs (Decidable (∀ c ∈ cs, _))

theorem IsFor.offer {l : ChoiceList} {cs : List Choice} (h : l.IsFor) (hcs : l.Accepts cs) :
    (l.offer cs).IsFor := by
  intro c hc
  rcases List.eq_nil_or_concat' cs with rfl | ⟨init, d, rfl⟩
  · rw [ChoiceList.offer, List.append_nil] at hc
    exact h c hc
  · have hd : d ∈ init ++ [d] := by simp
    have hend : (l.offer (init ++ [d])).endpoint = some d.endpoint := by
      simp [ChoiceList.offer]
    rw [hend]
    rcases List.mem_append.1 hc with hc | hc
    · exact ((hcs d hd).1.resolve_left fun hnone => by simp [h c hc] at hnone).symm.trans (h c hc)
    · exact congrArg some ((hcs d hd).2 c hc)

theorem IsFor.endpoint_eq {l : ChoiceList} (h : l.IsFor) :
    ∀ c ∈ l.choices.getLast?, l.endpoint = some c.endpoint :=
  fun c hc => h c (List.mem_of_getLast? hc)

theorem IsFor.dropLast {l : ChoiceList} (h : l.IsFor) : l.dropLast.IsFor :=
  fun c hc => h c (List.dropLast_subset _ hc)

end ChoiceList

namespace ChoiceStack

/-- At a level with nothing left to try nothing is tried. -/
theorem next_of_isExhausted {s : ChoiceStack} (h : s.isExhausted = true) : s.next = (none, s) := by
  rw [next]
  split
  · rename_i e below _ partner pending hlevels hpending
    rw [isExhausted, hlevels, beq_iff_eq] at h
    rw [if_pos h]
  · rfl

/-! ### Lists as a stack -/

/-- The stack of some levels, the last one first. -/
def ofLists : List ChoiceList → ChoiceStack
  | [] => {}
  | l :: ls =>
    { pending := l.choices.reverse.map Choice.partner ++ (ofLists ls).pending
      levels := ⟨l.endpoint, (ofLists ls).pending.length⟩ :: (ofLists ls).levels }

section OfLists

variable (l : ChoiceList) (ls : List ChoiceList)

theorem depth_ofLists : ∀ ls : List ChoiceList, (ofLists ls).depth = ls.length
  | [] => rfl
  | _ :: ls => congrArg (· + 1) (depth_ofLists ls)

theorem pendingCount_ofLists : ∀ ls : List ChoiceList,
    (ofLists ls).pendingCount = sumOf (ls.map fun l => l.choices.length)
  | [] => rfl
  | l :: ls => by
    have hrest := pendingCount_ofLists ls
    rw [pendingCount] at hrest ⊢
    rw [ofLists, List.length_append, List.length_map, List.length_reverse, hrest, List.map_cons]
    rfl

theorem endpoint?_ofLists :
    ∀ ls : List ChoiceList, (ofLists ls).endpoint? = ls.head?.bind ChoiceList.endpoint
  | [] => rfl
  | _ :: _ => rfl

theorem isExhausted_ofLists : (ofLists (l :: ls)).isExhausted = l.choices.isEmpty := by
  rw [Bool.eq_iff_iff, List.isEmpty_iff, ← List.length_eq_zero_iff]
  simp [ofLists, isExhausted]

theorem pushLevel_ofLists : (ofLists ls).pushLevel = ofLists ({} :: ls) := rfl

theorem popLevel_ofLists : (ofLists (l :: ls)).popLevel = (l.endpoint, ofLists ls) := by
  simp [ofLists, popLevel]

theorem offer_ofLists (cs : List Choice) :
    (ofLists (l :: ls)).offer cs = (cs.length, ofLists (l.offer cs :: ls)) := by
  simp [ofLists, offer, ChoiceList.offer]

theorem next_ofLists {l : ChoiceList}
    (h : ∀ c ∈ l.choices.getLast?, l.endpoint = some c.endpoint) :
    (ofLists (l :: ls)).next = (l.choices.getLast?, ofLists (l.dropLast :: ls)) := by
  rcases List.eq_nil_or_concat' l.choices with hnil | ⟨init, c, hchoices⟩
  · have hexhausted : (ofLists (l :: ls)).isExhausted = true := by
      rw [isExhausted_ofLists, hnil, List.isEmpty_nil]
    have hdrop : l.dropLast = l := by
      rw [ChoiceList.dropLast, hnil, List.dropLast_nil, ← hnil]
    rw [next_of_isExhausted hexhausted, hdrop, hnil, List.getLast?_nil]
  · have hendpoint : l.endpoint = some c.endpoint :=
      h c (by rw [hchoices, List.getLast?_concat]; rfl)
    have hlists : ofLists (l :: ls) =
        ⟨c.partner :: (ofLists (l.dropLast :: ls)).pending, (ofLists (l.dropLast :: ls)).levels⟩ := by
      simp [ofLists, ChoiceList.dropLast, hchoices]
    have hmore : ¬ (c.partner :: (ofLists (l.dropLast :: ls)).pending).length =
        (ofLists ls).pending.length := by
      rw [ofLists, List.length_cons, List.length_append]
      omega
    rw [hlists, hchoices, List.getLast?_concat, next]
    simp only [ofLists, ChoiceList.dropLast, hendpoint] at hmore ⊢
    rw [if_neg hmore]

end OfLists

end ChoiceStack

/-! ### Calls -/

/-- A call on a stack of choices. -/
inductive StackCall where
  | pushLevel
  | popLevel
  | offer (cs : List Choice)
  | next
  | reset
deriving DecidableEq

/-- What a call answers: nothing, the endpoint of a level, a number of choices or a choice. -/
inductive StackAnswer where
  | done
  | closed (endpoint : Option Nat)
  | offered (count : Nat)
  | taken (choice : Option Choice)
deriving DecidableEq

namespace StackCall

/-- Makes a call on a stack. -/
def perform (s : ChoiceStack) : StackCall → StackAnswer × ChoiceStack
  | pushLevel => (.done, s.pushLevel)
  | popLevel => (.closed s.popLevel.1, s.popLevel.2)
  | offer cs => (.offered (s.offer cs).1, (s.offer cs).2)
  | next => (.taken s.next.1, s.next.2)
  | reset => (.done, {})

/-- Makes a call on separate lists, the one of the last level first. Only that one is changed: it is
put on top or taken away, choices are put behind those in it, or the one offered last is taken. -/
def performOn : List ChoiceList → StackCall → StackAnswer × List ChoiceList
  | ls, pushLevel => (.done, {} :: ls)
  | [], popLevel => (.closed none, [])
  | l :: ls, popLevel => (.closed l.endpoint, ls)
  | [], offer _ => (.offered 0, [])
  | l :: ls, offer cs => (.offered cs.length, l.offer cs :: ls)
  | [], next => (.taken none, [])
  | l :: ls, next => (.taken l.choices.getLast?, l.dropLast :: ls)
  | _, reset => (.done, [])

/-- Whether a call offers the last level, if any, only choices of one endpoint. -/
def IsPermitted : List ChoiceList → StackCall → Prop
  | l :: _, offer cs => l.Accepts cs
  | _, _ => True

instance (ls : List ChoiceList) (c : StackCall) : Decidable (c.IsPermitted ls) :=
  match ls, c with
  | l :: _, offer cs => inferInstanceAs (Decidable (l.Accepts cs))
  | [], _ | _ :: _, pushLevel | _ :: _, popLevel | _ :: _, next | _ :: _, reset => .isTrue trivial

/-- Makes calls one after the other; the answers and what they lead to. -/
def run {σ : Type} (f : σ → StackCall → StackAnswer × σ) : σ → List StackCall →
    List StackAnswer × σ
  | s, [] => ([], s)
  | s, c :: calls => ((f s c).1 :: (run f (f s c).2 calls).1, (run f (f s c).2 calls).2)

/-- Whether every level is offered choices of one endpoint only, in one call or several. -/
def ArePermitted : List ChoiceList → List StackCall → Prop
  | _, [] => True
  | ls, c :: calls => c.IsPermitted ls ∧ ArePermitted (performOn ls c).2 calls

instance : ∀ (ls : List ChoiceList) (calls : List StackCall), Decidable (ArePermitted ls calls)
  | _, [] => .isTrue trivial
  | ls, c :: calls =>
    have := instDecidableArePermitted (performOn ls c).2 calls
    inferInstanceAs (Decidable (c.IsPermitted ls ∧ _))

section Run

variable {ls : List ChoiceList} {c : StackCall} {calls : List StackCall}

/-- A call answers on a stack as on separate lists and does the same to it. -/
theorem ofLists_perform (hls : ∀ l ∈ ls, l.IsFor) :
    perform (.ofLists ls) c = ((performOn ls c).1, .ofLists (performOn ls c).2) := by
  cases c with
  | pushLevel => rw [perform, ChoiceStack.pushLevel_ofLists, performOn]
  | popLevel =>
    cases ls with
    | nil => rfl
    | cons l ls => rw [perform, ChoiceStack.popLevel_ofLists, performOn]
  | offer cs =>
    cases ls with
    | nil => rfl
    | cons l ls => rw [perform, ChoiceStack.offer_ofLists, performOn]
  | next =>
    cases ls with
    | nil => rfl
    | cons l ls =>
      rw [perform, ChoiceStack.next_ofLists ls (hls l List.mem_cons_self).endpoint_eq, performOn]
  | reset => rfl

/-- The choices of each level stay those of its endpoint. -/
theorem isFor_performOn (hls : ∀ l ∈ ls, l.IsFor) (hc : c.IsPermitted ls) :
    ∀ l ∈ (performOn ls c).2, l.IsFor := by
  cases c with
  | pushLevel => exact List.forall_mem_cons.2 ⟨fun c hc => absurd hc List.not_mem_nil, hls⟩
  | popLevel =>
    cases ls with
    | nil => exact hls
    | cons l ls => exact (List.forall_mem_cons.1 hls).2
  | offer cs =>
    cases ls with
    | nil => exact hls
    | cons l ls =>
      obtain ⟨hl, hls⟩ := List.forall_mem_cons.1 hls
      exact List.forall_mem_cons.2 ⟨hl.offer hc, hls⟩
  | next =>
    cases ls with
    | nil => exact hls
    | cons l ls =>
      obtain ⟨hl, hls⟩ := List.forall_mem_cons.1 hls
      exact List.forall_mem_cons.2 ⟨hl.dropLast, hls⟩
  | reset => exact fun l hl => absurd hl List.not_mem_nil

theorem ofLists_run (hls : ∀ l ∈ ls, l.IsFor) (hcalls : ArePermitted ls calls) :
    run perform (.ofLists ls) calls =
      ((run performOn ls calls).1, .ofLists (run performOn ls calls).2) ∧
    ∀ l ∈ (run performOn ls calls).2, l.IsFor := by
  induction calls generalizing ls with
  | nil => exact ⟨rfl, hls⟩
  | cons c calls ih =>
    obtain ⟨hc, hcalls⟩ := hcalls
    obtain ⟨hrun, hlater⟩ := ih (isFor_performOn hls hc) hcalls
    rw [run, ofLists_perform hls, hrun]
    exact ⟨rfl, hlater⟩

/-- Trying all that a level has tries what was offered last first. -/
theorem run_replicate_next (endpoint : Option Nat) (choices : List Choice) (ls : List ChoiceList) :
    run performOn (⟨endpoint, choices⟩ :: ls) (.replicate choices.length .next) =
      (choices.reverse.map fun c => .taken (some c), ⟨endpoint, []⟩ :: ls) := by
  induction choices using List.reverseRecOn with
  | nil => rfl
  | append_singleton choices c ih =>
    have hstep : performOn (⟨endpoint, choices ++ [c]⟩ :: ls) .next =
        (.taken (some c), ⟨endpoint, choices⟩ :: ls) := by
      simp [performOn, ChoiceList.dropLast]
    rw [List.length_append, List.length_singleton, List.replicate_succ, run, hstep, ih,
      List.reverse_concat, List.map_cons]

theorem arePermitted_replicate_next (n : Nat) (ls : List ChoiceList) :
    ArePermitted ls (.replicate n .next) := by
  induction n generalizing ls with
  | zero => trivial
  | succ n ih =>
    refine ⟨?_, ih _⟩
    cases ls <;> trivial

end Run

end StackCall

namespace ChoiceStack

theorem isExhausted_eq_false_iff {ls : List ChoiceList} (hls : ∀ l ∈ ls, l.IsFor) :
    (ofLists ls).isExhausted = false ↔ ∃ c, (ofLists ls).next.1 = some c := by
  cases ls with
  | nil => exact iff_of_false (by decide) fun ⟨c, hc⟩ => nomatch hc
  | cons l ls =>
    rw [isExhausted_ofLists, next_ofLists ls (hls l List.mem_cons_self).endpoint_eq,
      ← Option.isSome_iff_exists, List.getLast?_isSome, List.isEmpty_eq_false_iff]

open StackCall

/-- Whatever calls are made on a stack, as long as each level is offered choices of one endpoint, it
answers as separate lists do and is those lists written as one. The level that is to be tried has
something left just if trying gives a choice, trying goes through its choices from the last one
offered to the first, and what is pending is what is left on all levels together. -/
theorem run_eq_ofLists {calls : List StackCall} (h : ArePermitted [] calls) :
    (run perform {} calls).1 = (run performOn [] calls).1 ∧
    (run perform {} calls).2 = .ofLists (run performOn [] calls).2 ∧
    ((run perform {} calls).2.isExhausted = false ↔
      ∃ c, (run perform {} calls).2.next.1 = some c) ∧
    (∀ l ls, (run performOn [] calls).2 = l :: ls →
      (run perform (run perform {} calls).2 (.replicate l.choices.length .next)).1 =
        l.choices.reverse.map fun c => .taken (some c)) ∧
    (run perform {} calls).2.pendingCount =
      sumOf ((run performOn [] calls).2.map fun l => l.choices.length) ∧
    (run perform {} calls).2.depth = (run performOn [] calls).2.length ∧
    (run perform {} calls).2.endpoint? = (run performOn [] calls).2.head?.bind (·.endpoint) := by
  have hnil : ∀ l ∈ ([] : List ChoiceList), l.IsFor := fun l hl => absurd hl List.not_mem_nil
  obtain ⟨hrun, hfor⟩ := ofLists_run hnil h
  rw [show ofLists [] = {} from rfl] at hrun
  rw [hrun]
  refine ⟨rfl, rfl, isExhausted_eq_false_iff hfor, fun l ls hls => ?_, pendingCount_ofLists _,
    depth_ofLists _, endpoint?_ofLists _⟩
  rw [(ofLists_run hfor (arePermitted_replicate_next _ _)).1, hls, run_replicate_next]

/-- Two levels, the second closed with a choice untried and the first then offered another one. -/
def nestedCalls : List StackCall :=
  [.pushLevel, .offer [⟨0, none⟩, ⟨0, some 4⟩], .next, .pushLevel,
    .offer [⟨1, none⟩, ⟨1, some 2⟩], .next, .popLevel, .offer [⟨0, some 5⟩]]

theorem run_eq_ofLists_nestedCalls : ArePermitted [] nestedCalls ∧
    (run perform {} nestedCalls).1 = [.done, .offered 2, .taken (some ⟨0, some 4⟩), .done,
      .offered 2, .taken (some ⟨1, some 2⟩), .closed (some 1), .offered 1] ∧
    (run perform (run perform {} nestedCalls).2 [.next, .next]).1 =
      [.taken (some ⟨0, some 5⟩), .taken (some ⟨0, none⟩)] := by
  have hpermitted : ArePermitted [] nestedCalls := by decide
  obtain ⟨hanswers, -, -, htaken, -⟩ := run_eq_ofLists hpermitted
  exact ⟨hpermitted, hanswers.trans (by decide), htaken _ _ rfl⟩

end ChoiceStack

end Muster
