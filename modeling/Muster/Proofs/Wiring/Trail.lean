import Muster.Proofs.Wiring.Handmade
import Muster.Proofs.Wiring.Pool

/-!
Trails take back what was done since a frame was opened. Which frame a call closes is told by the
calls alone (`openFrames`); taking it back gives the trail and the whole partial wiring as they were
before the call that opened it, however frames and choices are nested and whether or not the choices
merged components.

Main statements: `IsDrafted.isProper`, `nested_run`, `backtrack_run`.
-/

namespace Muster

/-! ### Problems -/

/-- A problem that is drafted by calls or drawn from a pool. -/
inductive WiringProblem.IsDrafted : WiringProblem → Prop
  | ofCalls {calls : List DraftCall} {d : WiringDraft} (h : WiringDraft.ofCalls calls = .ok d) :
    IsDrafted d.build
  | ofPool (o : Ontology) (pool : Pool) (base : Model) :
    IsDrafted (WiringProblem.ofPool o pool base)

theorem WiringProblem.IsDrafted.isProper {p : WiringProblem} (h : p.IsDrafted) : p.IsProper := by
  cases h with
  | ofCalls h => exact (WiringDraft.records_ofCalls h).names.isProper_build
  | ofPool o pool base => exact (WiringProblem.names_draftOf o pool base).isProper_build

/-! ### Calls -/

/-- A call on a trail. -/
inductive TrailCall where
  | pushFrame
  | apply (c : Choice)
  | backtrack
deriving DecidableEq

/-- A trail and the partial wiring that its choices led to. -/
abbrev TrailState := Trail × PartialWiring

namespace TrailCall

/-- Makes a call. -/
def perform (p : WiringProblem) (s : TrailState) : TrailCall → TrailState
  | pushFrame => (s.1.pushFrame, s.2)
  | apply c => s.1.apply p s.2 c
  | backtrack => s.1.backtrack s.2

/-- Whether a call makes a choice, if any, that can be taken back. -/
def IsPermitted (p : WiringProblem) (w : PartialWiring) : TrailCall → Prop
  | pushFrame => True
  | apply c => w.Permits p c
  | backtrack => True

instance (p : WiringProblem) (w : PartialWiring) : ∀ c : TrailCall, Decidable (c.IsPermitted p w)
  | pushFrame | backtrack => .isTrue trivial
  | apply c => inferInstanceAs (Decidable (w.Permits p c))

/-- What a call does to the frames that are open, each of them told by the number of calls before
it. -/
def frame (frames : List Nat) : TrailCall × Nat → List Nat
  | (pushFrame, i) => i :: frames
  | (apply _, _) => frames
  | (backtrack, _) => frames.tail

/-- The frames that are open after some calls, the last one first. -/
def openFrames (calls : List TrailCall) : List Nat := calls.zipIdx.foldl frame []

theorem openFrames_concat (calls : List TrailCall) (c : TrailCall) :
    openFrames (calls ++ [c]) = frame (openFrames calls) (c, calls.length) := by
  rw [openFrames, List.zipIdx_append, List.foldl_append, Nat.zero_add]
  rfl

/-- A frame is opened by the call that it is told by. -/
theorem getElem?_of_mem_openFrames {calls : List TrailCall} : ∀ i ∈ openFrames calls,
    calls[i]? = some .pushFrame := by
  induction calls using List.reverseRecOn with
  | nil => exact fun i hi => absurd hi List.not_mem_nil
  | append_singleton calls c ih =>
    have hold : ∀ i ∈ openFrames calls, (calls ++ [c])[i]? = some .pushFrame := by
      intro i hi
      obtain ⟨hlt, -⟩ := List.getElem?_eq_some_iff.1 (ih i hi)
      rw [List.getElem?_append_left hlt, ih i hi]
    intro i hi
    rw [openFrames_concat] at hi
    cases c with
    | pushFrame =>
      rcases List.mem_cons.1 hi with rfl | hi
      · exact List.getElem?_concat_length
      · exact hold i hi
    | apply c => exact hold i hi
    | backtrack => exact hold i (List.mem_of_mem_tail hi)

end TrailCall

namespace Trail

/-- What calls on a new trail lead to. -/
def run (p : WiringProblem) (w : PartialWiring) (calls : List TrailCall) : TrailState :=
  calls.foldl (TrailCall.perform p) ({}, w)

/-- Each call makes a choice, if any, that can be taken back where it is made. -/
def IsPermitted (p : WiringProblem) (w : PartialWiring) (calls : List TrailCall) : Prop :=
  ∀ (i : Nat) (_ : i < calls.length), calls[i].IsPermitted p (run p w (calls.take i)).2

instance (p : WiringProblem) (w : PartialWiring) (calls : List TrailCall) :
    Decidable (IsPermitted p w calls) :=
  inferInstanceAs (Decidable (∀ (i : Nat) (_ : i < calls.length), _))

section Run

variable {p : WiringProblem} {w : PartialWiring} {calls : List TrailCall} {c : TrailCall}

theorem run_concat : run p w (calls ++ [c]) = c.perform p (run p w calls) := by
  rw [run, List.foldl_concat]
  rfl

theorem isPermitted_concat (h : IsPermitted p w (calls ++ [c])) :
    IsPermitted p w calls ∧ c.IsPermitted p (run p w calls).2 := by
  constructor
  · intro i hi
    have hcall := h i (by rw [List.length_append]; omega)
    rwa [List.getElem_append_left hi, List.take_append_of_le_length hi.le] at hcall
  · have hcall := h calls.length (by simp)
    rwa [List.getElem_concat_length rfl, List.take_left] at hcall

end Run

/-! ### Nested frames -/

/-- A state of a trail, with those at which its open frames were opened, the last one first. -/
inductive Nested (p : WiringProblem) (w₀ : PartialWiring) : TrailState → List TrailState → Prop
  | start : Nested p w₀ ({}, w₀) []
  | push {s : TrailState} {saved : List TrailState} (h : Nested p w₀ s saved) :
    Nested p w₀ (s.1.pushFrame, s.2) (s :: saved)
  | apply {s : TrailState} {saved : List TrailState} {c : Choice} (h : Nested p w₀ s saved)
    (hc : s.2.Permits p c) : Nested p w₀ (s.1.apply p s.2 c) saved

section Nested

variable {p : WiringProblem} {w₀ : PartialWiring} {s : TrailState} {saved : List TrailState}

theorem Nested.isTidy (hp : p.IsProper) (hw₀ : w₀.IsTidy p) (h : Nested p w₀ s saved) :
    s.2.IsTidy p := by
  induction h with
  | start => exact hw₀
  | push _ ih => exact ih
  | apply _ hc ih =>
    rw [PartialWiring.apply_eq]
    exact ih.after hp hc

/-- The saved states belong to the open frames. -/
theorem Nested.length_frames (h : Nested p w₀ s saved) : s.1.frames.length = saved.length := by
  induction h with
  | start => rfl
  | push _ ih => exact congrArg (· + 1) ih
  | apply _ _ ih =>
    rw [PartialWiring.apply_eq]
    exact ih

/-- No frame was opened later than now. -/
theorem Nested.mark_le (h : Nested p w₀ s saved) : ∀ m ∈ s.1.frames, m ≤ s.1.entries.length := by
  induction h with
  | start => exact fun m hm => absurd hm List.not_mem_nil
  | push _ ih =>
    intro m hm
    rcases List.mem_cons.1 hm with rfl | hm
    · exact Nat.le_refl _
    · exact ih m hm
  | apply _ _ ih =>
    rw [PartialWiring.apply_eq]
    exact fun m hm => Nat.le_succ_of_le (ih m hm)

/-- A frame that is opened and closed leaves nothing behind. -/
theorem backtrack_pushFrame (t : Trail) (w : PartialWiring) : t.pushFrame.backtrack w = (t, w) := by
  simp only [pushFrame, backtrack, Nat.sub_self, undoMany]

/-- Taking a frame back begins with its last choice. -/
theorem Nested.backtrack_apply (hp : p.IsProper) (hw₀ : w₀.IsTidy p) (h : Nested p w₀ s saved)
    {c : Choice} (hc : s.2.Permits p c) (hne : s.1.frames ≠ []) :
    (s.1.apply p s.2 c).1.backtrack (s.1.apply p s.2 c).2 = s.1.backtrack s.2 := by
  obtain ⟨mark, frames, hframes⟩ := List.exists_cons_of_ne_nil hne
  have hmark : mark ≤ s.1.entries.length := h.mark_le mark (hframes ▸ List.mem_cons_self)
  rw [PartialWiring.apply_eq]
  simp only [backtrack, hframes, List.length_cons, Nat.succ_sub hmark, undoMany,
    (h.isTidy hp hw₀).undo_entryOf hp hc]

/-- Without a frame nothing is taken back; else the state at which the last frame was opened comes
back, with the frames that were open then. -/
theorem Nested.backtrack (hp : p.IsProper) (hw₀ : w₀.IsTidy p) (h : Nested p w₀ s saved) :
    (saved = [] → s.1.backtrack s.2 = s) ∧
    ∀ s' rest, saved = s' :: rest → s.1.backtrack s.2 = s' ∧ Nested p w₀ s' rest := by
  induction h with
  | start => exact ⟨fun _ => rfl, fun _ _ hsaved => nomatch hsaved⟩
  | push h =>
    refine ⟨(nomatch ·), fun s' rest hsaved => ?_⟩
    cases hsaved
    exact ⟨backtrack_pushFrame _ _, h⟩
  | @apply s saved c h hc ih =>
    constructor
    · intro hsaved
      have hframes : s.1.frames = [] := by
        rw [← List.length_eq_zero_iff, h.length_frames, hsaved, List.length_nil]
      rw [PartialWiring.apply_eq]
      simp only [Trail.backtrack, hframes]
    · intro s' rest hsaved
      have hne : s.1.frames ≠ [] := by
        rw [← List.length_pos_iff, h.length_frames, hsaved]
        exact Nat.zero_lt_succ _
      rw [h.backtrack_apply hp hw₀ hc hne]
      exact ih.2 s' rest hsaved

/-- Taking every choice back gives the state before the first one. -/
theorem Nested.clear (hp : p.IsProper) (hw₀ : w₀.IsTidy p) (h : Nested p w₀ s saved) :
    s.1.clear s.2 = ({}, w₀) := by
  induction h with
  | start => rfl
  | push _ ih => exact ih
  | apply h hc ih =>
    rw [PartialWiring.apply_eq]
    simp only [Trail.clear, List.length_cons, undoMany, (h.isTidy hp hw₀).undo_entryOf hp hc]
    exact ih

/-- However calls are nested, each open frame is one that they opened, at the state that the calls
before it lead to. -/
theorem nested_run (hp : p.IsProper) (hw₀ : w₀.IsTidy p) {calls : List TrailCall}
    (h : IsPermitted p w₀ calls) : Nested p w₀ (run p w₀ calls)
      ((TrailCall.openFrames calls).map fun i => run p w₀ (calls.take i)) := by
  induction calls using List.reverseRecOn with
  | nil => exact .start
  | append_singleton calls c ih =>
    obtain ⟨hcalls, hc⟩ := isPermitted_concat h
    have ih := ih hcalls
    have hsaved : ((TrailCall.openFrames calls).map fun i => run p w₀ ((calls ++ [c]).take i)) =
        (TrailCall.openFrames calls).map fun i => run p w₀ (calls.take i) := by
      refine List.map_congr_left fun i hi => ?_
      obtain ⟨hlt, -⟩ := List.getElem?_eq_some_iff.1 (TrailCall.getElem?_of_mem_openFrames i hi)
      rw [List.take_append_of_le_length hlt.le]
    rw [run_concat, TrailCall.openFrames_concat]
    cases c with
    | pushFrame =>
      rw [TrailCall.frame, List.map_cons, hsaved, List.take_left]
      exact ih.push
    | apply c =>
      rw [TrailCall.frame, hsaved]
      exact ih.apply hc
    | backtrack =>
      rw [TrailCall.frame, List.map_tail, hsaved]
      obtain ⟨hnone, hsome⟩ := ih.backtrack hp hw₀
      rw [TrailCall.perform]
      cases hframes : (TrailCall.openFrames calls).map fun i => run p w₀ (calls.take i) with
      | nil =>
        rw [hnone hframes]
        rwa [hframes] at ih
      | cons s' rest =>
        obtain ⟨heq, hnested⟩ := hsome s' rest hframes
        rw [heq]
        exact hnested

end Nested

/-! ### Taking back -/

/-- A partial wiring that choices which can be taken back lead to. -/
inductive Arises (p : WiringProblem) : PartialWiring → Prop
  | fresh : Arises p (.ofProblem p)
  | choose {w : PartialWiring} {c : Choice} (h : Arises p w) (hc : w.Permits p c) :
    Arises p (w.after p c)

theorem Arises.isTidy {p : WiringProblem} (hp : p.IsProper) {w : PartialWiring}
    (h : Arises p w) : w.IsTidy p := by
  induction h with
  | fresh => exact PartialWiring.isTidy_ofProblem p
  | choose _ hc ih => exact ih.after hp hc

/-- Whatever calls were made, taking a frame back gives the trail and the partial wiring as they
were before the call that opened it; without a frame it changes nothing, and taking everything back
gives the partial wiring at the start. -/
theorem backtrack_run {p : WiringProblem} (hp : p.IsDrafted) {w₀ : PartialWiring}
    (hw₀ : Arises p w₀) {calls : List TrailCall} (h : IsPermitted p w₀ calls) :
    (∀ i frames, TrailCall.openFrames calls = i :: frames →
      calls[i]? = some .pushFrame ∧
      (run p w₀ calls).1.backtrack (run p w₀ calls).2 = run p w₀ (calls.take i)) ∧
    (TrailCall.openFrames calls = [] →
      (run p w₀ calls).1.backtrack (run p w₀ calls).2 = run p w₀ calls) ∧
    (run p w₀ calls).1.clear (run p w₀ calls).2 = ({}, w₀) := by
  have htidy := hw₀.isTidy hp.isProper
  have hnested := nested_run hp.isProper htidy h
  obtain ⟨hnone, hsome⟩ := hnested.backtrack hp.isProper htidy
  refine ⟨fun i frames hframes => ⟨?_, ?_⟩, fun hframes => ?_, hnested.clear hp.isProper htidy⟩
  · exact TrailCall.getElem?_of_mem_openFrames i (hframes ▸ List.mem_cons_self)
  · rw [hframes, List.map_cons] at hsome
    exact (hsome _ _ rfl).1
  · rw [hframes, List.map_nil] at hnone
    exact hnone rfl

/-- Two rovers are plugged into each other both ways, so that the second wire merges nothing, and
the dock is left alone. -/
def mutualCalls : List TrailCall :=
  [.pushFrame, .apply ⟨1, some 4⟩, .pushFrame, .apply ⟨3, some 2⟩, .apply ⟨0, none⟩]

theorem backtrack_run_mutualCalls : WiringDraft.ofCalls evenRovers = .ok evenDraft ∧
    IsPermitted evenDraft.build (.ofProblem evenDraft.build) mutualCalls ∧
    (run evenDraft.build (.ofProblem evenDraft.build) mutualCalls).1.backtrack
      (run evenDraft.build (.ofProblem evenDraft.build) mutualCalls).2 =
      run evenDraft.build (.ofProblem evenDraft.build) [.pushFrame, .apply ⟨1, some 4⟩] ∧
    (run evenDraft.build (.ofProblem evenDraft.build) mutualCalls).1.clear
      (run evenDraft.build (.ofProblem evenDraft.build) mutualCalls).2 =
      ({}, .ofProblem evenDraft.build) := by
  have hdraft : WiringDraft.ofCalls evenRovers = .ok evenDraft := by decide +kernel
  have hpermitted : IsPermitted evenDraft.build (.ofProblem evenDraft.build) mutualCalls := by
    decide +kernel
  obtain ⟨hback, -, hclear⟩ := backtrack_run (.ofCalls hdraft) .fresh hpermitted
  exact ⟨hdraft, hpermitted, (hback 2 [0] rfl).2, hclear⟩

end Trail
end Muster
