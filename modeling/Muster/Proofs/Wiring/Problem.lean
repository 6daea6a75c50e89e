import Mathlib.Logic.Relation
import Mathlib.Tactic
import Muster.Wiring.Partial

/-!
What a wiring of a problem is, said without any search: a list of pairs of endpoints that fit, no
endpoint used twice. It is connected if the pairs link all instances.

`WiringProblem.IsProper` is what every finished problem satisfies: owners are in range, and the
candidates of an endpoint are the endpoints of other instances that have a compatible type.

Main statements: `isProper_build`, `IsProper.mem_candidates_swap`.
-/

namespace Muster

/-- The ends that a list of pairs uses. -/
def endsOf {α : Type} (wires : List (α × α)) : List α := wires.flatMap fun q => [q.1, q.2]

section Ends

variable {α β : Type}

@[simp] theorem endsOf_cons (q : α × α) (wires : List (α × α)) :
    endsOf (q :: wires) = q.1 :: q.2 :: endsOf wires := rfl

theorem mem_endsOf {wires : List (α × α)} {x : α} :
    x ∈ endsOf wires ↔ ∃ q ∈ wires, x = q.1 ∨ x = q.2 := by
  simp [endsOf]

theorem endsOf_map (g : α → β) (wires : List (α × α)) :
    endsOf (wires.map fun q => (g q.1, g q.2)) = (endsOf wires).map g := by
  simp [endsOf, List.flatMap_map, List.map_flatMap]

theorem endsOf_sublist {wires wires' : List (α × α)} (h : wires.Sublist wires') :
    (endsOf wires).Sublist (endsOf wires') := by
  induction h with
  | slnil => exact .slnil
  | cons q _ ih => exact (ih.cons _).cons _
  | cons_cons q _ ih => exact (ih.cons_cons _).cons_cons _

theorem endsOf_perm {wires wires' : List (α × α)} (h : wires.Perm wires') :
    (endsOf wires).Perm (endsOf wires') := h.flatMap_right _

theorem length_endsOf (wires : List (α × α)) : (endsOf wires).length = 2 * wires.length := by
  induction wires with
  | nil => rfl
  | cons q rest ih =>
    rw [endsOf_cons, List.length_cons, List.length_cons, List.length_cons, ih]
    omega

theorem countP_endsOf (P : α → Bool) (wires : List (α × α)) :
    (endsOf wires).countP P = wires.countP (fun q => P q.1) + wires.countP (fun q => P q.2) := by
  induction wires with
  | nil => rfl
  | cons q rest ih =>
    simp only [endsOf_cons, List.countP_cons, ih]
    omega

end Ends

namespace WiringProblem

/-- What the search relies on in a problem. -/
structure IsProper (p : WiringProblem) : Prop where
  ownerOf_lt : ∀ e < p.endpointCount, p.ownerOf e < p.instanceCount
  nodup_candidates : ∀ e, (p.candidates e).Nodup
  mem_candidates : ∀ e f, f ∈ p.candidates e ↔ e < p.endpointCount ∧ f < p.endpointCount ∧
    p.ownerOf f ≠ p.ownerOf e ∧ p.isCompatible (p.typeOf e) (p.typeOf f)

theorem isCompatible_comm (p : WiringProblem) (s t : Nat) :
    p.isCompatible s t = p.isCompatible t s := Bool.or_comm ..

theorem IsProper.mem_candidates_swap {p : WiringProblem} (hp : p.IsProper) {e f : Nat} :
    f ∈ p.candidates e ↔ e ∈ p.candidates f := by
  rw [hp.mem_candidates, hp.mem_candidates, p.isCompatible_comm (p.typeOf e)]
  constructor <;> rintro ⟨h1, h2, h3, h4⟩ <;> exact ⟨h2, h1, h3.symm, h4⟩

theorem IsProper.lt_of_mem_candidates {p : WiringProblem} (hp : p.IsProper) {e f : Nat}
    (h : f ∈ p.candidates e) : e < p.endpointCount ∧ f < p.endpointCount :=
  have h := (hp.mem_candidates e f).1 h
  ⟨h.1, h.2.1⟩

/-- Pairs of endpoints that fit, no endpoint used twice, that link all instances. -/
structure IsConnectedWiring (p : WiringProblem) (wires : List (Nat × Nat)) : Prop where
  fits : ∀ q ∈ wires, q.2 ∈ p.candidates q.1
  disjoint : (endsOf wires).Nodup
  connected : ∀ i < p.instanceCount, ∀ j < p.instanceCount,
    Relation.EqvGen (fun a b => ∃ q ∈ wires, p.ownerOf q.1 = a ∧ p.ownerOf q.2 = b) i j

end WiringProblem

namespace WiringDraft

open WiringProblem

@[simp] theorem endpointCount_build (d : WiringDraft) : d.build.endpointCount = d.ends.size := by
  simp [build, endpointCount]

@[simp] theorem instanceCount_build (d : WiringDraft) :
    d.build.instanceCount = d.instanceModels.size := by
  simp [build, instanceCount]

theorem ownerOf_build (d : WiringDraft) {e : Nat} (he : e < d.ends.size) :
    d.build.ownerOf e = d.ends[e].1 := by
  simp [build, ownerOf, he]

theorem typeOf_build (d : WiringDraft) {e : Nat} (he : e < d.ends.size) :
    d.build.typeOf e = d.ends[e].2 := by
  simp [build, typeOf, he]

theorem candidates_build (d : WiringDraft) {e : Nat} (he : e < d.ends.size) :
    d.build.candidates e = d.fitting d.ends[e] := by
  simp [build, candidates, he]

theorem mem_fitting (d : WiringDraft) (e : Nat × Nat) (f : Nat) :
    f ∈ d.fitting e ↔ ∃ h : f < d.ends.size,
      d.ends[f].1 ≠ e.1 ∧ pairListed d.compatible e.2 d.ends[f].2 := by
  simp only [fitting, List.mem_map, List.mem_filter, Prod.exists, exists_eq_right,
    List.mem_zipIdx_iff_getElem?, Array.getElem?_toList, Bool.and_eq_true, bne_iff_ne]
  constructor
  · rintro ⟨a, b, hab, h1, h2⟩
    obtain ⟨h, he⟩ := Array.getElem?_eq_some_iff.1 hab
    exact ⟨h, by rwa [he], by rwa [he]⟩
  · rintro ⟨h, h1, h2⟩
    exact ⟨_, _, Array.getElem?_eq_getElem h, h1, h2⟩

theorem nodup_fitting (d : WiringDraft) (e : Nat × Nat) : (d.fitting e).Nodup := by
  have hnodup : (d.ends.toList.zipIdx.map Prod.snd).Nodup := by
    rw [List.zipIdx_map_snd]
    exact List.nodup_range'
  exact hnodup.sublist (List.filter_sublist.map _)

/-- A finished draft whose endpoints belong to instances is a proper problem. -/
theorem isProper_build {d : WiringDraft} (hd : ∀ e ∈ d.ends, e.1 < d.instanceModels.size) :
    d.build.IsProper where
  ownerOf_lt e he := by
    rw [endpointCount_build] at he
    rw [ownerOf_build d he, instanceCount_build]
    exact hd _ (Array.getElem_mem he)
  nodup_candidates e := by
    by_cases he : e < d.ends.size
    · rw [candidates_build d he]
      exact nodup_fitting d _
    · have : d.build.candidates e = [] := by simp [build, candidates, he]; rfl
      rw [this]
      exact .nil
  mem_candidates e f := by
    rw [endpointCount_build]
    by_cases he : e < d.ends.size
    · rw [candidates_build d he, mem_fitting]
      constructor
      · rintro ⟨hf, h1, h2⟩
        rw [ownerOf_build d he, ownerOf_build d hf, typeOf_build d he, typeOf_build d hf]
        exact ⟨he, hf, h1, h2⟩
      · rintro ⟨-, hf, h1, h2⟩
        rw [ownerOf_build d he, ownerOf_build d hf] at h1
        rw [typeOf_build d he, typeOf_build d hf] at h2
        exact ⟨hf, h1, h2⟩
    · have : d.build.candidates e = [] := by simp [build, candidates, he]; rfl
      rw [this]
      simp [he]

end WiringDraft
end Muster
