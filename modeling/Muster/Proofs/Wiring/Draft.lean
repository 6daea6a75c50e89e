import Mathlib.Data.List.Forall2
import Muster.Proofs.Wiring.Graph

/-!
Drafts of wiring problems. A draft numbers models and types as they come; what it is about is found
again through the numbers (`Names`), and the finished problem has those instances and endpoints, in
order, and no others.

Main statements: `Names.addInstance`, `Names.addEndpoint`, `Names.endpoints_eq`,
`Names.instances_eq`, `Names.isProper_build`.
-/

namespace Muster

theorem forall₂_concat {α β : Type} {r : α → β → Prop} {xs : List α} {ys : List β} {x : α} {y : β}
    (h : List.Forall₂ r xs ys) (hxy : r x y) : List.Forall₂ r (xs ++ [x]) (ys ++ [y]) :=
  List.rel_append h (.cons hxy .nil)

theorem count_eq_of_forall₂ {α β : Type} [DecidableEq α] [DecidableEq β] {r : α → β → Prop}
    (hr : ∀ {x y x' y'}, r x y → r x' y' → (x = x' ↔ y = y')) {x : α} {y : β} (hxy : r x y) :
    ∀ {xs : List α} {ys : List β}, List.Forall₂ r xs ys → xs.count x = ys.count y
  | _, _, .nil => rfl
  | _, _, .cons hx h => by
    rw [List.count_cons, List.count_cons, count_eq_of_forall₂ hr hxy h]
    simp only [beq_iff_eq, hr hx hxy]

namespace WiringDraft

/-! ### Numbering -/

section Intern

variable (ms : Array Model) (m : Model)

theorem intern_cases : (∃ i, ms[i]? = some m ∧ intern ms m = (i, ms)) ∨
    (m ∉ ms ∧ intern ms m = (ms.size, ms.push m)) := by
  rw [intern]
  cases hidx : ms.idxOf? m with
  | none => exact .inr ⟨Array.idxOf?_eq_none_iff.1 hidx, rfl⟩
  | some i =>
    refine .inl ⟨i, ?_, rfl⟩
    have hlist : ms.toList.idxOf? m = some i := by
      rw [← List.idxOf?_toArray, Array.toArray_toList, hidx]
    obtain ⟨h, hget, -⟩ := List.idxOf?_eq_some_iff.1 hlist
    rw [← Array.getElem?_toList, List.getElem?_eq_getElem h, hget]

theorem getElem?_intern : (intern ms m).2[(intern ms m).1]? = some m := by
  rcases intern_cases ms m with ⟨i, hi, h⟩ | ⟨-, h⟩ <;> rw [h]
  · exact hi
  · exact Array.getElem?_push_size

theorem getElem?_intern_of {i : Nat} {x : Model} (h : ms[i]? = some x) :
    (intern ms m).2[i]? = some x := by
  rcases intern_cases ms m with ⟨_, -, hm⟩ | ⟨-, hm⟩ <;> rw [hm]
  · exact h
  · rw [Array.getElem?_push, if_neg, h]
    rintro rfl
    simp at h

theorem nodup_intern (h : ms.toList.Nodup) : (intern ms m).2.toList.Nodup := by
  rcases intern_cases ms m with ⟨_, -, hm⟩ | ⟨hnot, hm⟩ <;> rw [hm]
  · exact h
  · rw [Array.toList_push, ← List.concat_eq_append]
    exact h.concat fun hmem => hnot (Array.mem_toList_iff.1 hmem)

end Intern

theorem number_inj {ms : Array Model} (h : ms.toList.Nodup) {i j : Nat} {x : Model}
    (hi : ms[i]? = some x) (hj : ms[j]? = some x) : i = j := by
  rw [← Array.getElem?_toList] at hi hj
  obtain ⟨hlt, -⟩ := List.getElem?_eq_some_iff.1 hi
  exact (List.getElem?_inj hlt h).1 (hi.trans hj.symm)

theorem getElem?_types_addCompatible {d : WiringDraft} {a b : Model} {i : Nat} {x : Model}
    (hi : d.types[i]? = some x) : (d.addCompatible a b).types[i]? = some x :=
  getElem?_intern_of _ _ (getElem?_intern_of _ _ hi)

/-- A draft has instances of the models `ms` and the endpoints `es`, given by owner and type. -/
structure Names (d : WiringDraft) (ms : List Model) (es : List (Nat × Model)) : Prop where
  nodup_models : d.models.toList.Nodup
  nodup_types : d.types.toList.Nodup
  models : List.Forall₂ (fun i m => d.models[i]? = some m) d.instanceModels.toList ms
  ends : List.Forall₂ (fun e c => e.1 = c.1 ∧ d.types[e.2]? = some c.2) d.ends.toList es
  owner_lt : ∀ e ∈ d.ends, e.1 < d.instanceModels.size

theorem names_empty : Names {} [] [] := ⟨.nil, .nil, .nil, .nil, fun e he => by simp at he⟩

section Add

variable {d : WiringDraft} {ms : List Model} {es : List (Nat × Model)} (h : d.Names ms es)
include h

theorem Names.addInstance (m : Model) : (d.addInstance m).Names (ms ++ [m]) es where
  nodup_models := nodup_intern _ _ h.nodup_models
  nodup_types := h.nodup_types
  models := by
    rw [WiringDraft.addInstance, Array.toList_push]
    exact forall₂_concat (h.models.imp fun _ _ => getElem?_intern_of _ _) (getElem?_intern _ _)
  ends := h.ends
  owner_lt e he := by
    rw [WiringDraft.addInstance, Array.size_push]
    exact Nat.lt_succ_of_lt (h.owner_lt e he)

theorem Names.addEndpoint {owner : Nat} {type : Model} {d' : WiringDraft}
    (hd' : d.addEndpoint owner type = .ok d') : d'.Names ms (es ++ [(owner, type)]) := by
  rw [WiringDraft.addEndpoint] at hd'
  split at hd'
  · rename_i howner
    cases hd'
    refine ⟨h.nodup_models, nodup_intern _ _ h.nodup_types, h.models, ?_, fun e he => ?_⟩
    · rw [Array.toList_push]
      exact forall₂_concat (h.ends.imp fun _ _ he => ⟨he.1, getElem?_intern_of _ _ he.2⟩)
        ⟨rfl, getElem?_intern _ _⟩
    · rcases Array.mem_push.1 he with he | rfl
      · exact h.owner_lt e he
      · exact howner
  · cases hd'

theorem Names.addCompatible (a b : Model) : (d.addCompatible a b).Names ms es where
  nodup_models := h.nodup_models
  nodup_types := nodup_intern _ _ (nodup_intern _ _ h.nodup_types)
  models := h.models
  ends := h.ends.imp fun _ _ he => ⟨he.1, getElem?_types_addCompatible he.2⟩
  owner_lt := h.owner_lt

end Add

/-! ### The finished problem -/

/-- The nodes of instances: each with its number among those of its model. -/
def nodesOf (ms : List Model) : List ConnectionNode :=
  ms.zipIdx.map fun (m, i) => ⟨m, (ms.take i).count m⟩

section Build

variable {d : WiringDraft} {ms : List Model} {es : List (Nat × Model)} (h : d.Names ms es)
include h

theorem Names.isProper_build : d.build.IsProper := WiringDraft.isProper_build h.owner_lt

theorem Names.endpointCount_eq : d.build.endpointCount = es.length := by
  rw [endpointCount_build, ← Array.length_toList, h.ends.length_eq]

theorem Names.instanceCount_eq : d.build.instanceCount = ms.length := by
  rw [instanceCount_build, ← Array.length_toList, h.models.length_eq]

/-- The endpoints of the problem have the owners and types that are named. -/
theorem Names.getElem?_ends {e : Nat} (he : e < d.build.endpointCount) :
    es[e]? = some (d.build.ownerOf e, d.build.typeModelOf e) ∧
    d.types[d.build.typeOf e]? = some (d.build.typeModelOf e) := by
  have he' : e < d.ends.size := by rwa [endpointCount_build] at he
  have hlt : e < es.length := h.endpointCount_eq ▸ he
  obtain ⟨howner, htype⟩ := (List.forall₂_iff_get.1 h.ends).2 e (by simpa using he') hlt
  simp only [List.get_eq_getElem, Array.getElem_toList] at howner htype
  have hmodel : d.build.typeModelOf e = es[e].2 := by
    rw [WiringProblem.typeModelOf, typeOf_build d he']
    show d.types.getD d.ends[e].2 default = _
    rw [Array.getD_eq_getD_getElem?, htype, Option.getD_some]
  rw [hmodel, List.getElem?_eq_getElem hlt, ownerOf_build d he', howner, typeOf_build d he']
  exact ⟨rfl, htype⟩

theorem Names.endpoints_eq : es =
    (List.range d.build.endpointCount).map fun e => (d.build.ownerOf e, d.build.typeModelOf e) := by
  refine List.ext_getElem? fun e => ?_
  by_cases he : e < d.build.endpointCount
  · rw [(h.getElem?_ends he).1, List.getElem?_map, List.getElem?_range he, Option.map_some]
  · rw [List.getElem?_eq_none (h.endpointCount_eq ▸ Nat.le_of_not_lt he),
      List.getElem?_eq_none (by simpa using he)]

/-- The model number of an instance is the number of its model. -/
theorem Names.getElem?_models {i : Nat} (hi : i < d.build.instanceCount) :
    d.models[(d.build.instanceAt i).modelNumber]? = ms[i]? := by
  have hlt : i < d.instanceModels.size := by rwa [instanceCount_build] at hi
  have hlt' : i < ms.length := h.instanceCount_eq ▸ hi
  have hmodel := (List.forall₂_iff_get.1 h.models).2 i (by simpa using hlt) hlt'
  simp only [List.get_eq_getElem, Array.getElem_toList] at hmodel
  have hnumber : (d.build.instanceAt i).modelNumber = d.instanceModels[i] := by
    simp [build, WiringProblem.instanceAt, hlt]
  rw [hnumber, hmodel, List.getElem?_eq_getElem hlt']

/-- The instances of the problem are those that are named, in order. -/
theorem Names.instances_eq :
    (d.build.instances.toList.map fun i => (⟨i.model, i.ordinal⟩ : ConnectionNode)) =
      nodesOf ms := by
  have hlength := h.models.length_eq
  refine List.ext_getElem (by simp [build, nodesOf, ← hlength]) fun i h1 h2 => ?_
  have hi : i < d.instanceModels.size := by simpa [build] using h1
  have hi' : i < ms.length := by simpa [nodesOf] using h2
  have hmodel := (List.forall₂_iff_get.1 h.models).2 i (by simpa using hi) hi'
  simp only [List.get_eq_getElem, Array.getElem_toList] at hmodel
  have hcount := count_eq_of_forall₂ (r := fun i m => d.models[i]? = some m)
    (fun {x y x' y'} hx hx' => ⟨fun heq => ?_, fun heq => ?_⟩) hmodel (List.forall₂_take i h.models)
  · simp only [build, nodesOf, List.getElem_map, List.getElem_zipIdx, Array.getElem_toList,
      ConnectionNode.mk.injEq, Nat.zero_add]
    refine ⟨?_, ?_⟩
    · rw [Array.getD_eq_getD_getElem?, hmodel, Option.getD_some]
    · rw [ordinalOf, Array.getD_eq_getD_getElem?, Array.getElem?_eq_getElem hi, Option.getD_some]
      exact hcount
  · rw [heq, hx'] at hx
    exact (Option.some.inj hx).symm
  · rw [heq] at hx
    exact number_inj h.nodup_models hx hx'

end Build

end WiringDraft
end Muster
