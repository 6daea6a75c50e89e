import Mathlib.Tactic
import Muster.Catalog

/-!
The taxonomy of a catalog. What `reachable` finds from a model is what the declared steps lead to,
the model itself left out: what is known stays reachable, every known model that is not in the
frontier has its targets known, and a round without new models ends the search and leaves nothing
open. So being the same model or a subclass is reachability, and it is transitive.

Main statements: `settles_reachable`, `mem_reachable`, `isSameOrSubclassOf_iff`,
`CatalogDraft.isTransitive`.
-/

namespace Muster

open Std

namespace OrderedSet

variable {α β : Type} [Ord α]

theorem mem_foldl_union [TransOrd α] [LawfulEqOrd α] {f : β → OrderedSet α} {x : α}
    {bs : List β} {s : OrderedSet α} :
    x ∈ bs.foldl (fun u b => u ∪ f b) s ↔ x ∈ s ∨ ∃ b ∈ bs, x ∈ f b := by
  induction bs generalizing s with
  | nil => simp
  | cons b rest ih => rw [List.foldl_cons, ih, mem_union, List.exists_mem_cons_iff, or_assoc]

theorem nodup [ReflOrd α] (s : OrderedSet α) : s.toList.Nodup := by
  refine List.Pairwise.imp ?_ s.ascending
  rintro a b h rfl
  exact compare_self_ne_lt a h

theorem size_lt_of_mem [ReflOrd α] {s t : OrderedSet α} {x : α} (h : ∀ a ∈ s, a ∈ t) (hx : x ∈ t)
    (hnot : x ∉ s) : s.size < t.size := by
  have hnodup : (x :: s.toList).Nodup := List.nodup_cons.2 ⟨hnot, s.nodup⟩
  have hsub : x :: s.toList ⊆ t.toList := List.cons_subset.2 ⟨hx, h⟩
  exact (List.subperm_of_subset hnodup hsub).length_le

theorem size_le [ReflOrd α] {s t : OrderedSet α} (h : ∀ a ∈ s, a ∈ t) : s.size ≤ t.size :=
  (List.subperm_of_subset s.nodup h).length_le

end OrderedSet

namespace Edges

variable {e : Edges} {start : Model} {known frontier : OrderedSet Model}

/-- Whether the edges lead from one model to another, in any number of steps. -/
def Reaches (e : Edges) : Model → Model → Prop :=
  Relation.ReflTransGen fun m n => n ∈ e.targets m

theorem mem_fresh {n : Model} : n ∈ e.fresh start known frontier ↔
    (∃ m ∈ frontier, n ∈ e.targets m) ∧ n ≠ start ∧ n ∉ known := by
  rw [fresh, OrderedSet.mem_filter, OrderedSet.mem_foldl_union]
  simp only [OrderedSet.not_mem_empty, false_or, Bool.and_eq_true, bne_iff_ne,
    Bool.not_eq_true', List.contains_eq_mem, decide_eq_false_iff_not]
  rfl

theorem mem_allTargets {m n : Model} (h : n ∈ e.targets m) : n ∈ e.allTargets := by
  rw [allTargets, OrderedSet.mem_foldl_union]
  rw [targets] at h
  cases hm : e.get? m with
  | none =>
    rw [hm] at h
    exact absurd h (OrderedSet.not_mem_empty n)
  | some s =>
    rw [hm] at h
    exact .inr ⟨s, List.mem_map.2 ⟨(m, s), OrderedMap.get?_eq_some_iff.1 hm, rfl⟩, h⟩

/-- What a search knows has been reached, and only the targets of its frontier may be unknown. -/
structure IsSpread (e : Edges) (start : Model) (known frontier : OrderedSet Model) : Prop where
  reaches : ∀ m ∈ known, m ≠ start ∧ e.Reaches start m
  entered : ∀ m ∈ frontier, m = start ∨ m ∈ known
  closed : ∀ m, m = start ∨ m ∈ known → m ∉ frontier → ∀ n ∈ e.targets m, n = start ∨ n ∈ known

theorem isSpread_start (e : Edges) (start : Model) :
    IsSpread e start .empty (.singleton start) := by
  refine ⟨fun m hm => absurd hm (OrderedSet.not_mem_empty m), fun m hm => ?_, fun m hm hnot => ?_⟩
  · rw [OrderedSet.singleton, OrderedSet.mem_insert] at hm
    exact hm.imp_right fun h => absurd h (OrderedSet.not_mem_empty m)
  · rcases hm with rfl | hm
    · exact absurd (OrderedSet.mem_insert.2 (.inl rfl)) hnot
    · exact absurd hm (OrderedSet.not_mem_empty m)

theorem IsSpread.reaches_of_known (h : IsSpread e start known frontier) {m : Model}
    (hm : m = start ∨ m ∈ known) : e.Reaches start m := by
  rcases hm with rfl | hm
  · exact .refl
  · exact (h.reaches m hm).2

/-- One round. -/
theorem IsSpread.step (h : IsSpread e start known frontier) :
    IsSpread e start (known ∪ e.fresh start known frontier) (e.fresh start known frontier) := by
  refine ⟨fun m hm => ?_, fun m hm => .inr (OrderedSet.mem_union.2 (.inr hm)),
    fun m hm hnot n hn => ?_⟩
  · rcases OrderedSet.mem_union.1 hm with hm | hm
    · exact h.reaches m hm
    · obtain ⟨⟨k, hk, hmk⟩, hne, -⟩ := mem_fresh.1 hm
      exact ⟨hne, (h.reaches_of_known (h.entered k hk)).tail hmk⟩
  · rw [OrderedSet.mem_union]
    have hm' : m = start ∨ m ∈ known := hm.imp_right fun hm =>
      (OrderedSet.mem_union.1 hm).resolve_right hnot
    by_cases hmf : m ∈ frontier
    · by_cases hn' : n = start ∨ n ∈ known
      · exact hn'.imp_right .inl
      · exact .inr (.inr (mem_fresh.2
          ⟨⟨m, hmf, hn⟩, fun e => hn' (.inl e), fun e => hn' (.inr e)⟩))
    · exact (h.closed m hm' hmf n hn).imp_right .inl

theorem IsSpread.size_le (h : IsSpread e start known frontier) :
    known.size ≤ e.allTargets.size := by
  refine OrderedSet.size_le fun m hm => ?_
  obtain ⟨hne, hreach⟩ := h.reaches m hm
  rcases Relation.ReflTransGen.cases_tail hreach with heq | ⟨k, -, hk⟩
  · exact absurd heq hne
  · exact mem_allTargets hk

/-- A search goes on for as many rounds as find new models, and comes to an end with `found`. -/
inductive Settles (e : Edges) (start : Model) :
    OrderedSet Model → OrderedSet Model → OrderedSet Model → Prop
  | done {known frontier : OrderedSet Model}
      (h : (e.fresh start known frontier).isEmpty = true) : Settles e start known frontier known
  | round {known frontier found : OrderedSet Model}
      (h : (e.fresh start known frontier).isEmpty = false)
      (hnext : Settles e start (known ∪ e.fresh start known frontier)
        (e.fresh start known frontier) found) :
      Settles e start known frontier found

/-- At the end of a search nothing stays open. -/
theorem IsSpread.settled {found : OrderedSet Model} (hsettles : Settles e start known frontier found)
    (h : IsSpread e start known frontier) : IsSpread e start found .empty := by
  induction hsettles with
  | @done known frontier hempty =>
    have hnone := OrderedSet.isEmpty_iff.1 hempty
    refine ⟨h.reaches, fun m hm => absurd hm (OrderedSet.not_mem_empty m), fun m hm _ n hn => ?_⟩
    by_cases hmf : m ∈ frontier
    · by_contra hnot
      exact hnone n (mem_fresh.2
        ⟨⟨m, hmf, hn⟩, fun e => hnot (.inl e), fun e => hnot (.inr e)⟩)
    · exact h.closed m hm hmf n hn
  | round _ _ ih => exact ih h.step

/-- As many rounds as there are targets, and one more, bring a search to its end. -/
theorem settles_spread : ∀ {fuel : Nat} {known frontier : OrderedSet Model},
    IsSpread e start known frontier → e.allTargets.size < fuel + known.size →
    Settles e start known frontier (e.spread start fuel known frontier)
  | 0, known, frontier, h, hfuel => by
    have := h.size_le
    omega
  | fuel + 1, known, frontier, h, hfuel => by
    rw [spread]
    split
    · rename_i hempty
      exact .done hempty
    · rename_i hsome
      obtain ⟨x, hx⟩ : ∃ x, x ∈ e.fresh start known frontier := by
        by_contra hnone
        exact hsome (OrderedSet.isEmpty_iff.2 (not_exists.1 hnone))
      have hlt : known.size < (known ∪ e.fresh start known frontier).size :=
        OrderedSet.size_lt_of_mem (fun a ha => OrderedSet.mem_union.2 (.inl ha))
          (OrderedSet.mem_union.2 (.inr hx)) (mem_fresh.1 hx).2.2
      exact .round (Bool.eq_false_of_not_eq_true hsome) (settles_spread h.step (by omega))

theorem settles_reachable (e : Edges) (start : Model) :
    Settles e start .empty (.singleton start) (e.reachable start) :=
  settles_spread (isSpread_start e start) (by omega)

/-- Exactly the models that the edges lead to are found. -/
theorem mem_reachable {x : Model} : x ∈ e.reachable start ↔ x ≠ start ∧ e.Reaches start x := by
  have h : IsSpread e start (e.reachable start) .empty :=
    (isSpread_start e start).settled (settles_reachable e start)
  have hall : ∀ {y}, e.Reaches start y → y = start ∨ y ∈ e.reachable start := by
    intro y hreach
    induction hreach with
    | refl => exact .inl rfl
    | tail _ hn ih => exact h.closed _ ih (OrderedSet.not_mem_empty _) _ hn
  exact ⟨h.reaches x, fun hx => (hall hx.2).resolve_left hx.1⟩

theorem mem_targets_closure {m x : Model} :
    x ∈ e.closure.targets m ↔ x ≠ m ∧ e.Reaches m x := by
  rw [targets, closure, OrderedMap.get?_tabulate]
  split
  · exact mem_reachable
  · rename_i hkey
    refine ⟨fun h => absurd h (OrderedSet.not_mem_empty x), fun ⟨hne, hreach⟩ => ?_⟩
    -- a model that is no key points nowhere
    rcases Relation.ReflTransGen.cases_head hreach with heq | ⟨k, hk, -⟩
    · exact absurd heq.symm hne
    · rw [OrderedMap.mem_keys] at hkey
      rw [targets, Option.not_isSome_iff_eq_none.1 hkey] at hk
      exact absurd hk (OrderedSet.not_mem_empty k)

end Edges

namespace CatalogDraft

variable {d : CatalogDraft} {a b c : Model}

theorem isSubclassOf_iff :
    d.build.ontology.isSubclassOf a b = true ↔ b ≠ a ∧ d.parents.Reaches a b := by
  rw [← Edges.mem_targets_closure]
  exact List.contains_iff_mem

theorem isSameOrSubclassOf_iff :
    d.build.ontology.isSameOrSubclassOf a b = true ↔ d.parents.Reaches a b := by
  rw [Ontology.isSameOrSubclassOf, Bool.or_eq_true, beq_iff_eq, isSubclassOf_iff]
  constructor
  · rintro (rfl | ⟨-, h⟩)
    · exact .refl
    · exact h
  · intro h
    by_cases hab : a = b
    · exact .inl hab
    · exact .inr ⟨Ne.symm hab, h⟩

end CatalogDraft

/-- Whether a subclass of a subclass is a subclass, or the same model. -/
def Ontology.IsTransitive (o : Ontology) : Prop := ∀ {a b c}, o.isSameOrSubclassOf a b = true →
  o.isSameOrSubclassOf b c = true → o.isSameOrSubclassOf a c = true

/-- The taxonomy of a catalog is transitive, whatever was declared. -/
theorem CatalogDraft.isTransitive (d : CatalogDraft) : d.build.ontology.IsTransitive := by
  intro a b c hab hbc
  rw [isSameOrSubclassOf_iff] at hab hbc ⊢
  exact hab.trans hbc

end Muster
