import Muster.Proofs.Wiring.Branching
import Muster.Proofs.Wiring.Draft

/-!
Endpoints told apart by owner, type and rank. The rank of an endpoint counts the earlier ones of its
owner and type, so owner, type and rank decide an endpoint and every rank below the number of
endpoints of an owner and a type is taken. If two instances have as many endpoints of each type then
exchanging endpoints of the same rank exchanges the instances.

Main statements: `exists_rank_eq`, `rank_inj`, `isUniform_of_countP_eq`, `Names.isUniform_build`.
-/

namespace Muster

section Rank

variable {α : Type} [BEq α] [LawfulBEq α] (f : Nat → α)

/-- The number of earlier positions with the same value. -/
def rank (x : Nat) : Nat := (List.range x).countP (f · == f x)

theorem countP_range_succ (P : Nat → Bool) (n : Nat) :
    (List.range (n + 1)).countP P = (List.range n).countP P + if P n then 1 else 0 := by
  rw [List.range_succ, List.countP_append, List.countP_singleton]

theorem countP_range_mono (P : Nat → Bool) {m n : Nat} (h : m ≤ n) :
    (List.range m).countP P ≤ (List.range n).countP P :=
  (List.range_sublist.2 h).countP_le

theorem rank_lt {x n : Nat} (h : x < n) : rank f x < (List.range n).countP (f · == f x) := by
  refine lt_of_lt_of_le ?_ (countP_range_mono _ h)
  rw [countP_range_succ, if_pos (beq_self_eq_true _)]
  exact Nat.lt_succ_self _

/-- A value and a rank decide a position. -/
theorem rank_inj {x y : Nat} (h : f x = f y) (hrank : rank f x = rank f y) : x = y := by
  rcases Nat.lt_trichotomy x y with hlt | heq | hlt
  · have := rank_lt f hlt
    rw [h, hrank] at this
    exact absurd this (Nat.lt_irrefl _)
  · exact heq
  · have := rank_lt f hlt
    rw [← h, ← hrank] at this
    exact absurd this (Nat.lt_irrefl _)

/-- Every rank below the number of positions with a value is taken. -/
theorem exists_rank_eq (a : α) : ∀ {n k : Nat}, k < (List.range n).countP (f · == a) →
    ∃ x < n, f x = a ∧ rank f x = k
  | 0, k, h => by simp at h
  | n + 1, k, h => by
    rw [countP_range_succ] at h
    by_cases hk : k < (List.range n).countP (f · == a)
    · obtain ⟨x, hx, hfx⟩ := exists_rank_eq a hk
      exact ⟨x, Nat.lt_succ_of_lt hx, hfx⟩
    · split at h
      · rename_i hn
        have hfn := beq_iff_eq.1 hn
        refine ⟨n, Nat.lt_succ_self n, hfn, ?_⟩
        rw [rank, hfn]
        omega
      · omega

end Rank

namespace WiringProblem

/-- The owner and the type of an endpoint. -/
def placeOf (p : WiringProblem) (e : Nat) : Nat × Model := (p.ownerOf e, p.typeModelOf e)

/-- If instances of one model have as many endpoints of each type then they can be exchanged. -/
theorem isUniform_of_countP_eq {p : WiringProblem}
    (htypes : ∀ e < p.endpointCount, ∀ f < p.endpointCount, p.typeModelOf e = p.typeModelOf f →
      p.typeOf e = p.typeOf f)
    (hcount : ∀ i < p.instanceCount, ∀ j < p.instanceCount,
      (p.instanceAt i).modelNumber = (p.instanceAt j).modelNumber → ∀ t,
      (List.range p.endpointCount).countP (p.placeOf · == (i, t)) =
        (List.range p.endpointCount).countP (p.placeOf · == (j, t))) : p.IsUniform := by
  intro i hi j hj hmodel
  have hswap : ∀ k t, (List.range p.endpointCount).countP (p.placeOf · == (Equiv.swap i j k, t)) =
      (List.range p.endpointCount).countP (p.placeOf · == (k, t)) := by
    intro k t
    rcases swap_cases i j k with h | ⟨rfl, h⟩ | ⟨rfl, h⟩ <;> rw [h]
    · exact (hcount _ hi _ hj hmodel t).symm
    · exact hcount _ hi _ hj hmodel t
  have hmove : ∀ e, ∃ f, e < p.endpointCount → f < p.endpointCount ∧
      p.placeOf f = (Equiv.swap i j (p.ownerOf e), p.typeModelOf e) ∧
      rank p.placeOf f = rank p.placeOf e := by
    intro e
    by_cases he : e < p.endpointCount
    · have hlt : rank p.placeOf e < (List.range p.endpointCount).countP
          (p.placeOf · == (Equiv.swap i j (p.ownerOf e), p.typeModelOf e)) := by
        rw [hswap]
        exact rank_lt p.placeOf he
      obtain ⟨f, hf⟩ := exists_rank_eq p.placeOf _ hlt
      exact ⟨f, fun _ => hf⟩
    · exact ⟨0, fun h => absurd h he⟩
  choose g hg using hmove
  have howner : ∀ e < p.endpointCount, p.ownerOf (g e) = Equiv.swap i j (p.ownerOf e) :=
    fun e he => congrArg Prod.fst (hg e he).2.1
  have htype : ∀ e < p.endpointCount, p.typeModelOf (g e) = p.typeModelOf e :=
    fun e he => congrArg Prod.snd (hg e he).2.1
  refine ⟨g, ⟨fun e he => (hg e he).1, fun e he => ?_, howner,
    fun e he => htypes _ (hg e he).1 _ he (htype e he), fun k hk => ?_,
    Equiv.swap_apply_self i j⟩, fun e he hei hej => ?_⟩
  · obtain ⟨hlt, -, hrank⟩ := hg e he
    obtain ⟨-, hplace', hrank'⟩ := hg (g e) hlt
    refine rank_inj p.placeOf ?_ (hrank'.trans hrank)
    rw [hplace', howner e he, htype e he, Equiv.swap_apply_self]
    rfl
  · rcases swap_cases i j k with h | ⟨-, h⟩ | ⟨-, h⟩ <;> rw [h] <;> assumption
  · obtain ⟨-, hplace, hrank⟩ := hg e he
    refine rank_inj p.placeOf ?_ hrank
    rw [hplace, Equiv.swap_apply_of_ne_of_ne hei hej]
    rfl

end WiringProblem

/-- If instances of one model are named with as many endpoints of each type then they can be
exchanged. -/
theorem WiringDraft.Names.isUniform_build {d : WiringDraft} {ms : List Model}
    {es : List (Nat × Model)} (h : d.Names ms es)
    (heven : ∀ i j m, ms[i]? = some m → ms[j]? = some m → ∀ t, es.count (i, t) = es.count (j, t)) :
    d.build.IsUniform := by
  have hcount : ∀ i t, (List.range d.build.endpointCount).countP (d.build.placeOf · == (i, t)) =
      es.count (i, t) := by
    intro i t
    rw [h.endpoints_eq, List.count_eq_countP, List.countP_map]
    rfl
  refine WiringProblem.isUniform_of_countP_eq (fun e he f hf heq => ?_)
    fun i hi j hj hmodel t => ?_
  · have hf := (h.getElem?_ends hf).2
    rw [← heq] at hf
    exact number_inj h.nodup_types (h.getElem?_ends he).2 hf
  · have hmodels := h.getElem?_models hi
    rw [hmodel, h.getElem?_models hj] at hmodels
    have hlt : i < ms.length := h.instanceCount_eq ▸ hi
    rw [hcount, hcount]
    exact heven i j _ (List.getElem?_eq_getElem hlt)
      (hmodels.trans (List.getElem?_eq_getElem hlt)) t

end Muster
