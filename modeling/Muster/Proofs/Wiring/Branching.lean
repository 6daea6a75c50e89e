import Mathlib.Logic.Equiv.Basic
import Muster.Proofs.Wiring.Completion
import Muster.Wiring.Brancher

/-!
Branching loses nothing. At an endpoint that can still be wired a search tries to leave it
unconnected and one partner of each key. If the partial wiring can be completed then one of these
choices keeps that: a completion that wires the endpoint to another partner of the same key is taken
by a symmetry of the problem to one that wires it to the partner tried.

Two open endpoints of one instance and one type are exchanged by themselves; if nothing is decided
at two instances of one model, all their endpoints are exchanged, which is where instances of one
model have to have the same endpoints (`IsUniform`).

Main statements: `Completes.map`, `exists_completable_choice`, `branch_cases`.
-/

namespace Muster

open Relation (EqvGen)

namespace WiringProblem

/-- Exchanging endpoints by `g` and instances by `σ` leaves the problem as it is. -/
structure IsSymmetry (p : WiringProblem) (g σ : Nat → Nat) : Prop where
  lt : ∀ e < p.endpointCount, g e < p.endpointCount
  involutive : ∀ e < p.endpointCount, g (g e) = e
  ownerOf_eq : ∀ e < p.endpointCount, p.ownerOf (g e) = σ (p.ownerOf e)
  typeOf_eq : ∀ e < p.endpointCount, p.typeOf (g e) = p.typeOf e
  instance_lt : ∀ i < p.instanceCount, σ i < p.instanceCount
  instance_involutive : ∀ i, σ (σ i) = i

/-- Instances of one model can be exchanged, with nothing else moved. -/
def IsUniform (p : WiringProblem) : Prop :=
  ∀ i < p.instanceCount, ∀ j < p.instanceCount,
    (p.instanceAt i).modelNumber = (p.instanceAt j).modelNumber →
    ∃ g, p.IsSymmetry g (Equiv.swap i j) ∧
      ∀ e < p.endpointCount, p.ownerOf e ≠ i → p.ownerOf e ≠ j → g e = e

theorem IsSymmetry.mem_candidates {p : WiringProblem} {g σ : Nat → Nat} (hg : p.IsSymmetry g σ)
    (hp : p.IsProper) {e f : Nat} (h : f ∈ p.candidates e) : g f ∈ p.candidates (g e) := by
  obtain ⟨he, hf, howner, htype⟩ := (hp.mem_candidates e f).1 h
  refine (hp.mem_candidates _ _).2 ⟨hg.lt e he, hg.lt f hf, ?_, ?_⟩
  · rw [hg.ownerOf_eq e he, hg.ownerOf_eq f hf]
    intro heq
    exact howner (by rw [← hg.instance_involutive (p.ownerOf f), heq, hg.instance_involutive])
  · rwa [hg.typeOf_eq e he, hg.typeOf_eq f hf]

theorem swap_cases (a b x : Nat) : Equiv.swap a b x = x ∨ (x = a ∧ Equiv.swap a b x = b) ∨
    (x = b ∧ Equiv.swap a b x = a) := by
  by_cases hxa : x = a
  · exact .inr (.inl ⟨hxa, hxa ▸ Equiv.swap_apply_left _ _⟩)
  · by_cases hxb : x = b
    · exact .inr (.inr ⟨hxb, hxb ▸ Equiv.swap_apply_right _ _⟩)
    · exact .inl (Equiv.swap_apply_of_ne_of_ne hxa hxb)

/-- Two endpoints of one instance and one type can be exchanged. -/
theorem isSymmetry_swap {p : WiringProblem} {a b : Nat} (ha : a < p.endpointCount)
    (hb : b < p.endpointCount) (howner : p.ownerOf a = p.ownerOf b)
    (htype : p.typeOf a = p.typeOf b) : p.IsSymmetry (Equiv.swap a b) id where
  lt e he := by
    rcases swap_cases a b e with h | ⟨-, h⟩ | ⟨-, h⟩ <;> rw [h] <;> assumption
  involutive e _ := Equiv.swap_apply_self a b e
  ownerOf_eq e _ := by
    rcases swap_cases a b e with h | ⟨rfl, h⟩ | ⟨rfl, h⟩ <;> rw [h, id]
    · exact howner.symm
    · exact howner
  typeOf_eq e _ := by
    rcases swap_cases a b e with h | ⟨rfl, h⟩ | ⟨rfl, h⟩ <;> rw [h]
    · exact htype.symm
    · exact htype
  instance_lt _ hi := hi
  instance_involutive _ := rfl

end WiringProblem

namespace PartialWiring

/-! ### Completions under a symmetry -/

theorem lt_of_mem_endsOf {w : PartialWiring} {p : WiringProblem} (hp : p.IsProper)
    {rest : List (Nat × Nat)} (h : w.Completes p rest) {x : Nat} (hx : x ∈ endsOf rest) :
    x < p.endpointCount := by
  obtain ⟨q, hq, rfl | rfl⟩ := mem_endsOf.1 hx
  · exact (hp.lt_of_mem_candidates (h.fits q hq)).1
  · exact (hp.lt_of_mem_candidates (h.fits q hq)).2

/-- A symmetry that respects what is open and what is linked takes completions to completions. -/
theorem Completes.map {w : PartialWiring} {p : WiringProblem} {rest : List (Nat × Nat)}
    (h : w.Completes p rest) (hp : p.IsProper) {g σ : Nat → Nat} (hg : p.IsSymmetry g σ)
    (hopen : ∀ x < p.endpointCount, w.isOpen x → w.isOpen (g x))
    (hlinked : ∀ i j, w.componentOf i = w.componentOf j →
      w.componentOf (σ i) = w.componentOf (σ j)) :
    w.Completes p (rest.map fun q => (g q.1, g q.2)) where
  fits r hr := by
    obtain ⟨q, hq, rfl⟩ := List.mem_map.1 hr
    exact hg.mem_candidates hp (h.fits q hq)
  isOpen y hy := by
    rw [endsOf_map] at hy
    obtain ⟨x, hx, rfl⟩ := List.mem_map.1 hy
    exact hopen x (lt_of_mem_endsOf hp h hx) (h.isOpen x hx)
  disjoint := by
    rw [endsOf_map]
    refine h.disjoint.map_on fun x hx y hy hxy => ?_
    rw [← hg.involutive x (lt_of_mem_endsOf hp h hx), hxy,
      hg.involutive y (lt_of_mem_endsOf hp h hy)]
  connected i hi j hj := by
    rw [← hg.instance_involutive i, ← hg.instance_involutive j]
    refine eqvGen_map (g := σ) (fun a b hab => .rel _ _ ?_)
      (h.connected _ (hg.instance_lt i hi) _ (hg.instance_lt j hj))
    rcases hab with hab | ⟨q, hq, rfl, rfl⟩
    · exact .inl (hlinked a b hab)
    · obtain ⟨h1, h2⟩ := hp.lt_of_mem_candidates (h.fits q hq)
      exact .inr ⟨_, List.mem_map.2 ⟨q, hq, rfl⟩, hg.ownerOf_eq _ h1, hg.ownerOf_eq _ h2⟩

/-- Whether a pair joins two endpoints. -/
def Joins (q : Nat × Nat) (e f : Nat) : Prop := (q.1 = e ∧ q.2 = f) ∨ (q.1 = f ∧ q.2 = e)

theorem Joins.map {q : Nat × Nat} {e f : Nat} (h : Joins q e f) (g : Nat → Nat) :
    Joins (g q.1, g q.2) (g e) (g f) := by
  rcases h with ⟨rfl, rfl⟩ | ⟨rfl, rfl⟩
  · exact .inl ⟨rfl, rfl⟩
  · exact .inr ⟨rfl, rfl⟩

/-- Whether some completion wires `e` to `f`. -/
def CanWire (w : PartialWiring) (p : WiringProblem) (e f : Nat) : Prop :=
  ∃ rest, w.Completes p rest ∧ ∃ q ∈ rest, Joins q e f

theorem CanWire.map {w : PartialWiring} {p : WiringProblem} {e f : Nat} (h : w.CanWire p e f)
    (hp : p.IsProper) {g σ : Nat → Nat} (hg : p.IsSymmetry g σ)
    (hopen : ∀ x < p.endpointCount, w.isOpen x → w.isOpen (g x))
    (hlinked : ∀ i j, w.componentOf i = w.componentOf j →
      w.componentOf (σ i) = w.componentOf (σ j)) : w.CanWire p (g e) (g f) := by
  obtain ⟨rest, h, q, hq, hjoins⟩ := h
  exact ⟨_, h.map hp hg hopen hlinked, _, List.mem_map.2 ⟨q, hq, rfl⟩, hjoins.map g⟩

/-- Nothing is wired to an untouched instance. -/
theorem eq_of_componentOf_eq {w : PartialWiring} {p : WiringProblem} (hw : w.IsSound p)
    (hp : p.IsProper) {i : Nat} (hi : w.isUntouched i) {j : Nat}
    (hij : w.componentOf i = w.componentOf j) : i = j := by
  have hunwired : ∀ x y, w.partnerOf x = some y → p.ownerOf x ≠ i := by
    intro x y hxy howner
    obtain ⟨hx, -⟩ := hp.lt_of_mem_candidates (hw.partnerOf_fits x y hxy)
    have hnone := hw.partnerOf_isOpen x (hw.isOpen_of_isUntouched hp hi hx howner)
    simp [hnone] at hxy
  refine ((eqvGen_iff (P := (· = i)) ?_ ((hw.represents i j).1 hij)).1 rfl).symm
  rintro a b ⟨x, y, hxy, rfl, rfl⟩
  exact iff_of_false (hunwired x y hxy) (hunwired y x (hw.partnerOf_comm x y hxy))

section Exchange

variable {w : PartialWiring} {p : WiringProblem} (hw : w.IsSound p) (hp : p.IsProper) {e f f' : Nat}
  (h : w.CanWire p e f) (hf : f ∈ w.openCandidates p e) (hf' : f' ∈ w.openCandidates p e)
include hp h hf hf'

/-- Partners of one instance and one type are alike. -/
theorem CanWire.of_owner_eq (howner : p.ownerOf f = p.ownerOf f')
    (htype : p.typeOf f = p.typeOf f') : w.CanWire p e f' := by
  have hlt := lt_of_mem_openCandidates hp hf
  have hlt' := lt_of_mem_openCandidates hp hf'
  have hswap := h.map hp (WiringProblem.isSymmetry_swap hlt hlt' howner htype)
    (fun x _ hx => ?_) fun _ _ => id
  · rwa [Equiv.swap_apply_left, Equiv.swap_apply_of_ne_of_ne (ne_of_mem_openCandidates hf)
      (ne_of_mem_openCandidates hf')] at hswap
  · rcases WiringProblem.swap_cases f f' x with h | ⟨-, h⟩ | ⟨-, h⟩ <;> rw [h]
    · exact hx
    · exact (mem_openCandidates.1 hf').2.1
    · exact (mem_openCandidates.1 hf).2.1

include hw

/-- Partners of one type at untouched instances of one model are alike. -/
theorem CanWire.of_model_eq (hu : p.IsUniform) (hi : w.isUntouched (p.ownerOf f))
    (hj : w.isUntouched (p.ownerOf f'))
    (hmodel : (p.instanceAt (p.ownerOf f)).modelNumber = (p.instanceAt (p.ownerOf f')).modelNumber)
    (htype : p.typeOf f = p.typeOf f') : w.CanWire p e f' := by
  have hlt := lt_of_mem_openCandidates hp hf
  have hlt' := lt_of_mem_openCandidates hp hf'
  have hfits := (hp.mem_candidates e f).1 (mem_openCandidates.1 hf).1
  have hfits' := (hp.mem_candidates e f').1 (mem_openCandidates.1 hf').1
  obtain ⟨g, hg, hfix⟩ := hu _ (hp.ownerOf_lt f hlt) _ (hp.ownerOf_lt f' hlt') hmodel
  have hge : g e = e := hfix e hfits.1 hfits.2.2.1.symm hfits'.2.2.1.symm
  have howner : p.ownerOf (g f) = p.ownerOf f' := by
    rw [hg.ownerOf_eq f hlt, Equiv.swap_apply_left]
  have hopen : ∀ x < p.endpointCount, w.isOpen x → w.isOpen (g x) := by
    intro x hx hxo
    rcases WiringProblem.swap_cases (p.ownerOf f) (p.ownerOf f') (p.ownerOf x) with
      hx' | ⟨-, hx'⟩ | ⟨-, hx'⟩
    · by_cases hxi : p.ownerOf x = p.ownerOf f
      · exact hw.isOpen_of_isUntouched hp hi (hg.lt x hx) (by rw [hg.ownerOf_eq x hx, hx', hxi])
      · by_cases hxj : p.ownerOf x = p.ownerOf f'
        · exact hw.isOpen_of_isUntouched hp hj (hg.lt x hx) (by rw [hg.ownerOf_eq x hx, hx', hxj])
        · rwa [hfix x hx hxi hxj]
    · exact hw.isOpen_of_isUntouched hp hj (hg.lt x hx) (by rw [hg.ownerOf_eq x hx, hx'])
    · exact hw.isOpen_of_isUntouched hp hi (hg.lt x hx) (by rw [hg.ownerOf_eq x hx, hx'])
  have hswap := h.map hp hg hopen fun a b hab => ?_
  · rw [hge] at hswap
    refine hswap.of_owner_eq hp (mem_openCandidates.2 ⟨?_, ?_, ?_⟩) hf' howner ?_
    · have := hg.mem_candidates hp (mem_openCandidates.1 hf).1
      rwa [hge] at this
    · exact hopen f hlt (mem_openCandidates.1 hf).2.1
    · rw [howner]
      exact (mem_openCandidates.1 hf').2.2
    · rw [hg.typeOf_eq f hlt, htype]
  · by_cases heq : a = b
    · rw [heq]
    · have hout : ∀ x y, w.componentOf x = w.componentOf y → x ≠ y →
          Equiv.swap (p.ownerOf f) (p.ownerOf f') x = x := by
        intro x y hxy hne
        refine Equiv.swap_apply_of_ne_of_ne ?_ ?_ <;> rintro rfl
        · exact hne (eq_of_componentOf_eq hw hp hi hxy)
        · exact hne (eq_of_componentOf_eq hw hp hj hxy)
      rw [hout a b hab heq, hout b a hab.symm (Ne.symm heq), hab]

end Exchange

/-! ### The choices of a branching -/

theorem firstOfEach_sublist (w : PartialWiring) (p : WiringProblem) :
    ∀ (fs : List Nat) (seen : List PartnerKey), (w.firstOfEach p seen fs).Sublist fs
  | [], _ => .slnil
  | f :: fs, seen => by
    rw [firstOfEach]
    split
    · exact (firstOfEach_sublist w p fs _).cons _
    · exact (firstOfEach_sublist w p fs _).cons_cons _

theorem exists_mem_firstOfEach (w : PartialWiring) (p : WiringProblem) :
    ∀ (fs : List Nat) (seen : List PartnerKey) {f : Nat}, f ∈ fs → w.partnerKey p f ∉ seen →
      ∃ f' ∈ w.firstOfEach p seen fs, w.partnerKey p f' = w.partnerKey p f
  | [], _, _, h, _ => by simp at h
  | f₀ :: fs, seen, f, h, hnot => by
    rw [firstOfEach]
    by_cases hkey : w.partnerKey p f = w.partnerKey p f₀
    · rw [← hkey, if_neg (by rwa [List.contains_iff_mem])]
      exact ⟨f₀, List.mem_cons_self, hkey.symm⟩
    · rcases List.mem_cons.1 h with rfl | h
      · exact absurd rfl hkey
      · split
        · exact exists_mem_firstOfEach w p fs seen h hnot
        · obtain ⟨f', hf', hf'key⟩ := exists_mem_firstOfEach w p fs (w.partnerKey p f₀ :: seen) h
            (by rw [List.mem_cons, not_or]; exact ⟨hkey, hnot⟩)
          exact ⟨f', List.mem_cons_of_mem _ hf', hf'key⟩

/-- Partners of one key are alike. -/
theorem CanWire.of_key_eq {w : PartialWiring} {p : WiringProblem} (hw : w.IsSound p)
    (hp : p.IsProper) (hu : p.IsUniform) {e f f' : Nat} (h : w.CanWire p e f)
    (hf : f ∈ w.openCandidates p e) (hf' : f' ∈ w.openCandidates p e)
    (hkey : w.partnerKey p f' = w.partnerKey p f) : w.CanWire p e f' := by
  simp only [partnerKey] at hkey
  by_cases hi : w.isUntouched (p.ownerOf f) <;> by_cases hj : w.isUntouched (p.ownerOf f') <;>
    simp only [hi, hj, if_true, if_false, reduceCtorEq, PartnerKey.untouched.injEq,
      PartnerKey.owned.injEq] at hkey
  · exact h.of_model_eq hw hp hf hf' hu hi hj hkey.1.symm hkey.2.symm
  · exact h.of_owner_eq hp hf hf' hkey.1.symm hkey.2.symm

/-- If a partial wiring can be completed, so it can after one of the choices tried. -/
theorem exists_completable_choice {w : PartialWiring} {p : WiringProblem} (hw : w.IsSound p)
    (hp : p.IsProper) (hu : p.IsUniform) (h : w.IsCompletable p) {e : Nat}
    (he : e < p.endpointCount) {partners : List Nat}
    (hpartners : partners.Perm (w.representatives p e)) :
    ∃ c ∈ Brancher.choicesAt e partners, (w.after p c).IsCompletable p := by
  obtain ⟨rest, h⟩ := h
  replace h := h.crossing
  have hcross : ∀ q ∈ rest.filter (w.crosses p), w.crosses p q :=
    fun q hq => (List.mem_filter.1 hq).2
  generalize rest.filter (w.crosses p) = rest at h hcross
  by_cases hused : e ∈ endsOf rest
  · have hwire : ∃ f ∈ w.openCandidates p e, w.CanWire p e f := by
      obtain ⟨q, hq, rfl | rfl⟩ := mem_endsOf.1 hused
      · exact ⟨q.2, (mem_openCandidates_of_crosses hp h hq (hcross q hq)).1, rest, h, q, hq,
          .inl ⟨rfl, rfl⟩⟩
      · exact ⟨q.1, (mem_openCandidates_of_crosses hp h hq (hcross q hq)).2, rest, h, q, hq,
          .inr ⟨rfl, rfl⟩⟩
    obtain ⟨f, hf, hwire⟩ := hwire
    obtain ⟨f', hf', hkey⟩ := exists_mem_firstOfEach w p _ [] hf List.not_mem_nil
    have hopen' := (firstOfEach_sublist w p _ _).subset hf'
    obtain ⟨rest', h', q, hq, hjoins⟩ := hwire.of_key_eq hw hp hu hf hopen' hkey
    exact ⟨⟨e, some f'⟩, List.mem_cons_of_mem _ (List.mem_map_of_mem (hpartners.mem_iff.2 hf')), _,
      h'.connect hw he hp hq hjoins hopen'⟩
  · exact ⟨⟨e, none⟩, List.mem_cons_self, rest, h.decideEndpoint hw he hused⟩

theorem allows_of_mem_choicesAt {w : PartialWiring} {p : WiringProblem} {e : Nat}
    (he : e ∈ w.branchable p) {partners : List Nat}
    (hpartners : partners.Perm (w.representatives p e)) {c : Choice}
    (hc : c ∈ Brancher.choicesAt e partners) : w.Allows p c := by
  obtain ⟨hlt, hopen, -⟩ := mem_branchable.1 he
  rcases List.mem_cons.1 hc with rfl | hc
  · exact ⟨hlt, hopen, fun f hf => by simp at hf⟩
  · obtain ⟨f, hf, rfl⟩ := List.mem_map.1 hc
    refine ⟨hlt, hopen, fun f' hf' => ?_⟩
    cases hf'
    exact (firstOfEach_sublist w p _ _).subset (hpartners.mem_iff.1 hf)

end PartialWiring

/-! ### Branchers -/

theorem foldl_mem {α : Type} {f : α → α → α} (hf : ∀ a b, f a b = a ∨ f a b = b) :
    ∀ (xs : List α) (a : α), xs.foldl f a ∈ a :: xs
  | [], _ => List.mem_cons_self
  | b :: xs, a => by
    rw [List.foldl_cons]
    rcases List.mem_cons.1 (foldl_mem hf xs (f a b)) with h | h
    · rw [h]
      rcases hf a b with hab | hab <;> rw [hab]
      · exact List.mem_cons_self
      · exact List.mem_cons_of_mem _ List.mem_cons_self
    · exact List.mem_cons_of_mem _ (List.mem_cons_of_mem _ h)

namespace Keystream

@[simp] theorem map_snd_label {α : Type} : ∀ (xs : List α) (s : Keystream),
    (s.label xs).1.map Prod.snd = xs
  | [], _ => rfl
  | x :: xs, _ => congrArg (x :: ·) (map_snd_label xs _)

end Keystream

namespace PartialWiring

theorem firstEndpoint_eq_none {w : PartialWiring} {p : WiringProblem} :
    w.firstEndpoint p = none ↔ w.branchable p = [] := List.head?_eq_none_iff

theorem mostUrgentEndpoint_eq_none {w : PartialWiring} {p : WiringProblem} :
    w.mostUrgentEndpoint p = none ↔ w.branchable p = [] := by
  rw [mostUrgentEndpoint, Option.map_eq_none_iff]
  cases w.branchable p with
  | nil => simp [reduce?]
  | cons => simp [reduce?]

theorem mem_branchable_of_mostUrgentEndpoint {w : PartialWiring} {p : WiringProblem} {e : Nat}
    (h : w.mostUrgentEndpoint p = some e) : e ∈ w.branchable p := by
  rw [mostUrgentEndpoint, Option.map_eq_some_iff] at h
  obtain ⟨⟨e, u⟩, h, rfl⟩ := h
  cases hb : w.branchable p with
  | nil => simp [hb, reduce?] at h
  | cons x xs =>
    rw [hb, List.map_cons, reduce?, Option.some.injEq] at h
    have hmem : (e, u) ∈ (x :: xs).map fun e => (e, w.urgency p e) := by
      rw [← h]
      refine foldl_mem (fun best e => ?_) _ _
      split
      · exact .inr rfl
      · exact .inl rfl
    obtain ⟨y, hy, heq⟩ := List.mem_map.1 hmem
    rwa [← congrArg Prod.fst heq]

end PartialWiring

namespace Brancher

/-- A brancher gives no choice if no endpoint can be wired, and else every choice at one endpoint
with the representatives of its partners in some order. -/
theorem branch_cases (b : Brancher) (p : WiringProblem) (w : PartialWiring) :
    (w.branchable p = [] ∧ (b.branch p w).1 = []) ∨
    ∃ e ∈ w.branchable p, ∃ partners : List Nat, partners.Perm (w.representatives p e) ∧
      (b.branch p w).1 = choicesAt e partners := by
  cases b with
  | lexicographic =>
    cases hfirst : w.firstEndpoint p with
    | none => exact .inl ⟨PartialWiring.firstEndpoint_eq_none.1 hfirst, by simp only [branch, hfirst]⟩
    | some e => exact .inr ⟨e, List.mem_of_mem_head? hfirst, _, List.reverse_perm _,
        by simp only [branch, hfirst]⟩
  | merit seed stream =>
    cases hurgent : w.mostUrgentEndpoint p with
    | none =>
      exact .inl ⟨PartialWiring.mostUrgentEndpoint_eq_none.1 hurgent, by simp only [branch, hurgent]⟩
    | some e =>
      refine .inr ⟨e, PartialWiring.mem_branchable_of_mostUrgentEndpoint hurgent, _, ?_,
        by simp only [branch, hurgent]; rfl⟩
      refine ((List.mergeSort_perm _ _).map _).trans ?_
      rw [List.map_map]
      exact .of_eq (Keystream.map_snd_label _ stream)

end Brancher
end Muster
