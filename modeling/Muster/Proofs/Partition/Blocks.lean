import Mathlib.Data.List.Induction
import Mathlib.Data.Multiset.MapFold
import Muster.Proofs.Partition.Enumeration

/-!
Labels describe splits. The blocks that labels describe are none of them empty and together hold
all items; and each such split of the items, in whatever order its blocks and their items are
listed, is described by labels. Both are shown item by item from the front: one more item either
joins a block or begins a new one.

Main statements: `isSplit_blocksOf`, `exists_labeling`.
-/

namespace Muster

variable {α β : Type}

/-- Blocks that split items: none is empty, and together they hold each item as often as it is
listed. -/
structure IsSplit (items : List α) (blocks : List (List α)) : Prop where
  ne_nil : ∀ b ∈ blocks, b ≠ []
  perm : blocks.flatten.Perm items

/-- Blocks without their order and that of their items. -/
def unordered (blocks : List (List α)) : Multiset (Multiset α) :=
  .ofList (blocks.map Multiset.ofList)

/-! ### Blocks without order -/

theorem unordered_middle (b : List α) (xs ys : List (List α)) :
    unordered (xs ++ b :: ys) = (b : Multiset α) ::ₘ unordered (xs ++ ys) := by
  simp [unordered]

theorem unordered_concat (b : List α) (xs : List (List α)) :
    unordered (xs ++ [b]) = (b : Multiset α) ::ₘ unordered xs := by
  rw [unordered_middle, List.append_nil]

theorem length_eq_of_unordered {xs ys : List (List α)} (h : unordered xs = unordered ys) :
    xs.length = ys.length := by
  have := congrArg Multiset.card h
  simpa [unordered] using this

/-- What is told of blocks by their items alone is told alike of splits that differ in order. -/
theorem perm_map_of_unordered {f : List α → β} (hf : ∀ b c : List α, b.Perm c → f b = f c)
    {xs ys : List (List α)} (h : unordered xs = unordered ys) : (xs.map f).Perm (ys.map f) := by
  obtain ⟨g, hg⟩ : ∃ g : Multiset α → β, ∀ b, g (.ofList b) = f b :=
    ⟨Quotient.lift f hf, fun _ => rfl⟩
  have hmap : ∀ zs, (unordered zs).map g = .ofList (zs.map f) := by
    intro zs
    rw [unordered, Multiset.map_coe, List.map_map]
    exact congrArg _ (List.map_congr_left fun b _ => hg b)
  exact Multiset.coe_eq_coe.1 (by rw [← hmap, ← hmap, h])

/-! ### One more item -/

section Labels

variable {items : List α} {labels : List Nat}

theorem isGrowth_concat {l : Nat} : ∀ {labels : List Nat} {used : Nat},
    IsGrowth used (labels ++ [l]) ↔ IsGrowth used labels ∧ l ≤ labels.foldl usedAfter used
  | [], used => by simp [IsGrowth]
  | k :: labels, used => by
    rw [List.cons_append, IsGrowth, IsGrowth, isGrowth_concat, List.foldl_cons, and_assoc]

theorem lt_foldl_usedAfter {l : Nat} : ∀ {labels : List Nat} (used : Nat), l ∈ labels →
    l < labels.foldl usedAfter used
  | k :: labels, used, h => by
    rw [List.foldl_cons]
    rcases List.mem_cons.1 h with rfl | h
    · exact (Nat.le_max_right used (l + 1)).trans (le_foldl_usedAfter labels _)
    · exact lt_foldl_usedAfter _ h

theorem length_blocksOf (items : List α) (labels : List Nat) :
    (blocksOf items labels).length = labels.foldl usedAfter 0 := by
  rw [blocksOf, List.length_map, List.length_range]

theorem blockOf_concat (hlength : items.length = labels.length) (x : α) (l j : Nat) :
    blockOf (items ++ [x]) (labels ++ [l]) j =
      blockOf items labels j ++ if l = j then [x] else [] := by
  rw [blockOf, List.zip_append hlength, List.filter_append, List.map_append]
  by_cases h : l = j <;> simp [blockOf, h]

theorem blockOf_unused : blockOf items labels (labels.foldl usedAfter 0) = [] := by
  rw [blockOf, List.map_eq_nil_iff, List.filter_eq_nil_iff]
  intro e he
  have hlt := lt_foldl_usedAfter 0 (List.of_mem_zip he).2
  rw [beq_iff_eq]
  exact hlt.ne

/-- An item with a label in use joins a block. -/
theorem blocksOf_concat_old (hlength : items.length = labels.length) (x : α) {l : Nat}
    (hl : l < labels.foldl usedAfter 0) :
    blocksOf (items ++ [x]) (labels ++ [l]) = (blocksOf items labels).modify l (· ++ [x]) := by
  have hused : (labels ++ [l]).foldl usedAfter 0 = labels.foldl usedAfter 0 := by
    rw [List.foldl_concat, usedAfter_of_lt hl]
  refine List.ext_getElem ?_ fun j _ _ => ?_
  · rw [List.length_modify, length_blocksOf, length_blocksOf, hused]
  · rw [List.getElem_modify]
    simp only [blocksOf, List.getElem_map, List.getElem_range]
    rw [blockOf_concat hlength]
    split
    · rfl
    · exact List.append_nil _

/-- An item with a new label begins a block. -/
theorem blocksOf_concat_new (hlength : items.length = labels.length) (x : α) :
    blocksOf (items ++ [x]) (labels ++ [labels.foldl usedAfter 0]) =
      blocksOf items labels ++ [[x]] := by
  rw [blocksOf, List.foldl_concat, usedAfter_self, List.range_succ, List.map_append,
    List.map_singleton, blockOf_concat hlength, blockOf_unused, if_pos rfl, List.nil_append]
  refine congrArg (· ++ [[x]]) (List.map_congr_left fun j hj => ?_)
  rw [blockOf_concat hlength, if_neg (List.mem_range.1 hj).ne', List.append_nil]

/-- An item joins a block of a split. -/
theorem IsSplit.join {b : List α} {xs ys : List (List α)} (h : IsSplit items (xs ++ b :: ys))
    (x : α) : IsSplit (items ++ [x]) (xs ++ (b ++ [x]) :: ys) where
  ne_nil c hc := by
    rw [List.mem_append, List.mem_cons] at hc
    rcases hc with hc | rfl | hc
    · exact h.ne_nil c (List.mem_append_left _ hc)
    · simp
    · exact h.ne_nil c (List.mem_append_right _ (List.mem_cons_of_mem _ hc))
  perm := by
    have hperm : (xs ++ (b ++ [x]) :: ys).flatten.Perm ((xs ++ b :: ys).flatten ++ [x]) := by
      simp only [List.flatten_append, List.flatten_cons, List.append_assoc]
      have hcomm : ([x] ++ ys.flatten).Perm (ys.flatten ++ [x]) := List.perm_append_comm
      exact (hcomm.append_left b).append_left xs.flatten
    exact hperm.trans (h.perm.append_right [x])

/-- An item begins a block of its own. -/
theorem IsSplit.concat {blocks : List (List α)} (h : IsSplit items blocks) (x : α) :
    IsSplit (items ++ [x]) (blocks ++ [[x]]) where
  ne_nil c hc := by
    rcases List.mem_append.1 hc with hc | hc
    · exact h.ne_nil c hc
    · rw [List.mem_singleton.1 hc]
      exact List.cons_ne_nil x []
  perm := by
    rw [List.flatten_append, List.flatten_singleton]
    exact h.perm.append_right [x]

end Labels

theorem exists_concat_of_length {xs : List β} {n : Nat} (h : xs.length = n + 1) :
    ∃ init x, xs = init ++ [x] := by
  refine (List.eq_nil_or_concat' xs).resolve_left ?_
  rintro rfl
  exact nomatch h

/-- Labels describe a split. -/
theorem isSplit_blocksOf {labels : List Nat} : ∀ {items : List α},
    items.length = labels.length → IsGrowth 0 labels → IsSplit items (blocksOf items labels) := by
  induction labels using List.reverseRecOn with
  | nil =>
    intro items hlength _
    rw [List.length_nil, List.length_eq_zero_iff] at hlength
    rw [hlength]
    exact ⟨by simp [blocksOf], .nil⟩
  | append_singleton labels l ih =>
    intro items hlength hgrowth
    obtain ⟨items, x, rfl⟩ := exists_concat_of_length (hlength.trans List.length_append)
    have hitems : items.length = labels.length := by simpa using hlength
    obtain ⟨hgrowth, hl⟩ := isGrowth_concat.1 hgrowth
    have hsplit := ih hitems hgrowth
    rcases Nat.lt_or_eq_of_le hl with hl | rfl
    · obtain ⟨xs, b, ys, hblocks, -, hmodify⟩ :=
        List.exists_of_modify (· ++ [x]) ((length_blocksOf items labels).symm ▸ hl)
      rw [blocksOf_concat_old hitems x hl, hmodify]
      rw [hblocks] at hsplit
      exact hsplit.join x
    · rw [blocksOf_concat_new hitems]
      exact hsplit.concat x

/-! ### Every split is described -/

/-- Nothing is split into nothing only. -/
theorem IsSplit.eq_nil {blocks : List (List α)} (h : IsSplit [] blocks) : blocks = [] := by
  cases blocks with
  | nil => rfl
  | cons b rest =>
    refine absurd ?_ (h.ne_nil b List.mem_cons_self)
    exact (List.append_eq_nil_iff.1 h.perm.eq_nil).1

/-- What is left of a split without one of its items. -/
theorem IsSplit.exists_without {items : List α} {x : α} {blocks : List (List α)}
    (h : IsSplit (items ++ [x]) blocks) : ∃ (b : List α) (xs ys : List (List α)),
      blocks.length = (xs ++ ys).length + 1 ∧
      unordered blocks = (b : Multiset α) ::ₘ unordered (xs ++ ys) ∧
      (b = [x] ∧ IsSplit items (xs ++ ys) ∨
        ∃ c, b.Perm (c ++ [x]) ∧ IsSplit items (xs ++ c :: ys)) := by
  have hx : x ∈ blocks.flatten := h.perm.mem_iff.2 (by simp)
  obtain ⟨b, hb, hxb⟩ := List.mem_flatten.1 hx
  obtain ⟨xs, ys, rfl⟩ := List.append_of_mem hb
  obtain ⟨s, t, rfl⟩ := List.append_of_mem hxb
  have hne : ∀ c ∈ xs ++ ys, c ≠ [] := fun c hc => h.ne_nil c (by
    rw [List.mem_append, List.mem_cons]
    exact (List.mem_append.1 hc).imp_right .inr)
  have hperm : (xs ++ (s ++ t) :: ys).flatten.Perm items := by
    have hmove :
        (x :: (xs ++ (s ++ t) :: ys).flatten).Perm (xs ++ (s ++ x :: t) :: ys).flatten := by
      have hlists : ∀ rest, (xs ++ (s ++ rest) :: ys).flatten =
          (xs.flatten ++ s) ++ (rest ++ ys.flatten) := by
        intro rest
        simp [List.append_assoc]
      rw [hlists, hlists]
      exact List.perm_middle.symm
    exact (hmove.trans (h.perm.trans (List.perm_append_singleton x items))).cons_inv
  refine ⟨s ++ x :: t, xs, ys, by simp [Nat.add_assoc], unordered_middle .., ?_⟩
  rcases List.eq_nil_or_concat' (s ++ t) with hnil | ⟨c, y, hc⟩
  · obtain ⟨rfl, rfl⟩ := List.append_eq_nil_iff.1 hnil
    refine .inl ⟨rfl, hne, ?_⟩
    simpa using hperm
  · refine .inr ⟨s ++ t, ?_, fun d hd => ?_, hperm⟩
    · exact List.perm_middle.trans (List.perm_append_singleton x (s ++ t)).symm
    · rw [List.mem_append, List.mem_cons] at hd
      rcases hd with hd | rfl | hd
      · exact hne d (List.mem_append_left _ hd)
      · simp [hc]
      · exact hne d (List.mem_append_right _ hd)

/-- Every split is described by labels. -/
theorem exists_labeling {items : List α} : ∀ {blocks : List (List α)}, IsSplit items blocks →
    ∃ labels ∈ labelings blocks.length 0 items.length,
      unordered (blocksOf items labels) = unordered blocks := by
  induction items using List.reverseRecOn with
  | nil =>
    intro blocks h
    rw [h.eq_nil]
    exact ⟨[], mem_labelings.2 ⟨rfl, trivial, rfl⟩, rfl⟩
  | append_singleton items x ih =>
    intro blocks h
    obtain ⟨b, xs, ys, hcount, hunordered, ⟨rfl, hsplit⟩ | ⟨c, hb, hsplit⟩⟩ := h.exists_without
    · -- the item has a block of its own, so it gets a new label
      obtain ⟨labels, hlabels, heq⟩ := ih hsplit
      obtain ⟨hlength, hgrowth, hused⟩ := mem_labelings.1 hlabels
      refine ⟨labels ++ [labels.foldl usedAfter 0], mem_labelings.2 ⟨by simp [hlength],
        isGrowth_concat.2 ⟨hgrowth, Nat.le_refl _⟩, ?_⟩, ?_⟩
      · rw [List.foldl_concat, usedAfter_self, hused, hcount]
      · rw [blocksOf_concat_new hlength.symm, unordered_concat, heq, hunordered]
    · -- the item shares a block with others, whose label it gets
      obtain ⟨labels, hlabels, heq⟩ := ih hsplit
      obtain ⟨hlength, hgrowth, hused⟩ := mem_labelings.1 hlabels
      rw [unordered_middle] at heq
      have hmem : (c : Multiset α) ∈ unordered (blocksOf items labels) :=
        heq ▸ Multiset.mem_cons_self _ _
      obtain ⟨d, hd, hdc⟩ := List.mem_map.1 (Multiset.mem_coe.1 hmem)
      obtain ⟨l, hl, rfl⟩ := List.getElem_of_mem hd
      obtain ⟨xs', d', ys', hblocks, hxs', hmodify⟩ := List.exists_of_modify (· ++ [x]) hl
      have hd' : (blocksOf items labels)[l] = d' := by simp [hblocks, hxs']
      rw [hd'] at hdc
      have hl' : l < labels.foldl usedAfter 0 := length_blocksOf items labels ▸ hl
      have hrest : unordered (xs' ++ ys') = unordered (xs ++ ys) := by
        rw [hblocks, unordered_middle, hdc] at heq
        exact (Multiset.cons_inj_right _).1 heq
      refine ⟨labels ++ [l], mem_labelings.2 ⟨by simp [hlength],
        isGrowth_concat.2 ⟨hgrowth, hl'.le⟩, ?_⟩, ?_⟩
      · rw [List.foldl_concat, usedAfter_of_lt hl', hused, hcount]
        simp [Nat.add_assoc]
      · rw [blocksOf_concat_old hlength.symm x hl', hmodify, unordered_middle, hrest, hunordered]
        refine congrArg (· ::ₘ unordered (xs ++ ys)) (Multiset.coe_eq_coe.2 ?_)
        exact ((Multiset.coe_eq_coe.1 hdc).append_right [x]).trans hb.symm

end Muster
