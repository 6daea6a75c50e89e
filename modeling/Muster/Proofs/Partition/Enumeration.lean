import Mathlib.Data.List.Basic
import Mathlib.Tactic.Ring
import Muster.Partition

/-!
The lists of labels that a cursor goes through. `labelings blocks used n` lists, in lexicographic
order, the labels for `n` more items that bring the labels in use from `used` to `blocks`. The least
labels are the first member of the list, and the next labels after a member are the member behind
it. So a cursor that starts at the least labels goes through the list.

Main statements: `mem_labelings`, `walks_labelings`, `foldWith_start`.
-/

namespace Muster

/-! ### Labels that are given out in order -/

/-- Labels come up for the first time in order, if `used` are in use before. -/
def IsGrowth : Nat → List Nat → Prop
  | _, [] => True
  | used, l :: rest => l ≤ used ∧ IsGrowth (usedAfter used l) rest

theorem usedAfter_of_lt {used l : Nat} (h : l < used) : usedAfter used l = used :=
  Nat.max_eq_left h

theorem usedAfter_self (used : Nat) : usedAfter used used = used + 1 :=
  Nat.max_eq_right (Nat.le_succ used)

theorem le_foldl_usedAfter : ∀ (labels : List Nat) (used : Nat),
    used ≤ labels.foldl usedAfter used
  | [], used => Nat.le_refl used
  | l :: rest, used => (Nat.le_max_left used (l + 1)).trans (le_foldl_usedAfter rest _)

/-- The labels for `n` more items that bring the labels in use from `used` to `blocks`: first those
that begin with a label in use, then those that begin with a new one. -/
def labelings (blocks : Nat) : Nat → Nat → List (List Nat)
  | used, 0 => if used = blocks then [[]] else []
  | used, n + 1 =>
    ((List.range' 0 used).flatMap fun l => (labelings blocks used n).map (l :: ·)) ++
      if used < blocks then (labelings blocks (used + 1) n).map (used :: ·) else []

theorem mem_labelings {blocks : Nat} : ∀ {n used : Nat} {labels : List Nat},
    labels ∈ labelings blocks used n ↔
      labels.length = n ∧ IsGrowth used labels ∧ labels.foldl usedAfter used = blocks
  | 0, used, [] => by simp [labelings, IsGrowth]
  | 0, used, l :: rest => by simp [labelings]
  | n + 1, used, [] => by
    rw [labelings]
    split <;> simp
  | n + 1, used, l :: rest => by
    have hold : l :: rest ∈ (List.range' 0 used).flatMap
        (fun l => (labelings blocks used n).map (l :: ·)) ↔
        l < used ∧ rest ∈ labelings blocks used n := by
      simp
    have hnew : l :: rest ∈ (if used < blocks then
        (labelings blocks (used + 1) n).map (used :: ·) else []) ↔
        used < blocks ∧ l = used ∧ rest ∈ labelings blocks (used + 1) n := by
      split
      · simp_all [and_comm, eq_comm]
      · simp_all
    rw [labelings, List.mem_append, hold, hnew, mem_labelings, mem_labelings, List.length_cons,
      Nat.add_right_cancel_iff, IsGrowth, List.foldl_cons]
    constructor
    · rintro (⟨hl, hlength, hgrowth, hblocks⟩ | ⟨-, rfl, hlength, hgrowth, hblocks⟩)
      · rw [usedAfter_of_lt hl]
        exact ⟨hlength, ⟨hl.le, hgrowth⟩, hblocks⟩
      · rw [usedAfter_self]
        exact ⟨hlength, ⟨Nat.le_refl l, hgrowth⟩, hblocks⟩
    · rintro ⟨hlength, ⟨hl, hgrowth⟩, hblocks⟩
      rcases Nat.lt_or_eq_of_le hl with hl | rfl
      · rw [usedAfter_of_lt hl] at hgrowth hblocks
        exact .inl ⟨hl, hlength, hgrowth, hblocks⟩
      · rw [usedAfter_self] at hgrowth hblocks
        have hle := hblocks ▸ le_foldl_usedAfter rest (l + 1)
        exact .inr ⟨hle, rfl, hlength, hgrowth, hblocks⟩

theorem length_labelings_le (blocks : Nat) : ∀ {n used : Nat}, used ≤ blocks →
    (labelings blocks used n).length ≤ blocks ^ n
  | 0, used, _ => by
    rw [labelings]
    split <;> simp
  | n + 1, used, h => by
    have hold : ((List.range' 0 used).flatMap fun l =>
        (labelings blocks used n).map (l :: ·)).length ≤ used * blocks ^ n := by
      have := length_labelings_le blocks (n := n) h
      simpa [List.length_flatMap] using Nat.mul_le_mul_left used this
    rw [labelings, List.length_append]
    split
    · rename_i hlt
      have hnew := length_labelings_le blocks (n := n) hlt
      rw [List.length_map]
      calc _ ≤ used * blocks ^ n + blocks ^ n := Nat.add_le_add hold hnew
        _ = (used + 1) * blocks ^ n := by ring
        _ ≤ blocks * blocks ^ n := Nat.mul_le_mul_right _ hlt
        _ = blocks ^ (n + 1) := by ring
    · rw [List.length_nil, Nat.add_zero, Nat.pow_succ']
      exact hold.trans (Nat.mul_le_mul_right _ h)

/-! ### The first labels -/

section Least

variable {blocks used n : Nat}

/-- With items to spare, the least labels begin with the label `0`. -/
theorem leastLabels_old (h : blocks - used ≤ n) :
    leastLabels blocks used (n + 1) = 0 :: leastLabels blocks used n := by
  rw [leastLabels, leastLabels, Nat.succ_sub h, List.replicate_succ, List.cons_append]

/-- With none to spare, or no label in use, the least labels begin with a new one. -/
theorem leastLabels_new (hlt : used < blocks) (h : ¬ (0 < used ∧ blocks - used ≤ n)) :
    leastLabels blocks used (n + 1) = used :: leastLabels blocks (used + 1) n := by
  obtain ⟨m, rfl⟩ : ∃ m, blocks = used + 1 + m := ⟨blocks - (used + 1), by omega⟩
  have hm : used + 1 + m - used = m + 1 := by omega
  have hm' : used + 1 + m - (used + 1) = m := by omega
  rw [leastLabels, leastLabels, hm, hm', List.range'_succ, Nat.add_sub_add_right]
  rcases Nat.eq_zero_or_pos used with rfl | hused
  · rw [← List.cons_append, ← List.replicate_succ, List.replicate_succ',
      List.append_assoc, List.singleton_append]
  · have hzero : n - m = 0 := by omega
    rw [hzero, List.replicate_zero, List.nil_append, List.nil_append]

theorem head?_labelings (hblocks : 0 < blocks) : ∀ {n used : Nat}, used ≤ blocks →
    (labelings blocks used n).head? =
      if blocks - used ≤ n then some (leastLabels blocks used n) else none
  | 0, used, h => by
    rw [labelings]
    rcases Nat.lt_or_eq_of_le h with hlt | rfl
    · rw [if_neg hlt.ne, if_neg (by omega), List.head?_nil]
    · rw [if_pos rfl, if_pos (by omega), List.head?_cons, leastLabels, Nat.sub_self]
      rfl
  | n + 1, used, h => by
    have hrows := head?_labelings hblocks (n := n) h
    rw [labelings, List.head?_append]
    by_cases hold : 0 < used ∧ blocks - used ≤ n
    · obtain ⟨used, rfl⟩ := Nat.exists_eq_add_of_lt hold.1
      rw [Nat.zero_add] at hold hrows ⊢
      have hle : blocks - (used + 1) ≤ n + 1 := Nat.le_succ_of_le hold.2
      rw [if_pos hold.2] at hrows
      rw [List.range'_succ, List.flatMap_cons, List.head?_append, List.head?_map, hrows,
        if_pos hle, leastLabels_old hold.2]
      rfl
    · have hnone : (List.range' 0 used).flatMap
          (fun l => (labelings blocks used n).map (l :: ·)) = [] := by
        rcases Nat.eq_zero_or_pos used with rfl | hused
        · rfl
        · rw [if_neg fun hle => hold ⟨hused, hle⟩, List.head?_eq_none_iff] at hrows
          simp [hrows]
      rw [hnone, List.head?_nil, Option.none_or]
      have hlt : used < blocks := by omega
      rw [if_pos hlt, List.head?_map, head?_labelings hblocks hlt, leastLabels_new hlt hold]
      by_cases hle : blocks - used ≤ n + 1
      · rw [if_pos hle, if_pos (by omega), Option.map_some]
      · rw [if_neg hle, if_neg (by omega), Option.map_none]

end Least

/-! ### One after the other -/

/-- What comes next after each member is the member behind it, and `after` after the last. -/
def Walks {α : Type} (next : α → Option α) (after : Option α) : List α → Prop
  | [] => True
  | a :: rest => next a = rest.head?.or after ∧ Walks next after rest

theorem walks_append {α : Type} {next : α → Option α} {after : Option α} : ∀ {xs ys : List α},
    Walks next after (xs ++ ys) ↔ Walks next (ys.head?.or after) xs ∧ Walks next after ys
  | [], ys => by simp [Walks]
  | x :: xs, ys => by
    rw [List.cons_append, Walks, Walks, walks_append, List.head?_append, Option.or_assoc, and_assoc]

section Next

variable {blocks used n : Nat}

/-- What comes after the last labels for `n` more items that begin with `l`. -/
def afterLast (blocks used n l : Nat) : Option (List Nat) :=
  if l + 1 ≤ used ∧ l + 1 < blocks ∧ blocks - usedAfter used (l + 1) ≤ n then
    some ((l + 1) :: leastLabels blocks (usedAfter used (l + 1)) n)
  else none

/-- Labels that begin with `l` come in the order of their other labels. -/
theorem walks_map_cons (used l : Nat) : ∀ {rows : List (List Nat)},
    (∀ row ∈ rows, row.length = n) →
    Walks (nextLabels blocks (usedAfter used l)) none rows →
    Walks (nextLabels blocks used) (afterLast blocks used n l) (rows.map (l :: ·))
  | [], _, _ => trivial
  | row :: rows, hlength, hrows => by
    obtain ⟨hnext, hrows⟩ := hrows
    refine ⟨?_, walks_map_cons used l (fun r hr => hlength r (List.mem_cons_of_mem _ hr)) hrows⟩
    have hrow : row.length = n := hlength row List.mem_cons_self
    rw [Option.or_none] at hnext
    rw [nextLabels, hnext, List.head?_map]
    cases rows.head? with
    | some later => rfl
    | none => simp only [hrow, Option.map_none, Option.none_or, afterLast]

/-- Labels that begin with a label in use, and then those that begin with a new one. -/
theorem walks_old (hblocks : 0 < blocks) (h : used ≤ blocks)
    (hrows : Walks (nextLabels blocks used) none (labelings blocks used n))
    (hlength : ∀ row ∈ labelings blocks used n, row.length = n) : ∀ {m l : Nat}, l + m = used →
    Walks (nextLabels blocks used) (if used < blocks then
      (labelings blocks (used + 1) n).map (used :: ·) else []).head?
      ((List.range' l m).flatMap fun l => (labelings blocks used n).map (l :: ·))
  | 0, _, _ => trivial
  | m + 1, l, hm => by
    have hl : usedAfter used l = used := usedAfter_of_lt (by omega)
    have hfirst := walks_map_cons used l hlength (by rwa [hl])
    rw [List.range'_succ, List.flatMap_cons, walks_append]
    refine ⟨?_, walks_old hblocks h hrows hlength (by omega)⟩
    have hhead := head?_labelings hblocks (n := n) h
    by_cases hle : blocks - used ≤ n
    · rw [if_pos hle] at hhead
      suffices hafter : afterLast blocks used n l = (((List.range' (l + 1) m).flatMap fun l =>
          (labelings blocks used n).map (l :: ·)).head?.or (if used < blocks then
            (labelings blocks (used + 1) n).map (used :: ·) else []).head?) by
        rwa [hafter] at hfirst
      cases m with
      | zero =>
        obtain rfl : used = l + 1 := by omega
        rw [List.range'_zero, List.flatMap_nil, List.head?_nil, Option.none_or, afterLast,
          usedAfter_self]
        by_cases hlt : l + 1 < blocks
        · rw [if_pos ⟨Nat.le_refl _, hlt, by omega⟩, if_pos hlt, List.head?_map,
            head?_labelings hblocks hlt, if_pos (by omega), Option.map_some]
        · rw [if_neg fun h => hlt h.2.1, if_neg hlt, List.head?_nil]
      | succ m =>
        rw [List.range'_succ, List.flatMap_cons, List.head?_append, List.head?_map, hhead,
          afterLast, usedAfter_of_lt (by omega), if_pos ⟨by omega, by omega, hle⟩]
        rfl
    · rw [if_neg hle, List.head?_eq_none_iff] at hhead
      rw [hhead]
      trivial

/-- The labels come one after the other. -/
theorem walks_labelings (hblocks : 0 < blocks) : ∀ {n used : Nat}, used ≤ blocks →
    Walks (nextLabels blocks used) none (labelings blocks used n)
  | 0, used, _ => by
    rw [labelings]
    split
    · exact ⟨rfl, trivial⟩
    · trivial
  | n + 1, used, h => by
    have hlength : ∀ used, ∀ row ∈ labelings blocks used n, row.length = n :=
      fun _ _ hrow => (mem_labelings.1 hrow).1
    rw [labelings, walks_append, Option.or_none]
    refine ⟨walks_old hblocks h (walks_labelings hblocks h) (hlength used) (Nat.zero_add used), ?_⟩
    split
    · rename_i hlt
      have hnew := walks_map_cons used used (hlength (used + 1))
        (by rw [usedAfter_self]; exact walks_labelings hblocks hlt)
      rwa [afterLast, if_neg fun h => Nat.not_succ_le_self used h.1] at hnew
    · trivial

end Next

/-! ### Cursors -/

namespace PartitionCursor

variable {σ : Type} {done : σ → Bool} {f : σ → List Nat → σ}

/-- A fold that is done stays as it is. -/
theorem foldl_of_done {s : σ} (h : done s = true) : ∀ (xs : List (List Nat)),
    xs.foldl (fun s l => if done s then s else f s l) s = s
  | [] => rfl
  | x :: xs => by rw [List.foldl_cons, if_pos h, foldl_of_done h xs]

theorem next?_of_none {c : PartitionCursor} (h : c.labels? = none) : c.next? = none := by
  rw [next?, h, Option.map_none]

/-- A cursor at the first of some labels that come one after the other gives it and moves on to the
one behind it. -/
theorem next?_of_walks {c : PartitionCursor} {x : List Nat} {xs : List (List Nat)}
    (hwalks : Walks (nextLabels c.blocks 0) none (x :: xs)) (h : c.labels? = some x) :
    c.next? = some (x, c.advance) ∧ c.advance.labels? = xs.head? := by
  rw [next?, advance, h, Option.bind_some, hwalks.1, Option.or_none]
  exact ⟨rfl, rfl⟩

/-- A cursor at the first of some labels that come one after the other goes through them. -/
theorem foldUntil_eq_foldl : ∀ {xs : List (List Nat)} {fuel : Nat} {c : PartitionCursor} (s : σ),
    Walks (nextLabels c.blocks 0) none xs → c.labels? = xs.head? → xs.length ≤ fuel →
    foldUntil done f fuel c s = xs.foldl (fun s l => if done s then s else f s l) s
  | [], fuel, c, s, _, hfirst, _ => by
    cases fuel with
    | zero => rfl
    | succ fuel =>
      rw [foldUntil, next?_of_none hfirst, List.foldl_nil]
      exact ite_self s
  | x :: xs, fuel, c, s, hwalks, hfirst, hfuel => by
    obtain ⟨fuel, rfl⟩ : ∃ m, fuel = m + 1 := ⟨fuel - 1, by rw [List.length_cons] at hfuel; omega⟩
    obtain ⟨hnext, hadvance⟩ := next?_of_walks hwalks hfirst
    rw [foldUntil, List.foldl_cons]
    by_cases hdone : done s = true
    · rw [if_pos hdone, if_pos hdone, foldl_of_done hdone]
    · rw [if_neg hdone, if_neg hdone, hnext]
      exact foldUntil_eq_foldl (f s x) hwalks.2 hadvance (Nat.le_of_succ_le_succ hfuel)

/-- A cursor starts at the first labels for its number of blocks. -/
theorem labels?_start {n k : Nat} (hk : 0 < k) :
    (start n k).labels? = (labelings k 0 n).head? := by
  rw [head?_labelings hk (Nat.zero_le k), Nat.sub_zero]
  by_cases hle : k ≤ n
  · rw [if_pos hle]
    exact if_neg (by omega)
  · rw [if_neg hle]
    exact if_pos (.inr (by omega))

theorem length_labelings_le_bound {n k : Nat} (hk : 0 < k) :
    (labelings k 0 n).length ≤ (start n k).bound := by
  rw [bound, labels?_start hk]
  cases h : labelings k 0 n with
  | nil => exact Nat.le_refl 0
  | cons labels rest =>
    have hlength : labels.length = n := (mem_labelings.1 (h ▸ List.mem_cons_self)).1
    rw [List.head?_cons, Option.elim_some, hlength, ← h]
    exact length_labelings_le k (Nat.zero_le k)

/-- From the start a cursor goes through all labels for its number of blocks. -/
theorem foldWith_start {n k : Nat} (hk : 0 < k) (s : σ) : (start n k).foldWith done f s =
    (labelings k 0 n).foldl (fun s l => if done s then s else f s l) s :=
  foldUntil_eq_foldl s (walks_labelings hk (Nat.zero_le k)) (labels?_start hk)
    (length_labelings_le_bound hk)

end PartitionCursor
end Muster
