import Muster.Proofs.Pool.Listing

/-!
Limits that are given on the way. Whatever calls are made on an enumeration, until it is exhausted
it is at the pool of its position. That it is exhausted is found out as it moves on or goes back,
against the limit of that time; a limit that is given later only counts from the next move on,
unless it is zero. So an enumeration is exhausted just when as many pools as the limit allows have
been passed, except after a limit that came too late (`IsLate`): one that is exceeded already and
would have to stop it, or one that would have to take back that it is exhausted.

Main statements: `goesThrough_after`, `isLate_concat_move`, `exhausted_after_iff`.
-/

namespace Muster

/-- A call on an enumeration. -/
inductive EnumerationCall where
  | advance
  /-- Takes the current pool. -/
  | next
  | restart
  | withLimit (limit : Nat)
deriving DecidableEq

namespace EnumerationCall

/-- The enumeration after a call. -/
def perform (e : Enumeration) : EnumerationCall → Enumeration
  | advance => e.advance
  | next => (e.next?.map Prod.snd).getD e
  | restart => e.restart
  | withLimit limit => e.withLimit limit

/-- The limit that a call gives. -/
def limit? : EnumerationCall → Option Nat
  | withLimit limit => some limit
  | _ => none

/-- Whether a call only moves on. -/
def IsMove (c : EnumerationCall) : Prop := c = advance ∨ c = next

instance (c : EnumerationCall) : Decidable c.IsMove := inferInstanceAs (Decidable (_ ∨ _))

variable {e : Enumeration} {c : EnumerationCall}

theorem IsMove.perform_eq (hc : c.IsMove) : c.perform e = e.advance := by
  rcases hc with rfl | rfl
  · rfl
  · cases hexhausted : e.exhausted with
    | true =>
      simp [perform, Enumeration.next?_eq_none_iff.2 hexhausted,
        Enumeration.advance_of_exhausted hexhausted]
    | false => simp [perform, Enumeration.next?_eq_some_iff.2 ⟨hexhausted, rfl, rfl⟩]

theorem IsMove.limit?_eq (hc : c.IsMove) : c.limit? = none := by
  rcases hc with rfl | rfl <;> rfl

end EnumerationCall

namespace Enumeration

open EnumerationCall (IsMove)

variable {budget : Nat} {mode : EnumerationMode} {bound : Pool} {start e : Enumeration}
  {calls later : List EnumerationCall} {c : EnumerationCall} {limit : Nat}

/-- The enumeration after some calls. -/
def after (start : Enumeration) (calls : List EnumerationCall) : Enumeration :=
  calls.foldl EnumerationCall.perform start

/-- The limit that was given last. -/
def lastLimit (calls : List EnumerationCall) : Option Nat :=
  (calls.filterMap EnumerationCall.limit?).getLast?

theorem after_concat (start : Enumeration) (calls : List EnumerationCall) (c : EnumerationCall) :
    start.after (calls ++ [c]) = c.perform (start.after calls) := by
  simp [after]

theorem lastLimit_concat (calls : List EnumerationCall) (c : EnumerationCall) :
    lastLimit (calls ++ [c]) = c.limit?.or (lastLimit calls) := by
  rw [lastLimit, List.filterMap_append]
  cases hc : c.limit? <;> simp [hc, lastLimit]

/-! ### Where calls lead -/

theorem GoesThrough.withLimit (h : GoesThrough bound budget mode e) (limit : Nat) :
    GoesThrough bound budget mode (e.withLimit limit) := by
  refine ⟨h.budget_eq, h.mode_eq, h.dials_eq, h.isSetting, fun hlive => ?_⟩
  rw [Enumeration.withLimit, Bool.or_eq_false_iff] at hlive
  exact h.getElem?_eq hlive.1

theorem GoesThrough.standsAt_restart (h : GoesThrough bound budget mode e) :
    StandsAt bound budget mode e.limit e.restart := by
  have hrestart := (Enumeration.standsAt_restart h.dials_eq).1
  rwa [h.budget_eq, h.mode_eq] at hrestart

theorem GoesThrough.perform (h : GoesThrough bound budget mode e) (c : EnumerationCall) :
    GoesThrough bound budget mode (c.perform e) := by
  have hmove : GoesThrough bound budget mode e.advance := by
    cases hexhausted : e.exhausted with
    | true => rwa [advance_of_exhausted hexhausted]
    | false => exact (h.standsAt_advance hexhausted).goesThrough
  cases c with
  | advance => exact hmove
  | next => rwa [IsMove.perform_eq (.inr rfl)]
  | restart => exact h.standsAt_restart.goesThrough
  | withLimit limit => exact h.withLimit limit

theorem limit_moveOn (e : Enumeration) : e.moveOn.limit = e.limit := by
  rcases moveOn_cases e with ⟨-, heq⟩ | ⟨ws, -, heq⟩ <;> rw [heq]

theorem limit_advance (e : Enumeration) : e.advance.limit = e.limit := by
  rw [advance_eq]
  split_ifs
  · rfl
  · rfl
  · exact limit_moveOn _

theorem limit_restart (e : Enumeration) : e.restart.limit = e.limit := by
  rw [Enumeration.restart]
  split
  · rfl
  · exact limit_moveOn _

theorem limit_perform (e : Enumeration) (c : EnumerationCall) :
    (c.perform e).limit = c.limit?.or e.limit := by
  cases c with
  | advance => exact limit_advance e
  | next =>
    rw [IsMove.perform_eq (.inr rfl)]
    exact limit_advance e
  | restart => exact limit_restart e
  | withLimit limit => rfl

/-- Whatever calls were made, the enumeration goes on through the same pools, with the limit that
was given last. -/
theorem goesThrough_after (bound : Pool) (budget : Nat) (mode : EnumerationMode)
    (calls : List EnumerationCall) :
    GoesThrough bound budget mode ((within bound budget mode).after calls) ∧
      ((within bound budget mode).after calls).limit = lastLimit calls := by
  induction calls using List.reverseRecOn with
  | nil =>
    have hstart := (standsAt_within bound budget mode).1
    exact ⟨hstart.goesThrough, hstart.limit_eq⟩
  | append_singleton calls c ih =>
    rw [after_concat, limit_perform, lastLimit_concat, ih.2]
    exact ⟨ih.1.perform c, rfl⟩

theorem GoesThrough.position_lt (h : GoesThrough bound budget mode e)
    (hlive : e.exhausted = false) : e.position < (poolsWithin bound budget mode).length := by
  rw [poolsWithin, List.length_map]
  exact (List.getElem?_eq_some_iff.1 (h.getElem?_eq hlive)).1

theorem GoesThrough.current?_eq (h : GoesThrough bound budget mode e)
    (hlive : e.exhausted = false) : e.current? = (poolsWithin bound budget mode)[e.position]? := by
  rw [poolsWithin, List.getElem?_map, h.getElem?_eq hlive, current?, hlive]
  rfl

/-! ### Late limits -/

/-- An enumeration is exhausted just if all pools that a limit allows have been passed. -/
def Heeds (pools : Nat) (limit : Option Nat) (e : Enumeration) : Prop :=
  e.exhausted = true ↔ limitTo limit pools ≤ e.position

theorem StandsAt.heeds {limit : Option Nat} (h : StandsAt bound budget mode limit e) :
    e.Heeds (poolsWithin bound budget mode).length limit := by
  rw [Heeds, ← length_upTo, poolsWithin, upTo_map, List.length_map, ← List.getElem?_eq_none_iff,
    h.getElem?_eq]
  cases e.exhausted <;> simp

/-- Whether the last limit came too late: more pools than it allows had been passed already, and
there was no move since, or the enumeration was exhausted already before the limit. -/
def IsLate (start : Enumeration) (calls : List EnumerationCall) : Prop :=
  ∃ earlier limit later, calls = earlier ++ .withLimit limit :: later ∧
    ((start.after earlier).exhausted = false ∧ 0 < limit ∧
        limit ≤ (start.after earlier).position ∧ later = [] ∨
      (start.after earlier).exhausted = true ∧
        (start.after earlier).position < limitTo (some limit) start.toList.length ∧
        ∀ c ∈ later, c.IsMove)

/-- Moving on does nothing once the enumeration is exhausted. -/
theorem after_moves (h : e.exhausted = true) (hlater : ∀ c ∈ later, c.IsMove) :
    e.after later = e := by
  induction later with
  | nil => rfl
  | cons c later ih =>
    obtain ⟨hc, hlater⟩ := List.forall_mem_cons.1 hlater
    show (c.perform e).after later = e
    rw [hc.perform_eq, advance_of_exhausted h]
    exact ih hlater

theorem concat_eq_append_cons {α : Type} {xs ys zs : List α} {x y : α}
    (h : xs ++ [x] = ys ++ y :: zs) :
    zs = [] ∧ xs = ys ∧ x = y ∨ ∃ ws, zs = ws ++ [x] ∧ xs = ys ++ y :: ws := by
  rcases List.eq_nil_or_concat zs with rfl | ⟨ws, z, rfl⟩
  · obtain ⟨rfl, hx⟩ := List.append_inj' h rfl
    exact .inl ⟨rfl, rfl, (List.cons.inj hx).1⟩
  · rw [List.concat_eq_append, ← List.cons_append, ← List.append_assoc] at h
    obtain ⟨rfl, hx⟩ := List.append_inj' h rfl
    obtain rfl := (List.cons.inj hx).1
    exact .inr ⟨ws, List.concat_eq_append, rfl⟩

theorem isLate_concat_withLimit : IsLate start (calls ++ [.withLimit limit]) ↔
    (start.after calls).exhausted = false ∧ 0 < limit ∧ limit ≤ (start.after calls).position ∨
    (start.after calls).exhausted = true ∧
      (start.after calls).position < limitTo (some limit) start.toList.length := by
  constructor
  · rintro ⟨earlier, limit', later, heq, h⟩
    rcases concat_eq_append_cons heq with ⟨rfl, rfl, hlimit⟩ | ⟨later, rfl, rfl⟩
    · obtain rfl := EnumerationCall.withLimit.inj hlimit
      rcases h with ⟨hlive, hpos, hle, -⟩ | ⟨hended, hlt, -⟩
      · exact .inl ⟨hlive, hpos, hle⟩
      · exact .inr ⟨hended, hlt⟩
    · rcases h with ⟨-, -, -, hnone⟩ | ⟨-, -, hmoves⟩
      · simp at hnone
      · have hlast := hmoves (.withLimit limit) (by simp)
        exact absurd hlast (by simp [IsMove])
  · rintro (⟨hlive, hpos, hle⟩ | ⟨hended, hlt⟩)
    · exact ⟨calls, limit, [], rfl, .inl ⟨hlive, hpos, hle, rfl⟩⟩
    · exact ⟨calls, limit, [], rfl, .inr ⟨hended, hlt, by simp⟩⟩

theorem not_isLate_nil : ¬ IsLate start [] := by
  rintro ⟨earlier, limit, later, heq, -⟩
  simp at heq

theorem not_isLate_concat_restart : ¬ IsLate start (calls ++ [.restart]) := by
  rintro ⟨earlier, limit, later, heq, h⟩
  rcases concat_eq_append_cons heq with ⟨-, -, hcall⟩ | ⟨later, rfl, rfl⟩
  · simp at hcall
  · rcases h with ⟨-, -, -, hnone⟩ | ⟨-, -, hmoves⟩
    · simp at hnone
    · exact absurd (hmoves .restart (by simp)) (by simp [IsMove])

/-- A late limit stays late as long as the enumeration cannot move. -/
theorem isLate_concat_move (hc : c.IsMove) : IsLate start (calls ++ [c]) ↔
    (start.after calls).exhausted = true ∧ IsLate start calls := by
  constructor
  · rintro ⟨earlier, limit, later, heq, h⟩
    rcases concat_eq_append_cons heq with ⟨-, -, rfl⟩ | ⟨later, rfl, rfl⟩
    · exact absurd hc (by simp [IsMove])
    · rcases h with ⟨-, -, -, hnone⟩ | ⟨hended, hlt, hmoves⟩
      · simp at hnone
      · have hlater : ∀ d ∈ later, d.IsMove := fun d hd => hmoves d (by simp [hd])
        refine ⟨?_, earlier, limit, later, rfl, .inr ⟨hended, hlt, hlater⟩⟩
        have hlimit : ((start.after earlier).withLimit limit).exhausted = true := by
          simp [withLimit, hended]
        have hafter : start.after (earlier ++ .withLimit limit :: later) =
            ((start.after earlier).withLimit limit).after later := by
          simp [after, EnumerationCall.perform]
        rw [hafter, after_moves hlimit hlater]
        exact hlimit
  · rintro ⟨hexhausted, earlier, limit, later, rfl, h⟩
    rcases h with ⟨hlive, hpos, -, rfl⟩ | ⟨hended, hlt, hmoves⟩
    · rw [after_concat] at hexhausted
      simp [EnumerationCall.perform, withLimit, hlive, hpos.ne'] at hexhausted
    · refine ⟨earlier, limit, later ++ [c], by simp, .inr ⟨hended, hlt, ?_⟩⟩
      intro d hd
      rcases List.mem_append.1 hd with hd | hd
      · exact hmoves d hd
      · rwa [List.mem_singleton.1 hd]

/-! ### Any calls -/

theorem toList_within (bound : Pool) (budget : Nat) (mode : EnumerationMode) :
    (within bound budget mode).toList = poolsWithin bound budget mode :=
  toList_limited bound budget mode none

/-- A new limit is heeded just if it is zero while there are pools left, or what it asks for is so
already. -/
theorem GoesThrough.heeds_withLimit_iff (h : GoesThrough bound budget mode e) (limit : Nat) :
    (e.withLimit limit).Heeds (poolsWithin bound budget mode).length (some limit) ↔
      ¬ (e.exhausted = false ∧ 0 < limit ∧ limit ≤ e.position ∨
        e.exhausted = true ∧
          e.position < limitTo (some limit) (poolsWithin bound budget mode).length) := by
  have hexhausted : (e.withLimit limit).exhausted = (e.exhausted || limit == 0) := rfl
  have hposition : (e.withLimit limit).position = e.position := rfl
  rw [Heeds, hexhausted, hposition, limitTo, Option.elim_some]
  cases hlive : e.exhausted with
  | true =>
    simp only [Bool.true_or, true_iff, Bool.true_eq_false, false_and, true_and, false_or, not_lt]
  | false =>
    have hlt := h.position_lt hlive
    simp only [Bool.false_or, beq_iff_eq, true_and, Bool.false_eq_true, false_and, or_false]
    omega

/-- The limit that was given last is heeded unless it came too late. -/
theorem heeds_after_iff (bound : Pool) (budget : Nat) (mode : EnumerationMode)
    (calls : List EnumerationCall) :
    ((within bound budget mode).after calls).Heeds (poolsWithin bound budget mode).length
        (lastLimit calls) ↔ ¬ IsLate (within bound budget mode) calls := by
  induction calls using List.reverseRecOn with
  | nil => exact iff_of_true (standsAt_within bound budget mode).1.heeds not_isLate_nil
  | append_singleton calls c ih =>
    obtain ⟨hgoes, hlimit⟩ := goesThrough_after bound budget mode calls
    have hmove (hc : c.IsMove) : (c.perform ((within bound budget mode).after calls)).Heeds
        (poolsWithin bound budget mode).length (lastLimit (calls ++ [c])) ↔
        ¬ IsLate (within bound budget mode) (calls ++ [c]) := by
      rw [hc.perform_eq, lastLimit_concat, hc.limit?_eq, Option.none_or, isLate_concat_move hc]
      cases hexhausted : ((within bound budget mode).after calls).exhausted with
      | true => rwa [advance_of_exhausted hexhausted, and_iff_right rfl]
      | false =>
        rw [← hlimit]
        exact iff_of_true (hgoes.standsAt_advance hexhausted).heeds (by simp)
    rw [after_concat]
    cases c with
    | advance => exact hmove (.inl rfl)
    | next => exact hmove (.inr rfl)
    | restart =>
      rw [lastLimit_concat]
      refine iff_of_true ?_ not_isLate_concat_restart
      show (restart _).Heeds _ (lastLimit calls)
      rw [← hlimit]
      exact hgoes.standsAt_restart.heeds
    | withLimit limit =>
      rw [lastLimit_concat, isLate_concat_withLimit, toList_within]
      exact hgoes.heeds_withLimit_iff limit

/-- Whatever calls are made on an enumeration, until it is exhausted it is at the pool that comes at
its position when there is no limit. It is exhausted just when it has passed as many pools as there
are and the last limit allows, unless that limit came too late; so it never is at a pool beyond a
limit that did not. -/
theorem exhausted_after_iff (bound : Pool) (budget : Nat) (mode : EnumerationMode)
    (calls : List EnumerationCall) :
    let start := within bound budget mode
    let e := start.after calls
    (e.exhausted = false → e.current? = start.toList[e.position]?) ∧
    ((e.exhausted = true ↔ limitTo (lastLimit calls) start.toList.length ≤ e.position) ↔
      ¬ IsLate start calls) ∧
    (¬ IsLate start calls → ∀ p, e.current? = some p → p ∈ upTo (lastLimit calls) start.toList) := by
  intro start e
  obtain ⟨hgoes, -⟩ := goesThrough_after bound budget mode calls
  have hheeds : e.Heeds _ (lastLimit calls) ↔ _ := heeds_after_iff bound budget mode calls
  have hlist : start.toList = poolsWithin bound budget mode := toList_within bound budget mode
  rw [hlist]
  refine ⟨hgoes.current?_eq, hheeds, fun hlate p hp => ?_⟩
  cases hexhausted : e.exhausted with
  | true => simp [current?, hexhausted] at hp
  | false =>
    rw [hgoes.current?_eq hexhausted] at hp
    have hwithin := mt (hheeds.2 hlate).2 (by simp [hexhausted])
    rw [← length_upTo, ← List.getElem?_eq_none_iff] at hwithin
    have hlimit := Bool.eq_false_of_not_eq_true (mt getElem?_upTo_of_le hwithin)
    exact List.mem_of_getElem? ((getElem?_upTo hlimit).trans hp)

/-- A limit of one that comes after two moves stops nothing before the next move, so that the third
pool shows; and an enumeration that a limit of one has stopped stays so under a limit of three. -/
theorem exhausted_docksAndRover :
    let start := within docksAndRover 3 .max
    let passed := start.after [.advance, .advance, .withLimit 1]
    let stopped := start.after [.withLimit 1, .advance, .withLimit 3]
    start.toList.length = 5 ∧
    (passed.position = 2 ∧ ¬ (passed.exhausted = true ↔ min 1 start.toList.length ≤ 2) ∧
      passed.current? = some (.ofPairs [(⟨"Rover"⟩, 1)]) ∧
      .ofPairs [(⟨"Rover"⟩, 1)] ∉ start.toList.take 1) ∧
    stopped.position = 1 ∧ ¬ (stopped.exhausted = true ↔ min 3 start.toList.length ≤ 1) := by
  decide +kernel

end Enumeration
end Muster
