import Muster.Proofs.Wiring.Calls
import Muster.Proofs.Wiring.Ranks

/-!
Problems drafted by hand. The search takes instances of one model for alike as long as nothing is
wired to them. If the calls give instances of one model as many endpoints of each type then they are
alike, and the search answers whether there is a connected wiring, in whatever order it tries
choices. If they do not, the search may look at the wrong one of two instances, and its answer may
depend on that order.

Main statements: `IsEven.isUniform_build`, `isFeasible_iff_of_solve`, `infeasible_unevenRovers`.
-/

namespace Muster

open WiringDraft

/-- Instances of one model are given as many endpoints of each type. -/
def IsEven (calls : List DraftCall) : Prop :=
  ∀ i j m, (calls.filterMap DraftCall.instance?)[i]? = some m →
    (calls.filterMap DraftCall.instance?)[j]? = some m →
    ∀ type, calls.count (.addEndpoint i type) = calls.count (.addEndpoint j type)

/-- Instances of one model with as many endpoints of each type can be exchanged. -/
theorem IsEven.isUniform_build {calls : List DraftCall} (heven : IsEven calls) {d : WiringDraft}
    (h : d.Records calls) : d.build.IsUniform := by
  refine h.names.isUniform_build fun i j m hi hj type => ?_
  rw [count_addEndpoint, count_addEndpoint]
  exact heven i j m hi hj type

section Solve

variable {calls : List DraftCall} {d : WiringDraft} (hd : ofCalls calls = .ok d)
  {s : WiringSolver} (hs : s.IsReachable) (b : Brancher) {μ : Type} [WiringObserver μ] (monitor : μ)
include hd hs

/-- Where the search finds a wiring there is a connected one. -/
theorem exists_isConnectedWiring_of_solve
    (h : (s.solve d.build b monitor).outcome.result.isFeasible = true) :
    ∃ wires, d.build.IsConnectedWiring wires := by
  have hp := (records_ofCalls hd).names.isProper_build
  cases hresult : (s.solve d.build b monitor).outcome.result with
  | feasible g =>
    obtain ⟨w, hw, hconnected, -⟩ := WiringSolver.isSolution_of_solve hs hp b monitor hresult
    exact ⟨_, hw.isConnectedWiring hp hconnected⟩
  | infeasible =>
    rw [hresult] at h
    exact absurd h Bool.false_ne_true
  | unknown =>
    rw [hresult] at h
    exact absurd h Bool.false_ne_true

/-- If instances of one model are given as many endpoints of each type, a search that comes to an
answer finds a wiring just if there is a connected one, whichever brancher it uses. -/
theorem isFeasible_iff_of_solve (heven : IsEven calls)
    (h : (s.solve d.build b monitor).outcome.result ≠ .unknown) :
    (s.solve d.build b monitor).outcome.result.isFeasible ↔
      ∃ wires, d.build.IsConnectedWiring wires := by
  refine ⟨exists_isConnectedWiring_of_solve hd hs b monitor, ?_⟩
  rintro ⟨wires, hwires⟩
  have hrecords := records_ofCalls hd
  cases hresult : (s.solve d.build b monitor).outcome.result with
  | feasible g => rfl
  | infeasible =>
    exact absurd hwires (WiringSolver.not_isConnectedWiring_of_solve hs
      hrecords.names.isProper_build b monitor (heven.isUniform_build hrecords) hresult wires)
  | unknown => exact absurd hresult h

end Solve

/-- A dock with a socket and two rovers with a plug and a socket each. -/
def evenRovers : List DraftCall :=
  [.addInstance ⟨"Dock"⟩, .addInstance ⟨"Rover"⟩, .addInstance ⟨"Rover"⟩,
    .addEndpoint 0 ⟨"Socket"⟩, .addEndpoint 1 ⟨"Plug"⟩, .addEndpoint 1 ⟨"Socket"⟩,
    .addEndpoint 2 ⟨"Plug"⟩, .addEndpoint 2 ⟨"Socket"⟩, .addCompatible ⟨"Plug"⟩ ⟨"Socket"⟩]

theorem isEven_evenRovers : IsEven evenRovers := by
  have hrovers : ∀ type, evenRovers.count (.addEndpoint 1 type) =
      evenRovers.count (.addEndpoint 2 type) := by
    intro type
    simp [evenRovers, List.count_cons]
  intro i j m hi hj type
  have hmodels : evenRovers.filterMap DraftCall.instance? =
      [⟨"Dock"⟩, ⟨"Rover"⟩, ⟨"Rover"⟩] := rfl
  rw [hmodels] at hi hj
  match i, j, hi, hj with
  | 0, 0, _, _ | 1, 1, _, _ | 2, 2, _, _ => rfl
  | 1, 2, _, _ => exact hrovers type
  | 2, 1, _, _ => exact (hrovers type).symm
  | 0, 1, hi, hj | 0, 2, hi, hj | 1, 0, hj, hi | 2, 0, hj, hi => simp [← hi] at hj
  | _ + 3, _, hi, _ | _, _ + 3, _, hi => simp at hi

/-- The draft of the calls. -/
def evenDraft : WiringDraft where
  models := #[⟨"Dock"⟩, ⟨"Rover"⟩]
  instanceModels := #[0, 1, 1]
  types := #[⟨"Socket"⟩, ⟨"Plug"⟩]
  ends := #[(0, 0), (1, 1), (1, 0), (2, 1), (2, 0)]
  compatible := [(1, 0)]

theorem isFeasible_iff_of_solve_evenRovers : ofCalls evenRovers = .ok evenDraft ∧
    IsEven evenRovers ∧
    (({} : WiringSolver).solve evenDraft.build .lexicographic
      WiringMonitor.silent).outcome.result ≠ .unknown ∧
    ∃ wires, evenDraft.build.IsConnectedWiring wires := by
  have hdraft : ofCalls evenRovers = .ok evenDraft := by decide +kernel
  have hfound : (({} : WiringSolver).solve evenDraft.build .lexicographic
      WiringMonitor.silent).outcome.result.isFeasible = true := by decide +kernel
  have hknown : (({} : WiringSolver).solve evenDraft.build .lexicographic
      WiringMonitor.silent).outcome.result ≠ .unknown := by decide +kernel
  exact ⟨hdraft, isEven_evenRovers, hknown,
    (isFeasible_iff_of_solve hdraft .new .lexicographic WiringMonitor.silent isEven_evenRovers
      hknown).1 hfound⟩

/-- A dock with a socket, a rover with a plug, and a rover with a plug and a socket. -/
def unevenRovers : List DraftCall :=
  [.addInstance ⟨"Dock"⟩, .addInstance ⟨"Rover"⟩, .addInstance ⟨"Rover"⟩,
    .addEndpoint 0 ⟨"Socket"⟩, .addEndpoint 1 ⟨"Plug"⟩, .addEndpoint 2 ⟨"Plug"⟩,
    .addEndpoint 2 ⟨"Socket"⟩, .addCompatible ⟨"Plug"⟩ ⟨"Socket"⟩]

/-- The draft of the calls. -/
def unevenDraft : WiringDraft where
  models := #[⟨"Dock"⟩, ⟨"Rover"⟩]
  instanceModels := #[0, 1, 1]
  types := #[⟨"Socket"⟩, ⟨"Plug"⟩]
  ends := #[(0, 0), (1, 1), (2, 1), (2, 0)]
  compatible := [(1, 0)]

/-- The dock can be wired to the second rover only, and that to the first. In the order of the
endpoints the search tries just the first of the two rovers at the dock, and then gives up; by merit
it begins elsewhere and finds the wiring. -/
theorem infeasible_unevenRovers : ofCalls unevenRovers = .ok unevenDraft ∧
    (({} : WiringSolver).solve unevenDraft.build .lexicographic
      WiringMonitor.silent).outcome.result = .infeasible ∧
    (({} : WiringSolver).solve unevenDraft.build .lexicographic
      WiringMonitor.silent).outcome.reason = .searchSpaceExhausted ∧
    (({} : WiringSolver).solve unevenDraft.build (.start 0 .merit)
      WiringMonitor.silent).outcome.result.isFeasible = true ∧
    ∃ wires, unevenDraft.build.IsConnectedWiring wires := by
  have hdraft : ofCalls unevenRovers = .ok unevenDraft := by decide +kernel
  have hfound : (({} : WiringSolver).solve unevenDraft.build (.start 0 .merit)
      WiringMonitor.silent).outcome.result.isFeasible = true := by decide +kernel
  exact ⟨hdraft, by decide +kernel, by decide +kernel, hfound,
    exists_isConnectedWiring_of_solve hdraft .new (.start 0 .merit) WiringMonitor.silent hfound⟩

end Muster
