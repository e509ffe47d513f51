import Mathlib.Tactic

/-!
# Deterministic machines that use up their input

A machine takes one step at a time, emits events, and stops when a step leaves no state.  Every step
that goes on uses something up, so a run is a finite list of events and a total function of the
state it starts from.

* `Machine.run`: all events of the run from a state.
* `Machine.Reaches`: some steps of it, with their events; `Reaches.trans`, `Reaches.invariant`.
* `Reaches.run_eq`: what has been reached splits the run.
* `mem_run_iff`: an event of the run is an event of the step at some state that the run reaches.
* `run_induction`: induction along a run.
* `run_eq_append_last`: a run ends with the events of a step that leaves no state.
* `run_of_simulation`: a machine that follows another step by step shows the same events.
-/

namespace LsmFork

/-- A step gives the events and the next state, if there is one. -/
structure Machine (σ ε : Type*) where
  step : σ → List ε × Option σ
  fuel : σ → ℕ
  fuel_lt : ∀ {s s' : σ}, (step s).2 = some s' → fuel s' < fuel s

namespace Machine

variable {σ ε : Type*} (m : Machine σ ε)

/-- The events of the run from a state. -/
def run (s : σ) : List ε :=
  match h : (m.step s).2 with
  | none => (m.step s).1
  | some s' =>
    have : m.fuel s' < m.fuel s := m.fuel_lt h
    (m.step s).1 ++ run s'
termination_by m.fuel s

theorem run_of_none {s : σ} {evs : List ε} (h : m.step s = (evs, none)) : m.run s = evs := by
  rw [run]
  split
  · rw [h]
  · rename_i h'
    rw [h] at h'
    cases h'

theorem run_of_some {s s' : σ} {evs : List ε} (h : m.step s = (evs, some s')) :
    m.run s = evs ++ m.run s' := by
  rw [run]
  split
  · rename_i h'
    rw [h] at h'
    cases h'
  · rename_i h'
    rw [h] at h'
    obtain rfl := Option.some.inj h'
    show (m.step s).1 ++ m.run s' = evs ++ m.run s'
    rw [h]

/-- Some steps lead from one state to another, with these events. -/
inductive Reaches : σ → List ε → σ → Prop
  | refl (s : σ) : Reaches s [] s
  | head {s s' s'' : σ} {evs evs' : List ε} (h : m.step s = (evs, some s'))
      (hrest : Reaches s' evs' s'') : Reaches s (evs ++ evs') s''

variable {m} {s s' s'' : σ} {evs evs' : List ε}

theorem Reaches.single (h : m.step s = (evs, some s')) : m.Reaches s evs s' := by
  have hone := Reaches.head h (Reaches.refl s')
  rwa [List.append_nil] at hone

theorem Reaches.trans (h : m.Reaches s evs s') (h' : m.Reaches s' evs' s'') :
    m.Reaches s (evs ++ evs') s'' := by
  induction h with
  | refl s => exact h'
  | head hstep _ ih =>
    rw [List.append_assoc]
    exact .head hstep (ih h')

theorem Reaches.run_eq (h : m.Reaches s evs s') : m.run s = evs ++ m.run s' := by
  induction h with
  | refl s => rfl
  | head hstep _ ih => rw [m.run_of_some hstep, ih, List.append_assoc]

/-- What a step preserves holds in every state reached. -/
theorem Reaches.invariant {I : σ → Prop}
    (hstep : ∀ {s s' : σ} {evs : List ε}, I s → m.step s = (evs, some s') → I s')
    (h : m.Reaches s evs s') (hs : I s) : I s' := by
  induction h with
  | refl s => exact hs
  | head hone _ ih => exact ih (hstep hs hone)

/-- What is true of the events of every step that goes on is true of all events on the way. -/
theorem Reaches.forall_events {Q : ε → Prop}
    (hstep : ∀ {s s' : σ} {evs : List ε}, m.step s = (evs, some s') → ∀ e ∈ evs, Q e)
    (h : m.Reaches s evs s') : ∀ e ∈ evs, Q e := by
  induction h with
  | refl s => exact fun e he => absurd he List.not_mem_nil
  | head hone _ ih =>
    intro e he
    rcases List.mem_append.mp he with he | he
    · exact hstep hone e he
    · exact ih e he

/-- **Induction along a run**: the step that leaves no state, and a step before a shorter run. -/
theorem run_induction {P : σ → List ε → Prop}
    (stop : ∀ {s : σ} {evs : List ε}, m.step s = (evs, none) → P s evs)
    (go : ∀ {s s' : σ} {evs : List ε}, m.step s = (evs, some s') → P s' (m.run s') →
      P s (evs ++ m.run s')) (s : σ) : P s (m.run s) := by
  generalize hn : m.fuel s = n
  induction n using Nat.strong_induction_on generalizing s with
  | _ n ih =>
    cases hstep : m.step s with
    | mk evs next =>
      cases next with
      | none =>
        rw [m.run_of_none hstep]
        exact stop hstep
      | some s' =>
        have hlt : m.fuel s' < n := hn ▸ m.fuel_lt (by rw [hstep])
        rw [m.run_of_some hstep]
        exact go hstep (ih _ hlt s' rfl)

/-- **A run ends** with the events of a step that leaves no state. -/
theorem run_eq_append_last (s : σ) :
    ∃ evs s', m.Reaches s evs s' ∧ (m.step s').2 = none ∧ m.run s = evs ++ (m.step s').1 := by
  refine m.run_induction (P := fun s run => ∃ evs s', m.Reaches s evs s' ∧
    (m.step s').2 = none ∧ run = evs ++ (m.step s').1) ?_ ?_ s
  · intro s evs hstep
    exact ⟨[], s, .refl s, by rw [hstep], by rw [hstep]; rfl⟩
  · rintro s s' evs hstep ⟨evs', last, hreach, hnone, hrun⟩
    exact ⟨evs ++ evs', last, .head hstep hreach, hnone, by rw [hrun, List.append_assoc]⟩

/-- **A machine that follows another step by step** shows the events of the other, where `f` and `g`
pick the events that are compared. -/
theorem run_of_simulation {τ ε' δ : Type*} {m' : Machine τ ε'} {f : ε → Option δ}
    {g : ε' → Option δ} {R : σ → τ → Prop}
    (hstep : ∀ {s : σ} {t : τ}, R s t →
      (m.step s).1.filterMap f = (m'.step t).1.filterMap g ∧
        Option.Rel R (m.step s).2 (m'.step t).2)
    {s : σ} {t : τ} (h : R s t) : (m.run s).filterMap f = (m'.run t).filterMap g := by
  generalize hn : m.fuel s = n
  induction n using Nat.strong_induction_on generalizing s t with
  | _ n ih =>
    obtain ⟨hevents, hnext⟩ := hstep h
    cases hs : m.step s with
    | mk evs next =>
      cases ht : m'.step t with
      | mk evs' next' =>
        rw [hs, ht] at hevents hnext
        dsimp only at hevents hnext
        cases hnext with
        | none => rw [m.run_of_none hs, m'.run_of_none ht, hevents]
        | some hrel =>
          have hlt := hn ▸ m.fuel_lt (congrArg Prod.snd hs)
          rw [m.run_of_some hs, m'.run_of_some ht, List.filterMap_append, List.filterMap_append,
            hevents, ih _ hlt hrel rfl]

/-- **Every event of a run** is an event of the step at a state that the run reaches. -/
theorem mem_run_iff {e : ε} :
    e ∈ m.run s ↔ ∃ evs s', m.Reaches s evs s' ∧ e ∈ (m.step s').1 := by
  constructor
  · intro he
    generalize hn : m.fuel s = n
    induction n using Nat.strong_induction_on generalizing s with
    | _ n ih =>
      cases hstep : m.step s with
      | mk evs next =>
        cases next with
        | none =>
          rw [m.run_of_none hstep] at he
          exact ⟨[], s, .refl s, by rw [hstep]; exact he⟩
        | some s' =>
          rw [m.run_of_some hstep, List.mem_append] at he
          rcases he with he | he
          · exact ⟨[], s, .refl s, by rw [hstep]; exact he⟩
          · have hlt : m.fuel s' < n := hn ▸ m.fuel_lt (by rw [hstep])
            obtain ⟨evs', s'', hreach, hmem⟩ := ih _ hlt he rfl
            exact ⟨evs ++ evs', s'', .head hstep hreach, hmem⟩
  · rintro ⟨evs, s', hreach, he⟩
    rw [hreach.run_eq, List.mem_append]
    right
    cases hstep : m.step s' with
    | mk evs' next =>
      rw [hstep] at he
      cases next with
      | none => rw [m.run_of_none hstep]; exact he
      | some s'' => rw [m.run_of_some hstep]; exact List.mem_append_left _ he

end Machine
end LsmFork
