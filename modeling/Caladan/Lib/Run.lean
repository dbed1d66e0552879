import Mathlib.Data.Option.Basic
import Mathlib.Data.List.Basic
import Mathlib.Data.Finset.Max

/-!
# Runs of a partial step function

A system given by `step : σ → ι → Option σ` (the step on an input, `none` where the input is not
enabled) runs a list of inputs, stopping at the first one that is not enabled. A property that
every step keeps holds along every run, and of every state a run reaches.
-/

namespace StepRun

variable {σ ι : Type*} (step : σ → ι → Option σ)

/-- The state after the inputs `is`, or `none` if one of them is not enabled on the way. -/
def run : σ → List ι → Option σ
  | s, [] => some s
  | s, i :: is => (step s i).bind (run · is)

/-- `s'` is reached from `s` by some run. -/
def Reachable (s s' : σ) : Prop := ∃ is, run step s is = some s'

/-- `I` holds after every enabled step from a state where it holds. -/
def Invariant (I : σ → Prop) : Prop := ∀ s i s', I s → step s i = some s' → I s'

/-- `I` holds after every enabled step on an input that satisfies `P`, from a state where it
holds: an invariant of the runs whose inputs all satisfy `P`. -/
def InvariantOn (P : ι → Prop) (I : σ → Prop) : Prop :=
  ∀ s i s', P i → I s → step s i = some s' → I s'

variable {step}

@[simp] theorem run_nil (s : σ) : run step s [] = some s := rfl

theorem run_cons (s : σ) (i : ι) (is : List ι) :
    run step s (i :: is) = (step s i).bind (run step · is) := rfl

theorem run_cons_eq_some {s s' : σ} {i : ι} {is : List ι} :
    run step s (i :: is) = some s' ↔ ∃ s₁, step s i = some s₁ ∧ run step s₁ is = some s' :=
  Option.bind_eq_some_iff

theorem run_append (s : σ) (is js : List ι) :
    run step s (is ++ js) = (run step s is).bind (run step · js) := by
  induction is generalizing s with
  | nil => rfl
  | cons i is ih =>
    rw [List.cons_append, run_cons, run_cons, Option.bind_assoc]
    simp only [ih]

theorem run_snoc_eq_some {s s' : σ} {is : List ι} {i : ι} :
    run step s (is ++ [i]) = some s' ↔ ∃ s₁, run step s is = some s₁ ∧ step s₁ i = some s' := by
  rw [run_append, Option.bind_eq_some_iff]
  simp [run_cons]

/-- The invariant rule: what holds at the start and is kept by every step holds after a run. -/
theorem Invariant.run {I : σ → Prop} (hI : Invariant step I) :
    ∀ {s s' : σ} {is : List ι}, I s → run step s is = some s' → I s'
  | _, _, [], h, hs => Option.some_injective _ hs ▸ h
  | _, _, _ :: _, h, hs => by
    obtain ⟨s₁, h₁, hs⟩ := run_cons_eq_some.1 hs
    exact hI.run (hI _ _ _ h h₁) hs

/-- The invariant rule for runs whose inputs all satisfy `P`. -/
theorem InvariantOn.run {P : ι → Prop} {I : σ → Prop} (hI : InvariantOn step P I) :
    ∀ {s s' : σ} {is : List ι}, (∀ i ∈ is, P i) → I s → run step s is = some s' → I s'
  | _, _, [], _, h, hs => Option.some_injective _ hs ▸ h
  | _, _, i :: _, hP, h, hs => by
    obtain ⟨s₁, h₁, hs⟩ := run_cons_eq_some.1 hs
    exact hI.run (fun j hj => hP j (List.mem_cons_of_mem i hj))
      (hI _ _ _ (hP i List.mem_cons_self) h h₁) hs

/-- The exit rule: if every step that leaves `P` lands in `Q`, a run from a `P`-state to a state
outside `P` has a prefix that ends in `Q`. -/
theorem Invariant.run_exit {I P Q : σ → Prop} (hI : Invariant step I)
    (hexit : ∀ s i s', I s → P s → step s i = some s' → ¬ P s' → Q s') :
    ∀ {s s' : σ} {is : List ι}, I s → P s → StepRun.run step s is = some s' → ¬ P s' →
      ∃ is₀ is₁ s₀, is = is₀ ++ is₁ ∧ StepRun.run step s is₀ = some s₀ ∧ Q s₀
  | _, _, [], _, hP, hs, hn => absurd (Option.some_injective _ hs ▸ hP) hn
  | s, _, i :: _, h, hP, hs, hn => by
    obtain ⟨s₁, h₁, hs⟩ := run_cons_eq_some.1 hs
    by_cases hP₁ : P s₁
    · -- still in `P`: the exit is further along
      obtain ⟨is₀, is₁, s₀, rfl, h₀, hQ⟩ := hI.run_exit hexit (hI _ _ _ h h₁) hP₁ hs hn
      exact ⟨i :: is₀, is₁, s₀, rfl, run_cons_eq_some.2 ⟨s₁, h₁, h₀⟩, hQ⟩
    · exact ⟨[i], _, s₁, rfl, run_cons_eq_some.2 ⟨s₁, h₁, rfl⟩, hexit s i s₁ h hP h₁ hP₁⟩

theorem Reachable.refl (s : σ) : Reachable step s s := ⟨[], rfl⟩

theorem Reachable.tail {s s₁ s' : σ} {i : ι} (h : Reachable step s s₁) (h₁ : step s₁ i = some s') :
    Reachable step s s' := by
  obtain ⟨is, his⟩ := h
  exact ⟨is ++ [i], run_snoc_eq_some.2 ⟨s₁, his, h₁⟩⟩

theorem Invariant.and {I J : σ → Prop} (hI : Invariant step I)
    (hJ : ∀ s i s', I s → J s → step s i = some s' → J s') :
    Invariant step fun s => I s ∧ J s :=
  fun s i s' h hs => ⟨hI s i s' h.1 hs, hJ s i s' h.1 h.2 hs⟩

/-- The rank rule for waits-for relations: if every edge between members of `S` lowers `rank`,
some member of a nonempty `S` waits on no member of `S`. -/
theorem exists_waits_outside {α : Type*} {r : α → α → Prop} (rank : α → ℕ) {S : Finset α}
    (hS : S.Nonempty) (h : ∀ a ∈ S, ∀ b ∈ S, r a b → rank b < rank a) :
    ∃ a ∈ S, ∀ b ∈ S, ¬ r a b := by
  -- a member of least rank
  obtain ⟨a, ha, hmin⟩ := S.exists_min_image rank hS
  exact ⟨a, ha, fun b hb hab => Nat.lt_irrefl _ (Nat.lt_of_lt_of_le (h a ha b hb hab) (hmin b hb))⟩

end StepRun
