import Mathlib

/-!
# Chains of contiguous ranges

A list of items, each covering the range from `lo a` to `hi a`, is a chain from `s` to `e` when
the first starts at `s`, each starts where the one before it ends, and the last ends at `e` (an
empty chain has `s = e`). Queues of buffers that cover consecutive parts of a stream are such
chains; appending, splitting and dropping a prefix are the operations the lemmas here are about.
-/

namespace Contig

variable {α β : Type*} (lo hi : α → β)

/-- The items of `l` cover contiguous ranges from `s` to `e`. -/
def Chain : List α → β → β → Prop
  | [], s, e => s = e
  | a :: l, s, e => lo a = s ∧ Chain l (hi a) e

instance decChain [DecidableEq β] : ∀ (l : List α) (s e : β), Decidable (Chain lo hi l s e)
  | [], s, e => inferInstanceAs (Decidable (s = e))
  | a :: l, s, e =>
    have := decChain l (hi a) e
    inferInstanceAs (Decidable (lo a = s ∧ Chain lo hi l (hi a) e))

variable {lo hi}

@[simp] theorem chain_nil {s e : β} : Chain lo hi [] s e ↔ s = e := Iff.rfl

@[simp] theorem chain_cons {a : α} {l : List α} {s e : β} :
    Chain lo hi (a :: l) s e ↔ lo a = s ∧ Chain lo hi l (hi a) e := Iff.rfl

theorem chain_append {l₁ l₂ : List α} {s e : β} :
    Chain lo hi (l₁ ++ l₂) s e ↔ ∃ t, Chain lo hi l₁ s t ∧ Chain lo hi l₂ t e := by
  induction l₁ generalizing s with
  | nil => simp
  | cons a l ih =>
    simp only [List.cons_append, chain_cons, ih]
    constructor
    · rintro ⟨rfl, t, h₁, h₂⟩; exact ⟨t, ⟨rfl, h₁⟩, h₂⟩
    · rintro ⟨t, ⟨rfl, h₁⟩, h₂⟩; exact ⟨rfl, t, h₁, h₂⟩

theorem chain_singleton {a : α} {s e : β} : Chain lo hi [a] s e ↔ lo a = s ∧ hi a = e := by
  simp [eq_comm]

/-- A chain extended by an item starting at its end. -/
theorem Chain.snoc {l : List α} {s e : β} {a : α} (h : Chain lo hi l s e) (ha : lo a = e) :
    Chain lo hi (l ++ [a]) s (hi a) :=
  chain_append.mpr ⟨e, h, chain_singleton.mpr ⟨ha, rfl⟩⟩

/-- The last item of a chain can be replaced by one with the same range. -/
theorem Chain.replace_last {l : List α} {a a' : α} {s e : β} (h : Chain lo hi (l ++ [a]) s e)
    (hlo : lo a' = lo a) (hhi : hi a' = hi a) : Chain lo hi (l ++ [a']) s e := by
  obtain ⟨t, h₁, h₂⟩ := chain_append.mp h
  obtain ⟨ha, he⟩ := chain_singleton.mp h₂
  exact chain_append.mpr ⟨t, h₁, chain_singleton.mpr ⟨hlo.trans ha, hhi.trans he⟩⟩

end Contig
