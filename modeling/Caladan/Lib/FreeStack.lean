import Mathlib

/-!
# Free stacks

A pool of items kept as an array `arr` with a stack pointer `sp`: the slots from `sp` up hold the
free items, the slots below it are spent. Taking an item reads `arr[sp]` and moves `sp` up; giving
an item back writes it into `arr[sp - 1]` and moves `sp` down. `Holds arr sp out all` says that
the items out are the multiset `out`, `sp` of them, and that the free slots and `out` together
make up the pool's items `all`.
-/

namespace FreeStack

variable {α : Type*} {arr : List α} {sp : Nat} {out all : Multiset α} {x : α}

/-- `sp` items are out, and they and the free slots make up `all`. -/
structure Holds (arr : List α) (sp : Nat) (out all : Multiset α) : Prop where
  sp_eq : sp = Multiset.card out
  items : ((arr.drop sp : List α) : Multiset α) + out = all

theorem Holds.out_le (h : Holds arr sp out all) : out ≤ all :=
  h.items ▸ Multiset.le_add_left _ _

theorem Holds.mem (h : Holds arr sp out all) (hx : x ∈ out) : x ∈ all :=
  Multiset.mem_of_le h.out_le hx

theorem Holds.nodup (h : Holds arr sp out all) (hall : all.Nodup) : out.Nodup :=
  Multiset.nodup_of_le h.out_le hall

/-- Taking the item of slot `sp`. -/
theorem Holds.take (h : Holds arr sp out all) (hsp : sp < arr.length) :
    Holds arr (sp + 1) (arr[sp] ::ₘ out) all where
  sp_eq := by rw [Multiset.card_cons, h.sp_eq]
  items := by
    rw [← h.items, List.drop_eq_getElem_cons hsp, ← Multiset.cons_coe, Multiset.add_cons,
      Multiset.cons_add]

/-- Giving back an item that is out, into slot `sp - 1`. -/
theorem Holds.give [DecidableEq α] (h : Holds arr sp out all) (hx : x ∈ out)
    (hsp : sp ≤ arr.length) :
    Holds (arr.set (sp - 1) x) (sp - 1) (out.erase x) all where
  sp_eq := by rw [Multiset.card_erase_of_mem hx, h.sp_eq]; rfl
  items := by
    have hpos : 0 < sp := h.sp_eq ▸ Multiset.card_pos_iff_exists_mem.mpr ⟨x, hx⟩
    have hlt : sp - 1 < (arr.set (sp - 1) x).length := by rw [List.length_set]; omega
    rw [List.drop_eq_getElem_cons hlt, List.getElem_set_self, Nat.sub_add_cancel hpos,
      List.drop_set_of_lt (by omega), ← Multiset.cons_coe, ← h.items, Multiset.cons_add,
      ← Multiset.add_cons, Multiset.cons_erase hx]

end FreeStack
