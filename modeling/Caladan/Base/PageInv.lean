import Mathlib
import Caladan.Lib.Run
import Caladan.Base.Page

/-!
# The slots of the large page tables

Every run of `pageStep` keeps the bookkeeping `SlotOk`: a slot on a free list, or with a live
reference, lies below its node's `idx`, and slots at or past `idx` have no reference. When
`lgpage_create` never fails, every slot below `idx` is also on the free list or referenced
(`Covered`), so each slot of each table is in exactly one of the three states. A failed
`lgpage_create` breaks `Covered` for good: the slot it was given is in none of them on every
later run.
-/

namespace Caladan

open StepRun

namespace PageSys

variable {s t : PageSys} {n m g i : Nat}

/-- `g` is a slot of node `n`'s table below its `idx`, one that `lgpage_alloc_on_node` has
handed out. -/
def Issued (s : PageSys) (n g : Nat) : Prop := ∃ i < s.idx n, g = tblSlot n i

theorem Issued.mono (h : s.Issued n g) (hle : s.idx n ≤ t.idx n) : t.Issued n g := by
  obtain ⟨i, hi, rfl⟩ := h
  exact ⟨i, by omega, rfl⟩

/-- What every run keeps, failures of `lgpage_create` included. -/
structure SlotOk (s : PageSys) : Prop where
  idx_le : ∀ n, s.idx n ≤ lgpageMetaEnts
  nodup : ∀ n, (s.pages n).Nodup
  /-- a slot on a free list was handed out by that node, and is flagged free -/
  free : ∀ n g, g ∈ s.pages n → s.Issued n g ∧ s.flags g = 0 ∧ s.ref g = 0
  fresh : ∀ n i, s.idx n ≤ i → i < lgpageMetaEnts → s.ref (tblSlot n i) = 0
  live : ∀ g, 0 < s.ref g → s.flags g = pageFlagLarge ||| pageFlagInUse ∧ ∃ n, s.Issued n g

theorem init_slotOk : init.SlotOk where
  idx_le _ := Nat.zero_le _
  nodup _ := List.nodup_nil
  free _ _ h := absurd h List.not_mem_nil
  fresh _ _ _ _ := rfl
  live _ h := absurd h (lt_irrefl 0)

namespace SlotOk

theorem issued_node (h : s.SlotOk) (h₁ : s.Issued n g) (h₂ : s.Issued m g) : n = m := by
  obtain ⟨i, hi, rfl⟩ := h₁
  obtain ⟨j, hj, he⟩ := h₂
  exact (tblSlot_inj ((h.idx_le n).trans_lt' hi) ((h.idx_le m).trans_lt' hj) he).1

theorem issued_lt (h : s.SlotOk) (hg : s.Issued n g) :
    ∃ i < lgpageMetaEnts, i < s.idx n ∧ g = tblSlot n i := by
  obtain ⟨i, hi, rfl⟩ := hg
  exact ⟨i, (h.idx_le n).trans_lt' hi, hi, rfl⟩

theorem not_issued (h : s.SlotOk) (hi : s.idx n ≤ i) (hiE : i < lgpageMetaEnts) :
    ¬ s.Issued m (tblSlot n i) := by
  rintro ⟨j, hj, he⟩
  obtain ⟨rfl, rfl⟩ := tblSlot_inj hiE ((h.idx_le m).trans_lt' hj) he
  omega

theorem not_mem_of_ref (h : s.SlotOk) (hr : 0 < s.ref g) : ∀ m, g ∉ s.pages m := by
  intro m hm
  have := (h.free m g hm).2.2
  omega

/-- Changing the reference count of a referenced slot. -/
theorem setRef (h : s.SlotOk) (hr : 0 < s.ref g) (v : Nat) :
    { s with ref := Function.update s.ref g v }.SlotOk where
  idx_le := h.idx_le
  nodup := h.nodup
  free m g' hm := by
    have hne : g' ≠ g := fun he => h.not_mem_of_ref hr m (he ▸ hm)
    obtain ⟨h₁, h₂, h₃⟩ := h.free m g' hm
    exact ⟨h₁, h₂, by simpa [Function.update_of_ne hne] using h₃⟩
  fresh m i hi hiE := by
    have hne : tblSlot m i ≠ g := by
      rintro rfl
      exact absurd (h.fresh m i hi hiE) (Nat.pos_iff_ne_zero.mp hr)
    simpa [Function.update_of_ne hne] using h.fresh m i hi hiE
  live g' hr' := by
    by_cases he : g' = g
    · subst he
      exact h.live g' hr
    · simp only [Function.update_of_ne he] at hr' ⊢
      exact h.live g' hr'

end SlotOk

/-! ## Taking a slot -/

/-- What `lgpage_alloc_on_node` takes under the node lock: the head of the free list, or the
slot at `idx`, which moves up. -/
theorem takeSlot_eq_some (ht : s.takeSlot n = some (g, t)) :
    t.flags = s.flags ∧ t.ref = s.ref ∧
      ((s.pages n = g :: t.pages n ∧ t.idx = s.idx ∧ ∀ m, m ≠ n → t.pages m = s.pages m) ∨
        (s.pages n = [] ∧ s.idx n < lgpageMetaEnts ∧ g = tblSlot n (s.idx n) ∧
          t.pages = s.pages ∧ t.idx = Function.update s.idx n (s.idx n + 1))) := by
  unfold takeSlot at ht
  cases hp : s.pages n with
  | cons h rest =>
    simp only [hp, Option.some.injEq, Prod.mk.injEq] at ht
    obtain ⟨rfl, rfl⟩ := ht
    exact ⟨rfl, rfl, .inl ⟨by simp, rfl, fun m hm => by simp [hm]⟩⟩
  | nil =>
    simp only [hp] at ht
    split_ifs at ht with hle
    simp only [Option.some.injEq, Prod.mk.injEq] at ht
    obtain ⟨rfl, rfl⟩ := ht
    exact ⟨rfl, rfl, .inr ⟨rfl, by omega, rfl, rfl, rfl⟩⟩

theorem takeSlot_mem (ht : s.takeSlot n = some (g, t)) :
    g ∈ s.pages n ∨ s.idx n < lgpageMetaEnts ∧ g = tblSlot n (s.idx n) := by
  obtain ⟨-, -, ⟨hp, -⟩ | ⟨-, hi, rfl, -⟩⟩ := takeSlot_eq_some ht
  · exact .inl (hp ▸ List.mem_cons_self)
  · exact .inr ⟨hi, rfl⟩

theorem takeSlot_idx_le (ht : s.takeSlot n = some (g, t)) (m : Nat) : s.idx m ≤ t.idx m := by
  obtain ⟨-, -, ⟨-, hidx, -⟩ | ⟨-, -, -, -, hidx⟩⟩ := takeSlot_eq_some ht
  · rw [hidx]
  · rw [hidx]
    by_cases hm : m = n
    · subst hm
      simp
    · simp [Function.update_of_ne hm]

theorem takeSlot_pages_sub (ht : s.takeSlot n = some (g, t)) (m : Nat) :
    ∀ x ∈ t.pages m, x ∈ s.pages m := by
  intro x hx
  obtain ⟨-, -, ⟨hp, -, hrest⟩ | ⟨-, -, -, hpages, -⟩⟩ := takeSlot_eq_some ht
  · by_cases hm : m = n
    · subst hm
      rw [hp]
      exact List.mem_cons_of_mem _ hx
    · rwa [← hrest m hm]
  · rwa [← hpages]

/-- The slot taken is out of every list and unreferenced, and the rest of the bookkeeping
holds: a slot in hand between the two critical sections. -/
theorem SlotOk.takeSlot (h : s.SlotOk) (ht : s.takeSlot n = some (g, t)) :
    t.SlotOk ∧ t.Issued n g ∧ (∀ m, g ∉ t.pages m) ∧ t.ref g = 0 := by
  obtain ⟨hflags, href, hcase⟩ := takeSlot_eq_some ht
  have hmono := takeSlot_idx_le ht
  have hsub := takeSlot_pages_sub ht
  rcases hcase with ⟨hp, hidx, hrest⟩ | ⟨hp, hi, rfl, hpages, hidx⟩
  · -- the head of the free list
    have hg := h.free n g (hp ▸ List.mem_cons_self)
    have hnd := h.nodup n
    rw [hp, List.nodup_cons] at hnd
    refine ⟨⟨fun m => hidx ▸ h.idx_le m, fun m => ?_, fun m x hx => ?_, ?_, ?_⟩,
      hg.1.mono (hmono n), fun m hm => ?_, href ▸ hg.2.2⟩
    · by_cases hm : m = n
      · exact hm ▸ hnd.2
      · exact hrest m hm ▸ h.nodup m
    · obtain ⟨hx₁, hx₂, hx₃⟩ := h.free m x (hsub m x hx)
      exact ⟨hx₁.mono (hmono m), hflags ▸ hx₂, href ▸ hx₃⟩
    · simpa only [hidx, href] using h.fresh
    · intro x hx
      obtain ⟨hx₁, n', hx₂⟩ := h.live x (href ▸ hx)
      exact ⟨hflags ▸ hx₁, n', hx₂.mono (hmono n')⟩
    · by_cases hmn : m = n
      · exact hnd.1 (hmn ▸ hm)
      · exact hmn (h.issued_node hg.1 (h.free m g (hsub m g hm)).1).symm
  · -- the slot at `idx`
    refine ⟨⟨fun m => ?_, hpages ▸ h.nodup, fun m x hx => ?_, fun m i' hi' hiE => ?_, ?_⟩,
      ⟨s.idx n, by simp [hidx], rfl⟩, fun m hm => ?_, href ▸ h.fresh n _ le_rfl hi⟩
    · by_cases hm : m = n
      · subst hm
        simp [hidx]
        omega
      · simpa [hidx, Function.update_of_ne hm] using h.idx_le m
    · obtain ⟨hx₁, hx₂, hx₃⟩ := h.free m x (hpages ▸ hx)
      exact ⟨hx₁.mono (hmono m), hflags ▸ hx₂, href ▸ hx₃⟩
    · exact href ▸ h.fresh m i' ((hmono m).trans hi') hiE
    · intro x hx
      obtain ⟨hx₁, n', hx₂⟩ := h.live x (href ▸ hx)
      exact ⟨hflags ▸ hx₁, n', hx₂.mono (hmono n')⟩
    · exact h.not_issued le_rfl hi (h.free m _ (hpages ▸ hm)).1

/-! ## The calls -/

theorem mem_update_cons {f : Nat → List Nat} {n m g x : Nat} :
    x ∈ Function.update f n (g :: f n) m ↔ (m = n ∧ x = g) ∨ x ∈ f m := by
  by_cases hm : m = n
  · subst hm
    simp
  · simp [hm]

/-- `lgpage_create` succeeding on a slot in hand. -/
theorem SlotOk.create (h : t.SlotOk) (hg : t.Issued n g) (hnot : ∀ m, g ∉ t.pages m) :
    { t with
      flags := Function.update t.flags g (pageFlagLarge ||| pageFlagInUse)
      ref := Function.update t.ref g 1 }.SlotOk where
  idx_le := h.idx_le
  nodup := h.nodup
  free m x hx := by
    have hne : x ≠ g := fun he => hnot m (he ▸ hx)
    obtain ⟨h₁, h₂, h₃⟩ := h.free m x hx
    exact ⟨h₁, by simpa [Function.update_of_ne hne] using h₂,
      by simpa [Function.update_of_ne hne] using h₃⟩
  fresh m i hi hiE := by
    have hne : tblSlot m i ≠ g := fun he => h.not_issued hi hiE (he ▸ hg)
    simpa [Function.update_of_ne hne] using h.fresh m i hi hiE
  live x hx := by
    by_cases he : x = g
    · subst he
      simpa using ⟨n, hg⟩
    · simp only [Function.update_of_ne he] at hx ⊢
      exact h.live x hx

theorem SlotOk.lgpageAllocOnNode (h : s.SlotOk) (n : Nat) (created : Bool) :
    (s.lgpageAllocOnNode n created).1.SlotOk := by
  unfold PageSys.lgpageAllocOnNode
  cases ht : s.takeSlot n with
  | none => exact h
  | some p =>
    obtain ⟨g, t⟩ := p
    obtain ⟨ht', hg, hnot, -⟩ := h.takeSlot ht
    cases created
    · exact ht'
    · exact ht'.create hg hnot

/-- `lgpage_free` of a slot out of every list and unreferenced: it goes back on the list of the
node whose table holds it. -/
theorem SlotOk.lgpageFree (h : s.SlotOk) (hg : s.Issued n g) (hnot : ∀ m, g ∉ s.pages m)
    (href : s.ref g = 0) : (s.lgpageFree g).SlotOk := by
  obtain ⟨i, hiE, -, rfl⟩ := h.issued_lt hg
  have hnode : addrToNumaNode (lgpageToAddr (tblSlot n i)) = n := addrToNumaNode_tblSlot hiE
  refine ⟨h.idx_le, fun m => ?_, fun m x hx => ?_, h.fresh, fun x hx => ?_⟩
  · rw [lgpageFree_pages, hnode]
    by_cases hm : m = n
    · subst hm
      rw [Function.update_self, List.nodup_cons]
      exact ⟨hnot m, h.nodup m⟩
    · rw [Function.update_of_ne hm]
      exact h.nodup m
  · rw [lgpageFree_pages, hnode, mem_update_cons] at hx
    rcases hx with ⟨rfl, rfl⟩ | hx
    · exact ⟨hg, by simp, href⟩
    · have hne : x ≠ tblSlot n i := fun he => hnot m (he ▸ hx)
      obtain ⟨h₁, h₂, h₃⟩ := h.free m x hx
      exact ⟨h₁, by simpa [Function.update_of_ne hne] using h₂, h₃⟩
  · have hne : x ≠ tblSlot n i := by
      rintro rfl
      exact absurd href (Nat.pos_iff_ne_zero.mp hx)
    obtain ⟨h₁, n', h₂⟩ := h.live x hx
    exact ⟨by simpa [Function.update_of_ne hne] using h₁, n', h₂⟩

theorem SlotOk.pagePut (h : s.SlotOk) (hr : 0 < s.ref g) : (s.pagePut g).SlotOk := by
  have h' := h.setRef hr (s.ref g - 1)
  unfold PageSys.pagePut
  split_ifs with hz
  · -- the last reference: `page_release`
    obtain ⟨-, n, hg⟩ := h.live g hr
    exact h'.lgpageFree hg (h.not_mem_of_ref hr) (by simpa using hz)
  · exact h'

/-- What a call can do: each is taken only under its guard. -/
theorem pageStep_eq_some {op : PageOp} {s' : PageSys} (hs : pageStep s op = some s') :
    (∃ n created, op = .alloc n created ∧ n < nnuma ∧ s' = (s.lgpageAllocOnNode n created).1) ∨
      (∃ g, op = .get g ∧ 0 < s.ref g ∧ s' = s.pageGet g) ∨
      (∃ g, op = .put g ∧ 0 < s.ref g ∧ s' = s.pagePut g) := by
  cases op with
  | alloc n created =>
    obtain ⟨hn, hs⟩ := Option.ite_none_right_eq_some.mp hs
    exact .inl ⟨n, created, rfl, hn, (Option.some.inj hs).symm⟩
  | get g =>
    obtain ⟨hr, hs⟩ := Option.ite_none_right_eq_some.mp hs
    exact .inr (.inl ⟨g, rfl, hr, (Option.some.inj hs).symm⟩)
  | put g =>
    obtain ⟨hr, hs⟩ := Option.ite_none_right_eq_some.mp hs
    exact .inr (.inr ⟨g, rfl, hr, (Option.some.inj hs).symm⟩)

theorem pageStep_slotOk : Invariant pageStep SlotOk := by
  intro s op s' h hs
  rcases pageStep_eq_some hs with ⟨n, created, rfl, -, rfl⟩ | ⟨g, rfl, hr, rfl⟩ | ⟨g, rfl, hr, rfl⟩
  · exact h.lgpageAllocOnNode n created
  · exact h.setRef hr _
  · exact h.pagePut hr

/-! ## Runs without failures -/

/-- Every slot handed out is on its node's free list or referenced. -/
def Covered (s : PageSys) : Prop :=
  ∀ n, ∀ i < s.idx n, tblSlot n i ∈ s.pages n ∨ 0 < s.ref (tblSlot n i)

theorem init_covered : init.Covered := fun _ _ h => absurd h (Nat.not_lt_zero _)

/-- After a slot is taken only that slot may be uncovered. -/
theorem Covered.takeSlot (hc : s.Covered) (ht : s.takeSlot n = some (g, t)) :
    ∀ m, ∀ i < t.idx m, tblSlot m i = g ∨ tblSlot m i ∈ t.pages m ∨ 0 < t.ref (tblSlot m i) := by
  obtain ⟨-, href, hcase⟩ := takeSlot_eq_some ht
  intro m i hi
  rw [href]
  rcases hcase with ⟨hp, hidx, hrest⟩ | ⟨hp, -, rfl, hpages, hidx⟩
  · rw [hidx] at hi
    rcases hc m i hi with hm | hm
    · by_cases hmn : m = n
      · subst hmn
        rw [hp, List.mem_cons] at hm
        rcases hm with hm | hm
        · exact .inl hm
        · exact .inr (.inl hm)
      · exact .inr (.inl (hrest m hmn ▸ hm))
    · exact .inr (.inr hm)
  · rw [hpages]
    by_cases he : m = n ∧ i = s.idx n
    · obtain ⟨rfl, rfl⟩ := he
      exact .inl rfl
    · have hi' : i < s.idx m := by
        by_cases hmn : m = n
        · subst hmn
          simp only [hidx, Function.update_self] at hi
          omega
        · simpa [hidx, Function.update_of_ne hmn] using hi
      exact .inr (hc m i hi')

theorem Covered.lgpageAllocOnNode (hc : s.Covered) (n : Nat) :
    (s.lgpageAllocOnNode n true).1.Covered := by
  unfold PageSys.lgpageAllocOnNode
  cases ht : s.takeSlot n with
  | none => exact hc
  | some p =>
    obtain ⟨g, t⟩ := p
    intro m i hi
    rcases hc.takeSlot ht m i hi with he | hm | hr
    · exact .inr (by simp [he])
    · exact .inl hm
    · by_cases he : tblSlot m i = g
      · exact .inr (by simp [he])
      · exact .inr (by simpa [Function.update_of_ne he] using hr)

theorem Covered.pageGet (hc : s.Covered) (g : Nat) : (s.pageGet g).Covered := by
  intro m i hi
  rcases hc m i hi with hm | hr
  · exact .inl hm
  · right
    by_cases he : tblSlot m i = g
    · simp [he]
    · simpa [Function.update_of_ne he] using hr

theorem Covered.pagePut (h : s.SlotOk) (hc : s.Covered) (hr : 0 < s.ref g) :
    (s.pagePut g).Covered := by
  obtain ⟨-, n, hg⟩ := h.live g hr
  obtain ⟨j, hjE, -, rfl⟩ := h.issued_lt hg
  have hnode : addrToNumaNode (lgpageToAddr (tblSlot n j)) = n := addrToNumaNode_tblSlot hjE
  intro m i hi
  rw [pagePut_idx] at hi
  rw [pagePut_ref, pagePut_pages, lgpageFree_pages, hnode]
  by_cases he : tblSlot m i = tblSlot n j
  · -- the slot put: still referenced, or back on its node's list
    obtain ⟨rfl, rfl⟩ := tblSlot_inj ((h.idx_le m).trans_lt' hi) hjE he
    split_ifs with hz
    · exact .inl (by simp)
    · exact .inr (by simp; omega)
  · -- any other slot keeps its reference, and its place on a list
    rcases hc m i hi with hm | hr'
    · left
      split_ifs
      · exact mem_update_cons.mpr (.inr hm)
      · exact hm
    · exact .inr (by simpa [Function.update_of_ne he] using hr')

theorem pageStep_covered : InvariantOn pageStep (fun op => op.createOk = true)
    (fun s => s.SlotOk ∧ s.Covered) := by
  intro s op s' hop ⟨h, hc⟩ hs
  refine ⟨pageStep_slotOk s op s' h hs, ?_⟩
  rcases pageStep_eq_some hs with ⟨n, created, rfl, -, rfl⟩ | ⟨g, rfl, -, rfl⟩ | ⟨g, rfl, hr, rfl⟩
  · -- a run without failures creates every page it is asked for
    simp only [PageOp.createOk] at hop
    subst hop
    exact hc.lgpageAllocOnNode n
  · exact hc.pageGet g
  · exact hc.pagePut h hr

/-! ## The states of a slot -/

theorem SlotOk.slotIn_free (h : s.SlotOk) :
    s.slotIn n i .free = decide (tblSlot n i ∈ s.pages n) := by
  by_cases hm : tblSlot n i ∈ s.pages n
  · simp [slotIn, hm, (h.free n _ hm).2.1]
  · simp [slotIn, hm]

theorem SlotOk.slotIn_allocated (h : s.SlotOk) :
    s.slotIn n i .allocated = decide (0 < s.ref (tblSlot n i)) := by
  by_cases hr : 0 < s.ref (tblSlot n i)
  · simp [slotIn, hr, (h.live _ hr).1, pageFlagLarge, pageFlagInUse]
  · simp [slotIn, hr]

/-- On a run whose `lgpage_create` calls all succeed, every slot of every node's table is in
exactly one state: past `idx`, on the node's free list with no flags, or in use with a live
reference. -/
theorem pageRun_slot_states {ops : List PageOp} {s : PageSys}
    (hops : ∀ op ∈ ops, op.createOk = true) (hrun : run pageStep init ops = some s) :
    ∀ n i, i < lgpageMetaEnts → ∃! st, s.slotIn n i st = true := by
  obtain ⟨h, hc⟩ := pageStep_covered.run hops ⟨init_slotOk, init_covered⟩ hrun
  intro n i hiE
  by_cases hu : s.idx n ≤ i
  · refine ⟨.unused, by simp [slotIn, hu], fun st hst => ?_⟩
    cases st with
    | unused => rfl
    | free =>
      rw [h.slotIn_free, decide_eq_true_iff] at hst
      exact absurd (h.free n _ hst).1 (h.not_issued hu hiE)
    | allocated =>
      rw [h.slotIn_allocated, decide_eq_true_iff, h.fresh n i hu hiE] at hst
      exact absurd hst (lt_irrefl 0)
  · have hunused : s.slotIn n i .unused = false := by simp [slotIn, hu]
    rcases hc n i (by omega) with hm | hr
    · have hr : s.ref (tblSlot n i) = 0 := (h.free n _ hm).2.2
      refine ⟨.free, by simp [h.slotIn_free, hm], fun st hst => ?_⟩
      cases st with
      | unused => simp [hunused] at hst
      | free => rfl
      | allocated => simp [h.slotIn_allocated, hr] at hst
    · refine ⟨.allocated, by simp [h.slotIn_allocated, hr], fun st hst => ?_⟩
      cases st with
      | unused => simp [hunused] at hst
      | free => simp [h.slotIn_free, h.not_mem_of_ref hr n] at hst
      | allocated => rfl

theorem pageRun_slot_states_churn :
    ∃ s, run pageStep init [.alloc 0 true, .alloc 0 true, .put 0, .alloc 0 true, .alloc 1 true] =
      some s ∧ ∀ n i, i < lgpageMetaEnts → ∃! st, s.slotIn n i st = true :=
  ⟨_, rfl, @pageRun_slot_states [.alloc 0 true, .alloc 0 true, .put 0, .alloc 0 true, .alloc 1 true]
    _ (by decide) rfl⟩

/-! ## A failed `lgpage_create` -/

/-- Slot `i` of node `n` has been handed out but is on no free list and has no reference. -/
def Lost (s : PageSys) (n i : Nat) : Prop :=
  i < lgpageMetaEnts ∧ i < s.idx n ∧ (∀ m, tblSlot n i ∉ s.pages m) ∧ s.ref (tblSlot n i) = 0

theorem Lost.slotIn (h : s.Lost n i) (st : SlotState) : s.slotIn n i st = false := by
  obtain ⟨-, hi, hnot, hr⟩ := h
  cases st with
  | unused =>
    simp only [PageSys.slotIn, decide_eq_false_iff_not, not_le]
    exact hi
  | free => simp [PageSys.slotIn, hnot n]
  | allocated => simp [PageSys.slotIn, hr]

/-- No call gives a lost slot out again or puts it back on a list. -/
theorem pageStep_lost : Invariant pageStep (fun s => s.Lost n i) := by
  intro s op s' ⟨hiE, hi, hnot, hr⟩ hs
  rcases pageStep_eq_some hs with ⟨m, created, rfl, -, rfl⟩ | ⟨g, rfl, hg, rfl⟩ | ⟨g, rfl, hg, rfl⟩
  · unfold PageSys.lgpageAllocOnNode
    cases ht : s.takeSlot m with
    | none => exact ⟨hiE, hi, hnot, hr⟩
    | some p =>
      obtain ⟨g, t⟩ := p
      obtain ⟨-, href, -⟩ := takeSlot_eq_some ht
      -- the slot taken is another one
      have hne : tblSlot n i ≠ g := by
        rintro rfl
        rcases takeSlot_mem ht with hm | ⟨hm, he⟩
        · exact hnot m hm
        · obtain ⟨rfl, rfl⟩ := tblSlot_inj hiE hm he
          omega
      have ht' : t.Lost n i :=
        ⟨hiE, lt_of_lt_of_le hi (takeSlot_idx_le ht n),
          fun m' hm => hnot m' (takeSlot_pages_sub ht m' _ hm), href ▸ hr⟩
      cases created
      · exact ht'
      · exact ⟨hiE, ht'.2.1, ht'.2.2.1, by simpa [Function.update_of_ne hne] using ht'.2.2.2⟩
  · have hne : tblSlot n i ≠ g := by
      rintro rfl
      omega
    exact ⟨hiE, hi, hnot, by simpa [Function.update_of_ne hne] using hr⟩
  · have hne : tblSlot n i ≠ g := by
      rintro rfl
      omega
    refine ⟨hiE, by simpa using hi, fun m hm => ?_, by simpa [Function.update_of_ne hne] using hr⟩
    rw [pagePut_pages] at hm
    split_ifs at hm
    · rcases mem_update_cons.mp hm with ⟨-, he⟩ | hm
      · exact hne he
      · exact hnot m hm
    · exact hnot m hm

/-- `lgpage_alloc_on_node` loses the slot it took when `lgpage_create` fails. -/
theorem SlotOk.lost_of_failed (h : s.SlotOk) (ht : s.takeSlot n = some (g, t)) :
    (s.lgpageAllocOnNode n false).1 = t ∧ ∃ i, g = tblSlot n i ∧ t.Lost n i := by
  obtain ⟨ht', hg, hnot, hr⟩ := h.takeSlot ht
  obtain ⟨i, hiE, hi, rfl⟩ := ht'.issued_lt hg
  refine ⟨by simp [PageSys.lgpageAllocOnNode, ht], i, rfl, hiE, hi, hnot, hr⟩

end PageSys

open PageSys

/-- `lgpage_alloc_on_node` takes a slot from the free list or at `idx` before it calls
`lgpage_create`, and returns `NULL` without giving the slot back when that fails. On every
reachable state, an allocation on a node that finds a slot and then meets the failure leaves a
slot of the node's table that every later run keeps out of all three states: not past `idx`, not
on the free list, not in use. -/
theorem lgpageAlloc_failure_loses_slot (ops : List PageOp) (s t : PageSys) (n g : Nat)
    (hrun : run pageStep init ops = some s) (hn : n < nnuma)
    (ht : s.takeSlot n = some (g, t)) :
    pageStep s (.alloc n false) = some t ∧ ∃ i < lgpageMetaEnts, g = tblSlot n i ∧
      ∀ ops' s', run pageStep t ops' = some s' → ∀ st, s'.slotIn n i st = false := by
  have h : s.SlotOk := pageStep_slotOk.run init_slotOk hrun
  obtain ⟨hstep, i, rfl, hlost⟩ := h.lost_of_failed ht
  refine ⟨by simp [pageStep, hn, hstep], i, hlost.1, rfl, fun ops' s' hrun' st => ?_⟩
  exact (pageStep_lost.run hlost hrun').slotIn st

theorem lgpageAlloc_failure_loses_slot_first :
    pageStep init (.alloc 0 false) = some { init with idx := Function.update init.idx 0 1 } ∧
      ∃ i < lgpageMetaEnts, 0 = tblSlot 0 i ∧
        ∀ ops' s', run pageStep { init with idx := Function.update init.idx 0 1 } ops' = some s' →
          ∀ st, s'.slotIn 0 i st = false :=
  lgpageAlloc_failure_loses_slot [] init _ 0 0 rfl (by decide) rfl

end Caladan
