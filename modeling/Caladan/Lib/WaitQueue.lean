import Mathlib

/-!
# Queues of parked threads

A blocking primitive keeps the threads it parks on a FIFO queue and gives each thread a state.
`Tracks parked ws pc` says the queue `ws` holds exactly the threads whose state is `parked`, each
once. Parking a thread appends it, waking one pops the head, and waking all empties the queue
(`wakeAll`); each keeps `Tracks` when the new states are not `parked`.
-/

namespace WaitQueue

variable {T P : Type}

/-- The queue holds exactly the threads in state `parked`, each once. -/
structure Tracks (parked : P) (ws : List T) (pc : T → P) : Prop where
  mem_iff : ∀ t, pc t = parked ↔ t ∈ ws
  nodup : ws.Nodup

variable {parked p : P} {ws : List T} {pc : T → P} {t w : T}

theorem Tracks.nil (hp : p ≠ parked) : Tracks parked [] (fun _ : T => p) :=
  ⟨fun _ => by simpa using hp, List.nodup_nil⟩

theorem Tracks.not_mem (h : Tracks parked ws pc) (ht : pc t ≠ parked) : t ∉ ws :=
  fun hm => ht ((h.mem_iff t).mpr hm)

variable [DecidableEq T]

/-- The threads of `ws` get the state `p`, the others keep theirs. -/
def wakeAll (ws : List T) (pc : T → P) (p : P) : T → P := fun x => if x ∈ ws then p else pc x

@[simp] theorem wakeAll_of_mem {x : T} (hx : x ∈ ws) : wakeAll ws pc p x = p := if_pos hx

@[simp] theorem wakeAll_of_not_mem {x : T} (hx : x ∉ ws) : wakeAll ws pc p x = pc x := if_neg hx

/-- A thread not on the queue changes to a state other than `parked`. -/
theorem Tracks.setPc (h : Tracks parked ws pc) (ht : pc t ≠ parked) (hp : p ≠ parked) :
    Tracks parked ws (Function.update pc t p) := by
  refine ⟨fun x => ?_, h.nodup⟩
  by_cases hx : x = t
  · subst hx
    simp only [Function.update_self]
    exact ⟨fun he => absurd he hp, fun hm => absurd hm (h.not_mem ht)⟩
  · rw [Function.update_of_ne hx]
    exact h.mem_iff x

/-- `list_add_tail` of a thread that then parks. -/
theorem Tracks.enqueue (h : Tracks parked ws pc) (ht : pc t ≠ parked) :
    Tracks parked (ws ++ [t]) (Function.update pc t parked) := by
  refine ⟨fun x => ?_, List.nodup_append.mpr ⟨h.nodup, List.nodup_singleton t, ?_⟩⟩
  · by_cases hx : x = t
    · subst hx
      simp
    · simp [hx, h.mem_iff x]
  · intro a ha b hb hab
    rw [List.mem_singleton] at hb
    subst hb hab
    exact h.not_mem ht ha

/-- `list_pop` of the head, which leaves state `parked`. -/
theorem Tracks.pop (h : Tracks parked (w :: ws) pc) (hp : p ≠ parked) :
    Tracks parked ws (Function.update pc w p) := by
  have hnd := List.nodup_cons.mp h.nodup
  refine ⟨fun x => ?_, hnd.2⟩
  by_cases hx : x = w
  · subst hx
    simp only [Function.update_self]
    exact ⟨fun he => absurd he hp, fun hm => absurd hm hnd.1⟩
  · rw [Function.update_of_ne hx, h.mem_iff x, List.mem_cons]
    exact ⟨fun hm => hm.resolve_left hx, Or.inr⟩

/-- `list_append_list` to a private list that is then woken whole. -/
theorem Tracks.wakeAll (h : Tracks parked ws pc) (hp : p ≠ parked) :
    Tracks parked [] (wakeAll ws pc p) := by
  refine ⟨fun x => ?_, List.nodup_nil⟩
  by_cases hx : x ∈ ws
  · simp only [wakeAll_of_mem hx, List.not_mem_nil, iff_false]
    exact hp
  · simp only [wakeAll_of_not_mem hx, List.not_mem_nil, iff_false]
    exact fun he => hx ((h.mem_iff x).mp he)

end WaitQueue
