import DirectoryWatch.Registry.Nearest

/-!
# Timelines

What happens to a registry, one move after the other: requests are registered, a state is kept and
put back later, and the world around changes. A state stands beside the requests that were merged
into it and the updates that these registrations answered with, so that putting it back forgets
the requests that came after it.
-/
namespace DirectoryWatch.Registry

inductive Move (World : Type)
  | register (request : Request)
  | save
  /-- Puts back the state that was kept at this place, where there is one. -/
  | restore (index : Nat)
  | meanwhile (change : World → World)

structure Version where
  registry : Registry
  /-- The requests that were merged, in order. -/
  merged : List Request
  /-- What their registrations answered with. -/
  updates : List Update

structure Timeline (World : Type) where
  current : Version
  saved : List Version
  world : World

variable {World : Type}

namespace Timeline

def start (w : World) : Timeline World := ⟨⟨∅, [], []⟩, [], w⟩

/-- A registration that fails leaves the state as it is. -/
def step (fs : FileSystem World) (policy : Policy) (t : Timeline World) :
    Move World → Timeline World
  | .register request =>
    match t.current.registry.register fs policy request t.world with
    | (.error _, w) => { t with world := w }
    | (.ok (registry, update), w) =>
      { t with
        current := ⟨registry, t.current.merged ++ [request], t.current.updates ++ [update]⟩
        world := w }
  | .save => { t with saved := t.saved ++ [t.current] }
  | .restore index => { t with current := t.saved.getD index t.current }
  | .meanwhile change => { t with world := change t.world }

end Timeline

def run (fs : FileSystem World) (policy : Policy) (moves : List (Move World)) (w : World) :
    Timeline World :=
  moves.foldl (Timeline.step fs policy) (.start w)

theorem run_concat (fs : FileSystem World) (policy : Policy) (moves : List (Move World))
    (move : Move World) (w : World) :
    run fs policy (moves ++ [move]) w = (run fs policy moves w).step fs policy move := by
  simp [run, List.foldl_append]

section

variable {fs : FileSystem World} {policy : Policy} {P : Version → Prop}

def Timeline.versions (t : Timeline World) : List Version := t.current :: t.saved

theorem Timeline.forall_step
    (hregister : ∀ v request registry update w w', P v →
      v.registry.register fs policy request w = (.ok (registry, update), w') →
        P ⟨registry, v.merged ++ [request], v.updates ++ [update]⟩)
    {t : Timeline World} (h : ∀ v ∈ t.versions, P v) (move : Move World) :
    ∀ v ∈ (t.step fs policy move).versions, P v := by
  have hcurrent : P t.current := h _ (List.mem_cons_self ..)
  have hsaved {v : Version} (hv : v ∈ t.saved) : P v := h v (List.mem_cons_of_mem _ hv)
  intro v hv
  cases move with
  | register request =>
    rw [step] at hv
    split at hv
    · exact h v hv
    · rename_i registry update w hok
      rcases List.mem_cons.1 hv with rfl | hv
      · exact hregister _ request registry update _ w hcurrent hok
      · exact hsaved hv
  | save =>
    simp only [step, versions, List.mem_cons, List.mem_append, List.not_mem_nil, or_false] at hv
    rcases hv with rfl | hv | rfl
    · exact hcurrent
    · exact hsaved hv
    · exact hcurrent
  | restore index =>
    rcases List.mem_cons.1 hv with rfl | hv
    · change P (t.saved.getD index t.current)
      rw [List.getD_eq_getElem?_getD]
      cases hindex : t.saved[index]? with
      | none => exact hcurrent
      | some kept => exact hsaved (List.mem_of_getElem? hindex)
    · exact hsaved hv
  | meanwhile change => exact h v hv

/-- What holds of a registry that knows nothing and is kept by every registration holds of all
states of a timeline. -/
theorem forall_run (hstart : P ⟨∅, [], []⟩)
    (hregister : ∀ v request registry update w w', P v →
      v.registry.register fs policy request w = (.ok (registry, update), w') →
        P ⟨registry, v.merged ++ [request], v.updates ++ [update]⟩)
    (moves : List (Move World)) (w : World) : ∀ v ∈ (run fs policy moves w).versions, P v := by
  have hmoves (t : Timeline World) (ht : ∀ v ∈ t.versions, P v) :
      ∀ v ∈ (moves.foldl (Timeline.step fs policy) t).versions, P v := by
    induction moves generalizing t with
    | nil => exact ht
    | cons move rest ih => exact ih _ (Timeline.forall_step hregister ht move)
  refine hmoves (.start w) fun v hv => ?_
  rw [List.mem_singleton.1 hv]
  exact hstart

end

end DirectoryWatch.Registry
