import DirectoryWatch.Session.History

/-!
# Tracing calls

Any host can be run beside a trace of what was asked of its file system and handed to its facility.
The trace changes nothing of what the host answers.
-/
namespace DirectoryWatch

inductive Deed
  | inspected (p : Path) (answer : Except Fault Bool)
  | listed (directory : Path)
  | handed (directory : Path) (accepted : Bool)

structure Traced (World : Type) where
  world : World
  /-- What was done so far, in order, each with the world right after it. -/
  calls : List (Deed × World)

variable {World : Type}

namespace Traced

def start (w : World) : Traced World := ⟨w, []⟩

def note (t : Traced World) (deed : Deed) (w : World) : Traced World := ⟨w, t.calls ++ [(deed, w)]⟩

def deeds (t : Traced World) : List Deed := t.calls.map Prod.fst

/-- The directories that the facility accepted, each with the world right after that. -/
def accepted (t : Traced World) : List (Path × World) :=
  t.calls.filterMap fun
    | (.handed directory true, w) => some (directory, w)
    | _ => none

theorem deeds_note (t : Traced World) (deed : Deed) (w : World) :
    (t.note deed w).deeds = t.deeds ++ [deed] := by
  simp [deeds, note]

theorem accepted_note (t : Traced World) (deed : Deed) (w : World) :
    (t.note deed w).accepted = t.accepted ++
      match deed with
      | .handed directory true => [(directory, w)]
      | _ => [] := by
  simp only [accepted, note, List.filterMap_append, List.append_cancel_left_eq]
  rcases deed with _ | _ | ⟨directory, _ | _⟩ <;> rfl

end Traced

def Host.traced (host : Host World) : Host (Traced World) where
  isDirectory p t :=
    let (answer, w) := host.isDirectory p t.world
    (answer, t.note (.inspected p answer) w)
  entries p t :=
    let (answer, w) := host.entries p t.world
    (answer, t.note (.listed p) w)
  workingDirectory := host.workingDirectory
  walkLimit t := host.walkLimit t.world
  watch directory t :=
    let (answer, w) := host.watch directory t.world
    (answer, t.note (.handed directory (answer matches .ok ())) w)

def Operation.traced : Operation World → Operation (Traced World)
  | .register request => .register request
  | .created directory => .created directory
  | .handle event => .handle event
  | .meanwhile change => .meanwhile fun t => { t with world := change t.world }

end DirectoryWatch
