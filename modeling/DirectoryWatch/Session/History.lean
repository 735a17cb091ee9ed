import DirectoryWatch.Session.Basic

/-!
# Histories

What happens to a session and around it, one operation after the other, with the answers that the
operations give. A request that is watched is registered: only the answer is shorter.
-/
namespace DirectoryWatch

inductive Operation (World : Type)
  | register (request : Request)
  | created (directory : Path)
  | handle (event : Event)
  | meanwhile (change : World → World)

inductive Answer
  | registered (request : Request) (result : Except Failure Registration)
  | created (result : Except Failure (List Path))
  | reported (paths : List Path)
  | nothing

structure History (World : Type) where
  session : Session
  world : World
  answers : List Answer

variable {World : Type}

def Answer.registration? : Answer → Option (Request × Registration)
  | .registered request (.ok done) => some (request, done)
  | _ => none

def History.registrations (history : History World) : List (Request × Registration) :=
  history.answers.filterMap Answer.registration?

def History.accepted (history : History World) : List Request :=
  history.registrations.map Prod.fst

namespace Session

def perform (host : Host World) (s : Session) (w : World) :
    Operation World → Answer × Session × World
  | .register request =>
    let step := s.register host request w
    (.registered request step.result, step.session, step.world)
  | .created directory =>
    let step := s.directoryCreated host directory w
    (.created step.result, step.session, step.world)
  | .handle event =>
    let (reported, s, w) := s.handle host event w
    (.reported reported, s, w)
  | .meanwhile change => (.nothing, s, change w)

/-- Performs the operations in order. A failure is an answer like any other. -/
def run (host : Host World) : Session → List (Operation World) → World → History World
  | s, [], w => ⟨s, w, []⟩
  | s, operation :: rest, w =>
    let (answer, s, w) := s.perform host w operation
    let later := run host s rest w
    { later with answers := answer :: later.answers }

def runRequests (host : Host World) (policy : Policy) (requests : List Request) (w : World) :
    History World :=
  (start policy).run host (requests.map .register) w

theorem run_append (host : Host World) (s : Session) (first second : List (Operation World))
    (w : World) :
    s.run host (first ++ second) w =
      let history := s.run host first w
      let later := history.session.run host second history.world
      { later with answers := history.answers ++ later.answers } := by
  induction first generalizing s w with
  | nil => rfl
  | cons operation rest ih => simp only [List.cons_append, run, ih]

theorem run_concat (host : Host World) (s : Session) (first : List (Operation World))
    (last : Operation World) (w : World) :
    s.run host (first ++ [last]) w =
      let history := s.run host first w
      let (answer, session, world) := history.session.perform host history.world last
      ⟨session, world, history.answers ++ [answer]⟩ := by
  rw [run_append]
  rfl

end Session

end DirectoryWatch
