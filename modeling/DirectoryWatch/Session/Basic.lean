import DirectoryWatch.Log
import DirectoryWatch.Registry.Nearest
import DirectoryWatch.Session.Walk

/-!
# Watch sessions

A session turns what the registry decides into directories handed to the watch facility. When a
request fails, the registry is as before and the request can be tried again; what the facility
accepted until then stays registered.
-/
namespace DirectoryWatch

structure Session where
  policy : Policy
  registry : Registry
  /-- Every directory the facility accepted so far. -/
  registered : PathSet

structure Step (World α : Type) where
  result : Except Failure α
  session : Session
  notices : List Notice
  world : World

structure Registration where
  update : Update
  /-- The directories that the facility accepted for it, in order. -/
  directories : List Path

/-- A notice from the watch facility: something happened at these paths. -/
structure Event where
  created : Bool
  paths : List Path

variable {World : Type}

def Trail.notices (t : Trail World) : List Notice := t.skipped.map .skipped

namespace Session

def start (policy : Policy) : Session := ⟨policy, ∅, ∅⟩

def reports (s : Session) (p : Path) : Bool := s.registry.reports p

def trail (s : Session) (w : World) : Trail World := ⟨s.registered, [], [], w⟩

/-- Registers a request and every directory that has to be watched for it. -/
def register (host : Host World) (s : Session) (request : Request) (w : World) :
    Step World Registration :=
  match s.registry.register host.toFileSystem s.policy request w with
  | (.error e, w) => ⟨.error e, s, [], w⟩
  | (.ok (registry, update), w) =>
    let merged := Notice.merged update.newPoints update.subsumed
    match Trail.walkAll host update.needsWatch update.newPoints (s.trail w) with
    | (.error e, t) =>
      ⟨.error e, { s with registered := t.registered }, merged :: t.notices, t.world⟩
    | (.ok (), t) =>
      ⟨.ok ⟨update, t.added⟩, { s with registry := registry, registered := t.registered },
        merged :: t.notices ++ [.registered update.newPoints.length t.added.length], t.world⟩

def watch (host : Host World) (s : Session) (request : Request) (w : World) :
    Step World (List Path) :=
  let step := s.register host request w
  ⟨step.result.map Registration.directories, step.session, step.notices, step.world⟩

/-- Takes up a directory that appeared after its parent was registered, with what is in it. -/
def directoryCreated (host : Host World) (s : Session) (directory : Path) (w : World) :
    Step World (List Path) :=
  if s.registry.needsWatch directory then
    match Trail.walk host s.registry.needsWatch directory (s.trail w) with
    | (.error e, t) => ⟨.error e, { s with registered := t.registered }, t.notices, t.world⟩
    | (.ok (), t) => ⟨.ok t.added, { s with registered := t.registered }, t.notices, t.world⟩
  else ⟨.ok [], s, [], w⟩

/-- Takes up what was created at each of the paths. Failures are passed over. -/
def allCreated (host : Host World) : Session → List Path → World → Session × World
  | s, [], w => (s, w)
  | s, p :: rest, w =>
    let step := s.directoryCreated host p w
    allCreated host step.session rest step.world

/-- Handles the paths of an event in order: takes up what was created, then says whether the path
is to be reported. -/
def handlePaths (host : Host World) (created : Bool) :
    Session → List Path → World → List Path × Session × World
  | s, [], w => ([], s, w)
  | s, p :: rest, w =>
    let (s, w) :=
      if created then
        let step := s.directoryCreated host p w
        (step.session, step.world)
      else (s, w)
    let (reported, after) := handlePaths host created s rest w
    (if s.reports p then p :: reported else reported, after)

/-- The paths of the event that are to be reported. Directories that were created are taken up. -/
def handle (host : Host World) (s : Session) (event : Event) (w : World) :
    List Path × Session × World :=
  s.handlePaths host event.created event.paths w

end Session

end DirectoryWatch
