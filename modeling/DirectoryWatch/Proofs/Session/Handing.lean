import DirectoryWatch.Proofs.Registry.Roots
import DirectoryWatch.Proofs.Session.Errand
import DirectoryWatch.Proofs.Session.Operations
import DirectoryWatch.Proofs.Session.View

/-!
# What is handed over

A walk hands over its start and what is wanted below it, each right after the file system said that
it is a directory. Starts and what is wanted have to do with a requested root, so nothing else ever
reaches the facility.
-/
namespace DirectoryWatch

variable {World : Type}

namespace Deed

variable {allowed : Path → Prop} {deeds : List Deed}

/-- Where something is handed over, it is allowed and was just found to be a directory. -/
def Follows (allowed : Path → Prop) (before : List Deed) : Deed → Prop
  | .handed directory _ =>
    allowed directory ∧ ∃ earlier, before = earlier ++ [.inspected directory (.ok true)]
  | _ => True

def Orderly (allowed : Path → Prop) (deeds : List Deed) : Prop :=
  ∀ before deed after, deeds = before ++ deed :: after → deed.Follows allowed before

theorem orderly_nil : Orderly allowed [] := by
  intro before deed after h
  simp at h

theorem Orderly.concat (h : Orderly allowed deeds) {last : Deed}
    (hlast : last.Follows allowed deeds) : Orderly allowed (deeds ++ [last]) := by
  intro before deed after heq
  rcases List.eq_nil_or_concat after with rfl | ⟨init, x, rfl⟩
  · obtain ⟨rfl, hdeed⟩ := List.append_inj' heq rfl
    rwa [← List.head_eq_of_cons_eq hdeed]
  · have hinit : deeds ++ [last] = (before ++ deed :: init) ++ [x] := by
      rw [heq, List.concat_eq_append, List.append_assoc, List.cons_append]
    exact h before deed init (List.append_inj' hinit rfl).1

end Deed

def Traced.Orderly (allowed : Path → Prop) (base : List Deed) (t : Traced World) : Prop :=
  ∃ new, t.deeds = base ++ new ∧ Deed.Orderly allowed new

theorem Traced.Orderly.note {allowed : Path → Prop} {base : List Deed} {t : Traced World}
    (h : t.Orderly allowed base) {deed : Deed} (w : World)
    (hdeed : ∀ new, t.deeds = base ++ new → deed.Follows allowed new) :
    (t.note deed w).Orderly allowed base := by
  obtain ⟨new, hnew, horderly⟩ := h
  refine ⟨new ++ [deed], ?_, horderly.concat (hdeed new hnew)⟩
  rw [deeds_note, hnew, List.append_assoc]

theorem Host.traced_guards (host : Host World) (allowed : Path → Prop) (base : List Deed) :
    host.traced.Guards allowed (Traced.Orderly allowed base) := by
  refine ⟨⟨?_, ?_⟩, ?_⟩
  · exact fun p t ht => ht.note _ fun _ _ => trivial
  · exact fun p t ht => ht.note _ fun _ _ => trivial
  · intro p t t' hallowed ht hasked
    rcases hanswer : host.isDirectory p t.world with ⟨answer, w⟩
    simp only [traced, hanswer, Prod.mk.injEq] at hasked
    obtain ⟨rfl, rfl⟩ := hasked
    have hinspected : (t.note (.inspected p (.ok true)) w).Orderly allowed base :=
      ht.note w fun _ _ => trivial
    refine hinspected.note _ fun new hnew => ⟨hallowed, ?_⟩
    obtain ⟨before, hbefore, -⟩ := ht
    rw [Traced.deeds_note, hbefore, List.append_assoc, List.append_cancel_left_eq] at hnew
    exact ⟨before, hnew.symm⟩

def Operation.request? : Operation World → Option Request
  | .register request => some request
  | _ => none

namespace Session

open Request (Touched)

variable {host : Host World} {given : List Request} {s : Session}

/-- Wherever a call walks, it only takes up what has to do with a requested root. -/
theorem touched_of_errand {fs : FileSystem World}
    (hs : s.registry.StemsFrom fs.workingDirectory given) {c : Call} {errand : Errand}
    {w w₁ : World} (h : s.errand fs w c = (.ok errand, w₁)) {start p : Path}
    (hstart : start ∈ errand.starts) (hp : p.Same start ∨ errand.wanted p = true) :
    Touched fs.workingDirectory (given ++ c.request?.toList) p := by
  have hrequest (tell : Update → Option Update) (request : Request)
      (h : s.requestErrand fs tell request w = (.ok errand, w₁)) :
      Touched fs.workingDirectory (given ++ [request]) p := by
    obtain ⟨registry, update, hregister, rfl⟩ := requestErrand_ok h
    rcases hp with hp | hp
    · exact (hs.touched_of_update hregister (.inl hstart)).of_same hp
    · exact hs.touched_of_update hregister (.inr hp)
  cases c with
  | register request => exact hrequest some request h
  | watch request => exact hrequest (fun _ => none) request h
  | created directory =>
    cases h
    rw [Call.request?, Option.toList_none, List.append_nil]
    have hneeds : s.registry.needsWatch start = true := by
      split at hstart
      · rwa [List.mem_singleton.1 hstart]
      · cases hstart
    rcases hp with hp | hp
    · exact (hs.touched hneeds).of_same hp
    · exact hs.touched hp

theorem orderly_call (hs : s.registry.StemsFrom host.workingDirectory given) (t : Traced World)
    (c : Call) {base : List Deed}
    (ht : t.Orderly (Touched host.workingDirectory (given ++ c.request?.toList)) base) :
    (s.call host.traced t c).world.Orderly
      (Touched host.workingDirectory (given ++ c.request?.toList)) base := by
  refine (host.traced_guards _ base).call s c ht fun errand t₁ herrand start hstart p hp => ?_
  have hs' : s.registry.StemsFrom host.traced.workingDirectory given := hs
  exact touched_of_errand hs' herrand hstart hp

theorem orderly_handlePaths (hs : s.registry.StemsFrom host.workingDirectory given)
    (created : Bool) (paths : List Path) (t : Traced World) {base : List Deed}
    (ht : t.Orderly (Touched host.workingDirectory given) base) :
    (s.handlePaths host.traced created paths t).2.2.Orderly
      (Touched host.workingDirectory given) base := by
  induction paths generalizing s t with
  | nil => exact ht
  | cons p rest ih =>
    cases created with
    | false => exact ih hs t ht
    | true =>
      have hkeeps : s.Keeps (s.directoryCreated host.traced p t).session :=
        keeps_directoryCreated s p t
      have hgiven : given ++ (Call.created p).request?.toList = given := List.append_nil given
      have hcall := orderly_call hs t (.created p) (hgiven.symm ▸ ht)
      rw [hgiven] at hcall
      exact ih (hkeeps.registry ▸ hs) _ hcall

theorem orderly_perform (hs : s.registry.StemsFrom host.workingDirectory given) (t : Traced World)
    (operation : Operation World) :
    (s.perform host.traced t operation.traced).2.2.Orderly
      (Touched host.workingDirectory (given ++ operation.request?.toList)) t.deeds := by
  have ht {requests : List Request} :
      t.Orderly (Touched host.workingDirectory requests) t.deeds :=
    ⟨[], (List.append_nil _).symm, Deed.orderly_nil⟩
  cases operation with
  | register request => exact orderly_call hs t (.register request) ht
  | created directory => exact orderly_call hs t (.created directory) ht
  | handle event =>
    have hgiven : given ++ (Operation.handle event : Operation World).request?.toList = given :=
      List.append_nil given
    rw [hgiven]
    exact orderly_handlePaths hs event.created event.paths t ht
  | meanwhile change => exact ht

/-- A registry knows no root but those of the requests of the run. -/
theorem stemsFrom_run (host : Host World) (policy : Policy) (operations : List (Operation World))
    (w : World) :
    ((start policy).run host operations w).session.registry.StemsFrom host.workingDirectory
      (operations.filterMap Operation.request?) := by
  induction operations using List.reverseRecOn with
  | nil => exact Registry.stemsFrom_empty host.workingDirectory
  | append_singleton operations operation ih =>
    rw [List.filterMap_append]
    rcases run_concat_cases host (start policy) operations operation w with
      ⟨request, done, rfl, hok, hsession, -⟩ | ⟨hkeeps, -⟩
    · obtain ⟨absolute, nearest, w₁, t, hregisters⟩ := registers_of_ok hok
      rw [hsession]
      exact ih.register hregisters.register_eq
    · rw [hkeeps.registry]
      exact ih.mono (List.subset_append_left _ _)

/-- Whatever an operation hands over lies at or below a root of a request that was passed on until
then, or leads to one, and the same operation has just found it to be a directory. -/
theorem orderly_run (host : Host World) (policy : Policy) (operations : List (Operation World))
    (operation : Operation World) (w : World) :
    let before := (start policy).run host.traced (operations.map .traced) (.start w)
    let after := (start policy).run host.traced ((operations ++ [operation]).map .traced) (.start w)
    (start policy).run host operations w = ⟨before.session, before.world.world, before.answers⟩ ∧
      ∃ new, after.world.deeds = before.world.deeds ++ new ∧
        Deed.Orderly (Touched host.workingDirectory
          ((operations ++ [operation]).filterMap Operation.request?)) new := by
  intro before after
  have hrun := run_traced host (start policy) operations (.start w)
  refine ⟨hrun, ?_⟩
  have hstems := stemsFrom_run host policy operations w
  change (start policy).run host operations w = _ at hrun
  rw [hrun] at hstems
  have hperform := orderly_perform hstems before.world operation
  have hafter : after.world =
      (before.session.perform host.traced before.world operation.traced).2.2 := by
    simp only [after, List.map_append, List.map_singleton, run_concat]
    rfl
  rw [hafter, List.filterMap_append]
  exact hperform

end Session

end DirectoryWatch
