import DirectoryWatch.Proofs.Request.Absolute
import Mathlib.Data.List.Induction

/-!
# Unions of requests

A union has the roots of its requests and contains what one of them contains. It becomes absolute
part by part.
-/
namespace DirectoryWatch.Request

def unionAll (requests : List Request) : Request := requests.foldl (· ∪ ·) ∅

theorem empty_union (request : Request) : ∅ ∪ request = request := rfl

theorem union_empty (request : Request) : request ∪ ∅ = request := by
  change Request.mk (request.plain ++ []) (request.trees ++ []) = request
  rw [List.append_nil, List.append_nil]

theorem eq_empty_of_allRoots {request : Request} (h : request.allRoots = []) : request = ∅ := by
  rcases request with ⟨plain, trees⟩
  obtain ⟨hplain, htrees⟩ := List.append_eq_nil_iff.1 h
  cases hplain
  cases List.map_eq_nil_iff.1 htrees
  rfl

theorem mem_allRoots_union (r s : Request) (p : Path) :
    p ∈ (r ∪ s).allRoots ↔ p ∈ r.allRoots ∨ p ∈ s.allRoots := by
  change p ∈ (r.plain ++ s.plain) ++ (r.trees ++ s.trees).map Tree.root ↔ _
  simp only [allRoots, List.map_append, List.mem_append]
  tauto

variable {requests : List Request} {p : Path}

theorem unionAll_concat (requests : List Request) (request : Request) :
    unionAll (requests ++ [request]) = unionAll requests ∪ request := by
  rw [unionAll, List.foldl_concat, unionAll]

theorem unionAll_eq (requests : List Request) :
    unionAll requests = ⟨requests.flatMap plain, requests.flatMap trees⟩ := by
  induction requests using List.reverseRecOn with
  | nil => rfl
  | append_singleton requests request ih =>
    rw [unionAll_concat, ih, List.flatMap_append, List.flatMap_append, List.flatMap_singleton,
      List.flatMap_singleton]
    rfl

theorem mem_allRoots_unionAll :
    p ∈ (unionAll requests).allRoots ↔ ∃ request ∈ requests, p ∈ request.allRoots := by
  simp only [unionAll_eq, allRoots, List.mem_append, List.mem_flatMap, List.map_flatMap]
  constructor
  · rintro (⟨request, hrequest, hp⟩ | ⟨request, hrequest, hp⟩)
    · exact ⟨request, hrequest, .inl hp⟩
    · exact ⟨request, hrequest, .inr hp⟩
  · rintro ⟨request, hrequest, hp | hp⟩
    · exact .inl ⟨request, hrequest, hp⟩
    · exact .inr ⟨request, hrequest, hp⟩

theorem contains_unionAll :
    (unionAll requests).contains p = requests.any fun request => request.contains p := by
  induction requests using List.reverseRecOn with
  | nil => rfl
  | append_singleton requests request ih =>
    rw [unionAll_concat, contains_union, ih, List.any_append]
    simp

theorem unionAll_flatten (groups : List (List Request)) :
    unionAll (groups.map unionAll) = unionAll groups.flatten := by
  simp only [unionAll_eq, List.flatMap_map, List.flatten_eq_flatMap, List.flatMap_assoc, id]

/-- The same roots, and the same paths contained. -/
structure Alike (r s : Request) : Prop where
  mem_allRoots : ∀ p, p ∈ r.allRoots ↔ p ∈ s.allRoots
  contains : ∀ p, r.contains p = s.contains p

theorem alike_of_perm {others : List Request} (h : requests.Perm others) :
    (unionAll requests).Alike (unionAll others) := by
  refine ⟨?_, ?_⟩
  · intro p
    simp only [mem_allRoots_unionAll, h.mem_iff]
  · intro p
    rw [contains_unionAll, contains_unionAll, h.any_eq]

theorem absolute_union {wd : Path} {r s r' s' : Request} (hr : r.absolute wd = .ok r')
    (hs : s.absolute wd = .ok s') : (r ∪ s).absolute wd = .ok (r' ∪ s') := by
  obtain ⟨hrNe, rfl⟩ := absolute_eq_ok_iff.1 hr
  obtain ⟨hsNe, rfl⟩ := absolute_eq_ok_iff.1 hs
  refine absolute_eq_ok_iff.2 ⟨fun root hroot => ?_, ?_⟩
  · rcases (mem_allRoots_union r s root).1 hroot with hroot | hroot
    · exact hrNe root hroot
    · exact hsNe root hroot
  · change Request.mk _ _ = Request.mk ((r.plain ++ s.plain).map _) ((r.trees ++ s.trees).map _)
    rw [List.map_append, List.map_append]
    rfl

theorem absolute_unionAll {wd : Path} {form : Request → Request}
    (h : ∀ request ∈ requests, request.absolute wd = .ok (form request)) :
    (unionAll requests).absolute wd = .ok (unionAll (requests.map form)) := by
  induction requests using List.reverseRecOn with
  | nil => rfl
  | append_singleton requests request ih =>
    rw [unionAll_concat, List.map_append, List.map_singleton, unionAll_concat]
    refine absolute_union (ih fun other hother => ?_) (h request (by simp))
    exact h other (List.mem_append_left _ hother)

end DirectoryWatch.Request
