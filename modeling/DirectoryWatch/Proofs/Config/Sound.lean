import DirectoryWatch.Config.Validation
import Mathlib.Data.List.DropRight

/-!
# Sound configurations

What a configuration has to say to be valid, in no order. The checks look at one thing after the
other and stop at the first that is wrong, so they pass exactly where nothing is.
-/
namespace DirectoryWatch

theorem forM_eq_ok_iff {ε α : Type} {f : α → Except ε Unit} {xs : List α} :
    xs.forM f = .ok () ↔ ∀ x ∈ xs, f x = .ok () := by
  induction xs with
  | nil => exact ⟨fun _ x hx => absurd hx List.not_mem_nil, fun _ => rfl⟩
  | cons x rest ih =>
    rw [List.forall_mem_cons, ← ih]
    change (f x >>= fun _ => rest.forM f) = .ok () ↔ _
    cases f x with
    | error e => simp [bind, Except.bind]
    | ok _ => exact (and_iff_right rfl).symm

instance decidableExistsOk {ε α : Type} (answer : Except ε α) : Decidable (∃ x, answer = .ok x) :=
  match answer with
  | .ok x => isTrue ⟨x, rfl⟩
  | .error _ => isFalse nofun

theorem Text.isBlank_iff_trim {s : String} : isBlank s = true ↔ trim s = "" := by
  have htrim : trim s =
      String.ofList ((s.toList.dropWhile isBlankChar).rdropWhile isBlankChar) := rfl
  rw [htrim, String.ofList_eq_empty_iff, List.rdropWhile_eq_nil_iff, isBlank, List.all_eq_true]
  refine ⟨fun h c hc => h c ((List.dropWhile_sublist _).subset hc), fun h => ?_⟩
  refine List.dropWhile_eq_nil_iff.1 (by_contra fun hne => ?_)
  have hhead := List.head_dropWhile_not isBlankChar hne
  rw [h _ (List.head_mem hne)] at hhead
  cases hhead

def Glob.Readable (pattern : String) : Prop := ∃ glob, Glob.read pattern = .ok glob

instance (pattern : String) : Decidable (Glob.Readable pattern) :=
  inferInstanceAs (Decidable (∃ glob, Glob.read pattern = .ok glob))

/-- The directory has a name, and the patterns in force are well formed. -/
structure TreeSection.Sound (defaults : Defaults) (tree : TreeSection) : Prop where
  directory : Text.trim tree.directory ≠ ""
  includes : ∀ pattern ∈ tree.effectiveIncludes defaults, Glob.Readable pattern
  excludes : ∀ pattern ∈ tree.effectiveExcludes defaults, Glob.Readable pattern

/-- The request names a file or a tree, and nothing by a blank name. -/
structure RequestSection.Sound (defaults : Defaults) (request : RequestSection) : Prop where
  nonempty : request.files ≠ [] ∨ request.trees ≠ []
  files : ∀ file ∈ request.files, Text.trim file ≠ ""
  trees : ∀ tree ∈ request.trees, tree.Sound defaults

structure Config.Sound (config : Config) : Prop where
  nonempty : config.requests.toList ≠ []
  requests : ∀ entry ∈ config.requests.toList, entry.2.Sound config.defaults

theorem TreeSection.check_eq_ok_iff {defaults : Defaults} {name : String} {tree : TreeSection} :
    tree.check defaults name = .ok () ↔
      (∀ pattern ∈ tree.effectiveIncludes defaults, Glob.Readable pattern) ∧
        ∀ pattern ∈ tree.effectiveExcludes defaults, Glob.Readable pattern := by
  rw [check, forM_eq_ok_iff, ← List.forall_mem_append]
  refine forall₂_congr fun pattern _ => ?_
  rw [Glob.Readable]
  cases Glob.read pattern <;> simp

theorem RequestSection.check_eq_ok_iff {defaults : Defaults} {name : String}
    {request : RequestSection} :
    request.check defaults name = .ok () ↔ request.Sound defaults := by
  have hblank {α : Type} {xs : List α} {text : α → String} :
      (xs.any fun x => Text.isBlank (text x)) = true ↔ ¬∀ x ∈ xs, Text.trim (text x) ≠ "" := by
    simp only [List.any_eq_true, Text.isBlank_iff_trim, ne_eq, not_forall, not_not, exists_prop]
  rw [check]
  split_ifs with hnothing hfiles hdirectories
  · rw [Bool.and_eq_true, List.isEmpty_iff, List.isEmpty_iff] at hnothing
    exact iff_of_false nofun fun h => h.nonempty.elim (· hnothing.1) (· hnothing.2)
  · exact iff_of_false nofun fun h => hblank.1 hfiles h.files
  · exact iff_of_false nofun fun h =>
      hblank.1 hdirectories fun tree htree => (h.trees tree htree).directory
  · rw [hblank, not_not] at hfiles hdirectories
    rw [forM_eq_ok_iff]
    simp only [TreeSection.check_eq_ok_iff]
    constructor
    · intro h
      refine ⟨?_, hfiles, fun tree htree => ?_⟩
      · rwa [Bool.and_eq_true, List.isEmpty_iff, List.isEmpty_iff, not_and_or] at hnothing
      · exact ⟨hdirectories tree htree, (h tree htree).1, (h tree htree).2⟩
    · exact fun h tree htree => ⟨(h.trees tree htree).includes, (h.trees tree htree).excludes⟩

theorem Config.check_eq_ok_iff {config : Config} : config.check = .ok () ↔ config.Sound := by
  rw [check, NamedRequests.isEmpty]
  split_ifs with hnothing
  · exact iff_of_false nofun fun h => h.nonempty (List.isEmpty_iff.1 hnothing)
  · rw [List.isEmpty_iff] at hnothing
    rw [forM_eq_ok_iff]
    simp only [RequestSection.check_eq_ok_iff]
    exact ⟨fun h => ⟨hnothing, h⟩, fun h => h.requests⟩

instance (config : Config) : Decidable config.Sound :=
  match h : config.check with
  | .ok () => isTrue (Config.check_eq_ok_iff.1 h)
  | .error _ => isFalse fun hsound => nomatch h.symm.trans (Config.check_eq_ok_iff.2 hsound)

end DirectoryWatch
