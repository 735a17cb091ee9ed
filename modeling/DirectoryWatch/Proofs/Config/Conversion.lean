import DirectoryWatch.Proofs.Config.Sound
import DirectoryWatch.Proofs.Request.Absolute
import Mathlib.Data.List.Forall2

/-!
# From configurations to requests

Where patterns that are well formed can also be compiled together, nothing that a valid
configuration says is left to fail later: each of its sections becomes a request for just what it
names, with absolute roots and the patterns in force.
-/
namespace DirectoryWatch

section

variable {ε α β : Type} {f : α → Except ε β} {xs : List α}

theorem forall₂_of_mapM_eq_ok {ys : List β} (h : xs.mapM f = .ok ys) :
    List.Forall₂ (fun x y => f x = .ok y) xs ys := by
  induction xs generalizing ys with
  | nil =>
    cases h
    exact .nil
  | cons x rest ih =>
    rw [List.mapM_cons] at h
    obtain ⟨y, hy, h⟩ := exists_of_bind_eq_ok h
    obtain ⟨later, hlater, h⟩ := exists_of_bind_eq_ok h
    cases h
    exact .cons hy (ih hlater)

theorem exists_mapM_eq_ok (h : ∀ x ∈ xs, ∃ y, f x = .ok y) : ∃ ys, xs.mapM f = .ok ys := by
  induction xs with
  | nil => exact ⟨[], rfl⟩
  | cons x rest ih =>
    obtain ⟨⟨y, hy⟩, hrest⟩ := List.forall_mem_cons.1 h
    obtain ⟨later, hlater⟩ := ih hrest
    refine ⟨y :: later, ?_⟩
    rw [List.mapM_cons, hy, hlater]
    rfl

end

namespace Glob

theorem text_of_read {pattern : String} {glob : Glob} (h : read pattern = .ok glob) :
    glob.text = pattern := by
  rw [read] at h
  split at h <;> cases h
  rfl

theorem map_text_of_readAll {patterns : List String} {globs : List Glob}
    (h : readAll patterns = .ok globs) : globs.map text = patterns := by
  induction patterns generalizing globs with
  | nil =>
    cases h
    rfl
  | cons pattern rest ih =>
    rw [readAll] at h
    split at h
    · cases h
    · rename_i glob hread
      obtain ⟨later, hlater, h⟩ := exists_of_bind_eq_ok h
      cases h
      rw [List.map_cons, text_of_read hread, ih hlater]

theorem map_text_of_compile {patterns : List String} {globs : List Glob}
    (h : compile patterns = .ok globs) : globs.map text = patterns := by
  obtain ⟨read, hread, h⟩ := exists_of_bind_eq_ok h
  obtain ⟨_, -, h⟩ := exists_of_bind_eq_ok h
  cases h
  exact map_text_of_readAll hread

/-- If the patterns are well formed one by one, they can be compiled together. -/
def Compiles (patterns : List String) : Prop :=
  (∀ pattern ∈ patterns, Readable pattern) → ∃ globs, compile patterns = .ok globs

instance (patterns : List String) : Decidable (Compiles patterns) :=
  inferInstanceAs (Decidable (_ → ∃ globs, compile patterns = .ok globs))

end Glob

/-- The tree lies where the section says, seen from `base`, and has the patterns in force. -/
structure TreeSection.StandsFor (defaults : Defaults) (base : Path) (tree : TreeSection)
    (made : Tree) : Prop where
  root : made.root = base.join (.ofString tree.directory)
  includes : made.filter.includePatterns = tree.effectiveIncludes defaults
  excludes : made.filter.excludePatterns = tree.effectiveExcludes defaults

/-- The request has the files and the trees of the section, in the order in which they are given. -/
structure RequestSection.StandsFor (defaults : Defaults) (base : Path) (request : RequestSection)
    (made : Request) : Prop where
  files : made.plain = request.files.map fun file => base.join (.ofString file)
  trees : List.Forall₂ (TreeSection.StandsFor defaults base) request.trees made.trees

/-- The patterns in force for each tree can be compiled together if they are well formed. -/
def Config.Compiles (config : Config) : Prop :=
  ∀ entry ∈ config.requests.toList, ∀ tree ∈ entry.2.trees,
    Glob.Compiles (tree.effectiveIncludes config.defaults) ∧
      Glob.Compiles (tree.effectiveExcludes config.defaults)

instance (config : Config) : Decidable config.Compiles :=
  inferInstanceAs (Decidable (∀ entry ∈ config.requests.toList, ∀ tree ∈ entry.2.trees, _))

section

variable {defaults : Defaults} {base : Path}

theorem TreeSection.exists_treeAt {tree : TreeSection} (h : tree.Sound defaults)
    (hincludes : Glob.Compiles (tree.effectiveIncludes defaults))
    (hexcludes : Glob.Compiles (tree.effectiveExcludes defaults)) :
    ∃ made, tree.treeAt defaults base = .ok made := by
  obtain ⟨includes, hincludes⟩ := hincludes h.includes
  obtain ⟨excludes, hexcludes⟩ := hexcludes h.excludes
  rw [treeAt, Tree.ofPatterns, Filter.ofPatterns, hincludes, hexcludes]
  exact ⟨_, rfl⟩

theorem TreeSection.standsFor_of_treeAt {tree : TreeSection} {made : Tree}
    (h : tree.treeAt defaults base = .ok made) : tree.StandsFor defaults base made := by
  rw [treeAt] at h
  split at h
  · rename_i hmade
    cases h
    obtain ⟨filter, hfilter, hmade⟩ := exists_of_bind_eq_ok hmade
    obtain ⟨includes, hincludes, hfilter⟩ := exists_of_bind_eq_ok hfilter
    obtain ⟨excludes, hexcludes, hfilter⟩ := exists_of_bind_eq_ok hfilter
    cases hfilter
    cases hmade
    exact ⟨rfl, Glob.map_text_of_compile hincludes, Glob.map_text_of_compile hexcludes⟩
  · cases h

theorem RequestSection.standsFor_of_requestAt {request : RequestSection} {made : Request}
    (h : request.requestAt defaults base = .ok made) : request.StandsFor defaults base made := by
  obtain ⟨trees, htrees, h⟩ := exists_of_bind_eq_ok h
  cases h
  exact ⟨rfl, (forall₂_of_mapM_eq_ok htrees).imp fun _ _ => TreeSection.standsFor_of_treeAt⟩

theorem RequestSection.exists_requestAt {request : RequestSection} (h : request.Sound defaults)
    (hcompiles : ∀ tree ∈ request.trees, Glob.Compiles (tree.effectiveIncludes defaults) ∧
      Glob.Compiles (tree.effectiveExcludes defaults)) :
    ∃ made, request.requestAt defaults base = .ok made := by
  have hmade : ∀ tree ∈ request.trees, ∃ made, tree.treeAt defaults base = .ok made := by
    intro tree htree
    obtain ⟨hincludes, hexcludes⟩ := hcompiles tree htree
    exact TreeSection.exists_treeAt (h.trees tree htree) hincludes hexcludes
  obtain ⟨trees, htrees⟩ := exists_mapM_eq_ok hmade
  rw [requestAt, htrees]
  exact ⟨_, rfl⟩

namespace RequestSection.StandsFor

variable {request : RequestSection} {made : Request}

theorem allRoots_eq (h : request.StandsFor defaults base made) :
    made.allRoots = (request.files ++ request.trees.map TreeSection.directory).map
      fun name => base.join (.ofString name) := by
  have htrees : made.trees.map Tree.root =
      request.trees.map fun tree => base.join (.ofString tree.directory) := by
    rw [← List.forall₂_eq_eq_eq, List.forall₂_map_left_iff, List.forall₂_map_right_iff]
    exact (h.trees.imp fun _ _ hstands => hstands.root).flip
  rw [Request.allRoots, h.files, htrees, List.map_append, List.map_map]
  rfl

theorem isEmpty (h : request.StandsFor defaults base made) (hsound : request.Sound defaults) :
    made.isEmpty = false := by
  have htrees : made.trees = [] ↔ request.trees = [] := by
    rw [← List.length_eq_zero_iff, ← h.trees.length_eq, List.length_eq_zero_iff]
  rw [Bool.eq_false_iff, Request.isEmpty, ne_eq, Bool.and_eq_true, List.isEmpty_iff,
    List.isEmpty_iff, h.files, List.map_eq_nil_iff, htrees, not_and_or]
  exact hsound.nonempty

theorem isAbsolute (h : request.StandsFor defaults base made) (hbase : base.isAbsolute = true) :
    ∀ root ∈ made.allRoots, root.isAbsolute = true := by
  rw [h.allRoots_eq]
  exact List.forall_mem_map.2 fun name _ => Path.isAbsolute_join hbase _

end RequestSection.StandsFor

end

namespace ValidConfig

variable {config : ValidConfig} {base : Path} {requests : List (String × Request)}

theorem exists_requestsAt (hcompiles : config.Compiles) :
    ∃ requests, config.requestsAt base = .ok requests := by
  have hsound := Config.check_eq_ok_iff.1 config.checked
  refine exists_mapM_eq_ok fun entry hentry => ?_
  obtain ⟨made, hmade⟩ : ∃ made, entry.2.requestAt config.defaults base = .ok made :=
    RequestSection.exists_requestAt (hsound.requests entry hentry) (hcompiles entry hentry)
  exact ⟨(entry.1, made), by simp only [hmade]; rfl⟩

theorem forall₂_of_requestsAt (h : config.requestsAt base = .ok requests) :
    List.Forall₂ (fun entry named => entry.2.Sound config.defaults ∧ named.1 = entry.1 ∧
      entry.2.StandsFor config.defaults base named.2) config.requests.toList requests := by
  have hsound := Config.check_eq_ok_iff.1 config.checked
  refine (List.forall₂_and_left _ _).2 ⟨hsound.requests, ?_⟩
  refine (forall₂_of_mapM_eq_ok h).imp fun (name, request) named hnamed => ?_
  obtain ⟨made, hmade, hnamed⟩ := exists_of_bind_eq_ok hnamed
  cases hnamed
  exact ⟨rfl, RequestSection.standsFor_of_requestAt hmade⟩

theorem ascending_of_requestsAt (h : config.requestsAt base = .ok requests) :
    (requests.map Prod.fst).Pairwise (· < ·) := by
  have hnames : requests.map Prod.fst = config.requests.toList.map Prod.fst := by
    rw [← List.forall₂_eq_eq_eq, List.forall₂_map_left_iff, List.forall₂_map_right_iff]
    exact ((forall₂_of_requestsAt h).imp fun _ _ hnamed => hnamed.2.1).flip
  rw [hnames]
  exact List.pairwise_map.2 config.requests.ascending

end ValidConfig

/-- A configuration passes the checks exactly when it is sound. And then, as far as patterns that
are well formed can be compiled together, it is turned into one request for each of its sections,
in the order of their names, each with the files and trees of its section in the order in which
they are given, with the patterns in force and with absolute roots; none of them is empty, and each
is its own absolute form wherever it is registered. -/
theorem Config.check_and_requestsAt (config : Config) :
    (config.check = .ok () ↔ config.Sound) ∧
      ∀ (checked : config.check = .ok ()) (base : Path), base.isAbsolute = true →
        config.Compiles → ∃ requests, ValidConfig.requestsAt ⟨config, checked⟩ base = .ok requests ∧
          (requests.map Prod.fst).Pairwise (· < ·) ∧
          List.Forall₂ (fun entry named => named.1 = entry.1 ∧
              entry.2.StandsFor config.defaults base named.2 ∧ named.2.isEmpty = false ∧
              (∀ root ∈ named.2.allRoots, root.isAbsolute = true) ∧
              ∀ workingDirectory, named.2.absolute workingDirectory = .ok named.2)
            config.requests.toList requests := by
  refine ⟨check_eq_ok_iff, fun checked base hbase hcompiles => ?_⟩
  obtain ⟨requests, hrequests⟩ :
      ∃ requests, ValidConfig.requestsAt ⟨config, checked⟩ base = .ok requests :=
    ValidConfig.exists_requestsAt hcompiles
  refine ⟨requests, hrequests, ValidConfig.ascending_of_requestsAt hrequests, ?_⟩
  refine (ValidConfig.forall₂_of_requestsAt hrequests).imp fun entry named hentry => ?_
  obtain ⟨hsound, hname, hstands⟩ := hentry
  have habsolute := hstands.isAbsolute hbase
  exact ⟨hname, hstands, hstands.isEmpty hsound, habsolute, Request.absolute_eq_self habsolute⟩

/-- Some files by name, and the sources of a workspace without what a build leaves there. -/
def workspaceConfig : Config where
  policy := .collapse
  defaults := ⟨[], ["**/target/**", "**/.git/**"]⟩
  requests := .ofList [
    ("sources", ⟨[], [⟨"../src", some ["**/*.rs"], none, false, false⟩,
      ⟨"../tests", some ["**/*.rs"], some ["*.tmp"], false, true⟩]⟩),
    ("docs", ⟨["../DESIGN.md", "/notes"], []⟩)]

theorem check_and_requestsAt_workspace :
    workspaceConfig.Sound ∧ workspaceConfig.Compiles ∧
      ∃ (checked : workspaceConfig.check = .ok ()) (requests : List (String × Request)),
        ValidConfig.requestsAt ⟨workspaceConfig, checked⟩ (.ofString "/w/demos") = .ok requests ∧
          (requests.map Prod.fst).Pairwise (· < ·) ∧
          List.Forall₂ (fun entry named => named.1 = entry.1 ∧
              entry.2.StandsFor workspaceConfig.defaults (.ofString "/w/demos") named.2)
            workspaceConfig.requests.toList requests := by
  have hsound : workspaceConfig.Sound := by decide +kernel
  have hcompiles : workspaceConfig.Compiles := by decide +kernel
  have hconfig := Config.check_and_requestsAt workspaceConfig
  obtain ⟨requests, hrequests, hascending, hall⟩ :=
    hconfig.2 (hconfig.1.2 hsound) (.ofString "/w/demos") (by decide) hcompiles
  refine ⟨hsound, hcompiles, hconfig.1.2 hsound, requests, hrequests, hascending, ?_⟩
  exact hall.imp fun _ _ hentry => ⟨hentry.1, hentry.2.1⟩

end DirectoryWatch
