import DirectoryWatch.Proofs.Config.Conversion
import Mathlib.Data.List.Nodup

/-!
# Appended defaults

Appending the default includes to those of a tree lets in more, and appending the default excludes
keeps out more. There is one exception: a tree whose own includes are given as an empty list holds
everything that is not excluded. With the defaults appended it holds what these match, and no more.
-/
namespace DirectoryWatch

section

variable {α β : Type}

theorem forall₂_modify {R : α → α → Prop} (hrefl : ∀ x, R x x) {f : α → α} {xs : List α} {i : ℕ}
    (h : ∀ x, xs[i]? = some x → R x (f x)) : List.Forall₂ R xs (xs.modify i f) := by
  induction xs generalizing i with
  | nil =>
    rw [List.modify_nil]
    exact .nil
  | cons x rest ih =>
    cases i with
    | zero =>
      rw [List.modify_zero_cons]
      exact .cons (h x rfl) (List.forall₂_same.2 fun y _ => hrefl y)
    | succ i =>
      rw [List.modify_succ_cons]
      exact .cons (hrefl x) (ih fun y hy => h y hy)

theorem forall₂_square {R : α → β → Prop} {S : α → α → Prop} {T : β → β → Prop}
    {xs xs' : List α} {ys ys' : List β}
    (h : ∀ x x' y y', S x x' → R x y → R x' y' → T y y') (hxs : List.Forall₂ S xs xs')
    (hys : List.Forall₂ R xs ys) (hys' : List.Forall₂ R xs' ys') : List.Forall₂ T ys ys' := by
  induction hxs generalizing ys ys' with
  | nil =>
    cases hys
    cases hys'
    exact .nil
  | cons hx _ ih =>
    cases hys with
    | cons hy hys =>
      cases hys' with
      | cons hy' hys' => exact .cons (h _ _ _ _ hx hy hy') (ih hys hys')

theorem any_of_forall₂ {f : α → Bool} {xs ys : List α}
    (h : List.Forall₂ (fun x y => f x = true → f y = true) xs ys) (hany : xs.any f = true) :
    ys.any f = true := by
  induction h with
  | nil => exact hany
  | cons hfirst _ ih =>
    rw [List.any_cons, Bool.or_eq_true] at hany ⊢
    exact hany.imp hfirst ih

end

theorem Glob.text_injective : Function.Injective Glob.text := by
  rintro ⟨text, tokens, htokens⟩ ⟨_, tokens', htokens'⟩ rfl
  cases htokens.symm.trans htokens'
  rfl

/-- Includes only added to others, or none at all, and excludes only taken away let in as much. -/
theorem Filter.admits_of_patterns {f g : Filter}
    (hincludes : g.includePatterns = [] ∨
      f.includePatterns ≠ [] ∧ f.includePatterns ⊆ g.includePatterns)
    (hexcludes : g.excludePatterns ⊆ f.excludePatterns) {path : Bytes}
    (h : f.admits path = true) : g.admits path = true := by
  rw [excludePatterns, excludePatterns, List.map_subset_iff _ Glob.text_injective] at hexcludes
  simp only [includePatterns, ne_eq, List.map_eq_nil_iff,
    List.map_subset_iff _ Glob.text_injective] at hincludes
  rw [admits, Bool.and_eq_true, Bool.or_eq_true, List.isEmpty_iff, Bool.not_eq_true',
    List.any_eq_false] at h ⊢
  refine ⟨?_, fun glob hglob => h.2 glob (hexcludes hglob)⟩
  rcases hincludes with hnone | ⟨hsome, hmore⟩
  · exact .inl hnone
  · obtain ⟨glob, hglob, hmatch⟩ := List.any_eq_true.1 (h.1.resolve_left hsome)
    exact .inr (List.any_eq_true.2 ⟨glob, hmore hglob, hmatch⟩)

theorem Tree.contains_of_admits {tree looser : Tree} (hroot : looser.root = tree.root)
    (hadmits : ∀ path, tree.filter.admits path = true → looser.filter.admits path = true) {p : Path}
    (h : tree.contains p = true) : looser.contains p = true := by
  rw [contains, Bool.or_eq_true] at h ⊢
  rw [hroot]
  refine h.imp_right fun h => ?_
  split at h
  · cases h
  · exact hadmits _ h

/-- The other section is for the same directory, and its patterns in force let in whatever those of
this one do. -/
structure TreeSection.LoosenedTo (defaults : Defaults) (tree looser : TreeSection) : Prop where
  directory : looser.directory = tree.directory
  includes : looser.effectiveIncludes defaults = [] ∨
    tree.effectiveIncludes defaults ≠ [] ∧
      tree.effectiveIncludes defaults ⊆ looser.effectiveIncludes defaults
  excludes : looser.effectiveExcludes defaults ⊆ tree.effectiveExcludes defaults

/-- The same files, and trees that stand to each other as `R` says. -/
structure RequestSection.Parallels (R : TreeSection → TreeSection → Prop)
    (request other : RequestSection) : Prop where
  files : other.files = request.files
  trees : List.Forall₂ R request.trees other.trees

/-- The same defaults, and requests of the same names that are parallel. -/
structure Config.Parallels (R : TreeSection → TreeSection → Prop) (config other : Config) :
    Prop where
  defaults : other.defaults = config.defaults
  requests : List.Forall₂ (fun entry entry' => entry'.1 = entry.1 ∧ entry.2.Parallels R entry'.2)
    config.requests.toList other.requests.toList

/-- The same names, and each request contains what the other one of its name does. -/
def Request.NamedWithin (requests others : List (String × Request)) : Prop :=
  List.Forall₂ (fun named named' => named'.1 = named.1 ∧
    ∀ p, named.2.contains p = true → named'.2.contains p = true) requests others

section

variable {defaults : Defaults} {base : Path}

theorem TreeSection.LoosenedTo.refl (tree : TreeSection) : tree.LoosenedTo defaults tree where
  directory := rfl
  includes := (em _).imp_right fun hne => ⟨hne, List.Subset.refl _⟩
  excludes := List.Subset.refl _

theorem TreeSection.LoosenedTo.contains {tree looser : TreeSection} {made made' : Tree}
    (h : tree.LoosenedTo defaults looser) (hmade : tree.StandsFor defaults base made)
    (hmade' : looser.StandsFor defaults base made') {p : Path} (hp : made.contains p = true) :
    made'.contains p = true := by
  refine Tree.contains_of_admits ?_ (fun path => ?_) hp
  · rw [hmade'.root, hmade.root, h.directory]
  · apply Filter.admits_of_patterns
    · rw [hmade'.includes, hmade.includes]
      exact h.includes
    · rw [hmade'.excludes, hmade.excludes]
      exact h.excludes

theorem RequestSection.Parallels.contains {request looser : RequestSection}
    {made made' : Request} (h : request.Parallels (TreeSection.LoosenedTo defaults) looser)
    (hmade : request.StandsFor defaults base made)
    (hmade' : looser.StandsFor defaults base made') {p : Path} (hp : made.contains p = true) :
    made'.contains p = true := by
  have htrees : List.Forall₂ (fun tree tree' => tree.contains p = true → tree'.contains p = true)
      made.trees made'.trees :=
    forall₂_square (fun _ _ _ _ hlooser hstands hstands' => hlooser.contains hstands hstands')
      h.trees hmade.trees hmade'.trees
  rw [Request.contains, Bool.or_eq_true] at hp ⊢
  refine hp.imp (fun hplain => ?_) (any_of_forall₂ htrees)
  rwa [hmade'.files, h.files, ← hmade.files]

theorem Config.Parallels.namedWithin {config looser : ValidConfig}
    (h : config.toConfig.Parallels (TreeSection.LoosenedTo config.defaults) looser.toConfig)
    {requests others : List (String × Request)} (hrequests : config.requestsAt base = .ok requests)
    (hothers : looser.requestsAt base = .ok others) : Request.NamedWithin requests others := by
  have hmade := ValidConfig.forall₂_of_requestsAt hrequests
  have hmade' := ValidConfig.forall₂_of_requestsAt hothers
  rw [h.defaults] at hmade'
  refine forall₂_square (fun entry entry' named named' hentry hnamed hnamed' => ?_)
    h.requests hmade hmade'
  obtain ⟨hname, hparallel⟩ := hentry
  refine ⟨by rw [hnamed'.2.1, hname, hnamed.2.1], fun p hp => ?_⟩
  exact hparallel.contains hnamed.2.2 hnamed'.2.2 hp

end

namespace TreeSection

def appendingIncludes (tree : TreeSection) : TreeSection := { tree with appendIncludes := true }

def appendingExcludes (tree : TreeSection) : TreeSection := { tree with appendExcludes := true }

variable {defaults : Defaults} {tree : TreeSection}

theorem loosenedTo_appendingIncludes (h : tree.includes ≠ some [] ∨ defaults.includes = []) :
    tree.LoosenedTo defaults tree.appendingIncludes := by
  refine ⟨rfl, ?_, List.Subset.refl _⟩
  cases hown : tree.includes with
  | none =>
    have hsame : tree.appendingIncludes.effectiveIncludes defaults =
        tree.effectiveIncludes defaults := by
      simp only [effectiveIncludes, appendingIncludes, hown, effectivePatterns_none]
    rw [hsame]
    exact (LoosenedTo.refl tree).includes
  | some own =>
    simp only [effectiveIncludes, appendingIncludes, hown, effectivePatterns_some, if_true]
    by_cases hnil : own = []
    · have hdefaults : defaults.includes = [] := h.resolve_left fun hne => hne (hnil ▸ hown)
      exact .inl (by rw [hnil, hdefaults, List.append_nil])
    · refine .inr ⟨by simp [hnil], List.append_subset.2 ⟨List.subset_append_left _ _, ?_⟩⟩
      split
      · exact List.subset_append_right _ _
      · exact List.nil_subset _

theorem appendingIncludes_loosenedTo (h : tree.includes = some []) :
    tree.appendingIncludes.LoosenedTo defaults tree := by
  refine ⟨rfl, ?_, List.Subset.refl _⟩
  simp only [effectiveIncludes, appendingIncludes, h, effectivePatterns_some, if_true,
    List.nil_append]
  split
  · exact (em _).imp_right fun hne => ⟨hne, List.Subset.refl _⟩
  · exact .inl rfl

theorem appendingExcludes_loosenedTo : tree.appendingExcludes.LoosenedTo defaults tree where
  directory := rfl
  includes := (LoosenedTo.refl tree).includes
  excludes := by
    simp only [effectiveExcludes, appendingExcludes]
    cases tree.excludes with
    | none => exact List.Subset.refl _
    | some own =>
      simp only [effectivePatterns_some, if_true]
      refine List.append_subset.2 ⟨List.subset_append_left _ _, ?_⟩
      split
      · exact List.subset_append_right _ _
      · exact List.nil_subset _

end TreeSection

def RequestSection.modifyTree (request : RequestSection) (i : ℕ)
    (change : TreeSection → TreeSection) : RequestSection :=
  { request with trees := request.trees.modify i change }

def NamedRequests.modify (requests : NamedRequests) (name : String)
    (change : RequestSection → RequestSection) : NamedRequests where
  toList := requests.toList.map fun entry =>
    (entry.1, if entry.1 = name then change entry.2 else entry.2)
  ascending := List.pairwise_map.2 requests.ascending

def Config.modifyTree (config : Config) (name : String) (i : ℕ)
    (change : TreeSection → TreeSection) : Config :=
  { config with requests := config.requests.modify name fun request => request.modifyTree i change }

theorem NamedRequests.eq_of_mem {requests : NamedRequests} {name : String}
    {request other : RequestSection} (h : (name, request) ∈ requests.toList)
    (k : (name, other) ∈ requests.toList) : request = other := by
  have hnames : (requests.toList.map Prod.fst).Nodup :=
    List.pairwise_map.2 (requests.ascending.imp String.ne_of_lt)
  exact congrArg Prod.snd (List.inj_on_of_nodup_map hnames h k rfl)

namespace Config.Parallels

variable {R : TreeSection → TreeSection → Prop} {config other : Config}

theorem symm (h : config.Parallels R other) : other.Parallels (flip R) config where
  defaults := h.defaults.symm
  requests := (h.requests.imp fun _ _ hentry =>
    ⟨hentry.1.symm, hentry.2.files.symm, hentry.2.trees.flip⟩).flip

theorem modifyTree {name : String} {request : RequestSection}
    (hrequest : (name, request) ∈ config.requests.toList) {i : ℕ} {tree : TreeSection}
    (htree : request.trees[i]? = some tree) {change : TreeSection → TreeSection}
    (hrefl : ∀ tree, R tree tree) (hchange : R tree (change tree)) :
    config.Parallels R (config.modifyTree name i change) := by
  refine ⟨rfl, ?_⟩
  change List.Forall₂ _ config.requests.toList (config.requests.toList.map _)
  rw [List.forall₂_map_right_iff, List.forall₂_same]
  rintro ⟨name', found⟩ hfound
  refine ⟨rfl, ?_⟩
  dsimp only
  split_ifs with hname
  · subst hname
    cases NamedRequests.eq_of_mem hrequest hfound
    refine ⟨rfl, forall₂_modify hrefl fun x hx => ?_⟩
    cases hx.symm.trans htree
    exact hchange
  · exact ⟨rfl, List.forall₂_same.2 fun tree _ => hrefl tree⟩

end Config.Parallels

/-- Appending the default includes to those of one tree keeps in all that the requests contain,
unless the own includes of the tree are given as an empty list and there are some by default; with
an empty list of its own, nothing is let in. Appending the default excludes never lets in anything,
whatever the lists are. -/
theorem ValidConfig.namedWithin_of_appending (config : ValidConfig) {name : String}
    {request : RequestSection} (hrequest : (name, request) ∈ config.requests.toList) {i : ℕ}
    {tree : TreeSection} (htree : request.trees[i]? = some tree) {base : Path}
    {before : List (String × Request)} (hbefore : config.requestsAt base = .ok before) :
    (∀ switched : ValidConfig,
      switched.toConfig = config.modifyTree name i TreeSection.appendingIncludes →
        ∀ after, switched.requestsAt base = .ok after →
          (tree.includes ≠ some [] ∨ config.defaults.includes = [] →
            Request.NamedWithin before after) ∧
          (tree.includes = some [] → Request.NamedWithin after before)) ∧
      ∀ switched : ValidConfig,
        switched.toConfig = config.modifyTree name i TreeSection.appendingExcludes →
          ∀ after, switched.requestsAt base = .ok after → Request.NamedWithin after before := by
  have hparallels {R : TreeSection → TreeSection → Prop} (hrefl : ∀ tree, R tree tree)
      {change : TreeSection → TreeSection} (hchange : R tree (change tree)) {switched : ValidConfig}
      (hswitched : switched.toConfig = config.modifyTree name i change) :
      config.toConfig.Parallels R switched.toConfig :=
    hswitched ▸ .modifyTree hrequest htree hrefl hchange
  have htighter {change : TreeSection → TreeSection}
      (hchange : (change tree).LoosenedTo config.defaults tree) {switched : ValidConfig}
      (hswitched : switched.toConfig = config.modifyTree name i change)
      {after : List (String × Request)} (hafter : switched.requestsAt base = .ok after) :
      Request.NamedWithin after before := by
    have hlooser := (hparallels (R := flip (TreeSection.LoosenedTo config.defaults))
      TreeSection.LoosenedTo.refl hchange hswitched).symm
    refine Config.Parallels.namedWithin ?_ hafter hbefore
    rwa [hlooser.defaults.symm]
  refine ⟨fun switched hswitched after hafter => ⟨fun h => ?_, fun h => ?_⟩,
    fun switched hswitched after hafter => ?_⟩
  · exact (hparallels TreeSection.LoosenedTo.refl (TreeSection.loosenedTo_appendingIncludes h)
      hswitched).namedWithin hbefore hafter
  · exact htighter (TreeSection.appendingIncludes_loosenedTo h) hswitched hafter
  · exact htighter TreeSection.appendingExcludes_loosenedTo hswitched hafter

/-- A tree with includes of its own, and one with an empty list of them. -/
def ownSection : RequestSection where
  files := ["LICENSE"]
  trees := [⟨"src", some ["**/*.rs"], some [], false, false⟩,
    ⟨"notes", some [], some ["*.tmp"], false, false⟩]

def ownPatterns : ValidConfig where
  policy := .collapse
  defaults := ⟨["**/*.toml"], ["**/gen/**"]⟩
  requests := .ofList [("sources", ownSection)]
  checked := Config.check_eq_ok_iff.2 (by decide +kernel)

theorem namedWithin_of_appending_ownPatterns :
    ∃ (wider narrower stricter : ValidConfig) (before more fewer without : List (String × Request)),
      wider.toConfig = ownPatterns.modifyTree "sources" 0 TreeSection.appendingIncludes ∧
      narrower.toConfig = ownPatterns.modifyTree "sources" 1 TreeSection.appendingIncludes ∧
      stricter.toConfig = ownPatterns.modifyTree "sources" 0 TreeSection.appendingExcludes ∧
      ownPatterns.requestsAt (.ofString "/w") = .ok before ∧
      wider.requestsAt (.ofString "/w") = .ok more ∧ Request.NamedWithin before more ∧
      narrower.requestsAt (.ofString "/w") = .ok fewer ∧ Request.NamedWithin fewer before ∧
      stricter.requestsAt (.ofString "/w") = .ok without ∧ Request.NamedWithin without before := by
  have hmade (config : Config) (hsound : config.Sound) (hcompiles : config.Compiles) :
      ∃ (valid : ValidConfig) (made : List (String × Request)),
        valid.toConfig = config ∧ valid.requestsAt (.ofString "/w") = .ok made := by
    obtain ⟨made, hmade⟩ : ∃ made, ValidConfig.requestsAt ⟨config, Config.check_eq_ok_iff.2 hsound⟩
      (.ofString "/w") = .ok made := ValidConfig.exists_requestsAt hcompiles
    exact ⟨_, made, rfl, hmade⟩
  obtain ⟨before, hbefore⟩ : ∃ before, ownPatterns.requestsAt (.ofString "/w") = .ok before :=
    ValidConfig.exists_requestsAt (by decide +kernel)
  obtain ⟨wider, more, hwider, hmore⟩ := hmade (ownPatterns.modifyTree "sources" 0
    TreeSection.appendingIncludes) (by decide +kernel) (by decide +kernel)
  obtain ⟨narrower, fewer, hnarrower, hfewer⟩ := hmade (ownPatterns.modifyTree "sources" 1
    TreeSection.appendingIncludes) (by decide +kernel) (by decide +kernel)
  obtain ⟨stricter, without, hstricter, hwithout⟩ := hmade (ownPatterns.modifyTree "sources" 0
    TreeSection.appendingExcludes) (by decide +kernel) (by decide +kernel)
  have hrequest : ("sources", ownSection) ∈ ownPatterns.requests.toList := List.mem_singleton.2 rfl
  have hfirst := ownPatterns.namedWithin_of_appending hrequest (i := 0) rfl hbefore
  have hsecond := ownPatterns.namedWithin_of_appending hrequest (i := 1) rfl hbefore
  exact ⟨wider, narrower, stricter, before, more, fewer, without, hwider, hnarrower, hstricter,
    hbefore, hmore, (hfirst.1 wider hwider more hmore).1 (.inl (by decide)), hfewer,
    (hsecond.1 narrower hnarrower fewer hfewer).2 rfl, hwithout,
    hfirst.2 stricter hstricter without hwithout⟩

/-- Two trees alike, each with an empty list of includes. -/
def emptyIncludes : ValidConfig where
  policy := .collapse
  defaults := ⟨["**/*.toml"], []⟩
  requests := .ofList [("kept", ⟨[], [⟨"notes", some [], none, false, false⟩]⟩),
    ("switched", ⟨[], [⟨"notes", some [], none, false, false⟩]⟩)]
  checked := Config.check_eq_ok_iff.2 (by decide +kernel)

def emptyIncludesSwitched : ValidConfig where
  toConfig := emptyIncludes.modifyTree "switched" 0 TreeSection.appendingIncludes
  checked := Config.check_eq_ok_iff.2 (by decide +kernel)

def Request.answersAbout (p : Path) (requests : List (String × Request)) : List (String × Bool) :=
  requests.map fun named => (named.1, named.2.contains p)

theorem not_namedWithin_emptyIncludes :
    ∃ before after, emptyIncludes.requestsAt (.ofString "/w") = .ok before ∧
      emptyIncludesSwitched.requestsAt (.ofString "/w") = .ok after ∧
      Request.answersAbout (.ofString "/w/notes/todo.md") before =
        [("kept", true), ("switched", true)] ∧
      Request.answersAbout (.ofString "/w/notes/todo.md") after =
        [("kept", true), ("switched", false)] ∧
      ¬Request.NamedWithin before after := by
  have hbefore : (emptyIncludes.requestsAt (.ofString "/w")).toOption.map
      (Request.answersAbout (.ofString "/w/notes/todo.md")) =
        some [("kept", true), ("switched", true)] := by decide +kernel
  have hafter : (emptyIncludesSwitched.requestsAt (.ofString "/w")).toOption.map
      (Request.answersAbout (.ofString "/w/notes/todo.md")) =
        some [("kept", true), ("switched", false)] := by decide +kernel
  rcases hmade : emptyIncludes.requestsAt (.ofString "/w") with e | before
  all_goals rw [hmade] at hbefore
  · cases hbefore
  rcases hmade' : emptyIncludesSwitched.requestsAt (.ofString "/w") with e | after
  all_goals rw [hmade'] at hafter
  · cases hafter
  have hbefore : Request.answersAbout _ before = _ := Option.some.inj hbefore
  have hafter : Request.answersAbout _ after = _ := Option.some.inj hafter
  refine ⟨before, after, rfl, rfl, hbefore, hafter, fun hwithin => ?_⟩
  have hanswers : List.Forall₂ (fun answer answer' => answer.2 = true → answer'.2 = true)
      (Request.answersAbout (.ofString "/w/notes/todo.md") before)
      (Request.answersAbout (.ofString "/w/notes/todo.md") after) := by
    rw [Request.answersAbout, Request.answersAbout, List.forall₂_map_left_iff,
      List.forall₂_map_right_iff]
    exact hwithin.imp fun _ _ hnamed => hnamed.2 _
  rw [hbefore, hafter] at hanswers
  simp at hanswers

end DirectoryWatch
