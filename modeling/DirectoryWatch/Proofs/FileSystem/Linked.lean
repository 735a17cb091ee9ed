import DirectoryWatch.FileSystem.Listing
import DirectoryWatch.Proofs.Path.Components
import Mathlib.Data.Set.Insert

/-!
# Listings are linked

However a listing was built, every entry but the root has an entry above it, and each directory
names exactly the entries below it, each once. While a path is added this holds with the exception
of entries that are still to be named by the directory above them.
-/
namespace DirectoryWatch

/-- The root, or a name that is text. -/
def Component.isPlain : Component → Bool
  | .root => true
  | .name bytes => (Text.Utf8.decode? bytes).isSome
  | _ => false

/-- An absolute path of names that are text. -/
def Path.IsPlain (p : Path) : Prop :=
  p.isAbsolute = true ∧ ∀ c ∈ p.components, c.isPlain = true

instance (p : Path) : Decidable p.IsPlain :=
  inferInstanceAs (Decidable (p.isAbsolute = true ∧ ∀ c ∈ p.components, c.isPlain = true))

namespace Path

theorem ne_root_of_components {p : Path} {place : List Component} {c : Component}
    (h : p.components = place ++ [c]) (hplace : place ≠ []) : c ≠ .root := by
  have hroot := root_notMem_filterMap p.segments
  rw [components] at h
  rcases List.eq_nil_or_concat (p.segments.filterMap Component.ofSegment?) with hnil | ⟨init, d, hd⟩
  · have hlength := congrArg List.length h
    have hpos := List.length_pos_iff.2 hplace
    have hle : p.anchor.components.length ≤ 1 := by cases p.anchor <;> simp [Anchor.components]
    simp only [hnil, List.append_nil, List.length_append, List.length_singleton] at hlength
    omega
  · rw [hd] at hroot
    rw [hd, List.concat_eq_append, ← List.append_assoc] at h
    have hcd : d = c := by simpa using (List.append_inj' h rfl).2
    rintro rfl
    simp [hcd] at hroot

theorem IsPlain.name {p : Path} (hp : p.IsPlain) {place : List Component} {c : Component}
    (h : p.components = place ++ [c]) (hplace : place ≠ []) :
    ∃ name : Bytes, c = .name name ∧ name.IsName ∧ (Text.Utf8.decode? name).isSome = true := by
  have hc : c ∈ p.components := by simp [h]
  have hplain := hp.2 c hc
  cases c with
  | root => exact absurd rfl (ne_root_of_components h hplace)
  | name name => exact ⟨name, rfl, isName_of_mem_components hc, hplain⟩
  | current => cases hplain
  | parent => cases hplain

theorem IsPlain.of_atOrBelow {p q : Path} (hp : p.IsPlain) (h : p.atOrBelow q = true)
    (hq : q.components ≠ []) : q.IsPlain := by
  refine ⟨isAbsolute_of_atOrBelow h hp.1 hq, fun c hc => hp.2 c ?_⟩
  exact (atOrBelow_iff.1 h).subset hc

theorem IsPlain.parent {p parent : Path} (hp : p.IsPlain) (h : p.parent? = some parent) :
    parent.IsPlain :=
  hp.of_atOrBelow (atOrBelow_parent h) (components_ne_nil (isAbsolute_parent hp.1 h))

end Path

namespace Listing

/-- Every entry is at the place of a plain path and, unless its place is among those that are
pending, below another entry and named by it, if that is a directory. -/
structure Linked (pending : Set (List Component)) (l : Listing) : Prop where
  root : (l.at? [.root]).isSome = true
  plain : ∀ place, (l.at? place).isSome = true → ∃ p : Path, p.IsPlain ∧ p.components = place
  parent : ∀ place c, (l.at? (place ++ [c])).isSome = true → place ++ [c] ∉ pending →
    place ≠ [] → (l.at? place).isSome = true
  listed : ∀ place children name, l.at? place = some (.directory children) →
    (l.at? (place ++ [.name name])).isSome = true → place ++ [.name name] ∉ pending →
    name ∈ children
  present : ∀ place children name, l.at? place = some (.directory children) → name ∈ children →
    (l.at? (place ++ [.name name])).isSome = true
  nodup : ∀ place children, l.at? place = some (.directory children) → children.Nodup

theorem Linked.components_ne_nil {l : Listing} (h : Linked ∅ l) {p : Path}
    (hp : (l.find? p).isSome = true) : p.components ≠ [] := by
  obtain ⟨q, hq, hqp⟩ := h.plain _ hp
  rw [← hqp]
  exact Path.components_ne_nil hq.1

theorem at?_initial (place : List Component) :
    initial.at? place = if place = [.root] then some (.directory []) else none := by
  simp only [at?, initial, List.lookup_cons, List.lookup_nil]
  by_cases h : place = [.root]
  · simp [h]
  · simp [h, beq_eq_false_iff_ne.2 h]

theorem eq_root_of_isSome_initial {place : List Component}
    (h : (initial.at? place).isSome = true) : place = [.root] := by
  by_contra hne
  simp [at?_initial, hne] at h

theorem linked_initial : Linked ∅ initial := by
  refine ⟨by simp [at?_initial], ?_, ?_, ?_, ?_, ?_⟩
  · intro place hplace
    have hslash : Path.IsPlain ⟨[slash]⟩ := by decide
    exact ⟨⟨[slash]⟩, hslash, (eq_root_of_isSome_initial hplace).symm⟩
  · intro place c hplace _ hne
    have hlength := congrArg List.length (eq_root_of_isSome_initial hplace)
    have hpos := List.length_pos_iff.2 hne
    simp only [List.length_append, List.length_singleton] at hlength
    omega
  · intro place children name _ hname _
    have hlast := congrArg List.getLast? (eq_root_of_isSome_initial hname)
    simp at hlast
  · intro place children name hplace hname
    rw [at?_initial] at hplace
    split at hplace
    · cases hplace
      simp at hname
    · cases hplace
  · intro place children hplace
    rw [at?_initial] at hplace
    split at hplace
    · cases hplace
      exact List.nodup_nil
    · cases hplace

theorem isSome_at?_set {l : Listing} {p : Path} {entry : Entry} {place : List Component}
    (h : (l.at? place).isSome = true) : ((l.set p entry).at? place).isSome = true := by
  rw [at?_set]
  split
  · rfl
  · exact h

/-- An entry without children can be put where there is no directory, and is pending then. -/
theorem Linked.set {pending : Set (List Component)} {l : Listing} (h : Linked pending l)
    {p : Path} (hp : p.IsPlain) {entry : Entry}
    (hentry : entry = .file ∨ entry = .directory [] ∧ l.find? p = none) :
    Linked (insert p.components pending) (l.set p entry) where
  root := isSome_at?_set h.root
  plain place hplace := by
    rw [at?_set] at hplace
    split at hplace
    · rename_i heq
      exact ⟨p, hp, heq.symm⟩
    · exact h.plain place hplace
  parent place c hplace hmem hne := by
    have hp : place ++ [c] ≠ p.components := fun heq => hmem (.inl heq)
    rw [at?_set, if_neg hp] at hplace
    exact isSome_at?_set (h.parent place c hplace (fun hin => hmem (.inr hin)) hne)
  listed place children name hplace hname hmem := by
    have hp : place ++ [.name name] ≠ p.components := fun heq => hmem (.inl heq)
    have hpending : place ++ [.name name] ∉ pending := fun hin => hmem (.inr hin)
    rw [at?_set, if_neg hp] at hname
    rw [at?_set] at hplace
    split at hplace
    · rename_i heq
      rcases hentry with rfl | ⟨rfl, hnone⟩
      · cases hplace
      · have hcomponents : p.components ≠ [] := Path.components_ne_nil ‹p.IsPlain›.1
        have hparent := h.parent place _ hname hpending (heq ▸ hcomponents)
        rw [heq] at hparent
        change (l.find? p).isSome = true at hparent
        simp [hnone] at hparent
    · exact h.listed place children name hplace hname hpending
  present place children name hplace hname := by
    rw [at?_set] at hplace
    split at hplace
    · rcases hentry with rfl | ⟨rfl, -⟩
      · cases hplace
      · cases hplace
        simp at hname
    · exact isSome_at?_set (h.present place children name hplace hname)
  nodup place children hplace := by
    rw [at?_set] at hplace
    split at hplace
    · rcases hentry with rfl | ⟨rfl, -⟩
      · cases hplace
      · cases hplace
        exact List.nodup_nil
    · exact h.nodup place children hplace

/-- Linking adds a name that was missing, or it changes nothing. -/
theorem link_cases (l : Listing) {parent child : Path} {name : Bytes}
    (hname : child.fileName? = some name) (htext : (Text.Utf8.decode? name).isSome = true) :
    (∃ children, l.find? parent = some (.directory children) ∧ name ∉ children ∧
        l.link parent child = l.set parent (.directory (children ++ [name]))) ∨
      l.link parent child = l ∧
        ∀ children, l.find? parent = some (.directory children) → name ∈ children := by
  rw [link, hname]
  cases hfound : l.find? parent with
  | none => exact .inr ⟨rfl, fun children h => by cases h⟩
  | some entry =>
    cases entry with
    | file => exact .inr ⟨rfl, fun children h => by cases h⟩
    | directory children =>
      have hsome : (Text.Utf8.decode? name).isNone = false := by simpa using htext
      by_cases hmem : name ∈ children
      · refine .inr ⟨by simp [hmem], fun others h => ?_⟩
        cases h
        exact hmem
      · exact .inl ⟨children, rfl, hmem, by simp [hsome, hmem]⟩

theorem isSome_at?_link (l : Listing) (parent child : Path) (place : List Component) :
    ((l.link parent child).at? place).isSome = (l.at? place).isSome := by
  rw [link]
  split
  · rename_i children name hparent _
    split
    · rfl
    · rw [at?_set]
      split
      · rename_i heq
        rw [heq]
        change true = (l.find? parent).isSome
        rw [hparent]
        rfl
      · rfl
  · rfl

theorem fileName?_of_components {p : Path} {place : List Component} {name : Bytes}
    (h : p.components = place ++ [.name name]) : p.fileName? = some name := by
  simp [Path.fileName?, h]

theorem isSome_at?_set_iff {l : Listing} {p : Path} (hp : (l.find? p).isSome = true)
    (entry : Entry) (place : List Component) :
    ((l.set p entry).at? place).isSome = true ↔ (l.at? place).isSome = true := by
  rw [at?_set]
  split
  · rename_i heq
    rw [heq]
    exact ⟨fun _ => hp, fun _ => rfl⟩
  · rfl

theorem Linked.addName {pending : Set (List Component)} {l : Listing} (h : Linked pending l)
    {p : Path} {children : List Bytes} {name : Bytes}
    (hfound : l.find? p = some (.directory children)) (hmissing : name ∉ children)
    (hchild : (l.at? (p.components ++ [.name name])).isSome = true) :
    Linked pending (l.set p (.directory (children ++ [name]))) where
  root := isSome_at?_set h.root
  plain place hplace := by
    rw [isSome_at?_set_iff (by rw [hfound]; rfl)] at hplace
    exact h.plain place hplace
  parent place c hplace hmem hne := by
    rw [isSome_at?_set_iff (by rw [hfound]; rfl)] at hplace
    exact isSome_at?_set (h.parent place c hplace hmem hne)
  listed place others other hplace hother hmem := by
    rw [isSome_at?_set_iff (by rw [hfound]; rfl)] at hother
    rw [at?_set] at hplace
    split at hplace
    · rename_i heq
      cases hplace
      subst heq
      exact List.mem_append_left _ (h.listed _ children other hfound hother hmem)
    · exact h.listed place others other hplace hother hmem
  present place others other hplace hother := by
    rw [isSome_at?_set_iff (by rw [hfound]; rfl)]
    rw [at?_set] at hplace
    split at hplace
    · rename_i heq
      cases hplace
      subst heq
      rcases List.mem_append.1 hother with hother | hother
      · exact h.present _ children other hfound hother
      · rw [List.mem_singleton.1 hother]
        exact hchild
    · exact h.present place others other hplace hother
  nodup place others hplace := by
    rw [at?_set] at hplace
    split at hplace
    · cases hplace
      exact List.nodup_append.2 ⟨h.nodup _ children hfound, by simp,
        fun a ha b hb hab => hmissing (List.mem_singleton.1 hb ▸ hab ▸ ha)⟩
    · exact h.nodup place others hplace

/-- What is below something, and named by it if that is a directory, is no longer pending. -/
theorem Linked.settle {pending : Set (List Component)} {l : Listing} {place : List Component}
    {name : Bytes} (h : Linked (insert (place ++ [.name name]) pending) l)
    (hthere : (l.at? place).isSome = true)
    (hnamed : ∀ children, l.at? place = some (.directory children) → name ∈ children) :
    Linked pending l := by
  have hpending {other : List Component} (hmem : other ∉ pending)
      (hother : other ≠ place ++ [.name name]) : other ∉ insert (place ++ [.name name]) pending := by
    rintro (heq | hin)
    · exact hother heq
    · exact hmem hin
  refine { h with parent := ?_, listed := ?_ }
  · intro other c hother hmem hne
    by_cases heq : other ++ [c] = place ++ [.name name]
    · rw [(List.append_inj' heq rfl).1]
      exact hthere
    · exact h.parent other c hother (hpending hmem heq) hne
  · intro other children text hother htext hmem
    by_cases heq : other ++ [.name text] = place ++ [.name name]
    · obtain ⟨rfl, hlast⟩ := List.append_inj' heq rfl
      have hsame : text = name := by simpa using hlast
      exact hsame ▸ hnamed children hother
    · exact h.listed other children text hother htext (hpending hmem heq)

theorem Linked.link {pending : Set (List Component)} {l : Listing} {parent child : Path}
    (h : Linked (insert child.components pending) l) (hchild : (l.find? child).isSome = true)
    (hparent : child.parent? = some parent) (hthere : (l.find? parent).isSome = true)
    (hplain : child.IsPlain) : Linked pending (l.link parent child) := by
  obtain ⟨c, hc⟩ := Path.components_of_parent? hparent
  have hne : parent.components ≠ [] := Path.components_ne_nil (hplain.parent hparent).1
  obtain ⟨name, rfl, -, htext⟩ := hplain.name hc hne
  rw [find?, hc] at hchild
  rw [hc] at h
  rcases link_cases l (fileName?_of_components hc) htext with
    ⟨children, hfound, hmissing, hlink⟩ | ⟨hlink, hnamed⟩
  · rw [hlink]
    refine (h.addName hfound hmissing hchild).settle (isSome_at?_set hthere) fun others hothers => ?_
    rw [at?_set, if_pos rfl] at hothers
    cases hothers
    simp
  · rw [hlink]
    exact h.settle hthere hnamed

theorem addDirectory_of_isSome {l : Listing} {p : Path} (h : (l.find? p).isSome = true) :
    l.addDirectory p = l := by
  rw [addDirectory]
  cases hparent : p.parent? with
  | none => rw [Path.ancestors_of_parent?_eq_none hparent, addChain, if_pos h]
  | some parent =>
    rw [Path.ancestors_of_parent? hparent]
    cases hchain : parent.ancestors with
    | nil => rw [addChain, if_pos h]
    | cons q rest => rw [addChain, if_pos h]

theorem addDirectory_of_parent? {l : Listing} {p parent : Path} (h : l.find? p = none)
    (hparent : p.parent? = some parent) :
    l.addDirectory p = ((l.set p (.directory [])).addDirectory parent).link parent p := by
  rw [addDirectory, addDirectory, Path.ancestors_of_parent? hparent]
  cases hgrand : parent.parent? with
  | none => simp [Path.ancestors_of_parent?_eq_none hgrand, addChain, h]
  | some grand => simp [Path.ancestors_of_parent? hgrand, addChain, h]

theorem isSome_at?_addChain {l : Listing} {chain : List Path} {place : List Component}
    (h : (l.at? place).isSome = true) : ((l.addChain chain).at? place).isSome = true := by
  fun_induction addChain l chain with
  | case1 => exact h
  | case2 => exact h
  | case3 => exact isSome_at?_set h
  | case4 => exact h
  | case5 l p parent rest hp ih =>
    rw [isSome_at?_link]
    exact ih (isSome_at?_set h)

theorem isSome_find?_addChain (l : Listing) (p : Path) (rest : List Path) :
    ((l.addChain (p :: rest)).find? p).isSome = true := by
  cases rest with
  | nil =>
    rw [addChain]
    split
    · assumption
    · simp [find?, at?_set]
  | cons parent rest =>
    rw [addChain]
    split
    · assumption
    · change ((Listing.link _ parent p).at? p.components).isSome = true
      rw [isSome_at?_link]
      exact isSome_at?_addChain (by simp [at?_set])

theorem isSome_find?_addDirectory (l : Listing) (p : Path) :
    ((l.addDirectory p).find? p).isSome = true := by
  rw [addDirectory]
  cases hparent : p.parent? with
  | none =>
    rw [Path.ancestors_of_parent?_eq_none hparent]
    exact isSome_find?_addChain l p []
  | some parent =>
    rw [Path.ancestors_of_parent? hparent]
    exact isSome_find?_addChain l p parent.ancestors

theorem mem_of_isSome_addChain {l : Listing} {chain : List Path} {place : List Component}
    (h : ((l.addChain chain).at? place).isSome = true) :
    (l.at? place).isSome = true ∨ ∃ p ∈ chain, place = p.components := by
  have hset {l : Listing} {p : Path} (h : ((l.set p (.directory [])).at? place).isSome = true) :
      (l.at? place).isSome = true ∨ place = p.components := by
    rw [at?_set] at h
    split at h
    · exact .inr ‹_›
    · exact .inl h
  fun_induction addChain l chain with
  | case1 => exact .inl h
  | case2 => exact .inl h
  | case3 l p hp => exact (hset h).imp_right fun heq => ⟨p, by simp, heq⟩
  | case4 => exact .inl h
  | case5 l p parent rest hp ih =>
    rw [isSome_at?_link] at h
    rcases ih h with h | ⟨q, hq, heq⟩
    · exact (hset h).imp_right fun heq => ⟨p, by simp, heq⟩
    · exact .inr ⟨q, List.mem_cons_of_mem p hq, heq⟩

theorem at?_link_eq_file_iff (l : Listing) (parent child : Path) (place : List Component) :
    (l.link parent child).at? place = some .file ↔ l.at? place = some .file := by
  rw [link]
  split
  · rename_i children name hparent _
    split
    · rfl
    · rw [at?_set]
      split
      · rename_i heq
        have hplace : l.at? place = some (.directory children) := heq ▸ hparent
        simp [hplace]
      · rfl
  · rfl

theorem at?_addChain_eq_file_iff (l : Listing) (chain : List Path) (place : List Component) :
    (l.addChain chain).at? place = some .file ↔ l.at? place = some .file := by
  have hset {l : Listing} {p : Path} (hp : ¬(l.find? p).isSome = true) :
      (l.set p (.directory [])).at? place = some .file ↔ l.at? place = some .file := by
    rw [at?_set]
    split
    · rename_i heq
      have hnone : l.at? place = none := heq ▸ Option.not_isSome_iff_eq_none.1 hp
      simp [hnone]
    · rfl
  fun_induction addChain l chain with
  | case1 => rfl
  | case2 => rfl
  | case3 l p hp => exact hset hp
  | case4 => rfl
  | case5 l p parent rest hp ih =>
    exact (at?_link_eq_file_iff _ parent p place).trans (ih.trans (hset hp))

theorem Linked.addDirectory {pending : Set (List Component)} {l : Listing} (h : Linked pending l)
    {p : Path} (hp : p.IsPlain) : Linked pending (l.addDirectory p) := by
  cases hfound : l.find? p with
  | some entry => rwa [addDirectory_of_isSome (by simp [hfound])]
  | none =>
    cases hparent : p.parent? with
    | none =>
      have hroot := h.root
      rw [← (Path.parent?_eq_none_iff_of_isAbsolute hp.1).1 hparent] at hroot
      change (l.find? p).isSome = true at hroot
      simp [hfound] at hroot
    | some parent =>
      rw [addDirectory_of_parent? hfound hparent]
      have hset : Linked _ (l.set p (.directory [])) := h.set hp (.inr ⟨rfl, hfound⟩)
      have hadded := hset.addDirectory (hp.parent hparent)
      refine hadded.link ?_ hparent ?_ hp
      · exact isSome_at?_addChain (by simp [at?_set])
      · exact isSome_find?_addDirectory _ parent
termination_by p.components.length
decreasing_by exact Path.length_components_of_parent? hparent

theorem Linked.addFile {l : Listing} (h : Linked ∅ l) {p : Path} (hp : p.IsPlain) :
    Linked ∅ (l.addFile p) := by
  have hset : Linked _ (l.set p .file) := h.set hp (.inl rfl)
  rw [Listing.addFile]
  cases hparent : p.parent? with
  | none =>
    have hroot := (Path.parent?_eq_none_iff_of_isAbsolute hp.1).1 hparent
    rw [hroot] at hset
    have hpending {place : List Component} {c : Component}
        (hmem : place ++ [c] ∈ insert [.root] (∅ : Set (List Component))) :
        place = [] ∧ [c] = [.root] :=
      List.append_inj' (hmem.resolve_right fun hin => hin) rfl
    refine { hset with parent := ?_, listed := ?_ }
    · exact fun place c hplace _ hne =>
        hset.parent place c hplace (fun hmem => hne (hpending hmem).1) hne
    · exact fun place children name hplace hname _ =>
        hset.listed place children name hplace hname fun hmem => by simpa using (hpending hmem).2
  | some parent =>
    have hadded := hset.addDirectory (hp.parent hparent)
    exact hadded.link (isSome_at?_addChain (by simp [at?_set])) hparent
      (isSome_find?_addDirectory _ parent) hp

theorem Linked.edit {l : Listing} (h : Linked ∅ l) {e : Edit} (he : e.path.IsPlain) :
    Linked ∅ (l.edit e) := by
  cases e with
  | directory p => exact h.addDirectory he
  | file p => exact h.addFile he
  | denial p => exact { h with }

/-- However a listing was built, it is linked. -/
theorem linked_build {edits : List Edit} (h : ∀ e ∈ edits, e.path.IsPlain) :
    Linked ∅ (build edits) := by
  rw [build]
  induction edits using List.reverseRecOn with
  | nil => exact linked_initial
  | append_singleton edits e ih =>
    rw [List.foldl_append]
    exact (ih fun e he => h e (by simp [he])).edit (h e (by simp))

end Listing

end DirectoryWatch
