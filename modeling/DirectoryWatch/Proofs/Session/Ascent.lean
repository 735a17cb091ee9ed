import DirectoryWatch.Proofs.Registry.Delta
import DirectoryWatch.Proofs.Session.Coverage

/-!
# Walks in order

A walk over a listing that does not change takes up directories in ascending order: each before
everything below it, and of two that lie apart everything at or below the earlier one first. The
starts of the walks for one call ascend and lie apart too, so the whole answer of a call ascends.
-/
namespace DirectoryWatch

namespace Path

variable {p q d c : Path}

/-- Everything at or below `p` comes before everything at or below `q`. -/
def Precedes (p q : Path) : Prop :=
  ∀ d e : Path, d.atOrBelow p = true → e.atOrBelow q = true → d < e

theorem lt_of_below (h : d.below p = true) : p < d := by
  obtain ⟨hne, hd⟩ := below_iff.1 h
  by_contra hle
  exact hne (same_of_le_of_le (not_lt.1 hle) (le_of_atOrBelow hd))

theorem Precedes.of_atOrBelow (h : p.Precedes q) (hc : c.atOrBelow p = true) : c.Precedes q :=
  fun d e hd he => h d e (atOrBelow_trans hd hc) he

theorem precedes_of_le (h : p ≤ q) (hq : ¬q.atOrBelow p = true) : p.Precedes q := by
  intro d e hd he
  by_contra hle
  -- Otherwise `q` would stand between `p` and something below it.
  have hqd : q ≤ d := le_trans (le_of_atOrBelow he) (not_lt.1 hle)
  exact hq (atOrBelow_of_le_of_le h hqd hd)

theorem precedes_topmost (paths : List Path) : (topmost paths).Pairwise Precedes := by
  have hsorted := (pairwise_sort paths).sublist (keepUncovered_sublist none (sort paths))
  have hbelow : (topmost paths).Pairwise fun p q => ¬q.atOrBelow p = true :=
    pairwise_keepUncovered (pairwise_sort paths)
  exact (hsorted.and hbelow).imp fun h => precedes_of_le h.1 h.2

theorem precedes_sort {paths : List Path}
    (h : paths.Pairwise fun p q => ¬p.atOrBelow q = true ∧ ¬q.atOrBelow p = true) :
    (sort paths).Pairwise Precedes := by
  have hperm : (sort paths).Perm paths := List.mergeSort_perm _ _
  have hapart := hperm.symm.pairwise h fun {_ _} => And.symm
  exact ((pairwise_sort paths).and hapart).imp fun h => precedes_of_le h.1 h.2.2

theorem not_atOrBelow_of_siblings {a b : Component} (hp : p.components = d.components ++ [a])
    (hq : q.components = d.components ++ [b]) (hne : a ≠ b) : ¬p.atOrBelow q = true := by
  intro hpq
  have hprefix := atOrBelow_iff.1 hpq
  rw [hp, hq, List.prefix_append_right_inj] at hprefix
  exact hne (List.cons_prefix_cons.1 hprefix).1.symm

section

variable {stack found : List Path} (hfound : ∀ child ∈ found, child.below p = true)
include hfound

/-- What was found in a directory comes after it, and so does what comes after the directory. -/
theorem lt_of_coveredBy_append (hstack : ∀ q ∈ stack, p.Precedes q)
    (hd : d.coveredBy (found ++ stack) = true) : p < d := by
  rw [coveredBy_append, Bool.or_eq_true, coveredBy_iff, coveredBy_iff] at hd
  rcases hd with ⟨child, hchild, hdc⟩ | ⟨q, hq, hdq⟩
  · have hle : child ≤ d := le_of_atOrBelow hdc
    by_contra hnot
    exact not_lt.2 (le_trans hle (not_lt.1 hnot)) (lt_of_below (hfound child hchild))
  · exact hstack q hq p d (atOrBelow_refl p) hdq

theorem coveredBy_cons_of_append (hd : d.coveredBy (found ++ stack) = true) :
    d.coveredBy (p :: stack) = true := by
  rw [coveredBy_append, Bool.or_eq_true, coveredBy_iff, coveredBy_iff] at hd
  rw [coveredBy_iff]
  rcases hd with ⟨child, hchild, hdc⟩ | ⟨q, hq, hdq⟩
  · exact ⟨p, by simp, atOrBelow_trans hdc (below_iff.1 (hfound child hchild)).2⟩
  · exact ⟨q, List.mem_cons_of_mem p hq, hdq⟩

/-- In the place of a directory, what was found in it stands in order too. -/
theorem precedes_append_of_cons (hordered : found.Pairwise Precedes)
    (hstack : (p :: stack).Pairwise Precedes) : (found ++ stack).Pairwise Precedes := by
  obtain ⟨hp, hrest⟩ := List.pairwise_cons.1 hstack
  refine List.pairwise_append.2 ⟨hordered, hrest, fun child hchild q hq => ?_⟩
  exact (hp q hq).of_atOrBelow (below_iff.1 (hfound child hchild)).2

end

end Path

namespace Listing

variable {l : Listing} {p child : Path} {entries : List Path}

theorem Linked.below_of_mem_directoriesAmong (h : Linked ∅ l) (hp : l.isDirectory p = .ok true)
    (hentries : l.entriesOf p = .ok entries) (hchild : child ∈ l.directoriesAmong entries) :
    child.below p = true := by
  obtain ⟨names, hfound, rfl⟩ := exists_names hp hentries
  obtain ⟨name, hname, rfl⟩ := List.mem_map.1 (mem_directoriesAmong.1 hchild).1
  have hjoin := h.components_join hfound hname
  refine Path.below_iff.2 ⟨fun hsame => ?_, Path.atOrBelow_iff.2 ⟨_, hjoin.symm⟩⟩
  rw [Path.Same, hjoin] at hsame
  simp at hsame

theorem Linked.precedes_directoriesAmong (h : Linked ∅ l) (hp : l.isDirectory p = .ok true)
    (hentries : l.entriesOf p = .ok entries) :
    (l.directoriesAmong entries).Pairwise Path.Precedes := by
  obtain ⟨names, hfound, rfl⟩ := exists_names hp hentries
  apply Path.precedes_sort
  apply List.Pairwise.filter
  rw [List.pairwise_map]
  refine (h.nodup _ names hfound).imp_of_mem fun {a b} ha hb hne => ?_
  have hja := h.components_join hfound ha
  have hjb := h.components_join hfound hb
  exact ⟨Path.not_atOrBelow_of_siblings hja hjb fun hab => hne (Component.name.inj hab),
    Path.not_atOrBelow_of_siblings hjb hja fun hba => hne (Component.name.inj hba).symm⟩

end Listing

variable {World : Type} {host : Host World} {l : Listing} {now : World → Prop}
  {wanted : Path → Bool}

namespace Trail

variable {t t₁ t₂ t' : Trail World} {directory start : Path} {xs ys stack found : List Path}

theorem added_visit (h : visit host directory t = (.ok found, t')) :
    t'.added = t.added ∨ t'.added = t.added ++ [directory] := by
  rw [visit] at h
  split at h
  · cases h
  · cases h
    exact .inl rfl
  · rename_i w _
    split at h
    · cases h
    · rename_i t₁ hregister
      have hadded := added_children host directory t₁
      rw [h] at hadded
      rw [register] at hregister
      split at hregister
      · cases hregister
        exact .inl hadded
      · split at hregister
        · cases hregister
        · cases hregister
          exact .inr hadded

/-- What was added to the trail ascends, and it lies at or below the paths that were to be taken
up. -/
def Ascends (stack : List Path) (t t' : Trail World) : Prop :=
  ∃ new, t'.added = t.added ++ new ∧ new.Pairwise (· < ·) ∧
    ∀ d ∈ new, d.coveredBy stack = true

theorem Ascends.none (h : t'.added = t.added) : Ascends stack t t' :=
  ⟨[], by rw [h, List.append_nil], .nil, by simp⟩

theorem Ascends.trans (h : Ascends xs t t₁) (k : Ascends ys t₁ t₂)
    (hprecedes : ∀ p ∈ xs, ∀ q ∈ ys, p.Precedes q) : Ascends (xs ++ ys) t t₂ := by
  obtain ⟨new, hnew, hascending, hcovered⟩ := h
  obtain ⟨more, hmore, hlater, hcoveredLater⟩ := k
  refine ⟨new ++ more, by rw [hmore, hnew, List.append_assoc], ?_, fun d hd => ?_⟩
  · refine List.pairwise_append.2 ⟨hascending, hlater, fun d hd e he => ?_⟩
    obtain ⟨p, hp, hdp⟩ := Path.coveredBy_iff.1 (hcovered d hd)
    obtain ⟨q, hq, heq⟩ := Path.coveredBy_iff.1 (hcoveredLater e he)
    exact hprecedes p hp q hq d e hdp heq
  · rw [Path.coveredBy_append, Bool.or_eq_true]
    exact (List.mem_append.1 hd).imp (hcovered d) (hcoveredLater d)

/-- Taking up a directory comes before taking up what was found in it and what was left to do. -/
theorem Ascends.cons (hadded : t₁.added = t.added ∨ t₁.added = t.added ++ [directory])
    (hfound : ∀ child ∈ found, child.below directory = true)
    (hrest : ∀ p ∈ stack, directory.Precedes p) (h : Ascends (found ++ stack) t₁ t₂) :
    Ascends (directory :: stack) t t₂ := by
  obtain ⟨new, hnew, hascending, hcovered⟩ := h
  have hlater (d : Path) (hd : d ∈ new) : directory < d :=
    Path.lt_of_coveredBy_append hfound hrest (hcovered d hd)
  have hkept (d : Path) (hd : d ∈ new) : d.coveredBy (directory :: stack) = true :=
    Path.coveredBy_cons_of_append hfound (hcovered d hd)
  rcases hadded with hnone | hone
  · exact ⟨new, by rw [hnew, hnone], hascending, hkept⟩
  · refine ⟨directory :: new, by rw [hnew, hone, List.append_assoc, List.singleton_append],
      List.pairwise_cons.2 ⟨hlater, hascending⟩, fun d hd => ?_⟩
    rcases List.mem_cons.1 hd with rfl | hd
    · exact Path.coveredBy_of_mem (by simp)
    · exact hkept d hd

theorem ordered_visit (h : host.Shows l now) (hlinked : l.Linked ∅) (ht : now t.world)
    (hvisit : visit host directory t = (.ok found, t')) :
    (∀ child ∈ found, child.below directory = true) ∧ found.Pairwise Path.Precedes := by
  rcases visit_shows h ht hvisit with ⟨-, rfl, -⟩ | ⟨hyes, -, entries, hentries, rfl⟩
  · exact ⟨by simp, .nil⟩
  · exact ⟨fun child => hlinked.below_of_mem_directoriesAmong hyes hentries,
      hlinked.precedes_directoriesAmong hyes hentries⟩

theorem ascends_walkFrom (h : host.Shows l now) (hlinked : l.Linked ∅) {limit : Nat}
    {t : Trail World} (ht : now t.world) (hstack : stack.Pairwise Path.Precedes)
    (hwalk : walkFrom host start wanted limit stack t = (.ok (), t')) : Ascends stack t t' := by
  fun_induction walkFrom host start wanted limit stack t with
  | case1 limit t =>
    cases hwalk
    exact .none rfl
  | case2 => cases hwalk
  | case3 => cases hwalk
  | case4 limit directory rest t htaken found t₁ hvisit ih =>
    have ht₁ := h.visit directory ht
    rw [hvisit] at ht₁
    obtain ⟨hfound, hordered⟩ := ordered_visit h hlinked ht hvisit
    have hnext := Path.precedes_append_of_cons hfound hordered hstack
    exact .cons (added_visit hvisit) hfound (List.pairwise_cons.1 hstack).1 (ih ht₁ hnext hwalk)
  | case5 limit directory rest t htaken ih =>
    obtain ⟨hdirectory, hrest⟩ := List.pairwise_cons.1 hstack
    have hfound : ∀ child ∈ ([] : List Path), child.below directory = true := by simp
    exact .cons (.inl rfl) hfound hdirectory (ih ht hrest hwalk)

theorem ascends_walkAll (h : host.Shows l now) (hlinked : l.Linked ∅) {starts : List Path}
    {t : Trail World} (ht : now t.world) (hstarts : starts.Pairwise Path.Precedes)
    (hwalk : walkAll host wanted starts t = (.ok (), t')) : Ascends starts t t' := by
  fun_induction walkAll host wanted starts t with
  | case1 t =>
    cases hwalk
    exact .none rfl
  | case2 => cases hwalk
  | case3 start rest t t₁ hfirst ih =>
    rw [walk] at hfirst
    obtain ⟨hstart, hrest⟩ := List.pairwise_cons.1 hstarts
    have ht₁ := h.walkFrom start wanted (host.walkLimit t.world) [start] ht
    rw [hfirst] at ht₁
    have hascends := ascends_walkFrom h hlinked ht (List.pairwise_singleton _ start) hfirst
    refine hascends.trans (ih ht₁ hrest hwalk) fun p hp q hq => ?_
    rw [List.mem_singleton.1 hp]
    exact hstart q hq

end Trail

namespace Session

variable {s : Session} {w w₁ : World} {c : Call}

theorem precedes_errand {fs : FileSystem World} {errand : Errand}
    (h : s.errand fs w c = (.ok errand, w₁)) : errand.starts.Pairwise Path.Precedes := by
  have hrequest (tell : Update → Option Update) {request : Request}
      (h : s.requestErrand fs tell request w = (.ok errand, w₁)) :
      errand.starts.Pairwise Path.Precedes := by
    obtain ⟨registry, update, hregister, rfl⟩ := requestErrand_ok h
    obtain ⟨_, _, -, -, -, hmerges⟩ := Registry.merges_of_register hregister
    obtain ⟨paths, hsub⟩ := hmerges.newPoints_sublist
    exact (Path.precedes_topmost paths).sublist hsub
  cases c with
  | register request => exact hrequest some h
  | watch request => exact hrequest (fun _ => none) h
  | created directory =>
    cases h
    dsimp only
    split
    · exact List.pairwise_singleton _ directory
    · exact .nil

theorem ascending_call (h : host.Shows l now) (hlinked : l.Linked ∅) (hw : now w)
    {outcome : Outcome} (hok : (s.call host w c).result = .ok outcome) :
    outcome.directories.Pairwise (· < ·) := by
  obtain ⟨errand, w₁, t, herrand, hwalk, rfl⟩ := walks_of_call_ok hok
  have hasked := h.fileSystem.errand s c hw
  rw [herrand] at hasked
  obtain ⟨new, hnew, hascending, -⟩ :=
    Trail.ascends_walkAll (t := s.trail w₁) h hlinked hasked (precedes_errand herrand) hwalk
  have hall : t.added = new := hnew
  rw [hall]
  exact hascending

/-- On a listing that does not change during the call, whatever happened to the session before,
the directories that a call answers with ascend: none appears twice, and each ancestor comes before
what lies below it. -/
theorem directories_ascend {edits : List Listing.Edit} (hedits : ∀ e ∈ edits, e.path.IsPlain)
    (hshows : host.Shows (.build edits) now) (s : Session) (c : Call) (hw : now w)
    {outcome : Outcome} (hok : (s.call host w c).result = .ok outcome) :
    outcome.directories.Pairwise (· < ·) ∧
      outcome.directories.Pairwise fun p q => ¬p.Same q ∧ p.below q = false := by
  have hascending := ascending_call hshows (Listing.linked_build hedits) hw hok
  refine ⟨hascending, hascending.imp fun {p q} hlt => ⟨fun hsame => ?_, ?_⟩⟩
  · exact Path.not_lt.2 (Path.le_of_atOrBelow hsame.atOrBelow) hlt
  · rw [Bool.eq_false_iff]
    exact fun hbelow => Path.lt_irrefl p (Path.lt_trans hlt (Path.lt_of_below hbelow))

def mixedNames : List Listing.Edit :=
  [.directory (Path.ofString "/p/a.d"), .directory (Path.ofString "/p/a/b"),
    .directory (Path.ofString "/q")]

def knowingDeep : Step (Recorder Listing) Outcome :=
  (start .collapse).call recording (.start (.build mixedNames) none)
    (.register (.ofRoots [Path.ofString "/p/a/b"]))

/-- As a string, `/p/a.d` comes before `/p/a/b`. As paths, `/p/a` and all below it come first. -/
theorem directories_ascend_mixedNames :
    let asked := Call.watch (.ofRoots [Path.ofString "/q", Path.ofString "/p"])
    let after := knowingDeep.session.call recording knowingDeep.world asked
    ∃ outcome, after.result = .ok outcome ∧
      outcome.directories.map Path.display = ["/p", "/p/a", "/p/a.d", "/q"] ∧
      outcome.directories.Pairwise (· < ·) ∧
      outcome.directories.Pairwise fun p q => ¬p.Same q ∧ p.below q = false := by
  intro asked after
  have hanswer : after.result.toOption.map (fun outcome => outcome.directories.map Path.display) =
      some ["/p", "/p/a", "/p/a.d", "/q"] := by cbv
  rcases hresult : after.result with e | outcome
  all_goals rw [hresult] at hanswer
  · cases hanswer
  · have hserves := Recorder.serves (.build mixedNames) (Path.ofString "/")
    have hnow : knowingDeep.world.world = .build mixedNames ∧
        knowingDeep.world.refusing = none :=
      hserves.toMaintains.call _ _ ⟨rfl, rfl⟩
    exact ⟨outcome, rfl, Option.some.inj hanswer, directories_ascend (by decide +kernel)
      hserves.shows knowingDeep.session asked hnow hresult⟩

end Session

end DirectoryWatch
