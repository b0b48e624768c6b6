import Codex.PathUri.Local
import Codex.Permissions.Metadata
import Codex.Rooted

/-! # On local URIs a policy grants what `Rooted` says of the names of its roots -/

namespace Codex.Permissions

open Codex.Text List Option PathUri Rooted

def metadataKeys : List (List UInt8) := protectedMetadataPathNames.map Text.asBytes

def localEntries (c : UrlCrates) (entries : List (PathUri × FileSystemAccessMode)) :
    List (List (List UInt8) × FileSystemAccessMode) :=
  entries.filterMap fun e => (e.1.localNames c).map (·, e.2)

namespace FileSystemSandboxPolicy

structure LocalRoots (c : UrlCrates) (entries : List (PathUri × FileSystemAccessMode)) : Prop where
  names : ∀ e ∈ entries, (e.1.localNames c).isSome ∨ e.1.isOpaque c = true ∧ e.1.inferPathConvention c = some .posix
  joins : ∀ e ∈ entries, e.2 = .write → ∀ key, e.1.localNames c = some key →
    ∀ name ∈ protectedMetadataPathNames, ∃ dir, e.1.joinDescendant c name = .ok dir ∧
      dir.localNames c = some (key ++ [name.asBytes])

variable {c : UrlCrates} {policy : FileSystemSandboxPolicy} {context : FileSystemSandboxPolicyContext}
  {entries : List (PathUri × FileSystemAccessMode)} {path root : PathUri} {key rootKey : List (List UInt8)}
  {access : FileSystemAccessMode}

lemma mem_localEntries : (rootKey, access) ∈ localEntries c entries ↔
    ∃ root, (root, access) ∈ entries ∧ root.localNames c = some rootKey := by
  unfold localEntries
  rw [mem_filterMap]
  constructor
  · rintro ⟨⟨root, _⟩, hin, hm⟩
    obtain ⟨_, hn, heq⟩ := map_eq_some_iff.mp hm
    cases heq
    exact ⟨root, hin, hn⟩
  · rintro ⟨root, hin, hn⟩
    exact ⟨(root, access), hin, by simp [hn]⟩

lemma LocalRoots.of_startsWith (h : LocalRoots c entries) (hp : path.localNames c = some key)
    (hin : e ∈ entries) (hs : path.startsWith c e.1) :
    ∃ rootKey, e.1.localNames c = some rootKey ∧ rootKey <+: key := by
  rcases h.names e hin with hso | ⟨ho, -⟩
  · obtain ⟨rootKey, hr⟩ := isSome_iff_exists.mp hso
    exact ⟨rootKey, hr, (startsWith_iff_names hp hr).mp hs⟩
  · rw [startsWith_of_isOpaque hp ho] at hs
    simp at hs

lemma decides_local (h : LocalRoots c entries) (hp : path.localNames c = some key) :
    Decides c entries path access ↔ ∃ rootKey, Rooted.Decides (localEntries c entries) key rootKey access := by
  constructor
  · rintro ⟨root, depth, hin, hd, hs, hm⟩
    obtain ⟨rootKey, hr, hpr⟩ := h.of_startsWith hp hin hs
    obtain rfl := some.inj ((lexicalDepth_of_localNames hr).symm.trans hd)
    refine ⟨rootKey, mem_localEntries.mpr ⟨root, hin, hr⟩, hpr, ?_⟩
    rintro ⟨otherKey, mode⟩ ho ha
    obtain ⟨other, hin', ho'⟩ := mem_localEntries.mp ho
    rcases hm (other, mode) hin' ((startsWith_iff_names hp ho').mpr ha) _
      (lexicalDepth_of_localNames ho') with hlt | ⟨heq, hle⟩
    · exact .inl hlt
    · exact .inr ⟨eq_of_prefix_length ha hpr heq, hle⟩
  rintro ⟨rootKey, hme, ha, hm⟩
  obtain ⟨root, hin, hr⟩ := mem_localEntries.mp hme
  refine ⟨root, _, hin, lexicalDepth_of_localNames hr, (startsWith_iff_names hp hr).mpr ha, ?_⟩
  rintro ⟨other, mode⟩ ho hs depth hd
  obtain ⟨otherKey, hok, hpr⟩ := h.of_startsWith hp ho hs
  obtain rfl := some.inj ((lexicalDepth_of_localNames hok).symm.trans hd)
  rcases hm (otherKey, mode) (mem_localEntries.mpr ⟨other, ho, hok⟩) hpr with hlt | ⟨heq, hle⟩
  · exact .inl hlt
  · exact .inr ⟨congrArg _ heq, hle⟩

structure LocalPolicy (c : UrlCrates) (policy : FileSystemSandboxPolicy)
    (context : FileSystemSandboxPolicyContext) : Prop where
  kind_eq : policy.kind = .restricted
  cwd : (context.cwd.localNames c).isSome
  roots : LocalRoots c (policy.resolvedEntries c context)

lemma LocalPolicy.cwd_eq (h : LocalPolicy c policy context) :
    context.cwd.inferPathConvention c = some .posix ∧ (context.cwd.lexicalDepth c).isSome := by
  obtain ⟨_, hn⟩ := isSome_iff_exists.mp h.cwd
  exact ⟨(localNames_eq_some_iff.mp hn).1, by rw [lexicalDepth_of_localNames hn]; rfl⟩

lemma grants_local (h : LocalPolicy c policy context) (hp : path.localNames c = some key) :
    Grants c policy context path access ↔
      ∃ rootKey, Rooted.Decides (localEntries c (policy.resolvedEntries c context)) key rootKey access := by
  have hd : ∀ e ∈ policy.resolvedEntries c context, e.1.lexicalDepth c = none → e.1.isOpaque c := by
    intro e he hn
    rcases h.roots.names e he with hs | ⟨hr, -⟩
    · obtain ⟨names, hna⟩ := isSome_iff_exists.mp hs
      rw [lexicalDepth_of_localNames hna] at hn
      simp at hn
    · exact hr
  unfold Grants
  rw [if_pos h.kind_eq, decides_local h.roots hp]
  obtain ⟨hpo, hde⟩ := h.cwd_eq
  simp only [(localNames_eq_some_iff.mp hp).1, hpo, lexicalDepth_of_localNames hp, hde, isSome_some, true_and]
  exact ⟨fun h => h.2, fun h => ⟨hd, h⟩⟩

lemma resolveAccess_of_not_local (h : LocalPolicy c policy context) (hp : path.localNames c = none) :
    policy.resolveAccess c path context = .deny := by
  rw [resolveAccess_restricted h.kind_eq, if_neg]
  rintro ⟨hc, hd, -⟩
  unfold PathUri.localNames at hp
  rw [if_pos ⟨hc.trans h.cwd_eq.1, hd⟩] at hp
  simp at hp

/-! ## Metadata -/

lemma metadata_head (h : name ∈ protectedMetadataPathNames) : name.head? = some '.' := by
  revert name
  decide

lemma protectedDir_of_isOpaque (ho : root.isOpaque c)
    (hp : root.inferPathConvention c = some .posix) : protectedDir c path root = none := by
  unfold protectedDir
  rw [findSome?_eq_none_iff]
  intro name hna
  have hj : (root.joinDescendant c name).toOption = none := by
    have hn : name.contains '\x00' = false ∧ name.isEmpty = false := by
      revert name
      decide
    have ha : fromAbsoluteNativePath c name .posix = none := by
      unfold fromAbsoluteNativePath parsePosixPath
      simp only [stripPrefix_of_head (p := ['/']) rfl (by rw [metadata_head hna]; simp), bind_eq_bind, bind_none]
    unfold joinDescendant PathUri.join
    rw [hn.1, hn.2, hp]
    simp only [ha, ho]
    rfl
  rw [hj]
  rfl

lemma protectedDir_local (hp : path.localNames c = some key)
    (hj : ∀ name ∈ protectedMetadataPathNames, ∃ dir, root.joinDescendant c name = .ok dir ∧
      dir.localNames c = some (rootKey ++ [name.asBytes])) :
    (protectedDir c path root).map (·.1.localNames c) = (guardAt metadataKeys key rootKey).map some := by
  unfold protectedDir guardAt metadataKeys
  rw [List.map_map]
  generalize protectedMetadataPathNames = names at hj
  induction names with
  | nil => rfl
  | cons name names ih => ?_
  obtain ⟨dir, hjo, hd⟩ := hj name (by simp)
  have hi := startsWith_iff_names hp hd
  rw [findSome?_cons, map_cons, find?_cons, hjo]
  by_cases hs : path.startsWith c dir
  · simp [Except.toOption, Option.filter, hs, hd, hi.mp hs]
  have hpr : ¬ rootKey ++ [name.asBytes] <+: key := fun hpr => hs (hi.mpr hpr)
  simp only [Except.toOption, Option.filter, hs, Function.comp_apply, hpr]
  exact ih fun other ho => hj other (by simp [ho])

lemma dirOf_local (h : LocalRoots c entries) (hpa : path.localNames c = some key) :
    (dirOf c path entries).map (PathUri.localNames c) =
      (firstGuard metadataKeys .write (localEntries c entries) key).map some := by
  unfold dirOf firstGuard localEntries
  induction entries with
  | nil => rfl
  | cons e entries ih => ?_
  obtain ⟨root, access⟩ := e
  have hr : LocalRoots c entries :=
    ⟨fun e he => h.names e (by simp [he]), fun e he => h.joins e (by simp [he])⟩
  have hro := h.names (root, access) (by simp)
  have hj := h.joins (root, access) (by simp)
  by_cases hw : access = .write
  · subst hw
    rw [filter_cons_of_pos rfl, findSome?_cons, filterMap_cons]
    rcases hro with hs | ⟨ho, hp⟩
    · obtain ⟨rootKey, hrk⟩ := isSome_iff_exists.mp hs
      have hd := protectedDir_local hpa (hj rfl rootKey hrk)
      simp only [hrk, map_some]
      rw [filter_cons_of_pos (by simp), findSome?_cons]
      rcases hg : guardAt metadataKeys key rootKey with _ | dir
      · rw [hg, map_none, map_eq_none_iff] at hd
        rw [hd]
        exact ih hr
      rw [hg] at hd
      obtain ⟨_, hh, hn⟩ := map_eq_some_iff.mp hd
      rw [hh]
      exact congrArg some hn
    have hno : root.localNames c = none := localNames_of_isOpaque ho
    simp only [hno, protectedDir_of_isOpaque ho hp]
    exact ih hr
  have hnot : access.canWrite = false := by
    rw [Bool.eq_false_iff, Ne, FileSystemAccessMode.canWrite_iff]
    exact hw
  rw [filter_cons_of_neg (by simp [hnot]), filterMap_cons]
  rcases hn : root.localNames c with _ | rootKey
  · exact ih hr
  simp only [map_some]
  rw [filter_cons_of_neg (by simp [hw])]
  exact ih hr

lemma canWritePath_local (h : LocalPolicy c policy context) (hp : path.localNames c = some key)
    (hdi : policy.hasFullDiskWriteAccessWithContext c context = false) :
    policy.canWritePath c path context ↔
      Rooted.Granted metadataKeys .write (localEntries c (policy.resolvedEntries c context)) key := by
  rw [canWritePath_iff, grants_local h hp]
  have hd := dirOf_local h.roots hp
  unfold Rooted.Granted firstDir
  simp only [hdi, true_imp_iff]
  refine and_congr_right fun _ => ?_
  -- The first directory of both sides has the same names.
  rcases hdir : dirOf c path (policy.resolvedEntries c context) with _ | dir
  · rw [hdir, map_none, eq_comm, map_eq_none_iff] at hd
    simp [hd]
  rw [hdir, map_some, eq_comm] at hd
  obtain ⟨_, hg, hn⟩ := map_eq_some_iff.mp hd
  simp only [hg, mem_some_iff, forall_eq']
  unfold Exempted
  constructor
  · rintro ⟨root, hin, hpr, hdr⟩
    obtain ⟨rootKey, hrk, hpre⟩ := h.roots.of_startsWith hp hin hpr
    exact ⟨rootKey, mem_localEntries.mpr ⟨root, hin, hrk⟩, hpre, (startsWith_iff_names hrk hn.symm).mp hdr⟩
  rintro ⟨rootKey, hm, hpre, hdk⟩
  obtain ⟨root, hin, hrk⟩ := mem_localEntries.mp hm
  exact ⟨root, hin, (startsWith_iff_names hp hrk).mpr hpre, (startsWith_iff_names hrk hn.symm).mpr hdk⟩

lemma canWritePath_of_not_local (h : LocalPolicy c policy context) (hp : path.localNames c = none) :
    policy.canWritePath c path context = false := by
  unfold canWritePath
  rw [resolveAccess_of_not_local h hp]
  rfl

lemma canWritePath_iff_granted (h : LocalPolicy c policy context) (hp : path.localNames c = some key) :
    policy.canWritePath c path context ↔
      Rooted.Granted (if policy.hasFullDiskWriteAccessWithContext c context then [] else metadataKeys) .write
        (localEntries c (policy.resolvedEntries c context)) key := by
  rcases hd : policy.hasFullDiskWriteAccessWithContext c context with _ | _
  · exact canWritePath_local h hp hd
  have hg : firstGuard ([] : List (List UInt8)) .write
      (localEntries c (policy.resolvedEntries c context)) key = none := by
    unfold firstGuard
    rw [findSome?_eq_none_iff]
    exact fun _ _ => rfl
  rw [canWritePath_iff, grants_local h hp, if_pos rfl]
  unfold Rooted.Granted
  simp [hd, hg]

/-! ## Roots that are local paths -/

lemma metadata_plain (h : name ∈ protectedMetadataPathNames) : PathUri.PlainName name := by
  unfold PathUri.PlainName AbsolutePathBuf.NormalName
  revert name
  decide

lemma LocalRoots.of_clean {c : FileUrlCrates} (hc : c.Lawful)
    (h : ∀ e ∈ entries, (∃ url, e.1 = ⟨url⟩ ∧ PathUri.Clean c url) ∨
      e.1.isOpaque c.toUrlCrates ∧ e.1.inferPathConvention c.toUrlCrates = some .posix) :
    LocalRoots c.toUrlCrates entries where
  names e he := by
    rcases h e he with ⟨url, heq, hcl⟩ | ho
    · rw [heq, hcl.localNames hc]
      exact .inl rfl
    · exact .inr ho
  joins e he _ key hk name hn := by
    rcases h e he with ⟨url, heq, hcl⟩ | ⟨ho, -⟩
    · obtain ⟨hp, hna⟩ := hcl.push hc (metadata_plain hn)
      rw [heq] at hk ⊢
      refine ⟨_, hcl.joinDescendant_eq hc (metadata_plain hn), ?_⟩
      rw [hcl.localNames hc] at hk
      cases hk
      rw [hp.localNames hc, hna, map_append, map_singleton, hc.decode_plain _ (metadata_plain hn).2]
    · rw [localNames_of_isOpaque ho] at hk
      simp at hk

end FileSystemSandboxPolicy

end Codex.Permissions
