import HolderDaemon.ProjectRegistry

/-!
The project registry over whole runs: what is saved is read back, a forgotten project stays
forgotten until it is restored, and what restoring it gives back.
-/

set_option autoImplicit false

open Bytes

namespace HolderDaemon

namespace ProjectRegistry

section Registry
variable {canonical : Bytes → Bytes} {path : Bytes}

/-! The removed map -/

def removedRoots (removed : List (Bytes × List Bytes)) (id : Bytes) : List Bytes :=
  (Rows.get Prod.fst id removed).elim [] Prod.snd

theorem mem_insertRoot {r root : Bytes} {roots : List Bytes} :
    r ∈ insertRoot root roots ↔ r = root ∨ r ∈ roots := by
  unfold insertRoot
  split
  · rename_i hmem
    constructor
    · exact .inr
    · rintro (rfl | hr)
      · exact hmem
      · exact hr
  · rw [List.mem_append, List.mem_singleton, or_comm]

theorem insertRoot_ne_nil (root : Bytes) (roots : List Bytes) : insertRoot root roots ≠ [] :=
  List.ne_nil_of_mem (mem_insertRoot.mpr (.inl rfl))

theorem nodup_insertRoot {root : Bytes} {roots : List Bytes} (h : roots.Nodup) :
    (insertRoot root roots).Nodup := by
  unfold insertRoot
  split
  · exact h
  · rename_i hnot
    exact List.nodup_append.mpr ⟨h, by simp, fun a ha b hb hab => hnot (by simp_all)⟩

theorem get_insertRemoved (removed : List (Bytes × List Bytes)) (id id' root : Bytes) :
    Rows.get Prod.fst id' (insertRemoved removed id root) =
      if id = id' then some (id, insertRoot root (removedRoots removed id))
      else Rows.get Prod.fst id' removed := by
  rw [insertRemoved, Rows.get_put]
  rfl

theorem mem_removedRoots_insert {removed : List (Bytes × List Bytes)} {id id' root r : Bytes} :
    r ∈ removedRoots (insertRemoved removed id root) id' ↔
      (id = id' ∧ r = root) ∨ r ∈ removedRoots removed id' := by
  rw [removedRoots, get_insertRemoved]
  by_cases h : id = id'
  · subst h
    simp [mem_insertRoot]
  · simp [h, removedRoots]

theorem isSome_of_mem_removedRoots {removed : List (Bytes × List Bytes)} {id r : Bytes}
    (h : r ∈ removedRoots removed id) : (Rows.get Prod.fst id removed).isSome = true := by
  unfold removedRoots at h
  cases hget : Rows.get Prod.fst id removed with
  | none => simp [hget] at h
  | some e => rfl

/-! Well-formed states -/

def Fixed (canonical : Bytes → Bytes) (root : Bytes) : Prop := root ≠ [] ∧ canonical root = root

structure RemovedWF (canonical : Bytes → Bytes) (removed : List (Bytes × List Bytes)) : Prop where
  nodup : (removed.map Prod.fst).Nodup
  entries : ∀ e ∈ removed, e.1 ≠ [] ∧ e.2 ≠ [] ∧ e.2.Nodup ∧ ∀ r ∈ e.2, Fixed canonical r

structure ProjectsWF (canonical : Bytes → Bytes) (projects : List (Bytes × Bytes)) : Prop where
  nodup : (projects.map Prod.fst).Nodup
  entries : ∀ e ∈ projects, e.1 ≠ [] ∧ Fixed canonical e.2

/-- What every state that has been loaded or made by an operation satisfies. -/
structure RegistryState.WF (canonical : Bytes → Bytes) (s : RegistryState) : Prop where
  version : s.version = 1 ∧ s.removed = [] ∨ s.version = 2
  projects : ProjectsWF canonical s.projects
  removed : RemovedWF canonical s.removed

theorem ProjectsWF.put {projects : List (Bytes × Bytes)} (h : ProjectsWF canonical projects)
    {id root : Bytes} (hid : id ≠ []) (hroot : Fixed canonical root) :
    ProjectsWF canonical (Rows.put Prod.fst (id, root) projects) where
  nodup := Rows.nodup_put Prod.fst h.nodup
  entries := fun e he => by
    rcases Rows.mem_put Prod.fst he with rfl | he
    · exact ⟨hid, hroot⟩
    · exact h.entries e he

theorem ProjectsWF.drop {projects : List (Bytes × Bytes)} (h : ProjectsWF canonical projects)
    (id : Bytes) : ProjectsWF canonical (Rows.drop Prod.fst id projects) where
  nodup := Rows.nodup_drop Prod.fst h.nodup
  entries := fun e he => h.entries e ((Rows.mem_drop Prod.fst).mp he).1

theorem RemovedWF.insert {removed : List (Bytes × List Bytes)} (h : RemovedWF canonical removed)
    {id root : Bytes} (hid : id ≠ []) (hroot : Fixed canonical root) :
    RemovedWF canonical (insertRemoved removed id root) where
  nodup := Rows.nodup_put Prod.fst h.nodup
  entries := fun e he => by
    rcases Rows.mem_put Prod.fst he with rfl | he
    · cases hget : Rows.get Prod.fst id removed with
      | none =>
        refine ⟨hid, ?_, nodup_insertRoot List.nodup_nil, fun r hr => ?_⟩
        · exact insertRoot_ne_nil root []
        have hr : r ∈ insertRoot root [] := hr
        rcases mem_insertRoot.mp hr with rfl | hr
        · exact hroot
        · simp at hr
      | some old =>
        obtain ⟨-, -, hnodup, hfixed⟩ := h.entries old (Rows.mem_of_get Prod.fst hget)
        refine ⟨hid, ?_, nodup_insertRoot hnodup, fun r hr => ?_⟩
        · exact insertRoot_ne_nil root old.2
        have hr : r ∈ insertRoot root old.2 := hr
        rcases mem_insertRoot.mp hr with rfl | hr
        · exact hroot
        · exact hfixed r hr
    · exact h.entries e he

/-! Reading a file -/

section Load
variable (hcanonical : ∀ p, canonical (canonical p) = canonical p)
  (hnonempty : ∀ p, p ≠ [] → canonical p ≠ [])
include hcanonical hnonempty

theorem readEntry_fixed {item : Json} {entry : Bytes × Bytes}
    (h : readEntry canonical path item = .ok entry) :
    entry.1 ≠ [] ∧ Fixed canonical entry.2 := by
  unfold readEntry at h
  split at h
  · rename_i id root _ _
    split at h
    · cases h
    · rename_i hne
      cases h
      rw [not_or] at hne
      exact ⟨hne.1, hnonempty root hne.2, hcanonical root⟩
  · cases h

theorem foldlM_readProject_wf {items : List Json} {projects : List (Bytes × Bytes)}
    (h : items.foldlM (readProject canonical path) [] = .ok projects) :
    ProjectsWF canonical projects := by
  refine Loops.foldlM_invariant (fun s item t hs ht => ?_) ⟨by simp, by simp⟩ h
  unfold readProject at ht
  cases hentry : readEntry canonical path item with
  | error e =>
    rw [hentry] at ht
    cases ht
  | ok entry =>
    rw [hentry] at ht
    cases ht
    obtain ⟨hid, hroot⟩ := readEntry_fixed hcanonical hnonempty hentry
    exact hs.put hid hroot

theorem foldlM_readRemoved_wf {items : List Json} {removed : List (Bytes × List Bytes)}
    (h : items.foldlM (readRemoved canonical path) [] = .ok removed) :
    RemovedWF canonical removed := by
  refine Loops.foldlM_invariant (fun s item t hs ht => ?_) ⟨by simp, by simp⟩ h
  unfold readRemoved at ht
  cases hentry : readEntry canonical path item with
  | error e =>
    rw [hentry] at ht
    cases ht
  | ok entry =>
    rw [hentry] at ht
    cases ht
    obtain ⟨hid, hroot⟩ := readEntry_fixed hcanonical hnonempty hentry
    exact hs.insert hid hroot

theorem loadRegistry_wf {file : RegistryFile} {s : RegistryState}
    (h : loadRegistry canonical path file = .ok s) : s.WF canonical := by
  cases file with
  | missing =>
    cases h
    exact ⟨.inl ⟨rfl, rfl⟩, ⟨by simp, by simp⟩, ⟨by simp, by simp⟩⟩
  | unreadable what => cases h
  | json body =>
    simp only [loadRegistry] at h
    cases hversion : readVersion body with
    | error e =>
      rw [hversion] at h
      cases h
    | ok version =>
      rw [hversion] at h
      simp only [bind, Except.bind] at h
      split at h
      · cases h
      · rename_i hv
        split at h
        · rename_i items removedList _ hremoved
          cases hprojects : items.foldlM (readProject canonical path) [] with
          | error e =>
            rw [hprojects] at h
            cases h
          | ok projects =>
            rw [hprojects] at h
            dsimp only at h
            cases hfold : removedList.foldlM (readRemoved canonical path) [] with
            | error e =>
              rw [hfold] at h
              cases h
            | ok removed =>
              rw [hfold] at h
              cases h
              refine ⟨?_, foldlM_readProject_wf hcanonical hnonempty hprojects,
                foldlM_readRemoved_wf hcanonical hnonempty hfold⟩
              by_cases htwo : version = 2
              · exact .inr htwo
              · have hone : version = 1 := by
                  by_contra hone
                  exact hv ⟨hone, htwo⟩
                rw [removedItems, if_neg htwo] at hremoved
                cases hremoved
                cases hfold
                exact .inl ⟨hone, rfl⟩
        · cases h

end Load

/-! Reading what was saved -/

theorem readEntry_entryJson {entry : Bytes × Bytes} (hid : entry.1 ≠ [])
    (hroot : Fixed canonical entry.2) :
    readEntry canonical path (entryJson entry) = .ok entry := by
  simp [readEntry, entryJson, Json.field?_object, List.lookup_cons, hid, hroot.1, hroot.2]

theorem foldlM_readProject_entryJson {projects : List (Bytes × Bytes)}
    (hentries : ∀ e ∈ projects, e.1 ≠ [] ∧ Fixed canonical e.2) (front : List (Bytes × Bytes))
    (hnodup : ((front ++ projects).map Prod.fst).Nodup) :
    (projects.map entryJson).foldlM (readProject canonical path) front =
      .ok (front ++ projects) := by
  induction projects generalizing front with
  | nil => rw [List.append_nil]; rfl
  | cons e projects ih =>
    obtain ⟨hid, hroot⟩ := hentries e List.mem_cons_self
    have hnone := Rows.get_none_of_nodup Prod.fst hnodup
    rw [List.map_cons, List.foldlM_cons, readProject, readEntry_entryJson hid hroot]
    simp only [Except.map, bind, Except.bind]
    rw [Rows.put_of_get_none Prod.fst hnone, ih (fun a ha => hentries a (List.mem_cons_of_mem e ha))
      _ (by simpa using hnodup)]
    simp

/-- The entries of one removed project, read after some of its roots. -/
theorem foldlM_readRemoved_roots {id : Bytes} (hid : id ≠ []) {roots : List Bytes}
    (hroots : ∀ r ∈ roots, Fixed canonical r) (front : List (Bytes × List Bytes))
    (hfront : Rows.get Prod.fst id front = none) (done : List Bytes)
    (hnodup : (done ++ roots).Nodup) (hdone : done ≠ []) :
    ((roots.map fun r => (id, r)).map entryJson).foldlM (readRemoved canonical path)
      (front ++ [(id, done)]) = .ok (front ++ [(id, done ++ roots)]) := by
  induction roots generalizing done with
  | nil => rw [List.append_nil]; rfl
  | cons r roots ih =>
    have hr : r ∉ done := by
      rw [List.nodup_append] at hnodup
      exact fun hm => hnodup.2.2 r hm r (by simp) rfl
    have hget : Rows.get Prod.fst id (front ++ [(id, done)]) = some (id, done) := by
      rw [Rows.get_append_of_none Prod.fst hfront]
      simp [Rows.get_cons]
    have hput : insertRemoved (front ++ [(id, done)]) id r = front ++ [(id, done ++ [r])] := by
      rw [insertRemoved, hget, Rows.put_append_of_none Prod.fst hfront]
      simp [Rows.put, insertRoot, hr]
    rw [List.map_cons, List.map_cons, List.foldlM_cons, readRemoved,
      readEntry_entryJson hid (hroots r List.mem_cons_self)]
    simp only [Except.map, bind, Except.bind]
    rw [hput, ih (fun a ha => hroots a (List.mem_cons_of_mem r ha)) _ (by simpa using hnodup)
      (by simp)]
    simp

theorem foldlM_readRemoved_entryJson {removed : List (Bytes × List Bytes)}
    (hentries : ∀ e ∈ removed, e.1 ≠ [] ∧ e.2 ≠ [] ∧ e.2.Nodup ∧ ∀ r ∈ e.2, Fixed canonical r)
    (front : List (Bytes × List Bytes)) (hnodup : ((front ++ removed).map Prod.fst).Nodup) :
    ((removedEntries removed).map entryJson).foldlM (readRemoved canonical path) front =
      .ok (front ++ removed) := by
  induction removed generalizing front with
  | nil => rw [List.append_nil]; rfl
  | cons e removed ih =>
    obtain ⟨id, roots⟩ := e
    obtain ⟨hid, hne, hroots, hfixed⟩ := hentries (id, roots) List.mem_cons_self
    have hnone : Rows.get Prod.fst id front = none := Rows.get_none_of_nodup Prod.fst hnodup
    have hsplit : removedEntries ((id, roots) :: removed) =
        roots.map (fun r => (id, r)) ++ removedEntries removed := rfl
    obtain ⟨r, rest, rfl⟩ := List.exists_cons_of_ne_nil hne
    have hfirst : insertRemoved front id r = front ++ [(id, [r])] := by
      rw [insertRemoved, hnone, Rows.put_of_get_none Prod.fst hnone]
      rfl
    have hone : ((((r :: rest).map fun r => (id, r)).map entryJson).foldlM
        (readRemoved canonical path) front) = .ok (front ++ [(id, r :: rest)]) := by
      rw [List.map_cons, List.map_cons, List.foldlM_cons, readRemoved,
        readEntry_entryJson hid (hfixed r List.mem_cons_self)]
      simp only [Except.map, bind, Except.bind]
      rw [hfirst]
      exact foldlM_readRemoved_roots hid (fun a ha => hfixed a (List.mem_cons_of_mem r ha)) front
        hnone [r] hroots (by simp)
    rw [hsplit, List.map_append, List.foldlM_append, hone]
    simp only [bind, Except.bind]
    rw [ih (fun a ha => hentries a (List.mem_cons_of_mem _ ha)) _ (by simpa using hnodup)]
    simp

theorem readVersion_object {fields : List (Bytes × Json)} {i : Int}
    (h : fields.lookup (ascii "version") = some (.int i)) :
    readVersion (.object fields) = .ok (Int32.ofInt i).toInt := by
  have hfield := Json.field?_object fields (ascii "version")
  rw [h] at hfield
  simp only [Json.object, readVersion] at hfield ⊢
  rw [hfield]

theorem load_registryJson {s : RegistryState} (h : s.WF canonical) :
    loadRegistry canonical path (.json (registryJson s)) = .ok s := by
  obtain ⟨version, projects, removed⟩ := s
  have hversion : readVersion (registryJson ⟨version, projects, removed⟩) =
      .ok (Int32.ofInt version).toInt := readVersion_object (by simp)
  have hprojects : (registryJson ⟨version, projects, removed⟩).field? (ascii "projects") =
      some (.arr (projects.map entryJson)) := by
    rw [registryJson, Json.field?_object]
    simp [List.lookup_cons]
  have hread : (projects.map entryJson).foldlM (readProject canonical path) [] =
      .ok ([] ++ projects) :=
    foldlM_readProject_entryJson h.projects.entries [] h.projects.nodup
  have hreadRemoved : ((removedEntries removed).map entryJson).foldlM
      (readRemoved canonical path) [] = .ok ([] ++ removed) :=
    foldlM_readRemoved_entryJson h.removed.entries [] h.removed.nodup
  simp only [List.nil_append] at hread hreadRemoved
  rcases h.version with ⟨hone, hnil⟩ | htwo
  · dsimp only at hone hnil
    subst hone hnil
    simp [loadRegistry, hversion, hprojects, removedItems, hread, bind, Except.bind, pure,
      Except.pure]
  · dsimp only at htwo
    subst htwo
    have hitems : (registryJson ⟨2, projects, removed⟩).field? (ascii "removed_projects") =
        some (.arr ((removedEntries removed).map entryJson)) := by
      rw [registryJson, Json.field?_object]
      simp [List.lookup_cons]
    simp [loadRegistry, hversion, hprojects, removedItems, hitems, hread, hreadRemoved, bind,
      Except.bind]

/-! Operations -/

theorem validateProject_ok {p : Project} {u : Unit} (h : validateProject p = .ok u) :
    p.projectId ≠ [] ∧ p.rootPath ≠ [] := by
  unfold validateProject at h
  split at h
  · cases h
  · rename_i hne
    exact not_or.mp hne

theorem forget_ok {s t : RegistryState} {p : Project} (h : forget canonical s p = .ok t) :
    p.projectId ≠ [] ∧ p.rootPath ≠ [] ∧ t.version = 2 ∧
      t.projects = Rows.drop Prod.fst p.projectId s.projects ∧
      t.removed = match Rows.get Prod.fst p.projectId s.projects with
        | none => insertRemoved s.removed p.projectId (canonical p.rootPath)
        | some previous =>
          insertRemoved (insertRemoved s.removed p.projectId (canonical p.rootPath)) p.projectId
            previous.2 := by
  unfold forget at h
  cases hvalid : validateProject p with
  | error e =>
    rw [hvalid] at h
    cases h
  | ok u =>
    obtain ⟨hid, hroot⟩ := validateProject_ok hvalid
    rw [hvalid] at h
    simp only [bind, Except.bind] at h
    cases hget : Rows.get Prod.fst p.projectId s.projects with
    | none =>
      rw [hget] at h
      cases h
      exact ⟨hid, hroot, rfl, (Rows.drop_of_get_none Prod.fst hget).symm, rfl⟩
    | some previous =>
      rw [hget] at h
      cases h
      exact ⟨hid, hroot, rfl, rfl, rfl⟩

theorem restore_ok {s t : RegistryState} {p : Project} (h : restore canonical s p = .ok t) :
    p.projectId ≠ [] ∧ p.rootPath ≠ [] ∧
      t = { s with
        projects := Rows.put Prod.fst (p.projectId, canonical p.rootPath) s.projects } := by
  unfold restore at h
  cases hvalid : validateProject p with
  | error e =>
    rw [hvalid] at h
    cases h
  | ok u =>
    obtain ⟨hid, hroot⟩ := validateProject_ok hvalid
    rw [hvalid] at h
    cases h
    exact ⟨hid, hroot, rfl⟩

/-- A removed project that is not registered is passed over. -/
theorem rememberOne_ok {s t : RegistryState} {p : Project}
    (h : rememberOne canonical s p = .ok t) :
    p.projectId ≠ [] ∧ p.rootPath ≠ [] ∧
      (t = s ∨
        t = { s with
          projects := Rows.put Prod.fst (p.projectId, canonical p.rootPath) s.projects } ∧
        ((Rows.get Prod.fst p.projectId s.removed).isSome = true →
          (Rows.get Prod.fst p.projectId s.projects).isSome = true)) := by
  unfold rememberOne at h
  cases hvalid : validateProject p with
  | error e =>
    rw [hvalid] at h
    cases h
  | ok u =>
    obtain ⟨hid, hroot⟩ := validateProject_ok hvalid
    rw [hvalid] at h
    simp only [bind, Except.bind] at h
    refine ⟨hid, hroot, ?_⟩
    split at h
    · cases h
      exact .inl rfl
    · rename_i hnot
      cases h
      refine .inr ⟨rfl, fun hremoved => ?_⟩
      rw [not_and] at hnot
      simpa [Option.isSome_iff_ne_none] using hnot hremoved

section Keep
variable (hcanonical : ∀ p, canonical (canonical p) = canonical p)
  (hnonempty : ∀ p, p ≠ [] → canonical p ≠ [])
include hcanonical hnonempty

theorem RegistryState.WF.register {s : RegistryState} (h : s.WF canonical) {p : Project}
    (hid : p.projectId ≠ []) (hroot : p.rootPath ≠ []) :
    RegistryState.WF canonical { s with
      projects := Rows.put Prod.fst (p.projectId, canonical p.rootPath) s.projects } where
  version := h.version
  projects := h.projects.put hid ⟨hnonempty _ hroot, hcanonical _⟩
  removed := h.removed

theorem RegistryState.WF.change {s t : RegistryState} (h : s.WF canonical) {c : Call}
    (hc : c.change canonical s = .ok t) : t.WF canonical := by
  cases c with
  | remember projects =>
    refine Loops.foldlM_invariant (fun a p b ha hb => ?_) h hc
    obtain ⟨hid, hroot, rfl | ⟨rfl, -⟩⟩ := rememberOne_ok hb
    · exact ha
    · exact ha.register hcanonical hnonempty hid hroot
  | forget p =>
    obtain ⟨hid, hroot, hversion, hprojects, hremoved⟩ := forget_ok hc
    have hfixed : Fixed canonical (canonical p.rootPath) := ⟨hnonempty _ hroot, hcanonical _⟩
    refine ⟨.inr hversion, hprojects ▸ h.projects.drop _, ?_⟩
    rw [hremoved]
    split
    · exact h.removed.insert hid hfixed
    · rename_i previous hget
      exact (h.removed.insert hid hfixed).insert hid
        (h.projects.entries previous (Rows.mem_of_get Prod.fst hget)).2
  | restore p =>
    obtain ⟨hid, hroot, rfl⟩ := restore_ok hc
    exact h.register hcanonical hnonempty hid hroot

/-- An answered call has saved the changed state. -/
theorem attempt_ok {file file' : RegistryFile} {c : Call} {w : Write}
    (h : c.attempt canonical path file w = (file', .ok ())) :
    ∃ s t, loadRegistry canonical path file = .ok s ∧ c.change canonical s = .ok t ∧
      loadRegistry canonical path file' = .ok t := by
  unfold Call.attempt at h
  split at h
  · cases h
  · rename_i s hload
    split at h
    · cases h
    · rename_i t hchange
      refine ⟨s, t, hload, hchange, ?_⟩
      unfold saveRegistry at h
      split at h
      · split at h
        · cases h
          exact load_registryJson
            ((loadRegistry_wf hcanonical hnonempty hload).change hcanonical hnonempty hchange)
        · cases h
        · cases h
      · cases h

/-- A call leaves the file as it was, or holding the changed state. -/
theorem step_cases {file file' : RegistryFile} {l : Call × Write}
    (h : step canonical path file l = some file') :
    file' = file ∨ ∃ s t, loadRegistry canonical path file = .ok s ∧
      l.1.change canonical s = .ok t ∧ loadRegistry canonical path file' = .ok t := by
  have hfile := (Option.some.inj h).symm
  subst hfile
  unfold Call.attempt
  split
  · exact .inl rfl
  · rename_i s hload
    split
    · exact .inl rfl
    · rename_i t hchange
      have ht := (loadRegistry_wf hcanonical hnonempty hload).change hcanonical hnonempty hchange
      unfold saveRegistry
      split
      · cases l.2 with
        | done => exact .inr ⟨s, t, hload, hchange, load_registryJson ht⟩
        | fails what => exact .inl rfl
        | failsAfterRename what => exact .inr ⟨s, t, hload, hchange, load_registryJson ht⟩
      · exact .inl rfl

end Keep

/-! Forgotten projects -/

/-- The project is not registered, and each of the roots is a removed one of it. -/
structure Forgotten (id : Bytes) (gone : List Bytes) (s : RegistryState) : Prop where
  unregistered : Rows.get Prod.fst id s.projects = none
  removed : ∀ r ∈ gone, r ∈ removedRoots s.removed id

def Call.restores (id : Bytes) : Call → Bool
  | .restore p => p.projectId = id
  | _ => false

theorem Forgotten.change {id : Bytes} {gone : List Bytes} {s t : RegistryState} {c : Call}
    (h : Forgotten id gone s) (hgone : gone ≠ []) (hc : c.restores id = false)
    (hchange : c.change canonical s = .ok t) : Forgotten id gone t := by
  cases c with
  | remember projects =>
    refine Loops.foldlM_invariant (fun a p b ha hb => ?_) h hchange
    obtain ⟨-, -, rfl | ⟨rfl, hregistered⟩⟩ := rememberOne_ok hb
    · exact ha
    · refine ⟨?_, ha.removed⟩
      obtain ⟨root, hr⟩ := List.exists_mem_of_ne_nil gone hgone
      have hsome := isSome_of_mem_removedRoots (ha.removed root hr)
      rw [Rows.get_put, if_neg]
      · exact ha.unregistered
      · rintro rfl
        have hregistered := hregistered hsome
        rw [ha.unregistered] at hregistered
        cases hregistered
  | forget p =>
    obtain ⟨-, -, -, hprojects, hremoved⟩ := forget_ok hchange
    refine ⟨?_, fun r hr => ?_⟩
    · rw [hprojects, Rows.get_drop]
      split
      · rfl
      · exact h.unregistered
    · have hold := h.removed r hr
      rw [hremoved]
      split
      · exact mem_removedRoots_insert.mpr (.inr hold)
      · exact mem_removedRoots_insert.mpr (.inr (mem_removedRoots_insert.mpr (.inr hold)))
  | restore p =>
    obtain ⟨-, -, rfl⟩ := restore_ok hchange
    have hne : p.projectId ≠ id := of_decide_eq_false hc
    refine ⟨?_, h.removed⟩
    rw [Rows.get_put, if_neg hne]
    exact h.unregistered

theorem forgotten_forget {s t : RegistryState} {p : Project}
    (h : forget canonical s p = .ok t) :
    Forgotten p.projectId (canonical p.rootPath ::
      (Rows.get Prod.fst p.projectId s.projects).elim [] fun e => [e.2]) t := by
  obtain ⟨-, -, -, hprojects, hremoved⟩ := forget_ok h
  refine ⟨?_, fun r hr => ?_⟩
  · rw [hprojects, Rows.get_drop, if_pos rfl]
  · rw [hremoved]
    split
    · rename_i hget
      rw [hget] at hr
      exact mem_removedRoots_insert.mpr (.inl ⟨rfl, List.mem_singleton.mp hr⟩)
    · rename_i previous hget
      rw [hget] at hr
      rcases List.mem_cons.mp hr with rfl | hr
      · exact mem_removedRoots_insert.mpr (.inr (mem_removedRoots_insert.mpr (.inl ⟨rfl, rfl⟩)))
      · exact mem_removedRoots_insert.mpr (.inl ⟨rfl, List.mem_singleton.mp hr⟩)

theorem mem_listed {s : RegistryState} {id r : Bytes} (h : r ∈ removedRoots s.removed id) :
    (s.removed.any fun e => decide (r ∈ e.2)) = true := by
  unfold removedRoots at h
  cases hget : Rows.get Prod.fst id s.removed with
  | none => simp [hget] at h
  | some e =>
    rw [hget] at h
    exact List.any_eq_true.mpr ⟨e, Rows.mem_of_get Prod.fst hget, decide_eq_true h⟩

/-- A removed root is hidden where no project is registered at it. -/
theorem removedRoot_of_removed {s : RegistryState} {id r : Bytes}
    (h : r ∈ removedRoots s.removed id) (hfixed : canonical r = r)
    (hfree : ∀ e ∈ s.projects, e.2 ≠ r) (layout : Layout) :
    removedRoot canonical layout s r = true := by
  have hlisted := mem_listed h
  unfold removedRoot
  rw [hfixed]
  dsimp only
  split
  · exact hlisted
  · rw [if_neg fun hget => hfree _ (Rows.mem_of_get Prod.fst hget) rfl, hlisted, Bool.or_true]

/-- A directory with the identity of a removed project that is not registered is hidden. -/
theorem removedRoot_of_identity {s : RegistryState} {id : Bytes}
    (h : Rows.get Prod.fst id s.projects = none)
    (hremoved : (Rows.get Prod.fst id s.removed).isSome = true) {layout : Layout} {root : Bytes}
    (hroot : projectIdentity layout root = some id) :
    removedRoot canonical layout s root = true := by
  unfold removedRoot
  rw [hroot]
  simp [h, hremoved]

theorem mem_discoverRoots {layout : Layout} {managedRoot : Bytes} {s : RegistryState}
    {root : Bytes} :
    root ∈ discoverRoots canonical layout managedRoot s ↔
      root ∈ candidates canonical layout managedRoot s ∧
        removedRoot canonical layout s root = false := by
  simp [discoverRoots]

section Runs
variable (hcanonical : ∀ p, canonical (canonical p) = canonical p)
  (hnonempty : ∀ p, p ≠ [] → canonical p ≠ [])
include hcanonical hnonempty

/-- Over a run without a restore of the project. -/
theorem forgotten_run {id : Bytes} {gone : List Bytes} (hgone : gone ≠ [])
    {file later : RegistryFile}
    {calls : List (Call × Write)} {s : RegistryState}
    (hload : loadRegistry canonical path file = .ok s) (h : Forgotten id gone s)
    (hno : ∀ l ∈ calls, l.1.restores id = false)
    (hrun : Machine.run (step canonical path) file calls = some later) :
    ∃ t, loadRegistry canonical path later = .ok t ∧ Forgotten id gone t := by
  induction calls generalizing file s with
  | nil =>
    cases hrun
    exact ⟨s, hload, h⟩
  | cons l calls ih =>
    obtain ⟨mid, hmid, hrest⟩ := Machine.run_cons_some (step canonical path) hrun
    have hno' : ∀ m ∈ calls, m.1.restores id = false := fun m hm =>
      hno m (List.mem_cons_of_mem l hm)
    rcases step_cases hcanonical hnonempty hmid with hsame | ⟨s', t, hload', hchange, ht⟩
    · exact ih (hsame ▸ hload) h hno' hrest
    · rw [hload, Except.ok.injEq] at hload'
      subst hload'
      exact ih ht (h.change hgone (hno l List.mem_cons_self) hchange) hno' hrest

/-- What is saved is read back, and version 1 has no removed project. A forgotten project, until
it is restored, is neither registered nor discovered: not at the roots it was registered at and
forgotten with, where no other project is registered there, and not in a moved copy. -/
theorem forgotten_stays_forgotten :
    (∀ (start file : RegistryFile) (calls : List (Call × Write)) (s : RegistryState),
      Machine.run (step canonical path) start calls = some file →
        loadRegistry canonical path file = .ok s →
          (s.version = 1 → s.removed = []) ∧
          ((registryJson s).encodable = true → ∀ old : RegistryFile,
            loadRegistry canonical path (saveRegistry old s .done).1 = .ok s)) ∧
    ∀ (file forgotten later : RegistryFile) (s : RegistryState) (p : Project) (w : Write)
        (calls : List (Call × Write)),
      loadRegistry canonical path file = .ok s →
        (Call.forget p).attempt canonical path file w = (forgotten, .ok ()) →
          (∀ l ∈ calls, l.1.restores p.projectId = false) →
            Machine.run (step canonical path) forgotten calls = some later →
              ∃ t, loadRegistry canonical path later = .ok t ∧
                (∀ r, r = canonical p.rootPath ∨
                    Rows.get Prod.fst p.projectId s.projects = some (p.projectId, r) →
                  (∀ e ∈ t.projects, e.1 ≠ p.projectId → e.2 ≠ r) →
                    r ∉ roots t ∧
                      ∀ layout managedRoot, r ∉ discoverRoots canonical layout managedRoot t) ∧
                ∀ layout managedRoot, ∀ d ∈ discoverRoots canonical layout managedRoot t,
                  projectIdentity layout d ≠ some p.projectId := by
  constructor
  · intro start file calls s _ hload
    have hs := loadRegistry_wf hcanonical hnonempty hload
    refine ⟨fun hone => ?_, fun hencodable old => ?_⟩
    · rcases hs.version with ⟨-, hnil⟩ | htwo
      · exact hnil
      · rw [hone] at htwo
        cases htwo
    · rw [saveRegistry, if_pos hencodable]
      exact load_registryJson hs
  · intro file forgotten later s p w calls hload hforget hno hrun
    obtain ⟨s', t, hload', hchange, ht⟩ := attempt_ok hcanonical hnonempty hforget
    rw [hload, Except.ok.injEq] at hload'
    subst hload'
    have hgone := forgotten_forget hchange
    obtain ⟨u, hu, hlater⟩ := forgotten_run hcanonical hnonempty (by simp) ht hgone hno hrun
    have hunregistered : ∀ e ∈ u.projects, e.1 ≠ p.projectId := by
      intro e he heq
      have hsome := Rows.get_isSome_of_mem Prod.fst he
      rw [heq, hlater.unregistered] at hsome
      cases hsome
    refine ⟨u, hu, fun r hr hfree => ?_, fun layout managedRoot d hd hid => ?_⟩
    · have hfree : ∀ e ∈ u.projects, e.2 ≠ r := fun e he => hfree e he (hunregistered e he)
      have hs := loadRegistry_wf hcanonical hnonempty hload
      have hremoved : r ∈ removedRoots u.removed p.projectId ∧ canonical r = r := by
        rcases hr with rfl | hr
        · exact ⟨hlater.removed _ List.mem_cons_self, hcanonical _⟩
        · refine ⟨hlater.removed r (by simp [hr]), ?_⟩
          exact (hs.projects.entries _ (Rows.mem_of_get Prod.fst hr)).2.2
      refine ⟨fun hmem => ?_, fun layout managedRoot hmem => ?_⟩
      · obtain ⟨e, he, heq⟩ := List.mem_map.mp (List.mem_dedup.mp hmem)
        exact hfree e he heq
      · have hvisible := (mem_discoverRoots.mp hmem).2
        rw [removedRoot_of_removed hremoved.1 hremoved.2 hfree layout] at hvisible
        cases hvisible
    · have hvisible := (mem_discoverRoots.mp hd).2
      have hsome := isSome_of_mem_removedRoots
        (hlater.removed (canonical p.rootPath) List.mem_cons_self)
      rw [removedRoot_of_identity hlater.unregistered hsome hid] at hvisible
      cases hvisible

/-- After a forget and a restore, the project's root is discovered exactly where its metadata
names the project, or another one that is registered at the same root. -/
theorem restore_undoes_forget_iff {file forgotten restored : RegistryFile} {s : RegistryState}
    {p : Project} {r : Bytes} {w w' : Write}
    (hload : loadRegistry canonical path file = .ok s)
    (hroot : canonical p.rootPath = r)
    (hforget : (Call.forget p).attempt canonical path file w = (forgotten, .ok ()))
    (hrestore : (Call.restore p).attempt canonical path forgotten w' = (restored, .ok ()))
    (layout : Layout) (managedRoot : Bytes) :
    ∃ t, loadRegistry canonical path restored = .ok t ∧
      (r ∈ discoverRoots canonical layout managedRoot t ↔
        ∃ id, projectIdentity layout r = some id ∧
          (id = p.projectId ∨ Rows.get Prod.fst id s.projects = some (id, r))) := by
  obtain ⟨s', m, hload', hchange, hm⟩ := attempt_ok hcanonical hnonempty hforget
  rw [hload, Except.ok.injEq] at hload'
  subst hload'
  obtain ⟨m', t, hm', hchange', ht⟩ := attempt_ok hcanonical hnonempty hrestore
  rw [hm, Except.ok.injEq] at hm'
  subst hm'
  obtain ⟨-, -, -, hprojects, -⟩ := forget_ok hchange
  obtain ⟨-, -, rfl⟩ := restore_ok hchange'
  have hgone := (forgotten_forget hchange).removed (canonical p.rootPath) List.mem_cons_self
  rw [hroot] at hgone
  have hfixed : canonical r = r := hroot ▸ hcanonical _
  have hget : ∀ id, Rows.get Prod.fst id
      (Rows.put Prod.fst (p.projectId, canonical p.rootPath) m.projects) =
        if p.projectId = id then some (p.projectId, r) else Rows.get Prod.fst id s.projects := by
    intro id
    rw [Rows.get_put, hprojects, Rows.get_drop, hroot]
    by_cases hid : p.projectId = id
    · simp [hid]
    · simp [hid, Ne.symm hid]
  refine ⟨_, ht, ?_⟩
  rw [mem_discoverRoots]
  have hcandidate : r ∈ candidates canonical layout managedRoot { m with
      projects := Rows.put Prod.fst (p.projectId, canonical p.rootPath) m.projects } := by
    refine List.mem_dedup.mpr (List.mem_append_left _ ?_)
    refine List.mem_map.mpr ⟨(p.projectId, r), ?_, rfl⟩
    exact Rows.mem_of_get Prod.fst (k := p.projectId) (by rw [hget, if_pos rfl])
  simp only [hcandidate, true_and]
  unfold removedRoot
  rw [hfixed]
  cases hid : projectIdentity layout r with
  | none => simp [mem_listed hgone]
  | some id =>
    dsimp only
    rw [hget, mem_listed hgone, Bool.or_true]
    by_cases heq : p.projectId = id
    · simp [heq]
    · rw [if_neg heq]
      by_cases hother : Rows.get Prod.fst id s.projects = some (id, r)
      · simp [hother]
      · simp [hother, Ne.symm heq]

end Runs

end Registry

/-! One project under the managed root -/

def sampleProject : Project := ⟨ascii "p1", ascii "/m/a"⟩

/-- The project's directory holds `cards`, and the metadata that a test gives it. -/
def sampleLayout (metadata : Option Json) : Layout where
  isDirectory := fun p => p = ascii "/m" ∨ p = ascii "/m/a"
  exist := fun p => p = ascii "/m/a/cards"
  entries := fun p => if p = ascii "/m" then [ascii "/m/a"] else []
  read := fun p => if p = ascii "/m/a/.holder/project.json" then metadata else none

def sampleRegistry : RegistryState := ⟨1, [(ascii "p1", ascii "/m/a")], []⟩

def sampleFile : RegistryFile := .json (registryJson sampleRegistry)

def forgottenSample : RegistryState :=
  ⟨2, [], [(ascii "p1", [ascii "/m/a"])]⟩

theorem sample_wf : sampleRegistry.WF id :=
  ⟨.inl ⟨rfl, rfl⟩, ⟨by decide, by unfold Fixed; decide⟩, ⟨by decide, by simp [sampleRegistry]⟩⟩

theorem forgottenSample_wf : forgottenSample.WF id :=
  ⟨.inr rfl, ⟨by decide, by simp [forgottenSample]⟩, ⟨by decide, by unfold Fixed; decide⟩⟩

theorem sample_forget : (Call.forget sampleProject).attempt id (ascii "r") sampleFile .done =
    (.json (registryJson forgottenSample), .ok ()) := by
  have hchange : (Call.forget sampleProject).change id sampleRegistry = .ok forgottenSample := by
    rfl
  rw [Call.attempt, sampleFile, load_registryJson sample_wf]
  dsimp only
  rw [hchange]
  dsimp only
  rw [saveRegistry, if_pos (by decide +kernel)]

theorem sample_restore : (Call.restore sampleProject).attempt id (ascii "r")
      (.json (registryJson forgottenSample)) .done =
    (.json (registryJson { forgottenSample with projects := sampleRegistry.projects }),
      .ok ()) := by
  have hchange : (Call.restore sampleProject).change id forgottenSample =
      .ok { forgottenSample with projects := sampleRegistry.projects } := by
    rfl
  rw [Call.attempt, load_registryJson forgottenSample_wf]
  dsimp only
  rw [hchange]
  dsimp only
  rw [saveRegistry, if_pos (by decide +kernel)]

/-- A forgotten project, remembered again from an old list, stays hidden. -/
theorem forgotten_stays_forgotten_remembered :
    ∃ later t, Machine.run (step id (ascii "r")) (.json (registryJson forgottenSample))
        [(.remember [sampleProject], .done)] = some later ∧
      loadRegistry id (ascii "r") later = .ok t ∧
      ((∀ e ∈ t.projects, e.1 ≠ ascii "p1" → e.2 ≠ ascii "/m/a") →
        ascii "/m/a" ∉ roots t ∧
          ∀ layout managedRoot, ascii "/m/a" ∉ discoverRoots id layout managedRoot t) := by
  obtain ⟨later, hrun, -⟩ := Machine.run_of_any (step id (ascii "r"))
    (.json (registryJson forgottenSample)) [(.remember [sampleProject], .done)] (fun _ => true) rfl
  obtain ⟨t, ht, hroots, -⟩ := (forgotten_stays_forgotten (fun _ => rfl) (fun _ h => h)).2
    sampleFile _ later sampleRegistry sampleProject .done _ (load_registryJson sample_wf)
    sample_forget (by decide) hrun
  exact ⟨later, t, hrun, ht, hroots _ (.inl rfl)⟩

/-- Without metadata the restored root stays hidden. -/
theorem restore_leaves_root_hidden :
    ∃ forgotten restored t,
      loadRegistry id (ascii "r") sampleFile = .ok sampleRegistry ∧
      ascii "/m/a" ∈ discoverRoots id (sampleLayout none) (ascii "/m") sampleRegistry ∧
      (Call.forget sampleProject).attempt id (ascii "r") sampleFile .done = (forgotten, .ok ()) ∧
      (Call.restore sampleProject).attempt id (ascii "r") forgotten .done = (restored, .ok ()) ∧
      loadRegistry id (ascii "r") restored = .ok t ∧
      ascii "/m/a" ∉ discoverRoots id (sampleLayout none) (ascii "/m") t := by
  refine ⟨_, _, { forgottenSample with projects := sampleRegistry.projects },
    load_registryJson sample_wf, by decide +kernel, sample_forget, sample_restore, ?_,
    by decide +kernel⟩
  exact load_registryJson ⟨.inr rfl, sample_wf.projects, forgottenSample_wf.removed⟩

theorem restore_undoes_forget_iff_named :
    ∃ t, loadRegistry id (ascii "r")
        (.json (registryJson { forgottenSample with projects := sampleRegistry.projects })) =
          .ok t ∧
      ascii "/m/a" ∈ discoverRoots id
        (sampleLayout (some (.object [(ascii "project_id", .str (ascii "p1"))]))) (ascii "/m") t := by
  obtain ⟨t, ht, hiff⟩ := restore_undoes_forget_iff (fun _ => rfl) (fun _ h => h)
    (load_registryJson sample_wf) rfl sample_forget sample_restore
    (sampleLayout (some (.object [(ascii "project_id", .str (ascii "p1"))]))) (ascii "/m")
  exact ⟨t, ht, hiff.mpr ⟨ascii "p1", by decide +kernel, .inl rfl⟩⟩

end ProjectRegistry

end HolderDaemon
