import HolderDaemon.DurableFiles

/-!
Where the state files of threads stand (`relative_path` in `ai/AiThreadStateDurability.cpp`),
over all the identifiers that POST /ai/threads lets through: it takes any text.
-/

set_option autoImplicit false

open Bytes

namespace HolderDaemon

namespace AiDurability

/-- A path in the directory of the thread states. -/
def BelowStates (path : Path) : Prop := path.head? = some (ascii "ai_thread_state") ∧ 1 < path.length

/-- The state files of these threads are where they should be, each at its own path. -/
structure KeptApart (ids : Set Text) : Prop where
  below : ∀ id ∈ ids, ∃ path, statePath id = some path ∧ BelowStates path
  apart : ∀ id ∈ ids, ∀ other ∈ ids, id ≠ other → statePath id ≠ statePath other

/-- An identifier of four bytes or more that is one file name, and that does not begin with the
name of the parent directory. -/
def FileName (id : Text) : Prop := 4 ≤ id.val.length ∧ Regular id

instance (id : Text) : Decidable (FileName id) :=
  inferInstanceAs (Decidable (4 ≤ id.val.length ∧ (47 : UInt8) ∉ id.val ∧
    id.val.take 2 ≠ ascii ".."))

def lastName (s : Bytes) : Bytes := s.rtakeWhile fun b => b ≠ 47

/-- The same file with a step into another directory and back before its name. -/
def respelled (id : Text) : Text where
  val := id.val ++ (ascii "a/../" ++ lastName id.val)
  noNul h := by
    rcases List.mem_append.mp h with h | h
    · exact id.noNul h
    · rcases List.mem_append.mp h with h | h
      · exact absurd h (by decide)
      · exact id.noNul ((List.rtakeWhile_suffix _ _).subset h)

/-! Identifiers that are file names -/

theorem statePath_of_fileName {id : Text} (h : FileName id) :
    ∃ path, statePath id = some path ∧ BelowStates path := by
  have hroot : 2 < (ascii "ai_thread_state").length := by decide
  have hpath := relativePath_eq hroot h.2 h.1
  obtain ⟨hhead, hlength, -⟩ := relativePath_shape (by decide) h.2 hpath
  exact ⟨_, hpath, hhead, hlength⟩

theorem keptApart_of_fileName {ids : Set Text} (h : ∀ id ∈ ids, FileName id) : KeptApart ids where
  below id hid := statePath_of_fileName (h id hid)
  apart id hid other hother hne hsame := by
    obtain ⟨path, hpath, -⟩ := statePath_of_fileName (h id hid)
    exact hne (relativePath_injective (by decide) (h id hid).2 (h other hother).2 hpath
      (hsame.symm.trans hpath))

/-! Every path is that of another identifier as well -/

theorem normalize_append_congr {front more parts : Path}
    (h : ∀ stack, normalize more stack = normalize parts stack) (stack : Path) :
    normalize (front ++ more) stack = normalize (front ++ parts) stack := by
  induction front generalizing stack with
  | nil => exact h stack
  | cons part front ih =>
    simp only [List.cons_append, normalize]
    split
    · exact ih stack
    · split
      · cases stack with
        | nil => rfl
        | cons top stack => exact ih stack
      · exact ih (part :: stack)

/-- Into a directory and back. -/
theorem normalize_detour {part : Bytes} (hnil : part ≠ []) (hdot : part ≠ ascii ".")
    (hdots : part ≠ ascii "..") (parts : Path) (stack : Path) :
    normalize (part :: ascii ".." :: parts) stack = normalize parts stack := by
  rw [normalize_push hnil hdot hdots, normalize, if_neg (by decide), if_pos rfl]

theorem splitSlash_append (s t : Bytes) :
    splitSlash (s ++ 47 :: t) = splitSlash s ++ splitSlash t := by
  rw [splitSlash, List.splitOn_append_cons_of_beq s t (by decide)]
  rfl

/-- The names before the last slash are names of every text that goes on from there. -/
theorem exists_front (s : Bytes) :
    ∃ front : Path, ∀ more : Bytes,
      splitSlash (s.rdropWhile (fun b => b ≠ 47) ++ more) = front ++ splitSlash more := by
  rcases List.eq_nil_or_concat (s.rdropWhile fun b => b ≠ 47) with hnil | ⟨front, b, hfront⟩
  · exact ⟨[], fun more => by rw [hnil]; rfl⟩
  · refine ⟨splitSlash front, fun more => ?_⟩
    have hne : s.rdropWhile (fun b => b ≠ 47) ≠ [] := by
      rw [hfront]
      simp
    have hlast := List.rdropWhile_last_not (fun b : UInt8 => decide (b ≠ 47)) s hne
    have hb : b = 47 := by
      simp only [hfront, List.concat_eq_append, List.getLast_append_singleton] at hlast
      simpa using hlast
    rw [hfront, hb, List.concat_eq_append, List.append_assoc, List.singleton_append,
      splitSlash_append]

theorem respelled_length (id : Text) :
    (respelled id).val.length = id.val.length + (5 + (lastName id.val).length) := by
  show (id.val ++ (ascii "a/../" ++ lastName id.val)).length = _
  rw [List.length_append, List.length_append]
  rfl

/-- The names of the two spellings, which part before the last one. -/
theorem splitSlash_respelled (id : Text) :
    ∃ front, splitSlash (id.val ++ ascii ".json") = front ++ [lastName id.val ++ ascii ".json"] ∧
      splitSlash ((respelled id).val ++ ascii ".json") =
        front ++ [lastName id.val ++ ascii "a", ascii "..", lastName id.val ++ ascii ".json"] := by
  have hlast : (47 : UInt8) ∉ lastName id.val := fun h => by
    simpa using List.mem_rtakeWhile_imp h
  have hsplit : id.val = id.val.rdropWhile (fun b => b ≠ 47) ++ lastName id.val :=
    List.rdropWhile_append_rtakeWhile.symm
  obtain ⟨front, hfront⟩ := exists_front id.val
  have hjson : (47 : UInt8) ∉ lastName id.val ++ ascii ".json" := by
    have hslash : (47 : UInt8) ∉ ascii ".json" := by decide
    simp [hlast, hslash]
  have ha : (47 : UInt8) ∉ lastName id.val ++ ascii "a" := by
    have hslash : (47 : UInt8) ∉ ascii "a" := by decide
    simp [hlast, hslash]
  have htext : (respelled id).val ++ ascii ".json" =
      id.val.rdropWhile (fun b => b ≠ 47) ++ ((lastName id.val ++ ascii "a") ++
        47 :: (ascii ".." ++ 47 :: (lastName id.val ++ ascii ".json"))) := by
    have hparts : ascii "a/../" = ascii "a" ++ 47 :: (ascii ".." ++ [47]) := by decide
    show (id.val ++ (ascii "a/../" ++ lastName id.val)) ++ ascii ".json" = _
    nth_rewrite 1 [hsplit]
    simp only [hparts, List.append_assoc, List.cons_append, List.nil_append]
  refine ⟨front, ?_, ?_⟩
  · rw [hsplit, List.append_assoc, hfront, ← hsplit, splitSlash_eq hjson]
  · rw [htext, hfront, splitSlash_append, splitSlash_append, splitSlash_eq ha,
      splitSlash_eq (by decide), splitSlash_eq hjson]
    rfl

theorem statePath_respelled {id : Text} (hlen : 4 ≤ id.val.length) :
    statePath (respelled id) = statePath id := by
  obtain ⟨front, hid, hdetour⟩ := splitSlash_respelled id
  have hlong := respelled_length id
  have hfirst : (respelled id).val.take 2 = id.val.take 2 :=
    List.take_append_of_le_length (by omega)
  have hsecond : ((respelled id).val.drop 2).take 2 = (id.val.drop 2).take 2 := by
    show ((id.val ++ _).drop 2).take 2 = _
    rw [List.drop_append_of_le_length (by omega), List.take_append_of_le_length (by simp; omega)]
  have hstep : ∀ stack,
      normalize [lastName id.val ++ ascii "a", ascii "..", lastName id.val ++ ascii ".json"] stack =
        normalize [lastName id.val ++ ascii ".json"] stack := by
    have hend : ∀ s : Bytes, (s ++ ascii "a").getLast? = some 97 := fun s => by
      rw [List.getLast?_append]
      rfl
    refine normalize_detour ?_ ?_ ?_ _
    all_goals
      intro h
      have hlast := hend (lastName id.val)
      rw [h] at hlast
      exact absurd hlast (by decide)
  simp only [statePath, relativePath]
  rw [if_neg (show ¬ (respelled id).val.length < 4 by omega),
    if_neg (show ¬ id.val.length < 4 by omega), hfirst, hsecond, hid, hdetour,
    ← List.append_assoc, ← List.append_assoc, normalize_append_congr hstep]

theorem respelled_ne (id : Text) : respelled id ≠ id := by
  intro h
  have hlen := congrArg (fun t : Text => t.val.length) h
  simp only [respelled_length] at hlen
  omega

/-! The identifiers that are accepted -/

/-- What a write cannot reach then: the files elsewhere in the project, and those of the other
threads. -/
theorem persist_spares {accepted : Set Text} (h : KeptApart accepted) {t u : State}
    {s : ThreadCompactionState} (hs : s.threadId ∈ accepted)
    (hrun : t.persistThreadCompactionState s = some u) {projectId : Text} {file : Path × Blob}
    (hfile : file ∈ (t.project projectId).files)
    (hother : ¬ BelowStates file.1 ∨
      ∃ other ∈ accepted, other ≠ s.threadId ∧ statePath other = some file.1) :
    file ∈ (u.project projectId).files := by
  obtain ⟨path, hpath, hbelow⟩ := h.below _ hs
  have hne : file.1 ≠ path := by
    rintro rfl
    rcases hother with hout | ⟨other, hacc, hne, hsame⟩
    · exact hout hbelow
    · exact h.apart other hacc _ hs hne (hsame.trans hpath.symm)
  simp only [State.persistThreadCompactionState] at hrun
  repeat' split at hrun
  · cases hrun
    exact hfile
  · cases hrun
    exact hfile
  · rename_i thread _ _ _
    simp only [hpath, Option.bind_eq_bind, Option.bind_some, Option.bind_eq_some_iff,
      Option.some.injEq] at hrun
    obtain ⟨raw, -, rfl⟩ := hrun
    by_cases hproject : projectId = thread.projectId
    · subst hproject
      simp only [State.update, Function.update_self, Project.writeFile]
      rw [Rows.mem_write]
      exact Or.inr ⟨hfile, hne⟩
    · simpa only [State.update, Function.update_of_ne hproject] using hfile
  · cases hrun

/-- And compaction throws for want of a project or of an encoding only. -/
theorem persist_eq_none {accepted : Set Text} (h : KeptApart accepted) {t : State}
    {s : ThreadCompactionState} (hs : s.threadId ∈ accepted)
    (hrun : t.persistThreadCompactionState s = none) :
    ∃ thread, Rows.get Thread.threadId s.threadId t.threads = some thread ∧
      (thread.projectId ∉ t.projectIds ∨
        encode thread.projectId (t.project thread.projectId) (stateJson s) = none) := by
  obtain ⟨path, hpath, -⟩ := h.below _ hs
  simp only [State.persistThreadCompactionState] at hrun
  split at hrun
  · cases hrun
  · rename_i thread hthread
    refine ⟨thread, hthread, ?_⟩
    split at hrun
    · split at hrun
      · cases hrun
      · refine Or.inr ?_
        rw [hpath] at hrun
        cases hraw : encode thread.projectId (t.project thread.projectId) (stateJson s) with
        | none => rfl
        | some raw =>
          rw [hraw] at hrun
          cases hrun
    · rename_i hmissing
      exact Or.inl hmissing

/-! The identifiers that are accepted -/

/-- State files are kept apart exactly where only file names are accepted: whatever else is
taken, a thread of another name gets the same file. -/
theorem keptApart_iff {accepted : Set Text}
    (hopen : ∀ id ∈ accepted, ¬ FileName id → respelled id ∈ accepted) :
    KeptApart accepted ↔ ∀ id ∈ accepted, FileName id := by
  refine ⟨fun h id hid => ?_, keptApart_of_fileName⟩
  by_contra hnot
  obtain ⟨path, hpath, -⟩ := h.below id hid
  exact h.apart _ (hopen id hid hnot) id hid (respelled_ne id)
    (statePath_respelled (four_le_of_relativePath hpath))

def uuidText : Text := ⟨ascii "6f1c2a34-0d5e-4c1b-9a57-1b2f3c4d5e6f", by decide⟩

/-- Identifiers made by the daemon. -/
theorem keptApart_uuid : KeptApart {uuidText} :=
  (keptApart_iff (by
    intro id hid hnot
    exact absurd (hid ▸ (by decide : FileName uuidText)) hnot)).mpr (by
    intro id hid
    exact hid ▸ (by decide : FileName uuidText))

/-- For every identifier there is another one with the same file, three bytes make the path
throw, and two more lead to the root of the file system and among the project's cards. -/
theorem every_thread_collides :
    (∀ id : Text, ∃ other, other ≠ id ∧ (4 ≤ id.val.length → statePath other = statePath id)) ∧
      statePath ⟨ascii "abc", by decide⟩ = none ∧
      statePath ⟨ascii "ab/etc", by decide⟩ = none ∧
      statePath ⟨ascii "..ab/../../cards/x", by decide⟩ =
        some [ascii "cards", ascii "x.json"] ∧
      ¬ KeptApart Set.univ := by
  refine ⟨fun id => ⟨respelled id, respelled_ne id, statePath_respelled⟩, by decide, by decide,
    by decide, fun h => ?_⟩
  obtain ⟨path, hpath, -⟩ := h.below ⟨ascii "abc", by decide⟩ trivial
  have hnone : statePath ⟨ascii "abc", by decide⟩ = none := by decide
  rw [hnone] at hpath
  cases hpath

end AiDurability

end HolderDaemon
