import HolderDaemon.Assoc

/-!
A tree of files as a list of paths with what stands at each, and a staging area in it: a fresh
directory with one file, which is either discarded or renamed over its target.
-/

set_option autoImplicit false

namespace FileTree

universe u v

/-- A symbolic link is known by whether it leads to a directory. -/
inductive Node (β : Type v) where
  | file (content : List β)
  | directory
  | link (toDirectory : Bool)
  deriving DecidableEq

abbrev Entries (α : Type u) (β : Type v) := List (List α × Node β)

section Operations
variable {α : Type u} {β : Type v} [BEq α]

def isDirectory (t : Entries α β) (p : List α) : Bool :=
  p.isEmpty ||
    match t.lookup p with
    | some .directory => true
    | some (.link toDirectory) => toDirectory
    | _ => false

/-- Each path once, and everything in a directory. -/
structure WellFormed (t : Entries α β) : Prop where
  nodup : (t.map Prod.fst).Nodup
  ancestors : ∀ p ∈ t.map Prod.fst, ∀ q, q ≠ [] → q <+: p → q ≠ p → isDirectory t q = true

/-- `none` where something stands there already or the parent is no directory. -/
def createDirectory (t : Entries α β) (p : List α) : Option (Entries α β) :=
  if (t.lookup p).isNone && isDirectory t p.dropLast then some (Assoc.set p .directory t) else none

def isBelow (p : List α) (e : List α × Node β) : Bool := p.isPrefixOf e.1 && p != e.1

/-- A directory goes only where it is empty. -/
def remove (t : Entries α β) (p : List α) : Entries α β :=
  match t.lookup p with
  | none => t
  | some .directory => if t.any (isBelow p) then t else Assoc.erase p t
  | some _ => Assoc.erase p t

/-- A file takes the place of whatever stands at the target, directories apart. -/
def rename (t : Entries α β) (source target : List α) : Option (Entries α β) :=
  match t.lookup source, t.lookup target with
  | some (.file _), some .directory => none
  | some (.file content), _ => some (Assoc.set target (.file content) (Assoc.erase source t))
  | _, _ => none

/-! Lists of entries -/

theorem erase_append (p : List α) (t s : Entries α β) :
    Assoc.erase p (t ++ s) = Assoc.erase p t ++ Assoc.erase p s :=
  List.filter_append ..

theorem mem_set {p : List α} {node : Node β} {t : Entries α β} {e : List α × Node β}
    (h : e ∈ Assoc.set p node t) : e = (p, node) ∨ e ∈ t := by
  induction t with
  | nil => exact .inl (List.mem_singleton.mp h)
  | cons first t ih =>
    rw [Assoc.set] at h
    split at h
    · exact (List.mem_cons.mp h).imp_right (List.mem_cons_of_mem first)
    · rcases List.mem_cons.mp h with rfl | hmem
      · exact .inr List.mem_cons_self
      · exact (ih hmem).imp_right (List.mem_cons_of_mem first)

variable [LawfulBEq α]

theorem set_new {p : List α} {t : Entries α β} (h : t.lookup p = none) (node : Node β) :
    Assoc.set p node t = t ++ [(p, node)] := by
  induction t with
  | nil => rfl
  | cons e t ih =>
    rw [Assoc.lookup_cons_eq] at h
    split at h
    · cases h
    · rename_i hne
      rw [Assoc.set, if_neg hne, ih h, List.cons_append]

theorem erase_new {p : List α} {t : Entries α β} (h : t.lookup p = none) : Assoc.erase p t = t := by
  refine List.filter_eq_self.mpr fun e he => ?_
  have hne := List.lookup_eq_none_iff.mp h e he
  rw [bne_iff_ne]
  rintro rfl
  simp at hne

theorem lookup_append {p : List α} {t s : Entries α β} (h : t.lookup p = none) :
    (t ++ s).lookup p = s.lookup p := by
  induction t with
  | nil => rfl
  | cons e t ih =>
    rw [Assoc.lookup_cons_eq] at h
    split at h
    · cases h
    · rename_i hne
      rw [List.cons_append, Assoc.lookup_cons_eq, if_neg hne, ih h]

theorem erase_set {p q : List α} (hne : p ≠ q) (node : Node β) (t : Entries α β) :
    Assoc.erase p (Assoc.set q node t) = Assoc.set q node (Assoc.erase p t) := by
  induction t with
  | nil =>
    have hkeep : (q != p) = true := bne_iff_ne.mpr (Ne.symm hne)
    simp [Assoc.set, Assoc.erase, hkeep]
  | cons e t ih =>
    have hcons : ∀ (e : List α × Node β) (l : Entries α β),
        Assoc.erase p (e :: l) = if e.1 == p then Assoc.erase p l else e :: Assoc.erase p l := by
      intro e l
      by_cases he : e.1 = p <;> simp [Assoc.erase, he]
    rw [Assoc.set]
    by_cases hq : e.1 = q
    · have hqp : ¬ (q == p) = true := fun h => hne (beq_iff_eq.mp h).symm
      have hep : ¬ (e.1 == p) = true := fun h => hne ((beq_iff_eq.mp h).symm.trans hq)
      rw [if_pos (beq_iff_eq.mpr hq), hcons, hcons, if_neg hqp, if_neg hep, Assoc.set,
        if_pos (beq_iff_eq.mpr hq)]
    · have hbeq : ¬ (e.1 == q) = true := fun h => hq (beq_iff_eq.mp h)
      rw [if_neg hbeq, hcons, hcons, ih]
      split
      · rfl
      · rw [Assoc.set, if_neg hbeq]

/-! The staging area -/

/-- Where nothing stands nothing stands below. -/
theorem WellFormed.none_below {t : Entries α β} (h : WellFormed t) {p : List α}
    (hp : t.lookup p = none) (hne : p ≠ []) : ∀ e ∈ t, ¬ p <+: e.1 := by
  intro e he hpre
  have hmem : e.1 ∈ t.map Prod.fst := List.mem_map_of_mem he
  by_cases heq : p = e.1
  · rw [heq] at hp
    have hsome := Assoc.isSome_lookup_iff.mpr hmem
    rw [hp] at hsome
    cases hsome
  · have hdir := h.ancestors e.1 hmem p hne hpre heq
    rw [isDirectory, hp] at hdir
    simp [hne] at hdir

section Staged
variable {t : Entries α β} {dir : List α} {name : α}

/-- The entries with a directory of one file. -/
def staged (t : Entries α β) (dir : List α) (name : α) (node : Node β) : Entries α β :=
  t ++ [(dir, .directory), (dir ++ [name], node)]

/-- The directory is fresh: it is not there, and so nothing is below it. -/
structure Fresh (t : Entries α β) (dir : List α) : Prop where
  absent : t.lookup dir = none
  none_below : ∀ e ∈ t, ¬ dir <+: e.1

theorem Fresh.file_absent (h : Fresh t dir) (name : α) : t.lookup (dir ++ [name]) = none := by
  refine List.lookup_eq_none_iff.mpr fun e he => ?_
  by_contra hcontra
  have heq : dir ++ [name] = e.1 := by simpa using hcontra
  exact h.none_below e he ⟨[name], heq⟩

theorem lookup_staged_file (h : Fresh t dir) (node : Node β) :
    (staged t dir name node).lookup (dir ++ [name]) = some node := by
  rw [staged, lookup_append (h.file_absent name)]
  simp [Assoc.lookup_cons_eq]

theorem lookup_staged_dir (h : Fresh t dir) (node : Node β) :
    (staged t dir name node).lookup dir = some .directory := by
  rw [staged, lookup_append h.absent]
  simp [Assoc.lookup_cons_eq]

/-- Creating the file in the directory makes the area. -/
theorem set_file (h : Fresh t dir) (node : Node β) :
    Assoc.set (dir ++ [name]) node (t ++ [(dir, .directory)]) = staged t dir name node := by
  rw [set_new, staged, List.append_assoc, List.singleton_append]
  rw [lookup_append (h.file_absent name)]
  simp [Assoc.lookup_cons_eq]

/-- Writing the file changes it alone. -/
theorem write_file (h : Fresh t dir) (node next : Node β) :
    Assoc.set (dir ++ [name]) next (staged t dir name node) = staged t dir name next := by
  have habsent := h.file_absent name
  rw [staged, staged]
  clear h
  induction t with
  | nil =>
    have hne : ¬ (dir == dir ++ [name]) = true := by simp
    rw [List.nil_append, List.nil_append, Assoc.set, if_neg hne, Assoc.set,
      if_pos (beq_self_eq_true _)]
  | cons e t ih =>
    rw [Assoc.lookup_cons_eq] at habsent
    split at habsent
    · cases habsent
    · rename_i hne
      rw [List.cons_append, Assoc.set, if_neg hne, ih habsent, List.cons_append]

/-- A directory with nothing below it is removed. -/
theorem remove_empty {s : Entries α β} (hdir : s.lookup dir = some .directory)
    (hbelow : ∀ e ∈ s, ¬ (dir <+: e.1 ∧ dir ≠ e.1)) : remove s dir = Assoc.erase dir s := by
  have hany : s.any (isBelow dir) = false := by
    rw [List.any_eq_false]
    intro e he hb
    rw [isBelow, Bool.and_eq_true, List.isPrefixOf_iff_prefix, bne_iff_ne] at hb
    exact hbelow e he hb
  simp only [remove, hdir, hany, if_neg Bool.false_ne_true]

/-- A directory just made is removed. -/
theorem remove_made (h : Fresh t dir) : remove (t ++ [(dir, .directory)]) dir = t := by
  rw [remove_empty]
  · rw [erase_append, erase_new h.absent]
    simp [Assoc.erase]
  · rw [lookup_append h.absent]
    simp [Assoc.lookup_cons_eq]
  · intro e he hbelow
    rcases List.mem_append.mp he with hold | hnew
    · exact h.none_below e hold hbelow.1
    · rw [List.mem_singleton.mp hnew] at hbelow
      exact hbelow.2 rfl

/-- The area is discarded before it has its file. -/
theorem discard_made (h : Fresh t dir) (name : α) :
    remove (remove (t ++ [(dir, .directory)]) (dir ++ [name])) dir = t := by
  have hfile : (t ++ [(dir, .directory)] : Entries α β).lookup (dir ++ [name]) = none := by
    rw [lookup_append (h.file_absent name)]
    simp [Assoc.lookup_cons_eq]
  have hkept : remove (t ++ [(dir, .directory)]) (dir ++ [name]) = t ++ [(dir, .directory)] := by
    simp only [remove, hfile]
  rw [hkept, remove_made h]

/-- Without its file the area is removed whole. -/
theorem discard_staged (h : Fresh t dir) (content : List β) :
    remove (remove (staged t dir name (.file content)) (dir ++ [name])) dir = t := by
  have hfile : remove (staged t dir name (.file content)) (dir ++ [name]) =
      t ++ [(dir, .directory)] := by
    rw [remove, lookup_staged_file h]
    dsimp only
    rw [staged, erase_append, erase_new (h.file_absent name)]
    simp [Assoc.erase]
  rw [hfile, remove_made h]

/-- A file is not renamed over the directory that it is in. -/
theorem target_ne_dir (h : Fresh t dir) {content : List β} {target : List α} {t' : Entries α β}
    (hr : rename (staged t dir name (.file content)) (dir ++ [name]) target = some t') :
    target ≠ dir := by
  rintro rfl
  rw [rename, lookup_staged_file h, lookup_staged_dir h] at hr
  cases hr

/-- Renamed over its target the file leaves an empty directory, which goes. -/
theorem publish_staged (h : Fresh t dir) {content : List β} {target : List α}
    (hsize : target.length = dir.length) {t' : Entries α β}
    (hr : rename (staged t dir name (.file content)) (dir ++ [name]) target = some t') :
    remove (remove t' (dir ++ [name])) dir = Assoc.set target (.file content) t := by
  have herase : Assoc.erase (dir ++ [name]) (staged t dir name (.file content)) =
      t ++ [(dir, .directory)] := by
    rw [staged, erase_append, erase_new (h.file_absent name)]
    simp [Assoc.erase]
  have hfileTarget : target ≠ dir ++ [name] := by
    rintro rfl
    simp at hsize
  have hdirTarget : target ≠ dir := target_ne_dir h hr
  rw [rename, lookup_staged_file h] at hr
  have ht' : t' = Assoc.set target (.file content) (t ++ [(dir, .directory)]) := by
    rw [← herase]
    split at hr
    · cases hr
    · rename_i hfile _
      cases hfile
      exact (Option.some.inj hr).symm
    · rename_i hnoFile _
      exact (hnoFile content rfl).elim
  have hfile : t'.lookup (dir ++ [name]) = none := by
    rw [ht', Assoc.lookup_set_ne hfileTarget, lookup_append (h.file_absent name)]
    simp [Assoc.lookup_cons_eq]
  have hdir : t'.lookup dir = some .directory := by
    rw [ht', Assoc.lookup_set_ne hdirTarget, lookup_append h.absent]
    simp [Assoc.lookup_cons_eq]
  have hbelow : ∀ e ∈ t', ¬ (dir <+: e.1 ∧ dir ≠ e.1) := by
    rintro e he ⟨hpre, hne⟩
    rw [ht'] at he
    rcases mem_set he with rfl | hmem
    · exact hne (hpre.eq_of_length hsize.symm)
    · rcases List.mem_append.mp hmem with hold | hnew
      · exact h.none_below e hold hpre
      · rw [List.mem_singleton.mp hnew] at hne
        exact hne rfl
  have hkept : remove t' (dir ++ [name]) = t' := by simp only [remove, hfile]
  rw [hkept, remove_empty hdir hbelow, ht', erase_set (Ne.symm hdirTarget), erase_append,
    erase_new h.absent]
  simp [Assoc.erase]

end Staged

end Operations

end FileTree
