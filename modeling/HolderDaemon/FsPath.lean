import Mathlib

/-!
Paths the way `std::filesystem::path` reads them: a root name, a root directory and names, by the
rules of a platform, and when the path `root / rel` is lexically inside `root`.
-/

set_option autoImplicit false

namespace FsPath

universe u

/-- How a platform reads the text of a path. Whether a path is absolute is read from its root name
and from whether a root directory follows. -/
structure Rules (α : Type u) where
  isSlash : α → Bool
  preferredSeparator : α
  dot : α
  rootNameEnd : List α → Nat
  absolute : List α → Bool → Bool
  slash_preferred : isSlash preferredSeparator = true
  rootNameEnd_le : ∀ p, rootNameEnd p ≤ p.length

namespace Rules

variable {α : Type u} (rules : Rules α)

def rootName (p : List α) : List α := p.take (rules.rootNameEnd p)

def afterRootName (p : List α) : List α := p.drop (rules.rootNameEnd p)

def startsWithSlash (s : List α) : Bool := s.head?.any rules.isSlash

def hasRootDirectory (p : List α) : Bool := rules.startsWithSlash (rules.afterRootName p)

def isAbsolute (p : List α) : Bool := rules.absolute (rules.rootName p) (rules.hasRootDirectory p)

def hasFilename (p : List α) : Bool :=
  (rules.afterRootName p).getLast?.any fun c => !rules.isSlash c

def namesOf (s : List α) : List (List α) := (s.splitOnP rules.isSlash).filter fun n => n ≠ []

/-- The elements of the relative path that are not empty. -/
def names (p : List α) : List (List α) := rules.namesOf (rules.afterRootName p)

/-- The elements of an iteration; a trailing separator leaves an empty one. -/
def elements (p : List α) : List (List α) :=
  let names := rules.names p
  (if rules.rootName p = [] then [] else [rules.rootName p]) ++
    (if rules.hasRootDirectory p then [(rules.afterRootName p).takeWhile rules.isSlash] else []) ++
    names ++ if names ≠ [] ∧ rules.hasFilename p = false then [[]] else []

def dotdot : List α := [rules.dot, rules.dot]

/-- The path as it is when a name is appended to it. -/
def withSeparator (p : List α) : List α :=
  if rules.hasFilename p || (!rules.hasRootDirectory p && rules.isAbsolute p) then
    p ++ [rules.preferredSeparator]
  else p

/-- A path written after another one. -/
def written (p q : List α) : List α :=
  if rules.hasRootDirectory q then rules.rootName p ++ rules.afterRootName q
  else rules.withSeparator p ++ rules.afterRootName q

/-- `operator/`. -/
def append [DecidableEq α] (p q : List α) : List α :=
  if rules.isAbsolute q then q
  else if rules.rootName q ≠ [] ∧ rules.rootName q ≠ rules.rootName p then q
  else rules.written p q

/-- The path starts at a root, be it only the one that its root name stands for. -/
def rooted (p : List α) : Bool := rules.hasRootDirectory p || rules.isAbsolute p

/-- The path is the root's, with names after it that do not lead up. -/
structure Inside (root p : List α) : Prop where
  rootName : rules.rootName p = rules.rootName root
  rooted : rules.rooted p = rules.rooted root
  names : ∃ below, rules.names p = rules.names root ++ below ∧ rules.dotdot ∉ below

variable {rules}

theorem rootName_append_afterRootName (p : List α) :
    rules.rootName p ++ rules.afterRootName p = p := List.take_append_drop _ p

/-- A text that begins with its root name. -/
theorem afterRootName_of_eq {root s p : List α} (hp : p = root ++ s)
    (hroot : rules.rootName p = root) : rules.afterRootName p = s := by
  have hsame := rules.rootName_append_afterRootName p
  rw [hroot] at hsame
  exact List.append_cancel_left (hsame.trans hp)

theorem namesOf_append_slash (s t : List α) {c : α} (hc : rules.isSlash c = true) :
    rules.namesOf (s ++ c :: t) = rules.namesOf s ++ rules.namesOf t := by
  rw [namesOf, List.splitOnP_append_cons s t hc, List.filter_append]
  rfl

theorem namesOf_nil : rules.namesOf ([] : List α) = [] := by
  simp [namesOf]

theorem namesOf_concat_slash (s : List α) {c : α} (hc : rules.isSlash c = true) :
    rules.namesOf (s ++ [c]) = rules.namesOf s := by
  rw [namesOf_append_slash s [] hc, namesOf_nil, List.append_nil]

/-- The names of what follows a separator come after those that are before it. -/
theorem namesOf_append {s : List α} (t : List α) (hs : s.getLast?.all rules.isSlash = true) :
    rules.namesOf (s ++ t) = rules.namesOf s ++ rules.namesOf t := by
  rcases List.eq_nil_or_concat s with rfl | ⟨front, c, rfl⟩
  · rw [namesOf_nil, List.nil_append, List.nil_append]
  · have hc : rules.isSlash c = true := by simpa using hs
    rw [List.concat_eq_append] at hs ⊢
    rw [namesOf_concat_slash front hc, List.append_assoc, List.singleton_append,
      namesOf_append_slash front t hc]

theorem dotdot_notMem_names {p : List α} (h : rules.dotdot ∉ rules.elements p) :
    rules.dotdot ∉ rules.names p := by
  intro hmem
  refine h ?_
  simp only [elements, List.mem_append]
  exact .inl (.inr hmem)

/-- What is after the root name, as it is when a name is appended. -/
def separated (rules : Rules α) (p : List α) : List α :=
  if rules.hasFilename p || (!rules.hasRootDirectory p && rules.isAbsolute p) then
    rules.afterRootName p ++ [rules.preferredSeparator]
  else rules.afterRootName p

theorem withSeparator_eq (p : List α) :
    rules.withSeparator p = rules.rootName p ++ rules.separated p := by
  unfold withSeparator separated
  split
  · rw [← List.append_assoc, rootName_append_afterRootName]
  · rw [rootName_append_afterRootName]

theorem namesOf_separated_append (p t : List α) :
    rules.namesOf (rules.separated p ++ t) = rules.names p ++ rules.namesOf t := by
  unfold separated
  split
  · rw [List.append_assoc, List.singleton_append, namesOf_append_slash _ _ rules.slash_preferred]
    rfl
  next hnone =>
    refine namesOf_append t ?_
    rw [Bool.or_eq_true, not_or] at hnone
    have hlast := hnone.1
    unfold hasFilename at hlast
    cases hc : (rules.afterRootName p).getLast? with
    | none => rfl
    | some c => simpa [hc] using hlast

/-- A path whose root name is kept is rooted as before when a name is appended. -/
theorem rooted_of_afterRootName {p q t : List α} (hroot : rules.rootName q = rules.rootName p)
    (hafter : rules.afterRootName q = rules.separated p ++ t)
    (ht : rules.startsWithSlash t = false) : rules.rooted q = rules.rooted p := by
  cases hp : rules.afterRootName p with
  | nil =>
    have hdir : rules.hasRootDirectory p = false := by
      simp [hasRootDirectory, startsWithSlash, hp]
    have hname : rules.hasFilename p = false := by simp [hasFilename, hp]
    cases habs : rules.isAbsolute p with
    | true =>
      have hq : rules.hasRootDirectory q = true := by
        simp [hasRootDirectory, startsWithSlash, hafter, separated, habs, hp,
          rules.slash_preferred]
      simp [rooted, hq, habs]
    | false =>
      have hq : rules.hasRootDirectory q = false := by
        simpa [hasRootDirectory, hafter, separated, hdir, hname, habs, hp] using ht
      have hsame : rules.isAbsolute q = rules.isAbsolute p := by
        simp only [isAbsolute, hroot, hq, hdir]
      simp [rooted, hq, hdir, hsame]
  | cons c rest =>
    have hq : rules.hasRootDirectory q = rules.hasRootDirectory p := by
      simp only [hasRootDirectory, hafter, separated, hp, startsWithSlash]
      split <;> rfl
    simp only [rooted, isAbsolute, hroot, hq]

/-- The path `rel` leads nowhere but below `root`: it names no other root, and begins with the names
of `root` where it begins at a root directory. -/
structure Below [DecidableEq α] (rules : Rules α) (root rel : List α) : Prop where
  ownRoot : rules.rootName rel = [] ∨ rules.rootName rel = rules.rootName root
  kept : rules.rootName (rules.written root rel) = rules.rootName root
  directory : rules.hasRootDirectory rel = true →
    rules.rooted root = true ∧ rules.names root <+: rules.names rel

/-- A path that begins at a root directory is written after the root name alone. -/
theorem inside_written_of_directory {root rel : List α} (hdots : rules.dotdot ∉ rules.names rel)
    (hdir : rules.hasRootDirectory rel = true) :
    rules.Inside root (rules.written root rel) ↔
      rules.rootName (rules.written root rel) = rules.rootName root ∧
        rules.rooted root = true ∧ rules.names root <+: rules.names rel := by
  have hwritten : rules.written root rel = rules.rootName root ++ rules.afterRootName rel := by
    rw [written, if_pos hdir]
  -- with its root name kept, the written path has the root directory and the names of `rel`
  have hread : rules.rootName (rules.written root rel) = rules.rootName root →
      rules.rooted (rules.written root rel) = true ∧
        rules.names (rules.written root rel) = rules.names rel := by
    intro hroot
    have hafter := afterRootName_of_eq hwritten hroot
    refine ⟨?_, by rw [names, hafter]; rfl⟩
    rw [rooted, hasRootDirectory, hafter]
    exact Bool.or_eq_true_iff.mpr (.inl hdir)
  constructor
  · intro h
    obtain ⟨hrooted, hnames⟩ := hread h.rootName
    obtain ⟨below, hbelow, -⟩ := h.names
    exact ⟨h.rootName, h.rooted ▸ hrooted, below, hbelow.symm.trans hnames⟩
  · rintro ⟨hroot, hrooted, below, hbelow⟩
    obtain ⟨hwrittenRooted, hnames⟩ := hread hroot
    refine ⟨hroot, hwrittenRooted.trans hrooted.symm, below, hnames.trans hbelow.symm, ?_⟩
    intro hmem
    exact hdots (hbelow ▸ List.mem_append_right _ hmem)

/-- Other paths are written after the whole root. -/
theorem inside_written_of_name {root rel : List α} (hdots : rules.dotdot ∉ rules.names rel)
    (hdir : rules.hasRootDirectory rel = false) :
    rules.Inside root (rules.written root rel) ↔
      rules.rootName (rules.written root rel) = rules.rootName root := by
  have hwritten : rules.written root rel =
      rules.rootName root ++ (rules.separated root ++ rules.afterRootName rel) := by
    rw [written, if_neg (by simp [hdir]), withSeparator_eq, List.append_assoc]
  refine ⟨fun h => h.rootName, fun hroot => ?_⟩
  have hafter := afterRootName_of_eq hwritten hroot
  refine ⟨hroot, rooted_of_afterRootName hroot hafter hdir, rules.names rel, ?_, hdots⟩
  rw [names, hafter, namesOf_separated_append]
  rfl

theorem inside_append_iff [DecidableEq α] {root rel : List α}
    (hrelative : rules.isAbsolute rel = false) (hdots : rules.dotdot ∉ rules.elements rel) :
    rules.Inside root (rules.append root rel) ↔ rules.Below root rel := by
  have hdots := dotdot_notMem_names hdots
  by_cases hother : rules.rootName rel ≠ [] ∧ rules.rootName rel ≠ rules.rootName root
  · have happend : rules.append root rel = rel := by
      rw [append, if_neg (by simp [hrelative]), if_pos hother]
    refine ⟨fun h => absurd (happend ▸ h.rootName) hother.2, fun h => ?_⟩
    rcases h.ownRoot with hnone | hsame
    · exact absurd hnone hother.1
    · exact absurd hsame hother.2
  · have hown : rules.rootName rel = [] ∨ rules.rootName rel = rules.rootName root := by
      rcases not_and_or.mp hother with hnone | hsame
      · exact .inl (not_not.mp hnone)
      · exact .inr (not_not.mp hsame)
    have happend : rules.append root rel = rules.written root rel := by
      rw [append, if_neg (by simp [hrelative]), if_neg hother]
    rw [happend]
    cases hdir : rules.hasRootDirectory rel with
    | true =>
      rw [inside_written_of_directory hdots hdir]
      exact ⟨fun h => ⟨hown, h.1, fun _ => h.2⟩, fun h => ⟨h.kept, h.directory hdir⟩⟩
    | false =>
      rw [inside_written_of_name hdots hdir]
      exact ⟨fun h => ⟨hown, h, fun h => absurd (hdir.symm.trans h) nofun⟩, fun h => h.kept⟩

end Rules

/-! POSIX -/

def posixRules : Rules UInt8 where
  isSlash c := c = 47
  preferredSeparator := 47
  dot := 46
  rootNameEnd _ := 0
  absolute _ rootDirectory := rootDirectory
  slash_preferred := rfl
  rootNameEnd_le _ := Nat.zero_le _

/-- Without root names, a path that is not absolute stays below what it is appended to. -/
theorem posix_inside_append {root rel : List UInt8} (hrelative : posixRules.isAbsolute rel = false)
    (hdots : posixRules.dotdot ∉ posixRules.elements rel) :
    posixRules.Inside root (posixRules.append root rel) := by
  refine (Rules.inside_append_iff hrelative hdots).mpr ⟨.inl rfl, rfl, fun hdir => ?_⟩
  exact absurd (hdir.symm.trans hrelative) nofun

/-! Windows -/

def windowsSlash (c : UInt16) : Bool := c = 92 || c = 47

def startsWithWindowsSlash (s : List UInt16) : Bool := s.head?.any windowsSlash

def isDriveLetter (c : UInt16) : Bool := 65 ≤ c && c ≤ 90 || 97 ≤ c && c ≤ 122

/-- `X:` -/
def hasDrive : List UInt16 → Bool
  | a :: b :: _ => isDriveLetter a && b == 58
  | _ => false

/-- `\\?\` or `\\.\` or `\??\`, with no separator after it. -/
def hasDevice : List UInt16 → Bool
  | a :: b :: c :: d :: rest =>
    windowsSlash a && windowsSlash d && !startsWithWindowsSlash rest &&
      (windowsSlash b && (c == 63 || c == 46) || b == 63 && c == 63)
  | _ => false

/-- `\\server` -/
def hasServer : List UInt16 → Bool
  | a :: b :: c :: _ => windowsSlash a && windowsSlash b && !windowsSlash c
  | _ => false

/-- The root names that Microsoft's library reads. -/
def windowsRootNameEnd (p : List UInt16) : Nat :=
  if hasDrive p then 2
  else if hasDevice p then 3
  else if hasServer p then 3 + ((p.drop 3).takeWhile fun c => !windowsSlash c).length
  else 0

theorem windowsRootNameEnd_le (p : List UInt16) : windowsRootNameEnd p ≤ p.length := by
  unfold windowsRootNameEnd
  split
  next h =>
    rcases p with _ | ⟨a, _ | ⟨b, rest⟩⟩
    · cases h
    · cases h
    · simp
  next =>
    split
    next h =>
      rcases p with _ | ⟨a, _ | ⟨b, _ | ⟨c, rest⟩⟩⟩
      · cases h
      · cases h
      · cases h
      · simp
    next =>
      split
      next h =>
        rcases p with _ | ⟨a, _ | ⟨b, _ | ⟨c, rest⟩⟩⟩
        · cases h
        · cases h
        · cases h
        · have hle : (rest.takeWhile fun c => !windowsSlash c).length ≤ rest.length :=
            (List.takeWhile_sublist _).length_le
          simp only [List.drop_succ_cons, List.drop_zero, List.length_cons]
          omega
      next => exact Nat.zero_le _

/-- A path with a drive is absolute where a root directory follows; one with another root name
always. -/
def windowsRules : Rules UInt16 where
  isSlash := windowsSlash
  preferredSeparator := 92
  dot := 46
  rootNameEnd := windowsRootNameEnd
  absolute root rootDirectory := if hasDrive root then rootDirectory else root ≠ []
  slash_preferred := rfl
  rootNameEnd_le := windowsRootNameEnd_le

/-- A root with a drive keeps its root name, whatever is written after it. -/
theorem rootName_written_of_hasDrive {root : List UInt16} (h : hasDrive root = true)
    (rel : List UInt16) :
    windowsRules.rootName (windowsRules.written root rel) = windowsRules.rootName root := by
  rcases root with _ | ⟨a, _ | ⟨b, rest⟩⟩
  · cases h
  · cases h
  · have hname : ∀ s, windowsRules.rootName (a :: b :: s) = [a, b] := by
      intro s
      have hdrive : hasDrive (a :: b :: s) = true := h
      simp [Rules.rootName, windowsRules, windowsRootNameEnd, hdrive]
    obtain ⟨s, hs⟩ : ∃ s, windowsRules.written (a :: b :: rest) rel = a :: b :: s := by
      unfold Rules.written Rules.withSeparator
      rw [hname]
      split
      · exact ⟨_, rfl⟩
      · split
        · exact ⟨_, rfl⟩
        · exact ⟨_, rfl⟩
    rw [hs, hname, hname]

end FsPath
