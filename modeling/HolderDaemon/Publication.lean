import HolderDaemon.Machine

/-!
Files that writers publish under one name: each writes a temporary file of its own and renames
it over the name, while readers open the name and read on in the file they opened. A name leads
to a file by its number, so that a file outlives the name it was opened under.
-/

set_option autoImplicit false

namespace Publication

universe u v w x

/-- The writers, each with a temporary name of its own. -/
structure Site (ω : Type u) (ν : Type v) (β : Type w) where
  path : ν
  temp : ω → ν
  body : ω → List β
  temp_injective : Function.Injective temp
  temp_ne : ∀ w, temp w ≠ path

/-- Every file has a number below `fresh`. -/
structure Disk (ν : Type v) (β : Type w) where
  entry : ν → Option Nat
  content : Nat → List β
  fresh : Nat

inductive Writer (β : Type w) where
  | ready
  | writing (file : Nat) (rest : List β)
  | written
  /-- The rename failed; the name is removed next. -/
  | removing
  | retrying
  | published
  | failed

inductive Reader (β : Type w) where
  | idle
  | reading (file : Nat) (got : List β)
  | got (content : List β)
  | missing

/-- `renamed` holds the writers whose rename took place, in order. -/
structure State (ω : Type u) (ν : Type v) (β : Type w) (ρ : Type x) where
  disk : Disk ν β
  writers : ω → Writer β := fun _ => .ready
  readers : ρ → Reader β := fun _ => .idle
  renamed : List ω := []

inductive Step (ω : Type u) (ρ : Type x) where
  | openTemp (w : ω)
  | openTempFails (w : ω)
  | write (w : ω) (count : Nat)
  | writeFails (w : ω)
  | close (w : ω)
  | closeFails (w : ω)
  | rename (w : ω)
  | renameFails (w : ω)
  | remove (w : ω) (removed : Bool)
  | renameAgain (w : ω)
  | renameAgainFails (w : ω)
  | openPath (r : ρ)
  | read (r : ρ) (count : Nat)

section Runs
variable {ω : Type u} {ν : Type v} {β : Type w} {ρ : Type x}

namespace Disk
variable [DecidableEq ν]

def unlink (d : Disk ν β) (name : ν) : Disk ν β :=
  { d with entry := Function.update d.entry name none }

/-- An empty file under the name: the one that stood there, or a new one. -/
def truncate (d : Disk ν β) (name : ν) : Nat × Disk ν β :=
  match d.entry name with
  | some file => (file, { d with content := Function.update d.content file [] })
  | none =>
    (d.fresh,
      { entry := Function.update d.entry name (some d.fresh)
        content := Function.update d.content d.fresh []
        fresh := d.fresh + 1 })

def append (d : Disk ν β) (file : Nat) (bytes : List β) : Disk ν β :=
  { d with content := Function.update d.content file (d.content file ++ bytes) }

def rename (d : Disk ν β) (source target : ν) : Disk ν β :=
  { d with
    entry := Function.update (Function.update d.entry target (d.entry source)) source none }

end Disk

variable [DecidableEq ω] [DecidableEq ν] [DecidableEq ρ] (site : Site ω ν β)

namespace State

def setWriter (s : State ω ν β ρ) (w : ω) (p : Writer β) : State ω ν β ρ :=
  { s with writers := Function.update s.writers w p }

def setReader (s : State ω ν β ρ) (r : ρ) (p : Reader β) : State ω ν β ρ :=
  { s with readers := Function.update s.readers r p }

/-- The temporary file goes, and the writer gives up. -/
def discard (s : State ω ν β ρ) (w : ω) : State ω ν β ρ :=
  { s.setWriter w .failed with disk := s.disk.unlink (site.temp w) }

def publish (s : State ω ν β ρ) (w : ω) : State ω ν β ρ :=
  { s.setWriter w .published with
    disk := s.disk.rename (site.temp w) site.path
    renamed := s.renamed ++ [w] }

/-- The file opened, or no file. -/
def openPath (s : State ω ν β ρ) (r : ρ) : State ω ν β ρ :=
  match s.disk.entry site.path with
  | some file => s.setReader r (.reading file [])
  | none => s.setReader r .missing

/-- Some of the bytes that follow, or the end of the file. -/
def read (s : State ω ν β ρ) (r : ρ) (file : Nat) (got : List β) (count : Nat) :
    State ω ν β ρ :=
  match (s.disk.content file).drop got.length with
  | [] => s.setReader r (.got got)
  | b :: rest => s.setReader r (.reading file (got ++ (b :: rest).take count))

def step (s : State ω ν β ρ) : Step ω ρ → Option (State ω ν β ρ)
  | .openTemp w =>
    match s.writers w with
    | .ready =>
      let opened := s.disk.truncate (site.temp w)
      some { s.setWriter w (.writing opened.1 (site.body w)) with disk := opened.2 }
    | _ => none
  | .openTempFails w =>
    match s.writers w with
    | .ready => some (s.setWriter w .failed)
    | _ => none
  | .write w count =>
    match s.writers w with
    | .writing file rest =>
      if 0 < count ∧ count ≤ rest.length then
        some
          { s.setWriter w (.writing file (rest.drop count)) with
            disk := s.disk.append file (rest.take count) }
      else none
    | _ => none
  | .writeFails w =>
    match s.writers w with
    | .writing _ (_ :: _) => some (s.discard site w)
    | _ => none
  | .close w =>
    match s.writers w with
    | .writing _ [] => some (s.setWriter w .written)
    | _ => none
  | .closeFails w =>
    match s.writers w with
    | .writing _ [] => some (s.discard site w)
    | _ => none
  | .rename w =>
    match s.writers w with
    | .written => some (s.publish site w)
    | _ => none
  | .renameFails w =>
    match s.writers w with
    | .written => some (s.setWriter w .removing)
    | _ => none
  | .remove w removed =>
    match s.writers w with
    | .removing =>
      some
        { s.setWriter w .retrying with
          disk := if removed then s.disk.unlink site.path else s.disk }
    | _ => none
  | .renameAgain w =>
    match s.writers w with
    | .retrying => some (s.publish site w)
    | _ => none
  | .renameAgainFails w =>
    match s.writers w with
    | .retrying => some (s.setWriter w .failed)
    | _ => none
  | .openPath r =>
    match s.readers r with
    | .idle => some (s.openPath site r)
    | _ => none
  | .read r count =>
    match s.readers r with
    | .reading file got => if 0 < count then some (s.read r file got count) else none
    | _ => none

end State

/-! What holds in every run -/

/-- What a reader may find: what stood there at the start, or a whole body that was renamed. -/
def Known (start : Disk ν β) (s : State ω ν β ρ) (bytes : List β) : Prop :=
  (∃ file, start.entry site.path = some file ∧ bytes = start.content file) ∨
    ∃ w ∈ s.renamed, bytes = site.body w

/-- The file is whole, and no writer has it under its temporary name. -/
structure Settled (start : Disk ν β) (s : State ω ν β ρ) (file : Nat) : Prop where
  below : file < s.disk.fresh
  away : ∀ w, s.disk.entry (site.temp w) ≠ some file
  known : Known site start s (s.disk.content file)

/-- What a writer's temporary file holds. -/
def Holds (s : State ω ν β ρ) (w : ω) : Writer β → Prop
  | .writing file rest =>
    s.disk.entry (site.temp w) = some file ∧ s.disk.content file ++ rest = site.body w
  | .written => ∃ file, s.disk.entry (site.temp w) = some file ∧
    s.disk.content file = site.body w
  | .removing => ∃ file, s.disk.entry (site.temp w) = some file ∧
    s.disk.content file = site.body w
  | .retrying => ∃ file, s.disk.entry (site.temp w) = some file ∧
    s.disk.content file = site.body w
  | _ => True

/-- What a reader has is the beginning of a whole body, and at the end the body. -/
def Reads (start : Disk ν β) (s : State ω ν β ρ) : Reader β → Prop
  | .reading file got => Settled site start s file ∧ got <+: s.disk.content file
  | .got content => Known site start s content
  | _ => True

/-- The name leads to the body renamed last, or to what stood there at the start. -/
structure Sound (start : Disk ν β) (s : State ω ν β ρ) : Prop where
  injective : ∀ a b file, s.disk.entry a = some file → s.disk.entry b = some file → a = b
  below : ∀ name file, s.disk.entry name = some file → file < s.disk.fresh
  path : ∀ file, s.disk.entry site.path = some file →
    match s.renamed.getLast? with
    | some w => s.disk.content file = site.body w
    | none => ∃ old, start.entry site.path = some old ∧ s.disk.content file = start.content old
  writers : ∀ w, Holds site s w (s.writers w)
  readers : ∀ r, Reads site start s (s.readers r)

section Preservation
variable {site : Site ω ν β} {start : Disk ν β} {s s' : State ω ν β ρ}

omit [DecidableEq ω] [DecidableEq ν] [DecidableEq ρ] in
theorem Known.mono (hrenamed : ∀ w ∈ s.renamed, w ∈ s'.renamed) {bytes : List β}
    (h : Known site start s bytes) : Known site start s' bytes := by
  rcases h with hold | ⟨w, hw, hbytes⟩
  · exact .inl hold
  · exact .inr ⟨w, hrenamed w hw, hbytes⟩

omit [DecidableEq ω] [DecidableEq ν] [DecidableEq ρ] in
/-- Readers do not notice a step that leaves every file without a temporary name as it was. -/
theorem Reads.keep (hfresh : s.disk.fresh ≤ s'.disk.fresh)
    (hfiles : ∀ file, file < s.disk.fresh → (∀ w, s.disk.entry (site.temp w) ≠ some file) →
      s'.disk.content file = s.disk.content file ∧
        ∀ w, s'.disk.entry (site.temp w) ≠ some file)
    (hrenamed : ∀ w ∈ s.renamed, w ∈ s'.renamed) {p : Reader β}
    (h : Reads site start s p) : Reads site start s' p := by
  cases p with
  | reading file got =>
    obtain ⟨hsettled, hgot⟩ := h
    obtain ⟨hcontent, haway⟩ := hfiles file hsettled.below hsettled.away
    refine ⟨⟨lt_of_lt_of_le hsettled.below hfresh, haway, ?_⟩, hcontent ▸ hgot⟩
    rw [hcontent]
    exact hsettled.known.mono hrenamed
  | got content => exact Known.mono hrenamed h
  | _ => trivial

omit [DecidableEq ω] [DecidableEq ν] [DecidableEq ρ] in
theorem Reads.same (hdisk : s'.disk = s.disk) (hrenamed : s'.renamed = s.renamed)
    {p : Reader β} (h : Reads site start s p) : Reads site start s' p := by
  refine h.keep (le_of_eq (by rw [hdisk])) (fun file _ haway => ?_) fun w hw => hrenamed ▸ hw
  rw [hdisk]
  exact ⟨rfl, haway⟩

omit [DecidableEq ω] [DecidableEq ν] [DecidableEq ρ] in
theorem Sound.temp_ne_path (h : Sound site start s) {w : ω} {file : Nat}
    (hfile : s.disk.entry site.path = some file) : s.disk.entry (site.temp w) ≠ some file :=
  fun htemp => site.temp_ne w (h.injective _ _ file htemp hfile)

omit [DecidableEq ω] [DecidableEq ν] [DecidableEq ρ] in
/-- The file under the name is whole and stays so. -/
theorem Sound.settled (h : Sound site start s) {file : Nat}
    (hfile : s.disk.entry site.path = some file) : Settled site start s file := by
  refine ⟨h.below _ _ hfile, fun w => h.temp_ne_path hfile, ?_⟩
  have hpath := h.path file hfile
  cases hlast : s.renamed.getLast? with
  | none =>
    rw [hlast] at hpath
    obtain ⟨old, hold, hcontent⟩ := hpath
    exact .inl ⟨old, hold, hcontent⟩
  | some w =>
    rw [hlast] at hpath
    exact .inr ⟨w, List.mem_of_getLast? hlast, hpath⟩

omit [DecidableEq ν] [DecidableEq ρ] in
theorem Sound.setWriter (h : Sound site start s) {w : ω} {p : Writer β}
    (hp : Holds site s w p) : Sound site start (s.setWriter w p) where
  injective := h.injective
  below := h.below
  path := h.path
  writers := by
    intro w'
    by_cases heq : w' = w
    · subst heq
      simp only [State.setWriter, Function.update_self]
      exact hp
    · simp only [State.setWriter, Function.update_of_ne heq]
      exact h.writers w'
  readers := by
    intro r
    have hdisk : (s.setWriter w p).disk = s.disk := rfl
    exact (h.readers r).same hdisk rfl

omit [DecidableEq ω] [DecidableEq ν] in
theorem Sound.setReader (h : Sound site start s) {r : ρ} {p : Reader β}
    (hp : Reads site start s p) : Sound site start (s.setReader r p) where
  injective := h.injective
  below := h.below
  path := h.path
  writers := h.writers
  readers := by
    intro r'
    have hdisk : (s.setReader r p).disk = s.disk := rfl
    by_cases heq : r' = r
    · subst heq
      simp only [State.setReader, Function.update_self]
      exact hp.same hdisk rfl
    · simp only [State.setReader, Function.update_of_ne heq]
      exact (h.readers r').same hdisk rfl

omit [DecidableEq ω] [DecidableEq ν] [DecidableEq ρ] in
/-- Where the files of the other writers are as they were, so is what they hold. -/
theorem holds_other {w' : ω} {d : Disk ν β} {p : Writer β}
    (hentry : d.entry (site.temp w') = s.disk.entry (site.temp w'))
    (hcontent : ∀ file, s.disk.entry (site.temp w') = some file →
      d.content file = s.disk.content file)
    (h : Holds site s w' p) : Holds site { s with disk := d } w' p := by
  have hwhole : (∃ file, s.disk.entry (site.temp w') = some file ∧
      s.disk.content file = site.body w') →
      ∃ file, d.entry (site.temp w') = some file ∧ d.content file = site.body w' := by
    rintro ⟨file, hfile, hbody⟩
    exact ⟨file, hentry.trans hfile, (hcontent file hfile).trans hbody⟩
  cases p with
  | writing file rest =>
    refine ⟨hentry.trans h.1, ?_⟩
    change d.content file ++ rest = site.body w'
    rw [hcontent file h.1]
    exact h.2
  | written => exact hwhole h
  | removing => exact hwhole h
  | retrying => exact hwhole h
  | _ => trivial

omit [DecidableEq ρ] in
/-- A writer opens its temporary file. -/
theorem Sound.truncate (h : Sound site start s) (w : ω) :
    Sound site start
      { s.setWriter w (.writing (s.disk.truncate (site.temp w)).1 (site.body w)) with
        disk := (s.disk.truncate (site.temp w)).2 } := by
  have hother : ∀ name file, s.disk.entry name = some file → name ≠ site.temp w →
      (s.disk.truncate (site.temp w)).2.entry name = some file ∧
        (s.disk.truncate (site.temp w)).2.content file = s.disk.content file := by
    intro name file hname hne
    simp only [Disk.truncate]
    split
    case h_1 old hold =>
      have hfile : file ≠ old := by
        rintro rfl
        exact hne (h.injective _ _ _ hname hold)
      exact ⟨hname, Function.update_of_ne hfile _ _⟩
    case h_2 =>
      have hfile : file ≠ s.disk.fresh := (h.below _ _ hname).ne
      exact ⟨(Function.update_of_ne hne _ _).trans hname, Function.update_of_ne hfile _ _⟩
  have hself : (s.disk.truncate (site.temp w)).2.entry (site.temp w) =
      some (s.disk.truncate (site.temp w)).1 ∧
        (s.disk.truncate (site.temp w)).2.content (s.disk.truncate (site.temp w)).1 = [] := by
    simp only [Disk.truncate]
    split
    case h_1 old hold => exact ⟨hold, Function.update_self _ _ _⟩
    case h_2 => exact ⟨Function.update_self _ _ _, Function.update_self _ _ _⟩
  have hback : ∀ name file, (s.disk.truncate (site.temp w)).2.entry name = some file →
      name ≠ site.temp w → s.disk.entry name = some file := by
    intro name file hname hne
    simp only [Disk.truncate] at hname
    split at hname
    case h_1 => exact hname
    case h_2 => exact (Function.update_of_ne hne _ _).symm.trans hname
  have hnumber : ∀ name file, s.disk.entry name = some file → name ≠ site.temp w →
      file ≠ (s.disk.truncate (site.temp w)).1 := by
    intro name file hname hne
    simp only [Disk.truncate]
    split
    case h_1 old hold =>
      rintro rfl
      exact hne (h.injective _ _ _ hname hold)
    case h_2 => exact (h.below _ _ hname).ne
  have hfresh : s.disk.fresh ≤ (s.disk.truncate (site.temp w)).2.fresh ∧
      (s.disk.truncate (site.temp w)).1 < (s.disk.truncate (site.temp w)).2.fresh := by
    simp only [Disk.truncate]
    split
    case h_1 old hold => exact ⟨le_refl _, h.below _ _ hold⟩
    case h_2 => exact ⟨Nat.le_succ _, Nat.lt_succ_self _⟩
  refine ⟨?_, ?_, ?_, ?_, ?_⟩
  · intro a b file ha hb
    by_cases hna : a = site.temp w <;> by_cases hnb : b = site.temp w
    · rw [hna, hnb]
    · rw [hna, hself.1, Option.some_inj] at ha
      exact absurd ha.symm (hnumber b file (hback b file hb hnb) hnb)
    · rw [hnb, hself.1, Option.some_inj] at hb
      exact absurd hb.symm (hnumber a file (hback a file ha hna) hna)
    · exact h.injective a b file (hback a file ha hna) (hback b file hb hnb)
  · intro name file hname
    by_cases hne : name = site.temp w
    · rw [hne, hself.1, Option.some_inj] at hname
      exact hname ▸ hfresh.2
    · exact lt_of_lt_of_le (h.below name file (hback name file hname hne)) hfresh.1
  · intro file hfile
    have hold := hback _ file hfile (site.temp_ne w).symm
    have hpath := h.path file hold
    rw [← (hother _ file hold (site.temp_ne w).symm).2] at hpath
    exact hpath
  · intro w'
    by_cases heq : w' = w
    · subst heq
      simp only [State.setWriter, Function.update_self]
      exact ⟨hself.1, by simp [hself.2]⟩
    · simp only [State.setWriter, Function.update_of_ne heq]
      have hne : site.temp w' ≠ site.temp w := fun ht => heq (site.temp_injective ht)
      refine holds_other ?_ (fun file hfile => (hother _ file hfile hne).2) (h.writers w')
      cases hentry : s.disk.entry (site.temp w') with
      | some file => exact (hother _ file hentry hne).1
      | none =>
        cases hnew : (s.disk.truncate (site.temp w)).2.entry (site.temp w') with
        | none => rfl
        | some file => rw [hback _ file hnew hne] at hentry; cases hentry
  · intro r
    have hgrown : s.disk.fresh ≤
        ({ s.setWriter w (.writing (s.disk.truncate (site.temp w)).1 (site.body w)) with
          disk := (s.disk.truncate (site.temp w)).2 } : State ω ν β ρ).disk.fresh := hfresh.1
    refine (h.readers r).keep hgrown (fun file hbelow haway => ?_) fun _ hw => hw
    have hfile : file ≠ (s.disk.truncate (site.temp w)).1 := by
      simp only [Disk.truncate]
      split
      case h_1 old hold =>
        rintro rfl
        exact haway w hold
      case h_2 => exact hbelow.ne
    refine ⟨?_, fun w' htemp => ?_⟩
    · simp only [Disk.truncate] at hfile ⊢
      split at hfile
      case h_1 old hold => exact Function.update_of_ne hfile _ _
      case h_2 => exact Function.update_of_ne hfile _ _
    · by_cases hne : site.temp w' = site.temp w
      · rw [hne, hself.1, Option.some_inj] at htemp
        exact hfile htemp.symm
      · exact haway w' (hback _ file htemp hne)

omit [DecidableEq ν] [DecidableEq ρ] in
/-- A writer writes some of what is left. -/
theorem Sound.append (h : Sound site start s) {w : ω} {file : Nat} {rest : List β}
    (hw : s.writers w = .writing file rest) (count : Nat) :
    Sound site start
      { s.setWriter w (.writing file (rest.drop count)) with
        disk := s.disk.append file (rest.take count) } := by
  have hholds := h.writers w
  rw [hw] at hholds
  obtain ⟨hentry, hbody⟩ := hholds
  have hother : ∀ name other, s.disk.entry name = some other → name ≠ site.temp w →
      (s.disk.append file (rest.take count)).content other = s.disk.content other := by
    intro name other hname hne
    have hfile : other ≠ file := by
      rintro rfl
      exact hne (h.injective _ _ _ hname hentry)
    exact Function.update_of_ne hfile _ _
  refine ⟨h.injective, h.below, ?_, ?_, ?_⟩
  · intro other hpath
    have hold := h.path other hpath
    rw [← hother _ other hpath (site.temp_ne w).symm] at hold
    exact hold
  · intro w'
    by_cases heq : w' = w
    · subst heq
      simp only [State.setWriter, Function.update_self]
      refine ⟨hentry, ?_⟩
      simp only [Disk.append, Function.update_self]
      rw [List.append_assoc, List.take_append_drop, hbody]
    · simp only [State.setWriter, Function.update_of_ne heq]
      have hne : site.temp w' ≠ site.temp w := fun ht => heq (site.temp_injective ht)
      exact holds_other rfl (fun other hname => hother _ other hname hne) (h.writers w')
  · intro r
    have hfresh : s.disk.fresh ≤
        ({ s.setWriter w (.writing file (rest.drop count)) with
          disk := s.disk.append file (rest.take count) } : State ω ν β ρ).disk.fresh := le_refl _
    refine (h.readers r).keep hfresh (fun other _ haway => ?_) fun _ hr => hr
    have hfile : other ≠ file := by
      rintro rfl
      exact haway w hentry
    exact ⟨Function.update_of_ne hfile _ _, haway⟩

omit [DecidableEq ρ] in
/-- A name goes, and the writer whose temporary name it was, if any, is done with it. -/
theorem Sound.unlink (h : Sound site start s) {name : ν} {w : ω} {p : Writer β}
    (hname : ∀ w', w' ≠ w → site.temp w' ≠ name)
    (hp : Holds site { s with disk := s.disk.unlink name } w p) :
    Sound site start { s.setWriter w p with disk := s.disk.unlink name } := by
  have hback : ∀ a file, (s.disk.unlink name).entry a = some file →
      a ≠ name ∧ s.disk.entry a = some file := by
    intro a file ha
    by_cases heq : a = name
    · subst heq
      simp [Disk.unlink] at ha
    · simp only [Disk.unlink, Function.update_of_ne heq] at ha
      exact ⟨heq, ha⟩
  refine ⟨?_, ?_, ?_, ?_, ?_⟩
  · intro a b file ha hb
    exact h.injective a b file (hback a file ha).2 (hback b file hb).2
  · intro a file ha
    exact h.below a file (hback a file ha).2
  · intro file hfile
    exact h.path file (hback _ file hfile).2
  · intro w'
    by_cases heq : w' = w
    · subst heq
      simp only [State.setWriter, Function.update_self]
      exact hp
    · simp only [State.setWriter, Function.update_of_ne heq]
      exact holds_other (Function.update_of_ne (hname w' heq) _ _) (fun _ _ => rfl) (h.writers w')
  · intro r
    have hfresh : s.disk.fresh ≤
        ({ s.setWriter w p with disk := s.disk.unlink name } : State ω ν β ρ).disk.fresh :=
      le_refl _
    refine (h.readers r).keep hfresh (fun file _ haway => ⟨rfl, fun w' htemp => ?_⟩) fun _ hr => hr
    exact haway w' (hback _ file htemp).2

omit [DecidableEq ρ] in
/-- The rename: the name leads to the writer's body from here on. -/
theorem Sound.publish (h : Sound site start s) {w : ω} {file : Nat}
    (hentry : s.disk.entry (site.temp w) = some file)
    (hbody : s.disk.content file = site.body w) : Sound site start (s.publish site w) := by
  have hback : ∀ a other, (s.disk.rename (site.temp w) site.path).entry a = some other →
      a ≠ site.temp w ∧ ((a = site.path ∧ other = file) ∨
        (a ≠ site.path ∧ s.disk.entry a = some other)) := by
    intro a other ha
    by_cases htemp : a = site.temp w
    · simp [htemp, Disk.rename] at ha
    · simp only [Disk.rename, Function.update_of_ne htemp] at ha
      by_cases hpath : a = site.path
      · rw [hpath, Function.update_self, hentry, Option.some_inj] at ha
        exact ⟨htemp, .inl ⟨hpath, ha.symm⟩⟩
      · rw [Function.update_of_ne hpath] at ha
        exact ⟨htemp, .inr ⟨hpath, ha⟩⟩
  refine ⟨?_, ?_, ?_, ?_, ?_⟩
  · intro a b other ha hb
    obtain ⟨hta, ⟨rfl, rfl⟩ | ⟨hna, hoa⟩⟩ := hback a other ha <;>
      obtain ⟨htb, ⟨rfl, hfile⟩ | ⟨hnb, hob⟩⟩ := hback b other hb
    · rfl
    · exact absurd (h.injective _ _ _ hob hentry) htb
    · exact absurd (h.injective _ _ _ (hfile ▸ hoa) hentry) hta
    · exact h.injective a b other hoa hob
  · intro a other ha
    obtain ⟨_, ⟨_, rfl⟩ | ⟨_, hold⟩⟩ := hback a other ha
    · exact h.below _ _ hentry
    · exact h.below _ _ hold
  · intro other hpath
    obtain ⟨_, ⟨_, rfl⟩ | ⟨hne, _⟩⟩ := hback _ other hpath
    · simp only [State.publish, List.getLast?_concat]
      exact hbody
    · exact absurd rfl hne
  · intro w'
    by_cases heq : w' = w
    · subst heq
      simp only [State.publish, State.setWriter, Function.update_self]
      trivial
    · simp only [State.publish, State.setWriter, Function.update_of_ne heq]
      have hne : site.temp w' ≠ site.temp w := fun ht => heq (site.temp_injective ht)
      refine holds_other ?_ (fun _ _ => rfl) (h.writers w')
      simp only [Disk.rename, Function.update_of_ne hne, Function.update_of_ne (site.temp_ne w')]
  · intro r
    have hfresh : s.disk.fresh ≤ (s.publish site w).disk.fresh := le_refl _
    refine (h.readers r).keep hfresh (fun other _ haway => ⟨rfl, fun w' htemp => ?_⟩)
      fun _ hr => List.mem_append_left _ hr
    obtain ⟨_, ⟨hpath, _⟩ | ⟨_, hold⟩⟩ := hback _ other htemp
    · exact site.temp_ne w' hpath
    · exact haway w' hold

omit [DecidableEq ω] [DecidableEq ν] in
/-- A reader gets more of the file, or has had all of it. -/
theorem Sound.read (h : Sound site start s) {r : ρ} {file : Nat} {got : List β}
    (hr : s.readers r = .reading file got) (count : Nat) :
    Sound site start (s.read r file got count) := by
  have hreads := h.readers r
  rw [hr] at hreads
  obtain ⟨hsettled, hgot⟩ := hreads
  obtain ⟨rest, hrest⟩ := hgot
  have hdrop : (s.disk.content file).drop got.length = rest := by
    rw [← hrest, List.drop_left]
  simp only [State.read, hdrop]
  cases rest with
  | nil =>
    rw [List.append_nil] at hrest
    have hknown : Known site start s got := hrest ▸ hsettled.known
    exact h.setReader hknown
  | cons b rest =>
    refine h.setReader ⟨hsettled, ?_⟩
    rw [← hrest]
    exact List.prefix_append_right_inj got |>.mpr (List.take_prefix _ _)

theorem Sound.step (h : Sound site start s) {l : Step ω ρ} (hstep : s.step site l = some s') :
    Sound site start s' := by
  have holds : ∀ w p, s.writers w = p → Holds site s w p := fun w p hp => hp ▸ h.writers w
  cases l with
  | openTemp w =>
    simp only [State.step] at hstep
    split at hstep <;> cases hstep
    exact h.truncate w
  | openTempFails w =>
    simp only [State.step] at hstep
    split at hstep <;> cases hstep
    exact h.setWriter trivial
  | write w count =>
    simp only [State.step] at hstep
    split at hstep
    case h_1 file rest hw =>
      split at hstep <;> cases hstep
      exact h.append hw count
    case h_2 => cases hstep
  | writeFails w =>
    simp only [State.step] at hstep
    split at hstep <;> cases hstep
    exact h.unlink (fun w' hne ht => hne (site.temp_injective ht)) trivial
  | close w =>
    simp only [State.step] at hstep
    split at hstep <;> cases hstep
    case h_1 file hw =>
      obtain ⟨hentry, hbody⟩ := holds w _ hw
      rw [List.append_nil] at hbody
      exact h.setWriter ⟨file, hentry, hbody⟩
  | closeFails w =>
    simp only [State.step] at hstep
    split at hstep <;> cases hstep
    exact h.unlink (fun w' hne ht => hne (site.temp_injective ht)) trivial
  | rename w =>
    simp only [State.step] at hstep
    split at hstep <;> cases hstep
    case h_1 hw =>
      obtain ⟨file, hentry, hbody⟩ := holds w _ hw
      exact h.publish hentry hbody
  | renameFails w =>
    simp only [State.step] at hstep
    split at hstep <;> cases hstep
    case h_1 hw =>
      have hwritten := holds w _ hw
      exact h.setWriter (p := .removing) hwritten
  | remove w removed =>
    simp only [State.step] at hstep
    split at hstep <;> cases hstep
    case h_1 hw =>
      obtain ⟨file, hentry, hbody⟩ := holds w _ hw
      split
      · refine h.unlink (fun w' _ => site.temp_ne w') ⟨file, ?_, hbody⟩
        exact (Function.update_of_ne (site.temp_ne w) _ _).trans hentry
      · exact h.setWriter ⟨file, hentry, hbody⟩
  | renameAgain w =>
    simp only [State.step] at hstep
    split at hstep <;> cases hstep
    case h_1 hw =>
      obtain ⟨file, hentry, hbody⟩ := holds w _ hw
      exact h.publish hentry hbody
  | renameAgainFails w =>
    simp only [State.step] at hstep
    split at hstep <;> cases hstep
    exact h.setWriter trivial
  | openPath r =>
    simp only [State.step] at hstep
    split at hstep <;> cases hstep
    simp only [State.openPath]
    split
    case h_1 file hfile => exact h.setReader ⟨h.settled hfile, List.nil_prefix⟩
    case h_2 => exact h.setReader trivial
  | read r count =>
    simp only [State.step] at hstep
    split at hstep
    case h_1 file got hr =>
      split at hstep <;> cases hstep
      exact h.read hr count
    case h_2 => cases hstep

end Preservation

variable {site : Site ω ν β} {start : Disk ν β} {s s' : State ω ν β ρ}

/-- No file has two names. -/
structure Disk.Sound (d : Disk ν β) : Prop where
  injective : ∀ a b file, d.entry a = some file → d.entry b = some file → a = b
  below : ∀ name file, d.entry name = some file → file < d.fresh

def State.initial (d : Disk ν β) : State ω ν β ρ := { disk := d }

omit [DecidableEq ω] [DecidableEq ν] [DecidableEq ρ] in
theorem sound_start (h : start.Sound) :
    Sound site start (State.initial start : State ω ν β ρ) where
  injective := h.injective
  below := h.below
  path := fun file hfile => ⟨file, hfile, rfl⟩
  writers := fun _ => trivial
  readers := fun _ => trivial

theorem sound_run (h : start.Sound) {ls : List (Step ω ρ)}
    (hrun : Machine.run (State.step site) (State.initial start) ls = some s) : Sound site start s :=
  Machine.run_invariant _ (fun _ _ _ hs hstep => hs.step hstep) (sound_start h) hrun

/-- The name leads to a file, and no reader was told otherwise. -/
structure Present (site : Site ω ν β) (s : State ω ν β ρ) : Prop where
  path : s.disk.entry site.path ≠ none
  readers : ∀ r, s.readers r ≠ .missing

omit [DecidableEq ω] [DecidableEq ν] in
theorem Present.setReader (h : Present site s) {r : ρ} {p : Reader β} (hp : p ≠ .missing) :
    Present site (s.setReader r p) where
  path := h.path
  readers := by
    intro r'
    by_cases heq : r' = r
    · subst heq
      simpa [State.setReader] using hp
    · simpa [State.setReader, Function.update_of_ne heq] using h.readers r'

omit [DecidableEq ρ] in
theorem Present.unlinkTemp (h : Present site s) (w : ω) :
    Present site (s.discard site w) where
  path := by
    simpa [State.discard, Disk.unlink, Function.update_of_ne (site.temp_ne w).symm] using h.path
  readers := h.readers

omit [DecidableEq ρ] in
theorem Present.publish (h : Present site s) {w : ω} {file : Nat}
    (hentry : s.disk.entry (site.temp w) = some file) : Present site (s.publish site w) where
  path := by
    simp [State.publish, Disk.rename, Function.update_of_ne (site.temp_ne w).symm, hentry]
  readers := h.readers

/-- Only the removal after a failed rename takes the file from under the name. -/
theorem Present.step (hsound : Sound site start s) (h : Present site s) {l : Step ω ρ}
    (hl : ∀ w removed, l ≠ .remove w removed) (hstep : s.step site l = some s') :
    Present site s' := by
  have holds : ∀ w p, s.writers w = p → Holds site s w p := fun w p hp => hp ▸ hsound.writers w
  cases l with
  | openTemp w =>
    simp only [State.step] at hstep
    split at hstep <;> cases hstep
    refine ⟨?_, h.readers⟩
    simp only [Disk.truncate]
    split
    · exact h.path
    · simpa [Function.update_of_ne (site.temp_ne w).symm] using h.path
  | openTempFails w =>
    simp only [State.step] at hstep
    split at hstep <;> cases hstep
    exact ⟨h.path, h.readers⟩
  | write w count =>
    simp only [State.step] at hstep
    split at hstep
    · split at hstep <;> cases hstep
      exact ⟨h.path, h.readers⟩
    · cases hstep
  | writeFails w =>
    simp only [State.step] at hstep
    split at hstep <;> cases hstep
    exact h.unlinkTemp w
  | close w =>
    simp only [State.step] at hstep
    split at hstep <;> cases hstep
    exact ⟨h.path, h.readers⟩
  | closeFails w =>
    simp only [State.step] at hstep
    split at hstep <;> cases hstep
    exact h.unlinkTemp w
  | rename w =>
    simp only [State.step] at hstep
    split at hstep <;> cases hstep
    case h_1 hw =>
      obtain ⟨file, hentry, _⟩ := holds w _ hw
      exact h.publish hentry
  | renameFails w =>
    simp only [State.step] at hstep
    split at hstep <;> cases hstep
    exact ⟨h.path, h.readers⟩
  | remove w removed => exact absurd rfl (hl w removed)
  | renameAgain w =>
    simp only [State.step] at hstep
    split at hstep <;> cases hstep
    case h_1 hw =>
      obtain ⟨file, hentry, _⟩ := holds w _ hw
      exact h.publish hentry
  | renameAgainFails w =>
    simp only [State.step] at hstep
    split at hstep <;> cases hstep
    exact ⟨h.path, h.readers⟩
  | openPath r =>
    simp only [State.step] at hstep
    split at hstep <;> cases hstep
    simp only [State.openPath]
    split
    case h_1 => exact h.setReader fun hp => by cases hp
    case h_2 hnone => exact absurd hnone h.path
  | read r count =>
    simp only [State.step] at hstep
    split at hstep
    case h_1 =>
      split at hstep <;> cases hstep
      simp only [State.read]
      split <;> exact h.setReader fun hp => by cases hp
    case h_2 => cases hstep

theorem present_run (h : start.Sound) (hpath : start.entry site.path ≠ none)
    {ls : List (Step ω ρ)} (hls : ∀ l ∈ ls, ∀ w removed, l ≠ .remove w removed)
    (hrun : Machine.run (State.step site) (State.initial start) ls = some s) : Present site s := by
  have hstart : Sound site start (State.initial start : State ω ν β ρ) ∧
      Present site (State.initial start : State ω ν β ρ) :=
    ⟨sound_start h, hpath, fun _ hr => by cases hr⟩
  have halong : Machine.Along (State.step site) (fun _ l => ∀ w removed, l ≠ .remove w removed)
      (State.initial start : State ω ν β ρ) ls :=
    Machine.along_of_invariant (I := fun _ => True) _ (fun _ _ _ hl => hl)
      (fun _ _ _ _ _ _ => trivial) trivial hls
  have hboth : Sound site start s ∧ Present site s :=
    Machine.run_invariant_along (I := fun t => Sound site start t ∧ Present site t) _
      (fun _ _ _ hs hl hstep => ⟨hs.1.step hstep, hs.2.step hs.1 hl hstep⟩) hstart halong hrun
  exact hboth.2

end Runs

end Publication
