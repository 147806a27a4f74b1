import Mathlib

/-!
Lists of rows with a key of their own: reading a row, writing it over the one with its key,
and dropping the rows with a key.
-/

set_option autoImplicit false

namespace Rows

universe u v w

section Keyed
variable {α : Type u} {κ : Type v} [DecidableEq κ] (key : α → κ)

def get (k : κ) (rows : List α) : Option α := rows.find? fun a => key a = k

/-- Write over the first row with the same key, or at the end where there is none. -/
def put (a : α) : List α → List α
  | [] => [a]
  | b :: rows => if key b = key a then a :: rows else b :: put a rows

def drop (k : κ) (rows : List α) : List α := rows.filter fun a => key a ≠ k

@[simp] theorem get_nil (k : κ) : get key k [] = none := rfl

theorem get_cons (k : κ) (a : α) (rows : List α) :
    get key k (a :: rows) = if key a = k then some a else get key k rows := by
  rw [get, List.find?_cons]
  by_cases h : key a = k <;> simp [h, get]

theorem key_of_get {k : κ} {a : α} {rows : List α} (h : get key k rows = some a) : key a = k := by
  simpa using List.find?_some h

theorem mem_of_get {k : κ} {a : α} {rows : List α} (h : get key k rows = some a) : a ∈ rows :=
  List.mem_of_find?_eq_some h

theorem get_isSome_of_mem {a : α} {rows : List α} (h : a ∈ rows) :
    (get key (key a) rows).isSome = true := by
  rw [get, List.find?_isSome]
  exact ⟨a, h, by simp⟩

theorem get_put (k : κ) (a : α) (rows : List α) :
    get key k (put key a rows) = if key a = k then some a else get key k rows := by
  induction rows with
  | nil => simp [put, get_cons]
  | cons b rows ih =>
    rw [put]
    split
    · rename_i hb
      rw [get_cons, get_cons, hb]
      split <;> rfl
    · rename_i hb
      rw [get_cons, get_cons, ih]
      by_cases hk : key b = k
      · rw [if_pos hk, if_pos hk, if_neg (fun h => hb (hk.trans h.symm))]
      · rw [if_neg hk, if_neg hk]

theorem put_of_get_none {a : α} {rows : List α} (h : get key (key a) rows = none) :
    put key a rows = rows ++ [a] := by
  induction rows with
  | nil => rfl
  | cons b rows ih =>
    rw [get_cons] at h
    split at h
    · cases h
    · rename_i hb
      rw [put, if_neg hb, ih h, List.cons_append]

theorem get_append_of_none {k : κ} {rows : List α} (h : get key k rows = none) (more : List α) :
    get key k (rows ++ more) = get key k more := by
  rw [get, List.find?_append, show rows.find? (fun a => key a = k) = none from h]
  rfl

theorem put_append_of_none {a : α} {rows : List α} (h : get key (key a) rows = none)
    (more : List α) : put key a (rows ++ more) = rows ++ put key a more := by
  induction rows with
  | nil => rfl
  | cons b rows ih =>
    rw [get_cons] at h
    split at h
    · cases h
    · rename_i hb
      rw [List.cons_append, put, if_neg hb, ih h, List.cons_append]

theorem get_none_of_nodup {a : α} {rows more : List α}
    (h : ((rows ++ a :: more).map key).Nodup) : get key (key a) rows = none := by
  rw [get, List.find?_eq_none]
  intro b hb hk
  rw [List.map_append, List.nodup_append] at h
  exact h.2.2 (key b) (List.mem_map_of_mem hb) (key a) (by simp) (by simpa using hk)

theorem get_of_mem {a : α} {rows : List α} (h : (rows.map key).Nodup) (hm : a ∈ rows) :
    get key (key a) rows = some a := by
  obtain ⟨b, hb⟩ := Option.isSome_iff_exists.mp (get_isSome_of_mem key hm)
  rw [hb, List.inj_on_of_nodup_map h (mem_of_get key hb) hm (key_of_get key hb)]

theorem get_drop (k k' : κ) (rows : List α) :
    get key k' (drop key k rows) = if k' = k then none else get key k' rows := by
  induction rows with
  | nil => simp [drop]
  | cons b rows ih =>
    by_cases hb : key b = k
    · have hdrop : drop key k (b :: rows) = drop key k rows := by simp [drop, hb]
      rw [hdrop, ih, get_cons]
      split
      · rfl
      · rename_i hne
        rw [if_neg (fun h => hne (h.symm.trans hb))]
    · have hdrop : drop key k (b :: rows) = b :: drop key k rows := by simp [drop, hb]
      rw [hdrop, get_cons, get_cons, ih]
      by_cases hk : key b = k'
      · rw [if_pos hk, if_pos hk, if_neg (fun h => hb (hk.trans h))]
      · rw [if_neg hk, if_neg hk]

theorem drop_of_get_none {k : κ} {rows : List α} (h : get key k rows = none) :
    drop key k rows = rows := by
  rw [get, List.find?_eq_none] at h
  exact List.filter_eq_self.mpr fun a ha => by simpa using h a ha

theorem mem_put {a b : α} {rows : List α} (h : b ∈ put key a rows) : b = a ∨ b ∈ rows := by
  induction rows with
  | nil => simpa [put] using h
  | cons c rows ih =>
    rw [put] at h
    split at h
    · rcases List.mem_cons.mp h with h | h
      · exact .inl h
      · exact .inr (List.mem_cons_of_mem c h)
    · rcases List.mem_cons.mp h with h | h
      · exact .inr (h ▸ List.mem_cons_self)
      · exact (ih h).imp_right (List.mem_cons_of_mem c)

theorem nodup_put {a : α} {rows : List α} (h : (rows.map key).Nodup) :
    ((put key a rows).map key).Nodup := by
  induction rows with
  | nil => simp [put]
  | cons b rows ih =>
    obtain ⟨hb, hrows⟩ := List.nodup_cons.mp h
    rw [put]
    split
    · rename_i hk
      simpa [← hk] using h
    · rename_i hk
      refine List.nodup_cons.mpr ⟨fun hmem => ?_, ih hrows⟩
      obtain ⟨c, hc, hck⟩ := List.mem_map.mp hmem
      rcases mem_put key hc with rfl | hc
      · exact hk hck.symm
      · exact hb (List.mem_map.mpr ⟨c, hc, hck⟩)

theorem nodup_drop {k : κ} {rows : List α} (h : (rows.map key).Nodup) :
    ((drop key k rows).map key).Nodup :=
  h.sublist (List.filter_sublist.map key)

/-- A map made of the rows that give a value, looked up at a key. -/
theorem lookup_filterMap {β : Type w} [BEq κ] [LawfulBEq κ] (f : α → Option β) {rows : List α}
    (h : (rows.map key).Nodup) (k : κ) :
    (rows.filterMap fun a => (f a).map fun b => (key a, b)).lookup k =
      (get key k rows).bind f := by
  induction rows with
  | nil => rfl
  | cons a rows ih =>
    obtain ⟨ha, hrows⟩ := List.nodup_cons.mp h
    rw [List.filterMap_cons, get_cons]
    by_cases hk : key a = k
    · rw [if_pos hk, Option.bind_some]
      cases hf : f a with
      | some b => simp [hk]
      | none =>
        have hget : get key k rows = none := by
          rw [get, List.find?_eq_none]
          intro c hc hck
          exact ha (List.mem_map.mpr ⟨c, hc, by simpa [hk] using hck⟩)
        simp [ih hrows, hget]
    · rw [if_neg hk, ← ih hrows]
      cases hf : f a with
      | some b =>
        have hne : ¬ (k == key a) = true := by simpa using Ne.symm hk
        simp [List.lookup_cons, hne]
      | none => rfl

/-- A directory's way of writing: no other row with the key is left. -/
def write (a : α) (rows : List α) : List α := drop key (key a) rows ++ [a]

theorem mem_drop {k : κ} {b : α} {rows : List α} : b ∈ drop key k rows ↔ b ∈ rows ∧ key b ≠ k := by
  simp [drop]

theorem mem_write {a b : α} {rows : List α} :
    b ∈ write key a rows ↔ b = a ∨ b ∈ rows ∧ key b ≠ key a := by
  rw [write, List.mem_append, mem_drop, List.mem_singleton, or_comm]

theorem get_map {f : α → α} (hf : ∀ a, key (f a) = key a) (k : κ) (rows : List α) :
    get key k (rows.map f) = (get key k rows).map f := by
  induction rows with
  | nil => rfl
  | cons a rows ih =>
    rw [List.map_cons, get_cons, get_cons, hf, ih]
    split <;> rfl

theorem put_eq_map {k : κ} {a : α} {rows : List α} (h : (rows.map key).Nodup)
    (hget : get key k rows = some a) {f : α → α} (hf : key (f a) = k) :
    put key (f a) rows = rows.map fun b => if key b = k then f b else b := by
  induction rows with
  | nil => cases hget
  | cons b rows ih =>
    rw [List.map_cons, List.nodup_cons] at h
    rw [get_cons] at hget
    rw [put, List.map_cons, hf]
    by_cases hb : key b = k
    · rw [if_pos hb] at hget
      cases hget
      rw [if_pos hb, if_pos hb]
      have hrest : (rows.map fun b => if key b = k then f b else b) = rows := by
        conv_rhs => rw [← List.map_id rows]
        refine List.map_congr_left fun c hc => ?_
        rw [if_neg, id]
        rintro hk
        exact h.1 (List.mem_map.mpr ⟨c, hc, hk.trans hb.symm⟩)
      rw [hrest]
    · rw [if_neg hb] at hget
      rw [if_neg hb, if_neg hb, ih h.2 hget]

/-- What is found under a key does not depend on the order of the rows. -/
theorem get_eq_some_iff {k : κ} {a : α} {rows : List α} (h : (rows.map key).Nodup) :
    get key k rows = some a ↔ a ∈ rows ∧ key a = k := by
  constructor
  · exact fun hget => ⟨mem_of_get key hget, key_of_get key hget⟩
  · rintro ⟨hmem, rfl⟩
    exact get_of_mem key h hmem

theorem get_perm {rows more : List α} (hperm : rows.Perm more) (h : (rows.map key).Nodup) (k : κ) :
    get key k rows = get key k more := by
  have hmore : (more.map key).Nodup := (hperm.map key).nodup_iff.mp h
  ext a
  rw [get_eq_some_iff key h, get_eq_some_iff key hmore, hperm.mem_iff]

theorem get_filter (p : α → Bool) {rows : List α} (h : (rows.map key).Nodup) (k : κ) :
    get key k (rows.filter p) = (get key k rows).filter p := by
  induction rows with
  | nil => rfl
  | cons a rows ih =>
    rw [List.map_cons, List.nodup_cons] at h
    rw [get_cons, List.filter_cons]
    by_cases hk : key a = k
    · rw [if_pos hk, Option.filter_some]
      split
      · rw [get_cons, if_pos hk]
      · rw [ih h.2]
        cases hget : get key k rows with
        | none => rfl
        | some b =>
          refine absurd (List.mem_map.mpr ⟨b, mem_of_get key hget, ?_⟩) h.1
          rw [key_of_get key hget, hk]
    · rw [if_neg hk, ← ih h.2]
      split
      · rw [get_cons, if_neg hk]
      · rfl

/-- Of the rows that are written one after the other, the last one with a key is found. -/
theorem get_foldl_put (entries rows : List α) (k : κ) :
    get key k (entries.foldl (fun rows a => put key a rows) rows) =
      (get key k entries.reverse).or (get key k rows) := by
  induction entries generalizing rows with
  | nil => rfl
  | cons a entries ih =>
    have hlast : get key k (entries.reverse ++ [a]) =
        (get key k entries.reverse).or (if key a = k then some a else none) := by
      rw [get, List.find?_append]
      congr 1
      exact get_cons key k a []
    rw [List.foldl_cons, ih, get_put, List.reverse_cons, hlast, Option.or_assoc]
    congr 1
    split <;> rfl

/-- Written over the rows that are `kept`, the entries make the rows that were there. -/
def Restates (kept : α → Bool) (entries rows : List α) : Prop :=
  ∀ k, match get key k entries.reverse with
    | some a => get key k rows = some a
    | none => ∀ b, get key k rows = some b → kept b = true

theorem restates_iff {kept : α → Bool} {entries rows : List α} (h : (rows.map key).Nodup) :
    Restates key kept entries rows ↔ ∀ k,
      get key k (entries.foldl (fun rows a => put key a rows) (rows.filter kept)) =
        get key k rows := by
  refine forall_congr' fun k => ?_
  rw [get_foldl_put, get_filter key kept h]
  cases get key k entries.reverse with
  | some a =>
    rw [Option.some_or]
    exact eq_comm
  | none =>
    rw [Option.none_or]
    cases get key k rows with
    | none => simp
    | some b => simp [Option.filter_some]

/-- A row whose key is there already is ignored. -/
def ignore (rows : List α) (a : α) : List α :=
  if (get key (key a) rows).isSome then rows else rows ++ [a]

theorem mem_ignore_of_mem {rows : List α} {a b : α} (h : b ∈ rows) : b ∈ ignore key rows a := by
  unfold ignore
  split
  · exact h
  · exact List.mem_append_left _ h

theorem mem_ignore {rows : List α} {a b : α} (h : b ∈ ignore key rows a) : b ∈ rows ∨ b = a := by
  unfold ignore at h
  split at h
  · exact .inl h
  · exact (List.mem_append.mp h).imp_right List.mem_singleton.mp

theorem get_ignore_isSome (rows : List α) (a : α) :
    (get key (key a) (ignore key rows a)).isSome = true := by
  unfold ignore
  split
  · assumption
  · exact get_isSome_of_mem key (by simp)

theorem nodup_ignore {rows : List α} (h : (rows.map key).Nodup) (a : α) :
    ((ignore key rows a).map key).Nodup := by
  unfold ignore
  split
  · exact h
  · rename_i hnone
    rw [Option.not_isSome_iff_eq_none] at hnone
    rw [← put_of_get_none key hnone]
    exact nodup_put key h

theorem mem_foldl_ignore_of_mem {entries rows : List α} {b : α} (h : b ∈ rows) :
    b ∈ entries.foldl (ignore key) rows := by
  induction entries generalizing rows with
  | nil => exact h
  | cons a entries ih => exact ih (mem_ignore_of_mem key h)

theorem mem_foldl_ignore {entries rows : List α} {b : α}
    (h : b ∈ entries.foldl (ignore key) rows) : b ∈ rows ∨ b ∈ entries := by
  induction entries generalizing rows with
  | nil => exact .inl h
  | cons a entries ih =>
    rcases ih h with h | h
    · rcases mem_ignore key h with h | rfl
      · exact .inl h
      · exact .inr List.mem_cons_self
    · exact .inr (List.mem_cons_of_mem a h)

theorem nodup_foldl_ignore {entries rows : List α} (h : (rows.map key).Nodup) :
    ((entries.foldl (ignore key) rows).map key).Nodup := by
  induction entries generalizing rows with
  | nil => exact h
  | cons a entries ih => exact ih (nodup_ignore key h a)

/-- Among rows that their keys tell apart, every entry is there in the end. -/
theorem entry_mem_foldl_ignore {entries rows all : List α} (hall : (all.map key).Nodup)
    (hrows : ∀ b ∈ rows, b ∈ all) (hentries : ∀ b ∈ entries, b ∈ all) {a : α} (ha : a ∈ entries) :
    a ∈ entries.foldl (ignore key) rows := by
  induction entries generalizing rows with
  | nil => cases ha
  | cons b entries ih =>
    have hb := hentries b List.mem_cons_self
    have hnext : ∀ c ∈ ignore key rows b, c ∈ all := by
      intro c hc
      rcases mem_ignore key hc with hc | rfl
      · exact hrows c hc
      · exact hb
    rw [List.foldl_cons]
    rcases List.mem_cons.mp ha with rfl | ha
    · obtain ⟨c, hc⟩ := Option.isSome_iff_exists.mp (get_ignore_isSome key rows a)
      have hmem := mem_of_get key hc
      have heq := List.inj_on_of_nodup_map hall (hnext c hmem) hb (key_of_get key hc)
      exact mem_foldl_ignore_of_mem key (heq ▸ hmem)
    · exact ih hnext (fun c hc => hentries c (List.mem_cons_of_mem b hc)) ha

theorem foldl_ignore_self {entries rows : List α} (h : ∀ a ∈ entries, a ∈ rows) :
    entries.foldl (ignore key) rows = rows := by
  induction entries with
  | nil => rfl
  | cons a entries ih =>
    rw [List.foldl_cons, ignore, if_pos (get_isSome_of_mem key (h a List.mem_cons_self))]
    exact ih fun b hb => h b (List.mem_cons_of_mem a hb)

/-- Listed rows of one kind are dropped one after the other. -/
def dropEach (p : α → Bool) (listed rows : List α) : List α :=
  listed.foldl (fun rows a => if p a then drop key (key a) rows else rows) rows

theorem dropEach_eq_filter (p : α → Bool) (listed rows : List α) :
    dropEach key p listed rows =
      rows.filter fun a => listed.all fun b => !p b || decide (key a ≠ key b) := by
  induction listed generalizing rows with
  | nil => simp [dropEach]
  | cons b listed ih =>
    have hstep : dropEach key p (b :: listed) rows =
        dropEach key p listed (if p b then drop key (key b) rows else rows) := rfl
    rw [hstep, ih]
    cases hp : p b with
    | false => simp [hp]
    | true =>
      simp only [if_true, drop, List.filter_filter]
      exact List.filter_congr fun a _ => by simp [hp, Bool.and_comm]

theorem dropEach_self (p : α → Bool) {rows : List α} (h : (rows.map key).Nodup) :
    dropEach key p rows rows = rows.filter fun a => !p a := by
  rw [dropEach_eq_filter]
  refine List.filter_congr fun a ha => ?_
  rw [Bool.eq_iff_iff, List.all_eq_true]
  constructor
  · intro hall
    simpa using hall a ha
  · intro hpa b hb
    by_cases hkey : key a = key b
    · rw [← List.inj_on_of_nodup_map h ha hb hkey, hpa, Bool.true_or]
    · simp [hkey]

/-- New rows are put one after the other. -/
theorem foldl_put {rows more : List α} (h : ((rows ++ more).map key).Nodup) :
    more.foldl (fun rows a => put key a rows) rows = rows ++ more := by
  induction more generalizing rows with
  | nil => simp
  | cons a more ih =>
    rw [List.foldl_cons, put_of_get_none key (get_none_of_nodup key h), ih (by simpa using h)]
    simp

end Keyed

end Rows
