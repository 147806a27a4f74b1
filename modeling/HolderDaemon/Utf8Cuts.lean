import HolderDaemon.Bytes

/-!
Cuts of UTF-8 texts: where a text may be cut so that both parts are valid, and what can be taken
out of one.
-/

set_option autoImplicit false

namespace Bytes

/-- A byte that continues a character. -/
def isContinuation (b : UInt8) : Bool := 0x80 ≤ b.toNat && b.toNat ≤ 0xBF

/-- A place that is not inside a character. -/
def Boundary (s : Bytes) (k : Nat) : Prop := ∀ b ∈ s[k]?, isContinuation b = false

instance (s : Bytes) (k : Nat) : Decidable (Boundary s k) :=
  inferInstanceAs (Decidable (∀ b ∈ s[k]?, isContinuation b = false))

theorem boundary_of_length_le {s : Bytes} {k : Nat} (h : s.length ≤ k) : Boundary s k := by
  intro b hb
  rw [List.getElem?_eq_none h] at hb
  cases hb

theorem Utf8.continuation_of_next {q r : Utf8} {b : UInt8} (h : q.next b = some r) :
    isContinuation b = false ↔ q = .accept := by
  have hlow : ∀ lo hi next, 0x80 ≤ lo → hi ≤ 0xBF → within b lo hi next = some r →
      isContinuation b = true := by
    intro lo hi next hlo hhi hw
    unfold within at hw
    split at hw
    · simp only [isContinuation, Bool.and_eq_true, decide_eq_true_eq]
      omega
    · cases hw
  cases q with
  | accept =>
    simp only [iff_true]
    by_contra hb
    rw [Bool.not_eq_false, isContinuation, Bool.and_eq_true, decide_eq_true_eq,
      decide_eq_true_eq] at hb
    rw [Utf8.next, Utf8.first, if_neg (by omega), if_pos (by omega)] at h
    cases h
  | _ => simp [hlow _ _ _ (by decide) (by decide) h]

/-- A valid text does not begin inside a character. -/
theorem isContinuation_head {b : UInt8} {t : Bytes} (h : validUtf8 (b :: t) = true) :
    isContinuation b = false := by
  rw [validUtf8, decide_eq_true_eq] at h
  obtain ⟨r, hr, -⟩ := Option.bind_eq_some_iff.mp h
  exact (Utf8.continuation_of_next hr).mpr rfl

/-- The decoder at a place of a valid text. -/
theorem Utf8.scan_take {s : Bytes} (h : validUtf8 s = true) (k : Nat) :
    ∃ q, Utf8.scan .accept (s.take k) = some q ∧ q.scan (s.drop k) = some .accept ∧
      (q = .accept ↔ Boundary s k) := by
  rw [validUtf8, decide_eq_true_eq, ← List.take_append_drop k s, Utf8.scan_append] at h
  obtain ⟨q, hq, hrest⟩ := Option.bind_eq_some_iff.mp h
  refine ⟨q, hq, hrest, ?_⟩
  cases hdrop : s.drop k with
  | nil =>
    rw [hdrop] at hrest
    cases hrest
    simp [boundary_of_length_le (List.drop_eq_nil_iff.mp hdrop)]
  | cons b t =>
    rw [hdrop] at hrest
    obtain ⟨r, hr, -⟩ := Option.bind_eq_some_iff.mp hrest
    have hb : s[k]? = some b := by
      rw [← List.head?_drop, hdrop, List.head?_cons]
    rw [Boundary, hb, ← continuation_of_next hr]
    simp

theorem validUtf8_take_iff {s : Bytes} (h : validUtf8 s = true) (k : Nat) :
    validUtf8 (s.take k) = true ↔ Boundary s k := by
  obtain ⟨q, hq, -, hboundary⟩ := Utf8.scan_take h k
  rw [← hboundary, validUtf8, decide_eq_true_eq, hq, Option.some_inj]

theorem validUtf8_append_right_iff {s : Bytes} (hs : validUtf8 s = true) (t : Bytes) :
    validUtf8 (s ++ t) = true ↔ validUtf8 t = true := by
  simp only [validUtf8, decide_eq_true_eq] at hs ⊢
  rw [Utf8.scan_append, hs, Option.bind_some]

/-- What follows the end of a valid text makes no difference to its cut. -/
theorem validUtf8_drop_append_iff {s : Bytes} (h : validUtf8 s = true) (k : Nat) (t : Bytes) :
    validUtf8 (s.drop k ++ t) = true ↔ Boundary s k ∧ validUtf8 t = true := by
  obtain ⟨q, -, hrest, hboundary⟩ := Utf8.scan_take h k
  by_cases hk : Boundary s k
  · rw [hboundary.mpr hk] at hrest
    rw [validUtf8_append_right_iff (by rw [validUtf8, decide_eq_true_eq, hrest])]
    simp [hk]
  · refine iff_of_false (fun hvalid => hk ?_) fun hboth => hk hboth.1
    intro b hb
    obtain ⟨hlt, rfl⟩ := List.getElem?_eq_some_iff.mp hb
    rw [List.drop_eq_getElem_cons hlt, List.cons_append] at hvalid
    exact isContinuation_head hvalid

theorem validUtf8_drop_iff {s : Bytes} (h : validUtf8 s = true) (k : Nat) :
    validUtf8 (s.drop k) = true ↔ Boundary s k := by
  have happend := validUtf8_drop_append_iff h k []
  rw [List.append_nil] at happend
  exact happend.trans (and_iff_left rfl)

/-! Bytes below 128 that are taken out or replaced -/

/-- The second text is the first one without some bytes below 128, and with such bytes in place of
others. -/
inductive Thinned : Bytes → Bytes → Prop where
  | nil : Thinned [] []
  | keep (b : UInt8) {s t : Bytes} (h : Thinned s t) : Thinned (b :: s) (b :: t)
  | skip {b : UInt8} {s t : Bytes} (hb : b.toNat < 0x80) (h : Thinned s t) : Thinned (b :: s) t
  | swap {b c : UInt8} {s t : Bytes} (hb : b.toNat < 0x80) (hc : c.toNat < 0x80)
      (h : Thinned s t) : Thinned (b :: s) (c :: t)

theorem Thinned.refl (s : Bytes) : Thinned s s := by
  induction s with
  | nil => exact .nil
  | cons b s ih => exact .keep b ih

theorem Thinned.trans {s t u : Bytes} (h : Thinned s t) (hu : Thinned t u) : Thinned s u := by
  induction h generalizing u with
  | nil => exact hu
  | keep b h ih =>
    cases hu with
    | keep _ hu => exact .keep b (ih hu)
    | skip hb hu => exact .skip hb (ih hu)
    | swap hb hc hu => exact .swap hb hc (ih hu)
  | skip hb h ih => exact .skip hb (ih hu)
  | swap hb hc h ih =>
    cases hu with
    | keep _ hu => exact .swap hb hc (ih hu)
    | skip _ hu => exact .skip hb (ih hu)
    | swap _ hc hu => exact .swap hb hc (ih hu)

theorem Thinned.append {s t u v : Bytes} (h : Thinned s t) (hu : Thinned u v) :
    Thinned (s ++ u) (t ++ v) := by
  induction h with
  | nil => exact hu
  | keep b h ih => exact .keep b ih
  | skip hb h ih => exact .skip hb ih
  | swap hb hc h ih => exact .swap hb hc ih

theorem Thinned.reverse {s t : Bytes} (h : Thinned s t) : Thinned s.reverse t.reverse := by
  induction h with
  | nil => exact .nil
  | keep b h ih =>
    rw [List.reverse_cons, List.reverse_cons]
    exact ih.append (.refl [b])
  | skip hb h ih =>
    have happend := ih.append (.skip hb .nil)
    rwa [List.append_nil, ← List.reverse_cons] at happend
  | swap hb hc h ih =>
    rw [List.reverse_cons, List.reverse_cons]
    exact ih.append (.swap hb hc .nil)

theorem Thinned.length_le {s t : Bytes} (h : Thinned s t) : t.length ≤ s.length := by
  induction h with
  | nil => exact Nat.le_refl _
  | keep b h ih => exact Nat.succ_le_succ ih
  | skip hb h ih => exact Nat.le_succ_of_le ih
  | swap hb hc h ih => exact Nat.succ_le_succ ih

theorem thinned_filter {p : UInt8 → Bool} (hp : ∀ b, p b = false → b.toNat < 0x80) (s : Bytes) :
    Thinned s (s.filter p) := by
  induction s with
  | nil => exact .nil
  | cons b s ih =>
    cases hb : p b with
    | true =>
      rw [List.filter_cons_of_pos hb]
      exact .keep b ih
    | false =>
      rw [List.filter_cons_of_neg (by simp [hb])]
      exact .skip (hp b hb) ih

theorem thinned_dropWhile {p : UInt8 → Bool} (hp : ∀ b, p b = true → b.toNat < 0x80) (s : Bytes) :
    Thinned s (s.dropWhile p) := by
  induction s with
  | nil => exact .nil
  | cons b s ih =>
    rw [List.dropWhile_cons]
    split
    · exact .skip (hp b ‹_›) ih
    · exact .refl _

theorem thinned_dropLast {s : Bytes} {b : UInt8} (hb : b.toNat < 0x80)
    (h : s.getLast? = some b) : Thinned s s.dropLast := by
  rw [← List.dropLast_append_getLast? b h]
  conv_rhs => rw [List.dropLast_concat, ← List.append_nil s.dropLast]
  exact (Thinned.refl _).append (.skip hb .nil)

theorem Utf8.next_of_lt {b : UInt8} (hb : b.toNat < 0x80) :
    Utf8.accept.next b = some .accept := by
  rw [Utf8.next, Utf8.first, if_pos hb]

/-- The decoder ends as it does without them. -/
theorem Thinned.scan {s t : Bytes} (h : Thinned s t) {q r : Utf8} (hs : q.scan s = some r) :
    q.scan t = some r := by
  induction h generalizing q with
  | nil => exact hs
  | keep b h ih =>
    obtain ⟨next, hnext, hrest⟩ := Option.bind_eq_some_iff.mp hs
    rw [Utf8.scan, hnext, Option.bind_some]
    exact ih hrest
  | skip hb h ih =>
    obtain ⟨next, hnext, hrest⟩ := Option.bind_eq_some_iff.mp hs
    obtain ⟨rfl, rfl⟩ := Utf8.accept_of_next hb hnext
    exact ih hrest
  | swap hb hc h ih =>
    obtain ⟨next, hnext, hrest⟩ := Option.bind_eq_some_iff.mp hs
    obtain ⟨rfl, rfl⟩ := Utf8.accept_of_next hb hnext
    rw [Utf8.scan, Utf8.next_of_lt hc, Option.bind_some]
    exact ih hrest

theorem Thinned.validUtf8 {s t : Bytes} (h : Thinned s t) (hs : validUtf8 s = true) :
    validUtf8 t = true := by
  rw [Bytes.validUtf8, decide_eq_true_eq] at hs ⊢
  exact h.scan hs

/-- A text that is cut short stays so. -/
theorem Thinned.validUtf8_take_iff {s t : Bytes} (h : Bytes.validUtf8 s = true) {k : Nat}
    (ht : Thinned (s.take k) t) : Bytes.validUtf8 t = true ↔ Boundary s k := by
  obtain ⟨q, hq, -, hboundary⟩ := Utf8.scan_take h k
  rw [← hboundary, Bytes.validUtf8, decide_eq_true_eq, ht.scan hq, Option.some_inj]

/-! Pieces between bytes below 128 -/

theorem Utf8.scan_splitOnP {p : UInt8 → Bool} (hp : ∀ b, p b = true → b.toNat < 0x80) {q : Utf8}
    {s : Bytes} (h : q.scan s = some .accept) :
    ∃ head rest, s.splitOnP p = head :: rest ∧ q.scan head = some .accept ∧
      ∀ piece ∈ rest, validUtf8 piece = true := by
  induction s generalizing q with
  | nil => exact ⟨[], [], rfl, h, fun _ hpiece => absurd hpiece List.not_mem_nil⟩
  | cons b s ih =>
    obtain ⟨next, hnext, hrest⟩ := Option.bind_eq_some_iff.mp h
    obtain ⟨head, rest, hsplit, hhead, hpieces⟩ := ih hrest
    rw [List.splitOnP_cons_eq_if_modifyHead, hsplit]
    split
    · rename_i hb
      obtain ⟨rfl, rfl⟩ := Utf8.accept_of_next (hp b hb) hnext
      refine ⟨[], head :: rest, rfl, rfl, fun piece hpiece => ?_⟩
      rcases List.mem_cons.mp hpiece with rfl | hpiece
      · rw [validUtf8, decide_eq_true_eq, hhead]
      · exact hpieces piece hpiece
    · refine ⟨b :: head, rest, rfl, ?_, hpieces⟩
      rw [Utf8.scan, hnext, Option.bind_some, hhead]

theorem validUtf8_of_mem_splitOnP {p : UInt8 → Bool} (hp : ∀ b, p b = true → b.toNat < 0x80)
    {s : Bytes} (h : validUtf8 s = true) {piece : Bytes} (hpiece : piece ∈ s.splitOnP p) :
    validUtf8 piece = true := by
  rw [validUtf8, decide_eq_true_eq] at h
  obtain ⟨head, rest, hsplit, hhead, hpieces⟩ := Utf8.scan_splitOnP hp h
  rw [hsplit] at hpiece
  rcases List.mem_cons.mp hpiece with rfl | hpiece
  · rw [validUtf8, decide_eq_true_eq, hhead]
  · exact hpieces piece hpiece

theorem validUtf8_takeWhile {p : UInt8 → Bool} (hp : ∀ b, p b = false → b.toNat < 0x80)
    {s : Bytes} (h : validUtf8 s = true) : validUtf8 (s.takeWhile p) = true := by
  cases hrest : s.dropWhile p with
  | nil =>
    have hwhole := List.takeWhile_append_dropWhile (p := p) (l := s)
    rw [hrest, List.append_nil] at hwhole
    rwa [hwhole]
  | cons b rest =>
    have hb : p b = false := by
      have hne : s.dropWhile p ≠ [] := by
        rw [hrest]
        exact List.cons_ne_nil b rest
      have hhead := List.head_dropWhile_not p hne
      simpa [hrest] using hhead
    have hwhole := List.takeWhile_append_dropWhile (p := p) (l := s)
    rw [hrest] at hwhole
    rw [← hwhole, validUtf8, decide_eq_true_eq, Utf8.scan_append] at h
    obtain ⟨q, hq, hscan⟩ := Option.bind_eq_some_iff.mp h
    obtain ⟨next, hnext, -⟩ := Option.bind_eq_some_iff.mp hscan
    obtain ⟨rfl, -⟩ := Utf8.accept_of_next (hp b hb) hnext
    rw [validUtf8, decide_eq_true_eq, hq]

end Bytes
