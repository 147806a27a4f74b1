import HolderDaemon.JournalHistory

/-!
What `valid_cursor` accepts, spelt out group by group, and what the cursors that a
journal hands out say when they are parsed.
-/

set_option autoImplicit false

open Bytes

namespace HolderDaemon

def lowerHex (b : UInt8) : Bool := isDigit b || (97 ≤ b.toNat && b.toNat ≤ 102)

/-- Groups of 8, 4, 4, 4 and 12 lowercase hexadecimal digits, joined by hyphens. -/
def LowercaseUuid (s : Bytes) : Prop :=
  ∃ a b c d e, s = a ++ 45 :: (b ++ 45 :: (c ++ 45 :: (d ++ 45 :: e))) ∧
    a.length = 8 ∧ b.length = 4 ∧ c.length = 4 ∧ d.length = 4 ∧ e.length = 12 ∧
    ∀ ch ∈ a ++ b ++ c ++ d ++ e, lowerHex ch = true

/-- A UUID, one colon and a decimal number below `2 ^ 64`, with nothing after it. -/
def CursorGrammar (s uuid : Bytes) (n : Nat) : Prop :=
  ∃ digits, s = uuid ++ ascii ":" ++ digits ∧ LowercaseUuid uuid ∧ digits ≠ [] ∧
    digits.all isDigit = true ∧ decimalValue digits = n ∧ n < 2 ^ 64

/-! The positional test -/

/-- Between two hyphens the positions do not matter. -/
theorem all_epochChar_group (l : Bytes) (k : Nat)
    (h : ∀ i, k ≤ i → i < k + l.length → ¬ (i = 8 ∨ i = 13 ∨ i = 18 ∨ i = 23)) :
    ((l.zipIdx k).all fun p => epochChar p.1 p.2) = l.all lowerHex := by
  induction l generalizing k with
  | nil => rfl
  | cons b l ih =>
    have hk := h k (Nat.le_refl k) (by simp)
    have hrest := ih (k + 1) (fun i hlo hhi => h i (by omega) (by simp; omega))
    rw [List.zipIdx_cons, List.all_cons, List.all_cons, hrest]
    simp [epochChar, hk, lowerHex]

theorem epochText_groups {a b c d e : Bytes} (x y z w : UInt8) (ha : a.length = 8)
    (hb : b.length = 4) (hc : c.length = 4) (hd : d.length = 4) (he : e.length = 12) :
    epochText (a ++ x :: (b ++ y :: (c ++ z :: (d ++ w :: e)))) = true ↔
      (x = 45 ∧ y = 45 ∧ z = 45 ∧ w = 45) ∧
        ∀ ch ∈ a ++ b ++ c ++ d ++ e, lowerHex ch = true := by
  have h8 : ∀ ch, epochChar ch 8 = (ch == 45) := fun _ => rfl
  have h13 : ∀ ch, epochChar ch 13 = (ch == 45) := fun _ => rfl
  have h18 : ∀ ch, epochChar ch 18 = (ch == 45) := fun _ => rfl
  have h23 : ∀ ch, epochChar ch 23 = (ch == 45) := fun _ => rfl
  simp only [epochText, List.zipIdx_append, List.zipIdx_cons, List.all_append, List.all_cons,
    ha, hb, hc, hd, Nat.zero_add, Nat.reduceAdd]
  rw [all_epochChar_group a 0 (by omega), all_epochChar_group b 9 (by omega),
    all_epochChar_group c 14 (by omega), all_epochChar_group d 19 (by omega),
    all_epochChar_group e 24 (by omega), h8, h13, h18, h23]
  simp only [Bool.and_eq_true, beq_iff_eq, List.all_eq_true, List.mem_append]
  grind

theorem exists_group {l : Bytes} {m n : Nat} (h : l.length = m + 1 + n) :
    ∃ a x r, l = a ++ x :: r ∧ a.length = m ∧ r.length = n := by
  have hm : m < l.length := by omega
  refine ⟨l.take m, l[m], l.drop (m + 1), ?_, ?_, ?_⟩
  · rw [← List.drop_eq_getElem_cons hm, List.take_append_drop]
  · rw [List.length_take]
    omega
  · rw [List.length_drop]
    omega

theorem lowercaseUuid_iff {s : Bytes} :
    LowercaseUuid s ↔ s.length = 36 ∧ epochText s = true := by
  constructor
  · rintro ⟨a, b, c, d, e, rfl, ha, hb, hc, hd, he, hex⟩
    refine ⟨by simp [ha, hb, hc, hd, he], ?_⟩
    exact (epochText_groups 45 45 45 45 ha hb hc hd he).mpr ⟨⟨rfl, rfl, rfl, rfl⟩, hex⟩
  · rintro ⟨hlen, htext⟩
    obtain ⟨a, x, r, rfl, ha, hr⟩ := exists_group (m := 8) (n := 27) hlen
    obtain ⟨b, y, r, rfl, hb, hr⟩ := exists_group (m := 4) (n := 22) hr
    obtain ⟨c, z, r, rfl, hc, hr⟩ := exists_group (m := 4) (n := 17) hr
    obtain ⟨d, w, e, rfl, hd, he⟩ := exists_group (m := 4) (n := 12) hr
    obtain ⟨⟨rfl, rfl, rfl, rfl⟩, hex⟩ := (epochText_groups x y z w ha hb hc hd he).mp htext
    exact ⟨a, b, c, d, e, rfl, ha, hb, hc, hd, he, hex⟩

theorem Epoch.lowercaseUuid (epoch : Epoch) : LowercaseUuid epoch.text :=
  lowercaseUuid_iff.mpr ⟨epoch.size, epoch.wellFormed⟩

theorem cursorGrammar_iff {s uuid : Bytes} {n : Nat} :
    CursorGrammar s uuid n ↔ ∃ epoch : Epoch, epoch.text = uuid ∧ WellFormedCursor epoch s n := by
  constructor
  · rintro ⟨digits, hs, huuid, hrest⟩
    obtain ⟨hsize, htext⟩ := lowercaseUuid_iff.mp huuid
    exact ⟨⟨uuid, hsize, htext⟩, rfl, digits, hs, hrest⟩
  · rintro ⟨epoch, rfl, digits, hs, hrest⟩
    exact ⟨digits, hs, epoch.lowercaseUuid, hrest⟩

theorem parseCursor_iff {s uuid : Bytes} {n : UInt64} :
    parseCursor s = some (uuid, n) ↔ CursorGrammar s uuid n.toNat := by
  rw [cursorGrammar_iff]
  constructor
  · intro h
    obtain ⟨epoch, rfl, hw⟩ := parseCursor_sound h
    exact ⟨epoch, rfl, hw⟩
  · rintro ⟨epoch, rfl, hw⟩
    rw [parseCursor_wellFormed hw, UInt64.ofNat_toNat]

theorem parseCursor_cursorText (epoch : Epoch) (n : UInt64) :
    parseCursor (cursorText epoch n.toNat) = some (epoch.text, n) := by
  rw [parseCursor_wellFormed (wellFormed_cursorText epoch n.toNat_lt), UInt64.ofNat_toNat]

/-! What a journal hands out -/

namespace EventJournal

theorem evict_suffix (capacity byteLimit : Nat) (events : List StreamEvent) (sizes : List Nat)
    (bytes : Nat) (oldest : UInt64) :
    (evict capacity byteLimit events sizes bytes oldest).1 <:+ events := by
  fun_induction evict capacity byteLimit events sizes bytes oldest with
  | case1 e events size sizes bytes oldest hgo ih => exact ih.trans (List.suffix_cons e events)
  | case2 e events size sizes bytes oldest hgo => exact List.suffix_rfl
  | case3 events sizes bytes oldest hne => exact List.suffix_rfl

theorem append_ok {j : EventJournal} {c : AppendCall} {e : StreamEvent}
    (h : (j.append c.name c.data c.finished).1 = .ok e) : e = j.nextEvent c := by
  cases hc : c.data.encodable with
  | true =>
    obtain ⟨frame, -, happend⟩ := append_of_encodable j c hc
    rw [happend] at h
    exact (Except.ok.inj h).symm
  | false =>
    obtain ⟨err, happend⟩ := append_of_not_encodable j c hc
    rw [happend] at h
    cases h

/-- A call keeps old events or adds the one it answers. -/
theorem mem_call {j : EventJournal} {c : AppendCall} {e : StreamEvent}
    (h : e ∈ (j.call c).events) :
    e ∈ j.events ∨ (j.append c.name c.data c.finished).1 = .ok e := by
  unfold call at h
  cases hc : c.data.encodable with
  | true =>
    obtain ⟨frame, -, happend⟩ := append_of_encodable j c hc
    rw [happend] at h ⊢
    have hmem := (evict_suffix _ _ _ _ _ _).subset h
    rcases List.mem_append.mp hmem with hold | hnew
    · exact .inl hold
    · exact .inr (congrArg Except.ok (List.mem_singleton.mp hnew).symm)
  | false =>
    obtain ⟨err, happend⟩ := append_of_not_encodable j c hc
    rw [happend] at h
    exact .inl h

theorem parseCursor_nextEvent (j : EventJournal) (c : AppendCall) :
    parseCursor (j.nextEvent c).id = some (j.epoch.text, j.sequence + 1) :=
  parseCursor_cursorText j.epoch (j.sequence + 1)

/-- The sequence counts the calls, whether they succeed or throw. -/
theorem sequence_appendAll (j : EventJournal) (calls : List AppendCall) :
    (j.appendAll calls).sequence = j.sequence + UInt64.ofNat calls.length := by
  induction calls generalizing j with
  | nil => simp [appendAll]
  | cons c calls ih =>
    obtain ⟨_, _, _, hseq⟩ := j.call_fixed c
    rw [appendAll_cons, ih, hseq, List.length_cons, UInt64.ofNat_add, UInt64.add_assoc,
      UInt64.add_comm 1]
    rfl

/-- Every event kept is the one that some call answered. -/
theorem mem_appendAll {j : EventJournal} {calls : List AppendCall} {e : StreamEvent}
    (h : e ∈ (j.appendAll calls).events) :
    e ∈ j.events ∨ ∃ before c after, calls = before ++ c :: after ∧
      ((j.appendAll before).append c.name c.data c.finished).1 = .ok e := by
  induction calls generalizing j with
  | nil => exact .inl h
  | cons c calls ih =>
    rcases ih h with hmem | ⟨before, d, after, rfl, he⟩
    · rcases mem_call hmem with hold | hanswer
      · exact .inl hold
      · exact .inr ⟨[], c, calls, rfl, hanswer⟩
    · exact .inr ⟨c :: before, d, after, rfl, he⟩

theorem create?_new {epoch : Epoch} {capacity byteLimit : Nat} {j : EventJournal}
    (h : create? epoch capacity byteLimit = some j) : j.sequence = 0 ∧ j.events = [] := by
  unfold create? at h
  split at h
  · cases h
    exact ⟨rfl, rfl⟩
  · cases h

/-- A journal after some calls: it has the epoch it was made with and has counted them. -/
theorem reached {epoch : Epoch} {capacity byteLimit : Nat} {j : EventJournal}
    (h : create? epoch capacity byteLimit = some j) (calls : List AppendCall) :
    (j.appendAll calls).epoch = epoch ∧
      (j.appendAll calls).sequence = UInt64.ofNat calls.length := by
  obtain ⟨hepoch, -, -, -⟩ := create?_eq_some h
  obtain ⟨hkept, -, -⟩ := appendAll_fixed j calls
  refine ⟨hkept.trans hepoch, ?_⟩
  rw [sequence_appendAll, (create?_new h).1, UInt64.zero_add]

/-- The event of the call after `before` is numbered by its place among the calls. -/
theorem parseCursor_answer {epoch : Epoch} {capacity byteLimit : Nat} {j : EventJournal}
    (h : create? epoch capacity byteLimit = some j) {before : List AppendCall} {c : AppendCall}
    {e : StreamEvent} (he : ((j.appendAll before).append c.name c.data c.finished).1 = .ok e) :
    parseCursor e.id = some (epoch.text, UInt64.ofNat (before.length + 1)) := by
  obtain ⟨hepoch, hseq⟩ := reached h before
  rw [append_ok he, parseCursor_nextEvent, hepoch, hseq, UInt64.ofNat_add]
  rfl

/-- Accepted cursors follow the grammar, and the cursor of a journal and the ids of its
events give back its epoch and the number of the call: the calls made so far, or those up
to the one that answered the event. -/
theorem validCursor_grammar_reached :
    (∀ s, validCursor s = true ↔ ∃ uuid n, CursorGrammar s uuid n) ∧
      ∀ (epoch : Epoch) (capacity byteLimit : Nat) (j : EventJournal),
        create? epoch capacity byteLimit = some j → ∀ calls : List AppendCall,
          (j.appendAll calls).sequence = UInt64.ofNat calls.length ∧
            parseCursor (j.appendAll calls).cursor =
              some (epoch.text, (j.appendAll calls).sequence) ∧
            (∀ e ∈ (j.appendAll calls).events, ∃ before c after, calls = before ++ c :: after ∧
              ((j.appendAll before).append c.name c.data c.finished).1 = .ok e ∧
              parseCursor e.id = some (epoch.text, UInt64.ofNat (before.length + 1))) ∧
            ∀ (c : AppendCall) (e : StreamEvent),
              ((j.appendAll calls).append c.name c.data c.finished).1 = .ok e →
                parseCursor e.id = some (epoch.text, UInt64.ofNat (calls.length + 1)) := by
  refine ⟨fun s => ?_, fun epoch capacity byteLimit j h calls => ?_⟩
  · rw [validCursor, Option.isSome_iff_exists]
    constructor
    · rintro ⟨⟨uuid, n⟩, hp⟩
      exact ⟨uuid, n.toNat, parseCursor_iff.mp hp⟩
    · rintro ⟨uuid, n, hg⟩
      obtain ⟨_, _, _, _, _, _, hn⟩ := id hg
      rw [← UInt64.toNat_ofNat_of_lt' hn] at hg
      exact ⟨_, parseCursor_iff.mpr hg⟩
  · obtain ⟨hepoch, hseq⟩ := reached h calls
    refine ⟨hseq, ?_, fun e he => ?_, fun c e he => parseCursor_answer h he⟩
    · rw [cursor, parseCursor_cursorText, hepoch]
    · rcases mem_appendAll he with hold | ⟨before, c, after, hsplit, hanswer⟩
      · rw [(create?_new h).2] at hold
        cases hold
      · exact ⟨before, c, after, hsplit, hanswer, parseCursor_answer h hanswer⟩

/-- A journal of the run streams, after one call. -/
theorem validCursor_grammar_reached_one :
    ∃ j, create? nilEpoch 512 1048576 = some j ∧
      parseCursor (j.appendAll [⟨ascii "delta", .null, false⟩]).cursor =
        some (nilEpoch.text, 1) := by
  have hcapacity : 1 ≤ 512 := by decide
  have hlimit : 1 ≤ 1048576 := by decide
  obtain ⟨j, hj⟩ := create?_isSome nilEpoch hcapacity hlimit
  obtain ⟨hseq, hcursor, -⟩ := validCursor_grammar_reached.2 nilEpoch 512 1048576 j hj
    [⟨ascii "delta", .null, false⟩]
  rw [hseq] at hcursor
  exact ⟨j, hj, hcursor⟩

end EventJournal

end HolderDaemon
