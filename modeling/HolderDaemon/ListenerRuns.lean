import HolderDaemon.Listener

/-!
The listener over whole runs: every accepted socket is in one place, requests are executed once
and in the order of their queues, and what is left in a queue when `run` returns.
-/

set_option autoImplicit false

namespace HolderDaemon

namespace Listener

def Place.rank : Place → Nat
  | .hand .acceptor => 0
  | .queue .pending => 1
  | .hand (.ingress _) => 2
  | .queue (.lane _) => 3
  | .hand (.worker _) => 4
  | .session _ => 5
  | .queue .responses => 6
  | .hand (.writer _) => 7
  | .streamed | .answered | .closed => 8

def Place.owner : Place → Option Thread
  | .hand thread => some thread
  | .session w => some (.worker w)
  | _ => none

/-- How many sockets a thread at this task has in a place of its own. -/
def Task.count : Task → Place → Nat
  | .testing, .hand _ | .reading, .hand _ | .prepared, .hand _ | .pushing, .hand _
  | .rejecting, .hand _ | .taken, .hand _ | .writing, .hand _ => 1
  | .executing, .session _ | .responded, .session _ | .queuing, .session _ => 1
  | _, _ => 0

section Changes
variable (profile : ConcurrencyProfile) (lane : Nat → RequestLane)

/-- The sockets that may come to a place. -/
def Place.admits : Place → Nat → Prop
  | .queue (.lane l), socket => lane socket = l
  | .hand (.worker w), socket | .session w, socket => profile.serves w (lane socket)
  | _, _ => True

/-- The queue that the step pushes a socket to, if there is room. -/
def Step.pushes (s : Listener) : Step → Option Queue
  | .acceptPush => some .pending
  | .pushLane i => (s.sockets.contents (.hand (.ingress i))).head?.map fun a => .lane (lane a)
  | .pushResponse _ => some .responses
  | _ => none

/-- The worker that the step ends by an exception. -/
def Step.ends : Step → Option Worker
  | .makeContext w false => some w
  | .finish w (.escaped _) => some w
  | _ => none

/-- Why a thread returns. -/
def Leaves (s : Listener) (l : Step) (thread : Thread) : Prop :=
  (∀ q ∈ thread.queues, s.sockets.contents (.queue q) = []) ∨
    ∃ w, l.ends = some w ∧ thread = .worker w

/-- What a step can do. -/
inductive Change (s : Listener) (l : Step) : Listener → Prop where
  | issue (hwaiting : s.tasks .acceptor = .waiting) : Change s l
      { s with
        sockets := s.sockets.issue (.hand .acceptor)
        tasks := Function.update s.tasks .acceptor .testing }
  | turn (thread : Thread) (task : Task) (hthread : thread ∈ threads profile)
      (hcount : ∀ x, x.owner = some thread → task.count x = (s.tasks thread).count x)
      (hleaves : task = .returned → s.Leaves l thread) :
      Change s l (s.turn thread task)
  | pass (thread : Thread) (p q : Place) (task : Task) (hthread : thread ∈ threads profile)
      (hfront : s.sockets.contents p ≠ [])
      (hp : p.owner = none ∨ p.owner = some thread) (hq : q.owner = none ∨ q.owner = some thread)
      (hrank : p.rank < q.rank)
      (hadmits : ∀ socket ∈ (s.sockets.contents p).head?,
        p.admits profile lane socket → q.admits profile lane socket)
      (hcount : ∀ x, x.owner = some thread →
        task.count x + (if x = p then 1 else 0) =
          (s.tasks thread).count x + if x = q then 1 else 0)
      (hroom : ∀ k, q = .queue k → k = .responses ∨ (s.sockets.contents q).length < 64)
      (hfirst : ∀ w, q = .hand (.worker w) → ∃ l, p = .queue (.lane l) ∧
        (l = .background → s.sockets.contents (.queue (.lane .foreground)) = []))
      (hpushes : ∀ k, q = .queue k → l.pushes lane s = some k ∧ task ≠ .returned)
      (hleaves : task = .returned → s.Leaves l thread) :
      Change s l (s.pass thread p q task)
  | stop : Change s l { s with stopRequested := true }
  | clear (block : List Queue) (hblock : shutdownBlocks[s.cleared]? = some block) : Change s l
      { s with
        sockets := block.foldl (fun d q => d.drain (.queue q) .closed) s.sockets
        cleared := s.cleared + 1 }
  | returns (hacceptor : s.tasks .acceptor = .waiting ∨ s.tasks .acceptor = .returned)
      (hworkers : ∀ thread ∈ workers profile, s.tasks thread = .returned)
      (hreturns : l = .runReturns) : Change s l { s with returned := true }

/-- A thread has in its hand what its task says. -/
structure Carried (s : Listener) : Prop where
  count : ∀ thread x, x.owner = some thread →
    (s.sockets.contents x).length = (s.tasks thread).count x
  absent : ∀ thread, thread ∉ threads profile → s.tasks thread = thread.first

end Changes

section Workers
variable {profile : ConcurrencyProfile}

theorem mem_workers {thread : Thread} : thread ∈ workers profile ↔
    (∃ i, i < profile.ingressWorkers ∧ thread = .ingress i) ∨
    (∃ i, i < profile.saveWorkers ∧ thread = .worker (.save i)) ∨
    (∃ i, i < profile.generalWorkers ∧ thread = .worker (.general i)) ∨
    (∃ i, i < profile.writerWorkers ∧ thread = .writer i) := by
  simp only [workers, List.mem_append, List.mem_map, List.mem_range, or_assoc, eq_comm]

theorem mem_threads {thread : Thread} :
    thread ∈ threads profile ↔ thread = .acceptor ∨ thread ∈ workers profile := List.mem_cons

theorem serves_of_mem {w : Worker} {l : RequestLane}
    (hw : Thread.worker w ∈ threads profile) (hl : Queue.lane l ∈ (Thread.worker w).queues) :
    profile.serves w l = true := by
  rcases mem_threads.mp hw with h | h
  · cases h
  · rcases mem_workers.mp h with ⟨i, _, heq⟩ | ⟨i, hi, heq⟩ | ⟨i, hi, heq⟩ | ⟨i, _, heq⟩
    · cases heq
    · cases heq
      obtain rfl : l = .save := by simpa [Thread.queues] using hl
      simpa [ConcurrencyProfile.serves] using hi
    · cases heq
      have hor : l = .foreground ∨ l = .background := by simpa [Thread.queues] using hl
      rcases hor with rfl | rfl
      · simpa [ConcurrencyProfile.serves] using hi
      · simpa [ConcurrencyProfile.serves] using hi
    · cases heq

end Workers

/-! One step -/

section Step
variable {profile : ConcurrencyProfile} {lane : Nat → RequestLane} {s t : Listener} {l : Step}

theorem during_some {thread : Thread} {task : Task} {next : Option Listener}
    (h : s.during profile thread task next = some t) :
    thread ∈ threads profile ∧ s.tasks thread = task ∧ next = some t := by
  unfold during at h
  split at h
  · rename_i hready
    exact ⟨hready.1, hready.2, h⟩
  · cases h

theorem foldl_drain_of_ne {d : Depot Place} {block : List Queue} {x : Place}
    (hqueue : ∀ q ∈ block, x ≠ .queue q) (hclosed : x ≠ .closed) :
    (block.foldl (fun d q => d.drain (.queue q) .closed) d).contents x = d.contents x := by
  induction block generalizing d with
  | nil => rfl
  | cons q block ih =>
    rw [List.foldl_cons, ih (fun k hk => hqueue k (List.mem_cons_of_mem _ hk))]
    exact Depot.drain_of_ne (hqueue q List.mem_cons_self) hclosed

theorem Carried.front (h : Carried profile s) {thread : Thread} {x : Place}
    (howner : x.owner = some thread) (hone : (s.tasks thread).count x = 1) :
    s.sockets.contents x ≠ [] := fun hnil => by
  have hcount := h.count thread x howner
  rw [hnil, hone] at hcount
  cases hcount

/-- A socket leaves the thread that has it. -/
theorem Change.leave (h : Carried profile s) {thread : Thread} {p q : Place} {now task : Task}
    (hthread : thread ∈ threads profile) (hnow : s.tasks thread = now)
    (hp : p.owner = some thread) (hq : q.owner = none) (hrank : p.rank < q.rank)
    (hcount : ∀ x, x.owner = some thread → now.count x = if x = p then 1 else 0)
    (hidle : ∀ x, task.count x = 0)
    (hadmits : ∀ socket ∈ (s.sockets.contents p).head?, q.admits profile lane socket)
    (hroom : ∀ k, q = .queue k → k = .responses ∨ (s.sockets.contents q).length < 64)
    (hpushes : ∀ k, q = .queue k → l.pushes lane s = some k ∧ task ≠ .returned)
    (hleaves : task = .returned → s.Leaves l thread) :
    Change profile lane s l (s.pass thread p q task) := by
  subst hnow
  refine .pass thread p q task hthread ?_ (.inr hp) (.inl hq) hrank
    (fun socket hsocket _ => hadmits socket hsocket) ?_ hroom ?_ hpushes hleaves
  · exact h.front hp (by rw [hcount p hp, if_pos rfl])
  · intro x hx
    have hne : x ≠ q := by
      rintro rfl
      simp [hq] at hx
    rw [hidle, hcount x hx, if_neg hne, Nat.zero_add, Nat.add_zero]
  · rintro w rfl
    cases hq

theorem count_hand {now : Task} {thread : Thread} (hone : now.count (.hand thread) = 1)
    (hnone : ∀ w, now.count (.session w) = 0) (x : Place) (hx : x.owner = some thread) :
    now.count x = if x = .hand thread then 1 else 0 := by
  cases x with
  | hand other =>
    obtain rfl : other = thread := Option.some.inj hx
    rw [if_pos rfl, hone]
  | session w => rw [if_neg (by simp), hnone]
  | _ => cases hx

theorem count_session {now : Task} {w : Worker} (hone : now.count (.session w) = 1)
    (hnone : now.count (.hand (.worker w)) = 0) (x : Place)
    (hx : x.owner = some (.worker w)) : now.count x = if x = .session w then 1 else 0 := by
  cases x with
  | hand other =>
    obtain rfl : other = .worker w := Option.some.inj hx
    rw [if_neg (by simp), hnone]
  | session other =>
    obtain rfl : other = w := by simpa [Place.owner] using hx
    rw [if_pos rfl, hone]
  | _ => cases hx

theorem count_waiting (x : Place) : Task.waiting.count x = 0 := by cases x <;> rfl

theorem count_again (x : Place) : Task.again.count x = 0 := by cases x <;> rfl

theorem count_returned (x : Place) : Task.returned.count x = 0 := by cases x <;> rfl

/-- What a thread has in its hand is closed, or answered. -/
theorem Change.release (h : Carried profile s) {thread : Thread} {q : Place} {now task : Task}
    (hthread : thread ∈ threads profile) (hnow : s.tasks thread = now)
    (hq : q = .closed ∨ q = .answered) (hone : now.count (.hand thread) = 1)
    (hnone : ∀ w, now.count (.session w) = 0) (hidle : ∀ x, task.count x = 0)
    (hleaves : task = .returned → s.Leaves l thread) :
    Change profile lane s l (s.pass thread (.hand thread) q task) := by
  have hrank : (Place.hand thread).rank < 8 := by cases thread <;> simp [Place.rank]
  rcases hq with rfl | rfl
  · exact .leave h hthread hnow rfl rfl hrank (count_hand hone hnone) hidle
      (fun _ _ => trivial) nofun nofun hleaves
  · exact .leave h hthread hnow rfl rfl hrank (count_hand hone hnone) hidle
      (fun _ _ => trivial) nofun nofun hleaves

/-- A session's socket is closed, or handed to a stream. -/
theorem Change.end_session (h : Carried profile s) {w : Worker} {q : Place} {now task : Task}
    (hthread : Thread.worker w ∈ threads profile) (hnow : s.tasks (.worker w) = now)
    (hq : q = .closed ∨ q = .streamed) (hone : now.count (.session w) = 1)
    (hnone : now.count (.hand (.worker w)) = 0) (hidle : ∀ x, task.count x = 0)
    (hleaves : task = .returned → s.Leaves l (.worker w)) :
    Change profile lane s l (s.pass (.worker w) (.session w) q task) := by
  rcases hq with rfl | rfl
  · exact .leave h hthread hnow rfl rfl (by simp [Place.rank]) (count_session hone hnone) hidle
      (fun _ _ => trivial) nofun nofun hleaves
  · exact .leave h hthread hnow rfl rfl (by simp [Place.rank]) (count_session hone hnone) hidle
      (fun _ _ => trivial) nofun nofun hleaves

theorem leaves_acceptor : s.Leaves l .acceptor := .inl fun _ hq => nomatch hq

theorem Change.go (thread : Thread) {now task : Task} (hthread : thread ∈ threads profile)
    (hnow : s.tasks thread = now) (hsame : ∀ x, task.count x = now.count x)
    (hleaves : task = .returned → s.Leaves l thread) :
    Change profile lane s l (s.turn thread task) :=
  .turn thread task hthread (fun x _ => by rw [hnow, hsame]) hleaves

/-- A socket is accepted into the acceptor's hand. -/
theorem Carried.issue (h : Carried profile s) (hwaiting : s.tasks .acceptor = .waiting) :
    Carried profile
      { s with
        sockets := s.sockets.issue (.hand .acceptor)
        tasks := Function.update s.tasks .acceptor .testing } := by
  constructor
  · intro thread x hx
    have hold := h.count thread x hx
    simp only [Depot.issue_contents]
    by_cases hthread : thread = .acceptor
    · subst hthread
      rw [hwaiting] at hold
      rw [Function.update_self]
      cases x with
      | hand other =>
        obtain rfl : other = .acceptor := Option.some.inj hx
        rw [if_pos rfl, List.length_append, hold]
        rfl
      | session w => cases hx
      | _ => cases hx
    · have hne : x ≠ .hand .acceptor := by
        rintro rfl
        exact hthread (Option.some.inj hx).symm
      rw [Function.update_of_ne hthread, if_neg hne, hold]
  · intro thread hthread
    simp only
    rw [Function.update_of_ne (by rintro rfl; exact hthread (mem_threads.mpr (.inl rfl)))]
    exact h.absent thread hthread

/-- Another task has as much in its hand. -/
theorem Carried.turn (h : Carried profile s) {thread : Thread} {task : Task}
    (hthread : thread ∈ threads profile)
    (hcount : ∀ x, x.owner = some thread → task.count x = (s.tasks thread).count x) :
    Carried profile (s.turn thread task) := by
  constructor
  · intro other x hx
    by_cases heq : other = thread
    · subst heq
      simp only [Listener.turn, Function.update_self]
      rw [hcount x hx]
      exact h.count other x hx
    · simp only [Listener.turn, Function.update_of_ne heq]
      exact h.count other x hx
  · intro other hother
    simp only [Listener.turn]
    rw [Function.update_of_ne (by rintro rfl; exact hother hthread)]
    exact h.absent other hother

/-- A socket moves between places that are the thread's or nobody's, and the thread's task counts
it where it is. -/
theorem Carried.pass (h : Carried profile s) {thread : Thread} {p q : Place} {task : Task}
    (hthread : thread ∈ threads profile) (hfront : s.sockets.contents p ≠ [])
    (hp : p.owner = none ∨ p.owner = some thread) (hq : q.owner = none ∨ q.owner = some thread)
    (hrank : p.rank < q.rank)
    (hcount : ∀ x, x.owner = some thread →
      task.count x + (if x = p then 1 else 0) =
        (s.tasks thread).count x + if x = q then 1 else 0) :
    Carried profile (s.pass thread p q task) := by
  obtain ⟨a, rest, hcons⟩ := List.exists_cons_of_ne_nil hfront
  have hpq : p ≠ q := fun heq => by simp [heq] at hrank
  -- what another thread has is neither where the socket was nor where it is
  have hother : ∀ {other : Thread} {x r : Place}, x.owner = some other → other ≠ thread →
      (r.owner = none ∨ r.owner = some thread) → x ≠ r := by
    rintro other x r hx hne hr rfl
    rcases hr with hr | hr
    · simp [hr] at hx
    · exact hne (Option.some.inj (hx.symm.trans hr))
  constructor
  · intro other x hx
    have hold := h.count other x hx
    by_cases heq : other = thread
    · subst heq
      have hlength := Depot.length_move (x := x) hcons hpq
      have hgive := hcount x hx
      simp only [Listener.pass, Function.update_self]
      omega
    · simp only [Listener.pass, Function.update_of_ne heq]
      rw [Depot.move_contents_of_ne (hother hx heq hp) (hother hx heq hq), hold]
  · intro other habsent
    simp only [Listener.pass]
    rw [Function.update_of_ne (by rintro rfl; exact habsent hthread)]
    exact h.absent other habsent

/-- The queues are emptied. -/
theorem Carried.clear (h : Carried profile s) (block : List Queue) (cleared : Nat) :
    Carried profile
      { s with
        sockets := block.foldl (fun d q => d.drain (.queue q) .closed) s.sockets
        cleared } := by
  refine ⟨fun thread x hx => ?_, h.absent⟩
  have hqueue : ∀ q, x ≠ .queue q := by
    rintro q rfl
    cases hx
  have hclosed : x ≠ .closed := by
    rintro rfl
    cases hx
  simp only
  rw [foldl_drain_of_ne (fun q _ => hqueue q) hclosed]
  exact h.count thread x hx

theorem Carried.change (h : Carried profile s) (hc : Change profile lane s l t) :
    Carried profile t := by
  cases hc with
  | issue hwaiting => exact h.issue hwaiting
  | turn thread task hthread hcount => exact h.turn hthread hcount
  | pass thread p q task hthread hfront hp hq hrank _ hcount =>
    exact h.pass hthread hfront hp hq hrank hcount
  | stop => exact ⟨h.count, h.absent⟩
  | clear block hblock => exact h.clear block _
  | returns hacceptor hworkers hreturns => exact ⟨h.count, h.absent⟩

theorem lane_of_mem {w : Worker} {q : Queue} (h : q ∈ (Thread.worker w).queues) :
    ∃ l, q = .lane l := by
  cases w with
  | save i => exact ⟨.save, by simpa [Thread.queues] using h⟩
  | general i =>
    have hor : q = .lane .foreground ∨ q = .lane .background := by simpa [Thread.queues] using h
    rcases hor with rfl | rfl
    · exact ⟨.foreground, rfl⟩
    · exact ⟨.background, rfl⟩

theorem rank_take {thread : Thread} {q : Queue} (h : q ∈ thread.queues) :
    (Place.queue q).rank < (Place.hand thread).rank := by
  cases thread with
  | acceptor => cases h
  | ingress i =>
    obtain rfl : q = .pending := by simpa [Thread.queues] using h
    simp [Place.rank]
  | worker w =>
    obtain ⟨l, rfl⟩ := lane_of_mem h
    simp [Place.rank]
  | writer i =>
    obtain rfl : q = .responses := by simpa [Thread.queues] using h
    simp [Place.rank]

/-- A worker takes a socket from the first of its queues that has one. -/
theorem Change.take {thread : Thread} {q : Queue} (hthread : thread ∈ threads profile)
    (hnow : s.tasks thread = .waiting)
    (hfind : thread.queues.find? (fun q => s.sockets.contents (.queue q) ≠ []) = some q)
    (htaking : thread.taking ≠ .returned) :
    Change profile lane s l (s.pass thread (.queue q) (.hand thread) thread.taking) := by
  have hmem : q ∈ thread.queues := List.mem_of_find?_eq_some hfind
  have hfront : s.sockets.contents (.queue q) ≠ [] := by
    simpa using List.find?_some hfind
  refine .pass thread (.queue q) (.hand thread) thread.taking hthread hfront (.inl rfl) (.inr rfl)
    (rank_take hmem) ?_ ?_ nofun ?_ nofun fun hreturned => absurd hreturned htaking
  · intro socket _ hadmits
    cases thread with
    | worker w =>
      obtain ⟨l, rfl⟩ := lane_of_mem hmem
      obtain rfl : lane socket = l := hadmits
      exact serves_of_mem hthread hmem
    | _ => trivial
  · intro x hx
    have hne : x ≠ .queue q := by
      rintro rfl
      cases hx
    have htaking : thread.taking.count (.hand thread) = 1 ∧
        ∀ w, thread.taking.count (.session w) = 0 := by
      cases thread <;> exact ⟨rfl, fun _ => rfl⟩
    rw [if_neg hne, hnow, count_waiting, count_hand htaking.1 htaking.2 x hx, Nat.zero_add,
      Nat.add_zero]
  · intro w hw
    obtain rfl : thread = .worker w := Place.hand.inj hw
    obtain ⟨l, rfl⟩ := lane_of_mem hmem
    refine ⟨l, rfl, ?_⟩
    rintro rfl
    cases w with
    | save i => simp [Thread.queues] at hmem
    | general i =>
      by_contra hforeground
      simp [Thread.queues, hforeground] at hfind

theorem step_change (h : Carried profile s) {l : Step} (hs : s.step profile lane l = some t) :
    Change profile lane s l t := by
  unfold step at hs
  split at hs
  · cases hs
  cases l with
  | accept =>
    obtain ⟨_, hnow, hnext⟩ := during_some hs
    cases hnext
    exact .issue hnow
  | acceptAborted =>
    obtain ⟨hthread, hnow, hnext⟩ := during_some hs
    split at hnext
    · cases hnext
      exact .go _ hthread hnow (fun x => (count_returned x).trans (count_waiting x).symm)
        fun _ => leaves_acceptor
    · cases hnext
  | acceptTest =>
    obtain ⟨hthread, hnow, hnext⟩ := during_some hs
    cases hnext
    split
    · exact .release h hthread hnow (.inl rfl) rfl (fun _ => rfl) count_returned
        fun _ => leaves_acceptor
    · exact .go _ hthread hnow (fun x => by cases x <;> rfl) nofun
  | acceptPush =>
    obtain ⟨hthread, hnow, hnext⟩ := during_some hs
    cases hnext
    split
    · exact .release h hthread hnow (.inl rfl) rfl (fun _ => rfl) count_again nofun
    · rename_i hroom
      refine .leave h hthread hnow rfl rfl (by simp [Place.rank]) (count_hand rfl fun _ => rfl)
        count_again (fun _ _ => trivial) (fun k _ => .inr (Nat.lt_of_not_le hroom)) ?_ nofun
      rintro k hk
      cases hk
      exact ⟨rfl, nofun⟩
  | acceptAgain =>
    obtain ⟨hthread, hnow, hnext⟩ := during_some hs
    cases hnext
    split
    · exact .go _ hthread hnow (fun x => (count_returned x).trans (count_again x).symm)
        fun _ => leaves_acceptor
    · exact .go _ hthread hnow (fun x => (count_waiting x).trans (count_again x).symm) nofun
  | wake thread =>
    obtain ⟨hthread, hnow, hnext⟩ := during_some hs
    split at hnext
    · rename_i q hfind
      cases hnext
      exact .take hthread hnow hfind (by cases thread <;> nofun)
    · rename_i hnone
      split at hnext
      · cases hnext
        refine .go _ hthread hnow (fun x => (count_returned x).trans (count_waiting x).symm)
          fun _ => .inl fun q hq => ?_
        simpa using List.find?_eq_none.mp hnone q hq
      · cases hnext
  | ingressTest i =>
    obtain ⟨hthread, hnow, hnext⟩ := during_some hs
    cases hnext
    split
    · exact .release h hthread hnow (.inl rfl) rfl (fun _ => rfl) count_waiting nofun
    · exact .go _ hthread hnow (fun x => by cases x <;> rfl) nofun
  | read i ok =>
    obtain ⟨hthread, hnow, hnext⟩ := during_some hs
    cases hnext
    split
    · exact .go _ hthread hnow (fun x => by cases x <;> rfl) nofun
    · exact .release h hthread hnow (.inl rfl) rfl (fun _ => rfl) count_waiting nofun
  | preparedTest i =>
    obtain ⟨hthread, hnow, hnext⟩ := during_some hs
    cases hnext
    split
    · exact .release h hthread hnow (.inl rfl) rfl (fun _ => rfl) count_waiting nofun
    · exact .go _ hthread hnow (fun x => by cases x <;> rfl) nofun
  | pushLane i =>
    obtain ⟨hthread, hnow, hnext⟩ := during_some hs
    obtain ⟨socket, hsocket, hnext⟩ := Option.map_eq_some_iff.mp hnext
    subst hnext
    dsimp only
    split
    · rename_i hroom
      refine .leave h hthread hnow rfl rfl (by simp [Place.rank])
        (count_hand rfl fun _ => rfl) count_waiting (fun a ha => ?_) (fun _ _ => .inr hroom)
        (fun k hk => ?_) nofun
      · rw [hsocket] at ha
        cases ha
        rfl
      · cases hk
        exact ⟨by simp only [Step.pushes, hsocket, Option.map_some], nofun⟩
    · exact .go _ hthread hnow (fun x => by cases x <;> rfl) nofun
  | reject i ok =>
    obtain ⟨hthread, hnow, hnext⟩ := during_some hs
    cases hnext
    cases ok with
    | true => exact .release h hthread hnow (.inr rfl) rfl (fun _ => rfl) count_waiting nofun
    | false => exact .release h hthread hnow (.inl rfl) rfl (fun _ => rfl) count_waiting nofun
  | makeContext w ok =>
    obtain ⟨hthread, hnow, hnext⟩ := during_some hs
    cases hnext
    cases ok with
    | true => exact .go _ hthread hnow (fun x => by cases x <;> rfl) nofun
    | false =>
      exact .go _ hthread hnow (fun x => by cases x <;> rfl) fun _ => .inr ⟨w, rfl, rfl⟩
  | begin w disconnected =>
    obtain ⟨hthread, hnow, hnext⟩ := during_some hs
    obtain ⟨socket, hsocket, hnext⟩ := Option.map_eq_some_iff.mp hnext
    subst hnext
    split
    · exact .release h hthread hnow (.inl rfl) rfl (fun _ => rfl) count_waiting nofun
    · have hfront : s.sockets.contents (.hand (.worker w)) ≠ [] := by
        intro hnil
        simp [hnil] at hsocket
      refine .pass _ _ _ _ hthread hfront (.inr rfl) (.inr rfl) (by simp [Place.rank])
        (fun _ _ hadmits => hadmits) ?_ nofun nofun nofun nofun
      intro x hx
      rw [hnow, count_session rfl rfl x hx, count_hand rfl (fun _ => rfl) x hx]
      omega
  | finish w outcome =>
    obtain ⟨hthread, hnow, hnext⟩ := during_some hs
    cases hnext
    cases outcome with
    | response => exact .go _ hthread hnow (fun x => by cases x <;> rfl) nofun
    | streamed => exact .end_session h hthread hnow (.inr rfl) rfl rfl count_waiting nofun
    | escaped handed =>
      cases handed with
      | true =>
        exact .end_session h hthread hnow (.inr rfl) rfl rfl count_returned
          fun _ => .inr ⟨w, rfl, rfl⟩
      | false =>
        exact .end_session h hthread hnow (.inl rfl) rfl rfl count_returned
          fun _ => .inr ⟨w, rfl, rfl⟩
  | responseTest w =>
    obtain ⟨hthread, hnow, hnext⟩ := during_some hs
    cases hnext
    split
    · exact .end_session h hthread hnow (.inl rfl) rfl rfl count_waiting nofun
    · exact .go _ hthread hnow (fun x => by cases x <;> rfl) nofun
  | pushResponse w =>
    obtain ⟨hthread, hnow, hnext⟩ := during_some hs
    cases hnext
    refine .leave h hthread hnow rfl rfl (by simp [Place.rank]) (count_session rfl rfl)
      count_waiting (fun _ _ => trivial) (fun k hk => ?_) (fun k hk => ?_) nofun
    · cases hk
      exact .inl rfl
    · cases hk
      exact ⟨rfl, nofun⟩
  | written i ok =>
    obtain ⟨hthread, hnow, hnext⟩ := during_some hs
    cases hnext
    cases ok with
    | true => exact .release h hthread hnow (.inr rfl) rfl (fun _ => rfl) count_waiting nofun
    | false => exact .release h hthread hnow (.inl rfl) rfl (fun _ => rfl) count_waiting nofun
  | stop =>
    dsimp only at hs
    split at hs
    · cases hs
    · cases hs
      exact .stop
  | clear =>
    dsimp only at hs
    split at hs
    · obtain ⟨block, hblock, rfl⟩ := Option.map_eq_some_iff.mp hs
      exact .clear block hblock
    · cases hs
  | runReturns =>
    dsimp only at hs
    split at hs
    · rename_i hready
      cases hs
      exact .returns hready.2.1 hready.2.2 rfl
    · cases hs

end Step

/-! What holds in every run -/

section Runs
variable {profile : ConcurrencyProfile} {lane : Nat → RequestLane} {s t : Listener} {l : Step}

theorem foldl_drain_sound {d : Depot Place} {block : List Queue}
    (h : d.Sound Place.rank (Place.admits profile lane)) :
    (block.foldl (fun d q => d.drain (.queue q) .closed) d).Sound Place.rank
      (Place.admits profile lane) := by
  induction block generalizing d with
  | nil => exact h
  | cons q block ih =>
    refine ih (h.drain ?_ fun _ _ => trivial)
    rcases q with _ | l | _ <;> simp [Place.rank]

theorem foldl_drain_nil {d : Depot Place} {block : List Queue} {q : Queue} (hq : q ∈ block) :
    (block.foldl (fun d q => d.drain (.queue q) .closed) d).contents (.queue q) = [] := by
  induction block generalizing d with
  | nil => cases hq
  | cons k block ih =>
    rw [List.foldl_cons]
    by_cases hrest : q ∈ block
    · exact ih hrest
    · obtain rfl : q = k := (List.mem_cons.mp hq).resolve_right hrest
      have hother : ∀ k ∈ block, Place.queue q ≠ .queue k := fun k hk heq =>
        hrest (Place.queue.inj heq ▸ hk)
      rw [foldl_drain_of_ne hother (by simp)]
      exact Depot.drain_contents (by simp)

theorem Change.sound (h : s.sockets.Sound Place.rank (Place.admits profile lane))
    (hc : Change profile lane s l t) :
    t.sockets.Sound Place.rank (Place.admits profile lane) := by
  cases hc with
  | issue hwaiting => exact h.issue trivial
  | turn thread task hthread hcount hleaves => exact h
  | pass thread p q task hthread hfront hp hq hrank hadmits hcount hroom hfirst hpushes hleaves =>
    exact h.move hrank hadmits
  | stop => exact h
  | clear block hblock => exact foldl_drain_sound h
  | returns hacceptor hworkers hreturns => exact h

/-- No queue but that of the responses has more than 64 sockets. -/
def Bounded (s : Listener) : Prop :=
  ∀ q, q ≠ .responses → (s.sockets.contents (.queue q)).length ≤ 64

theorem Bounded.change (h : Bounded s) (hc : Change profile lane s l t) : Bounded t := by
  intro k hk
  have hold := h k hk
  cases hc with
  | issue hwaiting =>
    simp only [Depot.issue_contents]
    rw [if_neg (by simp)]
    exact hold
  | turn thread task hthread hcount hleaves => exact hold
  | pass thread p q task hthread hfront hp hq hrank hadmits hcount hroom hfirst hpushes hleaves =>
    obtain ⟨a, rest, hcons⟩ := List.exists_cons_of_ne_nil hfront
    have hpq : p ≠ q := fun heq => by simp [heq] at hrank
    have hlength := Depot.length_move (x := .queue k) hcons hpq
    simp only [pass]
    by_cases hq : Place.queue k = q
    · have hlt := (hroom k hq.symm).resolve_left hk
      rw [← hq] at hlt
      rw [if_pos hq] at hlength
      omega
    · rw [if_neg hq] at hlength
      omega
  | stop => exact hold
  | clear block hblock =>
    by_cases hmem : k ∈ block
    · simp only [foldl_drain_nil hmem, List.length_nil, Nat.zero_le]
    · have hother : ∀ q ∈ block, Place.queue k ≠ .queue q := fun q hq heq =>
        hmem (Place.queue.inj heq ▸ hq)
      simp only [foldl_drain_of_ne hother (by simp)]
      exact hold
  | returns hacceptor hworkers hreturns => exact hold

theorem foldl_drain_entered_of_ne {d : Depot Place} {block : List Queue} {x : Place}
    (hx : x ≠ .closed) :
    (block.foldl (fun d q => d.drain (.queue q) .closed) d).entered x = d.entered x := by
  induction block generalizing d with
  | nil => rfl
  | cons q block ih => rw [List.foldl_cons, ih, Depot.drain_entered_of_ne hx]

/-- A worker takes a request from the background only if there is none in the foreground. -/
theorem Change.foreground_first {w : Worker} {socket : Nat}
    (hsound : s.sockets.Sound Place.rank (Place.admits profile lane))
    (hc : Change profile lane s l t)
    (htaken : t.sockets.entered (.hand (.worker w)) =
      s.sockets.entered (.hand (.worker w)) ++ [socket])
    (hbackground : lane socket = .background) :
    s.sockets.contents (.queue (.lane .foreground)) = [] := by
  have hsame : t.sockets.entered (.hand (.worker w)) ≠ s.sockets.entered (.hand (.worker w)) := by
    rw [htaken]
    simp
  cases hc with
  | issue hwaiting =>
    refine absurd ?_ hsame
    simp only [Depot.issue_entered]
    exact if_neg (by simp)
  | turn thread task hthread hcount hleaves => exact absurd rfl hsame
  | pass thread p q task hthread hfront hp hq hrank hadmits hcount hroom hfirst hpushes hleaves =>
    by_cases hhand : q = .hand (.worker w)
    · obtain ⟨l, rfl, hempty⟩ := hfirst w hhand
      obtain ⟨a, rest, hcons⟩ := List.exists_cons_of_ne_nil hfront
      simp only [Listener.pass, Depot.move_entered hcons, hhand, if_true] at htaken
      obtain rfl : a = socket := by simpa using htaken
      have hmem : a ∈ s.sockets.contents (.queue (.lane l)) := by simp [hcons]
      have hlane : lane a = l := hsound.admitted _ a (hsound.mem_entered hmem)
      exact hempty (hlane.symm.trans hbackground)
    · exact absurd (Depot.move_entered_of_ne (Ne.symm hhand)) hsame
  | stop => exact absurd rfl hsame
  | clear block hblock => exact absurd (foldl_drain_entered_of_ne (by simp)) hsame
  | returns hacceptor hworkers hreturns => exact absurd rfl hsame

/-! What is left in the queues -/

/-- The block of `shutdown_queued_work` that clears the queue is still to come. -/
def Clearing (s : Listener) (q : Queue) : Prop := s.cleared ≤ q.block

instance (s : Listener) (q : Queue) : Decidable (s.Clearing q) := Nat.decLe _ _

/-- The workers that still take from the queue. -/
def attendants (profile : ConcurrencyProfile) (s : Listener) (q : Queue) : List Thread :=
  (workers profile).filter fun thread => q ∈ thread.queues ∧ s.tasks thread ≠ .returned

/-- A socket in the queue is not forgotten. -/
def Served (profile : ConcurrencyProfile) (s : Listener) (q : Queue) : Prop :=
  s.Clearing q ∨ s.attendants profile q ≠ []

/-- A socket is pushed to a queue only while the queue is served; a worker that ends by an
exception leaves no queue behind that is not; and `run` returns after the last block of
`shutdown_queued_work`. -/
structure Attended (profile : ConcurrencyProfile) (lane : Nat → RequestLane) (s : Listener)
    (l : Step) : Prop where
  pushes : ∀ q ∈ l.pushes lane s, s.Served profile q
  ends : ∀ w ∈ l.ends, ∀ q ∈ (Thread.worker w).queues, s.sockets.contents (.queue q) ≠ [] →
    s.Clearing q ∨ ∃ thread ∈ s.attendants profile q, thread ≠ .worker w
  returns : l = .runReturns → shutdownBlocks.length ≤ s.cleared

/-- Every queue with a socket in it is served. -/
def Guarded (profile : ConcurrencyProfile) (s : Listener) : Prop :=
  ∀ q, s.sockets.contents (.queue q) ≠ [] → s.Served profile q

theorem mem_attendants {q : Queue} {thread : Thread} : thread ∈ s.attendants profile q ↔
    thread ∈ workers profile ∧ q ∈ thread.queues ∧ s.tasks thread ≠ .returned := by
  simp only [attendants, List.mem_filter, decide_eq_true_eq]

/-- Another worker attends a queue with sockets in it when a thread returns. -/
theorem Guarded.leaves (h : Guarded profile s) (hok : Attended profile lane s l)
    {thread : Thread} (hleaves : s.Leaves l thread) {q : Queue}
    (hq : s.sockets.contents (.queue q) ≠ []) :
    s.Clearing q ∨ ∃ other ∈ s.attendants profile q, other ≠ thread := by
  rcases h q hq with hclearing | hattendants
  · exact .inl hclearing
  · obtain ⟨other, hother⟩ := List.exists_mem_of_ne_nil _ hattendants
    by_cases heq : other = thread
    · subst heq
      have hmem := (mem_attendants.mp hother).2.1
      rcases hleaves with hempty | ⟨w, hends, rfl⟩
      · exact absurd (hempty q hmem) hq
      · exact hok.ends w hends q hmem hq
    · exact .inr ⟨other, hother, heq⟩

theorem attendants_update {sockets : Depot Place} {thread other : Thread} {task : Task} {q : Queue}
    (h : other ∈ s.attendants profile q) (hkeep : other = thread → task ≠ .returned) :
    other ∈ attendants profile
      { s with sockets := sockets, tasks := Function.update s.tasks thread task } q := by
  obtain ⟨hworker, hmem, htask⟩ := mem_attendants.mp h
  refine mem_attendants.mpr ⟨hworker, hmem, ?_⟩
  by_cases heq : other = thread
  · rw [heq]
    simpa using hkeep heq
  · simpa [Function.update_of_ne heq] using htask

/-- What a thread's step keeps, if the queue was served and the thread leaves none behind. -/
theorem Served.update {sockets : Depot Place} {thread : Thread} {task : Task} {q : Queue}
    (h : s.Served profile q) (hleaves : task = .returned →
      s.Clearing q ∨ ∃ other ∈ s.attendants profile q, other ≠ thread) :
    Served profile { s with sockets := sockets, tasks := Function.update s.tasks thread task }
      q := by
  by_cases htask : task = .returned
  · rcases hleaves htask with hclearing | ⟨other, hother, hne⟩
    · exact .inl hclearing
    · exact .inr (List.ne_nil_of_mem (attendants_update hother fun heq => absurd heq hne))
  · rcases h with hclearing | hattendants
    · exact .inl hclearing
    · obtain ⟨other, hother⟩ := List.exists_mem_of_ne_nil _ hattendants
      exact .inr (List.ne_nil_of_mem (attendants_update hother fun _ => htask))

theorem mem_block {q : Queue} {block : List Queue} (h : shutdownBlocks[q.block]? = some block) :
    q ∈ block := by
  cases q with
  | pending =>
    cases h
    exact List.mem_singleton_self _
  | lane l =>
    cases h
    cases l <;> decide
  | responses =>
    cases h
    exact List.mem_singleton_self _

theorem Guarded.change (h : Guarded profile s) (hok : Attended profile lane s l)
    (hc : Change profile lane s l t) : Guarded profile t := by
  intro k hk
  cases hc with
  | issue hwaiting =>
    simp only [Depot.issue_contents] at hk
    rw [if_neg (by simp)] at hk
    exact (h k hk).update nofun
  | turn thread task hthread hcount hleaves =>
    exact (h k hk).update fun htask => h.leaves hok (hleaves htask) hk
  | pass thread p q task hthread hfront hp hq hrank hadmits hcount hroom hfirst hpushes hleaves =>
    by_cases hqk : q = .queue k
    · obtain ⟨hpush, htask⟩ := hpushes k hqk
      exact (hok.pushes k hpush).update fun heq => absurd heq htask
    · obtain ⟨a, rest, hcons⟩ := List.exists_cons_of_ne_nil hfront
      have hpq : p ≠ q := fun heq => by simp [heq] at hrank
      have hold : s.sockets.contents (.queue k) ≠ [] := by
        intro hnil
        have hlength := Depot.length_move (x := .queue k) hcons hpq
        rw [if_neg (Ne.symm hqk), hnil] at hlength
        refine hk (List.eq_nil_of_length_eq_zero ?_)
        simp only [pass]
        simp only [List.length_nil] at hlength
        omega
      exact (h k hold).update fun htask => h.leaves hok (hleaves htask) hold
  | stop => exact h k hk
  | clear block hblock =>
    have hmem : k ∉ block := fun hmem => hk (foldl_drain_nil hmem)
    have hother : ∀ q ∈ block, Place.queue k ≠ .queue q := fun q hq heq =>
      hmem (Place.queue.inj heq ▸ hq)
    simp only [foldl_drain_of_ne hother (by simp)] at hk
    rcases h k hk with hclearing | hattendants
    · refine .inl (Nat.lt_of_le_of_ne hclearing ?_)
      intro heq
      rw [heq] at hblock
      exact hmem (mem_block hblock)
    · exact .inr hattendants
  | returns hacceptor hworkers hreturns => exact h k hk

/-- What is left when `run` has returned was answered, handed to a stream or closed. -/
def Settled (s : Listener) : Prop :=
  ∀ x, s.sockets.contents x ≠ [] → x = .answered ∨ x = .streamed ∨ x = .closed

theorem settled_of_idle (hcarried : Carried profile s) (hguarded : Guarded profile s)
    (hcleared : shutdownBlocks.length ≤ s.cleared)
    (hacceptor : s.tasks .acceptor = .waiting ∨ s.tasks .acceptor = .returned)
    (hworkers : ∀ thread ∈ workers profile, s.tasks thread = .returned) : Settled s := by
  have hidle : ∀ thread x, (s.tasks thread).count x = 0 := by
    intro thread x
    by_cases hthread : thread ∈ threads profile
    · rcases mem_threads.mp hthread with rfl | hworker
      · rcases hacceptor with h | h
        · rw [h, count_waiting]
        · rw [h, count_returned]
      · rw [hworkers thread hworker, count_returned]
    · rw [hcarried.absent thread hthread]
      cases thread <;> cases x <;> rfl
  have hqueue : ∀ q, s.sockets.contents (.queue q) = [] := by
    intro q
    by_contra hq
    rcases hguarded q hq with hclearing | hattendants
    · have hblock : q.block < shutdownBlocks.length := by
        cases q <;> simp [Queue.block, shutdownBlocks]
      exact absurd hclearing (Nat.not_le_of_lt (Nat.lt_of_lt_of_le hblock hcleared))
    · obtain ⟨thread, hthread⟩ := List.exists_mem_of_ne_nil _ hattendants
      obtain ⟨hworker, _, hnot⟩ := mem_attendants.mp hthread
      exact hnot (hworkers thread hworker)
  intro x hx
  cases x with
  | hand thread =>
    have hcount := hcarried.count thread (.hand thread) rfl
    rw [hidle] at hcount
    exact absurd (List.eq_nil_of_length_eq_zero hcount) hx
  | session w =>
    have hcount := hcarried.count (.worker w) (.session w) rfl
    rw [hidle] at hcount
    exact absurd (List.eq_nil_of_length_eq_zero hcount) hx
  | queue q => exact absurd (hqueue q) hx
  | streamed => exact .inr (.inl rfl)
  | answered => exact .inl rfl
  | closed => exact .inr (.inr rfl)

/-- Every accepted socket is in one place; a request is executed once at most, by a worker of its
lane, one of the background only where the foreground is empty; and the queues are first in
first out and bounded. -/
structure Conserved (profile : ConcurrencyProfile) (lane : Nat → RequestLane) (s : Listener) :
    Prop where
  place : ∀ socket, socket < s.sockets.issued → ∃! p, socket ∈ s.sockets.contents p
  apart : ∀ p, (s.sockets.contents p).Nodup
  once : ∀ w, (s.sockets.entered (.session w)).Nodup
  onlyOne : ∀ v w socket, socket ∈ s.sockets.entered (.session v) →
    socket ∈ s.sockets.entered (.session w) → v = w
  served : ∀ w, ∀ socket ∈ s.sockets.entered (.session w), profile.serves w (lane socket) = true
  foreground : ∀ l t w socket, s.step profile lane l = some t →
    t.sockets.entered (.hand (.worker w)) = s.sockets.entered (.hand (.worker w)) ++ [socket] →
    lane socket = .background → s.sockets.contents (.queue (.lane .foreground)) = []
  fifo : ∀ q, s.sockets.entered (.queue q) =
    s.sockets.left (.queue q) ++ s.sockets.contents (.queue q)
  bounded : Bounded s

structure Inv (profile : ConcurrencyProfile) (lane : Nat → RequestLane) (s : Listener) :
    Prop where
  sound : s.sockets.Sound Place.rank (Place.admits profile lane)
  carried : Carried profile s
  bounded : Bounded s

theorem inv_start : Inv profile lane {} where
  sound := Depot.sound_empty
  carried := ⟨fun thread x _ => by cases thread <;> cases x <;> rfl, fun _ _ => rfl⟩
  bounded _ _ := Nat.zero_le _

theorem Inv.step (h : Inv profile lane s) (hs : s.step profile lane l = some t) :
    Inv profile lane t := by
  have hc := step_change h.carried hs
  exact ⟨hc.sound h.sound, h.carried.change hc, h.bounded.change hc⟩

theorem Inv.conserved (h : Inv profile lane s) : Conserved profile lane s where
  place _ hsocket := h.sound.existsUnique hsocket
  apart := h.sound.contents_nodup
  once w := h.sound.once (.session w)
  onlyOne _ _ socket hv hw := Place.session.inj (h.sound.level _ _ socket hv hw rfl)
  served w := h.sound.admitted (.session w)
  foreground _ _ _ _ hs := (step_change h.carried hs).foreground_first h.sound
  fifo q := h.sound.fifo (.queue q)
  bounded := h.bounded

theorem guarded_start : Guarded profile {} := fun _ hq => absurd rfl hq

theorem settled_step (h : Inv profile lane s) (hguarded : Guarded profile s)
    (hok : Attended profile lane s l) (hs : s.step profile lane l = some t)
    (hreturned : t.returned = true) : Settled t := by
  have hnot : s.returned = false := by
    unfold step at hs
    split at hs
    · cases hs
    · rename_i hnot
      simpa using hnot
  cases step_change h.carried hs with
  | returns hacceptor hworkers hreturns =>
    have hsettled : Settled s :=
      settled_of_idle h.carried hguarded (hok.returns hreturns) hacceptor hworkers
    exact hsettled
  | _ =>
    have hsame : s.returned = true := hreturned
    rw [hnot] at hsame
    cases hsame

/-- In every run the listener conserves requests; where no socket is pushed to a queue that
nobody serves any more, none is left in a queue when `run` returns. -/
theorem requests_conserved (profile : ConcurrencyProfile) (lane : Nat → RequestLane)
    (steps : List Step) (s : Listener)
    (hrun : Machine.run (step profile lane) {} steps = some s) :
    Conserved profile lane s ∧
      (Machine.Along (step profile lane) (Attended profile lane) {} steps →
        s.returned = true → Settled s) := by
  have hinv : Inv profile lane s :=
    Machine.run_invariant (step profile lane) (fun _ _ _ h hs => h.step hs) inv_start hrun
  refine ⟨hinv.conserved, fun hok => ?_⟩
  let All (u : Listener) : Prop :=
    Inv profile lane u ∧ Guarded profile u ∧ (u.returned = true → Settled u)
  have hstep : ∀ u l v, All u → Attended profile lane u l → u.step profile lane l = some v →
      All v := by
    rintro u l v ⟨hu, hguarded, _⟩ hl hs
    exact ⟨hu.step hs, hguarded.change hl (step_change hu.carried hs),
      settled_step hu hguarded hl hs⟩
  have hall : All s := Machine.run_invariant_along (step profile lane) hstep
    ⟨inv_start, guarded_start, nofun⟩ hok hrun
  exact hall.2.2

instance (q : Queue) : Decidable (s.Served profile q) := inferInstanceAs (Decidable (_ ∨ _))

instance : Decidable (Attended profile lane s l) :=
  decidable_of_iff
    ((∀ q ∈ l.pushes lane s, s.Served profile q) ∧
      (∀ w ∈ l.ends, ∀ q ∈ (Thread.worker w).queues, s.sockets.contents (.queue q) ≠ [] →
        s.Clearing q ∨ ∃ thread ∈ s.attendants profile q, thread ≠ .worker w) ∧
      (l = .runReturns → shutdownBlocks.length ≤ s.cleared))
    ⟨fun h => ⟨h.1, h.2.1, h.2.2⟩, fun h => ⟨h.pushes, h.ends, h.returns⟩⟩

def openWorkers : List Step :=
  [.acceptAgain, .makeContext (.save 0) true, .makeContext (.general 0) true,
    .makeContext (.general 1) true, .makeContext (.general 2) true]

def wakeWorkers : List Step :=
  [.wake (.worker (.save 0)), .wake (.worker (.general 0)), .wake (.worker (.general 1)),
    .wake (.worker (.general 2)), .wake (.writer 0)]

def answerOne : List Step :=
  openWorkers ++
    [.accept, .acceptTest, .acceptPush, .acceptAgain, .wake (.ingress 0), .ingressTest 0,
      .read 0 true, .preparedTest 0, .pushLane 0, .wake (.worker (.save 0)), .begin (.save 0) false,
      .finish (.save 0) .response, .responseTest (.save 0), .pushResponse (.save 0),
      .wake (.writer 0), .written 0 true, .stop, .clear, .clear, .clear, .wake (.ingress 0)] ++
    wakeWorkers ++ [.acceptAborted, .runReturns]

theorem one_request_conserved : ∃ s,
    Machine.run (step {} fun _ => .save) {} answerOne = some s ∧ s.returned = true ∧
      s.sockets.contents .answered = [0] ∧ Conserved {} (fun _ => .save) s ∧ Settled s := by
  obtain ⟨s, hrun, hp⟩ := Machine.run_of_any (step {} fun _ => .save) {} answerOne
    (fun s => s.returned ∧ s.sockets.contents .answered = [0]) (by decide +kernel)
  have hend : s.returned = true ∧ s.sockets.contents .answered = [0] := by simpa using hp
  have hall := requests_conserved {} (fun _ => .save) answerOne s hrun
  exact ⟨s, hrun, hend.1, hend.2, hall.1, hall.2 (by decide +kernel) hend.1⟩

/-- Both sockets pass the test of the stop flag before `stop`, and come to their queues after
`shutdown_queued_work` and after the last worker has returned. -/
def pushTooLate : List Step :=
  openWorkers ++
    [.accept, .acceptTest, .acceptPush, .acceptAgain, .wake (.ingress 0), .ingressTest 0,
      .read 0 true, .preparedTest 0, .accept, .acceptTest, .stop, .clear, .clear, .clear] ++
    wakeWorkers ++
    [.pushLane 0, .wake (.ingress 0), .acceptPush, .acceptAgain, .runReturns]

theorem sockets_left_in_queues : ∃ s,
    Machine.run (step {} fun _ => .foreground) {} pushTooLate = some s ∧ s.returned = true ∧
      s.sockets.contents (.queue (.lane .foreground)) = [0] ∧
      s.sockets.contents (.queue .pending) = [1] := by
  obtain ⟨s, hrun, hp⟩ := Machine.run_of_any (step {} fun _ => .foreground) {} pushTooLate
    (fun s => s.returned ∧ s.sockets.contents (.queue (.lane .foreground)) = [0] ∧
      s.sockets.contents (.queue .pending) = [1]) (by decide +kernel)
  exact ⟨s, hrun, by simpa using hp⟩

end Runs

end Listener

end HolderDaemon
