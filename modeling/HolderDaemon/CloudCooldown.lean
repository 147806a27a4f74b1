import HolderDaemon.Machine
import HolderDaemon.RateLimit

/-!
The back-off of a cloud model that fails (`api/support/CloudQuota.cpp`, and
`effective_cooldown_policy` of `api/routes/ai/runs/AiRunPostRoute.cpp`). The calls for one model do
not overlap.
-/

set_option autoImplicit false

open Bytes

namespace HolderDaemon

namespace CloudCooldown

open CloudQuota (ModelId)

/-- A `long long`; none is an overflow. -/
def checked (i : Int) : Option Int := if -2 ^ 63 ≤ i ∧ i < 2 ^ 63 then some i else none

/-- What is configured at one of the levels; a level below the whole configuration says nothing
with a number that is not positive. -/
structure CooldownConfig where
  baseSeconds : Int64
  capSeconds : Int64

structure Policies where
  cfg : CooldownConfig
  provider : CooldownConfig
  model : CooldownConfig

/-- `effective_cooldown_policy`. -/
def effectiveCooldownPolicy (p : Policies) : CooldownConfig where
  baseSeconds :=
    if 0 < p.model.baseSeconds then p.model.baseSeconds
    else if 0 < p.provider.baseSeconds then p.provider.baseSeconds
    else p.cfg.baseSeconds
  capSeconds :=
    if 0 < p.model.capSeconds then p.model.capSeconds
    else if 0 < p.provider.capSeconds then p.provider.capSeconds
    else p.cfg.capSeconds

def failureCooldownSeconds (failureCount baseSeconds capSeconds : Int) : Option Int :=
  if failureCount ≤ 0 then some 0
  else do
    let safeBase := max 1 baseSeconds
    let safeCap := max safeBase capSeconds
    let bounded := min (failureCount - 1) 5
    let raw ← checked (safeBase * 2 ^ bounded.toNat)
    some (min raw safeCap)

/-- A row of `ai_cloud_model_cooldowns`. -/
structure CooldownRow where
  model : ModelId
  failureCount : Int
  cooldownUntil : Int
  lastError : Text
  updatedAt : Int64
  deriving DecidableEq

/-- What a failure counts itself as. -/
def nextFailureCount (rows : List CooldownRow) (model : ModelId) : Option Int :=
  match Rows.get CooldownRow.model model rows with
  | none => some 1
  | some current => (checked (current.failureCount + 1)).map (max 1)

/-- `record_cloud_model_failure`; none where a number overflows. -/
def recordCloudModelFailure (rows : List CooldownRow) (model : ModelId) (error : Bytes)
    (now : Int64) (policy : CooldownConfig) : Option (List CooldownRow) := do
  let failureCount ← nextFailureCount rows model
  let cooldownSeconds ←
    failureCooldownSeconds failureCount policy.baseSeconds.toInt policy.capSeconds.toInt
  let cooldownUntil ← checked (now.toInt + cooldownSeconds)
  some (Rows.put CooldownRow.model ⟨model, failureCount, cooldownUntil, cString error, now⟩ rows)

def clearCloudModelCooldown (rows : List CooldownRow) (model : ModelId) (now : Int64) :
    List CooldownRow :=
  Rows.put CooldownRow.model ⟨model, 0, 0, cString [], now⟩ rows

inductive Call where
  | fail (model : ModelId) (error : Bytes) (now : Int64) (policies : Policies)
  | clear (model : ModelId) (now : Int64)

def Call.model : Call → ModelId
  | .fail model _ _ _ => model
  | .clear model _ => model

def Call.isFailure : Call → Bool
  | .fail .. => true
  | .clear .. => false

def step (rows : List CooldownRow) : Call → Option (List CooldownRow)
  | .fail model error now policies =>
    recordCloudModelFailure rows model error now (effectiveCooldownPolicy policies)
  | .clear model now => some (clearCloudModelCooldown rows model now)

/-! What the rows are to say -/

/-- The delay of the `n`-th failure in a row. -/
def delay (policy : CooldownConfig) (n : Nat) : Int :=
  let base := max 1 policy.baseSeconds.toInt
  if n = 0 then 0 else min (base * 2 ^ min (n - 1) 5) (max base policy.capSeconds.toInt)

/-- The calls for a model, the last one first. -/
def latest (past : List Call) (model : ModelId) : List Call :=
  past.reverse.filter fun call => call.model = model

/-- The failures since the last clear. -/
def failures (past : List Call) (model : ModelId) : Nat :=
  ((latest past model).takeWhile Call.isFailure).length

/-- The row of a model after these calls. -/
def describedRow (past : List Call) (model : ModelId) : Option CooldownRow :=
  match latest past model with
  | [] => none
  | .fail _ error now policies :: _ =>
    let n := failures past model
    some ⟨model, n, now.toInt + delay (effectiveCooldownPolicy policies) n, cString error, now⟩
  | .clear _ now :: _ => some ⟨model, 0, 0, cString [], now⟩

def Described (past : List Call) (rows : List CooldownRow) : Prop :=
  ∀ model, Rows.get CooldownRow.model model rows = describedRow past model

/-- Nothing overflows in a call after these. -/
def Fits (past : List Call) : Call → Prop
  | .fail model _ now policies =>
    let policy := effectiveCooldownPolicy policies
    let n := failures past model + 1
    (n : Int) < 2 ^ 63 ∧ max 1 policy.baseSeconds.toInt * 2 ^ min (n - 1) 5 < 2 ^ 63 ∧
      now.toInt + delay policy n < 2 ^ 63
  | .clear .. => True

theorem checked_eq {i : Int} (h : -2 ^ 63 ≤ i) :
    checked i = if i < 2 ^ 63 then some i else none := by
  unfold checked
  simp only [h, true_and]

theorem delay_nonneg (policy : CooldownConfig) (n : Nat) : 0 ≤ delay policy n := by
  unfold delay
  dsimp only
  split
  · exact Int.le_refl 0
  · have hpow : (0 : Int) < 2 ^ min (n - 1) 5 := Int.pow_pos (by decide)
    have hraw : 0 ≤ max 1 policy.baseSeconds.toInt * 2 ^ min (n - 1) 5 :=
      Int.mul_nonneg (by omega) (Int.le_of_lt hpow)
    omega

/-- The delay never decreases while failures go on with one policy. -/
theorem delay_mono (policy : CooldownConfig) {n m : Nat} (h : n ≤ m) :
    delay policy n ≤ delay policy m := by
  by_cases hn : n = 0
  · subst hn
    exact delay_nonneg policy m
  · have hm : m ≠ 0 := by omega
    have hexp : min (n - 1) 5 ≤ min (m - 1) 5 := by omega
    have hpow : (2 : Int) ^ min (n - 1) 5 ≤ 2 ^ min (m - 1) 5 :=
      pow_le_pow_right₀ (by decide) hexp
    have hraw : max 1 policy.baseSeconds.toInt * 2 ^ min (n - 1) 5 ≤
        max 1 policy.baseSeconds.toInt * 2 ^ min (m - 1) 5 :=
      Int.mul_le_mul_of_nonneg_left hpow (by omega)
    unfold delay
    dsimp only
    rw [if_neg hn, if_neg hm]
    omega

theorem failureCooldownSeconds_eq (policy : CooldownConfig) (n : Nat) :
    failureCooldownSeconds (n + 1 : Nat) policy.baseSeconds.toInt policy.capSeconds.toInt =
      if max 1 policy.baseSeconds.toInt * 2 ^ min n 5 < 2 ^ 63 then some (delay policy (n + 1))
      else none := by
  have hexp : (min ((n + 1 : Nat) - 1 : Int) 5).toNat = min n 5 := by omega
  have hpow : (0 : Int) < 2 ^ min n 5 := Int.pow_pos (by decide)
  have hraw : 0 ≤ max 1 policy.baseSeconds.toInt * 2 ^ min n 5 :=
    Int.mul_nonneg (by omega) (Int.le_of_lt hpow)
  rw [failureCooldownSeconds, if_neg (by omega)]
  dsimp only
  rw [hexp, checked_eq (by omega)]
  split
  · rw [delay, if_neg (Nat.succ_ne_zero n), Nat.add_sub_cancel]
    rfl
  · rfl

/-! One call -/

theorem latest_snoc (past : List Call) (call : Call) (model : ModelId) :
    latest (past ++ [call]) model =
      if call.model = model then call :: latest past model else latest past model := by
  rw [latest, List.reverse_append, List.reverse_singleton, List.singleton_append, List.filter_cons]
  simp only [decide_eq_true_eq]
  rfl

theorem failures_snoc_fail (past : List Call) (model : ModelId) (error : Bytes) (now : Int64)
    (policies : Policies) :
    failures (past ++ [.fail model error now policies]) model = failures past model + 1 := by
  rw [failures, latest_snoc, Call.model, if_pos rfl, List.takeWhile_cons_of_pos rfl,
    List.length_cons, failures]

theorem describedRow_snoc_of_ne {past : List Call} {call : Call} {model : ModelId}
    (h : call.model ≠ model) : describedRow (past ++ [call]) model = describedRow past model := by
  rw [describedRow, failures, latest_snoc, if_neg h, describedRow, failures]

theorem nextFailureCount_eq {past : List Call} {rows : List CooldownRow}
    (h : Described past rows) (model : ModelId) :
    nextFailureCount rows model =
      if ((failures past model + 1 : Nat) : Int) < 2 ^ 63 then
        some ((failures past model + 1 : Nat) : Int) else none := by
  have hcount : ∀ n : Nat, (checked ((n : Int) + 1)).map (max 1) =
      if ((n + 1 : Nat) : Int) < 2 ^ 63 then some ((n + 1 : Nat) : Int) else none := by
    intro n
    rw [checked_eq (by omega), Int.natCast_succ]
    split
    · rw [Option.map_some, max_eq_right (by omega)]
    · rfl
  rw [nextFailureCount, h model, describedRow]
  cases hlatest : latest past model with
  | nil =>
    have hzero : failures past model = 0 := by rw [failures, hlatest]; rfl
    rw [hzero]
    rfl
  | cons call calls =>
    cases call with
    | fail _ _ _ _ => exact hcount _
    | clear _ _ =>
      have hzero : failures past model = 0 := by rw [failures, hlatest]; rfl
      rw [hzero]
      exact hcount 0

/-- A call goes through exactly where it fits, and the rows are as described after it. -/
theorem step_described {past : List Call} {rows : List CooldownRow} (h : Described past rows)
    (call : Call) :
    (Fits past call → ∃ next, step rows call = some next ∧ Described (past ++ [call]) next) ∧
      (¬ Fits past call → step rows call = none) := by
  have hput : ∀ row : CooldownRow, row.model = call.model →
      describedRow (past ++ [call]) call.model = some row →
      Described (past ++ [call]) (Rows.put CooldownRow.model row rows) := by
    intro row hmodel hrow model
    rw [Rows.get_put, hmodel]
    split
    · rename_i heq
      rw [← heq, hrow]
    · rename_i hne
      rw [describedRow_snoc_of_ne hne, h model]
  cases call with
  | clear model now =>
    refine ⟨fun _ => ⟨_, rfl, hput _ rfl ?_⟩, fun hnot => absurd trivial hnot⟩
    rw [describedRow, latest_snoc, if_pos rfl]
    rfl
  | fail model error now policies =>
    have hcount := nextFailureCount_eq h model
    have hseconds :=
      failureCooldownSeconds_eq (effectiveCooldownPolicy policies) (failures past model)
    have hdelay := delay_nonneg (effectiveCooldownPolicy policies) (failures past model + 1)
    have hnow : -2 ^ 63 ≤ now.toInt := now.le_toInt
    have hgo : Fits past (.fail model error now policies) →
        step rows (.fail model error now policies) =
          some (Rows.put CooldownRow.model ⟨model, (failures past model + 1 : Nat),
            now.toInt + delay (effectiveCooldownPolicy policies) (failures past model + 1),
            cString error, now⟩ rows) := by
      rintro ⟨hn, hraw, huntil⟩
      rw [Nat.add_sub_cancel] at hraw
      rw [if_pos hn] at hcount
      rw [if_pos hraw] at hseconds
      rw [step, recordCloudModelFailure, hcount, Option.bind_eq_bind, Option.bind_some, hseconds,
        Option.bind_some, checked_eq (by omega), if_pos huntil]
      rfl
    have hstop : ¬ Fits past (.fail model error now policies) →
        step rows (.fail model error now policies) = none := by
      intro hnot
      rw [step, recordCloudModelFailure, hcount]
      split
      · rename_i hn
        rw [Option.bind_eq_bind, Option.bind_some, hseconds]
        split
        · rename_i hraw
          rw [Option.bind_some, checked_eq (by omega),
            if_neg fun huntil => hnot ⟨hn, hraw, huntil⟩]
          rfl
        · rfl
      · rfl
    have hrow : describedRow (past ++ [.fail model error now policies]) model =
        some ⟨model, (failures past model + 1 : Nat),
          now.toInt + delay (effectiveCooldownPolicy policies) (failures past model + 1),
          cString error, now⟩ := by
      rw [describedRow, failures_snoc_fail, latest_snoc, Call.model, if_pos rfl]
    exact ⟨fun hfits => ⟨_, hgo hfits, hput _ rfl hrow⟩, hstop⟩

/-! Runs -/

theorem run_described_iff {past : List Call} {rows : List CooldownRow} (h : Described past rows)
    (calls : List Call) :
    (∃ next, Machine.run step rows calls = some next ∧ Described (past ++ calls) next) ↔
      ∀ before call after, calls = before ++ call :: after → Fits (past ++ before) call := by
  induction calls generalizing past rows with
  | nil =>
    refine iff_of_true ⟨rows, rfl, by rwa [List.append_nil]⟩ fun before call after hnil => ?_
    exact absurd hnil.symm (by simp)
  | cons call calls ih =>
    obtain ⟨hgo, hstop⟩ := step_described h call
    by_cases hfits : Fits past call
    · obtain ⟨next, hnext, hdescribed⟩ := hgo hfits
      have hrest := ih hdescribed
      rw [List.append_assoc, List.singleton_append] at hrest
      rw [Machine.run_cons, hnext, Option.bind_some, hrest]
      constructor
      · intro hall before other after hsplit
        cases before with
        | nil =>
          obtain ⟨rfl, -⟩ := List.cons.inj hsplit
          rwa [List.append_nil]
        | cons first before =>
          obtain ⟨rfl, htail⟩ := List.cons.inj hsplit
          have hone := hall before other after htail
          rwa [List.append_assoc] at hone
      · intro hall before other after hsplit
        have hone := hall (call :: before) other after (by rw [hsplit, List.cons_append])
        rwa [List.append_assoc]
    · rw [Machine.run_cons, hstop hfits, Option.bind_none]
      refine iff_of_false (by simp) fun hall => hfits ?_
      have hone := hall [] call calls rfl
      rwa [List.append_nil] at hone

theorem described_nil : Described [] [] := fun _ => rfl

/-- The rows are as described, and nothing overflows, exactly where every call fits; and the delay
never decreases. -/
theorem backoff_iff (calls : List Call) :
    ((∃ rows, Machine.run step [] calls = some rows ∧ Described calls rows) ↔
      ∀ before call after, calls = before ++ call :: after → Fits before call) ∧
    ∀ policy n m, n ≤ m → delay policy n ≤ delay policy m :=
  ⟨run_described_iff described_nil calls, fun policy _ _ h => delay_mono policy h⟩

def gemini : ModelId := ⟨cString (ascii "google"), cString (ascii "gemini")⟩

/-- A base that the configuration takes, and no level below it says anything else. -/
def largeBase : Policies where
  cfg := ⟨2 ^ 62, 900⟩
  provider := ⟨0, 0⟩
  model := ⟨0, 0⟩

/-- The second failure overflows. -/
theorem backoff_overflows :
    Machine.run step [] [.fail gemini (ascii "down") 1000 largeBase,
      .fail gemini (ascii "down") 1001 largeBase] = none := by
  decide +kernel

end CloudCooldown

end HolderDaemon
